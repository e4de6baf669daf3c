import Vanguard.Auth.DataSource

namespace Vanguard.Xfr

open Library Zone Auth

/-- A NOTIFY message as `HandleNotify` reads it. -/
structure Notify where
  view : String
  ip : String
  answers : List (RRset Rdata)
  deriving DecidableEq, Repr

/-- A handler between `addZoneToTransfer` and its end. -/
structure Handler where
  view : String
  soa : RRset Rdata
  ip : String
  targetZone : Ptr
  deriving DecidableEq, Repr

/-- A goroutine that runs `doXFR`, or is going to. -/
structure Transfer where
  view : String
  zone : Ptr
  latestSerial : UInt32
  master : String
  deriving DecidableEq, Repr

structure XFRRunner where
  inFlightIXFR : String → List Name
  handlers : List Handler
  transfers : List Transfer

def newXFRRunner : XFRRunner := ⟨fun _ => [], [], []⟩

def addZoneToTransfer (inFlight : String → List Name) (view : String) (zone : Name) :
    Option (String → List Name) :=
  if zone ∈ inFlight view then none
  else some (Function.update inFlight view (inFlight view ++ [zone]))

def removeZoneFromTransfer (inFlight : String → List Name) (view : String) (zone : Name) :
    String → List Name :=
  Function.update inFlight view ((inFlight view).erase zone)

inductive Event where
  /-- A notification is handled up to `addZoneToTransfer`. -/
  | notify (n : Notify)
  | check (i : ℕ)
  | finish (i : ℕ)
  deriving DecidableEq, Repr

inductive NoSuchGoroutine where
  | mk
  deriving DecidableEq, Repr

variable {T Z : Type} [NameTree Z Ptr] (ds : AuthDataSource T Z)

def handleNotify (n : Notify) (s : XFRRunner) : XFRRunner :=
  match n.answers with
  | [soa] =>
    if soa.typ ≠ .soa then s
    else
      match ds.getZone n.view soa.name with
      | .exactMatch targetZone =>
        match addZoneToTransfer s.inFlightIXFR n.view soa.name with
        | none => s
        | some inFlightIXFR =>
          { s with inFlightIXFR, handlers := s.handlers ++ [⟨n.view, soa, n.ip, targetZone⟩] }
      | _ => s
  | _ => s

/-- `HandleNotify` from there on, none if it returns or panics before the transfer. -/
def Handler.checks (h : Handler) : Option Transfer :=
  match h.soa.rdatas with
  | .soa rdata :: _ =>
    let z := ds.zones.load h.targetZone
    if z.isMaster then none
    else
      let master := h.ip ++ ":53"
      if master ∈ z.getMasters then some ⟨h.view, h.targetZone, rdata.serial, master⟩ else none
  | _ => none

def Transfer.name (t : Transfer) : Name := (ds.zones.load t.zone).zone.memoryZone.origin

def XFRRunner.step (s : XFRRunner) : Event → Except NoSuchGoroutine XFRRunner
  | .notify n => .ok (handleNotify ds n s)
  | .check i =>
    match s.handlers[i]? with
    | none => .error .mk
    | some h =>
      .ok { s with
        handlers := s.handlers.eraseIdx i
        transfers := s.transfers ++ (h.checks ds).toList }
  | .finish i =>
    match s.transfers[i]? with
    | none => .error .mk
    | some t =>
      -- the deferred call of `doXFR`, on whichever way it returns
      .ok { s with
        inFlightIXFR := removeZoneFromTransfer s.inFlightIXFR t.view (t.name ds)
        transfers := s.transfers.eraseIdx i }

def XFRRunner.pending (s : XFRRunner) : List (String × Name) :=
  s.handlers.map fun h => (h.view, h.soa.name)

def XFRRunner.running (s : XFRRunner) : List (String × Name) :=
  s.transfers.map fun t => (t.view, t.name ds)

def FromMaster (n : Notify) (name : Name) : Prop :=
  ∃ soa rdata rdatas z, n.answers = [soa] ∧ soa.typ = .soa ∧ soa.name = name ∧
    soa.rdatas = .soa rdata :: rdatas ∧ ds.getZone n.view name = .exactMatch z ∧
    (ds.zones.load z).isMaster = false ∧ n.ip ++ ":53" ∈ (ds.zones.load z).getMasters

/-- No zone is locked out: one that is marked is being transferred, or a handler is about to start
its transfer, and never two of them; one that is not gets a transfer by the next NOTIFY of a master.
-/
structure NotLockedOut (s : XFRRunner) : Prop where
  marked : ∀ view, ∀ name ∈ s.inFlightIXFR view,
    (view, name) ∈ s.running ds ∨ (view, name) ∈ s.pending
  once : (s.running ds).Nodup
  /-- A zone without a transfer or handler gets one by a NOTIFY of a master. -/
  starts : ∀ n name, (n.view, name) ∉ s.running ds → (n.view, name) ∉ s.pending →
    FromMaster ds n name → ∃ mid s', s.step ds (.notify n) = .ok mid ∧
      mid.step ds (.check s.handlers.length) = .ok s' ∧ (n.view, name) ∈ s'.running ds

def Handler.Passes (h : Handler) : Prop :=
  h.soa.rdatas.head?.any Rdata.isSoa = true ∧ (ds.zones.load h.targetZone).isMaster = false ∧
    h.ip ++ ":53" ∈ (ds.zones.load h.targetZone).getMasters

instance (h : Handler) : Decidable (h.Passes ds) := inferInstanceAs (Decidable (_ ∧ _))

def Accepts (s : XFRRunner) : Event → Prop
  | .check i => ∀ h ∈ s.handlers[i]?, h.Passes ds
  | _ => True

instance (s : XFRRunner) : ∀ e, Decidable (Accepts ds s e)
  | .notify _ => .isTrue trivial
  | .finish _ => .isTrue trivial
  | .check i =>
    match hi : s.handlers[i]? with
    | none => .isTrue (by simp [Accepts, hi])
    | some h => decidable_of_iff (h.Passes ds) (by simp [Accepts, hi])

end Vanguard.Xfr
