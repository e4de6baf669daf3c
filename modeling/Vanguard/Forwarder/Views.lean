import Vanguard.Cache.HttpError
import Vanguard.Dns.NameTree
import Vanguard.Forwarder.Machine
import Vanguard.Forwarder.Selectors
import Vanguard.Util.Sender

/-!
# The forward zones of the views

`ViewFwderMgr` has a tree of forward zones for each view, from the configuration and from commands.
`processRequest` sends a query to what `GetFwder` finds for its name: a forwarder, known by its
address, or a group that chooses one.
-/

namespace Vanguard.Forwarder.Views

open Cache (HttpError errUnknownView)
open Library Util

inductive FwdSelectPolicy where
  | fixedOrder
  | rttBased
  | roundRobin
  deriving DecidableEq, Repr

def strToFwdSelectPolicy (style : String) : FwdSelectPolicy :=
  ([("fixed_order", .fixedOrder), ("rtt", .rttBased), ("round_robin", .roundRobin)].lookup
    style).getD .fixedOrder

def fwderMatchException : String := "no"

/-- `FwderSelector`. -/
inductive Selector where
  | fixOrder (s : FixOrderSelector String)
  | rttBased (s : RttBasedSelector String)
  | roundRobin (s : RoundRobinSelector String)
  deriving DecidableEq, Repr

def createSelector (policy : FwdSelectPolicy) (fwders : List String) : Selector :=
  match policy with
  | .fixedOrder => .fixOrder ⟨fwders⟩
  | .rttBased => .rttBased (newRttBasedSelector fwders)
  | .roundRobin => .roundRobin (newRoundRobinSelector fwders)

def Selector.getFwders : Selector → List String
  | .fixOrder s => s.fwders
  | .rttBased s => s.fwders
  | .roundRobin s => s.fwders

def Selector.selectFwder (sort : ℕ → SortProgram) (rtt : String → Time) (down : String → Bool) :
    Selector → Except Panic (Option String × Selector)
  | .fixOrder s => (s.selectFwder down).map fun f => (f, .fixOrder s)
  | .rttBased s => (s.selectFwder sort rtt down).map fun result => (result.1, .rttBased result.2)
  | .roundRobin s => (s.selectFwder down).map fun result => (result.1.1, .roundRobin result.2)

def setQuerySource (down fails : String → Bool) : List String → Bool
  | [] => true
  | fwder :: fwders =>
    if down fwder = false then if fails fwder then false else setQuerySource down fails fwders
    else setQuerySource down fails fwders

structure FwderGroup where
  selector : Selector
  lastFwder : Option String
  deriving DecidableEq, Repr

inductive SafeFwder where
  | one (addr : String)
  | group (p : Ptr)
  deriving DecidableEq, Repr

inductive ZoneMatchType where
  | subdomain
  | exact
  | exception
  deriving DecidableEq, Repr

structure ZoneFwder where
  matchType : ZoneMatchType
  fwderGroup : SafeFwder
  deriving DecidableEq, Repr

def newZoneForwarder (groups : Heap FwderGroup) (style : String) (forwarders : List String) :
    Heap FwderGroup × ZoneFwder :=
  let matchType := if style = fwderMatchException then .exception else .subdomain
  let policy := if style = fwderMatchException then .roundRobin else strToFwdSelectPolicy style
  match forwarders with
  | [addr] => (groups, ⟨matchType, .one addr⟩)
  | fwders =>
    let (groups, p) := groups.alloc ⟨createSelector policy fwders, none⟩
    (groups, ⟨matchType, .group p⟩)

/-- The loop of `getFwder` over the stack, with the match flag of the search. -/
def walk (exactMatch : Bool) : List ZoneFwder → Option SafeFwder
  | [] => none
  | zoneFwder :: parents =>
    match zoneFwder.matchType with
    | .exception => none
    | .subdomain => some zoneFwder.fwderGroup
    | .exact => if exactMatch then some zoneFwder.fwderGroup else walk exactMatch parents

def getFwder {T : Type} [NameTree T ZoneFwder] (zoneFwders : T) (name : Name) : Option SafeFwder :=
  match NameTree.searchParents zoneFwders name with
  | .notFound => none
  | .exactMatch parents => walk true parents
  | .closestEncloser parents => walk false parents

structure ViewFwderMgr (T : Type) where
  fwders : String → Option T
  groups : Heap FwderGroup

def ViewFwderMgr.init {T : Type} : ViewFwderMgr T := ⟨fun _ => none, ⟨fun _ => ⟨.fixOrder ⟨[]⟩,
  none⟩, 0⟩⟩

structure ForwardZoneParam where
  view : String
  name : String
  forwarders : List String
  forwardStyle : String
  deriving DecidableEq, Repr

def errDuplicateForwardZone : HttpError := ⟨804, "duplicate forward zone"⟩
def errAddForwardZoneFailed : HttpError := ⟨808, "add forward zone failed"⟩
def errDeleteForwardZoneFailed : HttpError := ⟨809, "delete forward zone failed"⟩
def errUpdateForwardZoneFailed : HttpError := ⟨810, "update forward zone failed"⟩

section commands

variable {T : Type} [NameTree T ZoneFwder] (nameFromString : String → Except String Name)

def addZoneFwder (zones : T) (name : String) (forwarder : ZoneFwder) : Except String T :=
  match nameFromString name with
  | .error e => .error e
  | .ok dname =>
    if (NameTree.get zones dname).isSome then .error errDuplicateForwardZone.info
    else .ok (NameTree.insert zones dname forwarder)

def ViewFwderMgr.addForwardZone (mgr : ViewFwderMgr T) :
    List ForwardZoneParam → ViewFwderMgr T × Option HttpError
  | [] => (mgr, none)
  | z :: zones =>
    match mgr.fwders z.view with
    | none => (mgr, some (errUnknownView.addDetail z.view))
    | some viewFwder =>
      let (groups, zoneFwder) := newZoneForwarder mgr.groups z.forwardStyle z.forwarders
      match addZoneFwder nameFromString viewFwder z.name zoneFwder with
      | .error e => ({ mgr with groups }, some (errAddForwardZoneFailed.addDetail e))
      | .ok viewFwder =>
        ViewFwderMgr.addForwardZone
          { mgr with fwders := Function.update mgr.fwders z.view (some viewFwder), groups } zones

variable [ErasableNameTree T ZoneFwder]

def deleteZoneFwder (zones : T) (name : String) : Except String T :=
  (nameFromString name).map (ErasableNameTree.delete zones)

def ViewFwderMgr.deleteForwardZone (mgr : ViewFwderMgr T) (view name : String) :
    ViewFwderMgr T × Option HttpError :=
  match mgr.fwders view with
  | none => (mgr, some (errUnknownView.addDetail view))
  | some viewFwder =>
    match deleteZoneFwder nameFromString viewFwder name with
    | .error e => (mgr, some (errDeleteForwardZoneFailed.addDetail e))
    | .ok viewFwder =>
      ({ mgr with fwders := Function.update mgr.fwders view (some viewFwder) }, none)

def ViewFwderMgr.updateForwardZone (mgr : ViewFwderMgr T) (z : ForwardZoneParam) :
    ViewFwderMgr T × Option HttpError :=
  match mgr.fwders z.view with
  | none => (mgr, some (errUnknownView.addDetail z.view))
  | some viewFwder =>
    let (groups, zoneFwder) := newZoneForwarder mgr.groups z.forwardStyle z.forwarders
    match deleteZoneFwder nameFromString viewFwder z.name with
    | .error e => ({ mgr with groups }, some (errUpdateForwardZoneFailed.addDetail e))
    | .ok viewFwder =>
      match addZoneFwder nameFromString viewFwder z.name zoneFwder with
      | .error e =>
        ({ fwders := Function.update mgr.fwders z.view (some viewFwder), groups },
          some (errUpdateForwardZoneFailed.addDetail e))
      | .ok viewFwder =>
        ({ fwders := Function.update mgr.fwders z.view (some viewFwder), groups }, none)

omit [ErasableNameTree T ZoneFwder] in
/-- The loop of `ReloadConfig` over the zones, none where it panics. -/
def ViewFwderMgr.loadZones (mgr : ViewFwderMgr T) : List ForwardZoneParam → Option (ViewFwderMgr T)
  | [] => some mgr
  | z :: zones =>
    match mgr.fwders z.view with
    | none => none
    | some viewFwder =>
      let (groups, zoneFwder) := newZoneForwarder mgr.groups z.forwardStyle z.forwarders
      match addZoneFwder nameFromString viewFwder z.name zoneFwder with
      | .error _ => none
      | .ok viewFwder =>
        ViewFwderMgr.loadZones
          { mgr with fwders := Function.update mgr.fwders z.view (some viewFwder), groups } zones

omit [ErasableNameTree T ZoneFwder] in
def ViewFwderMgr.reloadConfig (mgr : ViewFwderMgr T) (views : List String)
    (zones : List ForwardZoneParam) : Option (ViewFwderMgr T) :=
  ViewFwderMgr.loadZones nameFromString
    { mgr with fwders := fun view =>
        if views.contains view then some NameTree.newDomainTree else none } zones

end commands

section query

variable {B : Type}

def ViewFwderMgr.getFwder {T : Type} [NameTree T ZoneFwder] (mgr : ViewFwderMgr T) (view : String)
    (name : Name) : Option SafeFwder :=
  (mgr.fwders view).bind fun viewFwder => Views.getFwder viewFwder name

structure Attempt (B : Type) where
  down : String → Bool
  /-- `GetLastRtt`. -/
  rtt : String → Time
  /-- What `Forward` of the forwarder returns. -/
  reply : String → Except QueryError B

inductive ForwardError where
  | query (e : QueryError)
  | allFwderIsDown
  deriving DecidableEq, Repr

def FwderGroup.forwardOnce (sort : ℕ → SortProgram) (g : FwderGroup) (a : Attempt B) :
    Except Panic (FwderGroup × Except ForwardError B) :=
  match g.selector.selectFwder sort a.rtt a.down with
  | .error p => .error p
  | .ok (none, selector) => .ok (⟨selector, none⟩, .error .allFwderIsDown)
  | .ok (some addr, selector) =>
    .ok (⟨selector, some addr⟩, (a.reply addr).mapError ForwardError.query)

def FwderGroup.forward (sort : ℕ → SortProgram) (g : FwderGroup) :
    List (Attempt B) → Except ForwardError (Option B) →
      Except Panic (FwderGroup × Except ForwardError (Option B))
  | [], last => .ok (g, last)
  | a :: attempts, _ =>
    match g.forwardOnce sort a with
    | .error p => .error p
    | .ok (g, .ok resp) => .ok (g, .ok (some resp))
    | .ok (g, .error e) => g.forward sort attempts (.error e)

def FwderGroup.remoteAddr (g : FwderGroup) : Except Panic String :=
  match g.lastFwder with
  | some addr => .ok addr
  | none =>
    match g.selector.getFwders with
    | [] => .error .indexOutOfRange
    | addr :: _ => .ok addr

structure Request (B : Type) where
  view : String
  name : Name
  /-- `IsDown` in `SetQuerySource`. -/
  down : String → Bool
  /-- Whether `NewSafeUDPSender` fails for the forwarder. -/
  senderFails : String → Bool
  attempts : ℕ → Attempt B

/-- `Forwarder.processRequest`. The log asks for the address whether or not the query succeeded. -/
def processRequest {T : Type} [NameTree T ZoneFwder] (sort : ℕ → SortProgram)
    (mgr : ViewFwderMgr T) (r : Request B) : Except Panic (ViewFwderMgr T × Option B) :=
  match mgr.getFwder r.view r.name with
  | none => .ok (mgr, none)
  | some (.one addr) =>
    if r.senderFails addr then .ok (mgr, none)
    else .ok (mgr, ((r.attempts 0).reply addr).toOption)
  | some (.group p) =>
    let g := mgr.groups.load p
    if setQuerySource r.down r.senderFails g.selector.getFwders then
      match g.forward sort ((List.range maxRetryCount).map r.attempts) (.ok none) with
      | .error panic => .error panic
      | .ok (g, result) =>
        match g.remoteAddr with
        | .error panic => .error panic
        | .ok _ => .ok ({ mgr with groups := mgr.groups.write p g }, result.toOption.join)
    else .ok (mgr, none)

end query

inductive Event (B : Type) where
  | reloadConfig (views : List String) (zones : List ForwardZoneParam)
  | addForwardZone (zones : List ForwardZoneParam)
  | deleteForwardZone (view name : String)
  | updateForwardZone (zone : ForwardZoneParam)
  | query (r : Request B)

inductive Stop where
  | config
  /-- `processRequest` panics. -/
  | panic (p : Panic)
  deriving DecidableEq, Repr

def ViewFwderMgr.step {B T : Type} [NameTree T ZoneFwder] [ErasableNameTree T ZoneFwder]
    (nameFromString : String → Except String Name) (sort : ℕ → SortProgram)
    (mgr : ViewFwderMgr T) : Event B → Except Stop (ViewFwderMgr T)
  | .reloadConfig views zones =>
    match mgr.reloadConfig nameFromString views zones with
    | none => .error .config
    | some mgr => .ok mgr
  | .addForwardZone zones => .ok (mgr.addForwardZone nameFromString zones).1
  | .deleteForwardZone view name => .ok (mgr.deleteForwardZone nameFromString view name).1
  | .updateForwardZone zone => .ok (mgr.updateForwardZone nameFromString zone).1
  | .query r =>
    match processRequest sort mgr r with
    | .error p => .error (.panic p)
    | .ok result => .ok result.1

end Vanguard.Forwarder.Views
