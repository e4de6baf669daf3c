import Vanguard.Auth.DataSource

/-!
# Dynamic updates

`handleDynamicRRsets` applies the RRsets of an update to a transaction. It increases the serial
unless some RRset was a SOA, and `addRRset` passes over a SOA that is not newer without an error.
-/

namespace Vanguard

/-- `RR_ANY`. -/
def RRType.any : RRType := ⟨255⟩

def RRClass.any : RRClass := ⟨255⟩

namespace Auth

open Library Zone

/-- What `handleDynamicRRsets` returns instead of nil. -/
inductive UpdateError where
  | noAuthUpdate
  | zone (err : ZoneError)
  deriving DecidableEq, Repr

def updateOp (p : Ptr) (rrset : RRset Ptr) : ZoneOp :=
  if rrset.cls = .internet then .add p
  else if rrset.typ = .any then .deleteDomain rrset.name
  else if rrset.cls = .any then .deleteRRset p
  else .deleteRr p

structure Progress (T : Type) where
  objects : Objects
  tmp : MemoryZone T
  explicitUpdateSOA : Bool
  hasRRModified : Bool

inductive Stop where
  | panic (e : Panic)
  | err (objects : Objects) (err : ZoneError)

variable {T Z : Type} [DomainTree T NameNode] [NameTree Z Ptr]

/-- One round of the loop of `handleDynamicRRsets`. -/
def updateRRset (s : Progress T) (p : Ptr) : Except Stop (Progress T) :=
  let rrset := s.objects.rrsets.load p
  match s.tmp.perform s.objects (updateOp p rrset) with
  | .error e => .error (.panic e)
  | .ok o =>
    match o.err with
    | none =>
      .ok ⟨o.objects, o.zone, s.explicitUpdateSOA || rrset.typ = .soa, true⟩
    | some .noEffectiveUpdate => .ok { s with objects := o.objects, tmp := o.zone }
    | some err => .error (.err o.objects err)

/-- What `handleDynamicRRsets` leaves: the objects, the zone and what it returned. -/
structure Updated (T : Type) where
  objects : Objects
  zone : DynamicZone T
  err : Option UpdateError

/-- `handleDynamicRRsets` from the transaction on. -/
def updateZone (h : Objects) (dz : DynamicZone T) (rrsets : List Ptr) : Except Panic (Updated T) :=
  let (begun, tmp) := dz.begin
  match run updateRRset ⟨h, tmp, false, false⟩ rrsets with
  | .error (.panic e) => .error e
  | .error (.err objects err) => .ok ⟨objects, begun.rollBack, some (.zone err)⟩
  | .ok s =>
    if s.hasRRModified = false then .ok ⟨s.objects, begun.rollBack, none⟩
    else
      match (if s.explicitUpdateSOA then .ok s.objects
        else s.tmp.increaseSerialNumber s.objects) with
      | .error e => .error e
      | .ok objects =>
        let (zone, err) := begun.commit s.tmp
        .ok ⟨objects, zone, err.map .zone⟩

inductive UpdateEffect (h : Objects) (dz : DynamicZone T) (rrsets : List Ptr) : Updated T → Prop
  | refused {objects : Objects} {err : ZoneError}
      (hrun : run updateRRset ⟨h, dz.begin.2, false, false⟩ rrsets = .error (.err objects err)) :
      UpdateEffect h dz rrsets ⟨objects, dz.begin.1.rollBack, some (.zone err)⟩
  | idle {s : Progress T} (hrun : run updateRRset ⟨h, dz.begin.2, false, false⟩ rrsets = .ok s)
      (hmodified : s.hasRRModified = false) :
      UpdateEffect h dz rrsets ⟨s.objects, dz.begin.1.rollBack, none⟩
  | committed {s : Progress T} {objects : Objects}
      (hrun : run updateRRset ⟨h, dz.begin.2, false, false⟩ rrsets = .ok s)
      (hmodified : s.hasRRModified = true)
      (hserial : if s.explicitUpdateSOA then objects = s.objects
        else s.tmp.increaseSerialNumber s.objects = .ok objects) :
      UpdateEffect h dz rrsets
        ⟨objects, (dz.begin.1.commit s.tmp).1, (dz.begin.1.commit s.tmp).2.map .zone⟩

theorem updateZone_effect {h : Objects} {dz : DynamicZone T} {rrsets : List Ptr} {u : Updated T}
    (hok : updateZone h dz rrsets = .ok u) : UpdateEffect h dz rrsets u := by
  unfold updateZone at hok
  dsimp only at hok
  cases hrun : run updateRRset ⟨h, dz.begin.2, false, false⟩ rrsets with
  | error stop =>
    cases stop with
    | panic e => simp [hrun] at hok
    | err objects err =>
      simp only [hrun, Except.ok.injEq] at hok
      exact hok ▸ .refused hrun
  | ok s =>
    simp only [hrun] at hok
    split at hok
    · next hmodified =>
      cases hok
      exact .idle hrun hmodified
    · next hmodified =>
      split at hok
      · cases hok
      · next objects hobjects =>
        cases hok
        refine .committed hrun (by simpa using hmodified) ?_
        split at hobjects
        · next hexplicit => simpa [hexplicit] using hobjects.symm
        · next hexplicit => simpa [hexplicit] using hobjects

def handleDynamicRRsets (aclFind : String → List UInt8 → Bool) (h : Objects)
    (ds : AuthDataSource T Z) (viewName : String) (zoneName : Name)
    (clientIP : Option (List UInt8)) (rrsets : List Ptr) :
    Except Panic (Objects × AuthDataSource T Z × Option UpdateError) :=
  match ds.getUpdator aclFind viewName zoneName clientIP with
  | none => .ok (h, ds, some .noAuthUpdate)
  | some z =>
    match updateZone h (ds.zones.load z).zone rrsets with
    | .error e => .error e
    | .ok u =>
      .ok (u.objects,
        { ds with zones := ds.zones.write z { ds.zones.load z with zone := u.zone } }, u.err)

end Auth

end Vanguard
