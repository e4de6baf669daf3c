import Vanguard.Zone.Preservation
import Vanguard.Zone.Find

namespace Vanguard.Zone

open Library

structure DynamicZone (T : Type) where
  memoryZone : MemoryZone T
  /-- The lock, which `Begin` takes and `Commit` and `RollBack` release. -/
  locked : Bool

inductive TxCall where
  /-- `Add`, `DeleteRRset`, `DeleteRr` or `DeleteDomain`. -/
  | change (op : ZoneOp)
  | increaseSerialNumber
  deriving DecidableEq, Repr

inductive Ending where
  | commit
  | rollBack
  deriving DecidableEq, Repr

structure Query where
  name : Name
  typ : RRType
  option : FindOption
  deriving DecidableEq, Repr

structure FindAnswer where
  typ : ResultType
  rrset : Option (RRset Rdata)
  deriving DecidableEq, Repr

/-- `RotateRdata` on what a lookup returned, where it lies or on the copy. -/
def Found.rotateRdata (rotate : List Ptr → List Ptr) (h : Objects) : Found → Objects × RRset Rdata
  | .stored p =>
    let rrset := h.rrsets.load p
    let h' := { h with rrsets := h.rrsets.write p { rrset with rdatas := rotate rrset.rdatas } }
    (h', h'.value p)
  | .synthesis p name =>
    let rrset := h.rrsets.load p
    (h, { rrset with name, rdatas := rotate rrset.rdatas : RRset Ptr }.map h.rdatas.load)

variable {T : Type} [DomainTree T NameNode]

def ZoneState.stepTx (s : ZoneState T) : TxCall → Except Panic (ZoneState T)
  | .change op => s.step op
  | .increaseSerialNumber =>
    match s.zone.increaseSerialNumber s.objects with
    | .ok objects => .ok { s with objects }
    | .error e => .error e

namespace DynamicZone

section

variable (dz : DynamicZone T)

def begin : DynamicZone T × MemoryZone T :=
  ({ dz with locked := true }, dz.memoryZone.clone)

def commit (tmp : MemoryZone T) : DynamicZone T × Option ZoneError :=
  match tmp.validate with
  | some err => ({ dz with locked := false }, some err)
  | none => (⟨tmp, false⟩, none)

def rollBack : DynamicZone T := { dz with locked := false }

/-- End a transaction, with the error `Commit` returned. -/
def finish (tmp : MemoryZone T) : Ending → DynamicZone T × Option ZoneError
  | .commit => dz.commit tmp
  | .rollBack => (dz.rollBack, none)

end

def find (rotate : List Ptr → List Ptr) (h : Objects) (dz : DynamicZone T) (q : Query) :
    Except Panic (Objects × FindAnswer) :=
  if dz.memoryZone.isEmpty then .ok (h, ⟨.servFail, none⟩)
  else
    match dz.memoryZone.find q.name q.typ q.option with
    | .error e => .error e
    | .ok ctx =>
      match ctx.result.rrset with
      | none => .ok (h, ⟨ctx.result.typ, none⟩)
      | some found =>
        let (h', rrset) := found.rotateRdata rotate h
        .ok (h', ⟨ctx.result.typ, some rrset⟩)

def answers (rotate : List Ptr → List Ptr) (h : Objects) (dz : DynamicZone T) :
    List Query → List (Except Panic FindAnswer)
  | [] => []
  | q :: qs =>
    match dz.find rotate h q with
    | .error e => .error e :: answers rotate h dz qs
    | .ok (h', answer) => .ok answer :: answers rotate h' dz qs

theorem locked_commit (dz : DynamicZone T) (tmp : MemoryZone T) :
    (dz.commit tmp).1.locked = false := by
  unfold commit
  split <;> rfl

theorem commit_of_none {dz : DynamicZone T} {tmp : MemoryZone T}
    (hcommit : (dz.commit tmp).2 = none) :
    tmp.validate = none ∧ (dz.commit tmp).1.memoryZone = tmp := by
  unfold commit at hcommit ⊢
  cases hvalid : tmp.validate with
  | some err => simp [hvalid] at hcommit
  | none => exact ⟨rfl, rfl⟩

theorem memoryZone_finish {dz : DynamicZone T} {tmp : MemoryZone T} {ending : Ending}
    (hend : ending = .commit → (dz.commit tmp).2 ≠ none) :
    (dz.finish tmp ending).1.memoryZone = dz.memoryZone := by
  cases ending with
  | rollBack => rfl
  | commit =>
    have hfailed := hend rfl
    simp only [finish]
    unfold commit at hfailed ⊢
    cases hvalid : tmp.validate with
    | some err => rfl
    | none => simp [hvalid] at hfailed

end DynamicZone

end Vanguard.Zone
