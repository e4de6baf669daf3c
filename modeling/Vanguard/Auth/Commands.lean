import Vanguard.Auth.Update
import Vanguard.Zone.Growth

/-!
# Commands that change records

`addAuthRrs` and `deleteAuthRrs` parse records of one zone and hand them to `handleDynamicRRsets`,
as additions and as deletions. `updateAuthRrs` is one after the other.
-/

namespace Vanguard

def RRClass.none : RRClass := ⟨254⟩

namespace Auth

open Library Zone

structure AuthRR where
  view : String
  zone : String
  name : String
  ttl : String
  typ : String
  rdata : String
  deriving DecidableEq, Repr

/-- The functions of the DNS library that read and write texts. A failure has a text. -/
structure Texts where
  nameFromString : String → Except String Name
  ttlFromString : String → Except String UInt32
  typeFromString : String → Except String RRType
  rdataFromString : RRType → String → Except String Rdata
  typeString : RRType → String

/-- What is added to `ErrZoneUpdateFailed`. -/
inductive FailureDetail where
  | text (detail : String)
  /-- The text of an error of `handleDynamicRRsets`. -/
  | update (err : UpdateError)
  deriving DecidableEq, Repr

inductive CommandError where
  | invalidZoneName (detail : String)
  | invalidRR (detail : String)
  | zoneUpdateFailed (detail : FailureDetail)
  deriving DecidableEq, Repr

inductive CommandPanic where
  | nilName
  | zone (e : Panic)
  deriving DecidableEq, Repr

/-- The part of `newRRset` that reads the time to live. -/
def readTtl (g : Texts) (ttl : String) : Except String UInt32 :=
  if ttl = "" then .ok 0 else g.ttlFromString ttl

def newRRset (g : Texts) (h : Objects) (name ttl typ rdata : String) (cls : RRClass) :
    Except String (Objects × Ptr) := do
  let rrName ← g.nameFromString name
  let rrTtl ← readTtl g ttl
  let rrType ← g.typeFromString typ
  let rrData ← g.rdataFromString rrType rdata
  let (rdatas, p) := h.rdatas.alloc rrData
  .ok ({ h with rdatas }.allocRRset ⟨rrName, rrType, cls, rrTtl, [p]⟩)

structure Collected where
  objects : Objects
  targetView : String
  targetZone : Option Name
  rrsets : List Ptr

/-- One round over the records. The first one with a view decides about the view and the zone. -/
def collectRr (g : Texts) (verb : String) (cls : RRClass) (s : Collected) (rr : AuthRR) :
    Except CommandError Collected :=
  match g.nameFromString rr.zone with
  | .error e => .error (.invalidZoneName e)
  | .ok origin =>
    match newRRset g s.objects rr.name rr.ttl rr.typ rr.rdata cls with
    | .error e => .error (.invalidRR e)
    | .ok (objects, rrset) =>
      if s.targetView = "" then .ok ⟨objects, rr.view, some origin, s.rrsets ++ [rrset]⟩
      else if s.targetView ≠ rr.view then
        .error (.zoneUpdateFailed (.text (verb ++ " rr in different view in one request")))
      else if s.targetZone ≠ some origin then
        .error (.zoneUpdateFailed (.text (verb ++ " rr in different zone in one request")))
      else .ok ⟨objects, s.targetView, s.targetZone, s.rrsets ++ [rrset]⟩

def collectRrs (g : Texts) (verb : String) (cls : RRClass) (h : Objects) (rrs : List AuthRR) :
    Except CommandError Collected :=
  run (collectRr g verb cls) ⟨h, "", none, []⟩ rrs

variable {cls : RRClass} {g : Texts}

theorem newRRset_eq_ok {h h' : Objects} {name ttl typ rdata : String} {p : Ptr}
    (hok : newRRset g h name ttl typ rdata cls = .ok (h', p)) (hclosed : h.Closed) :
    h'.Closed ∧ h.Grows h' ∧ p < h'.rrsets.next ∧ (h'.rrsets.load p).cls = cls := by
  unfold newRRset at hok
  obtain ⟨rrName, -, hok⟩ := bind_eq_ok hok
  obtain ⟨rrTtl, -, hok⟩ := bind_eq_ok hok
  obtain ⟨rrType, -, hok⟩ := bind_eq_ok hok
  obtain ⟨rrData, -, hok⟩ := bind_eq_ok hok
  cases hok
  obtain ⟨hclosed', hgrows⟩ := hclosed.allocRecord rrData rrName rrType cls rrTtl
  exact ⟨hclosed', hgrows, Nat.lt_succ_self _, congrArg RRset.cls (Heap.load_alloc _ _)⟩

structure Gathered (h : Objects) (cls : RRClass) (rounds : ℕ) (s : Collected) : Prop where
  closed : s.objects.Closed
  grows : h.Grows s.objects
  rrsets : ∀ p ∈ s.rrsets, p < s.objects.rrsets.next ∧ (s.objects.rrsets.load p).cls = cls
  length : s.rrsets.length = rounds

variable {verb : String} {h : Objects}

theorem Gathered.round {rounds : ℕ} {s s' : Collected} {rr : AuthRR} (hs : Gathered h cls rounds s)
    (hstep : collectRr g verb cls s rr = .ok s') : Gathered h cls (rounds + 1) s' := by
  unfold collectRr at hstep
  split at hstep
  · cases hstep
  split at hstep
  · cases hstep
  next objects p hnew =>
  obtain ⟨hclosed, hgrows, hp, hcls⟩ := newRRset_eq_ok hnew hs.closed
  have hgathered (view : String) (zone : Option Name) :
      Gathered h cls (rounds + 1) ⟨objects, view, zone, s.rrsets ++ [p]⟩ := by
    refine ⟨hclosed, hs.grows.trans hgrows, fun q hq => ?_, by simp [hs.length]⟩
    rcases List.mem_append.mp hq with hold | hnew
    · obtain ⟨hlt, hq'⟩ := hs.rrsets q hold
      exact ⟨hlt.trans_le hgrows.rrsets.next_le, (hgrows.rrsets.load_eq q hlt).symm ▸ hq'⟩
    · rw [List.mem_singleton.mp hnew]
      exact ⟨hp, hcls⟩
  split at hstep
  · cases hstep
    exact hgathered _ _
  · split at hstep
    · cases hstep
    · split at hstep
      · cases hstep
      · cases hstep
        exact hgathered _ _

theorem Gathered.loop {rounds : ℕ} {s s' : Collected} {rrs : List AuthRR}
    (hs : Gathered h cls rounds s) (hrun : run (collectRr g verb cls) s rrs = .ok s') :
    Gathered h cls (rounds + rrs.length) s' := by
  induction rrs generalizing s rounds with
  | nil =>
    cases hrun
    exact hs
  | cons rr rrs ih =>
    obtain ⟨mid, hstep, hrest⟩ := run_cons_ok.mp hrun
    have hrest' := ih (hs.round hstep) hrest
    rwa [Nat.add_assoc, Nat.add_comm 1] at hrest'

theorem collectRrs_gathered {rrs : List AuthRR} {c : Collected} (hclosed : h.Closed)
    (hok : collectRrs g verb cls h rrs = .ok c) : Gathered h cls rrs.length c := by
  have hstart : Gathered h cls 0 ⟨h, "", none, []⟩ := ⟨hclosed, .refl h, by simp, rfl⟩
  simpa using hstart.loop hok

variable {T Z : Type} [DomainTree T NameNode] [NameTree Z Ptr]

/-- `addAuthRrs` and `deleteAuthRrs`, which differ in a word and in the class. -/
def changeAuthRrs (verb : String) (cls : RRClass) (g : Texts)
    (aclFind : String → List UInt8 → Bool) (h : Objects) (ds : AuthDataSource T Z)
    (rrs : List AuthRR) :
    Except CommandPanic (Objects × AuthDataSource T Z × Option CommandError) :=
  match collectRrs g verb cls h rrs with
  | .error err => .ok (h, ds, some err)
  | .ok c =>
    match c.targetZone with
    | none =>
      -- only without records is the name nil, and it is looked up in the view with the empty name
      match ds.viewZones c.targetView with
      | none => .ok (c.objects, ds, some (.zoneUpdateFailed (.update .noAuthUpdate)))
      | some _ => .error .nilName
    | some zoneName =>
      match handleDynamicRRsets aclFind c.objects ds c.targetView zoneName none c.rrsets with
      | .error e => .error (.zone e)
      | .ok (h', ds', err) => .ok (h', ds', err.map fun e => .zoneUpdateFailed (.update e))

section

variable (g : Texts) (aclFind : String → List UInt8 → Bool) (h : Objects) (ds : AuthDataSource T Z)
  (rrs : List AuthRR)

def addAuthRrs : Except CommandPanic (Objects × AuthDataSource T Z × Option CommandError) :=
  changeAuthRrs "add" .internet g aclFind h ds rrs

def deleteAuthRrs : Except CommandPanic (Objects × AuthDataSource T Z × Option CommandError) :=
  changeAuthRrs "delete" .none g aclFind h ds rrs

end

/-- The old records are deleted unless the first is a SOA or a CNAME. -/
def deletesOld (g : Texts) (oldRrs : List AuthRR) : Bool :=
  match oldRrs with
  | [] => false
  | rr :: _ => rr.typ ≠ g.typeString .soa && rr.typ ≠ g.typeString .cname

def updateAuthRrs (g : Texts) (aclFind : String → List UInt8 → Bool) (h : Objects)
    (ds : AuthDataSource T Z) (oldRrs newRrs : List AuthRR) :
    Except CommandPanic (Objects × AuthDataSource T Z × Option CommandError) :=
  if deletesOld g oldRrs then
    match deleteAuthRrs g aclFind h ds oldRrs with
    | .error e => .error e
    | .ok (h', ds', some err) => .ok (h', ds', some err)
    | .ok (h', ds', none) => addAuthRrs g aclFind h' ds' newRrs
  else addAuthRrs g aclFind h ds newRrs

end Auth

end Vanguard
