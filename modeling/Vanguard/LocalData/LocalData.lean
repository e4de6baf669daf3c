import Vanguard.Dns.Message
import Vanguard.Dns.NameTree

/-!
# Local policies

A policy at a name answers queries for the name, or for everything below it as well. The search is
the one of `ResponseWithLocalData`.
-/

namespace Vanguard.LocalData

open List

/-- The kinds of `LocalPolicy`. -/
inductive PolicyKind where
  | nxDomain
  | nxRRset
  | exceptionDomain
  | localRRset (rrsets : List (RRset Rdata))
  deriving DecidableEq, Repr

structure LocalPolicy where
  isZoneMatch : Bool
  kind : PolicyKind
  deriving DecidableEq, Repr

/-- What `GetMessage` makes of a query. -/
inductive PolicyAnswer where
  | nxDomain
  | nxRRset
  | rrset (r : RRset Rdata)
  deriving DecidableEq, Repr

def LocalPolicy.getMessage (p : LocalPolicy) (qname : Name) (qtype : RRType) :
    Option PolicyAnswer :=
  match p.kind with
  | .nxDomain => some .nxDomain
  | .nxRRset => some .nxRRset
  | .exceptionDomain => none
  | .localRRset rrsets =>
    (rrsets.find? (fun r => r.typ = qtype)).map (fun r => .rrset { r with name := qname })

def realQueryName (question : Question) : Option (Message Section) → Except Fault Name
  | none => .ok question.name
  | some response =>
    match response.answer.getLast? with
    | none => .ok question.name
    | some last =>
      if last.typ ≠ .cname then .ok question.name
      else
        match last.rdatas with
        | [] => .error .indexOutOfRange
        | .cname target :: _ => .ok target
        | _ => .error .typeAssertion

/-- The search of `ResponseWithLocalData` among the policies of a view. -/
def findAnswer {P : Type} [NameTree P LocalPolicy] (policies : P) (qname : Name) (qtype : RRType) :
    Option PolicyAnswer :=
  match NameTree.searchParents policies qname with
  | .exactMatch parents => parents.head?.bind (fun p => p.getMessage qname qtype)
  | .closestEncloser parents =>
    parents.findSome? (fun p => if p.isZoneMatch then p.getMessage qname qtype else none)
  | .notFound => none

abbrev PolicyTable := Name → Option LocalPolicy

def LocalPolicy.answerBelow (p : LocalPolicy) (qname : Name) (qtype : RRType) :
    Option PolicyAnswer :=
  if p.isZoneMatch then p.getMessage qname qtype else none

def PolicyTable.answer (t : PolicyTable) (qname : Name) (qtype : RRType) : Option PolicyAnswer :=
  match t qname with
  | some p => p.getMessage qname qtype
  | none => qname.tails.findSome? fun m => (t m).bind fun p => p.answerBelow qname qtype

theorem PolicyTable.answer_congr {t t' : PolicyTable} {qname : Name} {qtype : RRType}
    (hself : t qname = t' qname)
    (habove : ∀ m, m <:+ qname → ((t m).bind fun p => p.answerBelow qname qtype) =
      (t' m).bind fun p => p.answerBelow qname qtype) :
    t.answer qname qtype = t'.answer qname qtype := by
  have hfind : ∀ names : List Name, (∀ m ∈ names, m <:+ qname) →
      (names.findSome? fun m => (t m).bind fun p => p.answerBelow qname qtype) =
        names.findSome? fun m => (t' m).bind fun p => p.answerBelow qname qtype := by
    intro names hnames
    induction names with
    | nil => rfl
    | cons m names ih =>
      rw [findSome?_cons, findSome?_cons, habove m (hnames m mem_cons_self),
        ih fun k hk => hnames k (mem_cons_of_mem _ hk)]
  unfold PolicyTable.answer
  rw [hself, hfind _ fun m hm => (mem_tails m qname).mp hm]

theorem PolicyTable.answer_of_closest {t : PolicyTable} {zone qname : Name} {qtype : RRType}
    (hle : zone <:+ qname) (hne : qname ≠ zone)
    (hcloser : ∀ m, zone <:+ m → m <:+ qname → m ≠ zone → t m = none) :
    t.answer qname qtype =
      zone.tails.findSome? fun m => (t m).bind fun p => p.answerBelow qname qtype := by
  obtain ⟨below, rfl⟩ := hle
  have hfind : ∀ f : Name → Option PolicyAnswer, (∀ m, zone <:+ m → m <:+ below ++ zone →
      m ≠ zone → f m = none) → (below ++ zone).tails.findSome? f = zone.tails.findSome? f := by
    intro f hf
    clear hne hcloser
    induction below with
    | nil => rfl
    | cons label below ih =>
      have hself : f (label :: below ++ zone) = none := by
        refine hf _ (suffix_append _ _) suffix_rfl fun heq => ?_
        have hlen := congrArg List.length heq
        simp only [length_append, length_cons] at hlen
        omega
      rw [cons_append, tails_cons, findSome?_cons, ← cons_append, hself]
      exact ih fun m hm hmq => hf m hm (hmq.trans (suffix_cons label _))
  unfold PolicyTable.answer
  rw [hcloser _ (suffix_append _ _) suffix_rfl hne, hfind]
  intro m hm hmq hmz
  rw [hcloser m hm hmq hmz, Option.bind_none]

theorem findAnswer_eq {P : Type} [NameTree P LocalPolicy] [LawfulNameTree P LocalPolicy] (ps : P)
    (qname : Name) (qtype : RRType) :
    findAnswer ps qname qtype = PolicyTable.answer (NameTree.get ps) qname qtype := by
  unfold findAnswer PolicyTable.answer
  cases hget : NameTree.get ps qname with
  | some p =>
    obtain ⟨above, habove⟩ := NameTree.parents_of_some hget
    rw [NameTree.searchParents_of_some hget, habove]
    rfl
  | none =>
    -- The parents are the values of the names above, which the table asks in the same order.
    have hparents : ∀ names : List Name, (names.filterMap (NameTree.get ps)).findSome?
        (fun p => if p.isZoneMatch then p.getMessage qname qtype else none) =
          names.findSome? fun m => (NameTree.get ps m).bind fun p => p.answerBelow qname qtype := by
      intro names
      induction names with
      | nil => rfl
      | cons m names ih =>
        rw [filterMap_cons, findSome?_cons]
        cases hm : NameTree.get ps m with
        | none => exact ih
        | some p =>
          rw [findSome?_cons, ih]
          rfl
    rw [NameTree.searchParents_of_none hget, ← hparents, ← NameTree.parents]
    by_cases hnone : NameTree.parents ps qname = []
    · rw [if_pos hnone, hnone]
      rfl
    · rw [if_neg hnone]

end Vanguard.LocalData
