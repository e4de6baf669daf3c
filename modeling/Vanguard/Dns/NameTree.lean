import Vanguard.Dns.Name

/-!
# The tree that stores values at names

`cement/domaintree` is not part of this repository, so the tree is a parameter. `NameTable` is a
tree that satisfies the laws and can be evaluated.
-/

namespace Vanguard

open Library List

inductive Found (V : Type) where
  | exactMatch (v : V)
  | closestEncloser (v : V)
  | notFound
  deriving DecidableEq, Repr

/-- The operations of `cement/domaintree`. `get` is the state of the tree. -/
class NameTree (T : Type) (V : outParam Type) where
  newDomainTree : T
  get : T → Name → Option V
  insert : T → Name → V → T
  search : T → Name → Found V
  searchParents : T → Name → Found (List V)

/-- What the callers rely on in `cement/domaintree`. -/
class LawfulNameTree (T : Type) (V : outParam Type) [NameTree T V] : Prop where
  get_newDomainTree : ∀ n, NameTree.get (NameTree.newDomainTree : T) n = none
  get_insert : ∀ (t : T) n v m, NameTree.get (NameTree.insert t n v) m =
    if m = n then some ((NameTree.get t n).getD v) else NameTree.get t m
  search_eq : ∀ (t : T) n, NameTree.search t n =
    match n.tails.findSome? (fun m => (NameTree.get t m).map (fun v => (m, v))) with
    | some (m, v) => if m = n then .exactMatch v else .closestEncloser v
    | none => .notFound
  searchParents_eq : ∀ (t : T) n, NameTree.searchParents t n =
    match n.tails.filterMap (fun m => (NameTree.get t m).map (fun v => (m, v))) with
    | (m, v) :: above =>
      if m = n then .exactMatch (v :: above.map Prod.snd)
      else .closestEncloser (v :: above.map Prod.snd)
    | [] => .notFound

namespace NameTree

export LawfulNameTree (get_newDomainTree get_insert search_eq)

variable {T V : Type} [NameTree T V] [LawfulNameTree T V]

variable {n : Name} {t : T}

theorem search_eq_exactMatch {v : V} : search t n = .exactMatch v ↔ get t n = some v := by
  rw [search_eq]
  cases hget : get t n with
  | some w =>
    have hfind : n.tails.findSome? (fun m => (get t m).map (fun v => (m, v))) = some (n, w) := by
      cases n <;> simp [hget]
    simp [hfind]
  | none =>
    simp only [reduceCtorEq, iff_false]
    cases hfind : n.tails.findSome? (fun m => (get t m).map (fun v => (m, v))) with
    | none => simp
    | some found =>
      obtain ⟨m, w⟩ := found
      obtain ⟨k, -, hk⟩ := exists_of_findSome?_eq_some hfind
      obtain ⟨u, hu, heq⟩ := Option.map_eq_some_iff.mp hk
      cases heq
      have hne : m ≠ n := by
        rintro rfl
        rw [hget] at hu
        cases hu
      simp [hne]

theorem get_of_search {v : V} (h : search t n = .exactMatch v ∨ search t n = .closestEncloser v) :
    ∃ m ∈ n.tails, get t m = some v := by
  rw [search_eq] at h
  cases hfind : n.tails.findSome? (fun m => (get t m).map (fun v => (m, v))) with
  | none => simp [hfind] at h
  | some found =>
    obtain ⟨m, w⟩ := found
    obtain ⟨k, hk, hmap⟩ := exists_of_findSome?_eq_some hfind
    obtain ⟨u, hu, heq⟩ := Option.map_eq_some_iff.mp hmap
    cases heq
    refine ⟨m, hk, ?_⟩
    have hv : w = v := by
      by_cases hm : m = n <;> simpa [hfind, hm] using h
    rw [hu, hv]

def parents (t : T) (n : Name) : List V := n.tails.filterMap (get t)

omit [LawfulNameTree T V] in
theorem parents_eq (t : T) (n : Name) :
    parents t n = (n.tails.filterMap fun m => (get t m).map fun v => (m, v)).map Prod.snd := by
  rw [parents, map_filterMap]
  refine filterMap_congr fun m _ => ?_
  rw [Option.map_map]
  exact Option.map_id'.symm

omit [LawfulNameTree T V] in
theorem parents_of_some {v : V} (hget : get t n = some v) : ∃ above, parents t n = v :: above := by
  cases n with
  | nil => exact ⟨[], by simp [parents, hget]⟩
  | cons label rest => exact ⟨parents t rest, by simp [parents, hget]⟩

theorem searchParents_of_some {v : V} (hget : get t n = some v) :
    searchParents t n = .exactMatch (parents t n) := by
  have hpairs : ∃ above, n.tails.filterMap (fun m => (get t m).map fun v => (m, v)) =
      (n, v) :: above := by
    cases n with
    | nil => exact ⟨[], by simp [hget]⟩
    | cons label rest => exact ⟨_, by simp [hget]; rfl⟩
  obtain ⟨above, habove⟩ := hpairs
  rw [LawfulNameTree.searchParents_eq, parents_eq, habove]
  simp

theorem searchParents_of_none (hget : get t n = none) : searchParents t n =
      if parents t n = [] then .notFound else .closestEncloser (parents t n) := by
  rw [LawfulNameTree.searchParents_eq, parents_eq]
  cases hpairs : n.tails.filterMap fun m => (get t m).map fun v => (m, v) with
  | nil => rfl
  | cons first above =>
    obtain ⟨m, v⟩ := first
    have hne : m ≠ n := by
      rintro rfl
      have hmem : (m, v) ∈ m.tails.filterMap fun k => (get t k).map fun v => (k, v) := by
        simp [hpairs]
      obtain ⟨k, -, hk⟩ := mem_filterMap.mp hmem
      obtain ⟨w, hw, heq⟩ := Option.map_eq_some_iff.mp hk
      cases heq
      rw [hget] at hw
      cases hw
    simp [hne]

end NameTree

/-- The operation of `cement/domaintree` that takes a value away. -/
class ErasableNameTree (T : Type) (V : outParam Type) [NameTree T V] where
  delete : T → Name → T

/-- What the callers rely on in `Delete`. -/
class LawfulErasableNameTree (T : Type) (V : outParam Type) [NameTree T V]
    [ErasableNameTree T V] : Prop where
  get_delete : ∀ (t : T) n m, NameTree.get (ErasableNameTree.delete t n) m =
    if m = n then none else NameTree.get t m

structure NameTable (V : Type) where
  entries : List (Name × V)
  deriving DecidableEq, Repr

namespace NameTable

variable {V : Type}

def find (t : NameTable V) (n : Name) : Option V := t.entries.lookup n

instance nameTree : NameTree (NameTable V) V where
  newDomainTree := ⟨[]⟩
  get := find
  insert t n v := if (t.find n).isSome then t else ⟨(n, v) :: t.entries⟩
  search t n :=
    match n.tails.findSome? (fun m => (t.find m).map (fun v => (m, v))) with
    | some (m, v) => if m = n then .exactMatch v else .closestEncloser v
    | none => .notFound
  searchParents t n :=
    match n.tails.filterMap (fun m => (t.find m).map (fun v => (m, v))) with
    | (m, v) :: above =>
      if m = n then .exactMatch (v :: above.map Prod.snd)
      else .closestEncloser (v :: above.map Prod.snd)
    | [] => .notFound

instance lawful : LawfulNameTree (NameTable V) V where
  get_newDomainTree _ := rfl
  get_insert t n v m := by
    change find (if (t.find n).isSome then t else ⟨(n, v) :: t.entries⟩) m =
      if m = n then some ((t.find n).getD v) else t.find m
    cases hn : t.find n with
    | some w =>
      by_cases hm : m = n
      · simp [hm, hn]
      · simp [hm]
    | none =>
      by_cases hm : m = n
      · simp [hm, find]
      · have hbeq : (m == n) = false := by simpa using hm
        simp [hm, find, lookup_cons, hbeq]
  search_eq _ _ := rfl
  searchParents_eq _ _ := rfl

instance erasable : ErasableNameTree (NameTable V) V where
  delete t n := ⟨t.entries.filter (fun e => e.1 ≠ n)⟩

instance lawfulErasable : LawfulErasableNameTree (NameTable V) V where
  get_delete t n m := by
    change (t.entries.filter (fun e => e.1 ≠ n)).lookup m =
      if m = n then none else t.entries.lookup m
    induction t.entries with
    | nil => simp
    | cons e entries ih =>
      by_cases hen : e.1 = n
      · rw [filter_cons_of_neg (by simpa using hen), ih]
        by_cases hm : m = n
        · simp [hm]
        · have hbeq : (m == e.1) = false := by simpa [hen] using hm
          rw [if_neg hm, if_neg hm, lookup_cons, hbeq]
      · rw [filter_cons_of_pos (by simpa using hen), lookup_cons, lookup_cons, ih]
        by_cases hm : m = n
        · have hbeq : (m == e.1) = false := by simpa [hm] using Ne.symm hen
          simp only [hbeq, if_pos hm]
        · simp [hm]

end NameTable

end Vanguard
