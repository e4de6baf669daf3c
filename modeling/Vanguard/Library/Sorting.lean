import Mathlib.Data.List.Induction
import Mathlib.Data.List.Perm.Basic
import Mathlib.Order.Lattice

namespace Vanguard.Library

open List Option

inductive SortProgram where
  | done
  | less (i j : ℕ) (next : Bool → SortProgram)
  | swap (i j : ℕ) (next : SortProgram)

structure SortInterface (σ : Type) where
  less : σ → ℕ → ℕ → Option Bool
  swap : σ → ℕ → ℕ → Option σ

section

variable {σ α β κ : Type}

def SortProgram.run (data : SortInterface σ) : SortProgram → σ → Option σ
  | .done, s => some s
  | .less i j next, s => (data.less s i j).bind fun b => (next b).run data s
  | .swap i j next, s => (data.swap s i j).bind fun s' => next.run data s'

def swapAt (l : List α) (i j : ℕ) : Option (List α) :=
  l[i]?.bind fun a => l[j]?.map fun b => (l.set i b).set j a

theorem swapAt_perm {l l' : List α} {i j : ℕ} (hswap : swapAt l i j = some l') : l'.Perm l := by
  obtain ⟨a, ha, hrest⟩ := bind_eq_some_iff.mp hswap
  obtain ⟨b, hb, rfl⟩ := map_eq_some_iff.mp hrest
  obtain ⟨hi, rfl⟩ := List.getElem?_eq_some_iff.mp ha
  obtain ⟨hj, rfl⟩ := List.getElem?_eq_some_iff.mp hb
  exact set_set_perm hi hj

theorem swapAt_map (f : α → β) (l : List α) (i j : ℕ) :
    swapAt (l.map f) i j = (swapAt l i j).map (List.map f) := by
  simp only [swapAt, getElem?_map]
  cases l[i]? with
  | none => rfl
  | some a =>
    cases l[j]? with
    | none => rfl
    | some b => simp

theorem isSome_swapAt (l : List α) (i j : ℕ) :
    (swapAt l i j).isSome = true ↔ i < l.length ∧ j < l.length := by
  by_cases hi : i < l.length
  · by_cases hj : j < l.length
    · simp [swapAt, hi, hj]
    · simp [swapAt, hi, hj]
  · simp [swapAt, hi]

variable [LinearOrder κ]

def keys : SortInterface (List κ) where
  less l i j := l[i]?.bind fun a => l[j]?.map fun b => decide (a < b)
  swap := swapAt

def Ascending (l : List κ) : Prop := l.Pairwise (· ≤ ·)

def Sorts (κ : Type) [LinearOrder κ] (sort : ℕ → SortProgram) : Prop :=
  ∀ l : List κ, ∃ l', (sort l.length).run keys l = some l' ∧ Ascending l'

structure Consistent (data : SortInterface σ) (view : σ → List κ) : Prop where
  less_eq : ∀ s i j, data.less s i j = keys.less (view s) i j
  view_swap : ∀ s i j, (data.swap s i j).map view = swapAt (view s) i j

variable {data : SortInterface σ} {view : σ → List κ}

theorem Consistent.view_run (h : Consistent data view) (program : SortProgram) (s : σ) :
    (program.run data s).map view = program.run keys (view s) := by
  induction program generalizing s with
  | done => rfl
  | less i j next ih =>
    simp only [SortProgram.run, h.less_eq]
    cases keys.less (view s) i j with
    | none => rfl
    | some b => exact ih b s
  | swap i j next ih =>
    have hview := h.view_swap s i j
    simp only [SortProgram.run]
    cases hswap : data.swap s i j with
    | none =>
      rw [hswap] at hview
      simp [keys, ← hview]
    | some s' =>
      rw [hswap] at hview
      simpa [keys, ← hview] using ih s'

theorem SortProgram.run_induction (Inv : σ → Prop)
    (hswap : ∀ s i j s', Inv s → data.swap s i j = some s' → Inv s') {program : SortProgram}
    {s s' : σ} (hrun : program.run data s = some s') (hs : Inv s) : Inv s' := by
  induction program generalizing s with
  | done =>
    cases hrun
    exact hs
  | less i j next ih =>
    obtain ⟨b, -, hrest⟩ := bind_eq_some_iff.mp hrun
    exact ih b hrest hs
  | swap i j next ih =>
    obtain ⟨mid, hmid, hrest⟩ := bind_eq_some_iff.mp hrun
    exact ih hrest (hswap s i j mid hs hmid)

theorem Sorts.run {sort : ℕ → SortProgram} (hsort : Sorts κ sort) (h : Consistent data view)
    (s : σ) : ∃ s', (sort (view s).length).run data s = some s' ∧ Ascending (view s') := by
  obtain ⟨l', hrun, hsorted⟩ := hsort (view s)
  rw [← h.view_run] at hrun
  obtain ⟨s', hs', rfl⟩ := map_eq_some_iff.mp hrun
  exact ⟨s', hs', hsorted⟩

end

/-- The element at this place goes down past the larger ones before it. -/
def sink : ℕ → SortProgram → SortProgram
  | 0, next => next
  | j + 1, next => .less (j + 1) j fun b => if b then .swap (j + 1) j (sink j next) else next

def insertFrom : ℕ → ℕ → SortProgram
  | 0, _ => .done
  | n + 1, i => sink i (insertFrom n (i + 1))

def insertionSort (n : ℕ) : SortProgram := insertFrom n 0

section

variable {κ : Type} [LinearOrder κ]

theorem run_sink (next : SortProgram) {l : List κ} (hl : Ascending l) (x : κ) (rest : List κ) :
    ∃ l', Ascending l' ∧ l'.Perm (l ++ [x]) ∧
      (sink l.length next).run keys (l ++ x :: rest) = next.run keys (l' ++ rest) := by
  induction l using List.reverseRecOn generalizing rest with
  | nil => exact ⟨[x], pairwise_singleton _ _, .refl _, rfl⟩
  | append_singleton l y ih =>
    obtain ⟨hinit, -, hlast⟩ := pairwise_append.mp hl
    have hbefore : ∀ a ∈ l, a ≤ y := fun a ha => hlast a ha y (mem_singleton.mpr rfl)
    have hless : keys.less (l ++ [y] ++ x :: rest) (l.length + 1) l.length =
        some (decide (x < y)) := by
      simp [keys]
    rw [length_append, length_singleton, sink, SortProgram.run, hless, bind_some]
    by_cases hlt : x < y
    · obtain ⟨l', hl', hperm, hrun⟩ := ih hinit (y :: rest)
      refine ⟨l' ++ [y], ?_, ?_, ?_⟩
      · refine pairwise_append.mpr ⟨hl', pairwise_singleton _ _, fun a ha b hb => ?_⟩
        obtain rfl := mem_singleton.mp hb
        rcases mem_append.mp (hperm.mem_iff.mp ha) with ha | ha
        · exact hbefore a ha
        · obtain rfl := mem_singleton.mp ha
          exact le_of_lt hlt
      · have hmoved : (l ++ [x] ++ [y]).Perm (l ++ [y] ++ [x]) := by
          simpa using (List.Perm.swap y x []).append_left l
        exact (hperm.append_right [y]).trans hmoved
      · have hswap : keys.swap (l ++ [y] ++ x :: rest) (l.length + 1) l.length =
            some (l ++ x :: y :: rest) := by
          simp [keys, swapAt]
        rw [decide_eq_true hlt, if_pos rfl, SortProgram.run, hswap, bind_some, hrun,
          append_assoc, singleton_append]
    · refine ⟨l ++ [y] ++ [x], ?_, .refl _, ?_⟩
      · refine pairwise_append.mpr ⟨hl, pairwise_singleton _ _, fun a ha b hb => ?_⟩
        obtain rfl := mem_singleton.mp hb
        rcases mem_append.mp ha with ha | ha
        · exact le_trans (hbefore a ha) (not_lt.mp hlt)
        · obtain rfl := mem_singleton.mp ha
          exact not_lt.mp hlt
      · rw [decide_eq_false hlt, if_neg Bool.false_ne_true, append_assoc (l ++ [y]),
          singleton_append]

theorem run_insertFrom {l : List κ} (hl : Ascending l) (rest : List κ) :
    ∃ l', (insertFrom rest.length l.length).run keys (l ++ rest) = some l' ∧ Ascending l' := by
  induction rest generalizing l with
  | nil => exact ⟨l, by simp [insertFrom, SortProgram.run], hl⟩
  | cons x rest ih =>
    obtain ⟨l', hl', hperm, hrun⟩ := run_sink (insertFrom rest.length (l.length + 1)) hl x rest
    have hlen : l'.length = l.length + 1 := by simpa using hperm.length_eq
    obtain ⟨sorted, hsorted, hasc⟩ := ih hl'
    refine ⟨sorted, ?_, hasc⟩
    rw [length_cons, insertFrom, hrun, ← hlen, hsorted]

theorem sorts_insertionSort : Sorts κ insertionSort := by
  intro l
  have hnil : Ascending ([] : List κ) := List.Pairwise.nil
  simpa [insertionSort] using run_insertFrom hnil l

end

end Vanguard.Library
