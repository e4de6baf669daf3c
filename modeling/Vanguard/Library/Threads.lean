import Mathlib.Data.List.Perm.Basic
import Mathlib.Data.Multiset.DershowitzManna

namespace Vanguard.Library

section

open List

variable {α β : Type}

variable {l : List α} {i : ℕ} {a : α}

theorem perm_eraseIdx (hi : l[i]? = some a) : (a :: l.eraseIdx i).Perm l := by
  obtain ⟨hlt, rfl⟩ := List.getElem?_eq_some_iff.mp hi
  exact getElem_cons_eraseIdx_perm hlt

theorem exists_mem_iff (hi : l[i]? = some a) (p : α → Prop) :
    (∃ x ∈ l, p x) ↔ p a ∨ ∃ x ∈ l.eraseIdx i, p x := by
  simp [← (perm_eraseIdx hi).mem_iff]

theorem exists_mem_set_iff (hi : l[i]? = some a) (b : α) (p : α → Prop) :
    (∃ x ∈ l.set i b, p x) ↔ p b ∨ ∃ x ∈ l.eraseIdx i, p x := by
  have hlt : i < l.length := (List.getElem?_eq_some_iff.mp hi).1
  simp [(set_perm_cons_eraseIdx hlt b).mem_iff]

theorem count_filterMap_eraseIdx [DecidableEq β] (f : α → Option β) (hi : l[i]? = some a) (b : β) :
    ((l.eraseIdx i).filterMap f).count b + (f a).toList.count b = (l.filterMap f).count b := by
  rw [← ((perm_eraseIdx hi).filterMap f).count_eq b, filterMap_cons]
  cases hfa : f a with
  | none => simp
  | some c => simp [count_cons]

end

variable {α β : Type} [Preorder α]

def Forks (rank : β → α) (l l' : List β) : Prop :=
  ∃ i b new, l[i]? = some b ∧ l' = l.eraseIdx i ++ new ∧ ∀ c ∈ new, rank c < rank b

theorem Forks.lt {rank : β → α} {l l' : List β} (h : Forks rank l l') :
    Multiset.IsDershowitzMannaLT (l'.map rank : Multiset α) (l.map rank : Multiset α) := by
  obtain ⟨i, b, new, hi, rfl, hlt⟩ := h
  refine ⟨((l.eraseIdx i).map rank : List α), (new.map rank : List α), {rank b}, ?_, ?_, ?_, ?_⟩
  · simp
  · simp
  · have hperm := (perm_eraseIdx hi).map rank
    rw [← Multiset.coe_eq_coe.mpr hperm, List.map_cons, ← Multiset.cons_coe, add_comm]
    rfl
  · intro y hy
    obtain ⟨c, hc, rfl⟩ := List.mem_map.mp (Multiset.mem_coe.mp hy)
    exact ⟨rank b, Multiset.mem_singleton_self _, hlt c hc⟩

theorem wellFounded_forks [WellFoundedLT α] (rank : β → α) :
    WellFounded fun l' l : List β => Forks rank l l' :=
  Subrelation.wf Forks.lt
    (InvImage.wf (fun l : List β => (l.map rank : Multiset α))
      Multiset.wellFounded_isDershowitzMannaLT)

end Vanguard.Library
