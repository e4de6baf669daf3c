import Mathlib.Data.List.Infix

namespace Vanguard.Library

open List

variable {α : Type}

def longestSuffix (p : List α → Bool) (l : List α) : Option (List α) := l.tails.find? p

def properSuffixes : List α → List (List α)
  | [] => []
  | _ :: l => l.tails.reverse

variable {l m : List α}

theorem mem_properSuffixes : m ∈ properSuffixes l ↔ m <:+ l ∧ m ≠ l := by
  cases l with
  | nil => simp [properSuffixes]
  | cons a l =>
    simp only [properSuffixes, mem_reverse, mem_tails, suffix_cons_iff]
    constructor
    · intro hm
      refine ⟨.inr hm, fun heq => ?_⟩
      have hlen := hm.length_le
      simp only [heq, length_cons] at hlen
      omega
    · rintro ⟨hm | hm, hne⟩
      · exact absurd hm hne
      · exact hm

theorem suffix_antisymm (hlm : l <:+ m) (hml : m <:+ l) : l = m := hlm.eq_of_length_le hml.length_le

theorem longestSuffix_eq_some {p : List α → Bool} : longestSuffix p l = some m ↔
      m <:+ l ∧ p m = true ∧ ∀ k, k <:+ l → p k = true → k <:+ m := by
  induction l with
  | nil =>
    by_cases hp : p [] = true
    · simp only [longestSuffix, List.tails, find?_cons, hp, suffix_nil, Option.some.injEq]
      constructor
      · rintro rfl
        exact ⟨rfl, hp, fun k hk _ => suffix_nil.mpr hk⟩
      · rintro ⟨rfl, _, _⟩
        rfl
    · have hnil : longestSuffix p [] = none := by simp [longestSuffix, hp]
      rw [hnil]
      constructor
      · intro h
        cases h
      · rintro ⟨hm, hpm, _⟩
        rw [suffix_nil.mp hm] at hpm
        exact absurd hpm hp
  | cons a l ih =>
    by_cases hp : p (a :: l) = true
    · have hself : longestSuffix p (a :: l) = some (a :: l) := by simp [longestSuffix, hp]
      rw [hself, Option.some.injEq]
      constructor
      · rintro rfl
        exact ⟨suffix_rfl, hp, fun k hk _ => hk⟩
      · rintro ⟨hm, _, hmax⟩
        exact suffix_antisymm (hmax _ suffix_rfl hp) hm
    · have htail : longestSuffix p (a :: l) = longestSuffix p l := by simp [longestSuffix, hp]
      rw [htail, ih]
      have hiff : ∀ k, p k = true → (k <:+ a :: l ↔ k <:+ l) := by
        intro k hk
        rw [suffix_cons_iff]
        refine ⟨fun h => h.resolve_left ?_, .inr⟩
        rintro rfl
        exact hp hk
      constructor
      · rintro ⟨hm, hpm, hmax⟩
        exact ⟨(hiff m hpm).mpr hm, hpm, fun k hk hpk => hmax k ((hiff k hpk).mp hk) hpk⟩
      · rintro ⟨hm, hpm, hmax⟩
        exact ⟨(hiff m hpm).mp hm, hpm, fun k hk hpk => hmax k ((hiff k hpk).mpr hk) hpk⟩

theorem longestSuffix_eq_none {p : List α → Bool} :
    longestSuffix p l = none ↔ ∀ k, k <:+ l → p k = false := by
  simp [longestSuffix, find?_eq_none]

end Vanguard.Library
