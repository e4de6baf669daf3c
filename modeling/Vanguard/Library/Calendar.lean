import Mathlib.Algebra.Order.Ring.Int

namespace Vanguard.Library

def isLeap (year : ℤ) : Bool := year % 4 = 0 && (year % 100 ≠ 0 || year % 400 = 0)

def daysIn (leap : Bool) : ℕ → ℕ
  | 2 => if leap then 29 else 28
  | 4 | 6 | 9 | 11 => 30
  | _ => 31

def daysBeforeMonth (leap : Bool) : ℕ → ℕ
  | 0 | 1 => 0
  | month + 2 => daysBeforeMonth leap (month + 1) + daysIn leap (month + 1)

def daysBeforeYear (year : ℤ) : ℤ :=
  365 * (year - 1) + (year - 1) / 4 - (year - 1) / 100 + (year - 1) / 400

def dayNumber (year : ℤ) (month day : ℕ) : ℤ :=
  daysBeforeYear year + daysBeforeMonth (isLeap year) month + day - 1

theorem daysBeforeMonth_add_daysIn (leap : Bool) {month later : ℕ} (hmonth : 1 ≤ month)
    (hlater : month < later) :
    daysBeforeMonth leap month + daysIn leap month ≤ daysBeforeMonth leap later := by
  induction later, hlater using Nat.le_induction with
  | base =>
    obtain ⟨m, rfl⟩ := Nat.exists_eq_add_of_le' hmonth
    exact le_rfl
  | succ later hle ih =>
    obtain ⟨m, rfl⟩ := Nat.exists_eq_add_of_le' (hmonth.trans (Nat.le_of_succ_le hle))
    rw [daysBeforeMonth]
    omega

theorem daysBeforeMonth_true (month : ℕ) :
    daysBeforeMonth true month = daysBeforeMonth false month + if 2 < month then 1 else 0 := by
  induction month using daysBeforeMonth.induct with
  | case1 | case2 => rfl
  | case3 month ih =>
    rw [daysBeforeMonth, daysBeforeMonth, ih]
    match month with
    | 0 | 1 => rfl
    | month + 2 =>
      have hdays : daysIn true (month + 2 + 1) = daysIn false (month + 2 + 1) := by
        unfold daysIn
        split <;> simp_all
      simp only [hdays, show 2 < month + 2 + 1 by omega, show 2 < month + 2 + 2 by omega, if_true]
      omega

/-- Going forward from `a` on a clock with a cycle of length `n`, `x` comes strictly before `b`. -/
def CyclicBetween (n a b x : ℤ) : Prop := 0 < (x - a) % n ∧ (x - a) % n < (b - a) % n

section clock

variable {n a b x : ℤ}

variable (ha : 0 ≤ a ∧ a < n)

include ha

theorem sub_emod_of_mem (hx : 0 ≤ x ∧ x < n) :
    (x - a) % n = if a ≤ x then x - a else x - a + n := by
  split_ifs with hle
  · exact Int.emod_eq_of_lt (by omega) (by omega)
  · rw [← Int.add_emod_right]
    exact Int.emod_eq_of_lt (by omega) (by omega)

theorem cyclicBetween_iff (hb : 0 ≤ b ∧ b < n) (hx : 0 ≤ x ∧ x < n) :
    CyclicBetween n a b x ↔ if a ≤ b then a < x ∧ x < b else a < x ∨ x < b := by
  unfold CyclicBetween
  rw [sub_emod_of_mem ha hx, sub_emod_of_mem ha hb]
  split_ifs <;> omega

theorem cyclicBetween_complement (hb : 0 ≤ b ∧ b < n) (hx : 0 ≤ x ∧ x < n) (hne : a ≠ b) :
    ¬(CyclicBetween n a b x ∧ CyclicBetween n b a x) ∧
      (CyclicBetween n a b x ∨ CyclicBetween n b a x ↔ x ≠ a ∧ x ≠ b) := by
  rw [cyclicBetween_iff ha hb hx, cyclicBetween_iff hb ha hx]
  split_ifs <;> omega

end clock

end Vanguard.Library
