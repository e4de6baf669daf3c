import Vanguard.Dns.Message
import Vanguard.Library.Sorting

/-!
# How a group chooses its forwarder

`selectNextUsableFwder` goes round the forwarders from an index on and stops at the first that is
up. `FixOrderSelector` starts at the first one, `RoundRobinSelector` after the last choice, and
`RttBasedSelector` at the first of the list that it has just sorted by round trip times.
-/

namespace Vanguard.Forwarder

open Library

inductive Panic where
  | indexOutOfRange
  | divideByZero
  | nilPointer
  deriving DecidableEq, Repr

section

variable {F : Type}

def selectNextUsableFwder (down : F → Bool) (fwders : List F) : ℕ → ℕ → Except Panic (Option F × ℤ)
  | 0, _ => .ok (none, -1)
  | rounds + 1, fromIndex =>
    match fwders[fromIndex]? with
    | none => .error .indexOutOfRange
    | some f =>
      if down f = false then .ok (some f, fromIndex)
      else selectNextUsableFwder down fwders rounds ((fromIndex + 1) % fwders.length)

structure FixOrderSelector (F : Type) where
  fwders : List F
  deriving DecidableEq, Repr

def FixOrderSelector.selectFwder (down : F → Bool) (s : FixOrderSelector F) :
    Except Panic (Option F) :=
  (selectNextUsableFwder down s.fwders s.fwders.length 0).map Prod.fst

structure RoundRobinSelector (F : Type) where
  fwders : List F
  next : ℕ
  next_lt : fwders ≠ [] → next < fwders.length
  deriving DecidableEq, Repr

def newRoundRobinSelector (fwders : List F) : RoundRobinSelector F :=
  ⟨fwders, 0, List.length_pos_iff.mpr⟩

theorem emod_toNat_lt {n : ℕ} (hn : n ≠ 0) (target : ℤ) : (target % n).toNat < n := by
  have hpos : (0 : ℤ) < n := by omega
  have hlt := Int.emod_lt_of_pos target hpos
  have hnonneg := Int.emod_nonneg target (Int.ne_of_gt hpos)
  omega

def RoundRobinSelector.selectFwder (down : F → Bool) (s : RoundRobinSelector F) :
    Except Panic ((Option F × ℤ) × RoundRobinSelector F) :=
  match selectNextUsableFwder down s.fwders s.fwders.length s.next with
  | .error p => .error p
  | .ok (f, target) =>
    if hlen : s.fwders.length = 0 then .error .divideByZero
    else .ok ((f, target), { s with
      next := ((target + 1) % s.fwders.length).toNat
      next_lt := fun _ => emod_toNat_lt hlen _ })

structure RttBasedSelector (F : Type) where
  fwders : List F
  rttSnapShot : List Time
  length_eq : rttSnapShot.length = fwders.length
  deriving DecidableEq, Repr

def newRttBasedSelector (fwders : List F) : RttBasedSelector F :=
  ⟨fwders, List.replicate fwders.length 0, List.length_replicate⟩

def RttBasedSelector.swap (s : RttBasedSelector F) (i j : ℕ) : Option (RttBasedSelector F) :=
  match hfwders : swapAt s.fwders i j, hrtts : swapAt s.rttSnapShot i j with
  | some fwders, some rttSnapShot =>
    some ⟨fwders, rttSnapShot, by
      rw [(swapAt_perm hfwders).length_eq, (swapAt_perm hrtts).length_eq, s.length_eq]⟩
  | _, _ => none

def RttBasedSelector.data : SortInterface (RttBasedSelector F) where
  less s := keys.less s.rttSnapShot
  swap := RttBasedSelector.swap

/-- The loop of `sortForwarders` over the forwarders. -/
def RttBasedSelector.measure (rtt : F → Time) (s : RttBasedSelector F) : RttBasedSelector F :=
  ⟨s.fwders, s.fwders.map rtt, List.length_map _⟩

def RttBasedSelector.selectFwder (sort : ℕ → SortProgram) (rtt : F → Time) (down : F → Bool)
    (s : RttBasedSelector F) : Except Panic (Option F × RttBasedSelector F) :=
  match (sort s.fwders.length).run RttBasedSelector.data (s.measure rtt) with
  | none => .error .indexOutOfRange
  | some s =>
    match selectNextUsableFwder down s.fwders s.fwders.length 0 with
    | .error p => .error p
    | .ok (f, _) => .ok (f, s)

end

section

variable {F : Type} {down : F → Bool} {fwders : List F}

def distance (n base i : ℕ) : ℕ := if base ≤ i then i - base else i + n - base

theorem succ_mod {n i : ℕ} (hi : i < n) : (i + 1) % n = if i + 1 = n then 0 else i + 1 := by
  split_ifs with hlast
  · rw [hlast, Nat.mod_self]
  · exact Nat.mod_eq_of_lt (by omega)

theorem distance_succ {n base i : ℕ} (hbase : base < n) (hi : i < n)
    (hlast : distance n base i + 1 < n) :
    distance n base ((i + 1) % n) = distance n base i + 1 := by
  rw [succ_mod hi]
  unfold distance at *
  split_ifs at * <;> omega

theorem distance_inj {n base i j : ℕ} (hbase : base < n) (hi : i < n) (hj : j < n)
    (heq : distance n base i = distance n base j) : i = j := by
  unfold distance at heq
  split_ifs at heq <;> omega

theorem distance_lt {n base i : ℕ} (hbase : base < n) (hi : i < n) : distance n base i < n := by
  unfold distance
  split_ifs <;> omega

theorem selectNextUsableFwder_cases (down : F → Bool) (rounds : ℕ) {i : ℕ}
    (hi : fwders ≠ [] → i < fwders.length) (hrounds : rounds ≤ fwders.length) :
    (∃ f j, selectNextUsableFwder down fwders rounds i = .ok (some f, (j : ℕ)) ∧
      fwders[j]? = some f ∧ down f = false) ∨
    selectNextUsableFwder down fwders rounds i = .ok (none, -1) := by
  induction rounds generalizing i with
  | zero => exact .inr rfl
  | succ rounds ih =>
    have hlt : i < fwders.length := hi (List.length_pos_iff.mp (by omega))
    have hget : fwders[i]? = some fwders[i] := List.getElem?_eq_getElem hlt
    simp only [selectNextUsableFwder, hget]
    by_cases hup : down fwders[i] = false
    · rw [if_pos hup]
      exact .inl ⟨_, i, rfl, hget, hup⟩
    · rw [if_neg hup]
      exact ih (fun _ => Nat.mod_lt _ (by omega)) (by omega)

theorem selectNextUsableFwder_within {base q : ℕ} {f : F} (hbase : base < fwders.length)
    (hq : fwders[q]? = some f) (hup : down f = false) {rounds i : ℕ} (hi : i < fwders.length)
    (hle : distance fwders.length base i ≤ distance fwders.length base q)
    (hrounds : distance fwders.length base q < distance fwders.length base i + rounds) :
    ∃ g j, selectNextUsableFwder down fwders rounds i = .ok (some g, (j : ℕ)) ∧
      fwders[j]? = some g ∧ down g = false ∧
      distance fwders.length base j ≤ distance fwders.length base q := by
  induction rounds generalizing i with
  | zero => omega
  | succ rounds ih =>
    have hget : fwders[i]? = some fwders[i] := List.getElem?_eq_getElem hi
    simp only [selectNextUsableFwder, hget]
    by_cases hdown : down fwders[i] = false
    · rw [if_pos hdown]
      exact ⟨_, i, rfl, hget, hdown, hle⟩
    · rw [if_neg hdown]
      -- The forwarder at `i` is down, so it is not the one at `q`, and the next index is no further.
      have hql : q < fwders.length := (List.getElem?_eq_some_iff.mp hq).1
      have hne : i ≠ q := by
        rintro rfl
        rw [hget] at hq
        exact hdown (Option.some.inj hq ▸ hup)
      have hlt : distance fwders.length base i ≠ distance fwders.length base q :=
        fun heq => hne (distance_inj hbase hi hql heq)
      have hround := distance_lt hbase hql
      have hnext := distance_succ hbase hi (by omega)
      exact ih (Nat.mod_lt _ (by omega)) (by omega) (by omega)

theorem selectNextUsableFwder_eq_none_iff (down : F → Bool) {i : ℕ}
    (hi : fwders ≠ [] → i < fwders.length) :
    selectNextUsableFwder down fwders fwders.length i = .ok (none, -1) ↔
      ∀ f ∈ fwders, down f = true := by
  constructor
  · intro hnone f hf
    obtain ⟨q, hq⟩ := List.mem_iff_getElem?.mp hf
    have hql : q < fwders.length := (List.getElem?_eq_some_iff.mp hq).1
    have hil : i < fwders.length := hi (List.ne_nil_of_mem hf)
    by_contra hup
    have hself : distance fwders.length i i = 0 := by simp [distance]
    have hround := distance_lt hil hql
    have hrounds : distance fwders.length i q < distance fwders.length i i + fwders.length := by
      omega
    obtain ⟨g, j, hsome, -⟩ :=
      selectNextUsableFwder_within hil hq (by simpa using hup) hil (by omega) hrounds
    rw [hnone] at hsome
    cases hsome
  · intro hall
    rcases selectNextUsableFwder_cases down fwders.length hi le_rfl with
      ⟨f, j, -, hj, hup⟩ | hnone
    · rw [hall f (List.mem_of_getElem? hj)] at hup
      cases hup
    · exact hnone

end

end Vanguard.Forwarder
