import Vanguard.Forwarder.Selectors

namespace Vanguard.Forwarder

open Library

variable {F : Type}

/-- What a call of `SelectFwder` reads. -/
structure Reading (F : Type) where
  /-- `GetLastRtt`. -/
  rtt : F → Time
  down : F → Bool

def RttBasedSelector.selections (sort : ℕ → SortProgram) (s : RttBasedSelector F) :
    List (Reading F) → Except Panic (List (Option F × RttBasedSelector F))
  | [] => .ok []
  | call :: calls =>
    match s.selectFwder sort call.rtt call.down with
    | .error p => .error p
    | .ok (f, s') =>
      match s'.selections sort calls with
      | .error p => .error p
      | .ok log => .ok ((f, s') :: log)

structure Optimal (fwders : List F) (call : Reading F) (result : Option F × RttBasedSelector F) :
    Prop where
  perm : result.2.fwders.Perm fwders
  aligned : result.2.rttSnapShot = result.2.fwders.map call.rtt
  none_iff : result.1 = none ↔ ∀ f ∈ fwders, call.down f = true
  up : ∀ f, result.1 = some f → f ∈ fwders ∧ call.down f = false
  minimal : ∀ f, result.1 = some f → ∀ g ∈ fwders, call.down g = false → call.rtt f ≤ call.rtt g

variable {s s' : RttBasedSelector F}

theorem RttBasedSelector.swap_eq_some_iff {i j : ℕ} : s.swap i j = some s' ↔
      swapAt s.fwders i j = some s'.fwders ∧ swapAt s.rttSnapShot i j = some s'.rttSnapShot := by
  unfold RttBasedSelector.swap
  split
  · next fwders rttSnapShot hfwders hrtts =>
    constructor
    · rintro ⟨⟩
      exact ⟨hfwders, hrtts⟩
    · rintro ⟨hfwders', hrtts'⟩
      cases hfwders.symm.trans hfwders'
      cases hrtts.symm.trans hrtts'
      rfl
  · next hnone =>
    refine iff_of_false (by simp) ?_
    rintro ⟨hfwders, hrtts⟩
    exact hnone _ _ hfwders hrtts

theorem RttBasedSelector.consistent :
    Consistent RttBasedSelector.data (fun s : RttBasedSelector F => s.rttSnapShot) where
  less_eq _ _ _ := rfl
  view_swap s i j := by
    simp only [RttBasedSelector.data]
    cases hswap : s.swap i j with
    | some s' => exact (swap_eq_some_iff.mp hswap).2.symm
    | none =>
      -- `Swap` fails only if an index is out of range, and the slices have one length.
      cases hrtts : swapAt s.rttSnapShot i j with
      | none => rfl
      | some rttSnapShot =>
        have hin : i < s.fwders.length ∧ j < s.fwders.length := by
          rw [← s.length_eq, ← isSome_swapAt, hrtts]
          rfl
        obtain ⟨fwders, hfwders⟩ :=
          Option.isSome_iff_exists.mp ((isSome_swapAt s.fwders i j).mpr hin)
        have hlen : rttSnapShot.length = fwders.length := by
          rw [(swapAt_perm hrtts).length_eq, (swapAt_perm hfwders).length_eq, s.length_eq]
        have hsome : s.swap i j = some ⟨fwders, rttSnapShot, hlen⟩ :=
          swap_eq_some_iff.mpr ⟨hfwders, hrtts⟩
        rw [hswap] at hsome
        cases hsome

theorem RttBasedSelector.sorted_aligned {program : SortProgram} {rtt : F → Time}
    (hrun : program.run RttBasedSelector.data (s.measure rtt) = some s') :
    s'.fwders.Perm s.fwders ∧ s'.rttSnapShot = s'.fwders.map rtt := by
  refine SortProgram.run_induction
    (fun t => t.fwders.Perm s.fwders ∧ t.rttSnapShot = t.fwders.map rtt) ?_ hrun
    ⟨.refl _, rfl⟩
  rintro t i j t' ⟨hperm, haligned⟩ hswap
  obtain ⟨hfwders, hrtts⟩ := swap_eq_some_iff.mp hswap
  refine ⟨(swapAt_perm hfwders).trans hperm, ?_⟩
  rw [haligned, swapAt_map, hfwders] at hrtts
  exact (Option.some.inj hrtts).symm

theorem selectNextUsableFwder_first {down : F → Bool} {fwders : List F} {f : F} {j : ℤ}
    (hsome : selectNextUsableFwder down fwders fwders.length 0 = .ok (some f, j)) :
    f ∈ fwders ∧ down f = false ∧
      ∀ R : F → F → Prop, fwders.Pairwise R → ∀ g ∈ fwders, down g = false → g = f ∨ R f g := by
  have hne : fwders ≠ [] := by
    rintro rfl
    cases hsome
  have hlen : 0 < fwders.length := List.length_pos_iff.mpr hne
  have hself (i : ℕ) : distance fwders.length 0 i = i := by simp [distance]
  rcases selectNextUsableFwder_cases down fwders.length (fun _ => hlen) le_rfl with
    ⟨f', k, hok, hk, hup⟩ | hnone
  · obtain ⟨rfl, rfl⟩ : f = f' ∧ j = k := by simpa using hsome.symm.trans hok
    refine ⟨List.mem_of_getElem? hk, hup, fun R hsorted g hg hgup => ?_⟩
    obtain ⟨q, hq⟩ := List.mem_iff_getElem?.mp hg
    obtain ⟨hql, rfl⟩ := List.getElem?_eq_some_iff.mp hq
    obtain ⟨hkl, rfl⟩ := List.getElem?_eq_some_iff.mp hk
    have hrounds : distance fwders.length 0 q < distance fwders.length 0 0 + fwders.length := by
      rw [hself, hself]
      omega
    obtain ⟨g', k', hok', -, -, hle⟩ :=
      selectNextUsableFwder_within hlen hq hgup hlen (by rw [hself]; omega) hrounds
    obtain ⟨-, rfl⟩ : g' = fwders[k] ∧ k' = k := by
      simpa [Int.ofNat_inj] using hok'.symm.trans hok
    rw [hself, hself] at hle
    rcases Nat.eq_or_lt_of_le hle with rfl | hlt
    · exact .inl rfl
    · exact .inr (List.pairwise_iff_getElem.mp hsorted _ _ hkl hql hlt)
  · rw [hnone] at hsome
    cases hsome

theorem RttBasedSelector.selectFwder_optimal {sort : ℕ → SortProgram} (hsort : Sorts Time sort)
    (s : RttBasedSelector F) (call : Reading F) :
    ∃ result, s.selectFwder sort call.rtt call.down = .ok result ∧
      Optimal s.fwders call result := by
  obtain ⟨s', hrun, hascending⟩ := hsort.run RttBasedSelector.consistent (s.measure call.rtt)
  have hlen : (s.measure call.rtt).rttSnapShot.length = s.fwders.length := List.length_map _
  rw [hlen] at hrun
  obtain ⟨hperm, haligned⟩ := RttBasedSelector.sorted_aligned hrun
  have hstart : s'.fwders ≠ [] → 0 < s'.fwders.length := List.length_pos_iff.mpr
  have hdown : (∀ f ∈ s'.fwders, call.down f = true) ↔ ∀ f ∈ s.fwders, call.down f = true :=
    forall_congr' fun f => by rw [hperm.mem_iff]
  have hnone := selectNextUsableFwder_eq_none_iff call.down hstart
  rcases selectNextUsableFwder_cases call.down s'.fwders.length hstart le_rfl with
    ⟨f, j, hsome, -, -⟩ | hall
  · obtain ⟨hmem, hup, hfirst⟩ := selectNextUsableFwder_first hsome
    refine ⟨(some f, s'), by simp only [selectFwder, hrun, hsome], hperm, haligned, ?_, ?_, ?_⟩
    · rw [← hdown, ← hnone, hsome]
      simp
    · rintro g ⟨⟩
      exact ⟨hperm.mem_iff.mp hmem, hup⟩
    · rintro g ⟨⟩ h hh hhup
      have hsorted : s'.fwders.Pairwise fun a b => call.rtt a ≤ call.rtt b := by
        rw [← List.pairwise_map, ← haligned]
        exact hascending
      rcases hfirst _ hsorted h (hperm.mem_iff.mpr hh) hhup with rfl | hle
      · exact le_rfl
      · exact hle
  · refine ⟨(none, s'), by simp only [selectFwder, hrun, hall], hperm, haligned, ?_, ?_, ?_⟩
    · exact iff_of_true rfl (hdown.mp (hnone.mp hall))
    · rintro g ⟨⟩
    · rintro g ⟨⟩

/-- Every call returns the fastest forwarder that is up, or nil if all are down. -/
theorem rtt_selection_optimal {sort : ℕ → SortProgram} (hsort : Sorts Time sort) (fwders : List F)
    (calls : List (Reading F)) :
    ∃ log, (newRttBasedSelector fwders).selections sort calls = .ok log ∧
      List.Forall₂ (Optimal fwders) calls log := by
  have hrun (s : RttBasedSelector F) (hs : s.fwders.Perm fwders) : ∃ log,
      s.selections sort calls = .ok log ∧ List.Forall₂ (Optimal fwders) calls log := by
    induction calls generalizing s with
    | nil => exact ⟨[], rfl, .nil⟩
    | cons call calls ih =>
      obtain ⟨result, hok, hoptimal⟩ := s.selectFwder_optimal hsort call
      obtain ⟨log, hlog, hrest⟩ := ih result.2 (hoptimal.perm.trans hs)
      refine ⟨result :: log, by simp only [RttBasedSelector.selections, hok, hlog], .cons ?_ hrest⟩
      exact ⟨hoptimal.perm.trans hs, hoptimal.aligned,
        hoptimal.none_iff.trans (forall_congr' fun f => by rw [hs.mem_iff]),
        fun f hf => ⟨hs.mem_iff.mp (hoptimal.up f hf).1, (hoptimal.up f hf).2⟩,
        fun f hf g hg => hoptimal.minimal f hf g (hs.mem_iff.mpr hg)⟩
  exact hrun _ (.refl _)

/-- The faster of two forwarders is returned, and the other one once that is down. -/
theorem example_fastest :
    ∃ log, (newRttBasedSelector ["a", "b"]).selections insertionSort
        [⟨fun f => if f = "a" then 9 else 2, fun _ => false⟩,
          ⟨fun f => if f = "a" then 9 else 2, fun f => f = "b"⟩] = .ok log ∧
      log.map Prod.fst = [some "b", some "a"] ∧
      List.Forall₂ (Optimal ["a", "b"])
        [⟨fun f => if f = "a" then 9 else 2, fun _ => false⟩,
          ⟨fun f => if f = "a" then 9 else 2, fun f => f = "b"⟩] log := by
  obtain ⟨log, hlog, hoptimal⟩ := rtt_selection_optimal sorts_insertionSort ["a", "b"]
    [⟨fun f => if f = "a" then 9 else 2, fun _ => false⟩,
      ⟨fun f => if f = "a" then 9 else 2, fun f => f = "b"⟩]
  refine ⟨log, hlog, ?_, hoptimal⟩
  cases hlog
  rfl

end Vanguard.Forwarder
