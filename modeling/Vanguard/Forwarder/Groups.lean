import Vanguard.Forwarder.Fastest
import Vanguard.Forwarder.Views

namespace Vanguard.Forwarder.Views

open Library

section selectors

variable {B : Type} {sort : ℕ → SortProgram} (hsort : Sorts Time sort)

theorem ne_nil_of_perm {fwders fwders' : List String} (hperm : fwders'.Perm fwders)
    (hne : fwders ≠ []) : fwders' ≠ [] := by
  rintro rfl
  exact hne hperm.symm.eq_nil

theorem selectNextUsableFwder_returns {F : Type} (down : F → Bool) {fwders : List F} {i : ℕ}
    (hi : fwders ≠ [] → i < fwders.length) :
    ∃ result, selectNextUsableFwder down fwders fwders.length i = .ok result := by
  rcases selectNextUsableFwder_cases down fwders.length hi le_rfl with ⟨f, j, hok, -⟩ | hok
  · exact ⟨_, hok⟩
  · exact ⟨_, hok⟩

include hsort in
theorem Selector.selectFwder_of_ne_nil (rtt : String → Time) (down : String → Bool) (s : Selector)
    (hne : s.getFwders ≠ []) :
    ∃ f s', s.selectFwder sort rtt down = .ok (f, s') ∧ s'.getFwders.Perm s.getFwders := by
  cases s with
  | fixOrder s =>
    obtain ⟨result, hok⟩ := selectNextUsableFwder_returns down
      (List.length_pos_iff.mpr : s.fwders ≠ [] → 0 < s.fwders.length)
    exact ⟨result.1, .fixOrder s, by simp [selectFwder, FixOrderSelector.selectFwder, hok,
      Except.map], .refl _⟩
  | rttBased s =>
    obtain ⟨result, hok, hoptimal⟩ := s.selectFwder_optimal hsort ⟨rtt, down⟩
    exact ⟨result.1, .rttBased result.2, by simp only [selectFwder, hok, Except.map], hoptimal.perm⟩
  | roundRobin s =>
    have hlen : s.fwders.length ≠ 0 := fun hzero => hne (List.length_eq_zero_iff.mp hzero)
    obtain ⟨result, hok⟩ := selectNextUsableFwder_returns down s.next_lt
    refine ⟨result.1, .roundRobin ⟨s.fwders, ((result.2 + 1) % s.fwders.length).toNat,
      fun _ => emod_toNat_lt hlen _⟩, ?_, .refl _⟩
    simp [selectFwder, RoundRobinSelector.selectFwder, hok, hlen, Except.map]

include hsort in
theorem Selector.selectFwder_of_nil (rtt : String → Time) (down : String → Bool) (s : Selector)
    (hnil : s.getFwders = []) :
    (∃ p, s.selectFwder sort rtt down = .error p) ∨
      ∃ s', s.selectFwder sort rtt down = .ok (none, s') ∧ s'.getFwders = [] := by
  cases s with
  | fixOrder s =>
    have hfwders : s.fwders = [] := hnil
    refine .inr ⟨.fixOrder s, ?_, hnil⟩
    simp [selectFwder, FixOrderSelector.selectFwder, hfwders, selectNextUsableFwder, Except.map]
  | rttBased s =>
    have hfwders : s.fwders = [] := hnil
    obtain ⟨⟨f, s'⟩, hok, hoptimal⟩ := s.selectFwder_optimal hsort ⟨rtt, down⟩
    have hnone : f = none := hoptimal.none_iff.mpr (by simp [hfwders])
    have hperm := hoptimal.perm
    rw [hfwders] at hperm
    refine .inr ⟨.rttBased s', ?_, hperm.eq_nil⟩
    simp only [selectFwder, hok, Except.map, hnone]
  | roundRobin s =>
    have hfwders : s.fwders = [] := hnil
    refine .inl ⟨.divideByZero, ?_⟩
    simp [selectFwder, RoundRobinSelector.selectFwder, hfwders, selectNextUsableFwder, Except.map]

include hsort in
theorem FwderGroup.forward_of_ne_nil (g : FwderGroup) (hne : g.selector.getFwders ≠ [])
    (attempts : List (Attempt B)) (last : Except ForwardError (Option B)) :
    ∃ g' result, g.forward sort attempts last = .ok (g', result) ∧
      g'.selector.getFwders.Perm g.selector.getFwders := by
  induction attempts generalizing g last with
  | nil => exact ⟨g, last, rfl, .refl _⟩
  | cons a attempts ih =>
    obtain ⟨f, s', hok, hperm⟩ := g.selector.selectFwder_of_ne_nil hsort a.rtt a.down hne
    have hne' := ne_nil_of_perm hperm hne
    cases f with
    | none =>
      obtain ⟨g', result, hrest, hperm'⟩ := ih ⟨s', none⟩ hne' (.error .allFwderIsDown)
      exact ⟨g', result, by simp only [FwderGroup.forward, FwderGroup.forwardOnce, hok, hrest],
        hperm'.trans hperm⟩
    | some addr =>
      cases hreply : a.reply addr with
      | ok resp =>
        exact ⟨⟨s', some addr⟩, .ok (some resp), by
          simp only [FwderGroup.forward, FwderGroup.forwardOnce, hok, hreply, Except.mapError],
          hperm⟩
      | error e =>
        obtain ⟨g', result, hrest, hperm'⟩ := ih ⟨s', some addr⟩ hne' (.error (.query e))
        exact ⟨g', result, by simp only [FwderGroup.forward, FwderGroup.forwardOnce, hok, hreply,
          Except.mapError, hrest], hperm'.trans hperm⟩

include hsort in
theorem FwderGroup.forward_of_nil (g : FwderGroup) (hnil : g.selector.getFwders = [])
    (attempts : List (Attempt B)) (last : Except ForwardError (Option B))
    (hstart : attempts = [] → g.lastFwder = none) :
    (∃ p, g.forward sort attempts last = .error p) ∨
      ∃ g' result, g.forward sort attempts last = .ok (g', result) ∧ g'.lastFwder = none ∧
        g'.selector.getFwders = [] := by
  induction attempts generalizing g last with
  | nil => exact .inr ⟨g, last, rfl, hstart rfl, hnil⟩
  | cons a attempts ih =>
    rcases g.selector.selectFwder_of_nil hsort a.rtt a.down hnil with ⟨p, hpanic⟩ | ⟨s', hok, hnil'⟩
    · exact .inl ⟨p, by simp only [FwderGroup.forward, FwderGroup.forwardOnce, hpanic]⟩
    · have hforward : g.forward sort (a :: attempts) last =
          FwderGroup.forward sort ⟨s', none⟩ attempts (.error .allFwderIsDown) := by
        simp only [FwderGroup.forward, FwderGroup.forwardOnce, hok]
      rw [hforward]
      exact ih ⟨s', none⟩ hnil' _ fun _ => rfl

theorem FwderGroup.remoteAddr_of_ne_nil (g : FwderGroup) (hne : g.selector.getFwders ≠ []) :
    ∃ addr, g.remoteAddr = .ok addr := by
  unfold FwderGroup.remoteAddr
  cases g.lastFwder with
  | some addr => exact ⟨addr, rfl⟩
  | none =>
    cases hfwders : g.selector.getFwders with
    | nil => exact absurd hfwders hne
    | cons addr fwders => exact ⟨addr, rfl⟩

end selectors

structure Keeps (groups groups' : Heap FwderGroup) : Prop where
  next_le : groups.next ≤ groups'.next
  perm : ∀ p < groups.next,
    (groups'.load p).selector.getFwders.Perm (groups.load p).selector.getFwders

theorem Keeps.refl (groups : Heap FwderGroup) : Keeps groups groups := ⟨le_rfl, fun _ _ => .refl _⟩

theorem Keeps.of_extends {groups groups' : Heap FwderGroup} (h : groups.Extends groups') :
    Keeps groups groups' :=
  ⟨h.next_le, fun p hp => by rw [h.load_eq p hp]⟩

theorem Keeps.of_write {groups : Heap FwderGroup} {p : Ptr} {g : FwderGroup}
    (hperm : g.selector.getFwders.Perm (groups.load p).selector.getFwders) :
    Keeps groups (groups.write p g) := by
  refine ⟨le_rfl, fun q _ => ?_⟩
  by_cases hq : q = p
  · rw [hq, Heap.load_write_self]
    exact hperm
  · rw [Heap.load_write_of_ne hq]

section query

variable {B T : Type} [NameTree T ZoneFwder] {sort : ℕ → SortProgram} {mgr : ViewFwderMgr T}
  {r : Request B}

theorem processRequest_returns (hsort : Sorts Time sort)
    (hgroup : ∀ p, mgr.getFwder r.view r.name = some (.group p) →
      (mgr.groups.load p).selector.getFwders ≠ []) :
    ∃ result, processRequest sort mgr r = .ok result ∧ result.1.fwders = mgr.fwders ∧
      Keeps mgr.groups result.1.groups := by
  cases hget : mgr.getFwder r.view r.name with
  | none => exact ⟨(mgr, none), by simp only [processRequest, hget], rfl, .refl _⟩
  | some fwder =>
    cases fwder with
    | one addr =>
      by_cases hfails : r.senderFails addr = true
      · exact ⟨(mgr, none), by simp [processRequest, hget, hfails], rfl, .refl _⟩
      · exact ⟨(mgr, _), by simp only [processRequest, hget, hfails]; rfl, rfl, .refl _⟩
    | group p =>
      have hne := hgroup p hget
      by_cases hset : setQuerySource r.down r.senderFails
          (mgr.groups.load p).selector.getFwders = true
      · obtain ⟨g', result, hforward, hperm⟩ := FwderGroup.forward_of_ne_nil hsort
          (mgr.groups.load p) hne ((List.range maxRetryCount).map r.attempts) (.ok none)
        obtain ⟨addr, haddr⟩ := g'.remoteAddr_of_ne_nil (ne_nil_of_perm hperm hne)
        exact ⟨({ mgr with groups := mgr.groups.write p g' }, result.toOption.join), by
          simp only [processRequest, hget, hset, if_true, hforward, haddr], rfl, .of_write hperm⟩
      · exact ⟨(mgr, none), by simp [processRequest, hget, hset], rfl, .refl _⟩

theorem processRequest_panics (hsort : Sorts Time sort) {p : Ptr}
    (hget : mgr.getFwder r.view r.name = some (.group p))
    (hnil : (mgr.groups.load p).selector.getFwders = []) :
    ∃ panic, processRequest sort mgr r = .error panic := by
  have hset : setQuerySource r.down r.senderFails (mgr.groups.load p).selector.getFwders = true := by
    rw [hnil]
    rfl
  rcases FwderGroup.forward_of_nil hsort (mgr.groups.load p) hnil
      ((List.range maxRetryCount).map r.attempts) (.ok none) (by simp [maxRetryCount]) with
    ⟨panic, hpanic⟩ | ⟨g', result, hforward, hlast, hnil'⟩
  · exact ⟨panic, by simp only [processRequest, hget, hset, if_true, hpanic]⟩
  · have haddr : g'.remoteAddr = .error .indexOutOfRange := by
      simp only [FwderGroup.remoteAddr, hlast, hnil']
    exact ⟨.indexOutOfRange, by
      simp only [processRequest, hget, hset, if_true, hforward, haddr]⟩

end query

end Vanguard.Forwarder.Views
