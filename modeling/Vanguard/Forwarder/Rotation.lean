import Mathlib.Data.List.Nodup
import Vanguard.Forwarder.Selectors

namespace Vanguard.Forwarder

open List

variable {F : Type}

/-- The calls of `SelectFwder` one after the other, with what is down at each of them. -/
def RoundRobinSelector.selections (s : RoundRobinSelector F) :
    List (F → Bool) → Except Panic (List (Option F × ℤ))
  | [] => .ok []
  | down :: downs =>
    match s.selectFwder down with
    | .error p => .error p
    | .ok (chosen, s') =>
      match s'.selections downs with
      | .error p => .error p
      | .ok log => .ok (chosen :: log)

structure Usable (fwders : List F) (down : F → Bool) (chosen : Option F × ℤ) : Prop where
  none_iff : chosen.1 = none ↔ ∀ f ∈ fwders, down f = true
  up : ∀ f, chosen.1 = some f → down f = false ∧ ∃ j : ℕ, chosen.2 = j ∧ fwders[j]? = some f

def ChosenAt (log : List (Option F × ℤ)) (t p : ℕ) : Prop := ∃ f, log[t]? = some (some f, (p : ℤ))

def ReturnedAt (log : List (Option F × ℤ)) (t : ℕ) (f : F) : Prop := ∃ p, log[t]? = some (some f, p)

def UpSince (downs : List (F → Bool)) (s t : ℕ) (f : F) : Prop :=
  ∀ u down, s < u → u ≤ t → downs[u]? = some down → down f = false

theorem chosen_inj {f g : F} {p q : ℕ} (heq : (some f, (p : ℤ)) = (some g, (q : ℤ))) :
    f = g ∧ p = q :=
  ⟨Option.some.inj (congrArg Prod.fst heq), Int.ofNat_inj.mp (congrArg Prod.snd heq)⟩

variable {s : RoundRobinSelector F}

theorem RoundRobinSelector.selectFwder_eq {down : F → Bool} {f : Option F} {target : ℤ}
    (hlen : ¬s.fwders.length = 0)
    (hloop : selectNextUsableFwder down s.fwders s.fwders.length s.next = .ok (f, target)) :
    s.selectFwder down = .ok ((f, target), ⟨s.fwders, ((target + 1) % s.fwders.length).toNat,
      fun _ => emod_toNat_lt hlen _⟩) := by
  simp only [selectFwder, hloop, dif_neg hlen]

theorem RoundRobinSelector.selectFwder_spec (s : RoundRobinSelector F) (hne : s.fwders ≠ [])
    (down : F → Bool) :
    ∃ chosen s', s.selectFwder down = .ok (chosen, s') ∧ s'.fwders = s.fwders ∧
      Usable s.fwders down chosen ∧
      ∀ f (p : ℕ), chosen = (some f, (p : ℤ)) → s'.next = (p + 1) % s.fwders.length := by
  have hlen : ¬s.fwders.length = 0 := fun h => hne (length_eq_zero_iff.mp h)
  have hnone := selectNextUsableFwder_eq_none_iff down s.next_lt
  rcases selectNextUsableFwder_cases down s.fwders.length s.next_lt le_rfl with
    ⟨f, j, hsome, hj, hup⟩ | hall
  · refine ⟨(some f, (j : ℤ)), _, selectFwder_eq hlen hsome, rfl, ⟨?_, ?_⟩, ?_⟩
    · rw [← hnone, hsome]
      simp
    · rintro g ⟨⟩
      exact ⟨hup, j, rfl, hj⟩
    · rintro g p heq
      obtain ⟨-, rfl⟩ := chosen_inj heq
      exact Int.toNat_natCast _
  · refine ⟨(none, -1), _, selectFwder_eq hlen hall, rfl, ⟨?_, ?_⟩, ?_⟩
    · exact iff_of_true rfl (hnone.mp hall)
    · rintro g ⟨⟩
    · rintro g p ⟨⟩

theorem RoundRobinSelector.selections_usable (s : RoundRobinSelector F) (hne : s.fwders ≠ [])
    (downs : List (F → Bool)) :
    ∃ log, s.selections downs = .ok log ∧ List.Forall₂ (Usable s.fwders) downs log := by
  induction downs generalizing s with
  | nil => exact ⟨[], rfl, .nil⟩
  | cons down downs ih =>
    obtain ⟨chosen, s', hok, hfwders, husable, -⟩ := s.selectFwder_spec hne down
    obtain ⟨log, hlog, hrest⟩ := ih s' (hfwders ▸ hne)
    refine ⟨chosen :: log, ?_, .cons husable (hfwders ▸ hrest)⟩
    simp only [selections, hok, hlog]

variable {log : List (Option F × ℤ)} {downs : List (F → Bool)}

theorem RoundRobinSelector.of_selections_cons {down : F → Bool}
    (hlog : s.selections (down :: downs) = .ok log) :
    ∃ chosen s' rest, s.selectFwder down = .ok (chosen, s') ∧ s'.selections downs = .ok rest ∧
      log = chosen :: rest := by
  unfold selections at hlog
  cases hcall : s.selectFwder down with
  | error p => simp [hcall] at hlog
  | ok result =>
    cases hrest : result.2.selections downs with
    | error p => simp [hcall, hrest] at hlog
    | ok rest =>
      exact ⟨result.1, result.2, rest, rfl, hrest, by simpa [hcall, hrest] using hlog.symm⟩

theorem RoundRobinSelector.stops_before (hlog : s.selections downs = .ok log) {base p q t : ℕ}
    {f : F} (hbase : base < s.fwders.length) (hq : s.fwders[q]? = some f)
    (hnext : distance s.fwders.length base s.next ≤ distance s.fwders.length base q)
    (hfar : distance s.fwders.length base q < distance s.fwders.length base p)
    (hchosen : ChosenAt log t p) (hup : ∀ u down, u ≤ t → downs[u]? = some down → down f = false) :
    ∃ u < t, ChosenAt log u q := by
  -- The cursor is never further away than `q` until the selector is at `q`.
  induction downs generalizing s log t with
  | nil =>
    obtain ⟨g, hg⟩ := hchosen
    cases hlog
    cases hg
  | cons down downs ih =>
    have hne : s.fwders ≠ [] := length_pos_iff.mp (by omega)
    have hql : q < s.fwders.length := (List.getElem?_eq_some_iff.mp hq).1
    obtain ⟨chosen, s', rest, hcall, hrest, rfl⟩ := of_selections_cons hlog
    obtain ⟨_, _, hcall', hfwders, -, hmoved⟩ := s.selectFwder_spec hne down
    cases hcall.symm.trans hcall'
    obtain ⟨g, j, hsome, hj, -, hwithin⟩ := selectNextUsableFwder_within hbase hq
      (hup 0 down (by omega) rfl) (s.next_lt hne) hnext
      (lt_of_lt_of_le (distance_lt hbase hql) (Nat.le_add_left _ _))
    have hlen : ¬s.fwders.length = 0 := by omega
    obtain rfl : chosen = (some g, (j : ℤ)) :=
      congrArg Prod.fst (Except.ok.inj (hcall.symm.trans (selectFwder_eq hlen hsome)))
    have hjl : j < s.fwders.length := (List.getElem?_eq_some_iff.mp hj).1
    by_cases hjq : j = q
    · refine ⟨0, Nat.pos_of_ne_zero ?_, g, by simp [hjq]⟩
      rintro rfl
      obtain ⟨g', hg'⟩ := hchosen
      obtain ⟨-, rfl⟩ := chosen_inj (Option.some.inj hg')
      subst hjq
      omega
    · have hbefore : distance s.fwders.length base j ≠ distance s.fwders.length base q :=
        fun heq => hjq (distance_inj hbase hjl hql heq)
      have hround := distance_lt hbase hql
      have hstep := distance_succ hbase hjl (by omega)
      cases t with
      | zero =>
        obtain ⟨g', hg'⟩ := hchosen
        obtain ⟨-, rfl⟩ := chosen_inj (Option.some.inj hg')
        omega
      | succ t =>
        have hnext' : distance s'.fwders.length base s'.next ≤
            distance s'.fwders.length base q := by
          rw [hfwders, hmoved g j rfl, hstep]
          omega
        obtain ⟨u, hu, hchosen'⟩ := ih hrest (hfwders ▸ hbase) (hfwders ▸ hq) hnext'
          (hfwders ▸ hfar) hchosen fun u down hu hdown => hup (u + 1) down (by omega) hdown
        exact ⟨u + 1, by omega, hchosen'⟩

theorem RoundRobinSelector.stops_between (hlog : s.selections downs = .ok log) {a t p q : ℕ} {f : F}
    (hat : a < t) (hfirst : ChosenAt log a p) (hsecond : ChosenAt log t p)
    (hq : s.fwders[q]? = some f) (hne : q ≠ p) (hup : UpSince downs a t f) :
    ∃ u, a < u ∧ u < t ∧ ChosenAt log u q := by
  induction downs generalizing s log a t with
  | nil =>
    obtain ⟨g, hg⟩ := hfirst
    cases hlog
    cases hg
  | cons down downs ih =>
    have hql : q < s.fwders.length := (List.getElem?_eq_some_iff.mp hq).1
    have hlist : s.fwders ≠ [] := length_pos_iff.mp (by omega)
    obtain ⟨chosen, s', rest, hcall, hrest, rfl⟩ := of_selections_cons hlog
    obtain ⟨_, _, hcall', hfwders, husable, hmoved⟩ := s.selectFwder_spec hlist down
    cases hcall.symm.trans hcall'
    obtain ⟨t, rfl⟩ : ∃ t', t = t' + 1 := ⟨t - 1, by omega⟩
    cases a with
    | zero =>
      -- The way round is counted from the index after `p`, so `p` is the last one on it.
      obtain ⟨g, hg⟩ := hfirst
      cases hg
      obtain ⟨-, j, hpj, hj⟩ := husable.up g rfl
      obtain rfl : p = j := Int.ofNat_inj.mp hpj
      have hpl : p < s.fwders.length := (List.getElem?_eq_some_iff.mp hj).1
      have hbase : (p + 1) % s.fwders.length < s.fwders.length := Nat.mod_lt _ (by omega)
      have hself : distance s.fwders.length ((p + 1) % s.fwders.length)
          ((p + 1) % s.fwders.length) = 0 := by simp [distance]
      have hlast : distance s.fwders.length ((p + 1) % s.fwders.length) p =
          s.fwders.length - 1 := by
        rw [succ_mod hpl]
        unfold distance
        split_ifs <;> omega
      have hother : distance s.fwders.length ((p + 1) % s.fwders.length) q ≠
          distance s.fwders.length ((p + 1) % s.fwders.length) p :=
        fun heq => hne (distance_inj hbase hql hpl heq)
      have hround := distance_lt hbase hql
      have hnext : s'.next = (p + 1) % s.fwders.length := hmoved g p rfl
      obtain ⟨u, hu, hchosen⟩ := s'.stops_before hrest (hfwders ▸ hbase) (hfwders ▸ hq)
        (by rw [hfwders, hnext, hself]; omega) (by rw [hfwders]; omega) hsecond
        fun u down hu hdown => hup (u + 1) down (by omega) (by omega) hdown
      exact ⟨u + 1, by omega, by omega, hchosen⟩
    | succ a =>
      obtain ⟨u, hau, hut, hchosen⟩ := ih hrest (by omega) hfirst hsecond (hfwders ▸ hq)
        fun u down hau hut hdown => hup (u + 1) down (by omega) (by omega) hdown
      exact ⟨u + 1, by omega, by omega, hchosen⟩

/-- A call returns a forwarder that is up, and between two calls with one index every other that is
up is chosen. -/
theorem round_robin_fair {fwders : List F} (hne : fwders ≠ []) (downs : List (F → Bool)) :
    ∃ log, (newRoundRobinSelector fwders).selections downs = .ok log ∧
      List.Forall₂ (Usable fwders) downs log ∧
      (∀ s t p q f, s < t → ChosenAt log s p → ChosenAt log t p → fwders[q]? = some f → q ≠ p →
        UpSince downs s t f → ∃ u, s < u ∧ u < t ∧ ChosenAt log u q) ∧
      (fwders.Nodup → ∀ s t f g, s < t → ReturnedAt log s f → ReturnedAt log t f → g ∈ fwders →
        g ≠ f → UpSince downs s t g → ∃ u, s < u ∧ u < t ∧ ReturnedAt log u g) := by
  obtain ⟨log, hlog, husable⟩ := (newRoundRobinSelector fwders).selections_usable hne downs
  have hplaces : ∀ s t p q f, s < t → ChosenAt log s p → ChosenAt log t p →
      fwders[q]? = some f → q ≠ p → UpSince downs s t f → ∃ u, s < u ∧ u < t ∧ ChosenAt log u q :=
    fun s t p q f hst hs ht hq hqp hup =>
      RoundRobinSelector.stops_between hlog hst hs ht hq hqp hup
  -- What a call returned has an index in the list.
  have hindex : ∀ t f, ReturnedAt log t f → ∃ p, ChosenAt log t p ∧ fwders[p]? = some f := by
    rintro t f ⟨p, hp⟩
    obtain ⟨ht, hget⟩ := List.getElem?_eq_some_iff.mp hp
    have hcall := (forall₂_iff_get.mp husable).2 t (by rw [husable.length_eq]; exact ht) ht
    obtain ⟨-, j, hpj, hj⟩ := hcall.up f (by simp [hget])
    obtain rfl : p = j := by simpa [hget] using hpj
    exact ⟨j, ⟨f, hp⟩, hj⟩
  refine ⟨log, hlog, husable, hplaces, fun hnodup s t f g hst hs ht hg hgf hup => ?_⟩
  obtain ⟨p, hp, hpf⟩ := hindex s f hs
  obtain ⟨p', hp', hpf'⟩ := hindex t f ht
  obtain ⟨hpl, hpeq⟩ := List.getElem?_eq_some_iff.mp hpf
  obtain ⟨hpl', hpeq'⟩ := List.getElem?_eq_some_iff.mp hpf'
  obtain rfl : p = p' := (hnodup.getElem_inj_iff).mp (hpeq.trans hpeq'.symm)
  obtain ⟨q, hq⟩ := mem_iff_getElem?.mp hg
  have hqp : q ≠ p := by
    rintro rfl
    exact hgf (Option.some.inj (hq.symm.trans hpf))
  obtain ⟨u, hsu, hut, g', hg'⟩ := hplaces s t p q g hst hp hp' hq hqp hup
  obtain ⟨hu, hget⟩ := List.getElem?_eq_some_iff.mp hg'
  have hcall := (forall₂_iff_get.mp husable).2 u (by rw [husable.length_eq]; exact hu) hu
  obtain ⟨-, j, hqj, hj⟩ := hcall.up g' (by simp [hget])
  obtain rfl : q = j := Int.ofNat_inj.mp (by simpa [hget] using hqj)
  cases hq.symm.trans hj
  exact ⟨u, hsu, hut, q, hg'⟩

/-- Three forwarders that are up are returned in turn. -/
theorem example_in_turn :
    ∃ log, (newRoundRobinSelector ["a", "b", "c"]).selections (List.replicate 4 fun _ => false) =
        .ok log ∧ ReturnedAt log 0 "a" ∧ ReturnedAt log 3 "a" ∧
      ∃ u, 0 < u ∧ u < 3 ∧ ReturnedAt log u "c" := by
  have hne : ["a", "b", "c"] ≠ [] := by decide
  obtain ⟨log, hlog, -, -, hfair⟩ := round_robin_fair hne (List.replicate 4 fun _ => false)
  have hreturned : ReturnedAt log 0 "a" ∧ ReturnedAt log 3 "a" := by
    cases hlog
    exact ⟨⟨0, rfl⟩, 0, rfl⟩
  refine ⟨log, hlog, hreturned.1, hreturned.2, hfair (by decide) 0 3 "a" "c" (by decide)
    hreturned.1 hreturned.2 (by decide) (by decide) fun u down _ _ hdown => ?_⟩
  have hmem := eq_of_mem_replicate (mem_of_getElem? hdown)
  rw [hmem]

/-- A forwarder that is down at the second call is passed over, and one that stands twice is chosen
twice. -/
theorem example_passed_over :
    (newRoundRobinSelector ["a", "b"]).selections [fun _ => false, fun f => f = "b"] =
      .ok [(some "a", 0), (some "a", 0)] ∧
    (newRoundRobinSelector ["a", "a", "b"]).selections [fun _ => false, fun _ => false] =
      .ok [(some "a", 0), (some "a", 1)] :=
  ⟨rfl, rfl⟩

end Vanguard.Forwarder
