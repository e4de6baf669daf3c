import Mathlib.Data.List.Basic

namespace Vanguard.Library

open List

variable {σ ι ε : Type}

/-- Perform the calls in order, stopping at the first one that fails. -/
def run (step : σ → ι → Except ε σ) : σ → List ι → Except ε σ
  | s, [] => .ok s
  | s, i :: is =>
    match step s i with
    | .ok s' => run step s' is
    | .error e => .error e

theorem bind_eq_ok {ε α β : Type} {x : Except ε α} {f : α → Except ε β} {b : β}
    (hok : (x >>= f) = .ok b) : ∃ a, x = .ok a ∧ f a = .ok b := by
  cases x with
  | error e => cases hok
  | ok a => exact ⟨a, rfl, hok⟩

theorem exists_ok {ε α : Type} {x : Except ε α} {P : α → Prop} [DecidablePred P]
    (h : (x.toOption.any fun a => P a) = true) : ∃ a, x = .ok a ∧ P a := by
  cases x with
  | error e => simp [Except.toOption] at h
  | ok a => exact ⟨a, rfl, by simpa [Except.toOption] using h⟩

def Along (step : σ → ι → Except ε σ) (P : σ → ι → Prop) : σ → List ι → Prop
  | _, [] => True
  | s, i :: is => P s i ∧ ∀ s', step s i = .ok s' → Along step P s' is

instance Along.decidable (step : σ → ι → Except ε σ) (P : σ → ι → Prop)
    [∀ s i, Decidable (P s i)] : ∀ s is, Decidable (Along step P s is)
  | _, [] => .isTrue trivial
  | s, i :: is =>
    match hstep : step s i with
    | .ok s' =>
      have := Along.decidable step P s' is
      decidable_of_iff (P s i ∧ Along step P s' is) (by simp [Along, hstep])
    | .error _ => decidable_of_iff (P s i) (by simp [Along, hstep])

def Reached (step : σ → ι → Except ε σ) (s : σ) (is : List ι) (s' : σ) : Prop :=
  ∃ done, done <+: is ∧ run step s done = .ok s'

section

variable {step : σ → ι → Except ε σ} {P : σ → ι → Prop}

variable {is : List ι}

theorem run_cons_ok {s s' : σ} {i : ι} :
    run step s (i :: is) = .ok s' ↔ ∃ mid, step s i = .ok mid ∧ run step mid is = .ok s' := by
  cases hstep : step s i with
  | ok mid | error e => simp [run, hstep]

theorem run_append {s s' : σ} {is js : List ι} :
    run step s (is ++ js) = .ok s' ↔
      ∃ mid, run step s is = .ok mid ∧ run step mid js = .ok s' := by
  induction is generalizing s with
  | nil => simp [run]
  | cons i is ih =>
    simp only [cons_append, run_cons_ok, ih]
    constructor
    · rintro ⟨a, ha, b, hb, hc⟩
      exact ⟨b, ⟨a, ha, hb⟩, hc⟩
    · rintro ⟨b, ⟨a, ha, hb⟩, hc⟩
      exact ⟨a, ha, b, hb, hc⟩

theorem Reached.start (s : σ) (is : List ι) : Reached step s is s := ⟨[], nil_prefix, rfl⟩

theorem Reached.cons {s mid s' : σ} {i : ι} (hstep : step s i = .ok mid)
    (hreached : Reached step mid is s') : Reached step s (i :: is) s' := by
  obtain ⟨done, hpre, hrun⟩ := hreached
  exact ⟨i :: done, (prefix_cons_inj i).mpr hpre, run_cons_ok.mpr ⟨mid, hstep, hrun⟩⟩

variable {s : σ}

theorem Along.of_prefix {is js : List ι} (h : Along step P s is) (hpre : js <+: is) :
    Along step P s js := by
  induction js generalizing s is with
  | nil => trivial
  | cons j js ih =>
    obtain ⟨rest, rfl⟩ := hpre
    exact ⟨h.1, fun s' hs' => ih (h.2 s' hs') ⟨rest, rfl⟩⟩

variable {Q : σ → ι → Prop}

theorem Along.imp (hPQ : ∀ s i, P s i → Q s i) (h : Along step P s is) : Along step Q s is := by
  induction is generalizing s with
  | nil => trivial
  | cons i is ih => exact ⟨hPQ s i h.1, fun s' hs' => ih (h.2 s' hs')⟩

theorem Along.and_mem {is all : List ι} (h : Along step P s is) (hsub : is ⊆ all) :
    Along step (fun s i => P s i ∧ i ∈ all) s is := by
  induction is generalizing s with
  | nil => trivial
  | cons i is ih =>
    exact ⟨⟨h.1, hsub mem_cons_self⟩, fun s' hs' =>
      ih (h.2 s' hs') (subset_of_cons_subset hsub)⟩

theorem along_mem (step : σ → ι → Except ε σ) (s : σ) (is : List ι) :
    Along step (fun _ i => i ∈ is) s is := by
  suffices h : ∀ js ⊆ is, ∀ s, Along step (fun _ i => i ∈ is) s js from h is (List.Subset.refl _) s
  intro js hsub
  induction js with
  | nil => exact fun _ => trivial
  | cons j js ih =>
    exact fun s => ⟨hsub mem_cons_self, fun s' _ =>
      ih (subset_of_cons_subset hsub) s'⟩

/-- What each step meeting the condition keeps holds at the end of the run. -/
theorem run_induction (Inv : σ → Prop)
    (hstep : ∀ s i s', Inv s → P s i → step s i = .ok s' → Inv s') {s s' : σ}
    (halong : Along step P s is) (hinv : Inv s) (hrun : run step s is = .ok s') : Inv s' := by
  induction is generalizing s with
  | nil =>
    cases hrun
    exact hinv
  | cons i is ih =>
    obtain ⟨mid, hmid, hrest⟩ := run_cons_ok.mp hrun
    exact ih (halong.2 mid hmid) (hstep s i mid hinv halong.1 hmid) hrest

theorem reached_induction (Inv : σ → Prop)
    (hstep : ∀ s i s', Inv s → P s i → step s i = .ok s' → Inv s') {s s' : σ}
    (halong : Along step P s is) (hinv : Inv s) (hreached : Reached step s is s') : Inv s' := by
  obtain ⟨done, hpre, hrun⟩ := hreached
  exact run_induction Inv hstep (halong.of_prefix hpre) hinv hrun

theorem run_eq_error {e : ε} (hrun : run step s is = .error e) :
    ∃ s' i, Reached step s is s' ∧ i ∈ is ∧ step s' i = .error e := by
  induction is generalizing s with
  | nil => cases hrun
  | cons i is ih =>
    cases hstep : step s i with
    | error e' =>
      rw [run, hstep] at hrun
      exact ⟨s, i, .start s _, mem_cons_self, hstep.trans hrun⟩
    | ok mid =>
      rw [run, hstep] at hrun
      obtain ⟨s', j, hreached, hmem, hstop⟩ := ih hrun
      exact ⟨s', j, hreached.cons hstep, mem_cons_of_mem _ hmem, hstop⟩

/-- If every step that meets the condition returns and keeps the invariant, so does a run. -/
theorem run_total (Inv : σ → Prop) (hstep : ∀ s i, Inv s → P s i → ∃ s', step s i = .ok s' ∧ Inv s')
    (halong : Along step P s is) (hinv : Inv s) : ∃ s', run step s is = .ok s' ∧ Inv s' := by
  induction is generalizing s with
  | nil => exact ⟨s, rfl, hinv⟩
  | cons i is ih =>
    obtain ⟨mid, hmid, hinv'⟩ := hstep s i hinv halong.1
    obtain ⟨s', hrun, hend⟩ := ih (halong.2 mid hmid) hinv'
    exact ⟨s', run_cons_ok.mpr ⟨mid, hmid, hrun⟩, hend⟩

/-- Good states are left exactly by the steps that do not meet the condition. -/
theorem reached_iff_along_of_subset (Inv Good : σ → Prop) (all : List ι)
    (hstep : ∀ s, ∀ i ∈ all, ∀ s', Inv s → Good s → step s i = .ok s' → Inv s' ∧ (Good s' ↔ P s i))
    (hstop : ∀ s, ∀ i ∈ all, ∀ e, Inv s → Good s → step s i = .error e → P s i) (is : List ι)
    (hsub : is ⊆ all) (hinv : Inv s) (hgood : Good s) :
    (∀ s', Reached step s is s' → Good s') ↔ Along step P s is := by
  constructor
  · intro hreached
    induction is generalizing s with
    | nil => trivial
    | cons i is ih =>
      have hi : i ∈ all := hsub mem_cons_self
      cases hs : step s i with
      | error e => exact ⟨hstop s i hi e hinv hgood hs, fun s' hs' => by simp [hs] at hs'⟩
      | ok mid =>
        obtain ⟨hinv', hiff⟩ := hstep s i hi mid hinv hgood hs
        have hmid : Good mid := hreached mid (.cons hs (.start mid is))
        refine ⟨hiff.mp hmid, fun s' hs' => ?_⟩
        cases hs.symm.trans hs'
        exact ih (subset_of_cons_subset hsub) hinv' hmid fun s'' hs'' =>
          hreached s'' (.cons hs hs'')
  · intro halong s' hreached
    refine (reached_induction (fun s => Inv s ∧ Good s) ?_ (halong.and_mem hsub)
      ⟨hinv, hgood⟩ hreached).2
    rintro s i s' hs ⟨hcond, hi⟩ hok
    obtain ⟨hinv', hiff⟩ := hstep s i hi s' hs.1 hs.2 hok
    exact ⟨hinv', hiff.mpr hcond⟩

theorem reached_iff_along (Inv Good : σ → Prop)
    (hstep : ∀ s i s', Inv s → Good s → step s i = .ok s' → Inv s' ∧ (Good s' ↔ P s i))
    (hstop : ∀ s i e, Inv s → Good s → step s i = .error e → P s i) (is : List ι) (hinv : Inv s)
    (hgood : Good s) : (∀ s', Reached step s is s' → Good s') ↔ Along step P s is :=
  reached_iff_along_of_subset Inv Good is (fun s i _ => hstep s i) (fun s i _ => hstop s i) is
    (List.Subset.refl is) hinv hgood

theorem run_stops_iff_along {Bad : ε → Prop}
    (hstep : ∀ s i, (∀ e, step s i = .error e → ¬Bad e) ↔ P s i) (s : σ) (is : List ι) :
    (∀ e, run step s is = .error e → ¬Bad e) ↔ Along step P s is := by
  induction is generalizing s with
  | nil => simp [run, Along]
  | cons i is ih =>
    cases hs : step s i with
    | error e =>
      have hfirst := hstep s i
      rw [hs] at hfirst
      simp [run, Along, hs, ← hfirst]
    | ok mid =>
      have hfirst : P s i := (hstep s i).mp (by simp [hs])
      simp [run, Along, hs, hfirst, ← ih]

/-- A step or run survives if neither the state it ends in is bad nor the reason it stopped for. -/
def Survives {τ : Type} (Bad : σ → Prop) (Fatal : τ → Prop) : Except (σ × τ) σ → Prop
  | .ok s => ¬Bad s
  | .error (s, t) => ¬Bad s ∧ ¬Fatal t

/-- A run survives exactly when all its steps meet the condition. -/
theorem run_survives_iff_along {τ : Type} {step : σ → ι → Except (σ × τ) σ} {Bad : σ → Prop}
    {Fatal : τ → Prop} (hsticky : ∀ s i, Bad s → ¬Survives Bad Fatal (step s i))
    (hstep : ∀ s i, ¬Bad s → (Survives Bad Fatal (step s i) ↔ P s i)) (is : List ι) (hs : ¬Bad s) :
    Survives Bad Fatal (run step s is) ↔ Along step P s is := by
  have hbad (s : σ) (is : List ι) (hs : Bad s) : ¬Survives Bad Fatal (run step s is) := by
    induction is generalizing s with
    | nil => exact not_not.mpr hs
    | cons i is ih =>
      have hstuck := hsticky s i hs
      rw [run]
      cases hi : step s i with
      | error e => rwa [hi] at hstuck
      | ok s' =>
        rw [hi] at hstuck
        exact ih s' (not_not.mp hstuck)
  induction is generalizing s with
  | nil => exact iff_of_true hs trivial
  | cons i is ih =>
    have hiff := hstep s i hs
    rw [run, Along]
    cases hi : step s i with
    | error e =>
      rw [hi] at hiff
      simpa using hiff
    | ok s' =>
      rw [hi] at hiff
      by_cases hs' : Bad s'
      · exact iff_of_false (hbad s' is hs') fun halong => hiff.mpr halong.1 hs'
      · simpa [hiff.mp hs'] using ih hs'

theorem along_of_forall (h : ∀ s i, P s i) (s : σ) (is : List ι) : Along step P s is := by
  induction is generalizing s with
  | nil => trivial
  | cons i is ih => exact ⟨h s i, fun s' _ => ih s'⟩

theorem reached_invariant (Inv : σ → Prop)
    (hstep : ∀ s i s', Inv s → step s i = .ok s' → Inv s') {s s' : σ} (hinv : Inv s)
    (hreached : Reached step s is s') : Inv s' :=
  reached_induction Inv (fun s i s' h (_ : True) => hstep s i s' h)
    (along_of_forall (fun _ _ => trivial) s is) hinv hreached

theorem Along.imp_of_invariant (Inv : σ → Prop)
    (hstep : ∀ s i s', Inv s → P s i → step s i = .ok s' → Inv s')
    (hQ : ∀ s i, Inv s → P s i → Q s i) (h : Along step P s is) (hinv : Inv s) :
    Along step Q s is := by
  induction is generalizing s with
  | nil => trivial
  | cons i is ih =>
    exact ⟨hQ s i hinv h.1, fun s' hs' => ih (h.2 s' hs') (hstep s i s' hinv h.1 hs')⟩

theorem along_of_invariant (Inv : σ → Prop) (hstep : ∀ s i s', Inv s → step s i = .ok s' → Inv s')
    (hP : ∀ s i, Inv s → P s i) (is : List ι) (hinv : Inv s) : Along step P s is :=
  (along_of_forall (fun _ _ => trivial) s is).imp_of_invariant Inv
    (fun s i s' h _ heq => hstep s i s' h heq) (fun s i h _ => hP s i h) hinv

theorem along_congr (Inv : σ → Prop) (hstep : ∀ s i s', Inv s → step s i = .ok s' → Inv s')
    (hPQ : ∀ s i, Inv s → (P s i ↔ Q s i)) :
    ∀ is {s}, Inv s → (Along step P s is ↔ Along step Q s is)
  | [], _, _ => Iff.rfl
  | i :: is, s, hs => by
    refine and_congr (hPQ s i hs) (forall_congr' fun s' => forall_congr' fun heq => ?_)
    exact along_congr Inv hstep hPQ is (hstep s i s' hs heq)

theorem along_forall_iff :
    (∀ is, Along step P s is) ↔ ∀ is s', run step s is = .ok s' → ∀ i, P s' i := by
  constructor
  · intro hall is
    induction is generalizing s with
    | nil =>
      intro s' hrun i
      cases hrun
      exact (hall [i]).1
    | cons j is ih =>
      intro s' hrun
      obtain ⟨mid, hmid, hrest⟩ := run_cons_ok.mp hrun
      exact ih (fun js => (hall (j :: js)).2 mid hmid) s' hrest
  · intro hall is
    induction is generalizing s with
    | nil => trivial
    | cons i is ih =>
      refine ⟨hall [] s rfl i, fun s' hs' => ih fun js s'' hrun => ?_⟩
      exact hall (i :: js) s'' (run_cons_ok.mpr ⟨s', hs', hrun⟩)

end

end Vanguard.Library
