import Vanguard.Xfr.Machine

namespace Vanguard.Xfr

open Library

variable {σ : Type} {F : Engine} {u : Updator σ}

inductive IxfrMove (u : Updator σ) : XFRStateMachine σ → IxfrInput → XFRStateMachine σ → Prop where
  | opening (g : XFRSMGenertor σ) (n : UInt32) :
    IxfrMove u ⟨.init, g⟩ (.soa true (some n)) ⟨.start, { g with latestSerial := n }⟩
  | deletions (p : Phase) (g : XFRSMGenertor σ) (hp : p = .start ∨ p = .addSection) :
    IxfrMove u ⟨p, g⟩ (.soa false (some g.currentSerial)) ⟨.deleteSection, g⟩
  | additions (g : XFRSMGenertor σ) :
    IxfrMove u ⟨.deleteSection, g⟩ (.soa false (some (g.currentSerial + 1)))
      ⟨.addSection,
        { g with currentSerial := g.currentSerial + 1, tx := u.increaseSerialNumber g.tx }⟩
  /-- The closing wrapper SOA repeats the opening one's serial. -/
  | closing (g : XFRSMGenertor σ) :
    IxfrMove u ⟨.addSection, g⟩ (.soa true (some g.latestSerial)) ⟨.done, g⟩
  | delete (g : XFRSMGenertor σ) (rrset : Ptr) :
    IxfrMove u ⟨.deleteSection, g⟩ (.rrset rrset)
      ⟨.deleteSection, { g with tx := u.deleteRRset g.tx rrset }⟩
  | add (g : XFRSMGenertor σ) (rrset : Ptr) :
    IxfrMove u ⟨.addSection, g⟩ (.rrset rrset) ⟨.addSection, { g with tx := u.add g.tx rrset }⟩

variable {g g' : XFRSMGenertor σ}

theorem ixfrStep_of_moved {p dst : Phase} {wrapper : Bool} {serial : UInt32}
    (hevent : F.event (genIXFRStateMachine u) p g
      (if wrapper then .getWrapperSoa serial else .getMidSoa serial) = (dst, g', .moved)) :
    ixfrStep F u ⟨p, g⟩ (.soa wrapper (some serial)) = .ok ⟨dst, g'⟩ := by
  simp [ixfrStep, XFRStateMachine.event, hevent, stopOf]

variable {p : Phase}

theorem ixfrStep_of_noTransition {rrset : Ptr}
    (hevent : F.event (genIXFRStateMachine u) p g (.getNoneSoa rrset) = (p, g', .noTransition)) :
    ixfrStep F u ⟨p, g⟩ (.rrset rrset) = .ok ⟨p, g'⟩ := by
  simp [ixfrStep, XFRStateMachine.event, hevent]

variable {sm sm' : XFRStateMachine σ}

variable (hF : F.Lawful)

include hF

theorem IxfrMove.step_eq_ok {input : IxfrInput} (hmove : IxfrMove u sm input sm') :
    ixfrStep F u sm input = .ok sm' := by
  have hmoved := hF.moved (genIXFRStateMachine u)
  have hstays := hF.noTransition (genIXFRStateMachine u)
  rcases hmove with ⟨g, n⟩ | ⟨p, g, rfl | rfl⟩ | g | g | ⟨g, rrset⟩ | ⟨g, rrset⟩
  · exact ixfrStep_of_moved (hmoved .init .start g _ (.getWrapperSoa n) rfl nofun rfl)
  · exact ixfrStep_of_moved (hmoved .start .deleteSection g g (.getMidSoa g.currentSerial) rfl nofun
      (by simp [genIXFRStateMachine]))
  · exact ixfrStep_of_moved (hmoved .addSection .deleteSection g g (.getMidSoa g.currentSerial) rfl
      nofun (by simp [genIXFRStateMachine]))
  · exact ixfrStep_of_moved (hmoved .deleteSection .addSection g
      { g with currentSerial := g.currentSerial + 1, tx := u.increaseSerialNumber g.tx }
      (.getMidSoa (g.currentSerial + 1)) rfl nofun (by simp [genIXFRStateMachine]))
  · exact ixfrStep_of_moved (hmoved .addSection .done g g (.getWrapperSoa g.latestSerial) rfl nofun
      (by simp [genIXFRStateMachine]))
  · exact ixfrStep_of_noTransition (hstays .deleteSection g g (.getNoneSoa rrset) rfl rfl)
  · exact ixfrStep_of_noTransition (hstays .addSection g g (.getNoneSoa rrset) rfl rfl)

theorem ixfrMove_of_soa {wrapper : Bool} {serial : Option UInt32}
    (hstep : ixfrStep F u sm (.soa wrapper serial) = .ok sm') :
    IxfrMove u sm (.soa wrapper serial) sm' := by
  obtain ⟨p, g⟩ := sm
  rcases serial with _ | serial
  · cases hstep
  simp only [ixfrStep, XFRStateMachine.event] at hstep
  obtain ⟨-, hevent⟩ | ⟨dst, g', cause, -, -, hevent⟩ | ⟨g', -, -, hevent⟩ |
    ⟨dst, g', htable, -, hbefore, hevent⟩ := hF.event_cases (genIXFRStateMachine u) p g
      (if wrapper = true then .getWrapperSoa serial else .getMidSoa serial)
  · simp [hevent, stopOf] at hstep
  · simp [hevent, stopOf] at hstep
  · simp [hevent, stopOf] at hstep
  · simp only [hevent, stopOf, Except.ok.injEq] at hstep
    subst hstep
    -- The callback passes a serial in sequence only, and only five pairs are in the table.
    rcases wrapper with _ | _ <;> rcases p <;>
      simp [genIXFRStateMachine, ite_eq_iff] at htable hbefore ⊢
    · obtain ⟨rfl, rfl⟩ := hbefore
      exact htable ▸ .deletions .start _ (.inl rfl)
    · obtain ⟨rfl, rfl⟩ := hbefore
      exact htable ▸ .additions g
    · obtain ⟨rfl, rfl⟩ := hbefore
      exact htable ▸ .deletions .addSection _ (.inr rfl)
    · exact htable ▸ hbefore ▸ .opening g serial
    · obtain ⟨rfl, rfl⟩ := hbefore
      exact htable ▸ .closing _

theorem ixfrMove_of_rrset {rrset : Ptr} (hstep : ixfrStep F u sm (.rrset rrset) = .ok sm') :
    IxfrMove u sm (.rrset rrset) sm' := by
  obtain ⟨p, g⟩ := sm
  simp only [ixfrStep, XFRStateMachine.event] at hstep
  obtain ⟨-, hevent⟩ | ⟨dst, g', cause, -, hbefore, hevent⟩ | ⟨g', htable, hbefore, hevent⟩ |
    ⟨dst, g', -, -, -, hevent⟩ := hF.event_cases (genIXFRStateMachine u) p g (.getNoneSoa rrset)
  · simp [hevent] at hstep
  · simp [genIXFRStateMachine] at hbefore
  · simp only [hevent, Except.ok.injEq] at hstep
    subst hstep
    obtain rfl : g = g' := by simpa [genIXFRStateMachine] using hbefore
    rcases p <;> simp [genIXFRStateMachine] at htable ⊢
    · exact .delete g rrset
    · exact .add g rrset
  · simp [hevent] at hstep

theorem ixfrStep_eq_ok {input : IxfrInput} :
    ixfrStep F u sm input = .ok sm' ↔ IxfrMove u sm input sm' := by
  refine ⟨fun hstep => ?_, IxfrMove.step_eq_ok hF⟩
  rcases input with ⟨wrapper, serial⟩ | rrset
  · exact ixfrMove_of_soa hF hstep
  · exact ixfrMove_of_rrset hF hstep

structure Difference where
  deletions : List Ptr
  additions : List Ptr
  deriving DecidableEq, Repr

def Difference.inputs (c : UInt32) (d : Difference) : List IxfrInput :=
  .soa false (some c) ::
    (d.deletions.map .rrset ++ .soa false (some (c + 1)) :: d.additions.map .rrset)

def differenceInputs : UInt32 → List Difference → List IxfrInput
  | _, [] => []
  | c, d :: ds => d.inputs c ++ differenceInputs (c + 1) ds

def serialAfter : UInt32 → List Difference → UInt32
  | c, [] => c
  | c, _ :: ds => serialAfter (c + 1) ds

def Updator.applyDifference (u : Updator σ) (tx : σ) (d : Difference) : σ :=
  d.additions.foldl u.add (u.increaseSerialNumber (d.deletions.foldl u.deleteRRset tx))

theorem run_rrsets {f : σ → Ptr → σ}
    (hmove : ∀ g rrset, IxfrMove u ⟨p, g⟩ (.rrset rrset) ⟨p, { g with tx := f g.tx rrset }⟩)
    (g : XFRSMGenertor σ) (rrsets : List Ptr) : run (ixfrStep F u) ⟨p, g⟩ (rrsets.map .rrset) =
      .ok ⟨p, { g with tx := rrsets.foldl f g.tx }⟩ := by
  induction rrsets generalizing g with
  | nil => rfl
  | cons rrset rrsets ih =>
    exact run_cons_ok.mpr ⟨_, (hmove g rrset).step_eq_ok hF, ih _⟩

theorem run_difference (hp : p = .start ∨ p = .addSection) (g : XFRSMGenertor σ) (d : Difference) :
    run (ixfrStep F u) ⟨p, g⟩ (d.inputs g.currentSerial) = .ok ⟨.addSection,
      { g with currentSerial := g.currentSerial + 1, tx := u.applyDifference g.tx d }⟩ := by
  have hdeletions := run_rrsets hF (IxfrMove.delete (u := u)) g d.deletions
  refine run_cons_ok.mpr ⟨_, (IxfrMove.deletions p g hp).step_eq_ok hF, ?_⟩
  refine run_append.mpr ⟨_, hdeletions, ?_⟩
  refine run_cons_ok.mpr ⟨_, (IxfrMove.additions _).step_eq_ok hF, ?_⟩
  exact run_rrsets hF (IxfrMove.add (u := u)) _ d.additions

theorem run_differences (hp : p = .start ∨ p = .addSection) (g : XFRSMGenertor σ)
    (ds : List Difference) : run (ixfrStep F u) ⟨p, g⟩ (differenceInputs g.currentSerial ds) =
      .ok ⟨if ds = [] then p else .addSection, { g with
        currentSerial := serialAfter g.currentSerial ds,
        tx := ds.foldl u.applyDifference g.tx }⟩ := by
  induction ds generalizing p g with
  | nil => rfl
  | cons d ds ih =>
    have hrest := ih (p := .addSection) (.inr rfl)
      { g with currentSerial := g.currentSerial + 1, tx := u.applyDifference g.tx d }
    rw [ite_self] at hrest
    exact run_append.mpr ⟨_, run_difference hF hp g d, hrest⟩

theorem run_transfer (g : XFRSMGenertor σ) (n : UInt32) {ds : List Difference} (hds : ds ≠ []) :
    run (ixfrStep F u) ⟨.init, g⟩
      (.soa true (some n) :: (differenceInputs g.currentSerial ds ++ [.soa true (some n)])) =
      .ok ⟨.done, ⟨n, serialAfter g.currentSerial ds, ds.foldl u.applyDifference g.tx⟩⟩ := by
  have hdifferences := run_differences (u := u) hF (p := .start) (.inl rfl)
    { g with latestSerial := n } ds
  rw [if_neg hds] at hdifferences
  refine run_cons_ok.mpr ⟨_, (IxfrMove.opening g n).step_eq_ok hF, ?_⟩
  refine run_append.mpr ⟨_, hdifferences, ?_⟩
  exact run_cons_ok.mpr ⟨_, (IxfrMove.closing _).step_eq_ok hF, rfl⟩

/-- What can follow the additions of a difference, and the state it leads to. -/
inductive Remainder (n c : UInt32) : List IxfrInput → Phase → Prop where
  | cut : Remainder n c [] .addSection
  /-- The answer breaks off within the deletions of the next difference. -/
  | cutInDeletions (rrsets : List Ptr) :
    Remainder n c (.soa false (some c) :: rrsets.map .rrset) .deleteSection
  | closed : Remainder n c [.soa true (some n)] .done

def AcceptedAdditions (n c : UInt32) (inputs : List IxfrInput) (p : Phase) : Prop :=
  ∃ (adds : List Ptr) (ds : List Difference) (rest : List IxfrInput),
    inputs = adds.map .rrset ++ (differenceInputs c ds ++ rest) ∧
    Remainder n (serialAfter c ds) rest p

def AcceptedDeletions (n c : UInt32) (inputs : List IxfrInput) (p : Phase) : Prop :=
  (∃ dels : List Ptr, inputs = dels.map .rrset ∧ p = .deleteSection) ∨
  ∃ (dels : List Ptr) (inputs' : List IxfrInput),
    inputs = dels.map .rrset ++ .soa false (some (c + 1)) :: inputs' ∧
    AcceptedAdditions n (c + 1) inputs' p

theorem accepted_of_run (inputs : List IxfrInput) (g : XFRSMGenertor σ) (sm' : XFRStateMachine σ) :
    (run (ixfrStep F u) ⟨.addSection, g⟩ inputs = .ok sm' →
      AcceptedAdditions g.latestSerial g.currentSerial inputs sm'.current) ∧
    (run (ixfrStep F u) ⟨.deleteSection, g⟩ inputs = .ok sm' →
      AcceptedDeletions g.latestSerial g.currentSerial inputs sm'.current) := by
  induction inputs generalizing g with
  | nil =>
    refine ⟨fun hrun => ?_, fun hrun => ?_⟩
    · cases hrun
      exact ⟨[], [], [], rfl, .cut⟩
    · cases hrun
      exact .inl ⟨[], rfl, rfl⟩
  | cons input inputs ih =>
    refine ⟨fun hrun => ?_, fun hrun => ?_⟩
    · obtain ⟨mid, hstep, hrun⟩ := run_cons_ok.mp hrun
      rcases (ixfrStep_eq_ok hF).mp hstep with _ | ⟨p, g, hp⟩ | _ | _ | _ | ⟨g, rrset⟩
      · rcases (ih g).2 hrun with ⟨dels, rfl, hcurrent⟩ | ⟨dels, _, rfl, adds, ds, rest, rfl, hrest⟩
        · exact ⟨[], [], _, rfl, hcurrent ▸ .cutInDeletions dels⟩
        · exact ⟨[], ⟨dels, adds⟩ :: ds, rest, by simp [differenceInputs, Difference.inputs], hrest⟩
      · -- Nothing is accepted after the closing SOA.
        rcases inputs with _ | ⟨input, inputs⟩
        · cases hrun
          exact ⟨[], [], _, rfl, .closed⟩
        · obtain ⟨mid, hstep, -⟩ := run_cons_ok.mp hrun
          rcases (ixfrStep_eq_ok hF).mp hstep with _ | ⟨p, g, hp | hp⟩ | _ | _ | _ | _
          · cases hp
          · cases hp
      · obtain ⟨adds, ds, rest, rfl, hrest⟩ := (ih _).1 hrun
        exact ⟨rrset :: adds, ds, rest, rfl, hrest⟩
    · obtain ⟨mid, hstep, hrun⟩ := run_cons_ok.mp hrun
      rcases (ixfrStep_eq_ok hF).mp hstep with _ | ⟨p, g, hp | hp⟩ | g | _ | ⟨g, rrset⟩ | _
      · cases hp
      · cases hp
      · exact .inr ⟨[], inputs, rfl, (ih _).1 hrun⟩
      · rcases (ih _).2 hrun with ⟨dels, rfl, hcurrent⟩ | ⟨dels, inputs', rfl, hadditions⟩
        · exact .inl ⟨rrset :: dels, rfl, hcurrent⟩
        · exact .inr ⟨rrset :: dels, inputs', rfl, hadditions⟩

end Vanguard.Xfr
