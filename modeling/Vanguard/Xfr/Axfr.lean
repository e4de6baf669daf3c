import Vanguard.Xfr.Machine

namespace Vanguard.Xfr

open Library List

variable {σ : Type} {F : Engine} {u : Updator σ}

def AnswerRRset.HasSerial (n : UInt32) (soa : AnswerRRset) : Prop :=
  soa.value.rdatas.map serialOf = [some n]

instance (n : UInt32) (soa : AnswerRRset) : Decidable (soa.HasSerial n) :=
  inferInstanceAs (Decidable (_ = _))

theorem hasSerial_iff {n : UInt32} {soa : AnswerRRset} :
    soa.HasSerial n ↔
      soa.value.rdatas.length = 1 ∧ soa.value.rdatas.head?.bind serialOf = some n := by
  unfold AnswerRRset.HasSerial
  rcases soa.value.rdatas with _ | ⟨rdata, _ | ⟨rdata', rdatas⟩⟩ <;> simp

inductive AxfrMove (u : Updator σ) : XFRStateMachine σ → AxfrInput → XFRStateMachine σ → Prop where
  | opening (g : XFRSMGenertor σ) (soa : AnswerRRset) (hsoa : soa.HasSerial g.latestSerial) :
    AxfrMove u ⟨.init, g⟩ (.soa true soa) ⟨.start, { g with tx := u.add g.tx soa.ptr }⟩
  | add (p : Phase) (g : XFRSMGenertor σ) (rrset : Ptr) (hp : p = .start ∨ p = .addSection) :
    AxfrMove u ⟨p, g⟩ (.rrset rrset) ⟨.addSection, { g with tx := u.add g.tx rrset }⟩
  | closing (g : XFRSMGenertor σ) (soa : AnswerRRset) (hsoa : soa.HasSerial g.latestSerial) :
    AxfrMove u ⟨.addSection, g⟩ (.soa true soa) ⟨.done, g⟩
  | passed (sm : XFRStateMachine σ) (soa : AnswerRRset) (hone : soa.value.rdatas.length = 1) :
    AxfrMove u sm (.soa false soa) sm

variable {sm sm' : XFRStateMachine σ}

variable (hF : F.Lawful)

include hF

theorem AxfrMove.step_eq_ok {input : AxfrInput} (hmove : AxfrMove u sm input sm') :
    axfrStep F u sm input = .ok sm' := by
  have hmoved := hF.moved (genAXFRStateMachine u)
  have hstays := hF.noTransition (genAXFRStateMachine u)
  rcases hmove with ⟨g, soa, hsoa⟩ | ⟨p, g, rrset, rfl | rfl⟩ | ⟨g, soa, hsoa⟩ | ⟨_, soa, hone⟩
  · obtain ⟨hone, hserial⟩ := hasSerial_iff.mp hsoa
    have hevent := hmoved .init .start g { g with tx := u.add g.tx soa.ptr } (.getWrapperSoa soa)
      rfl nofun (by simp [genAXFRStateMachine, hserial])
    simp only [axfrStep, hone, XFRStateMachine.event, hevent]
    rfl
  · have hevent := hmoved .start .addSection g g (.getNoneSoa rrset) rfl nofun rfl
    simp only [axfrStep, XFRStateMachine.event, hevent]
    rfl
  · have hevent := hstays .addSection g g (.getNoneSoa rrset) rfl rfl
    simp only [axfrStep, XFRStateMachine.event, hevent]
    rfl
  · obtain ⟨hone, hserial⟩ := hasSerial_iff.mp hsoa
    have hevent := hmoved .addSection .done g g (.getWrapperSoa soa)
      rfl nofun (by simp [genAXFRStateMachine, hserial])
    simp only [axfrStep, hone, XFRStateMachine.event, hevent]
    rfl
  · simp [axfrStep, hone]

theorem axfrMove_of_wrapper {soa : AnswerRRset} (hone : soa.value.rdatas.length = 1)
    (hstep : axfrStep F u sm (.soa true soa) = .ok sm') : AxfrMove u sm (.soa true soa) sm' := by
  obtain ⟨p, g⟩ := sm
  simp only [axfrStep, hone, XFRStateMachine.event] at hstep
  obtain ⟨-, hevent⟩ | ⟨dst, g', cause, -, -, hevent⟩ | ⟨g', htable, -, -⟩ |
    ⟨dst, g', htable, -, hbefore, hevent⟩ :=
      hF.event_cases (genAXFRStateMachine u) p g (.getWrapperSoa soa)
  · simp [hevent, axfrResult, stopOf] at hstep
  · simp [hevent, axfrResult, stopOf] at hstep
  · rcases p <;> simp [genAXFRStateMachine] at htable
  · simp only [hevent, axfrResult, stopOf] at hstep
    cases hstep
    rcases hserial : soa.value.rdatas.head?.bind serialOf with _ | serial
    · simp [genAXFRStateMachine, hserial] at hbefore
    · have hsoa : soa.HasSerial serial := hasSerial_iff.mpr ⟨hone, hserial⟩
      rcases p <;> simp [genAXFRStateMachine, hserial, ite_eq_iff] at htable hbefore
      · obtain ⟨rfl, rfl⟩ := hbefore
        exact htable ▸ .opening g soa hsoa
      · obtain ⟨rfl, rfl⟩ := hbefore
        exact htable ▸ .closing _ soa hsoa

theorem axfrMove_of_rrset {rrset : Ptr} (hstep : axfrStep F u sm (.rrset rrset) = .ok sm') :
    AxfrMove u sm (.rrset rrset) sm' := by
  obtain ⟨p, g⟩ := sm
  simp only [axfrStep, XFRStateMachine.event] at hstep
  obtain ⟨-, hevent⟩ | ⟨dst, g', cause, -, hbefore, -⟩ | ⟨g', htable, hbefore, hevent⟩ |
    ⟨dst, g', htable, -, hbefore, hevent⟩ :=
      hF.event_cases (genAXFRStateMachine u) p g (.getNoneSoa rrset)
  · simp [hevent, axfrResult, stopOf] at hstep
  · simp [genAXFRStateMachine] at hbefore
  · obtain rfl : g = g' := by simpa [genAXFRStateMachine] using hbefore
    simp only [hevent, axfrResult] at hstep
    cases hstep
    rcases p <;> simp [genAXFRStateMachine] at htable
    exact .add .addSection g rrset (.inr rfl)
  · obtain rfl : g = g' := by simpa [genAXFRStateMachine] using hbefore
    simp only [hevent, axfrResult, stopOf] at hstep
    cases hstep
    rcases p <;> simp [genAXFRStateMachine] at htable
    · exact htable ▸ .add .start g rrset (.inl rfl)
    · exact htable ▸ .add .addSection g rrset (.inr rfl)

theorem axfrStep_eq_ok {input : AxfrInput} :
    axfrStep F u sm input = .ok sm' ↔ AxfrMove u sm input sm' := by
  refine ⟨fun hstep => ?_, AxfrMove.step_eq_ok hF⟩
  rcases input with ⟨wrapper, soa⟩ | rrset
  · by_cases hone : soa.value.rdatas.length = 1
    · rcases wrapper with _ | _
      · obtain rfl : sm = sm' := by simpa [axfrStep, hone] using hstep
        exact .passed sm soa hone
      · exact axfrMove_of_wrapper hF hone hstep
    · simp [axfrStep, hone] at hstep
  · exact axfrMove_of_rrset hF hstep

def AxfrInput.IsBody : AxfrInput → Prop
  | .rrset _ => True
  | .soa wrapper r => wrapper = false ∧ r.value.rdatas.length = 1

instance (input : AxfrInput) : Decidable input.IsBody :=
  match input with
  | .rrset _ => .isTrue trivial
  | .soa wrapper r => inferInstanceAs (Decidable (wrapper = false ∧ r.value.rdatas.length = 1))

def bodyRRsets (body : List AxfrInput) : List Ptr :=
  body.filterMap fun
    | .rrset rrset => some rrset
    | .soa _ _ => none

theorem run_body {p : Phase} (hp : p = .start ∨ p = .addSection) (g : XFRSMGenertor σ)
    {body : List AxfrInput} (hbody : ∀ input ∈ body, input.IsBody) :
    run (axfrStep F u) ⟨p, g⟩ body = .ok ⟨if bodyRRsets body = [] then p else .addSection,
      { g with tx := (bodyRRsets body).foldl u.add g.tx }⟩ := by
  induction body generalizing p g with
  | nil => rfl
  | cons input body ih =>
    have hrest : ∀ input ∈ body, input.IsBody := fun i hi => hbody i (mem_cons_of_mem _ hi)
    have hinput := hbody input mem_cons_self
    rcases input with ⟨wrapper, soa⟩ | rrset
    · obtain ⟨rfl, hone⟩ := hinput
      exact run_cons_ok.mpr ⟨_, (AxfrMove.passed _ soa hone).step_eq_ok hF, ih hp g hrest⟩
    · have hrun := ih (p := .addSection) (.inr rfl) { g with tx := u.add g.tx rrset } hrest
      rw [ite_self] at hrun
      exact run_cons_ok.mpr ⟨_, (AxfrMove.add p g rrset hp).step_eq_ok hF, hrun⟩

theorem accepted_of_axfr_run {p : Phase} (hp : p = .start ∨ p = .addSection) {g : XFRSMGenertor σ}
    {inputs : List AxfrInput} (hrun : run (axfrStep F u) ⟨p, g⟩ inputs = .ok sm') :
    (∀ input ∈ inputs, input.IsBody) ∨
    ∃ body soa rest, inputs = body ++ .soa true soa :: rest ∧ (∀ input ∈ body, input.IsBody) ∧
      soa.HasSerial g.latestSerial ∧ ∃ g', run (axfrStep F u) ⟨.done, g'⟩ rest = .ok sm' := by
  induction inputs generalizing p g with
  | nil => exact .inl nofun
  | cons input inputs ih =>
    obtain ⟨mid, hstep, hrun⟩ := run_cons_ok.mp hrun
    rcases (axfrStep_eq_ok hF).mp hstep with _ | ⟨p, g, rrset, -⟩ | ⟨g, soa, hsoa⟩ | ⟨_, soa, hone⟩
    · simp at hp
    · rcases ih (.inr rfl) hrun with hbody | ⟨body, soa, rest, rfl, hbody, hsoa, hdone⟩
      · exact .inl (forall_mem_cons.mpr ⟨trivial, hbody⟩)
      · exact .inr ⟨_ :: body, soa, rest, rfl, forall_mem_cons.mpr ⟨trivial, hbody⟩, hsoa, hdone⟩
    · exact .inr ⟨[], soa, inputs, rfl, nofun, hsoa, g, hrun⟩
    · rcases ih hp hrun with hbody | ⟨body, soa', rest, rfl, hbody, hsoa, hdone⟩
      · exact .inl (forall_mem_cons.mpr ⟨⟨rfl, hone⟩, hbody⟩)
      · exact .inr ⟨_ :: body, soa', rest, rfl, forall_mem_cons.mpr ⟨⟨rfl, hone⟩, hbody⟩, hsoa,
          hdone⟩

end Vanguard.Xfr
