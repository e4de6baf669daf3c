import Vanguard.Xfr.Axfr
import Vanguard.Xfr.Ixfr

namespace Vanguard.Xfr

open Library List

variable {σ : Type} {F : Engine} {u : Updator σ}

/-- The wrapper SOA at both ends, and differences that lead up to its serial. -/
def Complete (typ : XfrType) (currentSerial latestSerial : UInt32) (answers : List AnswerRRset) :
    Prop :=
  match typ with
  | .ixfr => ∃ n ds, ds ≠ [] ∧ n = serialAfter currentSerial ds ∧
      ixfrInputs answers =
        .soa true (some n) :: (differenceInputs currentSerial ds ++ [.soa true (some n)])
  | .axfr => ∃ first body last, first.HasSerial latestSerial ∧ last.HasSerial latestSerial ∧
      axfrInputs answers = .soa true first :: (body ++ [.soa true last])

/-- An answer that breaks off, or whose differences do not lead to the wrapper's serial. -/
def UnfinishedIxfr (currentSerial : UInt32) (inputs : List IxfrInput) : Prop :=
  inputs = [] ∨ ∃ n ds,
    inputs = .soa true (some n) :: differenceInputs currentSerial ds ∨
    (∃ rrsets : List Ptr, inputs = .soa true (some n) :: (differenceInputs currentSerial ds ++
      .soa false (some (serialAfter currentSerial ds)) :: rrsets.map .rrset)) ∨
    (ds ≠ [] ∧ n ≠ serialAfter currentSerial ds ∧
      inputs = .soa true (some n) :: (differenceInputs currentSerial ds ++ [.soa true (some n)]))

def UnfinishedAxfr (latestSerial : UInt32) (inputs : List AxfrInput) : Prop :=
  inputs = [] ∨ ∃ soa body, soa.HasSerial latestSerial ∧ (∀ input ∈ body, input.IsBody) ∧
    inputs = .soa true soa :: body

/-- An answer that `Run` accepts without having seen a complete transfer. -/
def Unfinished (typ : XfrType) (currentSerial latestSerial : UInt32) (answers : List AnswerRRset) :
    Prop :=
  match typ with
  | .ixfr => UnfinishedIxfr currentSerial (ixfrInputs answers)
  | .axfr => UnfinishedAxfr latestSerial (axfrInputs answers)

variable {g : XFRSMGenertor σ} {sm' : XFRStateMachine σ} {inputs : List IxfrInput}

theorem ixfr_accepted (hF : F.Lawful) (hrun : run (ixfrStep F u) ⟨.init, g⟩ inputs = .ok sm') :
    UnfinishedIxfr g.currentSerial inputs ∨ sm'.current = .done ∧ ∃ n ds, ds ≠ [] ∧
      n = serialAfter g.currentSerial ds ∧
      inputs = .soa true (some n) ::
        (differenceInputs g.currentSerial ds ++ [.soa true (some n)]) := by
  rcases inputs with _ | ⟨input, inputs⟩
  · exact .inl (.inl rfl)
  obtain ⟨mid, hstep, hrun⟩ := run_cons_ok.mp hrun
  rcases (ixfrStep_eq_ok hF).mp hstep with ⟨g, n⟩ | ⟨_, _, hp | hp⟩ | _ | _ | _ | _
  · rcases inputs with _ | ⟨input, inputs⟩
    · exact .inl (.inr ⟨n, [], .inl rfl⟩)
    obtain ⟨mid, hstep, hrun⟩ := run_cons_ok.mp hrun
    rcases (ixfrStep_eq_ok hF).mp hstep with _ | ⟨p, g', hp⟩ | _ | _ | _ | _
    rcases (accepted_of_run hF inputs _ sm').2 hrun with
      ⟨dels, rfl, -⟩ | ⟨dels, _, rfl, adds, ds, rest, rfl, hrest⟩
    · exact .inl (.inr ⟨n, [], .inr (.inl ⟨dels, rfl⟩)⟩)
    · have hinputs : ∀ rest, .soa false (some g.currentSerial) :: (dels.map IxfrInput.rrset ++
          .soa false (some (g.currentSerial + 1)) ::
            (adds.map .rrset ++ (differenceInputs (g.currentSerial + 1) ds ++ rest))) =
          differenceInputs g.currentSerial (⟨dels, adds⟩ :: ds) ++ rest := fun rest => by
        simp [differenceInputs, Difference.inputs]
      simp only [hinputs]
      generalize sm'.current = p at hrest ⊢
      rcases hrest with _ | ⟨rrsets⟩ | _
      · exact .inl (.inr ⟨n, _, .inl (by rw [append_nil])⟩)
      · exact .inl (.inr ⟨n, _, .inr (.inl ⟨rrsets, rfl⟩)⟩)
      · by_cases hserial : n = serialAfter g.currentSerial (⟨dels, adds⟩ :: ds)
        · exact .inr ⟨rfl, n, _, by simp, hserial, rfl⟩
        · exact .inl (.inr ⟨n, _, .inr (.inr ⟨by simp, hserial, rfl⟩)⟩)
  · cases hp
  · cases hp

theorem ixfr_unfinished (hF : F.Lawful) (hunfinished : UnfinishedIxfr g.currentSerial inputs) :
    ∃ sm', run (ixfrStep F u) ⟨.init, g⟩ inputs = .ok sm' ∧
      (sm'.current ≠ .done ∨ sm'.generator.currentSerial ≠ sm'.generator.latestSerial) := by
  rcases hunfinished with rfl | ⟨n, ds, hinputs⟩
  · exact ⟨_, rfl, .inl nofun⟩
  have hopen := (IxfrMove.opening (u := u) g n).step_eq_ok hF
  have hdifferences := run_differences (u := u) hF (p := .start) (.inl rfl)
    { g with latestSerial := n } ds
  have hphase : (if ds = [] then Phase.start else .addSection) = .start ∨
      (if ds = [] then Phase.start else .addSection) = .addSection := by
    split <;> simp
  rcases hinputs with rfl | ⟨rrsets, rfl⟩ | ⟨hds, hserial, rfl⟩
  · refine ⟨_, run_cons_ok.mpr ⟨_, hopen, hdifferences⟩, .inl fun hdone => ?_⟩
    rcases hphase with hphase | hphase <;> rw [hphase] at hdone <;> cases hdone
  · have hdeletions g' := (IxfrMove.deletions (u := u) _ g' hphase).step_eq_ok hF
    have hrest g' := run_rrsets hF (IxfrMove.delete (u := u)) g' rrsets
    exact ⟨_, run_cons_ok.mpr ⟨_, hopen, run_append.mpr ⟨_, hdifferences,
      run_cons_ok.mpr ⟨_, hdeletions _, hrest _⟩⟩⟩, .inl nofun⟩
  · exact ⟨_, run_transfer hF g n hds, .inr hserial.symm⟩

variable {answers : List AnswerRRset}

theorem axfrInputs_wrapper (front : List AxfrInput) {rest : List AxfrInput} {soa : AnswerRRset}
    (hinputs : axfrInputs answers = front ++ .soa true soa :: rest) (hfront : front ≠ []) :
    rest = [] := by
  have hlength : answers.length = front.length + (rest.length + 1) := by
    simpa [axfrInputs] using congrArg List.length hinputs
  have hwrapper : (axfrInputs answers)[front.length]? = some (.soa true soa) := by
    simp [hinputs]
  have hpos : 0 < front.length := length_pos_iff.mpr hfront
  simp only [axfrInputs, getElem?_map, getElem?_zipIdx, Option.map_map,
    Option.map_eq_some_iff, Function.comp_apply, Nat.zero_add] at hwrapper
  obtain ⟨r, -, hr⟩ := hwrapper
  split at hr
  · simp only [AxfrInput.soa.injEq, Bool.or_eq_true, beq_iff_eq] at hr
    have hlast : rest.length = 0 := by omega
    exact length_eq_zero_iff.mp hlast
  · cases hr

theorem axfr_accepted (hF : F.Lawful)
    (hrun : run (axfrStep F u) ⟨.init, g⟩ (axfrInputs answers) = .ok sm') :
    UnfinishedAxfr g.latestSerial (axfrInputs answers) ∨ sm'.current = .done ∧
      ∃ first body last, first.HasSerial g.latestSerial ∧ last.HasSerial g.latestSerial ∧
        axfrInputs answers = .soa true first :: (body ++ [.soa true last]) := by
  rcases hinputs : axfrInputs answers with _ | ⟨input, inputs⟩
  · exact .inl (.inl rfl)
  rw [hinputs] at hrun
  obtain ⟨mid, hstep, hrun⟩ := run_cons_ok.mp hrun
  rcases (axfrStep_eq_ok hF).mp hstep with ⟨g, first, hfirst⟩ | ⟨_, _, _, hp | hp⟩ | _ | ⟨_, soa, _⟩
  · rcases accepted_of_axfr_run hF (.inl rfl) hrun with
      hbody | ⟨body, last, rest, rfl, -, hlast, g', hdone⟩
    · exact .inl (.inr ⟨first, inputs, hfirst, hbody, rfl⟩)
    · have hrest : rest = [] := axfrInputs_wrapper (.soa true first :: body) hinputs nofun
      subst hrest
      cases hdone
      exact .inr ⟨rfl, first, body, last, hfirst, hlast, rfl⟩
  · cases hp
  · cases hp
  · -- A SOA in first place is taken for the wrapper.
    obtain ⟨r, -, hr⟩ : ∃ r, answers[0]? = some r ∧ (if r.value.typ = .soa then
        AxfrInput.soa true r else .rrset r.ptr) = .soa false soa := by
      have hhead : (axfrInputs answers)[0]? = some (.soa false soa) := by simp [hinputs]
      simpa [axfrInputs] using hhead
    split at hr <;> cases hr

theorem axfr_unfinished (hF : F.Lawful) {inputs : List AxfrInput}
    (hunfinished : UnfinishedAxfr g.latestSerial inputs) :
    ∃ sm', run (axfrStep F u) ⟨.init, g⟩ inputs = .ok sm' ∧ sm'.current ≠ .done := by
  rcases hunfinished with rfl | ⟨soa, body, hsoa, hbody, rfl⟩
  · exact ⟨_, rfl, nofun⟩
  have hopen := (AxfrMove.opening (u := u) g soa hsoa).step_eq_ok hF
  have hrest g' := run_body (u := u) hF (p := .start) (.inl rfl) g' hbody
  refine ⟨_, run_cons_ok.mpr ⟨_, hopen, hrest _⟩, ?_⟩
  show (if bodyRRsets body = [] then Phase.start else .addSection) ≠ .done
  split <;> nofun

/-- `Run` returns nil only for complete transfers exactly if the answer does not break off. -/
theorem run_complete_iff (hF : F.Lawful) (u : Updator σ) (typ : XfrType)
    (currentSerial latestSerial : UInt32) (tx : σ) (answers : List AnswerRRset) :
    (∀ sm', (newXFRStateMachine currentSerial latestSerial tx).run F u typ answers = .ok sm' →
      sm'.current = .done ∧ Complete typ currentSerial latestSerial answers) ↔
      ¬Unfinished typ currentSerial latestSerial answers := by
  cases typ with
  | ixfr =>
    refine ⟨fun hcomplete hunfinished => ?_, fun hfinished sm' hrun => ?_⟩
    · obtain ⟨sm', hrun, hbad⟩ := ixfr_unfinished (u := u) (g := ⟨latestSerial, currentSerial, tx⟩)
        hF hunfinished
      obtain ⟨hdone, n, ds, hds, hserial, hinputs⟩ := hcomplete sm' hrun
      have htransfer := run_transfer (u := u) hF ⟨latestSerial, currentSerial, tx⟩ n hds
      rw [← hinputs, hrun] at htransfer
      cases htransfer
      exact hbad.elim (· rfl) (· hserial.symm)
    · exact (ixfr_accepted hF hrun).resolve_left hfinished
  | axfr =>
    refine ⟨fun hcomplete hunfinished => ?_, fun hfinished sm' hrun => ?_⟩
    · obtain ⟨sm', hrun, hnot⟩ := axfr_unfinished (u := u) (g := ⟨latestSerial, currentSerial, tx⟩)
        hF hunfinished
      exact hnot (hcomplete sm' hrun).1
    · exact (axfr_accepted hF hrun).resolve_left hfinished

def exampleSoa (ptr : Ptr) (serial : UInt32) : AnswerRRset :=
  ⟨ptr, ⟨["example"], .soa, .internet, 3600,
    [.soa ⟨["ns", "example"], ["root", "example"], serial, 3600, 600, 86400, 300⟩]⟩⟩

def exampleAddress (ptr : Ptr) : AnswerRRset :=
  ⟨ptr, ⟨["www", "example"], .a, .internet, 300, [.a [10, 0, 0, 1]]⟩⟩

def idleUpdator : Updator Unit := ⟨fun _ _ => (), fun _ _ => (), fun _ => ()⟩

/-- An answer of one whole difference does not break off. -/
theorem exampleDifference_finished :
    ¬Unfinished .ixfr 1 2 [exampleSoa 0 2, exampleSoa 1 1, exampleAddress 2, exampleSoa 3 2,
      exampleAddress 4, exampleSoa 5 2] := by
  refine (run_complete_iff Engine.lawful_reference idleUpdator .ixfr 1 2 () _).mp fun sm' hrun => ?_
  cases hrun
  exact ⟨rfl, 2, [⟨[2], [4]⟩], by decide, rfl, rfl⟩

/-- Three transfers that break off and are accepted. -/
theorem unfinished_transfers_accepted :
    (newXFRStateMachine 1 2 ()).run Engine.reference idleUpdator .axfr
      [exampleSoa 0 2, exampleAddress 1] = .ok ⟨.addSection, ⟨2, 1, ()⟩⟩ ∧
    (newXFRStateMachine 1 2 ()).run Engine.reference idleUpdator .ixfr
      [exampleSoa 0 2, exampleSoa 1 1, exampleAddress 2] = .ok ⟨.deleteSection, ⟨2, 1, ()⟩⟩ ∧
    (newXFRStateMachine 1 5 ()).run Engine.reference idleUpdator .ixfr
      [exampleSoa 0 5, exampleSoa 1 1, exampleAddress 2, exampleSoa 3 2, exampleAddress 4,
        exampleSoa 5 5] = .ok ⟨.done, ⟨5, 2, ()⟩⟩ :=
  ⟨rfl, rfl, rfl⟩

end Vanguard.Xfr
