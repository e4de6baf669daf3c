import Vanguard.Auth.Loading

namespace Vanguard.Auth

open Library Zone List Option
open Xfr (AnswerRRset)

def Sender.Harmless : Sender → Prop
  | .spawned => False
  | .sending rrsets err => rrsets ≠ [] ∨ err = none
  | .aborting => False
  | .closing => True
  | .closed => True

/-- The goroutine of this master fails only if `doAXFR` does. -/
def Sender.RunsFor (master : Master AnswerRRset) : Sender → Prop
  | .spawned => True
  | .sending _ err => err = (doAXFR typeOf master).2
  | .aborting => (doAXFR typeOf master).2 ≠ none
  | .closing => True
  | .closed => True

variable {T : Type} [DomainTree T NameNode]

namespace Loader

section

variable (masters : List (Master AnswerRRset))

/-- The `Load` is aborted by its own goroutine, whose `doAXFR` returns an error. -/
def OwnAbort (l : Loader T) : LoadEvent → Prop
  | .abort i => ∀ l', l.step masters (.abort i) = .ok l' →
    i = l.master ∧ ∃ master err, masters[l.master]? = some master ∧
      (doAXFR typeOf master).2 = some err
  | _ => True

/-- `Load` turns down no last RRset of a transfer that then fails, but for the last master. -/
def NoLateFailure (l : Loader T) : LoadEvent → Prop
  | .receive => ∀ newMemZone rrset err o e, l.phase = .loading newMemZone →
    l.senders[l.master]? = some (.sending [rrset] (some err)) →
    newMemZone.addRRset l.objects rrset.ptr = .ok o → o.err = some e → e ≠ .noEffectiveUpdate →
    masters.length ≤ l.master + 1
  | _ => True

/-- The last goroutine is that of the present master, and the others report nothing any more. -/
structure Quiet (current : ℕ) (senders : List Sender) : Prop where
  length_eq : senders.length = current + 1
  own : ∃ master, masters[current]? = some master ∧
    ∀ sender, senders[current]? = some sender → sender.RunsFor master
  harmless : ∀ i sender, i ≠ current → senders[i]? = some sender → sender.Harmless

def Orderly (l : Loader T) : Prop :=
  ∀ newMemZone, l.phase = .loading newMemZone → Quiet masters l.master l.senders

end

section quiet

variable {masters : List (Master AnswerRRset)} {current : ℕ} {senders : List Sender}

section

variable (hquiet : Quiet masters current senders)

include hquiet

theorem Quiet.set {i : ℕ} {sender sender' : Sender} (hsender : senders[i]? = some sender)
    (hown : ∀ master, masters[current]? = some master → i = current →
      sender.RunsFor master → sender'.RunsFor master)
    (hharmless : i ≠ current → sender.Harmless → sender'.Harmless) :
    Quiet masters current (senders.set i sender') := by
  have hlt : i < senders.length := (List.getElem?_eq_some_iff.mp hsender).1
  obtain ⟨master, hmaster, hruns⟩ := hquiet.own
  refine ⟨by simpa using hquiet.length_eq, ⟨master, hmaster, fun other hother => ?_⟩, ?_⟩
  · by_cases hi : i = current
    · subst hi
      rw [getElem?_set_self hlt] at hother
      cases hother
      exact hown master hmaster rfl (hruns sender hsender)
    · exact hruns other ((getElem?_set_ne hi).symm.trans hother)
  · intro j other hj hother
    by_cases hi : i = j
    · subst hi
      rw [getElem?_set_self hlt] at hother
      cases hother
      exact hharmless hj (hquiet.harmless i sender hj hsender)
    · exact hquiet.harmless j other hj ((getElem?_set_ne hi).symm.trans hother)

theorem Quiet.all_harmless {sender : Sender} (hsender : senders[current]? = some sender)
    (hharmless : sender.Harmless) (j : ℕ) (other : Sender) (hother : senders[j]? = some other) :
    other.Harmless := by
  by_cases hj : j = current
  · subst hj
    cases hsender.symm.trans hother
    exact hharmless
  · exact hquiet.harmless j other hj hother

theorem Quiet.eq_of_aborting {i : ℕ} (hsender : senders[i]? = some .aborting) : i = current :=
  by_contra fun hi => hquiet.harmless i _ hi hsender

end

theorem Quiet.concat {next : ℕ} (hnext : next < masters.length) (hlength : senders.length = next)
    (hharmless : ∀ (j : ℕ) (sender : Sender), senders[j]? = some sender → sender.Harmless) :
    Quiet masters next (senders ++ [.spawned]) := by
  subst hlength
  refine ⟨by simp, ⟨_, getElem?_eq_getElem hnext, fun sender hsender => ?_⟩, ?_⟩
  · have hspawned : sender = .spawned := by simpa using hsender.symm
    rw [hspawned]
    trivial
  · intro j sender hj hsender
    have hbound : j < (senders ++ [Sender.spawned]).length :=
      (List.getElem?_eq_some_iff.mp hsender).1
    rw [length_append, length_singleton] at hbound
    rw [getElem?_append_left (by omega)] at hsender
    exact hharmless j sender hsender

end quiet

variable {masters : List (Master AnswerRRset)}

variable {l : Loader T}

theorem orderly_iterate {i : ℕ} (hlength : l.senders.length = i)
    (hharmless : ∀ (j : ℕ) (sender : Sender), l.senders[j]? = some sender → sender.Harmless) :
    Orderly masters (l.iterate masters i) := by
  intro newMemZone hphase
  unfold Loader.iterate at hphase ⊢
  split_ifs at hphase ⊢ with hi
  exact .concat hi hlength hharmless

/-- A `Load` leaves its goroutine in order, unless that is about to report a failure. -/
theorem orderly_rejected (hquiet : Quiet masters l.master l.senders) {rrsets : List AnswerRRset}
    {err : Option AxfrError} (hsender : l.senders[l.master]? = some (.sending rrsets err))
    (hlate : rrsets = [] → err ≠ none → masters.length ≤ l.master + 1) :
    Orderly masters (l.iterate masters (l.master + 1)) := by
  by_cases hharmless : rrsets ≠ [] ∨ err = none
  · exact orderly_iterate hquiet.length_eq (hquiet.all_harmless hsender hharmless)
  · rw [not_or, not_not] at hharmless
    intro newMemZone hphase
    rw [Loader.iterate, if_neg (Nat.not_lt.mpr (hlate hharmless.1 hharmless.2))] at hphase
    cases hphase

theorem Orderly.step {l l' : Loader T} (hl : Orderly masters l) {event : LoadEvent}
    (hlate : NoLateFailure masters l event) (hstep : l.step masters event = .ok l') :
    Orderly masters l' := by
  cases step_eq_ok_iff.mp hstep with
  | start hsender hmaster =>
    intro newMemZone hphase
    refine (hl newMemZone hphase).set hsender (fun master' hmaster' _ _ => ?_)
      fun _ hfalse => hfalse.elim
    cases hmaster.symm.trans hmaster'
    rfl
  | @receive newMemZone rrset rrsets err _ hloading hsender hadd =>
    have hquiet : Quiet masters l.master (l.senders.set l.master (.sending rrsets err)) :=
      (hl newMemZone hloading).set hsender (fun _ _ _ hruns => hruns) fun hne => absurd rfl hne
    obtain ⟨o, hok, ⟨-, rfl⟩ | ⟨⟨e, herr, hne⟩, rfl⟩⟩ := add_eq_ok hadd
    · exact fun _ _ => hquiet
    · refine orderly_rejected (l := { l.setSender l.master (.sending rrsets err) with
        objects := o.objects }) hquiet
        (getElem?_set_self (List.getElem?_eq_some_iff.mp hsender).1) ?_
      rintro rfl hsome
      obtain ⟨cause, rfl⟩ := ne_none_iff_exists'.mp hsome
      exact hlate newMemZone rrset cause o e hloading hsender hok herr hne
  | finished hsender =>
    exact fun newMemZone hphase =>
      (hl newMemZone hphase).set hsender (fun _ _ _ _ => trivial) fun _ _ => trivial
  | @failed i err hsender =>
    intro newMemZone hphase
    refine (hl newMemZone hphase).set hsender (fun master _ _ hruns hnone => ?_)
      fun _ hharmless => ?_
    · exact some_ne_none err (Eq.trans hruns hnone)
    · exact hharmless.elim (fun hne => hne rfl) (some_ne_none err)
  | @abort i newMemZone hloading hsender =>
    have hquiet := hl newMemZone hloading
    obtain rfl := hquiet.eq_of_aborting hsender
    have hclosing : Quiet masters l.master (l.senders.set l.master .closing) :=
      hquiet.set hsender (fun _ _ _ _ => trivial) fun _ _ => trivial
    exact orderly_iterate hclosing.length_eq (hclosing.all_harmless
      (getElem?_set_self (List.getElem?_eq_some_iff.mp hsender).1) trivial)
  | close hsender =>
    exact fun newMemZone hphase =>
      (hl newMemZone hphase).set hsender (fun _ _ _ _ => trivial) fun _ _ => trivial
  | installed hloading hsender hvalid =>
    intro zone hphase
    cases hphase
  | @invalid newMemZone _ hloading hsender hinvalid =>
    have hquiet := hl newMemZone hloading
    exact orderly_iterate hquiet.length_eq (hquiet.all_harmless hsender trivial)

theorem Orderly.ownAbort (hl : Orderly masters l) (event : LoadEvent) :
    OwnAbort masters l event := by
  cases event with
  | abort i =>
    intro l' hstep
    cases step_eq_ok_iff.mp hstep with
    | @abort _ newMemZone hloading hsender =>
      have hquiet := hl newMemZone hloading
      obtain rfl := hquiet.eq_of_aborting hsender
      obtain ⟨master, hmaster, hruns⟩ := hquiet.own
      obtain ⟨err, herr⟩ := ne_none_iff_exists'.mp (hruns _ hsender)
      exact ⟨rfl, master, err, hmaster, herr⟩
  | start _ | receive | finish _ | close _ | receiveClosed => trivial

theorem not_ownAbort_of_lateFailure (hlate : ¬NoLateFailure masters l .receive) :
    ∃ events l', run (step masters) l events = .ok l' ∧ ∃ i, ¬OwnAbort masters l' (.abort i) := by
  simp only [NoLateFailure, not_forall] at hlate
  obtain ⟨newMemZone, rrset, err, o, e, hloading, hsender, hok, herr, hne, hnext⟩ := hlate
  have hlt : l.master < l.senders.length := (List.getElem?_eq_some_iff.mp hsender).1
  -- The next `Load` is running, and the goroutine has nothing more to send.
  obtain ⟨l', hl'⟩ : ∃ l' : Loader T, l' = { l with
      objects := o.objects
      master := l.master + 1
      senders := l.senders.set l.master (.sending [] (some err)) ++ [.spawned]
      phase := .loading (newMemoryZone l.zone.memoryZone.origin) } := ⟨_, rfl⟩
  have hreceive : l.step masters .receive = .ok l' := by
    refine step_eq_ok_iff.mpr (.receive hloading hsender ?_)
    refine (add_of_rejected (l := l.setSender l.master (.sending [] (some err))) hok herr hne).trans
      (congrArg Except.ok ?_)
    rw [hl', Loader.iterate]
    exact if_pos (Nat.lt_of_not_le hnext)
  have hstuck : l'.senders[l.master]? = some (.sending [] (some err)) := by
    rw [hl', getElem?_append_left (by simpa using hlt), getElem?_set_self hlt]
  have hfinish : l'.step masters (.finish l.master) = .ok (l'.setSender l.master .aborting) :=
    step_eq_ok_iff.mpr (.failed hstuck)
  refine ⟨[.receive, .finish l.master], l'.setSender l.master .aborting, ?_, l.master, ?_⟩
  · exact run_cons_ok.mpr ⟨l', hreceive, run_cons_ok.mpr ⟨_, hfinish, rfl⟩⟩
  · intro hown
    have hphase : (l'.setSender l.master .aborting).phase =
        .loading (newMemoryZone l.zone.memoryZone.origin) := by
      rw [hl']
      rfl
    have haborting : (l'.setSender l.master .aborting).senders[l.master]? = some .aborting :=
      getElem?_set_self (List.getElem?_eq_some_iff.mp hstuck).1
    have hmaster : (l'.setSender l.master .aborting).master = l.master + 1 := by
      rw [hl']
      rfl
    have hsame := (hown _ (step_eq_ok_iff.mpr (.abort hphase haborting))).1
    omega

end Loader

/-- In all interleavings of the loads and the goroutines a `Load` is aborted by the goroutine of its
own master only, after an error of `doAXFR` for that master, exactly if in none of them a `Load`
turns down the last RRset of a transfer that fails right after it while there is a further master.
-/
theorem aborts_own_iff (masters : List (Master AnswerRRset)) (h : Objects) (origin : Name) :
    (∀ events, Along (Loader.step masters) (Loader.OwnAbort masters)
        (.enter masters h origin : Loader T) events) ↔
      ∀ events, Along (Loader.step masters) (Loader.NoLateFailure masters)
        (.enter masters h origin : Loader T) events := by
  constructor
  · intro hown
    refine along_forall_iff.mpr fun events l hrun event => ?_
    by_contra hlate
    cases event with
    | receive =>
      obtain ⟨later, l', hlater, i, hi⟩ := Loader.not_ownAbort_of_lateFailure hlate
      have hrun' : run (Loader.step masters) (.enter masters h origin) (events ++ later) = .ok l' :=
        run_append.mpr ⟨l, hrun, hlater⟩
      exact hi (along_forall_iff.mp hown _ l' hrun' (.abort i))
    | start _ | finish _ | abort _ | close _ | receiveClosed => exact hlate trivial
  · intro hlate
    refine along_forall_iff.mpr fun events l hrun event => ?_
    have horderly : Loader.Orderly masters l :=
      run_induction (Loader.Orderly masters) (fun _ _ _ hl hcond hstep => hl.step hcond hstep)
        (hlate events) (Loader.orderly_iterate rfl fun _ _ hs => absurd hs (by simp)) hrun
    exact horderly.ownAbort event

/-- The only master sends no closing SOA: its `Load` is aborted, and by its own goroutine. -/
theorem example_only_master_aborts_own :
    run (Loader.step [loaderMaster [0, 1]]) (.enter [loaderMaster [0, 1]] loaderObjects ["example"])
        [.start 0, .receive, .receive, .finish 0, .abort 0] =
      .ok (loadedBy [loaderMaster [0, 1]] [.start 0, .receive, .receive, .finish 0, .abort 0]) ∧
    Along (Loader.step [loaderMaster [0, 1]]) (Loader.OwnAbort [loaderMaster [0, 1]])
      (.enter [loaderMaster [0, 1]] loaderObjects ["example"] : Loader (ReferenceTree NameNode))
      [.start 0, .receive, .receive, .finish 0, .abort 0] := by
  refine ⟨rfl, (aborts_own_iff _ _ _).mpr (fun events => along_of_forall ?_ _ events) _⟩
  intro l event
  cases event with
  | receive => exact fun _ _ _ _ _ _ _ _ _ _ => Nat.le_add_left 1 l.master
  | start _ | finish _ | abort _ | close _ | receiveClosed => trivial

def lateFailureMasters : List (Master AnswerRRset) :=
  [loaderMaster [0, 1, 1], loaderMaster [0, 1, 0]]

/-- The goroutine of the first `Load` reports its failure during the second. -/
def lateFailureLoad : List LoadEvent :=
  [.start 0, .receive, .receive, .receive, .start 1, .receive, .finish 0]

/-- The second load is aborted by the first goroutine, and the zone is empty. -/
theorem example_second_load_aborted :
    run (Loader.step lateFailureMasters) (.enter lateFailureMasters loaderObjects ["example"])
        lateFailureLoad = .ok (loadedBy lateFailureMasters lateFailureLoad) ∧
    (loadedBy lateFailureMasters lateFailureLoad).master = 1 ∧
    (doAXFR typeOf (loaderMaster [0, 1, 0])).2 = none ∧
    (loadedBy lateFailureMasters lateFailureLoad).step lateFailureMasters (.abort 0) =
      .ok (loadedBy lateFailureMasters (lateFailureLoad ++ [.abort 0])) ∧
    (loadedBy lateFailureMasters (lateFailureLoad ++ [.abort 0])).phase = .returned ∧
    (loadedBy lateFailureMasters (lateFailureLoad ++ [.abort 0])).zone.memoryZone =
      newMemoryZone ["example"] ∧
    ¬Loader.OwnAbort lateFailureMasters (loadedBy lateFailureMasters lateFailureLoad)
      (.abort 0) := by
  have hmaster : (loadedBy lateFailureMasters lateFailureLoad).master = 1 := rfl
  have habort : (loadedBy lateFailureMasters lateFailureLoad).step lateFailureMasters (.abort 0) =
      .ok (loadedBy lateFailureMasters (lateFailureLoad ++ [.abort 0])) := rfl
  refine ⟨rfl, hmaster, rfl, habort, rfl, rfl, fun hown => ?_⟩
  exact absurd ((hown _ habort).1.trans hmaster) (by decide)

end Vanguard.Auth
