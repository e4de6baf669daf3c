import Vanguard.Forwarder.Machine

namespace Vanguard.Forwarder

open Library List State

def Phase.mayQuery : Phase → Bool
  | .selecting tries => 0 < tries
  | .waiting _ tries => 0 < tries
  | .checking _ tries err => err && decide (0 < tries)
  | .adding _ tries err => err && decide (0 < tries)
  | _ => true

def Thread.awaits (t : Thread) (addr : String) : Bool := t.stored.contains addr && t.phase.mayQuery

section

variable (conf : Conf)

/-- A step does not come between a client and its source, nor choose what the client passed over. -/
def undisturbed (s : State) : Event → Bool
  | .client i x =>
    match s.threads[i]? with
    | none => true
    | some t =>
      let same (view : String) : Bool := conf.querySource view = conf.querySource t.view
      match t.phase with
      | .stub =>
        !x.ok || (s.readers.all same &&
          (s.threads.eraseIdx i).all fun t' => t'.phase ≠ .masters || same t'.view)
      | .storing addr _ =>
        !x.ok || (s.threads.eraseIdx i).all fun t' => !t'.awaits addr || same t'.view
      | .selecting _ =>
        x.choice.all fun addr => (s.fwders addr).isDown || t.stored.contains addr
      | _ => true
  | _ => true

structure Thread.Own (fwders : String → SafeUDPFwder) (stubSender : Option String) (t : Thread) :
    Prop where
  awaited : ∀ addr, t.awaits addr = true → (fwders addr).fwder = some (conf.querySource t.view)
  querying : ∀ addr tries, t.phase = .querying addr tries → addr ∈ t.stored
  masters : t.phase = .masters → stubSender = some (conf.querySource t.view)

/-- What is set was set by those who use it, and queries were sent from their own sources. -/
structure State.Own (s : State) : Prop where
  threads : ∀ t ∈ s.threads, t.Own conf s.fwders s.stubSender
  readers : ∀ view ∈ s.readers, s.stubSender = some (conf.querySource view)
  sent : ∀ q ∈ s.sent, q.source = conf.querySource q.view

end

variable {conf : Conf} {s : State} {t : Thread}

theorem Thread.Own.move {fwders : String → SafeUDPFwder} {stubSender : Option String}
    (ht : t.Own conf fwders stubSender) {phase : Phase}
    (hmay : phase.mayQuery = true → t.phase.mayQuery = true)
    (hquerying : ∀ addr tries, phase = .querying addr tries → addr ∈ t.stored)
    (hmasters : phase ≠ .masters) : Thread.Own conf fwders stubSender { t with phase } := by
  refine ⟨fun addr hawaits => ht.awaited addr ?_, hquerying, fun hphase => absurd hphase hmasters⟩
  obtain ⟨hstored, hphase⟩ := Bool.and_eq_true_iff.mp hawaits
  exact Bool.and_eq_true_iff.mpr ⟨hstored, hmay hphase⟩

theorem State.Own.put (hs : s.Own conf) (ht : t.Own conf s.fwders s.stubSender) :
    (s.put t).Own conf :=
  ⟨forall_mem_append.mpr ⟨hs.threads, forall_mem_singleton.mpr ht⟩, hs.readers, hs.sent⟩

theorem State.Own.eraseIdx (hs : s.Own conf) (i : ℕ) :
    State.Own conf { s with threads := s.threads.eraseIdx i } :=
  ⟨fun t ht => hs.threads t (mem_of_mem_eraseIdx ht), hs.readers, hs.sent⟩

theorem State.Own.prober (hs : s.Own conf) (p : Prober) :
    State.Own conf { s with prober := p } := ⟨hs.threads, hs.readers, hs.sent⟩

variable {addr : String}

theorem Thread.Own.setFwder {f : SafeUDPFwder} (ht : t.Own conf s.fwders s.stubSender)
    (hf : f.fwder = (s.fwders addr).fwder) :
    t.Own conf (s.setFwder addr f).fwders s.stubSender := by
  refine ⟨fun a ha => ?_, ht.querying, ht.masters⟩
  rw [← ht.awaited a ha]
  by_cases haddr : a = addr
  · rw [haddr, fwders_setFwder_self, hf]
  · rw [fwders_setFwder_of_ne s f haddr]

section

variable (hs : s.Own conf)

include hs

theorem State.Own.setFwder {f : SafeUDPFwder} (hf : f.fwder = (s.fwders addr).fwder) :
    (s.setFwder addr f).Own conf :=
  ⟨fun t ht => (hs.threads t ht).setFwder hf, hs.readers, hs.sent⟩

/-- A client sets the sender of the stub zones while nobody with another source is going to use it.
-/
theorem State.Own.setStub {view : String}
    (hreaders : ∀ v ∈ s.readers, conf.querySource v = conf.querySource view)
    (hthreads : ∀ t' ∈ s.threads, t'.phase = .masters →
      conf.querySource t'.view = conf.querySource view) :
    State.Own conf { s with stubSender := some (conf.querySource view) } := by
  refine ⟨fun t' ht' => ?_, fun v hv => congrArg some (hreaders v hv).symm, hs.sent⟩
  have hown := hs.threads t' ht'
  exact ⟨hown.awaited, hown.querying, fun hphase => congrArg some (hthreads t' ht' hphase).symm⟩

theorem State.Own.setSource {addr view : String}
    (hthreads : ∀ t' ∈ s.threads, t'.awaits addr = true →
      conf.querySource t'.view = conf.querySource view) :
    (s.setFwder addr ((s.fwders addr).setQuerySource (conf.querySource view))).Own conf := by
  refine ⟨fun t' ht' => ?_, hs.readers, hs.sent⟩
  have hown := hs.threads t' ht'
  refine ⟨fun a ha => ?_, hown.querying, hown.masters⟩
  by_cases haddr : a = addr
  · subst haddr
    rw [fwders_setFwder_self, hthreads t' ht' ha]
    rfl
  · rw [fwders_setFwder_of_ne s _ haddr]
    exact hown.awaited a ha

theorem State.Own.retry (ht : t.Own conf s.fwders s.stubSender) {tries : ℕ} {err : Bool}
    (hmay : (err && decide (0 < tries)) = true → t.phase.mayQuery = true) :
    (t.retry tries err s).Own conf := by
  unfold Thread.retry
  split_ifs with hagain
  · exact hs.put (ht.move (fun _ => hmay (by simpa using hagain)) (by simp) (by simp))
  · exact hs

theorem State.Own.store (ht : t.Own conf s.fwders s.stubSender) {todo : List String}
    (hmay : t.phase.mayQuery = true) (hthreads : ∀ t' ∈ s.threads, t'.awaits addr = true →
      conf.querySource t'.view = conf.querySource t.view) :
    (t.store conf addr todo s).Own conf := by
  have hset := hs.setSource hthreads
  -- The client may use the source wherever it has set it, now also here.
  have hown : ∀ phase, phase ≠ .masters →
      (∀ a n, phase = .querying a n → a ∈ addr :: t.stored) →
      Thread.Own conf
        (s.setFwder addr ((s.fwders addr).setQuerySource (conf.querySource t.view))).fwders
        s.stubSender { t with stored := addr :: t.stored, phase } := by
    intro phase hmasters hquerying
    refine ⟨fun a ha => ?_, hquerying, fun hphase => absurd hphase hmasters⟩
    by_cases haddr : a = addr
    · rw [haddr, fwders_setFwder_self]
      rfl
    · rw [fwders_setFwder_of_ne s _ haddr]
      refine ht.awaited a (Bool.and_eq_true_iff.mpr ⟨?_, hmay⟩)
      simpa [haddr] using (Bool.and_eq_true_iff.mp ha).1
  unfold Thread.store
  dsimp only
  split
  · exact hset.put (hown _ (by simp) (by simp))
  · refine hset.put (hown _ (by simp) fun a n hphase => ?_)
    cases hphase
    exact mem_cons_self

end

theorem Thread.GoesTo.mayQuery {x : Input} {phase : Phase} (h : t.GoesTo conf x s phase)
    (hmay : phase.mayQuery = true) : t.phase.mayQuery = true := by
  cases h with
  | down hphase =>
    rw [hphase]
    exact hmay
  | _ => simp [*, Phase.mayQuery]

theorem State.Own.clientStep {i : ℕ} {x : Input} (hs : s.Own conf) (hi : s.threads[i]? = some t)
    (hundisturbed : undisturbed conf s (.client i x) = true) :
    (t.step conf x { s with threads := s.threads.eraseIdx i }).Own conf := by
  have ht : t.Own conf s.fwders s.stubSender := hs.threads t (mem_of_getElem? hi)
  have hrest := hs.eraseIdx i
  simp only [undisturbed, hi] at hundisturbed
  generalize hstep : t.step conf x _ = s'
  cases Thread.moves_of_step hstep with
  | ends => exact hrest
  | setStub hphase hok =>
    rw [hphase, hok, Bool.not_true] at hundisturbed
    obtain ⟨hreaders, hthreads⟩ := Bool.and_eq_true_iff.mp hundisturbed
    have hset := hrest.setStub (fun v hv => by simpa using all_eq_true.mp hreaders v hv)
      fun t' ht' hmasters => by simpa [hmasters] using all_eq_true.mp hthreads t' ht'
    refine hset.put ⟨fun addr hawaits => ht.awaited addr ?_, by simp, fun _ => rfl⟩
    exact Bool.and_eq_true_iff.mpr ⟨(Bool.and_eq_true_iff.mp hawaits).1, by rw [hphase]; rfl⟩
  | askMasters hphase masters =>
    refine ⟨hrest.threads, forall_mem_append.mpr ⟨hrest.readers, ?_⟩, hrest.sent⟩
    exact forall_mem_map.mpr fun _ _ => ht.masters hphase
  | goesOn hgoes =>
    refine hrest.put (ht.move hgoes.mayQuery (fun a n hquerying => ?_) ?_)
    · subst hquerying
      cases hgoes with
      | choose hphase hchoice _ hup =>
        have hup' : (s.fwders a).isDown = false := hup
        simpa [hphase, hchoice, hup'] using hundisturbed
    · rintro rfl
      cases hgoes
  | stored hphase hok =>
    refine hrest.store ht (by rw [hphase]; rfl) fun t' ht' hawaits => ?_
    rw [hphase, hok, Bool.not_true] at hundisturbed
    simpa [hawaits] using all_eq_true.mp hundisturbed t' ht'
  | @queried addr source tries hphase hsource =>
    have hmay : t.phase.mayQuery = true := by rw [hphase]; rfl
    have hstored : addr ∈ t.stored := ht.querying addr tries hphase
    have hown := ht.awaited addr (Bool.and_eq_true_iff.mpr ⟨by simpa using hstored, hmay⟩)
    have hsent : State.Own conf
        { s with threads := s.threads.eraseIdx i, sent := ⟨t.view, source⟩ :: s.sent } :=
      ⟨hrest.threads, hrest.readers,
        forall_mem_cons.mpr ⟨Option.some.inj (hsource.symm.trans hown), hrest.sent⟩⟩
    exact hsent.put (ht.move (fun _ => hmay) (by simp) (by simp))
  | @replied addr tries hphase =>
    have hsame := SafeUDPFwder.fwder_checkStatus conf.bearableFailInterval x.now (!x.ok)
      (s.fwders addr)
    refine (hrest.setFwder hsame).put
      ((ht.setFwder hsame).move (fun hmay => ?_) (by simp) (by simp))
    rw [hphase]
    exact (Bool.and_eq_true_iff.mp hmay).2
  | checked hphase =>
    refine hrest.retry ht ?_
    rw [hphase]
    exact id
  | added hphase =>
    refine (hrest.prober _).retry ht ?_
    rw [hphase]
    exact id

theorem own_newThread (conf : Conf) (view : String) (name : Name)
    (fwders : String → SafeUDPFwder) (stubSender : Option String) :
    (newThread conf view name).Own conf fwders stubSender := by
  unfold newThread
  refine ⟨fun addr hawaits => ?_, fun addr tries hphase => ?_, fun hphase => ?_⟩
  · simp [Thread.awaits] at hawaits
  all_goals
    dsimp only at hphase
    split_ifs at hphase

theorem State.Own.step {s' : State} {event : Event} (hs : s.Own conf)
    (hundisturbed : undisturbed conf s event = true) (hstep : s.step conf event = .ok s') :
    s'.Own conf := by
  cases moves_of_step hstep with
  | resolve view name => exact hs.put (own_newThread conf view name _ _)
  | client x hi => exact hs.clientStep hi hundisturbed
  | @read i view hi =>
    have hsender : s.stubSender = some (conf.querySource view) :=
      hs.readers view (mem_of_getElem? hi)
    have hreaders : ∀ v ∈ s.readers.eraseIdx i, s.stubSender = some (conf.querySource v) :=
      fun v hv => hs.readers v (mem_of_mem_eraseIdx hv)
    simp only [State.readSender]
    split
    · exact ⟨hs.threads, hreaders, hs.sent⟩
    · next source hsource =>
      exact ⟨hs.threads, hreaders,
        forall_mem_cons.mpr ⟨Option.some.inj (hsource.symm.trans hsender), hs.sent⟩⟩
  | tick | sendTask => exact hs.prober _
  | probe ok now =>
    exact (hs.setFwder (SafeUDPFwder.fwder_checkStatus _ now (!ok) _)).prober _
  | failed | restored => exact hs.prober _

/-- If nobody is disturbed, every query is sent from the source of its view. -/
theorem sent_from_own_source (conf : Conf) (events : List Event) (s : State)
    (hundisturbed : Along (State.step conf) (fun s event => undisturbed conf s event = true) .init
      events)
    (hreached : Reached (State.step conf) .init events s) :
    ∀ q ∈ s.sent, q.source = conf.querySource q.view := by
  have hinit : State.init.Own conf :=
    ⟨by simp [State.init], by simp [State.init], by simp [State.init]⟩
  have hown : s.Own conf :=
    reached_induction (State.Own conf) (fun _ _ _ hs hstep => hs.step hstep) hundisturbed hinit
      hreached
  exact hown.sent

def sharedConf : Conf where
  querySource view := if view = "v1" then "10.0.0.1" else "10.0.0.2"
  stub := false
  forwarder := true
  masters _ _ := none
  fwder _ _ := some (.one "192.0.2.53:53")
  bearableFailInterval := 5

def goesOn (i : ℕ) : Event := .client i ⟨true, none, 1⟩

/-- The client of the second view comes after the query of the first. -/
def oneAfterAnother : List Event :=
  [.resolve "v1" ["example"], goesOn 0, goesOn 0, goesOn 0, .resolve "v2" ["example"], goesOn 1,
    goesOn 1, goesOn 1]

/-- One after another they send from their own sources. -/
theorem example_own_sources :
    ∃ s, run (State.step sharedConf) .init oneAfterAnother = .ok s ∧
      s.sent = [⟨"v2", "10.0.0.2"⟩, ⟨"v1", "10.0.0.1"⟩] ∧
      ∀ q ∈ s.sent, q.source = sharedConf.querySource q.view := by
  obtain ⟨s, hs⟩ : ∃ s, run (State.step sharedConf) .init oneAfterAnother = .ok s := ⟨_, rfl⟩
  refine ⟨s, hs, ?_, sent_from_own_source sharedConf oneAfterAnother s (by decide)
    ⟨oneAfterAnother, prefix_refl _, hs⟩⟩
  cases hs
  rfl

/-- The query of the first client leaves from the source of the second. -/
theorem example_foreign_source :
    ∃ s, run (State.step sharedConf) .init [.resolve "v1" ["example"], goesOn 0, goesOn 0,
        .resolve "v2" ["example"], goesOn 1, goesOn 1, goesOn 0] = .ok s ∧
      s.sent = [⟨"v1", "10.0.0.2"⟩] ∧ sharedConf.querySource "v1" = "10.0.0.1" :=
  ⟨_, rfl, rfl, rfl⟩

end Vanguard.Forwarder
