import Mathlib.Data.List.Nodup
import Vanguard.Forwarder.Machine

namespace Vanguard.Forwarder

open Library List

section

open Prober

def Prober.holders (p : Prober) : List String :=
  p.targets ++ (p.probeTargets ++ p.workers.map Worker.addr)

theorem Prober.count_holders (p : Prober) (addr : String) :
    p.holders.count addr = p.targets.count addr + p.probeTargets.count addr +
      (p.workers.map Worker.addr).count addr := by
  rw [Prober.holders, count_append, count_append, Nat.add_assoc]

structure Prober.Consistent (p : Prober) : Prop where
  nodup : p.targetFwders.Nodup
  count : ∀ addr, p.holders.count addr = p.targetFwders.count addr

theorem count_eraseIdx_workers {workers : List Worker} {i : ℕ} {w : Worker}
    (hi : workers[i]? = some w) (addr : String) :
    (workers.map Worker.addr).count addr =
      ((workers.eraseIdx i).map Worker.addr).count addr + [w.addr].count addr := by
  rw [← ((perm_eraseIdx hi).map Worker.addr).count_eq addr, map_cons, count_cons, count_singleton]

namespace Prober.Consistent

variable {p : Prober} {addr : String} {i : ℕ}

variable (hp : p.Consistent)

include hp

theorem count_eq_one (haddr : addr ∈ p.targetFwders) : p.holders.count addr = 1 := by
  rw [hp.count]
  exact count_eq_one_of_mem hp.nodup haddr

variable {w : Worker}

theorem mem_of_worker (hi : p.workers[i]? = some w) : w.addr ∈ p.targetFwders := by
  rw [← count_pos_iff, ← hp.count, count_pos_iff]
  refine mem_append_right _ (mem_append_right _ ?_)
  exact mem_map_of_mem (mem_of_getElem? hi)

theorem addProbe (addr : String) : (p.addProbe addr).Consistent := by
  unfold Prober.addProbe
  split_ifs with hmem
  · exact hp
  · have hnew : addr ∉ p.targetFwders := by simpa using hmem
    refine ⟨nodup_cons.mpr ⟨hnew, hp.nodup⟩, fun a => ?_⟩
    have hcount := hp.count a
    rw [count_holders] at hcount ⊢
    simp only [Prober.pushBack, count_append, count_cons, count_nil]
    omega

theorem take (hempty : p.probeTargets = []) : p.take.Consistent := by
  refine ⟨hp.nodup, fun a => ?_⟩
  have hcount := hp.count a
  have hsplit : (p.targets.take probeRoutineCount).count a +
      (p.targets.drop probeRoutineCount).count a = p.targets.count a := by
    rw [← count_append, take_append_drop]
  rw [count_holders] at hcount ⊢
  simp only [hempty, count_nil] at hcount
  simp only [Prober.take]
  omega

theorem sendTask (accepted : Bool) : (p.sendTask accepted).Consistent := by
  unfold Prober.sendTask
  split
  · exact hp
  · next addr rest hrest =>
    have hcount := hp.count
    simp only [count_holders, hrest, count_cons] at hcount
    split_ifs
    all_goals
      refine ⟨hp.nodup, fun a => ?_⟩
      have hcount' := hcount a
      rw [count_holders]
      simp only [Prober.pushBack, map_append, map_cons, map_nil, Worker.addr,
        count_append, count_cons, count_nil]
      omega

theorem goesOn {w w' : Worker} (hi : p.workers[i]? = some w) (haddr : w'.addr = w.addr) :
    Prober.Consistent { p with workers := p.workers.eraseIdx i ++ [w'] } := by
  refine ⟨hp.nodup, fun a => ?_⟩
  have hcount := hp.count a
  have hworkers := count_eraseIdx_workers hi a
  rw [count_holders] at hcount ⊢
  simp only [map_append, map_cons, map_nil, haddr, count_append]
  omega

theorem pushBack (hi : p.workers[i]? = some w) : ((p.without i).pushBack w.addr).Consistent := by
  refine ⟨hp.nodup, fun a => ?_⟩
  have hcount := hp.count a
  have hworkers := count_eraseIdx_workers hi a
  rw [count_holders] at hcount ⊢
  simp only [Prober.pushBack, Prober.without, count_append]
  omega

theorem remove (hi : p.workers[i]? = some w) : ((p.without i).remove w.addr).Consistent := by
  refine ⟨hp.nodup.erase _, fun a => ?_⟩
  have hcount := hp.count a
  have hworkers := count_eraseIdx_workers hi a
  have herase : (p.targetFwders.erase w.addr).count a =
      p.targetFwders.count a - [w.addr].count a := by
    rw [count_erase, count_singleton]
  rw [count_holders] at hcount ⊢
  simp only [Prober.remove, Prober.without]
  omega

end Prober.Consistent

end

/-- A goroutine here has called `checkStatus` of the forwarder and not `AddProbe` yet. -/
def Phase.probes (addr : String) : Phase → Bool
  | .checking a _ _ => a = addr
  | .adding a _ _ => a = addr
  | _ => false

/-- A `Forward` on the forwarder is still about to call `AddProbe`. -/
def State.pending (s : State) (addr : String) : Bool := s.threads.any fun t => t.phase.probes addr

/-- Every forwarder that is down and not about to be added has exactly one target. -/
def State.Scheduled (s : State) : Prop :=
  ∀ addr, (s.fwders addr).isDown = true → s.pending addr = false →
    addr ∈ s.prober.targetFwders ∧ s.prober.holders.count addr = 1

/-- A worker gives up the forwarder only while it is up, or a `Forward` is about to add it. -/
def crossesNoFailure (s : State) : Event → Bool
  | .finish i =>
    match s.prober.workers[i]? with
    | some (.restored addr) => !(s.fwders addr).isDown || s.pending addr
    | _ => true
  | _ => true

/-- A forwarder that is down is in the set, or a `Forward` is about to add it. -/
def State.Covers (s : State) (addr : String) : Prop :=
  (s.fwders addr).isDown = true → s.pending addr = true ∨ addr ∈ s.prober.targetFwders

theorem scheduled_iff {s : State} (hp : s.prober.Consistent) :
    s.Scheduled ↔ ∀ addr, s.Covers addr := by
  constructor
  · intro hscheduled addr hdown
    cases hpending : s.pending addr with
    | true => exact .inl rfl
    | false => exact .inr (hscheduled addr hdown hpending).1
  · intro hcovers addr hdown hpending
    rcases hcovers addr hdown with hpend | hmem
    · rw [hpending] at hpend
      cases hpend
    · exact ⟨hmem, hp.count_eq_one hmem⟩

section covers

variable {conf : Conf} {s s' : State} {t : Thread} {addr : String}

theorem State.Covers.mono (hs : s.Covers addr)
    (hdown : (s'.fwders addr).isDown = true → (s.fwders addr).isDown = true)
    (hthreads : ∀ t ∈ s.threads, t.phase.probes addr = true → t ∈ s'.threads)
    (htargets : addr ∈ s.prober.targetFwders → addr ∈ s'.prober.targetFwders) : s'.Covers addr := by
  intro hdown'
  rcases hs (hdown hdown') with hpending | hmem
  · obtain ⟨t, ht, hprobes⟩ := any_eq_true.mp hpending
    exact .inl (any_eq_true.mpr ⟨t, hthreads t ht hprobes, hprobes⟩)
  · exact .inr (htargets hmem)

theorem State.Covers.put (hs : s.Covers addr) (t : Thread) : (s.put t).Covers addr :=
  hs.mono id (fun _ ht _ => mem_append_left _ ht) id

theorem covers_put (hprobes : t.phase.probes addr = true) : (s.put t).Covers addr :=
  fun _ => .inl (any_eq_true.mpr ⟨t, mem_append_right _ (mem_singleton.mpr rfl), hprobes⟩)

theorem covers_of_up (hup : (s.fwders addr).isDown = false) : s.Covers addr := by
  intro hdown
  rw [hup] at hdown
  cases hdown

theorem State.Covers.eraseIdx {i : ℕ} (hs : s.Covers addr) (hi : s.threads[i]? = some t)
    (hprobes : t.phase.probes addr = false) :
    State.Covers { s with threads := s.threads.eraseIdx i } addr := by
  refine hs.mono id (fun t' ht' hprobes' => ?_) id
  have hmem := (perm_eraseIdx hi).mem_iff.mpr ht'
  rcases mem_cons.mp hmem with rfl | hrest
  · rw [hprobes] at hprobes'
    cases hprobes'
  · exact hrest

theorem State.Covers.setFwder (hs : s.Covers addr) {a : String} {f : SafeUDPFwder}
    (hf : a = addr → f.isDown = true → (s.fwders addr).isDown = true) :
    (s.setFwder a f).Covers addr := by
  refine hs.mono (fun hdown => ?_) (fun _ ht _ => ht) id
  by_cases haddr : addr = a
  · subst haddr
    rw [State.fwders_setFwder_self] at hdown
    exact hf rfl hdown
  · rwa [State.fwders_setFwder_of_ne s f haddr] at hdown

theorem State.Covers.retry (hs : s.Covers addr) (t : Thread) (tries : ℕ) (err : Bool) :
    (t.retry tries err s).Covers addr := by
  unfold Thread.retry
  split_ifs
  · exact hs.put _
  · exact hs

theorem mem_addProbe (p : Prober) (addr : String) : addr ∈ (p.addProbe addr).targetFwders := by
  unfold Prober.addProbe
  split_ifs with hmem
  · simpa using hmem
  · exact mem_cons_self

theorem mem_addProbe_of_mem {p : Prober} {a : String} (ha : a ∈ p.targetFwders) (addr : String) :
    a ∈ (p.addProbe addr).targetFwders := by
  unfold Prober.addProbe
  split_ifs
  · exact ha
  · exact mem_cons_of_mem _ ha

theorem covers_clientStep {i : ℕ} {x : Input} (hs : s.Covers addr) (hi : s.threads[i]? = some t) :
    (t.step conf x { s with threads := s.threads.eraseIdx i }).Covers addr := by
  generalize hstep : t.step conf x _ = s'
  cases hprobes : t.phase.probes addr with
  | false =>
    have hrest := hs.eraseIdx hi hprobes
    cases Thread.moves_of_step hstep with
    | ends => exact hrest
    | setStub => exact State.Covers.put hrest _
    | askMasters => exact hrest
    | goesOn => exact hrest.put _
    | @stored a todo =>
      have hset := hrest.setFwder (a := a)
        (f := (s.fwders a).setQuerySource (conf.querySource t.view)) (by rintro rfl; exact id)
      unfold Thread.store
      dsimp only
      split
      · exact hset.put _
      · exact hset.put _
    | queried => exact State.Covers.put hrest _
    | @replied a tries hphase =>
      by_cases haddr : a = addr
      · exact covers_put (by simpa [Phase.probes] using haddr)
      · exact (hrest.setFwder fun h => absurd h haddr).put _
    | checked => exact hrest.retry t _ _
    | @added a =>
      have hadded : State.Covers { s with
          threads := s.threads.eraseIdx i, prober := s.prober.addProbe a } addr :=
        hrest.mono id (fun _ ht _ => ht) fun hmem => mem_addProbe_of_mem hmem a
      exact hadded.retry t _ _
  | true =>
    subst hstep
    unfold Thread.step
    -- The client itself is going to add the forwarder.
    cases hphase : t.phase with
    | checking a tries err =>
      rw [hphase] at hprobes
      obtain rfl := of_decide_eq_true hprobes
      dsimp only
      split_ifs with hdown
      · exact covers_put hprobes
      · exact (covers_of_up (by simpa using hdown)).retry t tries err
    | adding a tries err =>
      rw [hphase] at hprobes
      obtain rfl := of_decide_eq_true hprobes
      refine State.Covers.retry ?_ t tries err
      exact fun _ => .inr (mem_addProbe _ a)
    | _ => simp [hphase, Phase.probes] at hprobes

theorem prober_retry (t : Thread) (tries : ℕ) (err : Bool) (s : State) :
    (t.retry tries err s).prober = s.prober := by
  unfold Thread.retry
  split_ifs <;> rfl

theorem prober_store (conf : Conf) (t : Thread) (addr : String) (todo : List String) (s : State) :
    (t.store conf addr todo s).prober = s.prober := by
  unfold Thread.store
  dsimp only
  split <;> rfl

theorem consistent_clientStep (conf : Conf) (t : Thread) (x : Input)
    (hs : s.prober.Consistent) : (t.step conf x s).prober.Consistent := by
  generalize hstep : t.step conf x s = s'
  cases Thread.moves_of_step hstep with
  | stored =>
    rw [prober_store]
    exact hs
  | checked =>
    rw [prober_retry]
    exact hs
  | added =>
    rw [prober_retry]
    exact hs.addProbe _
  | _ => exact hs

theorem Prober.Consistent.step {event : Event} (hs : s.prober.Consistent)
    (hstep : s.step conf event = .ok s') : s'.prober.Consistent := by
  cases moves_of_step hstep with
  | resolve => exact hs
  | client x hi => exact consistent_clientStep conf _ x hs
  | read =>
    unfold State.readSender
    split
    · exact hs
    · exact hs
  | tick hempty => exact hs.take hempty
  | sendTask accepted => exact hs.sendTask accepted
  | probe ok now hi =>
    cases ok with
    | true | false => exact hs.goesOn hi rfl
  | failed hi => exact hs.pushBack hi
  | restored hi => exact hs.remove hi

theorem targetFwders_sendTask (p : Prober) (accepted : Bool) :
    (p.sendTask accepted).targetFwders = p.targetFwders := by
  unfold Prober.sendTask
  split
  · rfl
  · split_ifs <;> rfl

/-- A step keeps what is covered exactly if it gives up none that is down again. -/
theorem covers_step_iff {event : Event} (hp : s.prober.Consistent) (hs : ∀ addr, s.Covers addr)
    (hstep : s.step conf event = .ok s') :
    (∀ addr, s'.Covers addr) ↔ crossesNoFailure s event = true := by
  cases moves_of_step hstep with
  | resolve => exact iff_of_true (fun addr => (hs addr).put _) rfl
  | client x hi => exact iff_of_true (fun addr => covers_clientStep (hs addr) hi) rfl
  | read =>
    refine iff_of_true (fun addr => ?_) rfl
    unfold State.readSender
    split
    · exact hs addr
    · exact hs addr
  | tick => exact iff_of_true hs rfl
  | sendTask accepted =>
    refine iff_of_true (fun addr => (hs addr).mono id (fun _ ht _ => ht) fun hmem => ?_) rfl
    rw [targetFwders_sendTask]
    exact hmem
  | @probe i a ok now hi =>
    refine iff_of_true (fun addr => ?_) rfl
    by_cases haddr : a = addr
    · -- The target of a worker is in the set, whatever its forwarder replies.
      subst haddr
      exact fun _ => .inr (hp.mem_of_worker hi)
    · exact (hs addr).setFwder fun h => absurd h haddr
  | failed hi => exact iff_of_true hs (by simp [crossesNoFailure, hi])
  | @restored i a hi =>
    have hcross : crossesNoFailure s (.finish i) = (!(s.fwders a).isDown || s.pending a) := by
      simp [crossesNoFailure, hi]
    have hremoved : a ∉ (s.prober.targetFwders.erase a) := hp.nodup.not_mem_erase
    rw [hcross, Bool.or_eq_true, Bool.not_eq_true']
    constructor
    · intro hcovers
      cases hdown : (s.fwders a).isDown with
      | false => exact .inl rfl
      | true => exact .inr ((hcovers a hdown).resolve_right hremoved)
    · intro hcond addr
      by_cases haddr : addr = a
      · subst haddr
        rcases hcond with hup | hpending
        · exact covers_of_up hup
        · exact fun _ => .inl hpending
      · exact (hs addr).mono id (fun _ ht _ => ht) fun hmem =>
          (mem_erase_of_ne haddr).mpr hmem

end covers

/-- What is down is always a target exactly if no worker gives up one that is down again. -/
theorem always_scheduled_iff (conf : Conf) (events : List Event) :
    (∀ s, Reached (State.step conf) .init events s → s.Scheduled) ↔
      Along (State.step conf) (fun s event => crossesNoFailure s event = true) .init events := by
  have hinit : State.init.prober.Consistent := ⟨nodup_nil, fun _ => rfl⟩
  have hcovers : ∀ addr, State.init.Covers addr := fun addr => covers_of_up rfl
  refine reached_iff_along (fun s => s.prober.Consistent) State.Scheduled ?_ ?_ events hinit
    ((scheduled_iff hinit).mpr hcovers)
  · intro s event s' hp hs hstep
    have hp' := hp.step hstep
    refine ⟨hp', ?_⟩
    rw [scheduled_iff hp']
    exact covers_step_iff hp ((scheduled_iff hp).mp hs) hstep
  · intro s event e _ _ hstep
    cases event with
    | finish i =>
      simp only [crossesNoFailure]
      split
      · next hi => simp [State.step, hi] at hstep
      · rfl
    | _ => rfl

/-- What is a target waits or is with one worker, so no two workers probe it. -/
theorem probed_once (conf : Conf) {events : List Event} {s : State}
    (hreached : Reached (State.step conf) .init events s) :
    s.prober.holders.Nodup ∧ ∀ addr, addr ∈ s.prober.targetFwders ↔ addr ∈ s.prober.holders := by
  have hp : s.prober.Consistent := reached_invariant (fun s => s.prober.Consistent)
    (fun _ _ _ h hstep => h.step hstep) ⟨nodup_nil, fun _ => rfl⟩ hreached
  refine ⟨nodup_iff_count_le_one.mpr fun addr => ?_, fun addr => ?_⟩
  · rw [hp.count]
    exact nodup_iff_count_le_one.mp hp.nodup addr
  · rw [← count_pos_iff, ← hp.count, count_pos_iff]

def groupConf : Conf where
  querySource _ := "10.0.0.1"
  stub := false
  forwarder := true
  masters _ _ := none
  fwder _ _ := some (.group ["a", "b"])
  bearableFailInterval := 5

/-- A client gets no reply from `a` at this time, and calls `IsDown`. -/
def missesReply (i : ℕ) (now : ℤ) : List Event :=
  .resolve "v" ["example"] :: (List.replicate 6 (.client i ⟨true, none, 0⟩) ++
    [.client i ⟨true, some "a", 0⟩, .client i ⟨true, none, 0⟩, .client i ⟨false, none, now⟩,
      .client i ⟨true, none, 0⟩])

/-- `a` replies, and goes down again before the worker has taken it out of the set. -/
def downAgain : List Event :=
  missesReply 0 1 ++ missesReply 1 10 ++ [.client 1 ⟨true, none, 0⟩, .tick, .sendTask true,
    .probe 0 true 20] ++ missesReply 2 30 ++ missesReply 3 40 ++ [.client 3 ⟨true, none, 0⟩,
    .finish 0]

theorem example_one_worker :
    ∃ s, Reached (State.step groupConf) .init downAgain s ∧
      s.prober.workers.map Worker.addr = ["a"] ∧ s.prober.holders.Nodup := by
  have hreached : Reached (State.step groupConf) .init downAgain _ :=
    ⟨downAgain.take 25, take_prefix _ _, rfl⟩
  exact ⟨_, hreached, rfl, (probed_once groupConf hreached).1⟩

/-- Then it is down and nobody is going to probe it. -/
theorem example_down_unscheduled :
    ∃ s, run (State.step groupConf) .init downAgain = .ok s ∧ (s.fwders "a").isDown = true ∧
      s.pending "a" = false ∧ s.prober = ⟨[], [], [], []⟩ :=
  ⟨_, rfl, rfl, rfl, rfl⟩

end Vanguard.Forwarder
