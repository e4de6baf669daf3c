import Vanguard.Forwarder.Machine

namespace Vanguard.Forwarder

open Library List

def HasSender (fwders : String → SafeUDPFwder) (addr : String) : Prop :=
  (fwders addr).fwder.isSome = true

section

variable (conf : Conf)

def Thread.equipped (t : Thread) : List String :=
  match t.phase with
  | .stub | .masters | .forward => []
  | .setting todo => (t.candidates conf).filter fun a => !todo.contains a
  | .storing addr todo => (t.candidates conf).filter fun a => !(addr :: todo).contains a
  | .selecting _ => t.candidates conf
  | .querying addr _ | .waiting addr _ | .checking addr _ _ | .adding addr _ _ =>
    addr :: t.candidates conf

def Prober.known (p : Prober) : List String :=
  p.targets ++ p.probeTargets ++ p.workers.map Worker.addr

structure State.Equipped (s : State) : Prop where
  threads : ∀ t ∈ s.threads, ∀ a ∈ t.equipped conf, HasSender s.fwders a
  down : ∀ a, (s.fwders a).isDown = true → HasSender s.fwders a
  prober : ∀ a ∈ s.prober.known, HasSender s.fwders a

end

variable {conf : Conf} {s : State} {t : Thread}

theorem State.Equipped.put (hs : s.Equipped conf)
    (ht : ∀ a ∈ t.equipped conf, HasSender s.fwders a) : (s.put t).Equipped conf :=
  ⟨forall_mem_append.mpr ⟨hs.threads, forall_mem_singleton.mpr ht⟩, hs.down, hs.prober⟩

theorem State.Equipped.eraseIdx (hs : s.Equipped conf) (i : ℕ) :
    State.Equipped conf { s with threads := s.threads.eraseIdx i } :=
  ⟨fun t ht => hs.threads t (mem_of_mem_eraseIdx ht), hs.down, hs.prober⟩

theorem State.Equipped.setProber (hs : s.Equipped conf) {p : Prober}
    (hp : ∀ a ∈ p.known, a ∈ s.prober.known ∨ HasSender s.fwders a) :
    State.Equipped conf { s with prober := p } :=
  ⟨hs.threads, hs.down, fun a ha => (hp a ha).elim (hs.prober a) id⟩

theorem hasSender_setFwder {addr a : String} {f : SafeUDPFwder} (hf : f.fwder.isSome = true)
    (ha : HasSender s.fwders a ∨ a = addr) : HasSender (s.setFwder addr f).fwders a := by
  unfold HasSender
  by_cases haddr : a = addr
  · rw [haddr, State.fwders_setFwder_self]
    exact hf
  · rw [State.fwders_setFwder_of_ne s f haddr]
    exact ha.resolve_right haddr

variable {addr : String}

theorem State.Equipped.setFwder (hs : s.Equipped conf) {f : SafeUDPFwder}
    (hf : f.fwder.isSome = true) : (s.setFwder addr f).Equipped conf := by
  refine ⟨fun t ht a ha => hasSender_setFwder hf (.inl (hs.threads t ht a ha)), fun a hdown => ?_,
    fun a ha => hasSender_setFwder hf (.inl (hs.prober a ha))⟩
  by_cases haddr : a = addr
  · exact hasSender_setFwder hf (.inr haddr)
  · rw [State.fwders_setFwder_of_ne s f haddr] at hdown
    exact hasSender_setFwder hf (.inl (hs.down a hdown))

theorem State.Equipped.retry (hs : s.Equipped conf)
    (ht : ∀ a ∈ t.candidates conf, HasSender s.fwders a) (tries : ℕ) (err : Bool) :
    (t.retry tries err s).Equipped conf := by
  unfold Thread.retry
  split_ifs
  · exact hs.put ht
  · exact hs

theorem State.Equipped.store (hs : s.Equipped conf) {todo : List String}
    (ht : ∀ a ∈ t.candidates conf, a ∉ addr :: todo → HasSender s.fwders a) :
    (t.store conf addr todo s).Equipped conf := by
  have hset : (s.setFwder addr ((s.fwders addr).setQuerySource (conf.querySource t.view))).Equipped
      conf := hs.setFwder rfl
  have hcandidates : ∀ a ∈ t.candidates conf, a ∉ todo → HasSender
      (s.setFwder addr ((s.fwders addr).setQuerySource (conf.querySource t.view))).fwders a := by
    intro a ha htodo
    refine hasSender_setFwder rfl ?_
    by_cases haddr : a = addr
    · exact .inr haddr
    · exact .inl (ht a ha (by simp [haddr, htodo]))
  unfold Thread.store
  dsimp only
  split
  · refine hset.put fun a ha => ?_
    obtain ⟨hmem, htodo⟩ := mem_filter.mp ha
    exact hcandidates a hmem (by simpa using htodo)
  · next hone =>
    -- A single forwarder: there are no others to choose from.
    refine hset.put (forall_mem_cons.mpr ⟨hasSender_setFwder rfl (.inr rfl), ?_⟩)
    unfold Thread.candidates
    dsimp only
    split
    · next addrs hgroup => exact absurd hgroup (hone addrs)
    · simp

theorem Thread.GoesTo.equipped {x : Input} {phase : Phase} (h : t.GoesTo conf x s phase)
    (ht : ∀ a ∈ t.equipped conf, HasSender s.fwders a)
    (hdown : ∀ a, (s.fwders a).isDown = true → HasSender s.fwders a) :
    ∀ a ∈ Thread.equipped conf { t with phase }, HasSender s.fwders a := by
  intro a ha
  unfold Thread.equipped at ht
  cases h with
  | forward => cases ha
  | one _ hone => simp [Thread.equipped, Thread.candidates, hone] at ha
  | group _ hgroup => simp [Thread.equipped, Thread.candidates, hgroup] at ha
  | set hphase =>
    rw [hphase] at ht
    exact ht a (mem_filter.mpr ⟨ha, rfl⟩)
  | @pass addr todo hphase hpassed =>
    rw [hphase] at ht
    obtain ⟨hmem, htodo⟩ := mem_filter.mp ha
    by_cases haddr : a = addr
    · rw [haddr]
      exact hdown addr hpassed
    · exact ht a (mem_filter.mpr ⟨hmem, by simpa [haddr] using htodo⟩)
  | store hphase | again hphase | down hphase =>
    rw [hphase] at ht
    exact ht a ha
  | choose hphase _ hchosen =>
    rw [hphase] at ht
    exact forall_mem_cons.mpr ⟨ht _ hchosen, ht⟩ a ha

theorem mem_known_pushBack {p : Prober} {a : String} :
    a ∈ (p.pushBack addr).known ↔ a ∈ p.known ∨ a = addr := by
  simp only [Prober.known, Prober.pushBack, mem_append, mem_singleton]
  tauto

theorem State.Equipped.clientStep {i : ℕ} (hs : s.Equipped conf) (hi : s.threads[i]? = some t)
    (x : Input) : (t.step conf x { s with threads := s.threads.eraseIdx i }).Equipped conf := by
  have ht := hs.threads t (mem_of_getElem? hi)
  have hrest := hs.eraseIdx i
  have hsame : ∀ stubSender readers sent, State.Equipped conf { s with
      threads := s.threads.eraseIdx i, stubSender, readers, sent } :=
    fun _ _ _ => ⟨hrest.threads, hrest.down, hrest.prober⟩
  have hcandidates : ∀ {addr : String} {l : List String}, t.equipped conf = addr :: l →
      HasSender s.fwders addr ∧ ∀ a ∈ l, HasSender s.fwders a := by
    intro addr l hl
    rw [hl] at ht
    exact forall_mem_cons.mp ht
  generalize hstep : t.step conf x _ = s'
  cases Thread.moves_of_step hstep with
  | ends => exact hrest
  | setStub => exact (hsame _ _ _).put fun a ha => by cases ha
  | askMasters => exact hsame _ _ _
  | goesOn hgoes => exact hrest.put (hgoes.equipped ht hs.down)
  | stored hphase =>
    unfold Thread.equipped at ht
    rw [hphase] at ht
    exact hrest.store fun a ha htodo => ht a (mem_filter.mpr ⟨ha, by simpa using htodo⟩)
  | queried hphase =>
    unfold Thread.equipped at ht
    rw [hphase] at ht
    exact (hsame _ _ _).put ht
  | replied hphase =>
    obtain ⟨haddr, hothers⟩ := hcandidates (by rw [Thread.equipped, hphase])
    have hsender := haddr
    rw [HasSender, ← SafeUDPFwder.fwder_checkStatus conf.bearableFailInterval x.now (!x.ok)]
      at hsender
    refine (hrest.setFwder hsender).put fun a ha => hasSender_setFwder hsender (.inl ?_)
    exact forall_mem_cons.mpr ⟨haddr, hothers⟩ a ha
  | checked hphase =>
    obtain ⟨-, hothers⟩ := hcandidates (by rw [Thread.equipped, hphase])
    exact hrest.retry hothers _ _
  | @added addr tries err hphase =>
    obtain ⟨haddr, hothers⟩ := hcandidates (by rw [Thread.equipped, hphase])
    have hprobed : State.Equipped conf { s with
        threads := s.threads.eraseIdx i, prober := s.prober.addProbe addr } := by
      refine hrest.setProber fun a ha => ?_
      unfold Prober.addProbe at ha
      split_ifs at ha
      · exact .inl ha
      · rcases mem_known_pushBack.mp ha with hold | rfl
        · exact .inl hold
        · exact .inr haddr
    exact hprobed.retry hothers tries err

theorem known_take (p : Prober) : ∀ a ∈ p.take.known, a ∈ p.known := by
  intro a ha
  simp only [Prober.known, Prober.take, mem_append] at ha
  rcases ha with (ha | ha) | ha
  · exact mem_append_left _ (mem_append_left _ (mem_of_mem_drop ha))
  · exact mem_append_left _ (mem_append_left _ (mem_of_mem_take ha))
  · exact mem_append_right _ ha

theorem known_sendTask (p : Prober) (accepted : Bool) :
    ∀ a ∈ (p.sendTask accepted).known, a ∈ p.known := by
  intro a ha
  unfold Prober.sendTask at ha
  split at ha
  · exact ha
  · next addr rest hrest =>
    simp only [Prober.known, hrest, mem_append, mem_cons]
    split_ifs at ha
    · simp only [Prober.known, mem_append, map_append, map_cons, map_nil,
        mem_singleton, Worker.addr] at ha
      tauto
    · have hold := mem_known_pushBack.mp ha
      simp only [Prober.known, mem_append] at hold
      tauto

theorem addr_mem_known {p : Prober} {i : ℕ} {w : Worker} (hi : p.workers[i]? = some w) :
    w.addr ∈ p.known :=
  mem_append_right _ (mem_map_of_mem (mem_of_getElem? hi))

theorem known_without (p : Prober) (i : ℕ) : ∀ a ∈ (p.without i).known, a ∈ p.known := by
  intro a ha
  simp only [Prober.known, Prober.without, mem_append, mem_map] at ha
  rcases ha with ha | ⟨w, hw, rfl⟩
  · exact mem_append_left _ (mem_append.mpr ha)
  · exact mem_append_right _ (mem_map_of_mem (mem_of_mem_eraseIdx hw))

theorem State.Equipped.step {s' : State} {event : Event} (hs : s.Equipped conf)
    (hstep : s.step conf event = .ok s') : s'.Equipped conf := by
  cases moves_of_step hstep with
  | resolve view name =>
    refine hs.put fun a ha => ?_
    unfold newThread at ha
    split_ifs at ha
    · cases ha
    · cases ha
  | client x hi => exact hs.clientStep hi x
  | read hi =>
    unfold State.readSender
    split
    · exact ⟨hs.threads, hs.down, hs.prober⟩
    · exact ⟨hs.threads, hs.down, hs.prober⟩
  | tick _ => exact hs.setProber fun a ha => .inl (known_take _ a ha)
  | sendTask accepted => exact hs.setProber fun a ha => .inl (known_sendTask _ accepted a ha)
  | @probe i addr ok now hi =>
    have haddr : HasSender s.fwders addr := hs.prober addr (addr_mem_known hi)
    have hsender : ((s.fwders addr).checkStatus conf.bearableFailInterval now (!ok)).fwder.isSome =
        true := by
      rw [SafeUDPFwder.fwder_checkStatus]
      exact haddr
    refine (hs.setFwder hsender).setProber fun a ha => ?_
    simp only [Prober.known, map_append, map_cons, map_nil] at ha
    rw [← append_assoc, mem_append, mem_singleton] at ha
    rcases ha with ha | rfl
    · exact .inl (known_without s.prober i a ha)
    · refine .inr (hasSender_setFwder hsender (.inr ?_))
      split_ifs <;> rfl
  | @failed i addr hi =>
    refine hs.setProber fun a ha => .inl ?_
    rcases mem_known_pushBack.mp ha with ha | rfl
    · exact known_without s.prober i a ha
    · exact addr_mem_known hi
  | restored hi => exact hs.setProber fun a ha => .inl (known_without s.prober _ a ha)

theorem hasSender_of_querying (conf : Conf) (events : List Event) {s : State}
    (hreached : Reached (State.step conf) .init events s) {t : Thread} (ht : t ∈ s.threads)
    {tries : ℕ} (hphase : t.phase = .querying addr tries) : HasSender s.fwders addr := by
  have hinit : State.init.Equipped conf :=
    ⟨by simp [State.init], by simp [State.init, SafeUDPFwder.new],
      by simp [State.init, Prober.known]⟩
  have hs : s.Equipped conf :=
    reached_invariant (State.Equipped conf) (fun _ _ _ hs hstep => hs.step hstep) hinit hreached
  refine hs.threads t ht addr ?_
  simp [Thread.equipped, hphase]

end Vanguard.Forwarder
