import Mathlib.Data.List.Nodup
import Vanguard.Library.Runs
import Vanguard.Library.Threads
import Vanguard.Server.Transport

namespace Vanguard.Server

open Library List

variable {B : Type} {cfg : Config B}

def Transport.admitted (s : Transport B) : List ℕ := s.admitting ++ s.unfinished ++ s.finished

structure Inv (cfg : Config B) (s : Transport B) : Prop where
  nodup : s.admitted.Nodup
  lt : ∀ conn ∈ s.admitted, conn < s.next
  balance : s.tcpConnCount + s.released.length = s.unfinished.length + s.finished.length
  released : s.released.Subperm s.finished
  /-- The count exceeds the limit only by accept loops that read it at the same time. -/
  bounded : s.tcpConnCount + s.admitting.length ≤ maxConcurrentTCPConn - 1 + cfg.listeners

variable {s : Transport B}

theorem Inv.accounted_iff (h : Inv cfg s) :
    s.Accounted ↔ s.finished.length = s.released.length := by
  have hnodup : (s.unfinished ++ s.finished).Nodup := by
    have hall := h.nodup
    rw [Transport.admitted, append_assoc] at hall
    exact (nodup_append.mp hall).2.1
  obtain ⟨-, hfinished, hdisjoint⟩ := nodup_append.mp hnodup
  have hbalance := h.balance
  constructor
  · intro hacc
    have hcount := hacc.count
    omega
  · intro hlength
    have hperm : s.released.Perm s.finished := h.released.perm_of_length_le (by omega)
    refine ⟨by omega, fun conn hconn => ?_, fun conn hconn => ?_⟩
    · rw [hperm.count_eq]
      exact count_eq_one_of_mem hfinished hconn
    · rw [hperm.count_eq]
      exact count_eq_zero.mpr fun hmem => hdisjoint conn hconn conn hmem rfl

theorem Inv.move {s s' : Transport B} (h : Inv cfg s)
    (hcount : ∀ c, s'.admitted.count c = s.admitted.count c) (hnext : s'.next = s.next)
    (hsum : s'.tcpConnCount + s'.admitting.length + s'.released.length =
      s.tcpConnCount + s.admitting.length + s.released.length)
    (hreleased : s'.released.Subperm s'.finished)
    (hle : s.released.length ≤ s'.released.length) : Inv cfg s' := by
  have hperm : s'.admitted.Perm s.admitted := perm_iff_count.mpr hcount
  have hlength := hperm.length_eq
  simp only [Transport.admitted, length_append] at hlength
  have hbalance := h.balance
  have hbounded := h.bounded
  refine ⟨hperm.nodup_iff.mpr h.nodup, fun conn hconn => ?_, by omega, hreleased, by omega⟩
  rw [hnext]
  exact h.lt conn (hperm.mem_iff.mp hconn)

theorem processMessage_eq (cfg : Config B) (s : Transport B) (q : Message B) (outcome : Outcome) :
    (cfg.Answers q outcome ∧ s.processMessage cfg q outcome = s.sendResponse q) ∨
      (¬cfg.Answers q outcome ∧ s.processMessage cfg q outcome = s) := by
  unfold Transport.processMessage Config.Answers
  cases hwire : cfg.fromWire q.buf with
  | error | panics => simp
  | request opcode =>
    by_cases hdispatch : cfg.dispatches opcode = true
    · cases outcome <;> simp [hdispatch]
    · simp [hdispatch]

section

variable (h : Inv cfg s)

include h

theorem Inv.accept (hroom : s.admitting.length < cfg.listeners)
    (hcount : s.tcpConnCount < maxConcurrentTCPConn) :
    Inv cfg { s with next := s.next + 1, admitting := s.admitting ++ [s.next] } := by
  have hperm : ({ s with next := s.next + 1, admitting := s.admitting ++ [s.next] } :
      Transport B).admitted.Perm (s.next :: s.admitted) := by
    refine perm_iff_count.mpr fun c => ?_
    simp only [Transport.admitted, Transport.unfinished, count_append, count_cons, count_nil]
    omega
  refine ⟨hperm.nodup_iff.mpr (nodup_cons.mpr ⟨fun hmem => ?_, h.nodup⟩), fun conn hconn => ?_,
    h.balance, h.released, ?_⟩
  · exact absurd (h.lt _ hmem) (Nat.lt_irrefl _)
  · rcases mem_cons.mp (hperm.mem_iff.mp hconn) with rfl | hold
    · exact Nat.lt_succ_self _
    · exact Nat.lt_succ_of_lt (h.lt conn hold)
  · simp only [length_append, length_singleton]
    omega

theorem Inv.refuse : Inv cfg { s with next := s.next + 1 } :=
  ⟨h.nodup, fun conn hconn => Nat.lt_succ_of_lt (h.lt conn hconn), h.balance, h.released, h.bounded⟩

variable {i conn : ℕ}

theorem Inv.grant (hi : s.admitting[i]? = some conn) :
    Inv cfg { s with tcpConnCount := s.tcpConnCount + 1, admitting := s.admitting.eraseIdx i,
                     reading := s.reading ++ [conn] } := by
  refine h.move (fun c => ?_) rfl ?_ h.released le_rfl
  · have hcount := (perm_eraseIdx hi).count_eq c
    simp only [Transport.admitted, Transport.unfinished, count_append, count_cons,
      count_nil] at hcount ⊢
    omega
  · have hlength := (perm_eraseIdx hi).length_eq
    simp only [length_cons] at hlength ⊢
    omega

theorem Inv.readFails (hi : s.reading[i]? = some conn) :
    Inv cfg ({ s with reading := s.reading.eraseIdx i,
                      finished := s.finished ++ [conn] }.releaseConn conn) := by
  refine h.move (fun c => ?_) rfl ?_ ((subperm_append_right [conn]).mpr h.released) ?_
  · have hcount := (perm_eraseIdx hi).count_eq c
    simp only [Transport.admitted, Transport.unfinished, Transport.releaseConn, count_append,
      count_cons, count_nil] at hcount ⊢
    omega
  · simp only [Transport.releaseConn, length_append, length_singleton]
    omega
  · simp [Transport.releaseConn]

theorem Inv.read (hi : s.reading[i]? = some conn) (buf : B) :
    Inv cfg { s with reading := s.reading.eraseIdx i,
                     messageChan := s.messageChan ++ [⟨true, conn, buf⟩] } := by
  refine h.move (fun c => ?_) rfl rfl h.released le_rfl
  have hcount := (perm_eraseIdx hi).count_eq c
  simp only [Transport.admitted, Transport.unfinished, Message.tcpConn, filterMap_append,
    filterMap_cons, filterMap_nil, if_true, count_append, count_cons, count_nil] at hcount ⊢
  omega

theorem Inv.datagram (socket : ℕ) (buf : B) :
    Inv cfg { s with messageChan := s.messageChan ++ [⟨false, socket, buf⟩] } := by
  refine h.move (fun c => ?_) rfl rfl h.released le_rfl
  simp [Transport.admitted, Transport.unfinished, Message.tcpConn]

variable {q : Message B}

theorem Inv.receive {messageChan : List (Message B)} (hchan : s.messageChan = q :: messageChan) :
    Inv cfg { s with messageChan, handling := s.handling ++ [q] } := by
  refine h.move (fun c => ?_) rfl rfl h.released le_rfl
  cases hconn : q.tcpConn <;>
    simp only [Transport.admitted, Transport.unfinished, hchan, hconn, filterMap_append,
      filterMap_cons, filterMap_nil, count_append, count_cons, count_nil] <;> omega

theorem Inv.finish (hi : s.handling[i]? = some q) :
    Inv cfg { s with handling := s.handling.eraseIdx i,
                     finished := s.finished ++ q.tcpConn.toList } := by
  have hreleased : s.released.Subperm (s.finished ++ q.tcpConn.toList) :=
    h.released.trans (sublist_append_left _ _).subperm
  refine h.move (fun c => ?_) rfl rfl hreleased le_rfl
  have hcount := count_filterMap_eraseIdx Message.tcpConn hi c
  simp only [Transport.admitted, Transport.unfinished, count_append] at hcount ⊢
  omega

theorem Inv.release {finished : List ℕ} (hfinished : s.finished = finished ++ [conn])
    (hreleased : s.released.Subperm finished) : Inv cfg (s.releaseConn conn) := by
  have hbalance := h.balance
  refine ⟨h.nodup, h.lt, ?_, ?_, ?_⟩
  · have hunfinished : (s.releaseConn conn).unfinished = s.unfinished := rfl
    have hcount : (s.releaseConn conn).tcpConnCount = s.tcpConnCount - 1 := rfl
    have hlog : (s.releaseConn conn).released.length = s.released.length + 1 := length_append
    have hdone : (s.releaseConn conn).finished = s.finished := rfl
    rw [hunfinished, hcount, hlog, hdone]
    omega
  · simp only [Transport.releaseConn, hfinished]
    exact (subperm_append_right [conn]).mpr hreleased
  · have hbounded := h.bounded
    simp only [Transport.releaseConn]
    omega

/-- Slots stay accounted for exactly if the message was not TCP or is answered. -/
theorem process_spec {mid : Transport B} (hi : s.handling[i]? = some q)
    (outcome : Outcome)
    (hmid : { s with
      handling := s.handling.eraseIdx i, finished := s.finished ++ q.tcpConn.toList } = mid) :
    Inv cfg (mid.processMessage cfg q outcome) ∧ (s.finished.length = s.released.length →
      ((mid.processMessage cfg q outcome).finished.length =
        (mid.processMessage cfg q outcome).released.length ↔
        (q.usingTCP = true → cfg.Answers q outcome))) := by
  have hfinish : Inv cfg mid := hmid ▸ h.finish hi
  have hmidFinished : mid.finished = s.finished ++ q.tcpConn.toList := by rw [← hmid]
  have hmidReleased : mid.released = s.released := by rw [← hmid]
  cases htcp : q.usingTCP with
  | false =>
    have hsame : mid.processMessage cfg q outcome = mid := by
      rcases processMessage_eq cfg mid q outcome with ⟨-, heq⟩ | ⟨-, heq⟩
      · simp [heq, Transport.sendResponse, htcp]
      · exact heq
    rw [hsame]
    refine ⟨hfinish, fun hlength => ⟨fun _ => nofun, fun _ => ?_⟩⟩
    simp [hmidFinished, hmidReleased, Message.tcpConn, htcp, hlength]
  | true =>
    have hconn : mid.finished = s.finished ++ [q.conn] := by
      simp [hmidFinished, Message.tcpConn, htcp]
    rcases processMessage_eq cfg mid q outcome with ⟨hanswers, heq⟩ | ⟨hanswers, heq⟩
    · rw [heq, Transport.sendResponse, if_pos htcp]
      refine ⟨hfinish.release hconn (hmidReleased ▸ h.released),
        fun hlength => ⟨fun _ _ => hanswers, fun _ => ?_⟩⟩
      simp [Transport.releaseConn, hconn, hmidReleased, hlength]
    · rw [heq]
      refine ⟨hfinish, fun hlength => ⟨fun hequal => ?_, fun hall => absurd (hall rfl) hanswers⟩⟩
      simp [hconn, hmidReleased, hlength] at hequal

/-- An action keeps the slots exactly if it leaves no TCP message without an answer. -/
theorem step_spec {s' : Transport B} {e : Event B} (heq : s.step cfg e = .ok s') :
    Inv cfg s' ∧ (s.finished.length = s.released.length →
      (s'.finished.length = s'.released.length ↔ s.AnswersTcp cfg e)) := by
  have hsame (hlength : s.finished.length = s.released.length) :
      s.finished.length = s.released.length ↔ True := iff_of_true hlength trivial
  cases e with
  | accept =>
    simp only [Transport.step] at heq
    split at heq
    · next hroom =>
      split at heq
      · next hcount =>
        cases heq
        exact ⟨h.accept hroom hcount, hsame⟩
      · cases heq
        exact ⟨h.refuse, hsame⟩
    · cases heq
  | grant i =>
    simp only [Transport.step] at heq
    split at heq
    · next conn hi =>
      cases heq
      exact ⟨h.grant hi, hsame⟩
    · cases heq
  | readFails i =>
    simp only [Transport.step] at heq
    split at heq
    · next conn hi =>
      cases heq
      refine ⟨h.readFails hi, fun hlength => ⟨fun _ => trivial, fun _ => ?_⟩⟩
      simp [Transport.releaseConn, hlength]
    · cases heq
  | read i buf =>
    simp only [Transport.step] at heq
    split at heq
    · next conn hi =>
      split at heq
      · cases heq
        exact ⟨h.read hi buf, hsame⟩
      · cases heq
    · cases heq
  | datagram socket buf =>
    simp only [Transport.step] at heq
    split at heq
    · cases heq
      exact ⟨h.datagram socket buf, hsame⟩
    · cases heq
      exact ⟨h, hsame⟩
  | receive =>
    simp only [Transport.step] at heq
    split at heq
    · next q messageChan hchan =>
      split at heq
      · cases heq
        exact ⟨h.receive hchan, hsame⟩
      · cases heq
    · cases heq
  | process i outcome =>
    simp only [Transport.step] at heq
    split at heq
    · next q hi =>
      cases heq
      obtain ⟨hinv, hiff⟩ := process_spec h hi outcome rfl
      refine ⟨hinv, fun hlength => (hiff hlength).trans ⟨fun hall q' hq' => ?_,
        fun hall => hall q hi⟩⟩
      cases hi.symm.trans hq'
      exact hall
    · cases heq

end

theorem Inv.new : Inv cfg (newTransport : Transport B) :=
  ⟨nodup_nil, nofun, rfl, List.Subperm.refl _,
    by simp only [newTransport, maxConcurrentTCPConn, length_nil]; omega⟩

theorem Inv.reached {events : List (Event B)}
    (hreached : Reached (Transport.step cfg) newTransport events s) : Inv cfg s :=
  reached_invariant (Inv cfg) (fun _ _ _ h heq => (step_spec h heq).1) Inv.new hreached

/-- Accept loops that read the count at the same time exceed the limit by at most one each. -/
theorem tcpConnCount_bounds (cfg : Config B) (events : List (Event B))
    (hreached : Reached (Transport.step cfg) newTransport events s) :
    0 ≤ s.tcpConnCount ∧ s.tcpConnCount ≤ maxConcurrentTCPConn - 1 + cfg.listeners := by
  have hinv : Inv cfg s := .reached hreached
  have hbalance := hinv.balance
  have hlength := hinv.released.length_le
  have hbounded := hinv.bounded
  omega

/-- The slots are accounted for exactly if no TCP message is left without an answer. -/
theorem slots_accounted_iff (cfg : Config B) (events : List (Event B)) :
    (∀ s, Reached (Transport.step cfg) newTransport events s → s.Accounted) ↔
      Along (Transport.step cfg) (Transport.AnswersTcp cfg) newTransport events := by
  have hnew : Inv cfg newTransport := Inv.new
  refine reached_iff_along (Inv cfg) Transport.Accounted ?_ ?_ events hnew
    (hnew.accounted_iff.mpr rfl)
  · intro s e s' hinv hacc heq
    obtain ⟨hinv', hiff⟩ := step_spec hinv heq
    exact ⟨hinv', hinv'.accounted_iff.trans (hiff (hinv.accounted_iff.mp hacc))⟩
  · intro s e err _ _ heq
    cases e with
    | process i outcome =>
      intro q hi
      simp [Transport.step, Option.mem_def.mp hi] at heq
    | _ => trivial

def exampleConfig : Config Opcode := ⟨1, 0, .request, false⟩

def exampleConnection (opcode : Opcode) (outcome : Outcome) : List (Event Opcode) :=
  [.accept, .grant 0, .read 0 opcode, .receive, .process 0 outcome]

theorem example_one_connection_counted :
    ∃ s, Reached (Transport.step exampleConfig) newTransport [.accept, .grant 0] s ∧
      s.tcpConnCount = 1 ∧ 0 ≤ s.tcpConnCount ∧ s.tcpConnCount ≤ 512 := by
  have hreached : Reached (Transport.step exampleConfig) newTransport [.accept, .grant 0]
      ⟨1, 1, [], [0], [], [], [], []⟩ := ⟨_, prefix_rfl, rfl⟩
  exact ⟨_, hreached, rfl, tcpConnCount_bounds _ _ hreached⟩

/-- A connection whose query is answered gives its slot back. -/
theorem example_answered_accounted :
    ∃ s, Reached (Transport.step exampleConfig) newTransport
      (exampleConnection .query .response) s ∧ s.finished = [0] ∧ s.Accounted := by
  obtain ⟨s, hrun, hfinished⟩ : ∃ s, run (Transport.step exampleConfig) newTransport
      (exampleConnection .query .response) = .ok s ∧ s.finished = [0] := ⟨_, rfl, rfl⟩
  refine ⟨s, ⟨_, prefix_rfl, hrun⟩, hfinished, ?_⟩
  exact (slots_accounted_iff exampleConfig (exampleConnection .query .response)).mpr (by decide) s
    ⟨_, prefix_rfl, hrun⟩

def KeepsSlot (events : List (Event Opcode)) : Prop :=
  ∃ s, Reached (Transport.step exampleConfig) newTransport events s ∧ ¬s.Accounted ∧
    s.tcpConnCount = 1 ∧ s.unfinished = [] ∧ s.finished = [0] ∧ s.released = []

theorem keepsSlot_of_run {events : List (Event Opcode)}
    (hrun : run (Transport.step exampleConfig) newTransport events =
      .ok ⟨1, 1, [], [], [], [], [], [0]⟩) : KeepsSlot events := by
  refine ⟨_, ⟨events, prefix_rfl, hrun⟩, fun hacc => ?_, rfl, rfl, rfl, rfl⟩
  exact absurd hacc.count (by decide)

/-- A query without a response keeps its slot, and so does a handler that panics. -/
theorem example_unanswered_keeps_slot :
    KeepsSlot (exampleConnection .query .noResponse) ∧
      KeepsSlot (exampleConnection .notify .response) ∧
      KeepsSlot (exampleConnection .query .panics) :=
  ⟨keepsSlot_of_run (by decide), keepsSlot_of_run (by decide), keepsSlot_of_run (by decide)⟩

section exhausted

theorem processMessage_frame (q : Message B) (outcome : Outcome) :
    (s.processMessage cfg q outcome).admitting = s.admitting ∧
      (s.processMessage cfg q outcome).finished = s.finished ∧
      (s.processMessage cfg q outcome).released.length ≤
        s.released.length + q.tcpConn.toList.length := by
  rcases processMessage_eq cfg s q outcome with ⟨-, heq⟩ | ⟨-, heq⟩
  · rw [heq, Transport.sendResponse, Message.tcpConn]
    split <;> simp [Transport.releaseConn]
  · simp [heq]

/-- A full server admits no connection, and what was not released stays so. -/
theorem step_full {s' : Transport B} {e : Event B}
    (hfull : maxConcurrentTCPConn ≤ s.tcpConnCount) (heq : s.step cfg e = .ok s') :
    s'.admitting.Sublist s.admitting ∧
      s.finished.length + s'.released.length ≤ s'.finished.length + s.released.length := by
  cases e with
  | process i outcome =>
    simp only [Transport.step] at heq
    split at heq
    · next q hi =>
      cases heq
      grind [processMessage_frame]
    · cases heq
  | _ => grind [Transport.step, Transport.releaseConn, eraseIdx_sublist]

theorem Inv.full (h : Inv cfg s)
    (hlost : s.released.length + maxConcurrentTCPConn ≤ s.finished.length) :
    maxConcurrentTCPConn ≤ s.tcpConnCount := by
  have hbalance := h.balance
  omega

/-- With as many connections left without an answer as there are slots, none is admitted again. -/
theorem exhausted_refuses {events later : List (Event B)} {s' : Transport B}
    (hreached : Reached (Transport.step cfg) newTransport events s)
    (hlost : s.released.length + maxConcurrentTCPConn ≤ s.finished.length)
    (hlater : Reached (Transport.step cfg) s later s') :
    s'.admitting.Sublist s.admitting ∧ maxConcurrentTCPConn ≤ s'.tcpConnCount := by
  have hrun := reached_invariant (fun x : Transport B => Inv cfg x ∧
      x.released.length + maxConcurrentTCPConn ≤ x.finished.length ∧
      x.admitting.Sublist s.admitting) ?_ ⟨.reached hreached, hlost, .refl _⟩ hlater
  · exact ⟨hrun.2.2, hrun.1.full hrun.2.1⟩
  · rintro x e x' ⟨hx, hlost, hsub⟩ heq
    obtain ⟨hnone, hmore⟩ := step_full (hx.full hlost) heq
    exact ⟨(step_spec hx heq).1, by omega, hnone.trans hsub⟩

theorem run_unanswered {n : ℕ} (hn : n ≤ 512) :
    run (Transport.step exampleConfig) newTransport
      (replicate n (exampleConnection .query .noResponse)).flatten =
        .ok ⟨n, n, [], [], [], [], [], range n⟩ := by
  induction n with
  | zero => rfl
  | succ n ih =>
    rw [replicate_succ', flatten_append, flatten_singleton, run_append]
    refine ⟨_, ih (Nat.le_of_succ_le hn), ?_⟩
    have hfree : (n : ℤ) < maxConcurrentTCPConn := Int.ofNat_lt.mpr hn
    simp [exampleConnection, run, Transport.step, hfree, exampleConfig, Config.handlers,
      defaultHandlerCount, Transport.processMessage, Config.dispatches, Message.tcpConn,
      range_succ]

/-- 512 queries without a response close the server for TCP. -/
theorem example_unanswered_exhaust :
    ∃ events s, Reached (Transport.step exampleConfig) newTransport events s ∧
      s.admitting = [] ∧ ∀ later s', Reached (Transport.step exampleConfig) s later s' →
        s'.admitting = [] := by
  have hreached : Reached (Transport.step exampleConfig) newTransport _ _ :=
    ⟨_, prefix_rfl, run_unanswered (le_refl 512)⟩
  refine ⟨_, _, hreached, rfl, fun later s' hlater => sublist_nil.mp ?_⟩
  exact (exhausted_refuses hreached (by simp [maxConcurrentTCPConn]) hlater).1

end exhausted

end Vanguard.Server
