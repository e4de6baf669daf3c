import Vanguard.Library.Runs
import Vanguard.Library.Threads
import Vanguard.Recursor.Rounds
import Vanguard.Recursor.Sharing

/-!
# Waiting for the first name server

`getMissingNameServer` waits until a sub-query reports on `doneChan` or the time is over. The report
is a send that does not block, so it is lost if the caller has not come to its receive.
-/

namespace Vanguard.Recursor

open Library

def getARRsetFromAnswer (msg : Message Section) : Option (RRset Rdata) :=
  match msg.answer with
  | [rrset] => if rrset.typ = .a ∧ rrset.name = msg.question.name then some rrset else none
  | _ => none

inductive SubQuery where
  /-- In `handleQuery`, for the address of a server. -/
  | asking (server : Name)
  | sending
  | ended (added : Bool)
  deriving DecidableEq, Repr

def SubQuery.Succeeded : SubQuery → Prop
  | .asking _ => False
  | .sending => True
  | .ended added => added = true

instance : DecidablePred SubQuery.Succeeded
  | .asking _ => inferInstanceAs (Decidable False)
  | .sending => inferInstanceAs (Decidable True)
  | .ended added => inferInstanceAs (Decidable (added = true))

inductive CallerPhase where
  | starting (names : List Name) (outQuery : ℕ)
  | waiting
  /-- It has received from `doneChan`. -/
  | released
  | timedOut
  /-- It has returned without a `select`. -/
  | returned
  deriving DecidableEq, Repr

/-- The caller has not left `getMissingNameServer`. -/
def CallerPhase.Present : CallerPhase → Prop
  | .starting _ _ | .waiting => True
  | .released | .timedOut | .returned => False

/-- A call of `getMissingNameServer` with its sub-queries. -/
structure Gathering where
  nameServers : List NameServer
  wait : Bool
  caller : CallerPhase
  subQueries : List SubQuery
  inTime : List Name
  deriving DecidableEq, Repr

inductive GatherEvent where
  | next (available : Bool)
  | select
  /-- A sub-query returns at this time, with these entries in the cache. -/
  | answer (i : ℕ) (response : Option (Message Section)) (ns : NameServerManager) (at_ : Instant)
  | send (i : ℕ)
  /-- The timer of the `select`. -/
  | timeout

inductive GatherStop where
  | blocked
  /-- `cloneNameServers` panics. -/
  | noServers
  /-- `addNameServer` panics. -/
  | fault (f : Fault)
  deriving DecidableEq, Repr

namespace Gathering

/-- `getMissingNameServer` is called. -/
def start (ctx : RecursorCtx) (serverNames : List Name) (wait : Bool) : Gathering where
  nameServers := ctx.nameServers
  wait
  caller := if maxQueryDep < ctx.depth then .returned else .starting serverNames 0
  subQueries := []
  inTime := []

def step (hash : Name → UInt32) (g : Gathering) : GatherEvent → Except GatherStop Gathering
  | .next available =>
    match g.caller with
    | .starting (name :: names) outQuery =>
      if available then
        if g.nameServers = [] then .error .noServers
        else .ok { g with
          caller := .starting names (outQuery + 1), subQueries := g.subQueries ++ [.asking name] }
      else .ok { g with caller := .starting names outQuery }
    | _ => .error .blocked
  | .select =>
    match g.caller with
    | .starting [] outQuery =>
      .ok { g with caller := if g.wait = true ∧ 0 < outQuery then .waiting else .returned }
    | _ => .error .blocked
  | .answer i response ns at_ =>
    match g.subQueries[i]? with
    | some (.asking _) =>
      match response.bind getARRsetFromAnswer with
      | none => .ok { g with subQueries := g.subQueries.set i (.ended false) }
      | some glue =>
        match ns.addNameServer hash at_ 0 glue.name glue.ttl glue.rdatas .fromAuth with
        | .error f => .error (.fault f)
        | .ok _ => .ok { g with
            subQueries := g.subQueries.set i .sending
            inTime := match g.caller with
              | .starting _ _ | .waiting => g.inTime ++ [glue.name]
              | _ => g.inTime }
    | _ => .error .blocked
  | .send i =>
    match g.subQueries[i]? with
    | some .sending => .ok { g with
        subQueries := g.subQueries.set i (.ended true)
        -- Without a receiver the `default` branch is taken.
        caller := if g.caller = .waiting then .released else g.caller }
    | _ => .error .blocked
  | .timeout =>
    if g.caller = .waiting then .ok { g with caller := .timedOut } else .error .blocked

/-- While the caller waits, every sub-query with an entry is about to release it. -/
structure Woken (g : Gathering) : Prop where
  waiting : g.caller = .waiting → ∀ q ∈ g.subQueries, q.Succeeded → q = .sending
  timedOut : g.caller = .timedOut → g.inTime = []

/-- The caller waits before a sub-query succeeds, and the timer does not come between. -/
def InOrder (g : Gathering) : GatherEvent → Prop
  | .select => (∃ outQuery, 0 < outQuery ∧ g.caller = .starting [] outQuery) → g.wait = true →
    .ended true ∉ g.subQueries
  | .timeout => g.caller = .waiting → .sending ∉ g.subQueries
  | _ => True

def Recorded (g : Gathering) : Prop :=
  g.caller.Present → (g.inTime ≠ [] ↔ ∃ q ∈ g.subQueries, q.Succeeded)

inductive Moves (g : Gathering) : GatherEvent → Gathering → Prop where
  | started {name : Name} {names : List Name} {outQuery : ℕ}
    (hcaller : g.caller = .starting (name :: names) outQuery) :
    Moves g (.next true) { g with
      caller := .starting names (outQuery + 1), subQueries := g.subQueries ++ [.asking name] }
  | skipped {name : Name} {names : List Name} {outQuery : ℕ}
    (hcaller : g.caller = .starting (name :: names) outQuery) :
    Moves g (.next false) { g with caller := .starting names outQuery }
  | waits {outQuery : ℕ} (hcaller : g.caller = .starting [] outQuery) (hwait : g.wait = true)
    (hout : 0 < outQuery) : Moves g .select { g with caller := .waiting }
  | returns {outQuery : ℕ} (hcaller : g.caller = .starting [] outQuery)
    (hnot : ¬(g.wait = true ∧ 0 < outQuery)) : Moves g .select { g with caller := .returned }
  | failed {i : ℕ} {server : Name} {response : Option (Message Section)} {ns : NameServerManager}
    {at_ : Instant} (hi : g.subQueries[i]? = some (.asking server)) :
    Moves g (.answer i response ns at_) { g with subQueries := g.subQueries.set i (.ended false) }
  | added {i : ℕ} {server glue : Name} {response : Option (Message Section)}
    {ns : NameServerManager} {at_ : Instant} {inTime : List Name}
    (hi : g.subQueries[i]? = some (.asking server))
    (hpresent : g.caller.Present → inTime = g.inTime ++ [glue])
    (hgone : ¬g.caller.Present → inTime = g.inTime) :
    Moves g (.answer i response ns at_) { g with
      subQueries := g.subQueries.set i .sending, inTime }
  | released {i : ℕ} (hi : g.subQueries[i]? = some .sending) (hcaller : g.caller = .waiting) :
    Moves g (.send i) { g with
      subQueries := g.subQueries.set i (.ended true), caller := .released }
  | unheard {i : ℕ} (hi : g.subQueries[i]? = some .sending) (hcaller : g.caller ≠ .waiting) :
    Moves g (.send i) { g with subQueries := g.subQueries.set i (.ended true) }
  | timedOut (hcaller : g.caller = .waiting) : Moves g .timeout { g with caller := .timedOut }

variable {hash : Name → UInt32} {g g' : Gathering} {e : GatherEvent}

theorem moves_of_step (hstep : g.step hash e = .ok g') : g.Moves e g' := by
  cases e with
  | next available =>
    simp only [step] at hstep
    split at hstep
    · next hcaller =>
      cases available with
      | true =>
        rw [if_pos rfl] at hstep
        split at hstep
        · cases hstep
        · cases hstep
          exact .started hcaller
      | false =>
        cases hstep
        exact .skipped hcaller
    · cases hstep
  | select =>
    simp only [step] at hstep
    split at hstep
    · next hcaller =>
      cases hstep
      split
      · next hwait => exact .waits hcaller hwait.1 hwait.2
      · next hnot => exact .returns hcaller hnot
    · cases hstep
  | answer i response ns at_ =>
    simp only [step] at hstep
    split at hstep
    · next hi =>
      split at hstep
      · cases hstep
        exact .failed hi
      · next glue _ =>
        split at hstep
        · cases hstep
        · cases hstep
          refine .added hi (fun hpresent => (?_ : _ = g.inTime ++ [glue.name])) fun hgone => ?_
          · cases hcaller : g.caller <;> simp [hcaller, CallerPhase.Present] at hpresent ⊢
          · cases hcaller : g.caller <;> simp [hcaller, CallerPhase.Present] at hgone ⊢
    · cases hstep
  | send i =>
    simp only [step] at hstep
    split at hstep
    · next hi =>
      cases hstep
      split
      · next hcaller => exact .released hi hcaller
      · next hcaller => exact .unheard hi hcaller
    · cases hstep
  | timeout =>
    simp only [step] at hstep
    split at hstep
    · next hcaller =>
      cases hstep
      exact .timedOut hcaller
    · cases hstep

theorem Recorded.moves (h : g.Recorded) (hmoves : g.Moves e g') : g'.Recorded := by
  intro hpresent
  cases hmoves with
  | started hcaller =>
    have hiff := h (by rw [hcaller]; trivial)
    simp [hiff, SubQuery.Succeeded, or_and_right, exists_or]
  | skipped hcaller | waits hcaller => exact h (by rw [hcaller]; trivial)
  | returns => exact hpresent.elim
  | failed hi =>
    rw [h hpresent, exists_mem_set_iff hi, exists_mem_iff hi]
    simp [SubQuery.Succeeded]
  | added hi hinTime =>
    rw [exists_mem_set_iff hi]
    exact iff_of_true (by simp [hinTime hpresent]) (.inl trivial)
  | released => exact hpresent.elim
  | unheard hi =>
    rw [h hpresent, exists_mem_set_iff hi, exists_mem_iff hi]
    simp [SubQuery.Succeeded]
  | timedOut => exact hpresent.elim

theorem succeeded_iff {q : SubQuery} : q.Succeeded ↔ q = .sending ∨ q = .ended true := by
  cases q <;> simp [SubQuery.Succeeded]

theorem Woken.moves_iff (hwoken : g.Woken) (hrecorded : g.Recorded) (hmoves : g.Moves e g') :
    g'.Woken ↔ g.InOrder e := by
  cases hmoves with
  | started | skipped => exact iff_of_true ⟨by simp, by simp⟩ trivial
  | waits hcaller hwait hout =>
    constructor
    · intro h _ _ hmem
      cases h.waiting rfl _ hmem rfl
    · intro h
      refine ⟨fun _ q hq hsucceeded => ?_, by simp⟩
      rcases succeeded_iff.mp hsucceeded with rfl | rfl
      · rfl
      · exact absurd hq (h ⟨_, hout, hcaller⟩ hwait)
  | returns hcaller hnot =>
    refine iff_of_true ⟨by simp, by simp⟩ ?_
    rintro ⟨outQuery, hout, hcaller'⟩ hwait
    have heq := (CallerPhase.starting.inj (hcaller.symm.trans hcaller')).2
    exact absurd ⟨hwait, heq ▸ hout⟩ hnot
  | failed hi =>
    refine iff_of_true ⟨fun hcaller q hq hsucceeded => ?_, hwoken.timedOut⟩ trivial
    rcases List.mem_or_eq_of_mem_set hq with hq | rfl
    · exact hwoken.waiting hcaller q hq hsucceeded
    · cases hsucceeded
  | added hi _ hgone =>
    refine iff_of_true ⟨fun hcaller q hq hsucceeded => ?_, fun hcaller => ?_⟩ trivial
    · rcases List.mem_or_eq_of_mem_set hq with hq | rfl
      · exact hwoken.waiting hcaller q hq hsucceeded
      · rfl
    · have hnot : ¬g.caller.Present := by
        rw [show g.caller = .timedOut from hcaller]
        exact id
      rw [hgone hnot]
      exact hwoken.timedOut hcaller
  | released => exact iff_of_true ⟨by simp, by simp⟩ trivial
  | unheard hi hcaller =>
    exact iff_of_true ⟨fun hwaiting => absurd hwaiting hcaller, hwoken.timedOut⟩ trivial
  | timedOut hcaller =>
    have hiff := hrecorded (by rw [hcaller]; trivial)
    have hsucceeded : (∃ q ∈ g.subQueries, q.Succeeded) ↔ .sending ∈ g.subQueries := by
      constructor
      · rintro ⟨q, hq, hsucceeded⟩
        exact hwoken.waiting hcaller q hq hsucceeded ▸ hq
      · exact fun hmem => ⟨_, hmem, trivial⟩
    rw [hsucceeded] at hiff
    constructor
    · exact fun h _ hmem => hiff.mpr hmem (h.timedOut rfl)
    · exact fun h => ⟨by simp, fun _ => not_not.mp fun hne => h hcaller (hiff.mp hne)⟩

theorem inOrder_of_error {stop : GatherStop} (hstep : g.step hash e = .error stop) :
    g.InOrder e := by
  cases e with
  | select =>
    rintro ⟨outQuery, -, hcaller⟩
    rw [step, hcaller] at hstep
    cases hstep
  | timeout =>
    intro hcaller
    rw [step, if_pos hcaller] at hstep
    cases hstep
  | next | answer | send => trivial

/-- No wake-up is lost exactly if the caller waits first and the timer does not come between. -/
theorem no_wakeup_lost_iff (hash : Name → UInt32) (ctx : RecursorCtx) (serverNames : List Name)
    (wait : Bool) (events : List GatherEvent) :
    (∀ (g : Gathering) (i : ℕ), g.caller = .waiting → g.subQueries[i]? = some .sending →
      ∃ g', g.step hash (.send i) = .ok g' ∧ g'.caller = .released) ∧
    ((∀ g, Reached (step hash) (start ctx serverNames wait) events g → g.Woken) ↔
      Along (step hash) InOrder (start ctx serverNames wait) events) := by
  constructor
  · intro g i hcaller hi
    simp [step, hi, hcaller]
  refine reached_iff_along Recorded Woken (fun g e g' hrecorded hwoken hstep => ?_)
    (fun g e stop _ _ hstop => inOrder_of_error hstop) events ?_ ?_
  · have hmoves := moves_of_step hstep
    exact ⟨hrecorded.moves hmoves, hwoken.moves_iff hrecorded hmoves⟩
  · simp [Recorded, start]
  · constructor
    · simp [start]
    · simp [start]

end Gathering

def gatheringCtx : RecursorCtx := .init exampleQuestion [⟨.root, ["ns"], .a [9, 9, 9, 9], 0⟩] .query

def serverAnswer : Message Section where
  header := ⟨0, false, false, .noError, 1, 0, 0⟩
  question := ⟨["ns", "com"], .a, .internet⟩
  answer := [⟨["ns", "com"], .a, .internet, 3600, [.a [1, 1, 1, 1]]⟩]
  auth := []
  additional := []

def answerArrives : GatherEvent := .answer 0 (some serverAnswer) ⟨fun _ => none⟩ exampleInstant

/-- The caller waits when the answer arrives, and is released. -/
theorem example_caller_released :
    (∃ g, run (Gathering.step exampleHash) (.start gatheringCtx [["ns", "com"]] true)
        [.next true, .select, answerArrives, .send 0] = .ok g ∧ g.caller = .released) ∧
      ∀ g, Reached (Gathering.step exampleHash) (.start gatheringCtx [["ns", "com"]] true)
        [.next true, .select, answerArrives, .send 0] g → g.Woken := by
  refine ⟨⟨_, rfl, rfl⟩, (Gathering.no_wakeup_lost_iff _ _ _ _ _).2.mpr
    ⟨trivial, fun g hg => ⟨fun _ _ => ?_, fun _ _ => ⟨trivial, fun _ _ => ⟨trivial, ?_⟩⟩⟩⟩⟩
  · cases hg
    decide
  · exact fun _ _ => trivial

/-- The answer arrives before the caller waits, and the caller waits in vain. -/
theorem example_wakeup_lost :
    ∃ g, run (Gathering.step exampleHash) (.start gatheringCtx [["ns", "com"]] true)
        [.next true, answerArrives, .send 0, .select, .timeout] = .ok g ∧
      g.inTime = [["ns", "com"]] ∧ g.caller = .timedOut :=
  ⟨_, rfl, rfl, rfl⟩

end Vanguard.Recursor
