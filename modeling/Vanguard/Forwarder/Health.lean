import Vanguard.Forwarder.Machine
import Vanguard.Forwarder.Selectors
import Vanguard.Util.Sender

namespace Vanguard.Forwarder

open Library Util List

structure TimedFwder extends SafeUDPFwder where
  remoteAddr : String
  lastRtt : Time
  fwderTimeout : Time
  bearableFailInterval : ℤ
  deriving DecidableEq, Repr

def newSafeUDPFwder (addr : String) (fwderTimeout : Time) (bearableFailInterval : ℤ) : TimedFwder :=
  ⟨.new, addr, 0, fwderTimeout, bearableFailInterval⟩

/-- What a call of `Forward` meets. -/
structure Outcome (B : Type) where
  result : QueryResult B
  /-- The time that `checkStatus` reads, in seconds. -/
  now : ℤ
  deriving DecidableEq, Repr

section

variable {B : Type}

/-- `Query` has returned an error. -/
def Outcome.failed (o : Outcome B) : Bool := o.result.err.isSome

/-- `Forward` takes down the round trip time and the error. -/
def TimedFwder.note (f : TimedFwder) (o : Outcome B) : TimedFwder where
  toSafeUDPFwder := f.toSafeUDPFwder.checkStatus f.bearableFailInterval o.now o.failed
  remoteAddr := f.remoteAddr
  lastRtt := o.result.rtt
  fwderTimeout := f.fwderTimeout
  bearableFailInterval := f.bearableFailInterval

def TimedFwder.forward (f : TimedFwder) (query : Request) (o : Outcome B) :
    Except Panic (TimedFwder × QueryResult B) :=
  match f.fwder with
  | none => .error .nilPointer
  | some _ =>
    .ok (f.note o, { o.result with msg := o.result.msg.map fun msg => { msg with id := query.id } })

inductive FwderCall (B : Type) where
  /-- `SetQuerySource`, and whether `NewSafeUDPSender` succeeds. -/
  | setQuerySource (ip : String) (ok : Bool)
  | forward (query : Request) (o : Outcome B)
  deriving DecidableEq, Repr

def TimedFwder.step (f : TimedFwder) : FwderCall B → Except Panic TimedFwder
  | .setQuerySource ip ok =>
    .ok (if ok then { f with toSafeUDPFwder := f.toSafeUDPFwder.setQuerySource ip } else f)
  | .forward query o => (f.forward query o).map Prod.fst

def FwderCall.outcome? : FwderCall B → Option (Outcome B)
  | .setQuerySource _ _ => none
  | .forward _ o => some o

def failuresSince (outcomes : List (Outcome B)) : List ℤ :=
  ((outcomes.reverse.takeWhile Outcome.failed).map Outcome.now).reverse

/-- The latest outcome is at least the second failure, so many seconds after the first. -/
def Overdue (interval : ℤ) (outcomes : List (Outcome B)) : Prop :=
  ∃ last ∈ outcomes.getLast?, last.failed = true ∧ 2 ≤ (failuresSince outcomes).length ∧
    ∃ first ∈ (failuresSince outcomes).head?, interval ≤ last.now - first

theorem failuresSince_append (outcomes : List (Outcome B)) (o : Outcome B) :
    failuresSince (outcomes ++ [o]) =
      if o.failed then failuresSince outcomes ++ [o.now] else [] := by
  cases hfailed : o.failed with
  | false | true => simp [failuresSince, hfailed]

structure TimedFwder.Remembers (f : TimedFwder) (outcomes : List (Outcome B)) : Prop where
  lastFailTime : f.lastFailTime = (failuresSince outcomes).head?.getD 0
  isDown : f.isDown = true ↔ Overdue f.bearableFailInterval outcomes

variable {outcomes : List (Outcome B)} {f : TimedFwder}

section

variable (h : f.Remembers outcomes)

include h

theorem TimedFwder.Remembers.note (htimes : ∀ o ∈ outcomes, 0 < o.now) (o : Outcome B) :
    (f.note o).Remembers (outcomes ++ [o]) := by
  have happend := failuresSince_append outcomes o
  have hlast : (outcomes ++ [o]).getLast? = some o := by simp
  have hpast := h.lastFailTime
  cases hfailed : o.failed with
  | false =>
    rw [hfailed] at happend
    constructor
    · simp [TimedFwder.note, SafeUDPFwder.checkStatus, hfailed, happend]
    · simp [TimedFwder.note, SafeUDPFwder.checkStatus, Overdue, hfailed, hlast]
  | true =>
    rw [hfailed, if_pos rfl] at happend
    cases hfailures : failuresSince outcomes with
    | nil =>
      -- The first failure: zero has stood for none.
      rw [hfailures] at hpast happend
      have hzero : f.lastFailTime = 0 := hpast
      constructor
      · simp [TimedFwder.note, SafeUDPFwder.checkStatus, hfailed, hzero, happend]
      · simp [TimedFwder.note, SafeUDPFwder.checkStatus, hfailed, hzero, Overdue, happend]
    | cons first later =>
      rw [hfailures] at hpast happend
      have hfirst : f.lastFailTime = first := hpast
      have hmem : first ∈ failuresSince outcomes := by simp [hfailures]
      obtain ⟨o', ho', rfl⟩ := mem_map.mp (mem_reverse.mp hmem)
      have hpos := htimes o' (mem_reverse.mp (takeWhile_subset _ ho'))
      have hzero : o'.now ≠ 0 := by omega
      constructor
      · simp [TimedFwder.note, SafeUDPFwder.checkStatus, hfailed, hzero, happend, hfirst]
      · simp [TimedFwder.note, SafeUDPFwder.checkStatus, hfailed, hzero, Overdue, happend, hlast,
          hfirst]

theorem TimedFwder.Remembers.step (hsender : f.fwder.isSome = true)
    (htimes : ∀ o ∈ outcomes, 0 < o.now) (call : FwderCall B) :
    ∃ f', f.step call = .ok f' ∧ f'.fwder.isSome = true ∧
      f'.bearableFailInterval = f.bearableFailInterval ∧
      f'.Remembers (outcomes ++ call.outcome?.toList) := by
  cases call with
  | setQuerySource ip ok =>
    have hkept : outcomes ++ (FwderCall.setQuerySource ip ok : FwderCall B).outcome?.toList =
        outcomes := append_nil outcomes
    rw [hkept]
    cases ok with
    | false => exact ⟨f, rfl, hsender, rfl, h⟩
    | true => exact ⟨_, rfl, rfl, rfl, h.lastFailTime, h.isDown⟩
  | forward query o =>
    obtain ⟨source, hsource⟩ := Option.isSome_iff_exists.mp hsender
    refine ⟨f.note o, by simp only [TimedFwder.step, forward, hsource, Except.map], ?_, rfl,
      h.note htimes o⟩
    rw [TimedFwder.note, SafeUDPFwder.fwder_checkStatus]
    exact hsender

theorem TimedFwder.Remembers.run (hsender : f.fwder.isSome = true) (calls : List (FwderCall B))
    (htimes : ∀ o ∈ outcomes ++ calls.filterMap FwderCall.outcome?, 0 < o.now) :
    ∃ f', Library.run TimedFwder.step f calls = .ok f' ∧
      f'.bearableFailInterval = f.bearableFailInterval ∧
      f'.Remembers (outcomes ++ calls.filterMap FwderCall.outcome?) := by
  induction calls generalizing f outcomes with
  | nil => exact ⟨f, rfl, rfl, by simpa using h⟩
  | cons call calls ih =>
    have hsplit : outcomes ++ (call :: calls).filterMap FwderCall.outcome? =
        outcomes ++ call.outcome?.toList ++ calls.filterMap FwderCall.outcome? := by
      cases hcall : call.outcome? with
      | none | some o => simp [hcall]
    rw [hsplit] at htimes ⊢
    obtain ⟨mid, hmid, hsender', hinterval, hmem⟩ := h.step hsender
      (fun o ho => htimes o (mem_append_left _ (mem_append_left _ ho))) call
    obtain ⟨f', hrun, hinterval', hmem'⟩ := ih hmem hsender' htimes
    exact ⟨f', run_cons_ok.mpr ⟨mid, hmid, hrun⟩, hinterval'.trans hinterval, hmem'⟩

end

/-- A forwarder is down exactly if it has failed for `bearableFailInterval` seconds. -/
theorem isDown_iff_overdue (addr ip : String) (fwderTimeout : Time) (interval : ℤ)
    (calls : List (FwderCall B))
    (htimes : ∀ o ∈ calls.filterMap FwderCall.outcome?, 0 < o.now) :
    ∃ f, run TimedFwder.step (newSafeUDPFwder addr fwderTimeout interval)
        (.setQuerySource ip true :: calls) = .ok f ∧
      (f.isDown = true ↔ Overdue interval (calls.filterMap FwderCall.outcome?)) := by
  have hnew : (newSafeUDPFwder addr fwderTimeout interval).Remembers ([] : List (Outcome B)) :=
    ⟨rfl, by simp [newSafeUDPFwder, SafeUDPFwder.new, Overdue]⟩
  have hset : TimedFwder.Remembers { newSafeUDPFwder addr fwderTimeout interval with
      toSafeUDPFwder := SafeUDPFwder.new.setQuerySource ip } ([] : List (Outcome B)) :=
    ⟨hnew.lastFailTime, hnew.isDown⟩
  obtain ⟨f, hrun, hinterval, hmem⟩ := hset.run rfl calls htimes
  refine ⟨f, run_cons_ok.mpr ⟨_, rfl, hrun⟩, ?_⟩
  have hdown := hmem.isDown
  rw [hinterval] at hdown
  exact hdown

def exampleForward (err : Option QueryError) (now : ℤ) : FwderCall Unit :=
  .forward ⟨7, ⟨["www"], .a, .internet⟩⟩ ⟨⟨none, 2000000000, err⟩, now⟩

/-- Two failures that are five seconds apart, with another one between them. -/
theorem example_down_after_five_seconds :
    ∃ f, run TimedFwder.step (newSafeUDPFwder "2.2.2.2:53" 2000000000 5)
        [.setQuerySource "" true, exampleForward none 100, exampleForward (some .deadline) 110,
          exampleForward (some .deadline) 112, exampleForward (some .deadline) 115] = .ok f ∧
      f.isDown = true := by
  obtain ⟨f, hrun, hdown⟩ := isDown_iff_overdue "2.2.2.2:53" "" 2000000000 5
    [exampleForward none 100, exampleForward (some .deadline) 110,
      exampleForward (some .deadline) 112, exampleForward (some .deadline) 115] (by decide)
  exact ⟨f, hrun, hdown.mpr ⟨_, rfl, rfl, by decide, 110, rfl, by decide⟩⟩

end

end Vanguard.Forwarder
