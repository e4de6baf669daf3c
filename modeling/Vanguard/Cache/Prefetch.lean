import Vanguard.Dns.Message
import Vanguard.Library.Runs

/-!
# The life of the prefetcher

A cache that prefetches has a run loop that takes tasks from a channel. `reloadConfig` stops the
loop and closes the channel, and may make new ones. The flag `needPrefetch` is set, but never
cleared.
-/

namespace Vanguard.Cache

open Library

inductive TaskChan where
  | nil
  | opened (tasks : List UInt64)
  | closed
  deriving DecidableEq, Repr

def defaultTaskChanBuf : ℕ := 1024

def prefetchTime : UInt32 := 10

inductive ChanFault where
  | sendOnNil
  | sendOnClosed
  | stopWithoutLoop
  deriving DecidableEq, Repr

structure PrefetchState where
  needPrefetch : Bool
  taskChan : TaskChan
  taskKeys : List UInt64
  running : Bool
  executing : Option UInt64
  faults : List ChanFault
  deriving DecidableEq, Repr

inductive PrefetchEvent where
  | reloadConfig (prefetch : Bool) (deleted : Option UInt64)
  | get (key : UInt64) (now : Time) (expireTime : Option Time)
  | take
  /-- The run loop is done with its task, and deletes a key if the response was cached. -/
  | finish (deleted : Option UInt64)
  deriving DecidableEq, Repr

inductive Idle where
  | idle
  deriving DecidableEq, Repr

def entryNeedPrefetch (expireTime now : Time) : Bool := expireTime < now.after prefetchTime

namespace PrefetchState

/-- `newMessageCache` before its first `reloadConfig`. -/
def new : PrefetchState := ⟨false, .nil, [], false, none, []⟩

section

variable (s : PrefetchState)

def deletePrefetchTask (deleted : Option UInt64) : PrefetchState :=
  match deleted with
  | some key => { s with executing := none, taskKeys := s.taskKeys.filter (· ≠ key) }
  | none => { s with executing := none }

def stop (deleted : Option UInt64) : Option PrefetchState :=
  if s.running then
    let s := if s.executing.isSome then s.deletePrefetchTask deleted else s
    some { s with running := false, taskChan := .closed }
  else none

/-- The part of `MessageCache.reloadConfig` after the old run loop was stopped. -/
def start (prefetch : Bool) : PrefetchState :=
  if prefetch then
    { s with needPrefetch := true, taskChan := .opened [], taskKeys := [], running := true }
  else s

/-- `MessageCache.reloadConfig`. A call that waits for ever changes nothing. -/
def reloadConfig (prefetch : Bool) (deleted : Option UInt64) : PrefetchState :=
  if s.needPrefetch then
    match s.stop deleted with
    | some s => s.start prefetch
    | none => { s with faults := s.faults ++ [.stopWithoutLoop] }
  else s.start prefetch

/-- `addPrefetchTask`. A channel that is full, or nil, makes the `select` abandon the task. -/
def addPrefetchTask (key : UInt64) : PrefetchState :=
  if key ∈ s.taskKeys then s
  else
    match s.taskChan with
    | .nil => { s with faults := s.faults ++ [.sendOnNil] }
    | .closed => { s with faults := s.faults ++ [.sendOnClosed] }
    | .opened tasks =>
      if tasks.length < defaultTaskChanBuf then
        { s with taskChan := .opened (tasks ++ [key]), taskKeys := s.taskKeys ++ [key] }
      else s

def get (key : UInt64) (now : Time) (expireTime : Option Time) : PrefetchState :=
  match expireTime with
  | some expireTime =>
    if s.needPrefetch && entryNeedPrefetch expireTime now then s.addPrefetchTask key else s
  | none => s

def step : PrefetchEvent → Except Idle PrefetchState
  | .reloadConfig prefetch deleted => .ok (s.reloadConfig prefetch deleted)
  | .get key now expireTime => .ok (s.get key now expireTime)
  | .take =>
    match s.running, s.executing, s.taskChan with
    | true, none, .opened (key :: tasks) =>
      .ok { s with executing := some key, taskChan := .opened tasks }
    | _, _, _ => .error .idle
  | .finish deleted =>
    if s.running ∧ s.executing.isSome then .ok (s.deletePrefetchTask deleted) else .error .idle

def isOpen : Bool :=
  match s.taskChan with
  | .opened _ => true
  | _ => false

/-- The flag says that there is a run loop and an open channel, and nothing is wrong. -/
structure Sound : Prop where
  flag : s.needPrefetch = true ↔ s.running = true ∧ s.isOpen = true
  /-- No task was sent to a channel that is not open, and no `stop` waits for ever. -/
  faultless : s.faults = []

def NotTurnedOff : PrefetchEvent → Prop
  | .reloadConfig prefetch _ => prefetch = false → s.needPrefetch = false
  | _ => True

end

instance (s : PrefetchState) : ∀ e, Decidable (s.NotTurnedOff e)
  | .reloadConfig prefetch _ =>
    inferInstanceAs (Decidable (prefetch = false → s.needPrefetch = false))
  | .get _ _ _ | .take | .finish _ => .isTrue trivial

variable {s : PrefetchState}

theorem sound_start (hfaults : s.faults = []) : (s.start true).Sound := by
  refine ⟨?_, hfaults⟩
  simp [start, isOpen]

theorem stop_of_running (hrunning : s.running = true) (deleted : Option UInt64) :
    ∃ s', s.stop deleted = some s' ∧ s'.needPrefetch = s.needPrefetch ∧ s'.running = false ∧
      s'.faults = s.faults := by
  unfold stop
  rw [if_pos hrunning]
  refine ⟨_, rfl, ?_, rfl, ?_⟩
  · cases s.executing <;> cases deleted <;> rfl
  · cases s.executing <;> cases deleted <;> rfl

theorem sound_reloadConfig_iff (h : s.Sound) (prefetch : Bool) (deleted : Option UInt64) :
    (s.reloadConfig prefetch deleted).Sound ↔
      (prefetch = false → s.needPrefetch = false) := by
  cases hneed : s.needPrefetch with
  | false =>
    have heq : s.reloadConfig prefetch deleted = s.start prefetch := by
      simp [reloadConfig, hneed]
    rw [heq]
    refine ⟨fun _ _ => rfl, fun _ => ?_⟩
    cases prefetch with
    | false => exact h
    | true => exact sound_start h.faultless
  | true =>
    obtain ⟨s', hstop, hneed', hrunning, hfaults⟩ := stop_of_running (h.flag.mp hneed).1 deleted
    have heq : s.reloadConfig prefetch deleted = s'.start prefetch := by
      simp [reloadConfig, hneed, hstop]
    rw [heq]
    cases prefetch with
    | false =>
      refine ⟨fun hsound => ?_, fun hoff => nomatch hoff rfl⟩
      have hboth := hsound.flag.mp (hneed'.trans hneed)
      exact absurd (hrunning.symm.trans hboth.1) Bool.false_ne_true
    | true => exact ⟨fun _ => nofun, fun _ => sound_start (hfaults.trans h.faultless)⟩

theorem Sound.congr {s s' : PrefetchState} (h : s.Sound) (hneed : s'.needPrefetch = s.needPrefetch)
    (hrunning : s'.running = s.running) (hopen : s'.isOpen = s.isOpen)
    (hfaults : s'.faults = s.faults) :
    s'.Sound := by
  refine ⟨?_, hfaults.trans h.faultless⟩
  rw [hneed, hrunning, hopen]
  exact h.flag

theorem Sound.addPrefetchTask (h : s.Sound) (hneed : s.needPrefetch = true) (key : UInt64) :
    (s.addPrefetchTask key).Sound := by
  have hopen := (h.flag.mp hneed).2
  unfold PrefetchState.addPrefetchTask
  split
  · exact h
  · cases hchan : s.taskChan with
    | nil | closed => simp [isOpen, hchan] at hopen
    | opened tasks =>
      simp only []
      split
      · exact h.congr rfl rfl hopen.symm rfl
      · exact h

theorem Sound.get (h : s.Sound) (key : UInt64) (now : Time) (expireTime : Option Time) :
    (s.get key now expireTime).Sound := by
  unfold PrefetchState.get
  split
  · split
    · next hcond => exact h.addPrefetchTask (Bool.and_eq_true_iff.mp hcond).1 key
    · exact h
  · exact h

theorem Sound.deletePrefetchTask (h : s.Sound) (deleted : Option UInt64) :
    (s.deletePrefetchTask deleted).Sound := by
  cases deleted <;> exact h.congr rfl rfl rfl rfl

theorem sound_step_iff {s s' : PrefetchState} {e : PrefetchEvent} (h : s.Sound)
    (heq : s.step e = .ok s') : s'.Sound ↔ s.NotTurnedOff e := by
  cases e with
  | reloadConfig prefetch deleted =>
    cases heq
    exact sound_reloadConfig_iff h prefetch deleted
  | get key now expireTime =>
    cases heq
    exact iff_of_true (h.get key now expireTime) trivial
  | take =>
    simp only [step] at heq
    split at heq
    · next key tasks _ _ hchan =>
      cases heq
      exact iff_of_true (h.congr rfl rfl (by simp [isOpen, hchan]) rfl) trivial
    · cases heq
  | finish deleted =>
    simp only [step] at heq
    split at heq
    · cases heq
      exact iff_of_true (h.deletePrefetchTask deleted) trivial
    · cases heq

/-- The flag is right all along exactly if no call turns prefetching off. -/
theorem sound_iff_never_turned_off (events : List PrefetchEvent) :
    (∀ s, Reached step new events s → s.Sound) ↔ Along step NotTurnedOff new events := by
  refine reached_iff_along (fun _ => True) Sound ?_ ?_ events trivial ⟨by decide, rfl⟩
  · exact fun s e s' _ h heq => ⟨trivial, sound_step_iff h heq⟩
  · intro s e err _ _ heq
    cases e with
    | reloadConfig prefetch deleted => cases heq
    | _ => trivial

end PrefetchState

/-- A cache that prefetches is configured twice in a row, and a client finds an entry that expires.
-/
theorem example_prefetch_kept_on :
    ∀ s, Reached PrefetchState.step .new [.reloadConfig true none, .reloadConfig true none,
      .get 7 0 (some 1), .take, .reloadConfig true (some 7)] s → s.Sound :=
  (PrefetchState.sound_iff_never_turned_off _).mpr (by decide)

/-- Once it is turned off, `Get` sends on a closed channel, and a reload waits forever. -/
theorem example_prefetch_turned_off :
    ∃ s, Reached PrefetchState.step .new [.reloadConfig true none, .reloadConfig false none,
        .get 7 0 (some 1), .reloadConfig false none] s ∧ ¬s.Sound ∧ s.needPrefetch = true ∧
      s.running = false ∧ s.taskChan = .closed ∧ s.faults = [.sendOnClosed, .stopWithoutLoop] := by
  refine ⟨_, ⟨_, List.prefix_rfl, rfl⟩, fun h => ?_, rfl, rfl, rfl, rfl⟩
  exact absurd h.faultless (by decide)

end Vanguard.Cache
