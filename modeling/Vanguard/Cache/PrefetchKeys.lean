import Mathlib.Data.List.Nodup
import Vanguard.Cache.Prefetch
import Vanguard.Resolver.QueryLimit

namespace Vanguard.Cache

open Library List

/-- A call of `addPrefetchTask` or an action of the run loop. -/
inductive TaskEvent where
  /-- `addPrefetchTask` for a client. -/
  | add (client : Resolver.Client)
  | take
  /-- `PassToNext` returns and has left the client of the task like this. -/
  | finish (after : Resolver.Client)
  deriving DecidableEq, Repr

/-- The key that `run` gives to `deletePrefetchTask`, if it calls it. -/
def deletedBy (hash : Name → UInt32) (after : Resolver.Client) : Option UInt64 :=
  if after.response.isSome && after.cacheAnswer then some (after.queryKey hash) else none

namespace PrefetchState

def started : PrefetchState := PrefetchState.new.reloadConfig true none

def stepTask (hash : Name → UInt32) (s : PrefetchState) : TaskEvent → Except Idle PrefetchState
  | .add client => .ok (s.addPrefetchTask (client.queryKey hash))
  | .take => s.step .take
  | .finish after => s.step (.finish (deletedBy hash after))

def queued (s : PrefetchState) : List UInt64 :=
  match s.taskChan with
  | .opened tasks => tasks
  | _ => []

def pending (s : PrefetchState) : List UInt64 := s.executing.toList ++ s.queued

def Exact (s : PrefetchState) : Prop := ∀ key, key ∈ s.taskKeys ↔ key ∈ s.pending

def FreedBy (hash : Name → UInt32) (after : Resolver.Client) : Option UInt64 → Prop
  | some key => after.response.isSome = true ∧ after.cacheAnswer = true ∧ after.queryKey hash = key
  | none => True

def Freed (hash : Name → UInt32) (s : PrefetchState) : TaskEvent → Prop
  | .finish after => FreedBy hash after s.executing
  | _ => True

instance (hash : Name → UInt32) (after : Resolver.Client) :
    ∀ key, Decidable (FreedBy hash after key)
  | some key => inferInstanceAs (Decidable (after.response.isSome = true ∧
      after.cacheAnswer = true ∧ after.queryKey hash = key))
  | none => .isTrue trivial

instance (hash : Name → UInt32) (s : PrefetchState) : ∀ e, Decidable (s.Freed hash e)
  | .finish after => inferInstanceAs (Decidable (FreedBy hash after s.executing))
  | .add _ | .take => .isTrue trivial

/-- The run loop is live, the channel is open and no key is queued twice. -/
structure Serving (s : PrefetchState) : Prop where
  running : s.running = true
  opened : s.taskChan = .opened s.queued
  nodup : s.pending.Nodup

variable {hash : Name → UInt32} {s s' : PrefetchState}

theorem Serving.addPrefetchTask (h : s.Serving) (hexact : s.Exact) (key : UInt64) :
    (s.addPrefetchTask key).Serving ∧ (s.addPrefetchTask key).Exact := by
  unfold PrefetchState.addPrefetchTask
  rw [h.opened]
  split
  · exact ⟨h, hexact⟩
  · next hnew =>
    simp only []
    split
    · have hpending : ({ s with taskChan := .opened (s.queued ++ [key]),
                                taskKeys := s.taskKeys ++ [key] } : PrefetchState).pending =
          s.pending ++ [key] := by
        simp [pending, queued]
      refine ⟨⟨h.running, rfl, ?_⟩, fun k => ?_⟩
      · rw [hpending, nodup_append]
        refine ⟨h.nodup, nodup_singleton key, ?_⟩
        rintro k hk _ hmem rfl
        rw [mem_singleton] at hmem
        exact hnew ((hexact key).mpr (hmem ▸ hk))
      · rw [hpending, mem_append, mem_append, hexact k]
    · exact ⟨h, hexact⟩

theorem exact_deletePrefetchTask_iff (hexact : s.Exact) (hnodup : s.pending.Nodup) {key : UInt64}
    (hexecuting : s.executing = some key) (deleted : Option UInt64) :
    (s.deletePrefetchTask deleted).Exact ↔ deleted = some key := by
  have hpending : s.pending = key :: s.queued := by rw [pending, hexecuting]; rfl
  have hafter : (s.deletePrefetchTask deleted).pending = s.queued := by cases deleted <;> rfl
  have hentered : key ∈ s.taskKeys := (hexact key).mpr (hpending ▸ mem_cons_self)
  rw [hpending, nodup_cons] at hnodup
  -- A key that is not deleted stays behind.
  have hstays : key ∈ (s.deletePrefetchTask deleted).taskKeys →
      ¬(s.deletePrefetchTask deleted).Exact :=
    fun hmem hexact' => hnodup.1 (hafter ▸ (hexact' key).mp hmem)
  cases deleted with
  | none => exact iff_of_false (hstays hentered) (by simp)
  | some other =>
    rw [Option.some.injEq]
    by_cases hother : other = key
    · refine iff_of_true (fun k => ?_) hother
      have hkeys : (s.deletePrefetchTask (some other)).taskKeys =
          s.taskKeys.filter (· ≠ other) := rfl
      rw [hafter, hkeys, mem_filter, hexact k, hpending, mem_cons, hother]
      constructor
      · rintro ⟨rfl | hk, hne⟩
        · exact absurd rfl (of_decide_eq_true hne)
        · exact hk
      · intro hk
        exact ⟨.inr hk, decide_eq_true fun heq => hnodup.1 (heq ▸ hk)⟩
    · refine iff_of_false (hstays ?_) hother
      exact mem_filter.mpr ⟨hentered, decide_eq_true (Ne.symm hother)⟩

theorem deletedBy_eq_some_iff {after : Resolver.Client} {key : UInt64} :
    deletedBy hash after = some key ↔
      after.response.isSome = true ∧ after.cacheAnswer = true ∧ after.queryKey hash = key := by
  simp [deletedBy, and_assoc]

/-- One call or action keeps `taskKeys` exact exactly if it frees the key of a task that ends. -/
theorem exact_stepTask_iff {e : TaskEvent} (h : s.Serving) (hexact : s.Exact)
    (heq : s.stepTask hash e = .ok s') : s'.Serving ∧ (s'.Exact ↔ s.Freed hash e) := by
  cases e with
  | add client =>
    cases heq
    obtain ⟨hserving, hexact'⟩ := h.addPrefetchTask hexact (client.queryKey hash)
    exact ⟨hserving, iff_of_true hexact' trivial⟩
  | take =>
    simp only [stepTask, step] at heq
    split at heq
    · next key tasks hrunning hidle hchan =>
      cases heq
      -- The task moves from the channel to the run loop.
      have hsame : s.pending = key :: tasks := by simp [pending, queued, hidle, hchan]
      refine ⟨⟨h.running, rfl, ?_⟩, iff_of_true (fun k => ?_) trivial⟩
      · have hnodup := h.nodup
        rwa [hsame] at hnodup
      · rw [hexact k, hsame]
        rfl
    · cases heq
  | finish after =>
    simp only [stepTask, step] at heq
    split at heq
    · next hbusy =>
      cases heq
      obtain ⟨key, hkey⟩ := Option.isSome_iff_exists.mp hbusy.2
      have hpending : (s.deletePrefetchTask (deletedBy hash after)).pending = s.queued := by
        cases deletedBy hash after <;> rfl
      refine ⟨⟨?_, ?_, ?_⟩, ?_⟩
      · cases deletedBy hash after <;> exact h.running
      · cases deletedBy hash after <;> exact h.opened
      · rw [hpending]
        exact (nodup_append.mp h.nodup).2.1
      · rw [exact_deletePrefetchTask_iff hexact h.nodup hkey, deletedBy_eq_some_iff]
        simp [Freed, FreedBy, hkey]
    · cases heq

end PrefetchState

/-- `taskKeys` are the pending keys exactly if every resolution leaves a response to cache and the
key. -/
theorem task_keys_exact_iff (hash : Name → UInt32) (events : List TaskEvent) :
    (∀ s, Reached (PrefetchState.stepTask hash) .started events s → s.Exact) ↔
      Along (PrefetchState.stepTask hash) (PrefetchState.Freed hash) .started events := by
  refine reached_iff_along PrefetchState.Serving PrefetchState.Exact
    (fun s e s' h hexact heq => PrefetchState.exact_stepTask_iff h hexact heq) ?_ events
    ⟨rfl, rfl, nodup_nil⟩ (fun _ => Iff.rfl)
  intro s e err h _ heq
  cases e with
  | finish after =>
    -- The run loop has no task.
    simp only [PrefetchState.stepTask, PrefetchState.step, h.running, true_and] at heq
    split at heq
    · cases heq
    · next hidle =>
      rw [Option.not_isSome_iff_eq_none] at hidle
      simp [PrefetchState.Freed, PrefetchState.FreedBy, hidle]
  | add client | take => trivial

def prefetching (typ : RRType) (response : Option (Message Section)) (cacheAnswer : Bool) :
    Resolver.Client :=
  ⟨⟨⟨1, false, false, .noError, 0, 0, 0⟩, ⟨["cn"], typ, .internet⟩, [], [], []⟩, response, 0,
    cacheAnswer⟩

def prefetched : Message Section :=
  ⟨⟨1, false, true, .noError, 1, 0, 0⟩, ⟨["cn"], .a, .internet⟩,
    [⟨["cn"], .a, .internet, 60, [.a [10, 0, 0, 1]]⟩], [], []⟩

/-- An entry is prefetched twice, and another one in between. -/
theorem example_prefetched_again :
    let events := [TaskEvent.add (prefetching .a none true), .add (prefetching .aaaa none true),
      .take, .finish (prefetching .a (some prefetched) true), .add (prefetching .a none true),
      .take, .finish (prefetching .aaaa (some prefetched) true)]
    Along (PrefetchState.stepTask fun _ => 0) (PrefetchState.Freed fun _ => 0) .started events ∧
      ∀ s, Reached (PrefetchState.stepTask fun _ => 0) .started events s → s.Exact := by
  intro events
  have hfreed : Along (PrefetchState.stepTask fun _ => 0) (PrefetchState.Freed fun _ => 0)
    .started events := by decide
  exact ⟨hfreed, (task_keys_exact_iff _ events).mpr hfreed⟩

/-- A task with this outcome leaves its key behind, and the entry is not queued again. -/
def LeavesKey (after : Resolver.Client) : Prop :=
  ∃ s, run (PrefetchState.stepTask fun _ => 0) .started
      [.add (prefetching .a none true), .take, .finish after] = .ok s ∧
    ¬s.Exact ∧ s.taskKeys = [1] ∧ s.pending = [] ∧
    s.stepTask (fun _ => 0) (.add (prefetching .a none true)) = .ok s

/-- The key stays if there is no response, none to cache, or one to another question. -/
theorem example_key_left_behind :
    LeavesKey (prefetching .a none true) ∧ LeavesKey (prefetching .a (some prefetched) false) ∧
      LeavesKey (prefetching .aaaa (some prefetched) true) := by
  have hinexact : ∀ {s : PrefetchState}, s.taskKeys = [1] → s.pending = [] → ¬s.Exact := by
    intro s hkeys hpending hexact
    have hmem := (hexact 1).mp (hkeys ▸ mem_cons_self)
    rw [hpending] at hmem
    cases hmem
  exact ⟨⟨_, rfl, hinexact rfl rfl, rfl, rfl, rfl⟩, ⟨_, rfl, hinexact rfl rfl, rfl, rfl, rfl⟩,
    ⟨_, rfl, hinexact rfl rfl, rfl, rfl, rfl⟩⟩

end Vanguard.Cache
