import Mathlib.Data.List.Nodup
import Vanguard.Library.Heap
import Vanguard.Library.Pool
import Vanguard.Library.Runs

/-!
# Pools of contexts and of renderers

`RecursorCtxPool` has as many slots as contexts. `SafeUDPSender` makes a renderer when none is free,
and a slot when one comes back and none is empty. The calls hold a lock, so they come in some order.
-/

namespace Vanguard.Recursor

open Library List

/-- The contexts, nil in the slots of those that are held. -/
structure RecursorCtxPool where
  ctxes : List (Option Ptr)
  deriving DecidableEq, Repr

namespace RecursorCtxPool

def newRecursorCtxPool (max : ℕ) : RecursorCtxPool := ⟨(List.range max).map some⟩

def getCtx (p : RecursorCtxPool) : Option Ptr × RecursorCtxPool :=
  match takeFirst p.ctxes with
  | some (ctx, ctxes) => (some ctx, ⟨ctxes⟩)
  | none => (none, p)

/-- `putCtx`, which drops the context if no slot is empty. -/
def putCtx (p : RecursorCtxPool) (ctx : Ptr) : RecursorCtxPool :=
  ⟨(putFirst ctx p.ctxes).getD p.ctxes⟩

end RecursorCtxPool

structure SafeUDPSender where
  renders : List (Option Ptr)
  /-- The renderers that `NewMsgRender` has made. -/
  made : ℕ
  deriving DecidableEq, Repr

namespace SafeUDPSender

def newSafeUDPSender : SafeUDPSender := ⟨[], 0⟩

def getRender (f : SafeUDPSender) : Ptr × SafeUDPSender :=
  match takeFirst f.renders with
  | some (render, renders) => (render, { f with renders })
  | none => (f.made, { f with made := f.made + 1 })

def releaseRender (f : SafeUDPSender) (render : Ptr) : SafeUDPSender :=
  { f with renders := (putFirst render f.renders).getD (f.renders ++ [some render]) }

end SafeUDPSender

/-- The pools and who holds what. -/
structure Pools where
  ctxPool : RecursorCtxPool
  ctxHeld : List (ℕ × Ptr)
  sender : SafeUDPSender
  renderHeld : List (ℕ × Ptr)
  deriving DecidableEq, Repr

inductive PoolCall where
  | getCtx (user : ℕ)
  | putCtx (user : ℕ) (ctx : Ptr)
  | getRender (user : ℕ)
  | releaseRender (user : ℕ) (render : Ptr)
  deriving DecidableEq, Repr

/-- The user returns an object that it has not obtained or has returned already. -/
inductive NotHeld where
  | notHeld
  deriving DecidableEq, Repr

namespace Pools

def start (max : ℕ) : Pools := ⟨.newRecursorCtxPool max, [], .newSafeUDPSender, []⟩

def step (s : Pools) : PoolCall → Except NotHeld Pools
  | .getCtx user =>
    match s.ctxPool.getCtx with
    | (some ctx, ctxPool) => .ok { s with ctxPool, ctxHeld := (user, ctx) :: s.ctxHeld }
    | (none, ctxPool) => .ok { s with ctxPool }
  | .putCtx user ctx =>
    if (user, ctx) ∈ s.ctxHeld then
      .ok { s with ctxPool := s.ctxPool.putCtx ctx, ctxHeld := s.ctxHeld.erase (user, ctx) }
    else .error .notHeld
  | .getRender user =>
    let (render, sender) := s.sender.getRender
    .ok { s with sender, renderHeld := (user, render) :: s.renderHeld }
  | .releaseRender user render =>
    if (user, render) ∈ s.renderHeld then
      .ok { s with
        sender := s.sender.releaseRender render
        renderHeld := s.renderHeld.erase (user, render) }
    else .error .notHeld

/-- None of the objects is held twice, held and in a slot, or lost. -/
structure Conserved (slots : List (Option Ptr)) (held : List (ℕ × Ptr)) (count : ℕ) : Prop where
  once : (slots.reduceOption ++ held.map Prod.snd).Nodup
  kept : ∀ p, some p ∈ slots ∨ (∃ user, (user, p) ∈ held) ↔ p < count

structure Inv (max : ℕ) (s : Pools) : Prop where
  ctxes : Balanced s.ctxPool.ctxes s.ctxHeld (List.range max)
  length : s.ctxPool.ctxes.length = max
  renders : Balanced s.sender.renders s.renderHeld (List.range s.sender.made)

end Pools

variable {slots : List (Option Ptr)} {held : List (ℕ × Ptr)} {max count : ℕ} {s s' : Pools}

theorem Pools.Conserved.of_balanced (h : Balanced slots held (List.range count)) :
    Pools.Conserved slots held count := by
  refine ⟨h.nodup_iff.mpr nodup_range, fun p => ?_⟩
  have hmem := h.mem_iff (a := p)
  rw [mem_append, reduceOption_mem_iff, mem_range] at hmem
  simpa using hmem

namespace Pools.Inv

theorem start (max : ℕ) : Inv max (start max) := by
  have hall : ((List.range max).map some).reduceOption = List.range max := by
    simp [List.reduceOption]
  refine ⟨?_, by simp [Pools.start, RecursorCtxPool.newRecursorCtxPool], .nil⟩
  simp [Library.Balanced, Pools.start, RecursorCtxPool.newRecursorCtxPool, hall]

theorem getCtx_eq_none_iff (h : Inv max s) :
    s.ctxPool.getCtx.1 = none ↔ ∀ ctx < max, ∃ user, (user, ctx) ∈ s.ctxHeld := by
  have hkept := (Conserved.of_balanced h.ctxes).kept
  have hnone : s.ctxPool.getCtx.1 = none ↔ s.ctxPool.ctxes.reduceOption = [] := by
    rw [← takeFirst_eq_none, RecursorCtxPool.getCtx]
    split <;> simp_all
  rw [hnone, eq_nil_iff_forall_not_mem]
  simp only [reduceOption_mem_iff]
  constructor
  · exact fun hempty ctx hctx => ((hkept ctx).mpr hctx).resolve_left (hempty ctx)
  · intro hall ctx hslot
    obtain ⟨user, hheld⟩ := hall ctx ((hkept ctx).mp (.inl hslot))
    have hdisjoint := disjoint_of_nodup_append (Conserved.of_balanced h.ctxes).once
    exact hdisjoint (reduceOption_mem_iff.mpr hslot) (mem_map_of_mem hheld)

theorem step (h : Inv max s) {call : PoolCall} (hok : s.step call = .ok s') : Inv max s' := by
  cases call with
  | getCtx user =>
    simp only [Pools.step, RecursorCtxPool.getCtx] at hok
    cases htake : takeFirst s.ctxPool.ctxes with
    | none =>
      simp only [htake] at hok
      cases hok
      exact h
    | some taken =>
      simp only [htake] at hok
      cases hok
      exact ⟨h.ctxes.take htake user, (takeFirst_eq_some htake).2.trans h.length, h.renders⟩
  | putCtx user ctx =>
    simp only [Pools.step] at hok
    split_ifs at hok with hheld
    cases hok
    cases hput : putFirst ctx s.ctxPool.ctxes with
    | none =>
      -- All slots are full, so nobody holds a context.
      have hlen := h.ctxes.length_eq
      rw [length_append, putFirst_eq_none hput, h.length, length_map, length_range] at hlen
      have hpos := length_pos_of_mem hheld
      omega
    | some ctxes =>
      obtain ⟨hperm, hlen⟩ := putFirst_eq_some hput
      simp only [RecursorCtxPool.putCtx, hput, Option.getD_some]
      exact ⟨h.ctxes.give hheld hperm, hlen.trans h.length, h.renders⟩
  | getRender user =>
    simp only [Pools.step, SafeUDPSender.getRender] at hok
    cases htake : takeFirst s.sender.renders with
    | none =>
      simp only [htake] at hok
      cases hok
      refine ⟨h.ctxes, h.length, ?_⟩
      rw [range_succ]
      exact h.renders.new user _
    | some taken =>
      simp only [htake] at hok
      cases hok
      exact ⟨h.ctxes, h.length, h.renders.take htake user⟩
  | releaseRender user render =>
    simp only [Pools.step] at hok
    split_ifs at hok with hheld
    cases hok
    refine ⟨h.ctxes, h.length, h.renders.give hheld ?_⟩
    rw [SafeUDPSender.releaseRender]
    cases hput : putFirst render s.sender.renders with
    | none =>
      rw [Option.getD_none, reduceOption_append]
      exact perm_append_singleton _ _
    | some renders => exact (putFirst_eq_some hput).1

end Pools.Inv

/-- However the calls are interleaved, no object is handed out twice or lost, and `getCtx` returns
nil when all are held. -/
theorem pools_conserved (max : ℕ) (calls : List PoolCall) (s : Pools)
    (hreached : Reached Pools.step (.start max) calls s) :
    Pools.Conserved s.ctxPool.ctxes s.ctxHeld max ∧
      (s.ctxPool.getCtx.1 = none ↔ ∀ ctx < max, ∃ user, (user, ctx) ∈ s.ctxHeld) ∧
      Pools.Conserved s.sender.renders s.renderHeld s.sender.made := by
  have hinv : Pools.Inv max s := reached_induction (Pools.Inv max)
    (fun s i s' h _ hok => h.step hok)
    (along_of_forall (fun _ _ => trivial) _ calls) (.start max) hreached
  exact ⟨.of_balanced hinv.ctxes, hinv.getCtx_eq_none_iff, .of_balanced hinv.renders⟩

/-- Two users of a pool of one context. -/
theorem example_context_passed_on :
    ∃ s, Reached Pools.step (.start 1) [.getCtx 7, .getCtx 8, .putCtx 7 0, .getCtx 8] s ∧
      s.ctxHeld = [(8, 0)] ∧ s.ctxPool.getCtx.1 = none := by
  have hreached : Reached Pools.step (.start 1) [.getCtx 7, .getCtx 8, .putCtx 7 0, .getCtx 8]
      ⟨⟨[none]⟩, [(8, 0)], ⟨[], 0⟩, []⟩ := ⟨_, prefix_rfl, rfl⟩
  refine ⟨_, hreached, rfl, ?_⟩
  refine (pools_conserved 1 _ _ hreached).2.1.mpr fun ctx hctx => ?_
  obtain rfl := Nat.lt_one_iff.mp hctx
  exact ⟨8, mem_singleton_self _⟩

end Vanguard.Recursor
