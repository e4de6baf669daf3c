import Mathlib.Data.List.Perm.Basic
import Mathlib.Data.List.ReduceOption

/-!
# Pools of objects

A pool keeps the objects that nobody holds in slots, of which some are empty. What is in the slots
and what is held together are at all times the objects there are, each of them once.
-/

namespace Vanguard.Library

open List

variable {α υ : Type}

/-- Take the object out of the first slot that has one. -/
def takeFirst : List (Option α) → Option (α × List (Option α))
  | [] => none
  | some a :: slots => some (a, none :: slots)
  | none :: slots => (takeFirst slots).map fun taken => (taken.1, none :: taken.2)

/-- Put an object into the first empty slot. -/
def putFirst (a : α) : List (Option α) → Option (List (Option α))
  | [] => none
  | none :: slots => some (some a :: slots)
  | some b :: slots => (putFirst a slots).map (some b :: ·)

/-- The slots and the users have these objects between them. -/
def Balanced (slots : List (Option α)) (held : List (υ × α)) (objects : List α) : Prop :=
  (slots.reduceOption ++ held.map Prod.snd).Perm objects

variable {slots left : List (Option α)} {a : α}

theorem takeFirst_eq_none : takeFirst slots = none ↔ slots.reduceOption = [] := by
  induction slots with
  | nil => simp [takeFirst]
  | cons slot slots ih =>
    cases slot with
    | none => simpa [takeFirst] using ih
    | some b => simp [takeFirst]

theorem takeFirst_eq_some (h : takeFirst slots = some (a, left)) :
    slots.reduceOption = a :: left.reduceOption ∧ left.length = slots.length := by
  induction slots generalizing left with
  | nil => cases h
  | cons slot slots ih =>
    cases slot with
    | none =>
      obtain ⟨⟨b, rest⟩, hrest, heq⟩ := Option.map_eq_some_iff.mp h
      cases heq
      simpa using ih hrest
    | some b =>
      cases h
      simp

theorem putFirst_eq_none (h : putFirst a slots = none) :
    slots.reduceOption.length = slots.length := by
  induction slots with
  | nil => rfl
  | cons slot slots ih =>
    cases slot with
    | none => cases h
    | some b => simpa using ih (Option.map_eq_none_iff.mp h)

theorem putFirst_eq_some (h : putFirst a slots = some left) :
    left.reduceOption.Perm (a :: slots.reduceOption) ∧ left.length = slots.length := by
  induction slots generalizing left with
  | nil => cases h
  | cons slot slots ih =>
    cases slot with
    | none =>
      cases h
      simp
    | some b =>
      obtain ⟨rest, hrest, rfl⟩ := Option.map_eq_some_iff.mp h
      obtain ⟨hperm, hlen⟩ := ih hrest
      refine ⟨?_, by simpa using hlen⟩
      simpa using (hperm.cons b).trans (.swap a b _)

variable {held : List (υ × α)} {objects : List α}

theorem Balanced.take (h : Balanced slots held objects) (htake : takeFirst slots = some (a, left))
    (user : υ) : Balanced left ((user, a) :: held) objects := by
  unfold Balanced at h ⊢
  rw [(takeFirst_eq_some htake).1] at h
  exact perm_middle.trans h

theorem Balanced.new (h : Balanced slots held objects) (user : υ) (a : α) :
    Balanced slots ((user, a) :: held) (objects ++ [a]) := by
  refine perm_middle.trans ((h.cons a).trans ?_)
  exact (perm_append_singleton a objects).symm

theorem Balanced.give [DecidableEq υ] [DecidableEq α] {user : υ} (h : Balanced slots held objects)
    (hheld : (user, a) ∈ held) (hleft : left.reduceOption.Perm (a :: slots.reduceOption)) :
    Balanced left (held.erase (user, a)) objects := by
  have hsnd : (held.map Prod.snd).Perm (a :: (held.erase (user, a)).map Prod.snd) :=
    (perm_cons_erase hheld).map Prod.snd
  have hback := (hsnd.symm.append_left slots.reduceOption).trans h
  exact (hleft.append_right _).trans (perm_middle.symm.trans hback)

end Vanguard.Library
