import Mathlib.Logic.Basic

namespace Vanguard.Library

inductive Fired (ε : Type) where
  | moved
  | noTransition
  | invalidEvent
  | canceled (cause : ε)
  deriving DecidableEq, Repr

structure Machine (S A σ ε : Type) where
  table : S → A → Option S
  before : S → A → σ → σ × Option ε
  /-- The callback after an event, given the state the event was fired in. -/
  after : S → A → σ → σ

structure Engine where
  event : ∀ {S A σ ε : Type} [DecidableEq S], Machine S A σ ε → S → σ → A → S × σ × Fired ε

/-- The order in which an engine looks up, cancels, moves and calls back. -/
structure Engine.Lawful (F : Engine) : Prop where
  invalidEvent : ∀ {S A σ ε : Type} [DecidableEq S] (m : Machine S A σ ε) (s : S) (w : σ) (a : A),
    m.table s a = none → F.event m s w a = (s, w, .invalidEvent)
  canceled : ∀ {S A σ ε : Type} [DecidableEq S] (m : Machine S A σ ε) (s dst : S) (w w' : σ)
    (a : A) (cause : ε), m.table s a = some dst → m.before s a w = (w', some cause) →
    F.event m s w a = (s, w', .canceled cause)
  /-- An event that leads back to its state runs both callbacks. -/
  noTransition : ∀ {S A σ ε : Type} [DecidableEq S] (m : Machine S A σ ε) (s : S) (w w' : σ)
    (a : A), m.table s a = some s → m.before s a w = (w', none) →
    F.event m s w a = (s, m.after s a w', .noTransition)
  moved : ∀ {S A σ ε : Type} [DecidableEq S] (m : Machine S A σ ε) (s dst : S) (w w' : σ) (a : A),
    m.table s a = some dst → dst ≠ s → m.before s a w = (w', none) →
    F.event m s w a = (dst, m.after s a w', .moved)

namespace Engine

def reference : Engine where
  event m s w a :=
    match m.table s a with
    | none => (s, w, .invalidEvent)
    | some dst =>
      match m.before s a w with
      | (w', some cause) => (s, w', .canceled cause)
      | (w', none) =>
        if dst = s then (s, m.after s a w', .noTransition) else (dst, m.after s a w', .moved)

theorem lawful_reference : reference.Lawful where
  invalidEvent m s w a htable := by simp [reference, htable]
  canceled m s dst w w' a cause htable hbefore := by simp [reference, htable, hbefore]
  noTransition m s w w' a htable hbefore := by simp [reference, htable, hbefore]
  moved m s dst w w' a htable hne hbefore := by simp [reference, htable, hbefore, hne]

variable {F : Engine} (hF : F.Lawful) {S A σ ε : Type} [DecidableEq S] (m : Machine S A σ ε) (s : S)
  (w : σ) (a : A)

include hF

theorem Lawful.event_cases :
    (m.table s a = none ∧ F.event m s w a = (s, w, .invalidEvent)) ∨
    (∃ dst w' cause, m.table s a = some dst ∧ m.before s a w = (w', some cause) ∧
      F.event m s w a = (s, w', .canceled cause)) ∨
    (∃ w', m.table s a = some s ∧ m.before s a w = (w', none) ∧
      F.event m s w a = (s, m.after s a w', .noTransition)) ∨
    (∃ dst w', m.table s a = some dst ∧ dst ≠ s ∧ m.before s a w = (w', none) ∧
      F.event m s w a = (dst, m.after s a w', .moved)) := by
  cases htable : m.table s a with
  | none => exact .inl ⟨rfl, hF.invalidEvent m s w a htable⟩
  | some dst =>
    obtain ⟨w', hw⟩ : ∃ w', (m.before s a w).1 = w' := ⟨_, rfl⟩
    cases hcause : (m.before s a w).2 with
    | some cause =>
      have hbefore : m.before s a w = (w', some cause) := Prod.ext hw hcause
      exact .inr (.inl ⟨dst, w', cause, rfl, hbefore,
        hF.canceled m s dst w w' a cause htable hbefore⟩)
    | none =>
      have hbefore : m.before s a w = (w', none) := Prod.ext hw hcause
      by_cases hself : dst = s
      · subst hself
        exact .inr (.inr (.inl ⟨w', rfl, hbefore, hF.noTransition m dst w w' a htable hbefore⟩))
      · exact .inr (.inr (.inr ⟨dst, w', rfl, hself, hbefore,
          hF.moved m s dst w w' a htable hself hbefore⟩))

theorem Lawful.event_eq : F.event m s w a = reference.event m s w a := by
  obtain ⟨htable, hevent⟩ | ⟨dst, w', cause, htable, hbefore, hevent⟩ |
    ⟨w', htable, hbefore, hevent⟩ | ⟨dst, w', htable, hne, hbefore, hevent⟩ :=
      hF.event_cases m s w a
  · rw [hevent, lawful_reference.invalidEvent m s w a htable]
  · rw [hevent, lawful_reference.canceled m s dst w w' a cause htable hbefore]
  · rw [hevent, lawful_reference.noTransition m s w w' a htable hbefore]
  · rw [hevent, lawful_reference.moved m s dst w w' a htable hne hbefore]

end Engine

end Vanguard.Library
