import Mathlib.Order.Nat

namespace Vanguard.Library

abbrev Ptr := ℕ

/-- The objects of one type; the pointers below `next` have been handed out. -/
structure Heap (α : Type) where
  cell : Ptr → α
  next : Ptr

namespace Heap

variable {α : Type}

def load (h : Heap α) (p : Ptr) : α := h.cell p

/-- Store a new object behind a pointer nobody holds yet. -/
def alloc (h : Heap α) (a : α) : Heap α × Ptr :=
  (⟨Function.update h.cell h.next a, h.next + 1⟩, h.next)

def allocAll (h : Heap α) : List α → Heap α × List Ptr
  | [] => (h, [])
  | a :: as =>
    let (h, p) := h.alloc a
    let (h, ps) := h.allocAll as
    (h, p :: ps)

/-- Replace the object behind a pointer in place: every holder of the pointer sees it. -/
def write (h : Heap α) (p : Ptr) (a : α) : Heap α := ⟨Function.update h.cell p a, h.next⟩

def ofList (default : α) (l : List α) : Heap α := ⟨fun p => l.getD p default, l.length⟩

structure Extends (h h' : Heap α) : Prop where
  next_le : h.next ≤ h'.next
  load_eq : ∀ p < h.next, h'.load p = h.load p

theorem Extends.refl (h : Heap α) : h.Extends h := ⟨le_rfl, fun _ _ => rfl⟩

theorem Extends.trans {h h' h'' : Heap α} (h₁ : h.Extends h') (h₂ : h'.Extends h'') :
    h.Extends h'' where
  next_le := h₁.next_le.trans h₂.next_le
  load_eq p hp := by
    rw [h₂.load_eq p (lt_of_lt_of_le hp h₁.next_le), h₁.load_eq p hp]

@[simp] theorem load_alloc (h : Heap α) (a : α) : (h.alloc a).1.load (h.alloc a).2 = a := by
  simp [alloc, load]

@[simp] theorem next_alloc (h : Heap α) (a : α) : (h.alloc a).1.next = h.next + 1 := rfl

@[simp] theorem ptr_alloc (h : Heap α) (a : α) : (h.alloc a).2 = h.next := rfl

theorem load_alloc_of_ne {h : Heap α} {p : Ptr} (hne : p ≠ h.next) (a : α) :
    (h.alloc a).1.load p = h.load p := by
  simp [alloc, load, hne]

theorem extends_alloc (h : Heap α) (a : α) : h.Extends (h.alloc a).1 where
  next_le := by simp
  load_eq _ hp := load_alloc_of_ne hp.ne a

theorem allocAll_spec (h : Heap α) (as : List α) :
    h.Extends (h.allocAll as).1 ∧ (h.allocAll as).2.map (h.allocAll as).1.load = as ∧
      ∀ p ∈ (h.allocAll as).2, p < (h.allocAll as).1.next := by
  induction as generalizing h with
  | nil => exact ⟨.refl h, rfl, by simp [allocAll]⟩
  | cons a as ih =>
    obtain ⟨hext, hload, hlt⟩ := ih (h.alloc a).1
    have hfirst : (h.alloc a).2 < (h.alloc a).1.next := Nat.lt_succ_self _
    refine ⟨(extends_alloc h a).trans hext, ?_, ?_⟩
    · simp only [allocAll, List.map_cons, hload, List.cons.injEq, and_true]
      rw [hext.load_eq _ hfirst]
      exact load_alloc h a
    · intro p hp
      rcases List.mem_cons.mp hp with rfl | hp
      · exact lt_of_lt_of_le hfirst hext.next_le
      · exact hlt p hp

@[simp] theorem next_write (h : Heap α) (p : Ptr) (a : α) : (h.write p a).next = h.next := rfl

@[simp] theorem load_write_self (h : Heap α) (p : Ptr) (a : α) : (h.write p a).load p = a := by
  simp [write, load]

theorem load_write_of_ne {h : Heap α} {p q : Ptr} (hne : q ≠ p) (a : α) :
    (h.write p a).load q = h.load q := by
  simp [write, load, hne]

end Heap

end Vanguard.Library
