import Vanguard.Library.Heap
import Mathlib.Data.List.Range

namespace Vanguard.Library

open List

structure Slice where
  array : Ptr
  len : ℕ
  cap : ℕ
  deriving DecidableEq, Repr

namespace Slice

variable {α : Type}

def nil : Slice := ⟨0, 0, 0⟩

def read (h : Heap (ℕ → α)) (s : Slice) : List α := (List.range s.len).map (h.load s.array)

def set (h : Heap (ℕ → α)) (s : Slice) (i : ℕ) (x : α) : Heap (ℕ → α) :=
  h.write s.array (Function.update (h.load s.array) i x)

/-- `append(s, x)`. A full array moves to a new one, whose size is up to the runtime. -/
def append (grow : ℕ → ℕ) (h : Heap (ℕ → α)) (s : Slice) (x : α) : Heap (ℕ → α) × Slice :=
  if s.len < s.cap then (s.set h s.len x, { s with len := s.len + 1 })
  else
    let (h', array) := h.alloc (Function.update (h.load s.array) s.len x)
    (h', ⟨array, s.len + 1, max (s.len + 1) (grow s.len)⟩)

def ofList [Inhabited α] (h : Heap (ℕ → α)) (l : List α) (spare : ℕ) : Heap (ℕ → α) × Slice :=
  let (h', array) := h.alloc (fun i => l.getD i default)
  (h', ⟨array, l.length, l.length + spare⟩)

def Allocated (h : Heap (ℕ → α)) (s : Slice) : Prop := s.array < h.next ∨ (s.len = 0 ∧ s.cap = 0)

def Spares (s t : Slice) : Prop := s.array = t.array → s.len < s.cap → t.len ≤ s.len

@[simp] theorem read_nil (h : Heap (ℕ → α)) : read h nil = [] := rfl

theorem allocated_nil (h : Heap (ℕ → α)) : Allocated h nil := .inr ⟨rfl, rfl⟩

theorem spares_nil (t : Slice) : Spares nil t := fun _ hroom => absurd hroom (by simp [nil])

theorem Spares.refl (s : Slice) : Spares s s := fun _ _ => le_rfl

theorem spares_of_ne {s t : Slice} (hne : s.array ≠ t.array) : Spares s t :=
  fun heq => absurd heq hne

variable {s : Slice}

section

variable {h h' : Heap (ℕ → α)}

theorem read_congr (hcells : ∀ i < s.len, h'.load s.array i = h.load s.array i) :
    s.read h' = s.read h := by
  refine map_congr_left fun i hi => ?_
  exact hcells i (mem_range.mp hi)

theorem read_of_extends (hext : h.Extends h') (hs : Allocated h s) : s.read h' = s.read h := by
  rcases hs with harray | ⟨hlen, -⟩
  · rw [read, hext.load_eq _ harray, read]
  · simp [read, hlen]

theorem Allocated.of_extends (hs : Allocated h s) (hext : h.Extends h') : Allocated h' s :=
  hs.imp_left (fun harray => lt_of_lt_of_le harray hext.next_le)

end

theorem load_set (h : Heap (ℕ → α)) (s : Slice) (i : ℕ) (x : α) (a : Ptr) (j : ℕ) :
    (s.set h i x).load a j = if a = s.array ∧ j = i then x else h.load a j := by
  by_cases ha : a = s.array
  · subst ha
    by_cases hj : j = i
    · simp [set, hj]
    · simp [set, hj]
  · simp [set, Heap.load_write_of_ne ha, ha]

theorem read_append_self (grow : ℕ → ℕ) (h : Heap (ℕ → α)) (s : Slice) (x : α) :
    (append grow h s x).2.read (append grow h s x).1 = s.read h ++ [x] := by
  have hcells : ∀ i ∈ List.range s.len, i ≠ s.len := fun i hi => (mem_range.mp hi).ne
  by_cases hroom : s.len < s.cap
  · have hold : (List.range s.len).map ((s.set h s.len x).load s.array) = s.read h :=
      map_congr_left fun i hi => by simp [load_set, hcells i hi]
    simp [append, hroom, read, range_succ, hold, load_set]
  · have hold : (List.range s.len).map (Function.update (h.load s.array) s.len x) = s.read h :=
      map_congr_left fun i hi => by simp [hcells i hi]
    simp only [append, hroom, if_false, read, Heap.load_alloc, range_succ, map_append,
      map_cons, map_nil, Function.update_self, hold]

variable {h : Heap (ℕ → α)}

theorem read_append (grow : ℕ → ℕ) {s t : Slice} (hspares : Spares s t) (ht : Allocated h t) (x : α)
    :
    t.read (append grow h s x).1 = t.read h := by
  by_cases hroom : s.len < s.cap
  · simp only [append, hroom, if_true]
    refine read_congr fun i hi => ?_
    rw [load_set, if_neg]
    rintro ⟨harray, rfl⟩
    have hle := hspares harray.symm hroom
    omega
  · simp only [append, hroom, if_false]
    exact read_of_extends (Heap.extends_alloc _ _) ht

theorem next_le_append (grow : ℕ → ℕ) (h : Heap (ℕ → α)) (s : Slice) (x : α) :
    h.next ≤ (append grow h s x).1.next := by
  by_cases hroom : s.len < s.cap
  · simp [append, hroom, set]
  · simp [append, hroom]

theorem Allocated.append {t : Slice} (ht : Allocated h t) (grow : ℕ → ℕ) (s : Slice) (x : α) :
    Allocated (append grow h s x).1 t :=
  ht.imp_left (fun harray => lt_of_lt_of_le harray (next_le_append grow h s x))

theorem allocated_append_self (hs : Allocated h s) (grow : ℕ → ℕ) (x : α) :
    Allocated (append grow h s x).1 (append grow h s x).2 := by
  by_cases hroom : s.len < s.cap
  · have harray : s.array < h.next := hs.resolve_right fun hempty => by omega
    exact .inl (by simpa [Slice.append, hroom, set] using harray)
  · exact .inl (by simp [Slice.append, hroom])

theorem Spares.append {s t : Slice} (hspares : Spares s t) (ht : Allocated h t) (grow : ℕ → ℕ)
    (x : α) : Spares (append grow h s x).2 t := by
  by_cases hroom : s.len < s.cap
  · intro harray _
    have hle := hspares (by simpa [Slice.append, hroom] using harray) hroom
    simp only [Slice.append, hroom, if_true]
    omega
  · rcases ht with harray | ⟨hlen, -⟩
    · refine spares_of_ne ?_
      simpa [Slice.append, hroom] using harray.ne'
    · intro _ _
      simp [hlen]

theorem read_ofList [Inhabited α] (h : Heap (ℕ → α)) (l : List α) (spare : ℕ) :
    (ofList h l spare).2.read (ofList h l spare).1 = l := by
  refine ext_getElem (by simp [ofList, read]) fun i hi _ => ?_
  have hlen : i < l.length := by simpa [ofList, read] using hi
  simp only [ofList, read, getElem_map, getElem_range, Heap.load_alloc]
  simp [hlen]

end Slice

end Vanguard.Library
