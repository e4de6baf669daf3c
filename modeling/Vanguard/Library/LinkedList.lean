import Mathlib.Data.List.Nodup
import Mathlib.Data.List.Perm.Basic

namespace Vanguard.Library

open List

structure Element (α : Type) where
  id : ℕ
  value : α
  deriving DecidableEq, Repr

structure LinkedList (α : Type) where
  elems : List (Element α)
  next : ℕ
  deriving DecidableEq, Repr

namespace LinkedList

variable {α : Type}

def new : LinkedList α := ⟨[], 0⟩

section

variable (l : LinkedList α)

def pushFront (v : α) : LinkedList α × Element α :=
  (⟨⟨l.next, v⟩ :: l.elems, l.next + 1⟩, ⟨l.next, v⟩)

def moveToFront (e : Element α) : LinkedList α :=
  { l with
    elems := l.elems.filter (fun x => x.id = e.id) ++ l.elems.filter (fun x => ¬x.id = e.id) }

/-- `e.Value = v`, as far as the list sees it. -/
def setValue (e : Element α) (v : α) : LinkedList α :=
  { l with elems := l.elems.map (fun x => if x.id = e.id then { x with value := v } else x) }

def remove (e : Element α) : LinkedList α :=
  { l with elems := l.elems.filter (fun x => ¬x.id = e.id) }

def back : Option (Element α) := l.elems.getLast?

def len : ℕ := l.elems.length

theorem moveToFront_perm (e : Element α) : (l.moveToFront e).elems.Perm l.elems := by
  have hperm := filter_append_perm (fun x => decide (x.id = e.id)) l.elems
  simpa [moveToFront] using hperm

structure Wf : Prop where
  nodup : (l.elems.map Element.id).Nodup
  lt : ∀ e ∈ l.elems, e.id < l.next

end

theorem Wf.new : (new : LinkedList α).Wf := ⟨nodup_nil, nofun⟩

variable {l : LinkedList α}

theorem Wf.eq_of_id (h : l.Wf) {e e' : Element α} (he : e ∈ l.elems) (he' : e' ∈ l.elems)
    (hid : e.id = e'.id) : e = e' :=
  inj_on_of_nodup_map h.nodup he he' hid

theorem Wf.pushFront (h : l.Wf) (v : α) : (l.pushFront v).1.Wf := by
  refine ⟨?_, ?_⟩
  · refine nodup_cons.mpr ⟨fun hmem => ?_, h.nodup⟩
    obtain ⟨e, he, hid⟩ := mem_map.mp hmem
    exact absurd hid (Nat.ne_of_lt (h.lt e he))
  · intro e he
    rcases mem_cons.mp he with rfl | he
    · exact Nat.lt_succ_self _
    · exact Nat.lt_succ_of_lt (h.lt e he)

theorem Wf.moveToFront (h : l.Wf) (e : Element α) : (l.moveToFront e).Wf := by
  have hperm := l.moveToFront_perm e
  exact ⟨((hperm.map Element.id).nodup_iff).mpr h.nodup, fun x hx => h.lt x (hperm.mem_iff.mp hx)⟩

theorem Wf.remove (h : l.Wf) (e : Element α) : (l.remove e).Wf :=
  ⟨h.nodup.sublist (filter_sublist.map _), fun x hx => h.lt x (mem_filter.mp hx).1⟩

theorem Wf.mem_remove (h : l.Wf) {e x : Element α} (he : e ∈ l.elems) :
    x ∈ (l.remove e).elems ↔ x ∈ l.elems ∧ x ≠ e := by
  simp only [LinkedList.remove, mem_filter, decide_eq_true_eq]
  constructor
  · rintro ⟨hx, hid⟩
    exact ⟨hx, fun heq => hid (by rw [heq])⟩
  · rintro ⟨hx, hne⟩
    exact ⟨hx, fun hid => hne (h.eq_of_id hx he hid)⟩

theorem Wf.remove_elems [DecidableEq α] {l : LinkedList α} (h : l.Wf) {e : Element α}
    (he : e ∈ l.elems) : (l.remove e).elems = l.elems.filter (· ≠ e) := by
  refine filter_congr fun x hx => ?_
  have hid : x.id = e.id ↔ x = e := ⟨h.eq_of_id hx he, fun heq => by rw [heq]⟩
  simp [hid]

theorem Wf.remove_back (h : l.Wf) {e : Element α} (hback : l.back = some e) :
    (l.remove e).elems = l.elems.dropLast := by
  have helems : l.elems = l.elems.dropLast ++ [e] := (dropLast_append_getLast? e hback).symm
  have hnodup := h.nodup
  rw [helems, map_append, map_singleton, nodup_append] at hnodup
  have hkept : l.elems.dropLast.filter (fun x => ¬x.id = e.id) = l.elems.dropLast := by
    refine filter_eq_self.mpr fun x hx => ?_
    have hne := hnodup.2.2 x.id (mem_map_of_mem hx) e.id (mem_singleton_self _)
    simpa using hne
  calc (l.remove e).elems = (l.elems.dropLast ++ [e]).filter (fun x => ¬x.id = e.id) := by
        rw [← helems]
        rfl
    _ = l.elems.dropLast := by rw [filter_append, hkept]; simp

end LinkedList

variable {κ α : Type}

def Indexes (index : κ → Option (Element α)) (l : LinkedList α) (key : α → κ) : Prop :=
  ∀ k e, index k = some e ↔ e ∈ l.elems ∧ key e.value = k

section

variable {index : κ → Option (Element α)} {l : LinkedList α} {key : α → κ}

theorem indexes_nil (key : α → κ) (next : ℕ) : Indexes (fun _ => none) ⟨[], next⟩ key := by
  intro k e
  simp

variable (h : Indexes index l key)

include h

theorem Indexes.inj {e e' : Element α} (he : e ∈ l.elems) (he' : e' ∈ l.elems)
    (hkey : key e.value = key e'.value) : e = e' := by
  have hget := (h (key e'.value) e).mpr ⟨he, hkey⟩
  have hget' := (h (key e'.value) e').mpr ⟨he', rfl⟩
  exact Option.some.inj (hget.symm.trans hget')

theorem Indexes.ne_none {e : Element α} (he : e ∈ l.elems) : index (key e.value) ≠ none := by
  rw [(h _ e).mpr ⟨he, rfl⟩]
  exact Option.some_ne_none e

theorem Indexes.key_ne {e e' : Element α} (he : e ∈ l.elems)
    (he' : e' ∈ l.elems.filter fun x => ¬x.id = e.id) : key e'.value ≠ key e.value := by
  obtain ⟨hmem, hid⟩ := mem_filter.mp he'
  exact fun hkey => of_decide_eq_true hid (congrArg Element.id (h.inj hmem he hkey))

theorem Indexes.congr {key' : α → κ} (hkey : ∀ e ∈ l.elems, key' e.value = key e.value) :
    Indexes index l key' := by
  intro k e
  rw [h k e]
  constructor
  · rintro ⟨he, hk⟩
    exact ⟨he, (hkey e he).trans hk⟩
  · rintro ⟨he, hk⟩
    exact ⟨he, (hkey e he).symm.trans hk⟩

theorem Indexes.moveToFront (e : Element α) : Indexes index (l.moveToFront e) key := by
  intro k x
  rw [h k x, (l.moveToFront_perm e).mem_iff]

end

variable {l : LinkedList α} {e : Element α}

section

variable (hwf : l.Wf) (he : e ∈ l.elems)

include hwf he

theorem LinkedList.Wf.elems_moveToFront :
    (l.moveToFront e).elems = e :: l.elems.filter (fun x => ¬x.id = e.id) := by
  have honly : l.elems.filter (fun x => x.id = e.id) = [e] := by
    obtain ⟨before, after, hsplit⟩ := append_of_mem he
    have hnodup := hwf.nodup
    rw [hsplit, map_append, map_cons, nodup_append] at hnodup
    obtain ⟨-, hafter, hdisjoint⟩ := hnodup
    have hbefore : ∀ x ∈ before, ¬x.id = e.id := fun x hx =>
      hdisjoint _ (mem_map_of_mem hx) _ mem_cons_self
    have hrest : ∀ x ∈ after, ¬x.id = e.id := fun x hx heq =>
      (nodup_cons.mp hafter).1 (heq ▸ mem_map_of_mem hx)
    rw [hsplit, filter_append, filter_cons_of_pos (by simp),
      filter_eq_nil_iff.mpr (by simpa using hbefore),
      filter_eq_nil_iff.mpr (by simpa using hrest), nil_append]
  simp only [LinkedList.moveToFront, honly, singleton_append]

theorem LinkedList.Wf.elems_replace (v : α) :
    ((l.moveToFront e).setValue e v).elems =
      ⟨e.id, v⟩ :: l.elems.filter (fun x => ¬x.id = e.id) := by
  simp only [LinkedList.setValue, hwf.elems_moveToFront he, map_cons, if_true]
  congr 1
  refine (map_congr_left fun x hx => ?_).trans (map_id _)
  have hid : ¬x.id = e.id := by simpa using (mem_filter.mp hx).2
  simp [hid]

theorem LinkedList.Wf.replace (v : α) : ((l.moveToFront e).setValue e v).Wf := by
  have hperm : (((l.moveToFront e).setValue e v).elems.map Element.id).Perm
      (l.elems.map Element.id) := by
    have hids : ((l.moveToFront e).setValue e v).elems.map Element.id =
        (l.moveToFront e).elems.map Element.id := by
      rw [hwf.elems_replace he v, hwf.elems_moveToFront he, map_cons, map_cons]
    rw [hids]
    exact (l.moveToFront_perm e).map _
  refine ⟨hperm.nodup_iff.mpr hwf.nodup, fun x hx => ?_⟩
  obtain ⟨y, hy, hid⟩ := mem_map.mp (hperm.mem_iff.mp (mem_map_of_mem hx))
  have hlt : y.id < l.next := hwf.lt y hy
  rwa [hid] at hlt

end

section

variable [DecidableEq κ] {index : κ → Option (Element α)} {l : LinkedList α} {key : α → κ}

theorem Indexes.remove (h : Indexes index l key) (hwf : l.Wf) {e : Element α} (he : e ∈ l.elems) :
    Indexes (Function.update index (key e.value) none) (l.remove e) key := by
  intro k x
  rw [hwf.mem_remove he]
  by_cases hk : k = key e.value
  · subst hk
    simp only [Function.update_self, reduceCtorEq, false_iff]
    rintro ⟨⟨hx, hne⟩, hkey⟩
    exact hne (h.inj hx he hkey)
  · rw [Function.update_of_ne hk, h k x]
    constructor
    · rintro ⟨hx, hkey⟩
      exact ⟨⟨hx, fun heq => hk (by rw [← hkey, heq])⟩, hkey⟩
    · rintro ⟨⟨hx, -⟩, hkey⟩
      exact ⟨hx, hkey⟩

theorem Indexes.front (h : Indexes index l key) {new : Element α} {l' : LinkedList α}
    (helems : l'.elems = new :: l.elems.filter fun e => key e.value ≠ key new.value) :
    Indexes (Function.update index (key new.value) (some new)) l' key := by
  intro k x
  rw [helems, mem_cons, mem_filter, decide_eq_true_eq]
  by_cases hk : k = key new.value
  · subst hk
    rw [Function.update_self, Option.some.injEq]
    constructor
    · rintro rfl
      exact ⟨.inl rfl, rfl⟩
    · rintro ⟨rfl | ⟨-, hne⟩, hkey⟩
      · rfl
      · exact absurd hkey hne
  · rw [Function.update_of_ne hk, h k x]
    constructor
    · rintro ⟨hx, rfl⟩
      exact ⟨.inr ⟨hx, hk⟩, rfl⟩
    · rintro ⟨rfl | ⟨hx, -⟩, hkey⟩
      · exact absurd hkey.symm hk
      · exact ⟨hx, hkey⟩

end

end Vanguard.Library
