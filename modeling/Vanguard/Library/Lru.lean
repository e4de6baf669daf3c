import Mathlib.Data.List.Basic
import Vanguard.Library.LinkedList

/-!
# Lists in the order of the last use

An index leads from the keys to the elements of a list, and a journal says when each key was used.
The list is in the order of the journal, so its back is what was used the longest time ago.
-/

namespace Vanguard.Library

open List

section

inductive Effect (κ β : Type) where
  | added (k : κ) (v : β)
  | hit (k : κ)
  | removed (k : κ)
  | evicted (k : κ)
  | cleared
  deriving DecidableEq, Repr

variable {κ β : Type}

def Effect.touches : Effect κ β → Option κ
  | .added k _ => some k
  | .hit k => some k
  | .removed _ => none
  | .evicted _ => none
  | .cleared => none

def touched (log : List (Effect κ β)) : List κ := log.filterMap Effect.touches

theorem touched_evicted (ks : List κ) (log : List (Effect κ β)) :
    touched (ks.map .evicted ++ log) = touched log := by
  induction ks with
  | nil => rfl
  | cons k ks ih =>
    simpa only [map_cons, cons_append, touched, filterMap_cons, Effect.touches] using ih

variable [DecidableEq κ]

def Effect.concerns (k : κ) : Effect κ β → Bool
  | .added k' _ => k' = k
  | .hit _ => false
  | .removed k' => k' = k
  | .evicted k' => k' = k
  | .cleared => true

def MoreRecent (log : List (Effect κ β)) (k k' : κ) : Prop :=
  (touched log).idxOf k < (touched log).idxOf k'

def Standing (log : List (Effect κ β)) (k : κ) (v : β) : Prop :=
  log.find? (Effect.concerns k) = some (.added k v)

variable {e : Effect κ β}

theorem moreRecent_of_touches {k k' : κ} (htouches : e.touches = some k) (hne : k' ≠ k)
    (log : List (Effect κ β)) : MoreRecent (e :: log) k k' := by
  have hbeq : (k == k') = false := by simpa using hne.symm
  simp [MoreRecent, touched, htouches, idxOf_cons, hbeq]

variable {log : List (Effect κ β)}

theorem MoreRecent.cons {k k' : κ} (h : MoreRecent log k k') (hk : e.touches ≠ some k)
    (hk' : e.touches ≠ some k') : MoreRecent (e :: log) k k' := by
  cases htouches : e.touches with
  | none => simpa [MoreRecent, touched, htouches] using h
  | some used =>
    have hused : (used == k) = false := by simpa [htouches] using hk
    have hused' : (used == k') = false := by simpa [htouches] using hk'
    simpa [MoreRecent, touched, htouches, idxOf_cons, hused, hused'] using h

variable {k : κ} {v : β} (h : Standing log k v)

include h

theorem Standing.cons (he : e.concerns k = false) : Standing (e :: log) k v := by
  simpa [Standing, he] using h

theorem Standing.evicted {ks : List κ} (hk : k ∉ ks) : Standing (ks.map .evicted ++ log) k v := by
  induction ks with
  | nil => exact h
  | cons k' ks ih =>
    obtain ⟨hne, hks⟩ := ne_and_not_mem_of_not_mem_cons hk
    exact (ih hks).cons (by simpa [Effect.concerns] using hne.symm)

theorem Standing.split :
    ∃ newer older, log = newer ++ .added k v :: older ∧ ∀ e ∈ newer, e.concerns k = false := by
  obtain ⟨-, newer, older, hlog, hnewer⟩ := find?_eq_some_iff_append.mp h
  exact ⟨newer, older, hlog, fun e he => by simpa using hnewer e he⟩

end

variable {κ α β : Type}

/-- `old.Value = v`, as far as the index sees it. -/
def setValues (index : κ → Option (Element α)) (old : Element α) (v : α) : κ → Option (Element α) :=
  fun k => (index k).map fun e => if e.id = old.id then { e with value := v } else e

variable [DecidableEq κ]

/-- The value comes to the front, in place of the one under its key if there is one. -/
def place (index : κ → Option (Element α)) (l : LinkedList α) (k : κ) (v : α) :
    (κ → Option (Element α)) × LinkedList α :=
  match index k with
  | some old => (setValues index old v, (l.moveToFront old).setValue old v)
  | none => (Function.update index k (some (l.pushFront v).2), (l.pushFront v).1)

structure Lru (index : κ → Option (Element α)) (l : LinkedList α) (key : α → κ)
    (log : List (Effect κ β)) : Prop where
  wf : l.Wf
  indexes : Indexes index l key
  recent : l.elems.Pairwise fun e e' => MoreRecent log (key e.value) (key e'.value)

variable {index : κ → Option (Element α)} {l : LinkedList α} {key : α → κ}

theorem Indexes.setValues (h : Indexes index l key) (hwf : l.Wf) {old : Element α} {v : α}
    (hold : index (key v) = some old) :
    setValues index old v = Function.update index (key v) (some ⟨old.id, v⟩) := by
  obtain ⟨hmem, hkeyOld⟩ := (h _ old).mp hold
  funext k
  by_cases hk : k = key v
  · simp [Library.setValues, hk, hold]
  · rw [Function.update_of_ne hk, Library.setValues]
    cases hget : index k with
    | none => rfl
    | some e =>
      obtain ⟨he, hkeyE⟩ := (h k e).mp hget
      have hid : ¬e.id = old.id := fun hid =>
        hk (by rw [← hkeyE, hwf.eq_of_id he hmem hid, hkeyOld])
      simp [hid]

theorem place_spec (hwf : l.Wf) (h : Indexes index l key) (v : α) :
    ∃ new : Element α, new.value = v ∧
      (place index l (key v) v).2.elems = new :: l.elems.filter (fun e => key e.value ≠ key v) ∧
      (place index l (key v) v).1 = Function.update index (key v) (some new) ∧
      (place index l (key v) v).2.Wf ∧
      Indexes (place index l (key v) v).1 (place index l (key v) v).2 key := by
  cases hold : index (key v) with
  | none =>
    have hplace : place index l (key v) v =
        (Function.update index (key v) (some (l.pushFront v).2), (l.pushFront v).1) := by
      rw [place, hold]
    have helems : (l.pushFront v).1.elems =
        (l.pushFront v).2 :: l.elems.filter (fun e => key e.value ≠ key v) := by
      have hother : ∀ e ∈ l.elems, key e.value ≠ key v := fun e he hkey =>
        h.ne_none he ((congrArg index hkey).trans hold)
      rw [filter_eq_self.mpr (by simpa using hother)]
      rfl
    rw [hplace]
    exact ⟨_, rfl, helems, rfl, hwf.pushFront v, h.front helems⟩
  | some old =>
    obtain ⟨hmem, hkeyOld⟩ := (h _ old).mp hold
    have hplace : place index l (key v) v =
        (Function.update index (key v) (some ⟨old.id, v⟩), (l.moveToFront old).setValue old v) := by
      rw [place, hold, ← h.setValues hwf hold]
    have helems : ((l.moveToFront old).setValue old v).elems =
        ⟨old.id, v⟩ :: l.elems.filter (fun e => key e.value ≠ key v) := by
      rw [hwf.elems_replace hmem v]
      congr 1
      refine filter_congr fun e he =>
        decide_eq_decide.mpr (not_congr ⟨fun hid => ?_, fun hkey => ?_⟩)
      · rw [hwf.eq_of_id he hmem hid, hkeyOld]
      · rw [h.inj he hmem (hkey.trans hkeyOld.symm)]
    rw [hplace]
    exact ⟨_, rfl, helems, rfl, hwf.replace hmem v, h.front helems⟩

theorem len_place (index : κ → Option (Element α)) (l : LinkedList α) (k : κ) (v : α) :
    (place index l k v).2.len = l.len + if (index k).isSome then 0 else 1 := by
  unfold place
  cases hold : index k with
  | none => rfl
  | some old =>
    have hperm := l.moveToFront_perm old
    simpa [LinkedList.len, LinkedList.setValue] using hperm.length_eq

variable {log : List (Effect κ β)} {eff : Effect κ β}

/-- What was just used comes first, the elements with other keys stay in their order. -/
theorem pairwise_used {elems rest : List (Element α)} {front : Element α}
    (h : elems.Pairwise fun e e' => MoreRecent log (key e.value) (key e'.value))
    (hsub : rest.Sublist elems) (hother : ∀ e ∈ rest, key e.value ≠ key front.value)
    (htouches : eff.touches = some (key front.value)) :
    (front :: rest).Pairwise fun e e' => MoreRecent (eff :: log) (key e.value) (key e'.value) := by
  have hkept : ∀ e ∈ rest, eff.touches ≠ some (key e.value) := by
    intro e he heq
    rw [htouches] at heq
    exact hother e he (Option.some.inj heq).symm
  refine pairwise_cons.mpr ⟨fun e he => moreRecent_of_touches htouches (hother e he) log, ?_⟩
  exact (h.sublist hsub).imp_of_mem fun he he' hrecent => hrecent.cons (hkept _ he) (hkept _ he')

namespace Lru

theorem new (key : α → κ) : Lru (fun _ => none) .new key ([] : List (Effect κ β)) :=
  ⟨.new, indexes_nil _ _, .nil⟩

variable (h : Lru index l key log)

include h

theorem hit {e : Element α} (he : e ∈ l.elems) (htouches : eff.touches = some (key e.value)) :
    Lru index (l.moveToFront e) key (eff :: log) := by
  refine ⟨h.wf.moveToFront e, h.indexes.moveToFront e, ?_⟩
  rw [h.wf.elems_moveToFront he]
  exact pairwise_used h.recent filter_sublist (fun _ => h.indexes.key_ne he) htouches

theorem place {v : α} (htouches : eff.touches = some (key v)) :
    Lru (place index l (key v) v).1 (place index l (key v) v).2 key (eff :: log) := by
  obtain ⟨new, hvalue, helems, -, hwf, hindexes⟩ := place_spec h.wf h.indexes v
  refine ⟨hwf, hindexes, ?_⟩
  rw [helems]
  refine pairwise_used h.recent filter_sublist (fun e he => ?_) (by rw [hvalue, htouches])
  rw [hvalue]
  exact of_decide_eq_true (mem_filter.mp he).2

theorem remove {e : Element α} (he : e ∈ l.elems) :
    Lru (Function.update index (key e.value) none) (l.remove e) key log :=
  ⟨h.wf.remove e, h.indexes.remove h.wf he, h.recent.sublist filter_sublist⟩

/-- When the back is removed, everything that is left was used later. -/
theorem moreRecent_back {last : Element α} (hlast : l.back = some last) {k : κ}
    (hleft : Function.update index (key last.value) none k ≠ none) :
    MoreRecent log k (key last.value) := by
  have hne : k ≠ key last.value := by
    rintro rfl
    exact hleft (Function.update_self ..)
  rw [Function.update_of_ne hne] at hleft
  obtain ⟨e, he⟩ := Option.ne_none_iff_exists'.mp hleft
  obtain ⟨hmem, rfl⟩ := (h.indexes k e).mp he
  obtain ⟨init, hinit⟩ := getLast?_eq_some_iff.mp hlast
  have hrecent := h.recent
  rw [hinit, pairwise_append] at hrecent
  rw [hinit, mem_append, mem_singleton] at hmem
  have hfront : e ∈ init := hmem.resolve_right fun heq => hne (by rw [heq])
  exact hrecent.2.2 e hfront last (mem_singleton_self last)

end Lru

end Vanguard.Library
