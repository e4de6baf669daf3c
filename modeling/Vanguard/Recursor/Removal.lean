import Vanguard.Recursor.Bailiwick
import Vanguard.Recursor.Select

namespace Vanguard.Recursor

open Library List

section

variable {T : Type} [NameTree T (Element ZoneEntry)]

def NsasCache.InStep (nc : NsasCache T) : Prop :=
  ∀ n, nc.entriesOf n = (NameTree.get nc.zones n).toList

variable {elem : Element ZoneEntry}

theorem NsasCache.InStep.mem {nc : NsasCache T} (h : nc.InStep) {n : Name}
    (hget : NameTree.get nc.zones n = some elem) :
    elem ∈ nc.visitedZone.elems ∧ elem.value.zone = n := by
  have hmem : elem ∈ nc.entriesOf n := by simp [h n, hget]
  simpa [NsasCache.entriesOf] using hmem

theorem NsasCache.InStep.get {nc : NsasCache T} (h : nc.InStep)
    (helem : elem ∈ nc.visitedZone.elems) : NameTree.get nc.zones elem.value.zone = some elem := by
  have hmem : elem ∈ nc.entriesOf elem.value.zone := by simp [NsasCache.entriesOf, helem]
  simpa [h elem.value.zone] using hmem

theorem NsasCache.InStep.of_sameZone {nc nc' : NsasCache T} (h : nc.InStep)
    (hsame : ∀ n, SameZone nc nc' n) : nc'.InStep := by
  intro n
  obtain ⟨hget, hperm⟩ := hsame n
  rw [h n] at hperm
  rw [hget]
  cases hn : NameTree.get nc.zones n with
  | none =>
    rw [hn] at hperm
    exact hperm.eq_nil
  | some elem =>
    rw [hn] at hperm
    exact perm_singleton.mp hperm

/-- The tree and the list are in step and the ids of the list apart. -/
structure NsasCache.Rep (nc : NsasCache T) : Prop where
  inStep : nc.InStep
  wf : nc.visitedZone.Wf

end

section

variable {T : Type} [NameTree T (Element ZoneEntry)] [ErasableNameTree T (Element ZoneEntry)]
  [LawfulErasableNameTree T (Element ZoneEntry)] (hash : Name → UInt32)

variable {nc : NsasCache T} {elem : Element ZoneEntry}

theorem NsasCache.InStep.removeZone (hstep : nc.InStep) (hwf : nc.visitedZone.Wf)
    (helem : elem ∈ nc.visitedZone.elems) : (nc.removeZone hash elem).InStep := by
  intro n
  have hmem : ∀ x, x ∈ (nc.removeZone hash elem).entriesOf n ↔ x ∈ nc.entriesOf n ∧ x ≠ elem := by
    intro x
    simp only [NsasCache.entriesOf, NsasCache.removeZone, mem_filter, hwf.mem_remove helem]
    tauto
  have hsub : List.Sublist ((nc.removeZone hash elem).entriesOf n) (nc.entriesOf n) :=
    filter_sublist.filter _
  have hget : NameTree.get (nc.removeZone hash elem).zones n =
      if n = elem.value.zone then none else NameTree.get nc.zones n :=
    LawfulErasableNameTree.get_delete _ _ _
  by_cases hn : n = elem.value.zone
  · have honly : nc.entriesOf n = [elem] := by rw [hn, hstep, hstep.get helem, Option.toList]
    rw [hget, if_pos hn, Option.toList, eq_nil_iff_forall_not_mem]
    intro x hx
    rw [hmem, honly, mem_singleton] at hx
    exact hx.2 hx.1
  · rw [hget, if_neg hn, ← hstep n]
    refine hsub.eq_of_length_le ?_
    rw [hstep n]
    cases hold : NameTree.get nc.zones n with
    | none => simp
    | some x =>
      have hne : x ≠ elem := fun heq => hn (by rw [← heq, (hstep.mem hold).2])
      have hx : x ∈ (nc.removeZone hash elem).entriesOf n :=
        (hmem x).mpr ⟨by simp [hstep n, hold], hne⟩
      simpa [Nat.succ_le_iff] using length_pos_of_mem hx

theorem NsasCache.Rep.removeZone (h : nc.Rep) (helem : elem ∈ nc.visitedZone.elems) :
    (nc.removeZone hash elem).Rep :=
  ⟨h.inStep.removeZone hash h.wf helem, h.wf.remove elem⟩

theorem NsasCache.Rep.removeExpired (now : Time) {elems : List (Element ZoneEntry)}
    (hnodup : elems.Nodup) (h : nc.Rep) (hsub : ∀ elem ∈ elems, elem ∈ nc.visitedZone.elems) :
    (nc.removeExpired hash now elems).Rep := by
  induction elems generalizing nc with
  | nil => exact h
  | cons elem elems ih =>
    obtain ⟨hnotMem, hnodup⟩ := nodup_cons.mp hnodup
    have hmem := hsub elem mem_cons_self
    have hrest : ∀ x ∈ elems, x ∈ nc.visitedZone.elems := fun x hx => hsub x (mem_cons_of_mem _ hx)
    simp only [NsasCache.removeExpired, foldl_cons]
    by_cases hexpired : elem.value.isExpired now
    · rw [if_pos hexpired]
      refine ih hnodup (h.removeZone hash hmem) fun x hx => ?_
      exact (h.wf.mem_remove hmem).mpr ⟨hrest x hx, fun heq => hnotMem (heq ▸ hx)⟩
    · rw [if_neg hexpired]
      exact ih hnodup h hrest

theorem NsasCache.Rep.removeOldest (zonesToRemove : ℕ) (h : nc.Rep) :
    (NsasCache.removeOldest hash zonesToRemove nc).2.Rep := by
  induction zonesToRemove generalizing nc with
  | zero => exact h
  | succ zonesToRemove ih =>
    unfold NsasCache.removeOldest
    cases hback : nc.visitedZone.back with
    | none => exact h
    | some elem => exact ih (h.removeZone hash (mem_of_getLast? hback))

theorem NsasCache.Rep.enforceMemoryLimit (maxCacheSize : ℤ) (now : Time) (h : nc.Rep) :
    (nc.enforceMemoryLimit hash maxCacheSize now).2.Rep := by
  unfold NsasCache.enforceMemoryLimit
  simp only []
  split
  · exact h
  · refine NsasCache.Rep.removeOldest hash _ (h.removeExpired hash now ?_ ?_)
    · exact ((nodup_reverse.mpr h.wf.nodup.of_map).sublist (take_sublist _ _))
    · exact fun elem helem => mem_reverse.mp (mem_of_mem_take helem)

variable [LawfulNameTree T (Element ZoneEntry)]

omit [ErasableNameTree T (Element ZoneEntry)] [LawfulErasableNameTree T (Element ZoneEntry)] in
theorem NsasCache.Rep.mem_of_search (h : nc.Rep) {n : Name}
    (hsearch : NameTree.search nc.zones n = .exactMatch elem ∨
      NameTree.search nc.zones n = .closestEncloser elem) :
    elem ∈ nc.visitedZone.elems ∧ elem.value.zone ∈ n.tails := by
  obtain ⟨m, hm, hget⟩ := NameTree.get_of_search hsearch
  obtain ⟨hmem, hzone⟩ := h.inStep.mem hget
  exact ⟨hmem, by rwa [hzone]⟩

variable (now : Time) (zone : Name) (searches : ℕ) (h : nc.Rep)

include h

omit [LawfulErasableNameTree T (Element ZoneEntry)] in
theorem selectNameServers_succ :
    (∃ result nc',
      NsasCache.selectNameServers hash now zone (searches + 1) nc = (some result, nc') ∧
      nc'.Rep) ∨
    ∃ elem ∈ nc.visitedZone.elems, elem.value.zone ∈ zone.tails ∧
      NsasCache.selectNameServers hash now zone (searches + 1) nc =
        NsasCache.selectNameServers hash now zone searches (nc.removeZone hash elem) := by
  by_cases hfound : ∃ elem, NameTree.search nc.zones zone = .exactMatch elem ∨
      NameTree.search nc.zones zone = .closestEncloser elem
  · obtain ⟨elem, hsearch⟩ := hfound
    obtain ⟨hmem, htail⟩ := h.mem_of_search hsearch
    have hvisit : ({ nc with visitedZone := nc.visitedZone.moveToFront elem } : NsasCache T).Rep :=
      ⟨h.inStep.of_sameZone fun _ => ⟨rfl, (nc.visitedZone.moveToFront_perm elem).filter _⟩,
        h.wf.moveToFront elem⟩
    rw [NsasCache.selectNameServers_found hash hsearch]
    by_cases hexpired : elem.value.isExpired now
    · exact .inr ⟨elem, hmem, htail, by rw [if_pos hexpired]⟩
    · rw [if_neg hexpired]
      cases hselect : elem.value.selectNameServer hash nc.nameServers now with
      | error f => exact .inl ⟨_, _, rfl, h⟩
      | ok servers =>
        cases servers with
        | nil => exact .inr ⟨elem, hmem, htail, rfl⟩
        | cons server servers => exact .inl ⟨_, _, rfl, hvisit⟩
  · exact .inl ⟨.ok [], nc, NsasCache.selectNameServers_none hash hfound, h⟩

theorem NsasCache.Rep.selectNameServers :
    (NsasCache.selectNameServers hash now zone searches nc).2.Rep := by
  induction searches generalizing nc with
  | zero => exact h
  | succ searches ih =>
    rcases selectNameServers_succ hash now zone searches h with
      ⟨result, nc', heq, hrep⟩ | ⟨elem, hmem, -, heq⟩
    · rw [heq]
      exact hrep
    · rw [heq]
      exact ih (h.removeZone hash hmem)

end

end Vanguard.Recursor
