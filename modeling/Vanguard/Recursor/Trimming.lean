import Vanguard.Recursor.Sharing

namespace Vanguard.Recursor

open Library List

section

variable {T : Type}

section

variable (nc : NsasCache T)

def NsasCache.examined : List (Element ZoneEntry) :=
  nc.visitedZone.elems.reverse.take expiredZoneCheckBatch

def NsasCache.found (now : Time) : List (Element ZoneEntry) :=
  nc.examined.filter (·.value.isExpired now)

def NsasCache.others (now : Time) : List (Element ZoneEntry) :=
  nc.visitedZone.elems.filter (· ∉ nc.found now)

def NsasCache.excess (maxCacheSize : ℤ) : ℕ :=
  (nc.visitedZone.len - maxCacheSize).toNat

end

def NsasCache.evicted (nc nc' : NsasCache T) (now : Time) : List (Element ZoneEntry) :=
  nc.visitedZone.elems.filter fun e => !e.value.isExpired now && e ∉ nc'.visitedZone.elems

structure NsasCache.Trimmed (maxCacheSize : ℤ) (now : Time) (nc nc' : NsasCache T) : Prop where
  bounded : nc'.visitedZone.len ≤ maxCacheSize
  sublist : nc'.visitedZone.elems.Sublist nc.visitedZone.elems
  /-- The zones that are left were used after the unexpired zones that were given up. -/
  oldest : ∀ e ∈ nc.evicted nc' now, ∀ kept ∈ nc'.visitedZone.elems,
    [kept, e].Sublist nc.visitedZone.elems
  /-- No more of these were given up than were still too many without the expired zones. -/
  needed : ((nc.evicted nc' now).length : ℤ) ≤
    max 0 (nc.visitedZone.len - (nc.found now).length - maxCacheSize)

/-- The cache is not too large, or the zones given up have expired. -/
def NsasCache.Spares (maxCacheSize : ℤ) (now : Time) (nc : NsasCache T) : Prop :=
  nc.visitedZone.len ≤ maxCacheSize ∨
    ((nc.found now).length : ℤ) ≤ maxCacheSize ∧
      min (nc.found now).length (nc.excess maxCacheSize) ≤
        ((nc.others now).reverse.take (nc.excess maxCacheSize)).countP (·.value.isExpired now)

theorem length_others {nc : NsasCache T} (hwf : nc.visitedZone.Wf) (now : Time) :
    (nc.others now).length + (nc.found now).length = nc.visitedZone.elems.length := by
  have hnodup : nc.visitedZone.elems.Nodup := hwf.nodup.of_map
  have hfound : (nc.found now).Nodup :=
    ((nodup_reverse.mpr hnodup).sublist (take_sublist _ _)).filter _
  have hsub : ∀ e ∈ nc.found now, e ∈ nc.visitedZone.elems := fun e he =>
    mem_reverse.mp (mem_of_mem_take (mem_filter.mp he).1)
  have hperm : (nc.visitedZone.elems.filter (· ∈ nc.found now)).Perm (nc.found now) := by
    refine (perm_ext_iff_of_nodup (hnodup.filter _) hfound).mpr fun e => ?_
    simpa using hsub e
  have hsplit := length_eq_length_filter_add (l := nc.visitedZone.elems) (· ∈ nc.found now)
  rw [hperm.length_eq] at hsplit
  rw [hsplit, NsasCache.others, Nat.add_comm]
  simp

theorem filter_notMem_take {α : Type} [DecidableEq α] {l : List α} (hnodup : l.Nodup) (p : α → Bool)
    (j : ℕ) : (l.filter fun x => p x && x ∉ l.take j) = (l.drop j).filter p := by
  have hsplit : l.take j ++ l.drop j = l := take_append_drop j l
  rw [← hsplit, nodup_append] at hnodup
  have hfront : ((l.take j).filter fun x => p x && x ∉ l.take j) = [] := by
    refine filter_eq_nil_iff.mpr fun x hx => ?_
    simp [hx]
  have hback : ((l.drop j).filter fun x => p x && x ∉ l.take j) = (l.drop j).filter p := by
    refine filter_congr fun x hx => ?_
    have hnot : x ∉ l.take j := fun hmem => hnodup.2.2 x hmem x hx rfl
    simp [hnot]
  calc (l.filter fun x => p x && x ∉ l.take j)
      = ((l.take j ++ l.drop j).filter fun x => p x && x ∉ l.take j) := by rw [hsplit]
    _ = (l.drop j).filter p := by rw [filter_append, hfront, hback, nil_append]

theorem evicted_of_take {nc nc' : NsasCache T} {now : Time} {j : ℕ} (hwf : nc.visitedZone.Wf)
    (helems : nc'.visitedZone.elems = (nc.others now).take j) :
    nc.evicted nc' now = ((nc.others now).drop j).filter (fun e => !e.value.isExpired now) := by
  have hothers : nc.evicted nc' now =
      (nc.others now).filter fun e => !e.value.isExpired now && e ∉ nc'.visitedZone.elems := by
    unfold NsasCache.evicted NsasCache.others
    rw [filter_filter]
    refine filter_congr fun e _ => ?_
    by_cases hexpired : e.value.isExpired now = true
    · simp [hexpired]
    · simp [NsasCache.found, hexpired]
  rw [hothers, helems]
  exact filter_notMem_take (hwf.nodup.of_map.filter _) _ j

/-- A cut of the other zones is all right if enough of the zones behind it have expired. -/
theorem trimmed_of_take_iff {maxCacheSize : ℤ} {nc nc' : NsasCache T} {now : Time}
    (hwf : nc.visitedZone.Wf) (hlarge : maxCacheSize < nc.visitedZone.len)
    (hfound : ((nc.found now).length : ℤ) ≤ maxCacheSize)
    (helems : nc'.visitedZone.elems =
      (nc.others now).take ((nc.others now).length - nc.excess maxCacheSize)) :
    nc.Trimmed maxCacheSize now nc' ↔
      min (nc.found now).length (nc.excess maxCacheSize) ≤
        ((nc.others now).reverse.take (nc.excess maxCacheSize)).countP (·.value.isExpired now) := by
  have hlength := length_others hwf now
  have hlen : nc.visitedZone.len = nc.visitedZone.elems.length := rfl
  have hexcess : (nc.excess maxCacheSize : ℤ) = nc.visitedZone.len - maxCacheSize :=
    Int.toNat_of_nonneg (by omega)
  generalize hk : nc.excess maxCacheSize = k at *
  have hevicted := evicted_of_take hwf helems
  have hcount : ((nc.others now).reverse.take k).countP (·.value.isExpired now) =
      ((nc.others now).drop ((nc.others now).length - k)).countP (·.value.isExpired now) := by
    rw [take_reverse, countP_reverse]
  have hsum : (nc.evicted nc' now).length +
      ((nc.others now).drop ((nc.others now).length - k)).countP (·.value.isExpired now) = k := by
    have hsplit := length_eq_countP_add_countP (fun e => e.value.isExpired now)
      (l := (nc.others now).drop ((nc.others now).length - k))
    rw [hevicted, ← countP_eq_length_filter]
    simp only [length_drop, decide_not, Bool.decide_eq_true] at hsplit
    omega
  rw [hcount]
  constructor
  · intro htrimmed
    have hneeded := htrimmed.needed
    omega
  · intro hmin
    refine ⟨?_, ?_, fun e he kept hkept => ?_, ?_⟩
    · rw [LinkedList.len, helems, length_take]
      omega
    · rw [helems]
      exact (take_sublist _ _).trans filter_sublist
    · rw [hevicted] at he
      rw [helems] at hkept
      have hpair := (singleton_sublist.mpr hkept).append
        (singleton_sublist.mpr (mem_filter.mp he).1)
      rw [take_append_drop] at hpair
      exact hpair.trans filter_sublist
    · omega

end

section

variable {T : Type} [NameTree T (Element ZoneEntry)] [ErasableNameTree T (Element ZoneEntry)]
  (hash : Name → UInt32)

variable {nc : NsasCache T}

theorem removeExpired_elems (now : Time) {elems : List (Element ZoneEntry)} (hnodup : elems.Nodup)
    (hwf : nc.visitedZone.Wf) (hsub : elems ⊆ nc.visitedZone.elems) :
    (nc.removeExpired hash now elems).visitedZone.Wf ∧
    (nc.removeExpired hash now elems).visitedZone.elems =
      nc.visitedZone.elems.filter (· ∉ elems.filter (·.value.isExpired now)) := by
  induction elems generalizing nc with
  | nil => exact ⟨hwf, by simp [NsasCache.removeExpired]⟩
  | cons elem elems ih =>
    obtain ⟨hnotMem, hnodup⟩ := nodup_cons.mp hnodup
    obtain ⟨hmem, hrest⟩ := cons_subset.mp hsub
    simp only [NsasCache.removeExpired, foldl_cons]
    by_cases hexpired : elem.value.isExpired now
    · rw [if_pos hexpired]
      have hleft : (nc.removeZone hash elem).visitedZone.elems =
          nc.visitedZone.elems.filter (· ≠ elem) := hwf.remove_elems hmem
      have hrest' : elems ⊆ (nc.removeZone hash elem).visitedZone.elems := by
        intro x hx
        rw [hleft, mem_filter]
        exact ⟨hrest hx, by simpa using fun heq : x = elem => hnotMem (heq ▸ hx)⟩
      have hwf₁ : (nc.removeZone hash elem).visitedZone.Wf := hwf.remove elem
      obtain ⟨hwf', helems⟩ := ih hnodup hwf₁ hrest'
      refine ⟨hwf', helems.trans ?_⟩
      rw [hleft, filter_filter]
      refine filter_congr fun x _ => ?_
      by_cases hx : x = elem
      · simp [hx, hexpired]
      · simp [hx, hexpired]
    · rw [if_neg hexpired]
      obtain ⟨hwf', helems⟩ := ih hnodup hwf hrest
      refine ⟨hwf', helems.trans ?_⟩
      simp [hexpired]

theorem removeOldest_elems (zonesToRemove : ℕ) (hwf : nc.visitedZone.Wf)
    (hle : zonesToRemove ≤ nc.visitedZone.elems.length) :
    ∃ nc', NsasCache.removeOldest hash zonesToRemove nc = (.ok (), nc') ∧
      nc'.visitedZone.elems =
        nc.visitedZone.elems.take (nc.visitedZone.elems.length - zonesToRemove) := by
  induction zonesToRemove generalizing nc with
  | zero => exact ⟨nc, rfl, by simp⟩
  | succ zonesToRemove ih =>
    have hne : nc.visitedZone.elems ≠ [] := by
      intro hnil
      simp [hnil] at hle
    have hback : nc.visitedZone.back = some (nc.visitedZone.elems.getLast hne) :=
      getLast?_eq_some_getLast hne
    have hleft := hwf.remove_back hback
    have hwf₁ : (nc.removeZone hash (nc.visitedZone.elems.getLast hne)).visitedZone.Wf :=
      hwf.remove _
    obtain ⟨nc', hok, helems⟩ := ih hwf₁ (by
      rw [NsasCache.removeZone, hleft, length_dropLast]
      omega)
    refine ⟨nc', by rw [NsasCache.removeOldest, hback]; exact hok, helems.trans ?_⟩
    rw [NsasCache.removeZone, hleft, length_dropLast, dropLast_eq_take, take_take]
    congr 1
    omega

theorem removeOldest_of_lt (zonesToRemove : ℕ) (hwf : nc.visitedZone.Wf)
    (hlt : nc.visitedZone.elems.length < zonesToRemove) :
    (NsasCache.removeOldest hash zonesToRemove nc).1 = .error .nilElement := by
  induction zonesToRemove generalizing nc with
  | zero => omega
  | succ zonesToRemove ih =>
    rw [NsasCache.removeOldest]
    cases hback : nc.visitedZone.back with
    | none => rfl
    | some elem =>
      have hpos := length_pos_of_mem (mem_of_getLast? hback)
      refine ih (hwf.remove elem) ?_
      rw [NsasCache.removeZone, hwf.remove_back hback, length_dropLast]
      omega

/-- Of a cache that is too large the list is cut, after a panic if too much has expired. -/
theorem enforceMemoryLimit_of_large {maxCacheSize : ℤ} (now : Time) (hwf : nc.visitedZone.Wf)
    (hlarge : maxCacheSize < nc.visitedZone.len) :
    if ((nc.found now).length : ℤ) ≤ maxCacheSize then
      ∃ nc', nc.enforceMemoryLimit hash maxCacheSize now = (.ok (), nc') ∧
        nc'.visitedZone.elems =
          (nc.others now).take ((nc.others now).length - nc.excess maxCacheSize)
    else (nc.enforceMemoryLimit hash maxCacheSize now).1 = .error .nilElement := by
  have hcalls : nc.enforceMemoryLimit hash maxCacheSize now =
      NsasCache.removeOldest hash (nc.excess maxCacheSize)
        (nc.removeExpired hash now nc.examined) := if_neg (Int.not_le.mpr hlarge)
  have hnodup : nc.examined.Nodup := (nodup_reverse.mpr hwf.nodup.of_map).sublist (take_sublist _ _)
  have hsub : nc.examined ⊆ nc.visitedZone.elems := fun e he =>
    mem_reverse.mp (mem_of_mem_take he)
  obtain ⟨hwf', hothers⟩ := removeExpired_elems hash now hnodup hwf hsub
  have hleft : (nc.removeExpired hash now nc.examined).visitedZone.elems = nc.others now := hothers
  have hlength := length_others hwf now
  have hlen : nc.visitedZone.len = nc.visitedZone.elems.length := rfl
  have hexcess : (nc.excess maxCacheSize : ℤ) = nc.visitedZone.len - maxCacheSize :=
    Int.toNat_of_nonneg (by omega)
  rw [hcalls, ← hleft] at *
  split
  · exact removeOldest_elems hash _ hwf' (by omega)
  · exact removeOldest_of_lt hash _ hwf' (by omega)

variable [LawfulErasableNameTree T (Element ZoneEntry)]

/-- The limit is enforced as it should exactly if unexpired zones are spared. -/
theorem enforceMemoryLimit_trimmed_iff (maxCacheSize : ℤ) (now : Time) {nc : NsasCache T}
    (hwf : nc.visitedZone.Wf) :
    (nc.InStep → (nc.enforceMemoryLimit hash maxCacheSize now).2.InStep) ∧
    ((∃ nc', nc.enforceMemoryLimit hash maxCacheSize now = (.ok (), nc') ∧
        nc.Trimmed maxCacheSize now nc') ↔ nc.Spares maxCacheSize now) := by
  refine ⟨fun hstep => (NsasCache.Rep.enforceMemoryLimit hash maxCacheSize now ⟨hstep, hwf⟩).inStep,
    ?_⟩
  by_cases hsmall : (nc.visitedZone.len : ℤ) ≤ maxCacheSize
  · have hnone : nc.evicted nc now = [] := by
      refine filter_eq_nil_iff.mpr fun e he => ?_
      simp [he]
    refine iff_of_true ⟨nc, if_pos hsmall, hsmall, .refl _, ?_, ?_⟩ (.inl hsmall)
    · simp [hnone]
    · rw [hnone]
      exact Int.le_max_left 0 _
  · have hlarge : maxCacheSize < nc.visitedZone.len := Int.not_le.mp hsmall
    have hcalls := enforceMemoryLimit_of_large hash now hwf hlarge
    by_cases hfound : ((nc.found now).length : ℤ) ≤ maxCacheSize
    · rw [if_pos hfound] at hcalls
      obtain ⟨nc', hok, helems⟩ := hcalls
      rw [hok, NsasCache.Spares, or_iff_right hsmall, and_iff_right hfound,
        ← trimmed_of_take_iff hwf hlarge hfound helems]
      exact ⟨fun ⟨_, heq, htrimmed⟩ => (Prod.mk.inj heq).2 ▸ htrimmed,
        fun htrimmed => ⟨nc', rfl, htrimmed⟩⟩
    · rw [if_neg hfound] at hcalls
      refine iff_of_false (fun ⟨nc', hok, _⟩ => ?_) fun hspares => ?_
      · rw [hok] at hcalls
        cases hcalls
      · rcases hspares with hspares | hspares
        · exact hsmall hspares
        · exact hfound hspares.1

end

/-- One of two unexpired zones is given up. -/
theorem example_oldest_given_up :
    ∃ nc', (exampleZones ["ns", "com"] ["ns", "com"]).enforceMemoryLimit exampleHash 1 0 =
        (.ok (), nc') ∧ (exampleZones ["ns", "com"] ["ns", "com"]).Trimmed 1 0 nc' := by
  have hwf : (exampleZones ["ns", "com"] ["ns", "com"]).visitedZone.Wf := ⟨by decide, by decide⟩
  exact (enforceMemoryLimit_trimmed_iff exampleHash 1 0 hwf).2.mpr (.inr (by decide))

/-- `b.com.` is given up although it has not expired; with both expired there is a panic. -/
theorem example_unexpired_given_up :
    ((exampleZones ["ns", "com"] ["ns", "com"]).enforceMemoryLimit exampleHash 1 11000000000).1 =
        .ok () ∧
      (exampleZones ["ns", "com"] ["ns", "com"]).evicted ((exampleZones ["ns", "com"]
        ["ns", "com"]).enforceMemoryLimit exampleHash 1 11000000000).2 11000000000 =
          [exampleElement 1 ["b", "com"] ["ns", "com"] 3600000000000] ∧
      ¬(exampleZones ["ns", "com"] ["ns", "com"]).Trimmed 1 11000000000 ((exampleZones ["ns", "com"]
        ["ns", "com"]).enforceMemoryLimit exampleHash 1 11000000000).2 ∧
      ((exampleZones ["ns", "com"] ["ns", "com"]).enforceMemoryLimit exampleHash 1
        3601000000000).1 = .error .nilElement :=
  ⟨by decide, by decide, fun htrimmed => absurd htrimmed.needed (by decide), by decide⟩

end Vanguard.Recursor
