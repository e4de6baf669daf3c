import Mathlib.Algebra.GroupWithZero.Nat
import Mathlib.Data.List.Nodup
import Vanguard.LocalData.Policies

namespace Vanguard.LocalData

open List

def UniqueTypes (rrsets : List (RRset Rdata)) : Prop := (rrsets.map RRset.typ).Nodup

def dropRdatas (gone old : RRset Rdata) : Option (RRset Rdata) :=
  if old.typ = gone.typ then
    if gone.rdatas.foldl List.erase old.rdatas = [] then none
    else some { old with rdatas := gone.rdatas.foldl List.erase old.rdatas }
  else some old

/-- What `deleteRRset` is for: the rdatas are removed from the RRset of the type. -/
def dropRRset (rrsets : List (RRset Rdata)) (gone : RRset Rdata) : List (RRset Rdata) :=
  rrsets.filterMap (dropRdatas gone)

section dropping

variable {gone : RRset Rdata}

variable {rrsets : List (RRset Rdata)}

theorem dropRRset_eq_self_iff :
    dropRRset rrsets gone = rrsets ↔ ∀ r ∈ rrsets, dropRdatas gone r = some r := by
  have hmap := filterMap_eq_map_iff_forall_eq_some (f := dropRdatas gone) (g := id) (l := rrsets)
  rwa [map_id] at hmap

theorem dropRRset_of_ne (hne : ∀ r ∈ rrsets, r.typ ≠ gone.typ) : dropRRset rrsets gone = rrsets :=
  dropRRset_eq_self_iff.mpr fun r hr => if_neg (hne r hr)

theorem dropRdatas_eq_self_iff {old : RRset Rdata} {d : Rdata} (hd : gone.rdatas = [d])
    (hold : old.rdatas ≠ []) :
    dropRdatas gone old = some old ↔ (old.typ = gone.typ → d ∉ old.rdatas) := by
  unfold dropRdatas
  rw [hd]
  by_cases htyp : old.typ = gone.typ
  · rw [if_pos htyp, foldl_cons, foldl_nil, ← erase_eq_self_iff]
    constructor
    · intro heq _
      split_ifs at heq
      exact congrArg RRset.rdatas (Option.some.inj heq)
    · intro hself
      rw [hself htyp, if_neg hold]
  · simp [htyp]

theorem mem_dropRRset {r : RRset Rdata} (hr : r ∈ dropRRset rrsets gone) :
    (r ∈ rrsets ∧ r.typ ≠ gone.typ) ∨ ∃ old ∈ rrsets, old.typ = gone.typ ∧ r.rdatas ≠ [] ∧
      r = { old with rdatas := gone.rdatas.foldl List.erase old.rdatas } := by
  obtain ⟨old, hold, heq⟩ := mem_filterMap.mp hr
  unfold dropRdatas at heq
  split_ifs at heq with htyp hnil
  · cases heq
    exact .inr ⟨old, hold, htyp, hnil, rfl⟩
  · cases heq
    exact .inl ⟨hold, htyp⟩

theorem foldl_erase_subset (gone rdatas : List Rdata) :
    gone.foldl List.erase rdatas ⊆ rdatas := by
  induction gone generalizing rdatas with
  | nil => exact List.Subset.refl rdatas
  | cons d gone ih => exact List.Subset.trans (ih (rdatas.erase d)) erase_subset

theorem foldl_dropRRset_subset (gone rrsets : List (RRset Rdata)) :
    ∀ r ∈ gone.foldl dropRRset rrsets, ∃ old ∈ rrsets, old.typ = r.typ ∧ r.rdatas ⊆ old.rdatas := by
  induction gone generalizing rrsets with
  | nil => exact fun r hr => ⟨r, hr, rfl, List.Subset.refl _⟩
  | cons g gone ih =>
    intro r hr
    obtain ⟨mid, hmid, htyp, hsub⟩ := ih (dropRRset rrsets g) r hr
    rcases mem_dropRRset hmid with ⟨hmem, -⟩ | ⟨old, hold, -, -, rfl⟩
    · exact ⟨mid, hmem, htyp, hsub⟩
    · exact ⟨old, hold, htyp, List.Subset.trans hsub (foldl_erase_subset g.rdatas old.rdatas)⟩

theorem UniqueTypes.dropRRset (h : UniqueTypes rrsets) (gone : RRset Rdata) :
    UniqueTypes (dropRRset rrsets gone) := by
  refine h.sublist ?_
  unfold LocalData.dropRRset
  clear h
  induction rrsets with
  | nil => exact .slnil
  | cons r rrsets ih =>
    rw [filterMap_cons, dropRdatas]
    split_ifs
    · exact ih.cons _
    · exact ih.cons_cons _
    · exact ih.cons_cons _

variable {slice : List (RRset Rdata)}

theorem deleteLoop_skip {count : ℕ} (k rounds i : ℕ) (hlen : i + k ≤ slice.length)
    (hne : ∀ j r, i ≤ j → j < i + k → slice[j]? = some r → r.typ ≠ gone.typ) :
    deleteLoop gone (k + rounds) i slice count = deleteLoop gone rounds (i + k) slice count := by
  induction k generalizing i with
  | zero => simp
  | succ k ih =>
    have hi : slice[i]? = some slice[i] := getElem?_eq_getElem (by omega)
    have hstep : deleteLoop gone (k + 1 + rounds) i slice count =
        deleteLoop gone (k + rounds) (i + 1) slice count := by
      rw [Nat.add_right_comm, deleteLoop]
      simp [hi, hne i _ le_rfl (by omega) hi]
    rw [hstep, ih (i + 1) (by omega) fun j r hj hlt => hne j r (by omega) (by omega)]
    congr 1
    omega

theorem deleteLoop_end {count : ℕ} (rounds i : ℕ) (hlen : i + rounds ≤ slice.length)
    (hne : ∀ j r, i ≤ j → j < i + rounds → slice[j]? = some r → r.typ ≠ gone.typ) :
    deleteLoop gone rounds i slice count = some (slice, count) :=
  deleteLoop_skip rounds 0 i hlen hne

theorem moved_down (before after : List (RRset Rdata)) (r : RRset Rdata) : ∃ left,
    (after ≠ [] → left ∈ after) ∧
    (before ++ r :: after).take before.length ++
      ((before ++ r :: after).take (before.length + (after.length + 1))).drop (before.length + 1) ++
      (before ++ r :: after).drop (before.length + (after.length + 1) - 1) =
        before ++ after ++ [left] := by
  have hlen : (before ++ r :: after).length = before.length + (after.length + 1) := by simp
  have hdrop : (before ++ r :: after).drop (before.length + (after.length + 1) - 1) =
      (r :: after).drop after.length := by
    rw [show before.length + (after.length + 1) - 1 = before.length + after.length by omega,
      ← drop_drop, drop_left]
  have hone : ((r :: after).drop after.length).length = 1 := by simp
  obtain ⟨left, hleft⟩ := length_eq_one_iff.mp hone
  refine ⟨left, fun hne => ?_, ?_⟩
  · obtain ⟨k, hk⟩ := Nat.exists_eq_succ_of_ne_zero fun hzero =>
      hne (length_eq_zero_iff.mp hzero)
    rw [hk, drop_succ_cons] at hleft
    exact mem_of_mem_drop (hleft ▸ mem_singleton_self left)
  · have hafter : (before ++ r :: after).drop (before.length + 1) = after := by
      rw [append_cons, drop_left' (by simp)]
    rw [hdrop, hleft, ← hlen, take_length, take_left, hafter]

theorem deleteRRset_append {before after : List (RRset Rdata)} {old : RRset Rdata}
    (hbefore : ∀ r ∈ before, r.typ ≠ gone.typ) (hafter : ∀ r ∈ after, r.typ ≠ gone.typ)
    (htyp : old.typ = gone.typ) :
    deleteRRset (before ++ old :: after) gone =
      if gone.rdatas.foldl List.erase old.rdatas = [] then some (before ++ after)
      else some (before ++
        { old with rdatas := gone.rdatas.foldl List.erase old.rdatas } :: after) := by
  have hlen : (before ++ old :: after).length = before.length + (after.length + 1) := by simp
  have hskip : ∀ j r, 0 ≤ j → j < 0 + before.length → (before ++ old :: after)[j]? = some r →
      r.typ ≠ gone.typ := by
    intro j r _ hj hr
    rw [getElem?_append_left (by omega)] at hr
    exact hbefore r (mem_of_getElem? hr)
  have hat : (before ++ old :: after)[before.length]? = some old := by simp
  have hset : ∀ r, (before ++ old :: after).set before.length r = before ++ r :: after := by
    intro r
    simp
  unfold deleteRRset
  rw [hlen, deleteLoop_skip before.length (after.length + 1) 0 (by simp) hskip, Nat.zero_add,
    deleteLoop]
  simp only [hat, if_pos htyp, hset]
  split_ifs with hnil hcount
  · obtain ⟨left, hleft, hmoved⟩ := moved_down before after
      { old with rdatas := gone.rdatas.foldl List.erase old.rdatas }
    rw [hmoved, deleteLoop_end]
    · rw [Option.map_some, take_left' (by simp)]
    · simp
      omega
    · intro j r hj hlt hr
      have hne : after ≠ [] := by
        rintro rfl
        simp at hlt
        omega
      rw [append_assoc, getElem?_append_right (by omega)] at hr
      rcases mem_append.mp (mem_of_getElem? hr) with hmem | hmem
      · exact hafter r hmem
      · rw [mem_singleton.mp hmem]
        exact hafter left (hleft hne)
  · omega
  · rw [deleteLoop_end]
    · simp
    · simp
      omega
    · intro j r hj hlt hr
      rw [getElem?_append_right (by omega), getElem?_cons, if_neg (by omega)] at hr
      exact hafter r (mem_of_getElem? hr)

theorem deleteRRset_eq (hunique : UniqueTypes rrsets) (gone : RRset Rdata) :
    deleteRRset rrsets gone = some (dropRRset rrsets gone) := by
  by_cases hmem : ∃ old ∈ rrsets, old.typ = gone.typ
  · obtain ⟨old, hold, htyp⟩ := hmem
    obtain ⟨before, after, rfl⟩ := append_of_mem hold
    have hothers : (∀ r ∈ before, r.typ ≠ gone.typ) ∧ ∀ r ∈ after, r.typ ≠ gone.typ := by
      rw [← htyp]
      unfold UniqueTypes at hunique
      rw [map_append, map_cons, nodup_middle, nodup_cons] at hunique
      constructor
      · intro r hr heq
        exact hunique.1 (mem_append_left _ (heq ▸ mem_map_of_mem hr))
      · intro r hr heq
        exact hunique.1 (mem_append_right _ (heq ▸ mem_map_of_mem hr))
    have hdrop : dropRRset (before ++ old :: after) gone =
        dropRRset before gone ++ dropRRset [old] gone ++ dropRRset after gone := by
      simp [dropRRset, ← filterMap_append]
    rw [deleteRRset_append hothers.1 hothers.2 htyp, hdrop, dropRRset_of_ne hothers.1,
      dropRRset_of_ne hothers.2]
    split_ifs with hnil
    · simp [dropRRset, dropRdatas, htyp, hnil]
    · simp [dropRRset, dropRdatas, htyp, hnil]
  · have hne : ∀ r ∈ rrsets, r.typ ≠ gone.typ := fun r hr heq => hmem ⟨r, hr, heq⟩
    unfold deleteRRset
    rw [deleteLoop_end rrsets.length 0 (by omega) fun j r _ _ hr =>
      hne r (mem_of_getElem? hr), dropRRset_of_ne hne]
    simp

end dropping

section adding

variable {new : RRset Rdata} {d : Rdata} {rrsets : List (RRset Rdata)}

theorem addRRsets_singleton (rrsets : List (RRset Rdata)) (new : RRset Rdata) :
    addRRsets rrsets [new] = addRRset new rrsets := by
  unfold addRRsets
  split
  · next h => exact h.symm
  · next h => exact h.symm

theorem addRdatas_singleton (old : List Rdata) (d : Rdata) :
    addRdatas old [d] = if d ∈ old then (old, false) else (old ++ [d], true) := by
  simp [addRdatas]

theorem addRRset_cons_of_eq {old : RRset Rdata} (htyp : old.typ = new.typ) :
    addRRset new (old :: rrsets) =
      ({ old with
          rdatas := (addRdatas old.rdatas new.rdatas).1
          ttl := if (addRdatas old.rdatas new.rdatas).2 then new.ttl else old.ttl } :: rrsets,
        (addRdatas old.rdatas new.rdatas).2) := by
  rw [addRRset, if_pos htyp]

theorem addRRset_cons_of_ne {old : RRset Rdata} (htyp : old.typ ≠ new.typ) :
    addRRset new (old :: rrsets) = (old :: (addRRset new rrsets).1, (addRRset new rrsets).2) := by
  rw [addRRset, if_neg htyp]

theorem addRRset_of_refused (hd : new.rdatas = [d]) (hrefused : (addRRset new rrsets).2 = false) :
    (addRRset new rrsets).1 = rrsets := by
  induction rrsets with
  | nil => cases hrefused
  | cons old rrsets ih =>
    by_cases htyp : old.typ = new.typ
    · rw [addRRset_cons_of_eq htyp, hd, addRdatas_singleton] at hrefused ⊢
      by_cases hmem : d ∈ old.rdatas
      · simp [hmem]
      · simp [hmem] at hrefused
    · rw [addRRset_cons_of_ne htyp] at hrefused ⊢
      rw [ih hrefused]

def rdataCount (rrsets : List (RRset Rdata)) : ℕ := (rrsets.map fun r => r.rdatas.length).sum

theorem addRRset_of_accepted (hd : new.rdatas = [d]) (hok : (addRRset new rrsets).2 = true) :
    rdataCount (addRRset new rrsets).1 = rdataCount rrsets + 1 ∧
      ∃ r, (addRRset new rrsets).1.find? (fun r => r.typ = new.typ) = some r ∧ d ∈ r.rdatas := by
  induction rrsets with
  | nil => simp [addRRset, rdataCount, hd]
  | cons old rrsets ih =>
    by_cases htyp : old.typ = new.typ
    · rw [addRRset_cons_of_eq htyp, hd, addRdatas_singleton] at hok ⊢
      by_cases hmem : d ∈ old.rdatas
      · simp [hmem] at hok
      · simp [hmem, htyp, rdataCount]
        omega
    · rw [addRRset_cons_of_ne htyp] at hok ⊢
      obtain ⟨hcount, hfind⟩ := ih hok
      refine ⟨?_, ?_⟩
      · simp only [rdataCount, map_cons, sum_cons] at hcount ⊢
        omega
      · rw [find?_cons_of_neg (by simpa using htyp)]
        exact hfind

theorem types_addRRset (new : RRset Rdata) (rrsets : List (RRset Rdata)) :
    (addRRset new rrsets).1.map RRset.typ =
      if new.typ ∈ rrsets.map RRset.typ then rrsets.map RRset.typ
      else rrsets.map RRset.typ ++ [new.typ] := by
  induction rrsets with
  | nil => simp [addRRset]
  | cons old rrsets ih =>
    by_cases htyp : old.typ = new.typ
    · simp [addRRset_cons_of_eq htyp, htyp]
    · have hne : new.typ ≠ old.typ := Ne.symm htyp
      rw [addRRset_cons_of_ne htyp, map_cons, ih]
      by_cases hmem : new.typ ∈ rrsets.map RRset.typ
      · rw [if_pos hmem, map_cons, if_pos (mem_cons_of_mem _ hmem)]
      · rw [if_neg hmem, map_cons, if_neg (by simpa [hne] using hmem), cons_append]

theorem UniqueTypes.addRRset (h : UniqueTypes rrsets) (new : RRset Rdata) :
    UniqueTypes (addRRset new rrsets).1 := by
  unfold UniqueTypes
  rw [types_addRRset]
  split_ifs with hmem
  · exact h
  · refine nodup_append.mpr ⟨h, by simp, ?_⟩
    rintro a ha b hb rfl
    rw [mem_singleton.mp hb] at ha
    exact hmem ha

theorem rdatas_addRdatas_ne_nil {old : List Rdata} (hold : old ≠ []) (new : List Rdata) :
    (addRdatas old new).1 ≠ [] := by
  induction new generalizing old with
  | nil => exact hold
  | cons rdata rdatas ih =>
    unfold addRdatas
    split_ifs
    · exact hold
    · exact ih (by simp)

theorem rdatas_addRRset_ne_nil (hnew : new.rdatas ≠ []) (hrrsets : ∀ r ∈ rrsets, r.rdatas ≠ []) :
    ∀ r ∈ (addRRset new rrsets).1, r.rdatas ≠ [] := by
  induction rrsets with
  | nil => simpa [addRRset] using hnew
  | cons old rrsets ih =>
    intro r hr
    by_cases htyp : old.typ = new.typ
    · rw [addRRset_cons_of_eq htyp] at hr
      rcases mem_cons.mp hr with rfl | hr
      · exact rdatas_addRdatas_ne_nil (hrrsets old mem_cons_self) _
      · exact hrrsets r (mem_cons_of_mem _ hr)
    · rw [addRRset_cons_of_ne htyp] at hr
      rcases mem_cons.mp hr with rfl | hr
      · exact hrrsets r mem_cons_self
      · exact ih (fun r' hr' => hrrsets r' (mem_cons_of_mem _ hr')) r hr

end adding

end Vanguard.LocalData
