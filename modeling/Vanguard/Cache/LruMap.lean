import Vanguard.Cache.Placement

namespace Vanguard.Cache

open Library List Option

variable {rt : Runtime}

variable {s : LruState} {mem : Memory}

theorem LruInv.placed (h : LruInv rt s) (hsame : ∀ p, questionOf mem p = questionOf s.mem p)
    (entry : MessageCacheEntry) :
    LruInv rt ⟨s.cache, mem, s.log⟩ ∧ LruInv rt ⟨s.cache.place (keyOf rt mem entry) entry, mem,
      .added (keyOf rt mem entry) (depositOf mem entry) :: s.log⟩ := by
  have hnow : LruInv rt ⟨s.cache, s.mem, s.log⟩ := h
  have hbefore : LruInv rt ⟨s.cache, mem, s.log⟩ := hnow.congr fun e _ => hsame e.value.message
  exact ⟨hbefore, hbefore.place entry⟩

theorem LruInv.add (h : LruInv rt s) (now : Time) (message : Ptr) :
    LruInv rt (s.add rt now message) := by
  obtain ⟨mem, entry, hsame, hadd⟩ := s.add_eq rt now message
  obtain ⟨-, hplaced⟩ := h.placed hsame entry
  rw [hadd]
  have hcache : LruInv rt ⟨MessageCache.add rt s.cache mem (keyOf rt mem entry) entry, mem,
      .added (keyOf rt mem entry) (depositOf mem entry) :: s.log⟩ := by
    rcases Cache.add_eq rt s.cache mem (keyOf rt mem entry) entry with
      heq | ⟨last, hlast, -, heq⟩
    · rw [heq]
      exact hplaced
    · rw [heq]
      exact hplaced.removeElement (mem_of_getLast? hlast)
  refine hcache.evict fun k hk => ?_
  simpa using (mem_filter.mp hk).2

variable {log : List (Effect Key Deposit)}

theorem LruInv.place_ne_none {c : MessageCache} (h : LruInv rt ⟨c, mem, log⟩)
    (entry : MessageCacheEntry) {k : Key} (hk : (c.cache k).isSome) :
    (c.place (keyOf rt mem entry) entry).cache k ≠ none := by
  obtain ⟨new, -, -, hcache, -, -⟩ := place_spec h.wf h.indexes entry
  simp only [place_eq, hcache]
  by_cases hkey : k = keyOf rt mem entry
  · simp [hkey]
  · simpa [hkey, isSome_iff_ne_none] using hk

section

variable (h : LruInv rt s)

include h

/-- `Add` drops the key that was used the longest time ago. -/
theorem LruInv.dropsOldest (call : CacheCall) : s.DropsOldest rt call := by
  cases call with
  | add now message =>
    intro k hused hdropped
    obtain ⟨mem, entry, hsame, hadd⟩ := s.add_eq rt now message
    obtain ⟨hbefore, hplaced⟩ := h.placed hsame entry
    obtain ⟨new, -, helems, -⟩ := place_spec hbefore.wf hbefore.indexes entry
    rw [hadd] at hdropped ⊢
    rcases Cache.add_eq rt s.cache mem (keyOf rt mem entry) entry with
      heq | ⟨last, hlast, hfull, heq⟩
    · simp only [heq] at hdropped
      exact absurd hdropped (hbefore.place_ne_none entry hused)
    have hafter : (MessageCache.add rt s.cache mem (keyOf rt mem entry) entry).cache =
        Function.update (s.cache.place (keyOf rt mem entry) entry).cache
          (keyOf rt mem last.value) none := by
      rw [heq]
      rfl
    have honly : ∀ k, (s.cache.cache k).isSome →
        (MessageCache.add rt s.cache mem (keyOf rt mem entry) entry).cache k = none →
        k = keyOf rt mem last.value := by
      intro k hk hnone
      by_contra hne
      rw [hafter, Function.update_of_ne hne] at hnone
      exact hbefore.place_ne_none entry hk hnone
    have hk := honly k hused hdropped
    refine ⟨⟨hfull.1, ?_⟩, fun k' hk' hnone => (honly k' hk' hnone).trans hk.symm, fun k' hk' => ?_⟩
    · have hlength := hfull.2
      have hfilter := length_filter_le
        (fun e : Element MessageCacheEntry => decide (keyOf rt mem e.value ≠ keyOf rt mem entry))
        s.cache.ll.elems
      simp only [place_eq, helems, length_cons] at hlength
      simp only [LinkedList.len]
      omega
    · rw [hafter, isSome_iff_ne_none] at hk'
      have hlater := hplaced.lru.moreRecent_back hlast hk'
      rw [← hk] at hlater
      simpa only [MoreRecent, touched_evicted] using hlater
  | _ => trivial

variable {elem : Element MessageCacheEntry}

theorem LruInv.lookup {now : Time} {name : Name} {typ : RRType}
    (hlookup : MessageCache.lookup rt s.cache now s.mem name typ = some elem) :
    elem ∈ s.cache.ll.elems ∧ keyOf rt s.mem elem.value = keyForMessage rt name typ ∧
      now ≤ elem.value.expireTime ∧ (questionOf s.mem elem.value.message).name = name := by
  obtain ⟨hget, hcond⟩ := filter_eq_some_iff.mp hlookup
  obtain ⟨hmem, hkey⟩ := (h.indexes _ elem).mp hget
  simp only [Bool.and_eq_true, Bool.not_eq_true', MessageCacheEntry.isExpire,
    decide_eq_false_iff_not,
    decide_eq_true_eq] at hcond
  exact ⟨hmem, hkey, Nat.le_of_not_lt hcond.1, hcond.2⟩

theorem LruInv.findsLast (call : CacheCall) : s.FindsLast rt call := by
  cases call with
  | get now name typ =>
    intro m cache mem hget
    obtain ⟨elem, hlookup, heq⟩ := map_eq_some_iff.mp hget
    obtain rfl : elem.value.message = m := congrArg (fun r => r.1) heq
    obtain ⟨hmem, hkey, hfresh, hname⟩ := h.lookup hlookup
    obtain ⟨newer, older, hlog, hnewer⟩ := (h.standing elem hmem).split
    rw [hkey] at hlog hnewer
    exact ⟨newer, older, depositOf s.mem elem.value, hlog, rfl, hname, typ_eq_of_key hkey, hfresh,
      hnewer⟩
  | _ => trivial

theorem LruInv.hit (hmem : elem ∈ s.cache.ll.elems)
    (hsame : ∀ p, questionOf mem p = questionOf s.mem p) :
    LruInv rt ⟨{ s.cache with ll := s.cache.ll.moveToFront elem }, mem,
      .hit (keyOf rt s.mem elem.value) :: s.log⟩ := by
  have hlru := h.lru.hit (e := elem) hmem
    (rfl : (Effect.hit (keyOf rt s.mem elem.value)).touches = _)
  have hmoved : LruInv rt ⟨{ s.cache with ll := s.cache.ll.moveToFront elem }, s.mem,
      .hit (keyOf rt s.mem elem.value) :: s.log⟩ := by
    refine ⟨hlru.wf, hlru.indexes, hlru.recent, fun e he => ?_⟩
    have hold := h.standing e ((s.cache.ll.moveToFront_perm elem).mem_iff.mp he)
    exact hold.cons rfl
  exact hmoved.congr fun e _ => hsame e.value.message

theorem LruInv.remove (name : Name) (typ : RRType) :
    LruInv rt { s with cache := MessageCache.remove rt s.cache s.mem name typ,
                       log := .removed (keyForMessage rt name typ) :: s.log } := by
  have hlogged : ∀ c : MessageCache, LruInv rt ⟨c, s.mem, s.log⟩ →
      c.cache (keyForMessage rt name typ) = none →
      LruInv rt ⟨c, s.mem, .removed (keyForMessage rt name typ) :: s.log⟩ := by
    intro c hc hnone
    refine ⟨hc.wf, hc.indexes, hc.recent.imp fun hrecent => hrecent.cons nofun nofun,
      fun e he => ?_⟩
    refine (hc.standing e he).cons (decide_eq_false fun hkey => ?_)
    exact hc.indexes.ne_none he ((congrArg c.cache hkey.symm).trans hnone)
  unfold MessageCache.remove
  split
  · next ele hele =>
    obtain ⟨hmem, hkey⟩ := (h.indexes _ ele).mp hele
    refine hlogged _ (LruInv.removeElement h hmem) ?_
    rw [← hkey]
    exact Function.update_self ..
  · next hnone => exact hlogged s.cache h hnone

end

theorem LruInv.step {s s' : LruState} {call : CacheCall} (h : LruInv rt s)
    (heq : s.step rt call = .ok s') : LruInv rt s' := by
  cases call with
  | add now message =>
    cases heq
    exact h.add now message
  | get now name typ =>
    simp only [LruState.step, MessageCache.get] at heq
    cases hlookup : MessageCache.lookup rt s.cache now s.mem name typ with
    | none =>
      simp only [hlookup, map_none] at heq
      cases heq
      exact h
    | some elem =>
      simp only [hlookup, map_some] at heq
      cases heq
      obtain ⟨hmem, hkey, -⟩ := h.lookup hlookup
      rw [← hkey]
      exact h.hit hmem (questionOf_roundrobinAnswer s.mem elem.value.message)
  | remove name typ =>
    cases heq
    exact h.remove name typ
  | clear =>
    cases heq
    exact ⟨⟨nodup_nil, fun _ hmem => absurd hmem not_mem_nil⟩, indexes_nil _ _,
      List.Pairwise.nil, fun _ hmem => absurd hmem not_mem_nil⟩
  | elsewhere mem =>
    simp only [LruState.step] at heq
    split at heq
    · next hsame =>
      cases heq
      have hnow : LruInv rt ⟨s.cache, s.mem, s.log⟩ := h
      exact hnow.congr fun e he => hsame e.value.message
        (mem_filterMap.mpr ⟨_, mem_of_find?_eq_some (h.standing e he), rfl⟩)
    · cases heq

end Vanguard.Cache
