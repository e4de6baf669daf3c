import Vanguard.Cache.Placement

namespace Vanguard.Cache

open Library List

def LeastOf (ttl : UInt32) (ttls : List UInt32) : Prop := ttl ∈ ttls ∧ ∀ t ∈ ttls, ttl ≤ t

instance (ttl : UInt32) (ttls : List UInt32) : Decidable (LeastOf ttl ttls) :=
  inferInstanceAs (Decidable (ttl ∈ ttls ∧ ∀ t ∈ ttls, ttl ≤ t))

def ttlOf (mem : Memory) (p : Ptr) : UInt32 := (mem.rrsets.load p).ttl

/-- `time.Duration(ttl) * time.Second`, in the 64 bits of a `Duration`. -/
def nanoseconds (ttl : UInt32) : Int64 := Int64.ofNat ttl.toNat * 1000000000

theorem toInt_nanoseconds (ttl : UInt32) : (nanoseconds ttl).toInt = ttl.toNat * 1000000000 := by
  have hlt := ttl.toNat_lt
  have httl : (Int64.ofNat ttl.toNat).toInt = ttl.toNat := Int64.toInt_ofNat_of_lt (by omega)
  have hsecond : (1000000000 : Int64).toInt = 1000000000 := rfl
  rw [nanoseconds, Int64.toInt_mul, httl, hsecond]
  exact Int.bmod_eq_of_le (by omega) (by omega)

theorem ttlOf_modifyRRset (mem : Memory) (p q : Ptr) (ttl : UInt32) :
    ttlOf (mem.modifyRRset p fun r => { r with ttl }) q = if q = p then ttl else ttlOf mem q := by
  by_cases hq : q = p
  · simp [ttlOf, Memory.modifyRRset, hq]
  · simp [ttlOf, Memory.modifyRRset, Heap.load_write_of_ne hq, hq]

theorem clampTtl_spec {cap t : UInt32} (ht : t ≤ cap) (mem : Memory) (p : Ptr) :
    LeastOf (clampTtl cap (mem, t) p).2 [t, ttlOf mem p] ∧
      ∀ q, ttlOf (clampTtl cap (mem, t) p).1 q =
        if q = p ∧ cap < ttlOf mem q then cap else ttlOf mem q := by
  have hload : (mem.rrsets.load p).ttl = ttlOf mem p := rfl
  simp only [clampTtl, hload, LeastOf, mem_cons, not_mem_nil, or_false]
  by_cases hless : ttlOf mem p < t
  · rw [if_pos hless]
    refine ⟨by grind, fun q => ?_⟩
    by_cases hq : q = p
    · subst hq
      grind
    · simp [hq]
  · rw [if_neg hless]
    by_cases habove : cap < ttlOf mem p
    · rw [if_pos habove]
      refine ⟨by grind, fun q => ?_⟩
      rw [ttlOf_modifyRRset]
      by_cases hq : q = p
      · subst hq
        simp [habove]
      · simp [hq]
    · rw [if_neg habove]
      refine ⟨by grind, fun q => ?_⟩
      by_cases hq : q = p
      · subst hq
        simp [habove]
      · simp [hq]

theorem foldl_clampTtl_spec {cap t : UInt32} (ht : t ≤ cap) (mem : Memory) (answers : List Ptr) :
    LeastOf (answers.foldl (clampTtl cap) (mem, t)).2 (t :: answers.map (ttlOf mem)) ∧
      ∀ q, ttlOf (answers.foldl (clampTtl cap) (mem, t)).1 q =
        if q ∈ answers ∧ cap < ttlOf mem q then cap else ttlOf mem q := by
  induction answers generalizing mem t with
  | nil => simp [LeastOf]
  | cons p answers ih =>
    obtain ⟨⟨hround, hbelow⟩, hwritten⟩ := clampTtl_spec ht mem p
    generalize hfirst : clampTtl cap (mem, t) p = first at hround hbelow hwritten
    have hstart : first.2 ≤ t := hbelow t mem_cons_self
    have httl : first.2 ≤ ttlOf mem p := hbelow _ (by simp)
    obtain ⟨⟨hleast, hlower⟩, hrest⟩ := ih (show first.2 ≤ cap by grind) first.1
    rw [foldl_cons, hfirst]
    have hself : (first.1, first.2) = first := rfl
    rw [hself] at hleast hlower hrest
    generalize answers.foldl (clampTtl cap) first = last at hleast hlower hrest
    have hlast : last.2 ≤ first.2 := hlower _ mem_cons_self
    refine ⟨⟨?_, fun t' ht' => ?_⟩, fun q => ?_⟩
    · rw [map_cons]
      rcases mem_cons.mp hleast with heq | hmem
      · rw [heq]
        have hsub : [t, ttlOf mem p] ⊆ t :: ttlOf mem p :: answers.map (ttlOf mem) := by simp
        exact hsub hround
      · obtain ⟨q, hq, heq⟩ := mem_map.mp hmem
        rw [hwritten q] at heq
        split at heq
        · -- A ttl that was lowered to the cap is not below the start.
          have hsame : last.2 = t := by grind
          exact hsame ▸ mem_cons_self
        · exact heq ▸ mem_cons_of_mem _ (mem_cons_of_mem _ (mem_map_of_mem hq))
    · rw [map_cons, mem_cons, mem_cons] at ht'
      rcases ht' with rfl | rfl | hmem
      · grind
      · grind
      · obtain ⟨q, hq, rfl⟩ := mem_map.mp hmem
        have hq' := hlower _ (mem_cons_of_mem _ (mem_map_of_mem hq))
        rw [hwritten q] at hq'
        grind
    · simp only [hrest q, hwritten q, mem_cons]
      grind

theorem clampSoa_spec (cap : UInt32) {mem : Memory} {p : Ptr} {soa : SOA}
    (htyp : (mem.rrsets.load p).typ = .soa) (hrdatas : (mem.rrsets.load p).rdatas = [.soa soa]) :
    LeastOf (clampSoa cap mem [p]).2 [cap, soa.minimum, ttlOf mem p] ∧
      ttlOf (clampSoa cap mem [p]).1 p = (clampSoa cap mem [p]).2 := by
  have hload : (mem.rrsets.load p).ttl = ttlOf mem p := rfl
  simp only [clampSoa, htyp, hrdatas, hload, if_true]
  generalize hmin : (if soa.minimum < cap then soa.minimum else cap) = minTtl
  have hleast : LeastOf minTtl [cap, soa.minimum] := by
    simp only [LeastOf, mem_cons, not_mem_nil, or_false]
    grind
  simp only [LeastOf, mem_cons, not_mem_nil, or_false] at hleast ⊢
  by_cases hless : ttlOf mem p < minTtl
  · rw [if_pos hless]
    exact ⟨by grind, rfl⟩
  · rw [if_neg hless, ttlOf_modifyRRset]
    exact ⟨by grind, if_pos rfl⟩

theorem clampSoa_of_not_soa (cap : UInt32) {mem : Memory} {auths : List Ptr}
    (hnot : ¬∃ p soa, auths = [p] ∧ (mem.rrsets.load p).typ = .soa ∧
      (mem.rrsets.load p).rdatas = [.soa soa]) : clampSoa cap mem auths = (mem, cap) := by
  unfold clampSoa
  split
  · next p =>
    split
    · next htyp =>
      split
      · next soa hrdatas => exact absurd ⟨p, soa, rfl, htyp, hrdatas⟩ hnot
      · rfl
    · rfl
  · rfl

theorem map_ttl_rrsetsOf (mem : Memory) (s : Slice) :
    (mem.rrsetsOf s).map RRset.ttl = (s.read mem.arrays).map (ttlOf mem) := by
  rw [Memory.rrsetsOf, map_map]
  rfl

namespace MessageCache

variable (c : MessageCache) (now : Time) (mem : Memory) (m : Ptr)

theorem positiveMessageToCache_spec :
    ∃ ttl, (c.positiveMessageToCache now mem m).2 = ⟨m, now.after ttl⟩ ∧
      LeastOf ttl (c.positiveTtl :: (mem.view m).answer.map RRset.ttl) ∧
      ((c.positiveMessageToCache now mem m).1.view m).answer.map RRset.ttl =
        (mem.view m).answer.map fun r =>
          if c.positiveTtl < r.ttl then c.positiveTtl else r.ttl := by
  obtain ⟨cleared, hcleared, hanswer, harrays, hrrsets⟩ : ∃ cleared : Memory,
      (if c.shortAnswer then mem.modifyMessage m (fun msg => clearAdditional (clearAuth msg))
        else mem) = cleared ∧
      (cleared.messages.load m).answer = (mem.messages.load m).answer ∧
      cleared.arrays = mem.arrays ∧ cleared.rrsets = mem.rrsets := by
    refine ⟨_, rfl, ?_⟩
    cases c.shortAnswer with
    | false => exact ⟨rfl, rfl, rfl⟩
    | true => exact ⟨by simp [Memory.modifyMessage, clearAdditional, clearAuth], rfl, rfl⟩
  have httl : ttlOf cleared = ttlOf mem := by
    funext p
    rw [ttlOf, ttlOf, hrrsets]
  simp only [positiveMessageToCache, hcleared, hanswer, harrays]
  generalize hanswers : (mem.messages.load m).answer.read mem.arrays = answers
  obtain ⟨hleast, hwritten⟩ :=
    foldl_clampTtl_spec (show c.positiveTtl ≤ c.positiveTtl by grind) cleared answers
  obtain ⟨hmessages, harrays'⟩ := sections_clampTtl c.positiveTtl answers (cleared, c.positiveTtl)
  generalize answers.foldl (clampTtl c.positiveTtl) (cleared, c.positiveTtl) = last
    at hleast hwritten hmessages harrays'
  refine ⟨last.2, rfl, ?_, ?_⟩
  · change LeastOf last.2 (c.positiveTtl :: (mem.rrsetsOf (mem.messages.load m).answer).map _)
    rwa [map_ttl_rrsetsOf, hanswers, ← httl]
  · change (last.1.rrsetsOf (last.1.messages.load m).answer).map _ =
      (mem.rrsetsOf (mem.messages.load m).answer).map _
    rw [map_ttl_rrsetsOf, hmessages, hanswer, harrays', harrays, hanswers, Memory.rrsetsOf,
      hanswers, map_map]
    refine map_congr_left fun p hp => ?_
    rw [hwritten p, httl]
    simp only [hp, true_and]
    rfl

/-- A negative message is kept for the shortest of the cap, the minimum and the ttl of its SOA. -/
theorem negativeMessageToCache_spec :
    ∃ ttl, (c.negativeMessageToCache now mem m).2 = ⟨m, now.after ttl⟩ ∧
      (∀ r soa, (mem.view m).auth = [r] → r.typ = .soa → r.rdatas = [.soa soa] →
        LeastOf ttl [c.negativeTtl, soa.minimum, r.ttl] ∧
        ((c.negativeMessageToCache now mem m).1.view m).auth.map RRset.ttl = [ttl]) ∧
      ((¬∃ r soa, (mem.view m).auth = [r] ∧ r.typ = .soa ∧ r.rdatas = [.soa soa]) →
        ttl = c.negativeTtl) := by
  have hview : (mem.view m).auth = mem.rrsetsOf (mem.messages.load m).auth := rfl
  rw [hview, Memory.rrsetsOf]
  simp only [negativeMessageToCache]
  generalize hauths : (mem.messages.load m).auth.read mem.arrays = auths
  refine ⟨(clampSoa c.negativeTtl mem auths).2, rfl, fun r soa hone htyp hrdatas => ?_,
    fun hnot => ?_⟩
  · obtain ⟨p, rfl, rfl⟩ := map_eq_singleton_iff.mp hone
    obtain ⟨hleast, hwritten⟩ := clampSoa_spec c.negativeTtl htyp hrdatas
    obtain ⟨hmessages, harrays⟩ := sections_clampSoa c.negativeTtl mem [p]
    refine ⟨hleast, ?_⟩
    generalize clampSoa c.negativeTtl mem [p] = last at hwritten hmessages harrays
    obtain ⟨cut, hcut, hauth, harrays', hrrsets⟩ : ∃ cut : Memory,
        (if c.shortAnswer then last.1.modifyMessage m clearAdditional else last.1) = cut ∧
        (cut.messages.load m).auth = (last.1.messages.load m).auth ∧
        cut.arrays = last.1.arrays ∧ cut.rrsets = last.1.rrsets := by
      refine ⟨_, rfl, ?_⟩
      cases c.shortAnswer with
      | false => exact ⟨rfl, rfl, rfl⟩
      | true => exact ⟨by simp [Memory.modifyMessage, clearAdditional], rfl, rfl⟩
    rw [hcut]
    change (cut.rrsetsOf (cut.messages.load m).auth).map _ = _
    rw [map_ttl_rrsetsOf, hauth, harrays', hmessages, harrays, hauths, map_singleton, ttlOf,
      hrrsets]
    exact congrArg (fun t => [t]) hwritten
  · rw [clampSoa_of_not_soa c.negativeTtl]
    rintro ⟨p, soa, rfl, htyp, hrdatas⟩
    exact hnot ⟨_, soa, rfl, htyp, hrdatas⟩

end MessageCache

/-- A cached message does not outlive its records, and no stored ttl is above the cap. -/
theorem messageToCache_lifetime (c : MessageCache) (now : Time) (mem : Memory) (m : Ptr) :
    let before := mem.view m
    let after := (c.messageToCache now mem m).1.view m
    (∀ ttl, (nanoseconds ttl).toInt = ttl.toNat * 1000000000) ∧
    ∃ ttl, ((c.messageToCache now mem m).2.expireTime : ℤ) = now + (nanoseconds ttl).toInt ∧
      (before.answer ≠ [] →
        LeastOf ttl (c.positiveTtl :: before.answer.map RRset.ttl) ∧
        (after.answer.map RRset.ttl = before.answer.map fun r =>
          if c.positiveTtl < r.ttl then c.positiveTtl else r.ttl) ∧
        ∀ r ∈ after.answer, r.ttl ≤ c.positiveTtl ∧ ttl ≤ r.ttl) ∧
      (before.answer = [] →
        (∀ r soa, before.auth = [r] → r.typ = .soa → r.rdatas = [.soa soa] →
          LeastOf ttl [c.negativeTtl, soa.minimum, r.ttl] ∧ after.auth.map RRset.ttl = [ttl]) ∧
        ((¬∃ r soa, before.auth = [r] ∧ r.typ = .soa ∧ r.rdatas = [.soa soa]) →
          ttl = c.negativeTtl)) := by
  intro before after
  refine ⟨toInt_nanoseconds, ?_⟩
  have hexpiry : ∀ ttl, ((now.after ttl : Time) : ℤ) = now + (nanoseconds ttl).toInt := by
    intro ttl
    rw [toInt_nanoseconds, Time.after]
    omega
  -- Setting the flag leaves the sections.
  obtain ⟨flagged, hflagged, hanswer, hauth⟩ : ∃ flagged : Memory,
      mem.modifyMessage m (fun msg => { msg with header := { msg.header with ra := true } }) =
        flagged ∧ (flagged.view m).answer = before.answer ∧
          (flagged.view m).auth = before.auth := by
    refine ⟨_, rfl, ?_, ?_⟩
    · simp [before, Memory.view, Message.map, Memory.modifyMessage, Memory.rrsetsOf]
    · simp [before, Memory.view, Message.map, Memory.modifyMessage, Memory.rrsetsOf]
  have hlen : 0 < (flagged.messages.load m).answer.len ↔ before.answer ≠ [] := by
    rw [← hanswer, ← length_pos_iff]
    simp [Memory.view, Message.map, Memory.rrsetsOf, Slice.read]
  have hcache : c.messageToCache now mem m =
      if 0 < (flagged.messages.load m).answer.len then c.positiveMessageToCache now flagged m
      else c.negativeMessageToCache now flagged m := by
    rw [MessageCache.messageToCache, hflagged]
  by_cases hpositive : before.answer = []
  · obtain ⟨ttl, hentry, hsoa, hnone⟩ := c.negativeMessageToCache_spec now flagged m
    rw [if_neg (fun h => hlen.mp h hpositive)] at hcache
    rw [hauth] at hsoa hnone
    refine ⟨ttl, ?_, fun hne => absurd hpositive hne, fun _ => ?_⟩
    · rw [hcache, hentry]
      exact hexpiry ttl
    · simp only [after, hcache]
      exact ⟨hsoa, hnone⟩
  · obtain ⟨ttl, hentry, hleast, hstored⟩ := c.positiveMessageToCache_spec now flagged m
    rw [if_pos (hlen.mpr hpositive)] at hcache
    rw [hanswer] at hleast hstored
    rw [← hcache] at hstored
    refine ⟨ttl, ?_, fun _ => ⟨hleast, hstored, fun r hr => ?_⟩, fun hnil => absurd hnil hpositive⟩
    · rw [hcache, hentry]
      exact hexpiry ttl
    · have hmem : r.ttl ∈ after.answer.map RRset.ttl := mem_map_of_mem hr
      rw [hstored] at hmem
      obtain ⟨old, hold, httl⟩ := mem_map.mp hmem
      have hcap := hleast.2 _ mem_cons_self
      have holder := hleast.2 _ (mem_cons_of_mem _ (mem_map_of_mem hold))
      grind

end Vanguard.Cache
