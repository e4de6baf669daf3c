import Vanguard.Cache.InStep
import Vanguard.Cache.Isolation

namespace Vanguard.Cache

open Library List ViewCaches MessageCache

variable {rt : Runtime} {nameFromString : String → Except String Name} {mem : Memory}

def nameHash (k : Key) : UInt32 := (k >>> 32).toUInt32

theorem nameHash_keyForMessage (name : Name) (typ : RRType) :
    nameHash (keyForMessage rt name typ) = rt.hash name := by
  unfold nameHash keyForMessage
  generalize rt.hash name = hash
  generalize typ.code = code
  apply UInt32.toNat_inj.mp
  have hlt := hash.toNat_lt
  have hcode : code.toNat < 2 ^ 32 := code.toNat_lt.trans (by decide)
  have hmod : hash.toNat * 2 ^ 32 % 2 ^ 64 = hash.toNat * 2 ^ 32 := Nat.mod_eq_of_lt (by omega)
  have hshift : (hash.toUInt64 <<< 32).toNat = hash.toNat * 2 ^ 32 := by
    rw [← hmod, UInt64.toNat_shiftLeft, Nat.shiftLeft_eq]
    rfl
  have hkey : ((hash.toUInt64 <<< 32 ||| code.toUInt64) >>> 32).toNat = hash.toNat := by
    rw [UInt64.toNat_shiftRight, UInt64.toNat_or, hshift]
    change (hash.toNat * 2 ^ 32 ||| code.toNat) >>> 32 = hash.toNat
    rw [Nat.shiftRight_or_distrib, Nat.shiftRight_eq_div_pow, Nat.shiftRight_eq_div_pow,
      Nat.mul_div_cancel _ (by decide), Nat.div_eq_of_lt hcode, Nat.or_zero]
  rw [UInt64.toNat_toUInt32, hkey]
  exact Nat.mod_eq_of_lt hlt

namespace MessageCache

variable {mc : MessageCache}

variable (h : mc.Stored rt mem) (name : Name)

include h

theorem remove_spec (typ : RRType) :
    (remove rt mc mem name typ).ll.elems =
        mc.ll.elems.filter (fun e => keyOf rt mem e.value ≠ keyForMessage rt name typ) ∧
      (remove rt mc mem name typ).cache =
        Function.update mc.cache (keyForMessage rt name typ) none := by
  unfold remove
  cases hele : mc.cache (keyForMessage rt name typ) with
  | none =>
    refine ⟨(filter_eq_self.mpr fun e he => ?_).symm, ?_⟩
    · have hne : keyOf rt mem e.value ≠ keyForMessage rt name typ := by
        intro hkey
        have hget := (h.indexes _ e).mpr ⟨he, hkey⟩
        rw [hele] at hget
        cases hget
      exact decide_eq_true hne
    · exact (Function.update_eq_self_iff.mpr hele.symm).symm
  | some ele =>
    obtain ⟨hmem, hkey⟩ := (h.indexes _ ele).mp hele
    refine ⟨filter_congr fun e he => decide_eq_decide.mpr (not_congr ?_), ?_⟩
    · constructor
      · intro hid
        rw [h.wf.eq_of_id he hmem hid, hkey]
      · intro hsame
        rw [h.indexes.inj he hmem (hsame.trans hkey.symm)]
    · rw [← hkey]
      rfl

theorem removeTypes_elems (types : List RRType) :
    (ViewCaches.removeTypes rt mem name types mc).ll.elems =
      mc.ll.elems.filter (fun e => keyOf rt mem e.value ∉ types.map (keyForMessage rt name)) := by
  induction types generalizing mc with
  | nil => simp [ViewCaches.removeTypes]
  | cons typ types ih =>
    have hrest := ih (h.remove name typ)
    rw [(remove_spec h name typ).1, filter_filter] at hrest
    refine hrest.trans (filter_congr fun e _ => ?_)
    refine (Bool.decide_and ..).symm.trans (decide_eq_decide.mpr ?_)
    rw [map_cons, mem_cons, not_or]
    exact and_comm

theorem removeTypes_cache (types : List RRType) {k : Key}
    (hk : k ∉ types.map (keyForMessage rt name)) :
    (ViewCaches.removeTypes rt mem name types mc).cache k = mc.cache k := by
  induction types generalizing mc with
  | nil => rfl
  | cons typ types ih =>
    rw [map_cons, mem_cons, not_or] at hk
    refine (ih (h.remove name typ) hk.2).trans ?_
    rw [(remove_spec h name typ).2, Function.update_of_ne hk.1]

end MessageCache

def Answers (mem : Memory) (now : Time) (name : Name) (typ : RRType)
    (e : Element MessageCacheEntry) : Prop :=
  (questionOf mem e.value.message).name = name ∧ (questionOf mem e.value.message).typ = typ ∧
    e.value.isExpire now = false

variable {mc : MessageCache}

theorem MessageCache.get_eq_none_iff (h : mc.Stored rt mem) (now : Time) (name : Name)
    (typ : RRType) :
    get rt mc now mem name typ = none ↔ ∀ e ∈ mc.ll.elems, ¬Answers mem now name typ e := by
  rw [MessageCache.get, Option.map_eq_none_iff, MessageCache.lookup, Option.filter_eq_none_iff]
  constructor
  · rintro hnone e he ⟨hname, htyp, hfresh⟩
    have hkey : keyOf rt mem e.value = keyForMessage rt name typ := by rw [keyOf, hname, htyp]
    refine hnone e ((h.indexes _ e).mpr ⟨he, hkey⟩) ?_
    simp only [hfresh, Bool.not_false, Bool.true_and, decide_eq_true_eq]
    exact hname
  · intro hnone e hget hcond
    obtain ⟨he, hkey⟩ := (h.indexes _ e).mp hget
    simp only [Bool.and_eq_true, Bool.not_eq_true', decide_eq_true_eq] at hcond
    exact hnone e he ⟨hcond.2, typ_eq_of_key hkey, hcond.1⟩

structure Spared (rt : Runtime) (mem : Memory) (name : Name) (mc mc' : MessageCache) : Prop where
  cache : ∀ k, nameHash k ≠ rt.hash name → mc'.cache k = mc.cache k
  elems : mc'.ll.elems.filter (fun e => nameHash (keyOf rt mem e.value) ≠ rt.hash name) =
    mc.ll.elems.filter (fun e => nameHash (keyOf rt mem e.value) ≠ rt.hash name)

theorem spared_removeTypes (h : mc.Stored rt mem) (name : Name) (types : List RRType) :
    Spared rt mem name mc (ViewCaches.removeTypes rt mem name types mc) := by
  have hother : ∀ k, nameHash k ≠ rt.hash name → k ∉ types.map (keyForMessage rt name) := by
    intro k hk hmem
    obtain ⟨typ, -, rfl⟩ := mem_map.mp hmem
    exact hk (nameHash_keyForMessage name typ)
  refine ⟨fun k hk => removeTypes_cache h name types (hother k hk), ?_⟩
  rw [removeTypes_elems h, filter_filter]
  refine filter_congr fun e _ => ?_
  by_cases hhash : nameHash (keyOf rt mem e.value) = rt.hash name
  · simp [hhash]
  · simp only [hhash, ne_eq, not_false_eq_true, decide_true, Bool.true_and]
    exact decide_eq_true (hother _ hhash)

def OnlyTypes (mem : Memory) (now : Time) (name : Name) (types : List RRType)
    (mc : MessageCache) : Prop :=
  ∀ e ∈ mc.ll.elems, (questionOf mem e.value.message).name = name →
    e.value.isExpire now = false → (questionOf mem e.value.message).typ ∈ types

instance (mem : Memory) (now : Time) (name : Name) (types : List RRType) (mc : MessageCache) :
    Decidable (OnlyTypes mem now name types mc) :=
  inferInstanceAs (Decidable (∀ e ∈ mc.ll.elems, (questionOf mem e.value.message).name = name →
    e.value.isExpire now = false → (questionOf mem e.value.message).typ ∈ types))

theorem removeTypes_misses_iff (h : mc.Stored rt mem) (now : Time) (name : Name)
    (types : List RRType) :
    (∀ typ, MessageCache.get rt (ViewCaches.removeTypes rt mem name types mc) now mem name typ =
      none) ↔ OnlyTypes mem now name types mc := by
  simp only [get_eq_none_iff (h.removeTypes name types),
    removeTypes_elems h, mem_filter, decide_eq_true_eq]
  constructor
  · intro hmisses e he hname hfresh
    by_contra htyp
    refine hmisses _ e ⟨he, fun hmem => htyp ?_⟩ ⟨hname, rfl, hfresh⟩
    obtain ⟨typ, htyp, hkey⟩ := mem_map.mp hmem
    rwa [← typ_eq_of_key hkey]
  · rintro honly typ e ⟨he, hkept⟩ ⟨hname, _, hfresh⟩
    refine hkept (mem_map.mpr ⟨_, honly e he hname hfresh, ?_⟩)
    rw [keyOf, hname]

namespace ViewCaches

variable {c c' : ViewCaches}

variable {types : List RRType}

theorem cleanRRsetsCache_run {name : String} {n : Name} (hname : nameFromString name = .ok n)
    {views : List String} (hnodup : views.Nodup)
    (hrun : run (fun c view => cleanRRsetsCache rt nameFromString c mem view name types) c views =
      .ok c') (view : String) :
    c'.cache view = if view ∈ views then (c.cache view).map (removeTypes rt mem n types)
      else c.cache view := by
  induction views generalizing c with
  | nil =>
    cases hrun
    rfl
  | cons v views ih =>
    obtain ⟨hv, hnodup⟩ := nodup_cons.mp hnodup
    obtain ⟨mid, hmid, hrest⟩ := run_cons_ok.mp hrun
    obtain ⟨n', hn', -, rfl⟩ := cleanRRsetsCache_ok hmid
    cases hname.symm.trans hn'
    rw [ih hnodup hrest]
    by_cases hview : view = v
    · subst hview
      simp [hv, modify]
    · simp [modify, hview]

theorem spared_of_cache_eq {s : CacheState} (h : s.Stored rt) {n : Name} {p : String → Prop}
    [DecidablePred p] (hcache : ∀ view, c'.cache view =
      if p view then (s.caches.cache view).map (removeTypes rt s.mem n types)
      else s.caches.cache view) (view : String) :
    Option.Rel (Spared rt s.mem n) (s.caches.cache view) (c'.cache view) := by
  rw [hcache view]
  cases hmc : s.caches.cache view with
  | none => simp
  | some mc =>
    split
    · exact .some (spared_removeTypes (h view mc hmc) n types)
    · exact .some ⟨fun _ _ => rfl, rfl⟩

theorem misses_iff {s : CacheState} (h : s.Stored rt) {n : Name} {view : String}
    (hcache : c'.cache view = (s.caches.cache view).map (removeTypes rt s.mem n types)) (now : Time)
    :
    (∀ typ, c'.get rt s.mem view now n typ = none) ↔
      ∀ mc, s.caches.cache view = some mc → OnlyTypes s.mem now n types mc := by
  simp only [ViewCaches.get, hcache]
  cases hmc : s.caches.cache view with
  | none => simp
  | some mc =>
    simpa using removeTypes_misses_iff (h view mc hmc) now n types

end ViewCaches

def webMem : Memory :=
  [RRType.a, ⟨65⟩].foldl (fun mem typ => (mem.allocMessage
    ⟨⟨0, true, false, .noError, 0, 0, 0⟩, ⟨["cn"], typ, .internet⟩, .nil, .nil, .nil⟩).1) .empty

def webEvents (messages : List Ptr) : List CacheEvent :=
  .reloadConfig ⟨0, 0, 0, false⟩ ["default"] :: messages.map (CacheEvent.add "default" 0)

end Vanguard.Cache
