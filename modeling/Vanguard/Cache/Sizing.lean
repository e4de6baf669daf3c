import Vanguard.Cache.InStep
import Vanguard.Cache.Isolation

namespace Vanguard.Cache

open Library

variable {rt : Runtime} {nameFromString : String → Except String Name}

namespace MessageCache

def WithinBound (c : MessageCache) : Prop := c.maxSize ≠ 0 → c.ll.len ≤ c.maxSize

instance (c : MessageCache) : Decidable c.WithinBound :=
  inferInstanceAs (Decidable (c.maxSize ≠ 0 → c.ll.len ≤ c.maxSize))

/-- What an `Add` under a key takes in. -/
def intake (c : MessageCache) (key : Key) : ℕ := if (c.cache key).isSome then 0 else 1

def RoomFor (c : MessageCache) (key : Key) : Prop :=
  c.maxSize ≠ 0 → c.ll.len + c.intake key ≤ c.maxSize + 1

instance (c : MessageCache) (key : Key) : Decidable (c.RoomFor key) :=
  inferInstanceAs (Decidable (c.maxSize ≠ 0 → c.ll.len + c.intake key ≤ c.maxSize + 1))

theorem maxSize_place (c : MessageCache) (key : Key) (entry : MessageCacheEntry) :
    (c.place key entry).maxSize = c.maxSize := by rw [place_eq]

theorem maxSize_add (rt : Runtime) (c : MessageCache) (mem : Memory) (key : Key)
    (entry : MessageCacheEntry) : (add rt c mem key entry).maxSize = c.maxSize := by
  rcases add_eq rt c mem key entry with heq | ⟨last, -, -, heq⟩
  · rw [heq, maxSize_place]
  · rw [heq]
    exact c.maxSize_place key entry

theorem len_place (c : MessageCache) (key : Key) (entry : MessageCacheEntry) :
    (c.place key entry).ll.len = c.ll.len + c.intake key := by
  rw [place_eq, intake, Library.len_place]

theorem withinBound_add_iff {c : MessageCache} {mem : Memory} (h : c.Stored rt mem)
    (entry : MessageCacheEntry) :
    (add rt c mem (keyOf rt mem entry) entry).WithinBound ↔ c.RoomFor (keyOf rt mem entry) := by
  obtain ⟨new, -, helems, -, hwf, -⟩ := place_spec h.wf h.indexes entry
  have hlen := c.len_place (keyOf rt mem entry) entry
  have hmax := c.maxSize_place (keyOf rt mem entry) entry
  have hevicts : (add rt c mem (keyOf rt mem entry) entry).ll.len =
      if c.maxSize ≠ 0 ∧ c.maxSize < (c.place (keyOf rt mem entry) entry).ll.len then
        (c.place (keyOf rt mem entry) entry).ll.len - 1
      else (c.place (keyOf rt mem entry) entry).ll.len := by
    unfold add
    simp only [hmax]
    split
    · have hback := congrArg List.getLast? helems
      rw [List.getLast?_cons, ← LinkedList.back] at hback
      have hremoved := hwf.remove_back hback
      simp only [place_eq, removeOldest, hback, removeElement, LinkedList.len, hremoved,
        List.length_dropLast]
    · rfl
  rw [WithinBound, RoomFor, maxSize_add, hevicts, hlen]
  split
  · omega
  · omega

theorem WithinBound.mono {c c' : MessageCache} (h : c.WithinBound) (hmax : c'.maxSize = c.maxSize)
    (hlen : c'.ll.len ≤ c.ll.len) : c'.WithinBound := by
  intro hne
  rw [hmax] at hne ⊢
  exact hlen.trans (h hne)

theorem WithinBound.removeTypes {c : MessageCache} (h : c.WithinBound) (mem : Memory) (name : Name)
    (types : List RRType) : (ViewCaches.removeTypes rt mem name types c).WithinBound := by
  induction types generalizing c with
  | nil => exact h
  | cons typ types ih =>
    have hremove : (MessageCache.remove rt c mem name typ).WithinBound := by
      unfold MessageCache.remove
      split
      · exact h.mono rfl (List.length_filter_le ..)
      · exact h
    exact ih hremove

end MessageCache

def keyOfMessage (rt : Runtime) (mem : Memory) (message : Ptr) : Key :=
  keyForMessage rt (questionOf mem message).name (questionOf mem message).typ

namespace CacheState

variable (rt)

/-- After an `Add` the cache of the view is not larger than configured. -/
def FitsAfter (s : CacheState) : CacheEvent → Prop
  | .add view now message =>
    ∀ mc ∈ (s.caches.addMessage rt s.mem view now message).1.cache view, mc.WithinBound
  | _ => True

def HasRoom (s : CacheState) : CacheEvent → Prop
  | .add view _ message => ∀ mc ∈ s.caches.cache view, mc.RoomFor (keyOfMessage rt s.mem message)
  | _ => True

def NotBelow (s : CacheState) : CacheEvent → Prop
  | .reloadConfig conf views => ∀ view ∈ defaultView :: views, ∀ mc ∈ s.caches.cache view,
    conf.maxCacheSize ≠ 0 → mc.ll.len ≤ conf.maxCacheSize
  | _ => True

instance (s : CacheState) : ∀ e, Decidable (s.FitsAfter rt e)
  | .add view now message => inferInstanceAs (Decidable
      (∀ mc ∈ (s.caches.addMessage rt s.mem view now message).1.cache view, mc.WithinBound))
  | .get _ _ _ _ | .command _ | .reloadConfig _ _ | .elsewhere _ => .isTrue trivial

instance (s : CacheState) : ∀ e, Decidable (s.HasRoom rt e)
  | .add view _ message => inferInstanceAs (Decidable
      (∀ mc ∈ s.caches.cache view, mc.RoomFor (keyOfMessage rt s.mem message)))
  | .get _ _ _ _ | .command _ | .reloadConfig _ _ | .elsewhere _ => .isTrue trivial

instance (s : CacheState) : ∀ e, Decidable (s.NotBelow e)
  | .reloadConfig conf views => inferInstanceAs (Decidable
      (∀ view ∈ defaultView :: views, ∀ mc ∈ s.caches.cache view,
        conf.maxCacheSize ≠ 0 → mc.ll.len ≤ conf.maxCacheSize))
  | .add _ _ _ | .get _ _ _ _ | .command _ | .elsewhere _ => .isTrue trivial

variable {rt} {s : CacheState}

theorem fitsAfter_iff (h : s.Stored rt) (e : CacheEvent) : s.FitsAfter rt e ↔ s.HasRoom rt e := by
  cases e with
  | add view now message =>
    simp only [FitsAfter, HasRoom, ViewCaches.addMessage]
    cases hmc : s.caches.cache view with
    | none => simp [hmc]
    | some mc =>
      obtain ⟨mem', entry, hmessage, hsame, heq⟩ := mc.addMessage_eq rt now s.mem message
      have hstored : mc.Stored rt mem' := (h view mc hmc).congr fun e _ => hsame e.value.message
      have hkey : keyOf rt mem' entry = keyOfMessage rt s.mem message := by
        rw [keyOf, keyOfMessage, hmessage, hsame]
      have hiff := MessageCache.withinBound_add_iff hstored entry
      rw [hkey] at hiff
      simpa [heq, hkey, ViewCaches.modify, hmc] using hiff
  | _ => exact Iff.rfl

/-- The lists and the key maps are in step and no view has more messages than configured. -/
def Bounded (rt : Runtime) (s : CacheState) : Prop :=
  s.Stored rt ∧ s.caches.All MessageCache.WithinBound

theorem Bounded.hasRoom (h : s.Bounded rt) (e : CacheEvent) : s.HasRoom rt e := by
  cases e with
  | add view now message =>
    intro mc hmc hne
    have hlen := h.2 view mc hmc hne
    have hintake : mc.intake (keyOfMessage rt s.mem message) ≤ 1 := by
      unfold MessageCache.intake
      split <;> omega
    omega
  | _ => trivial

theorem withinBound_get {c : ViewCaches} (h : c.All MessageCache.WithinBound) {mem : Memory}
    {view : String} {now : Time} {name : Name} {typ : RRType}
    {found : Ptr × ViewCaches × Memory} (hget : c.get rt mem view now name typ = some found) :
    found.2.1.All MessageCache.WithinBound := by
  unfold ViewCaches.get at hget
  split at hget
  · next mc hmc =>
    obtain ⟨hit, hhit, rfl⟩ := Option.map_eq_some_iff.mp hget
    obtain ⟨elem, -, rfl⟩ := Option.map_eq_some_iff.mp hhit
    refine h.modify fun _ _ _ => (h view mc hmc).mono rfl ?_
    exact (mc.ll.moveToFront_perm elem).length_eq.le
  · cases hget

theorem Bounded.step {s' : CacheState} {e : CacheEvent} (h : s.Bounded rt) (hnot : s.NotBelow e)
    (heq : s.step rt nameFromString e = .ok s') : s'.Bounded rt := by
  refine ⟨h.1.step heq, ?_⟩
  cases e with
  | add view now message =>
    have hfits := (fitsAfter_iff h.1 (.add view now message)).mpr (h.hasRoom _)
    cases heq
    intro v mc hmc
    by_cases hv : v = view
    · subst hv
      exact hfits mc hmc
    · refine h.2 v mc ?_
      simp only [ViewCaches.addMessage] at hmc
      split at hmc
      · exact (ViewCaches.cache_modify.mp hmc).elim (fun heq => absurd heq.1 hv) And.right
      · exact hmc
  | get view now name typ =>
    simp only [CacheState.step] at heq
    split at heq
    · next hget =>
      cases heq
      exact withinBound_get h.2 hget
    · cases heq
      exact h.2
  | command cmd =>
    simp only [CacheState.step] at heq
    split at heq
    · next hok =>
      cases heq
      exact h.2.handleCmd (fun mc hmc => hmc.mono rfl (Nat.zero_le _))
        (fun mc name hmc => hmc.removeTypes s.mem name supportRRTypes) hok
    · cases heq
      exact h.2
  | reloadConfig conf views =>
    cases heq
    intro view mc hmc
    obtain ⟨hview, rfl | ⟨old, hold, rfl⟩⟩ := ViewCaches.cache_reloadConfig hmc
    · exact fun _ => Nat.zero_le _
    · exact fun hne => hnot view hview old hold hne
  | elsewhere mem =>
    simp only [CacheState.step] at heq
    split at heq
    · cases heq
      exact h.2
    · cases heq

end CacheState

/-- The cache of a view is within its size exactly if it had room, for one message is evicted. -/
theorem size_follows_configuration_iff (rt : Runtime) (nameFromString : String → Except String Name)
    (mem : Memory) (events : List CacheEvent) :
    let step := CacheState.step rt nameFromString
    (Along step (CacheState.FitsAfter rt) ⟨.new, mem⟩ events ↔
      Along step (CacheState.HasRoom rt) ⟨.new, mem⟩ events) ∧
    (Along step CacheState.NotBelow ⟨.new, mem⟩ events →
      Along step (CacheState.FitsAfter rt) ⟨.new, mem⟩ events) := by
  intro step
  have hstored : CacheState.Stored rt ⟨.new, mem⟩ := CacheState.Stored.new rt mem
  have hiff : Along step (CacheState.FitsAfter rt) ⟨.new, mem⟩ events ↔
      Along step (CacheState.HasRoom rt) ⟨.new, mem⟩ events :=
    along_congr (CacheState.Stored rt) (fun _ _ _ h heq => h.step heq)
      (fun _ e h => CacheState.fitsAfter_iff h e) events hstored
  refine ⟨hiff, fun hnot => hiff.mpr ?_⟩
  have hbounded : CacheState.Bounded rt ⟨.new, mem⟩ := ⟨hstored, fun _ _ hmc => by cases hmc⟩
  exact hnot.imp_of_invariant (CacheState.Bounded rt) (fun _ _ _ h hnot heq => h.step hnot heq)
    (fun _ e h _ => h.hasRoom e) hbounded

def typedMem : Memory :=
  [RRType.a, .aaaa, .mx, .ns].foldl (fun mem typ => (mem.allocMessage
    ⟨⟨0, true, false, .noError, 0, 0, 0⟩, ⟨["cn"], typ, .internet⟩, .nil, .nil, .nil⟩).1) .empty

/-- A reload to a larger bound, a smaller one that is still large enough, and `Add`s in between. -/
theorem example_bound_lowered_in_time :
    let step := CacheState.step exampleRuntime (fun _ => .ok ["cn"])
    let events := [CacheEvent.reloadConfig ⟨0, 0, 1, false⟩ ["default"], .add "default" 0 0,
      .reloadConfig ⟨0, 0, 3, false⟩ ["default"], .add "default" 0 1,
      .reloadConfig ⟨0, 0, 2, false⟩ ["default"], .add "default" 0 2, .add "default" 0 3]
    Along step CacheState.NotBelow ⟨.new, typedMem⟩ events ∧
      Along step (CacheState.FitsAfter exampleRuntime) ⟨.new, typedMem⟩ events := by
  intro step events
  have hnot : Along step CacheState.NotBelow ⟨.new, typedMem⟩ events := by decide
  exact ⟨hnot, (size_follows_configuration_iff exampleRuntime _ typedMem events).2 hnot⟩

/-- With three messages the bound is lowered to one, and the next `Add` leaves three. -/
theorem example_bound_exceeded :
    let step := CacheState.step exampleRuntime (fun _ => .ok ["cn"])
    let events := [CacheEvent.reloadConfig ⟨0, 0, 3, false⟩ ["default"], .add "default" 0 0,
      .add "default" 0 1, .add "default" 0 2, .reloadConfig ⟨0, 0, 1, false⟩ ["default"],
      .add "default" 0 3]
    (run step ⟨.new, typedMem⟩ events).map (fun s =>
        (s.caches.cache "default").map fun mc => (mc.maxSize, mc.ll.len)) = .ok (some (1, 3)) ∧
      ¬Along step (CacheState.FitsAfter exampleRuntime) ⟨.new, typedMem⟩ events := by
  intro step events
  exact ⟨by rfl, by decide⟩

end Vanguard.Cache
