import Vanguard.Cache.Views

namespace Vanguard.Cache

open Library List ViewCaches

namespace MessageCache

structure Stored (rt : Runtime) (mem : Memory) (c : MessageCache) : Prop where
  wf : c.ll.Wf
  indexes : Indexes c.cache c.ll (keyOf rt mem)

namespace Stored

variable {rt : Runtime} {mem : Memory} {c : MessageCache}

theorem ofConf (rt : Runtime) (mem : Memory) (conf : CacheConf) :
    (MessageCache.ofConf conf).Stored rt mem := ⟨LinkedList.Wf.new, indexes_nil _ _⟩

section

variable (h : c.Stored rt mem)

include h

theorem reloadConfig (conf : CacheConf) :
    (c.reloadConfig conf).Stored rt mem := ⟨h.wf, h.indexes⟩

theorem congr {mem' : Memory}
    (hsame : ∀ e ∈ c.ll.elems, questionOf mem' e.value.message = questionOf mem e.value.message) :
    c.Stored rt mem' := ⟨h.wf, h.indexes.congr fun e he => keyOf_congr (hsame e he)⟩

theorem removeElement {e : Element MessageCacheEntry} (he : e ∈ c.ll.elems) :
    (MessageCache.removeElement rt c mem e).Stored rt mem :=
  ⟨h.wf.remove e, h.indexes.remove h.wf he⟩

theorem remove (name : Name) (typ : RRType) :
    (MessageCache.remove rt c mem name typ).Stored rt mem := by
  unfold MessageCache.remove
  split
  · next ele hele => exact h.removeElement ((h.indexes _ ele).mp hele).1
  · exact h

end

theorem clear (rt : Runtime) (mem : Memory) (c : MessageCache) : c.clear.Stored rt mem :=
  ⟨⟨nodup_nil, fun _ he => absurd he not_mem_nil⟩, indexes_nil _ _⟩

theorem add (h : c.Stored rt mem) (entry : MessageCacheEntry) :
    (MessageCache.add rt c mem (keyOf rt mem entry) entry).Stored rt mem := by
  obtain ⟨new, -, -, -, hwf, hindexes⟩ := place_spec h.wf h.indexes entry
  have hplaced : (c.place (keyOf rt mem entry) entry).Stored rt mem := by
    rw [place_eq]
    exact ⟨hwf, hindexes⟩
  rcases add_eq rt c mem (keyOf rt mem entry) entry with heq | ⟨last, hlast, -, heq⟩
  · rw [heq]
    exact hplaced
  · rw [heq]
    exact hplaced.removeElement (mem_of_getLast? hlast)

end Stored

theorem addMessage_eq (rt : Runtime) (c : MessageCache) (now : Time) (mem : Memory)
    (message : Ptr) :
    ∃ mem' entry, entry.message = message ∧ (∀ p, questionOf mem' p = questionOf mem p) ∧
      addMessage rt c now mem message =
        (add rt c mem' (keyOf rt mem' entry) entry, mem') := by
  have hmessage := message_messageToCache c now mem message
  refine ⟨(c.messageToCache now mem message).1, (c.messageToCache now mem message).2, hmessage,
    questionOf_messageToCache c now mem message, ?_⟩
  simp only [addMessage, keyOf, hmessage, questionOf]

end MessageCache

section

variable {rt : Runtime} {nameFromString : String → Except String Name} {mem : Memory}
  {c : ViewCaches}

variable {mc : MessageCache} {f : MessageCache → MessageCache}

theorem ViewCaches.cache_modify {view v : String} : (c.modify view f).cache v = some mc ↔
      (v = view ∧ ∃ old, c.cache view = some old ∧ f old = mc) ∨
        v ≠ view ∧ c.cache v = some mc := by
  by_cases hv : v = view
  · subst hv
    simp [modify]
  · simp [modify, hv]

variable {view : String}

theorem ViewCaches.cache_reloadConfig {conf : CacheConf} {views : List String}
    (hmc : (c.reloadConfig conf views).cache view = some mc) : view ∈ defaultView :: views ∧
      (mc = .ofConf conf ∨ ∃ old, c.cache view = some old ∧ mc = old.reloadConfig conf) := by
  have hloop : ∀ {mc}, c.reloadView conf views view = some mc →
      mc = .ofConf conf ∨ ∃ old, c.cache view = some old ∧ mc = old.reloadConfig conf := by
    intro mc hmc
    unfold reloadView at hmc
    split at hmc
    · split at hmc
      · next old hold => exact .inr ⟨old, hold, (Option.some.inj hmc).symm⟩
      · exact .inl (Option.some.inj hmc).symm
    · cases hmc
  by_cases hview : view = defaultView
  · subst hview
    refine ⟨mem_cons_self, ?_⟩
    have heq : reloadDefault conf (c.reloadView conf views defaultView) = mc := by
      simpa [ViewCaches.reloadConfig] using hmc
    subst heq
    cases hcase : c.reloadView conf views defaultView with
    | none => exact .inl rfl
    | some mc =>
      -- Reloading a second time changes nothing.
      rcases hloop hcase with rfl | ⟨old, hold, rfl⟩
      · exact .inl rfl
      · exact .inr ⟨old, hold, rfl⟩
  · have hmc : c.reloadView conf views view = some mc := by
      simpa [ViewCaches.reloadConfig, hview] using hmc
    refine ⟨mem_cons_of_mem _ ?_, hloop hmc⟩
    by_contra hmem
    simp [reloadView, hmem] at hmc

theorem ViewCaches.cleanRRsetsCache_ok {c' : ViewCaches} {view name : String} {types : List RRType}
    (hok : c.cleanRRsetsCache rt nameFromString mem view name types = .ok c') :
    ∃ n, nameFromString name = .ok n ∧ (c.cache view).isSome = true ∧
      c' = c.modify view (removeTypes rt mem n types) := by
  unfold cleanRRsetsCache at hok
  split at hok
  · cases hok
  · next n hn =>
    split at hok
    · next hsome => exact ⟨n, hn, hsome, (Except.ok.inj hok).symm⟩
    · cases hok

def ViewCaches.All (Q : MessageCache → Prop) (c : ViewCaches) : Prop :=
  ∀ view mc, c.cache view = some mc → Q mc

variable {Q : MessageCache → Prop}

theorem ViewCaches.All.modify (h : c.All Q) (hf : ∀ mc, c.cache view = some mc → Q mc → Q (f mc)) :
    (c.modify view f).All Q := by
  intro v mc hmc
  rcases cache_modify.mp hmc with ⟨rfl, old, hold, rfl⟩ | ⟨-, hmc⟩
  · exact hf old hold (h v old hold)
  · exact h v mc hmc

theorem ViewCaches.All.handleCmd {s : CacheState} (h : s.caches.All Q)
    (hclear : ∀ mc, Q mc → Q mc.clear)
    (hremove : ∀ mc name, Q mc → Q (removeTypes rt s.mem name supportRRTypes mc))
    {cmd : CleanCommand} {c : ViewCaches} (hok : s.handleCmd rt nameFromString cmd = .ok c) :
    c.All Q := by
  have hview : ∀ {c : ViewCaches}, c.All Q → ∀ view, (c.modify view (·.clear)).All Q :=
    fun hc _ => hc.modify fun mc _ => hclear mc
  have hname : ∀ {c c' : ViewCaches} {view name : String}, c.All Q →
      c.cleanRRsetsCache rt nameFromString s.mem view name supportRRTypes = .ok c' →
      c'.All Q := by
    intro c c' view name hc hok
    obtain ⟨n, -, -, rfl⟩ := cleanRRsetsCache_ok hok
    exact hc.modify fun mc _ => hremove mc n
  cases cmd with
  | cleanCache =>
    cases hok
    have hall : ∀ (views : List String) {c : ViewCaches}, c.All Q →
        (views.foldl (fun c view => c.modify view (·.clear)) c).All Q := by
      intro views
      induction views with
      | nil => exact fun hc => hc
      | cons view views ih => exact fun hc => ih (hview hc view)
    exact hall s.caches.views h
  | cleanViewCache view =>
    simp only [CacheState.handleCmd, ViewCaches.cleanInView] at hok
    split at hok
    · cases hok
      exact hview h view
    · cases hok
  | cleanRRsetsCache view name => exact hname h hok
  | cleanDomainCache name =>
    exact run_induction (ViewCaches.All Q) (fun c view c' hc _ hok => hname hc hok)
      (along_of_forall (fun _ _ => trivial) _ _) h hok

def ViewCaches.Stored (rt : Runtime) (mem : Memory) (c : ViewCaches) : Prop :=
  c.All (·.Stored rt mem)

def CacheState.Stored (rt : Runtime) (s : CacheState) : Prop := s.caches.Stored rt s.mem

section

variable (h : c.Stored rt mem)

include h

theorem ViewCaches.Stored.congr {mem' : Memory}
    (hsame : ∀ p, questionOf mem' p = questionOf mem p) : c.Stored rt mem' :=
  fun view mc hmc => (h view mc hmc).congr fun e _ => hsame e.value.message

theorem ViewCaches.Stored.reloadConfig (conf : CacheConf) (views : List String) :
    (c.reloadConfig conf views).Stored rt mem := by
  intro view mc hmc
  rcases (cache_reloadConfig hmc).2 with rfl | ⟨old, hold, rfl⟩
  · exact MessageCache.Stored.ofConf rt mem conf
  · exact (h view old hold).reloadConfig conf

theorem ViewCaches.Stored.addMessage (view : String) (now : Time) (message : Ptr) :
    (c.addMessage rt mem view now message).1.Stored rt
      (c.addMessage rt mem view now message).2 := by
  unfold ViewCaches.addMessage
  split
  · next mc hmc =>
    obtain ⟨mem', entry, -, hsame, heq⟩ := mc.addMessage_eq rt now mem message
    simp only [heq]
    have hstored := h.congr hsame
    exact ViewCaches.All.modify hstored fun _ _ _ => (hstored view mc hmc).add entry
  · exact h

theorem ViewCaches.Stored.get {now : Time} {name : Name} {typ : RRType}
    {found : Ptr × ViewCaches × Memory} (hget : c.get rt mem view now name typ = some found) :
    found.2.1.Stored rt found.2.2 := by
  unfold ViewCaches.get at hget
  split at hget
  · next mc hmc =>
    obtain ⟨hit, hhit, rfl⟩ := Option.map_eq_some_iff.mp hget
    obtain ⟨elem, -, rfl⟩ := Option.map_eq_some_iff.mp hhit
    have hstored : c.Stored rt (MessageCache.roundrobinAnswer rt mem elem.value.message) :=
      h.congr (questionOf_roundrobinAnswer mem elem.value.message)
    refine ViewCaches.All.modify hstored fun _ _ _ => ?_
    have hold := hstored view mc hmc
    exact ⟨hold.wf.moveToFront elem, hold.indexes.moveToFront elem⟩
  · cases hget

end

theorem MessageCache.Stored.removeTypes (h : mc.Stored rt mem) (name : Name) (types : List RRType) :
    (ViewCaches.removeTypes rt mem name types mc).Stored rt mem := by
  induction types generalizing mc with
  | nil => exact h
  | cons typ types ih => exact ih (h.remove name typ)

theorem ViewCaches.mem_messages (hmc : c.cache view = some mc) {e : Element MessageCacheEntry}
    (he : e ∈ mc.ll.elems) : e.value.message ∈ c.messages := by
  have hview : view ∈ c.views := (c.mem_views view).mpr (by simp [hmc])
  refine mem_flatMap.mpr ⟨view, hview, ?_⟩
  rw [hmc]
  exact mem_map_of_mem he

theorem CacheState.Stored.step {s s' : CacheState} {e : CacheEvent} (h : s.Stored rt)
    (heq : s.step rt nameFromString e = .ok s') : s'.Stored rt := by
  cases e with
  | add view now message =>
    cases heq
    exact ViewCaches.Stored.addMessage h view now message
  | get view now name typ =>
    simp only [CacheState.step] at heq
    split at heq
    · next hget =>
      cases heq
      exact ViewCaches.Stored.get h hget
    · cases heq
      exact h
  | command cmd =>
    simp only [CacheState.step] at heq
    split at heq
    · next hok =>
      cases heq
      exact ViewCaches.All.handleCmd h (fun mc _ => MessageCache.Stored.clear rt s.mem mc)
        (fun mc name hmc => hmc.removeTypes name supportRRTypes) hok
    · cases heq
      exact h
  | reloadConfig conf views =>
    cases heq
    exact ViewCaches.Stored.reloadConfig h conf views
  | elsewhere mem =>
    simp only [CacheState.step] at heq
    split at heq
    · next hsame =>
      cases heq
      exact fun view mc hmc => (h view mc hmc).congr fun e he =>
        hsame e.value.message (mem_messages hmc he)
    · cases heq

theorem CacheState.Stored.new (rt : Runtime) (mem : Memory) : CacheState.Stored rt ⟨.new, mem⟩ := by
  intro view mc hmc
  cases hmc

end

end Vanguard.Cache
