import Vanguard.Library.Runs
import Vanguard.Recursor.Removal

namespace Vanguard.Recursor

open Library NameTree

inductive Call where
  | addZoneNameServer (at_ : Instant) (zone : Name) (msg : Message Section)
  | selectNameServers (now : Time) (zone : Name)
  | enforceMemoryLimit (now : Time)

section

variable {T : Type} [NameTree T (Element ZoneEntry)]

def NsasCache.StoresNew (hash : Name → UInt32) (nc : NsasCache T) : Call → Prop
  | .addZoneNameServer at_ zone msg => ∀ r servers, Offers msg r →
    r.rdatas.mapM nsName = some servers → ¬nc.Refuses at_.now r.name (trustOf msg) →
    NameTree.get (NsasCache.addZoneNameServer hash nc at_ zone msg).2.zones r.name =
      some ⟨nc.visitedZone.next, newZoneEntry at_.now r.name servers r.ttl (trustOf msg)⟩
  | _ => True

def NsasCache.NoRefresh (nc : NsasCache T) : Call → Prop
  | .addZoneNameServer at_ _ msg => ∀ r, Offers msg r →
    nc.Refuses at_.now r.name (trustOf msg) ∨ NameTree.get nc.zones r.name = none
  | _ => True

def NsasCache.step [ErasableNameTree T (Element ZoneEntry)] (hash : Name → UInt32)
    (maxCacheSize : ℤ) (nc : NsasCache T) : Call → Except Empty (NsasCache T)
  | .addZoneNameServer at_ zone msg => .ok (NsasCache.addZoneNameServer hash nc at_ zone msg).2
  | .selectNameServers now zone => .ok (nc.select hash now zone).2
  | .enforceMemoryLimit now =>
    .ok (nc.enforceMemoryLimit hash (effectiveMaxCacheSize maxCacheSize) now).2

end

section

variable {T : Type} [NameTree T (Element ZoneEntry)] [LawfulNameTree T (Element ZoneEntry)]
  (hash : Name → UInt32)

variable {nc : NsasCache T} {trust : TrustLevel} {r : RRset Rdata} {now : Time}

theorem wf_addZone (hwf : nc.visitedZone.Wf) (hrdatas : ∀ d ∈ r.rdatas, nsName d ≠ none) :
    (NsasCache.addZone hash nc now r trust).2.visitedZone.Wf := by
  by_cases hrefuses : nc.Refuses now r.name trust
  · obtain ⟨elem, hget, hfresh, hlevel⟩ := hrefuses
    have hsearch := search_eq_exactMatch.mpr hget
    unfold NsasCache.addZone
    split
    · exact hwf
    · simp only [hsearch, hfresh, hlevel, and_self, if_true]
      exact hwf.moveToFront elem
  · obtain ⟨servers, entry, -, -, hcache⟩ := addZone_of_not_refuses hash hrdatas hrefuses
    rw [hcache]
    exact hwf.pushFront entry

theorem inStep_addZone_iff (hstep : nc.InStep) (hrdatas : ∀ d ∈ r.rdatas, nsName d ≠ none) :
    (NsasCache.addZone hash nc now r trust).2.InStep ↔
      nc.Refuses now r.name trust ∨ NameTree.get nc.zones r.name = none := by
  by_cases hrefuses : nc.Refuses now r.name trust
  · exact ⟨fun _ => .inl hrefuses,
      fun _ => hstep.of_sameZone (sameZone_addZone_of_refuses hash hrdatas hrefuses)⟩
  · obtain ⟨servers, entry, -, hentry, hcache⟩ := addZone_of_not_refuses hash hrdatas hrefuses
    have hzone : entry.zone = r.name := by rw [hentry, newZoneEntry]
    have hentries : ∀ n, (NsasCache.addZone hash nc now r trust).2.entriesOf n =
        if n = r.name then ⟨nc.visitedZone.next, entry⟩ :: nc.entriesOf n else nc.entriesOf n := by
      intro n
      rw [hcache]
      by_cases hn : n = r.name
      · simp [NsasCache.entriesOf, LinkedList.pushFront, hn, hzone]
      · have hother : ¬r.name = n := fun heq => hn heq.symm
        simp [NsasCache.entriesOf, LinkedList.pushFront, hn, hzone, hother]
    have hget : ∀ n, NameTree.get (NsasCache.addZone hash nc now r trust).2.zones n =
        if n = r.name then some ((NameTree.get nc.zones r.name).getD ⟨nc.visitedZone.next, entry⟩)
        else NameTree.get nc.zones n := by
      intro n
      rw [hcache]
      exact get_insert _ _ _ _
    simp only [hrefuses, false_or]
    constructor
    · intro hnew
      by_contra hsome
      obtain ⟨old, hold⟩ := Option.ne_none_iff_exists'.mp hsome
      have hlist := hnew r.name
      simp [hentries, hget, hstep r.name, hold] at hlist
    · intro hnone n
      by_cases hn : n = r.name
      · simp [hentries, hget, hn, hstep r.name, hnone]
      · simp [hentries, hget, hn, hstep n]

theorem get_addZone_of_new {servers : List Name} (hservers : r.rdatas.mapM nsName = some servers)
    (hnone : NameTree.get nc.zones r.name = none) :
    NameTree.get (NsasCache.addZone hash nc now r trust).2.zones r.name =
      some ⟨nc.visitedZone.next, newZoneEntry now r.name servers r.ttl trust⟩ := by
  have hrdatas : ∀ d ∈ r.rdatas, nsName d ≠ none := by
    by_contra hnot
    rw [mapM_nsName_eq_none_iff.mpr hnot] at hservers
    cases hservers
  have hrefuses : ¬nc.Refuses now r.name trust := by
    rintro ⟨elem, hget, -⟩
    rw [hnone] at hget
    cases hget
  obtain ⟨servers', entry, hservers', hentry, hcache⟩ :=
    addZone_of_not_refuses hash hrdatas hrefuses
  cases hservers.symm.trans hservers'
  rw [hcache, hentry]
  simp [get_insert, hnone, LinkedList.pushFront]

theorem addZoneNameServer_rep (h : nc.Rep) (at_ : Instant) (zone : Name) (msg : Message Section) :
    (NsasCache.addZoneNameServer hash nc at_ zone msg).2.visitedZone.Wf ∧
      ((NsasCache.addZoneNameServer hash nc at_ zone msg).2.InStep ↔
        nc.NoRefresh (.addZoneNameServer at_ zone msg)) := by
  rcases addZoneNameServer_cases hash nc at_ zone msg with
    ⟨r, ns, hoffers, hcache⟩ | ⟨hnone, hcache⟩
  · have hrdatas := ((hoffers r).mpr rfl).2.2
    have hstep : ({ nc with nameServers := ns } : NsasCache T).InStep := h.inStep
    have hwf : ({ nc with nameServers := ns } : NsasCache T).visitedZone.Wf := h.wf
    rw [hcache, inStep_addZone_iff hash hstep hrdatas]
    refine ⟨wf_addZone hash hwf hrdatas, ?_⟩
    simp only [NsasCache.NoRefresh, hoffers, forall_eq]
    rfl
  · rw [hcache]
    exact ⟨h.wf, fun _ r hr => absurd hr (hnone r), fun _ => h.inStep⟩

theorem storesNew_of_noRefresh {call : Call} (hno : nc.NoRefresh call) :
    nc.StoresNew hash call := by
  cases call with
  | addZoneNameServer at_ zone msg =>
    intro r servers hoffers hservers hrefuses
    have hnew := (hno r hoffers).resolve_left hrefuses
    rcases addZoneNameServer_cases hash nc at_ zone msg with
      ⟨r', ns, hoffers', hcache⟩ | ⟨hnone, -⟩
    · obtain rfl : r = r' := (hoffers' r).mp hoffers
      rw [hcache]
      exact get_addZone_of_new hash hservers hnew
    · exact absurd hoffers (hnone r)
  | selectNameServers now zone | enforceMemoryLimit now => trivial

variable [ErasableNameTree T (Element ZoneEntry)] [LawfulErasableNameTree T (Element ZoneEntry)]

/-- Tree and list stay in step and complete exactly when no call refreshes a zone. -/
theorem represented_iff (maxCacheSize : ℤ) (calls : List Call) :
    ((∀ nc : NsasCache T, Reached (NsasCache.step hash maxCacheSize) newNsasCache calls nc →
        nc.InStep) ∧
      Along (NsasCache.step hash maxCacheSize) (NsasCache.StoresNew hash)
        (newNsasCache : NsasCache T) calls) ↔
      Along (NsasCache.step hash maxCacheSize) NsasCache.NoRefresh
        (newNsasCache : NsasCache T) calls := by
  have hstart : (newNsasCache : NsasCache T).InStep := fun n => by
    simp [newNsasCache, NsasCache.entriesOf, LinkedList.new, get_newDomainTree]
  have hiff : (∀ nc : NsasCache T,
      Reached (NsasCache.step hash maxCacheSize) newNsasCache calls nc → nc.InStep) ↔
      Along (NsasCache.step hash maxCacheSize) NsasCache.NoRefresh (newNsasCache : NsasCache T)
        calls := by
    refine reached_iff_along (fun nc : NsasCache T => nc.visitedZone.Wf) NsasCache.InStep ?_ ?_
      calls
      LinkedList.Wf.new hstart
    · intro nc call nc' hwf hstep heq
      have hrep : nc.Rep := ⟨hstep, hwf⟩
      cases call with
      | addZoneNameServer at_ zone msg =>
        cases heq
        exact addZoneNameServer_rep hash hrep at_ zone msg
      | selectNameServers now zone =>
        cases heq
        have hafter := hrep.selectNameServers hash now zone (zone.length + 2)
        exact ⟨hafter.wf, fun _ => trivial, fun _ => hafter.inStep⟩
      | enforceMemoryLimit now =>
        cases heq
        have hafter := hrep.enforceMemoryLimit hash (effectiveMaxCacheSize maxCacheSize) now
        exact ⟨hafter.wf, fun _ => trivial, fun _ => hafter.inStep⟩
    · exact fun _ _ e => e.elim
  rw [hiff]
  exact ⟨fun h => h.1, fun h => ⟨h, h.imp fun _ _ => storesNew_of_noRefresh hash⟩⟩

end

def exampleAnswer (now : Time) : Call :=
  .addZoneNameServer ⟨now, exampleInstant.draw⟩ ["example", "com"]
    (exampleResponse ["example", "com"])

abbrev ExampleReached (calls : List Call) (nc : NsasCache (NameTable (Element ZoneEntry))) : Prop :=
  Reached (NsasCache.step (fun _ => 0) 0) newNsasCache calls nc

/-- A zone that is added once, asked for and given up is represented all along. -/
theorem example_added_once_represented :
    ∃ nc, ExampleReached [exampleAnswer 0, .selectNameServers 1 ["www", "example", "com"],
      .enforceMemoryLimit 2] nc ∧ nc.InStep := by
  obtain ⟨nc, hrun⟩ : ∃ nc : NsasCache (NameTable (Element ZoneEntry)),
      run (NsasCache.step (fun _ => 0) 0) newNsasCache [exampleAnswer 0,
        .selectNameServers 1 ["www", "example", "com"], .enforceMemoryLimit 2] = .ok nc := ⟨_, rfl⟩
  refine ⟨nc, ⟨_, List.prefix_rfl, hrun⟩, ((represented_iff (fun _ => 0) 0 [exampleAnswer 0,
    .selectNameServers 1 ["www", "example", "com"], .enforceMemoryLimit 2]).mpr
      ⟨fun r _ => .inr ?_, ?_⟩).1 nc ⟨_, List.prefix_rfl, hrun⟩⟩
  · exact get_newDomainTree r.name
  · exact fun _ _ => ⟨trivial, fun _ _ => ⟨trivial, fun _ _ => trivial⟩⟩

/-- A zone whose servers answer twice is in the list twice, and the tree leads to the old entry. -/
theorem example_refreshed_twice_listed :
    ∃ nc, ExampleReached [exampleAnswer 0, exampleAnswer 1000000000] nc ∧ ¬nc.InStep ∧
      (nc.entriesOf ["example", "com"]).map (fun e => e.value.expireTime) =
        [301000000000, 300000000000] ∧
      (NameTree.get nc.zones ["example", "com"]).map (fun e => e.value.expireTime) =
        some 300000000000 := by
  obtain ⟨nc, hrun, hlist, htree⟩ : ∃ nc : NsasCache (NameTable (Element ZoneEntry)),
      run (NsasCache.step (fun _ => 0) 0) newNsasCache
        [exampleAnswer 0, exampleAnswer 1000000000] = .ok nc ∧
      (nc.entriesOf ["example", "com"]).map (fun e => e.value.expireTime) =
        [301000000000, 300000000000] ∧
      (NameTree.get nc.zones ["example", "com"]).map (fun e => e.value.expireTime) =
        some 300000000000 := ⟨_, rfl, by decide, by decide⟩
  refine ⟨nc, ⟨_, List.prefix_rfl, hrun⟩, fun hstep => ?_, hlist, htree⟩
  have hlength := congrArg List.length hlist
  rw [hstep] at hlength
  cases hget : NameTree.get nc.zones ["example", "com"] <;> simp [hget] at hlength

end Vanguard.Recursor
