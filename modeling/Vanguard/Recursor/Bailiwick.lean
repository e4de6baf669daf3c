import Vanguard.Recursor.NsasCache

namespace Vanguard.Recursor

open Library List

variable {T : Type} [NameTree T (Element ZoneEntry)]

def NsasCache.entriesOf (nc : NsasCache T) (n : Name) : List (Element ZoneEntry) :=
  nc.visitedZone.elems.filter (fun e => e.value.zone = n)

/-- The tree leads to the same element of the zone, and the list has the same ones. -/
structure SameZone (nc nc' : NsasCache T) (n : Name) : Prop where
  get_eq : NameTree.get nc'.zones n = NameTree.get nc.zones n
  entries : (nc'.entriesOf n).Perm (nc.entriesOf n)

theorem SameZone.refl (nc : NsasCache T) (n : Name) : SameZone nc nc n := ⟨rfl, List.Perm.refl _⟩

def NsasCache.Refuses (nc : NsasCache T) (now : Time) (zone : Name) (trust : TrustLevel) : Prop :=
  ∃ elem, NameTree.get nc.zones zone = some elem ∧ elem.value.isExpired now = false ∧
    trust.level < elem.value.trustLevel.level

def Offers (response : Message Section) (r : RRset Rdata) : Prop :=
  (if response.question.typ = .ns ∧ response.answer.length = 1 then response.answer
    else response.auth) = [r] ∧ r.typ = .ns ∧ ∀ d ∈ r.rdatas, nsName d ≠ none

/-- The response is of a kind that `handleResponse` understands. -/
def Understood (response : Message Section) : Prop :=
  ∃ kind, classifyResponse response = .ok kind ∧ kind ≠ .unknown

/-- Every NS RRset offered is for the zone asked or below it, or is known better. -/
def NsasCache.InBailiwick (nc : NsasCache T) (now : Time) (zone : Name)
    (response : Message Section) : Prop :=
  Understood response → ∀ r, Offers response r →
    zone <:+ r.name ∨ nc.Refuses now r.name (trustOf response)

theorem mapM_nsName_eq_none_iff {rdatas : List Rdata} :
    rdatas.mapM nsName = none ↔ ¬∀ d ∈ rdatas, nsName d ≠ none := by
  induction rdatas with
  | nil => simp
  | cons d rdatas ih =>
    cases hd : nsName d with
    | none => simp [mapM_cons, hd]
    | some name =>
      cases hrest : rdatas.mapM nsName with
      | none => simpa [mapM_cons, hd, hrest] using ih.mp hrest
      | some names => simpa [mapM_cons, hd, hrest] using ih

variable {response : Message Section} {glues : List (RRset Rdata)}

theorem getAuthAndGlues_eq_ok {zone : Name} {r : RRset Rdata}
    (h : getAuthAndGlues zone response = .ok (.ok (r, glues))) :
    Offers response r ∧ ∀ g ∈ glues, g.rdatas ≠ [] := by
  unfold getAuthAndGlues at h
  simp only [] at h
  split at h
  case h_2 => cases h
  case h_1 nsRRset hauth =>
    by_cases htyp : nsRRset.typ = .ns
    · simp only [ne_eq, htyp, not_true_eq_false, if_false] at h
      cases hservers : nsRRset.rdatas.mapM nsName with
      | none => simp [hservers] at h
      | some servers =>
        simp only [hservers, Except.ok.injEq, Prod.mk.injEq] at h
        obtain ⟨rfl, rfl⟩ := h
        refine ⟨⟨hauth, htyp, ?_⟩, ?_⟩
        · by_contra hnot
          rw [mapM_nsName_eq_none_iff.mpr hnot] at hservers
          cases hservers
        · intro g hg
          simpa using (mem_filter.mp hg).2
    · simp [htyp] at h

theorem getAuthAndGlues_of_offers (zone : Name) {r : RRset Rdata} (h : Offers response r) :
    ∃ glues, getAuthAndGlues zone response = .ok (.ok (r, glues)) := by
  obtain ⟨hauth, htyp, hall⟩ := h
  unfold getAuthAndGlues
  simp only [hauth, htyp]
  cases hservers : r.rdatas.mapM nsName with
  | none => exact absurd hall (mapM_nsName_eq_none_iff.mp hservers)
  | some servers => exact ⟨_, rfl⟩

variable (hash : Name → UInt32)

theorem addNameServer_eq_ok (ns : NameServerManager) (at_ : Instant) (index : ℕ) (name : Name)
    (ttl : UInt32) {addrs : List Rdata} (hne : addrs ≠ []) (trust : TrustLevel) :
    ∃ ns', ns.addNameServer hash at_ index name ttl addrs trust = .ok ns' := by
  simp only [NameServerManager.addNameServer, newNameServerEntry, hne, if_false]
  cases ns.keeps hash at_.now name trust
  · exact ⟨_, rfl⟩
  · exact ⟨_, rfl⟩

theorem addGlues_eq_ok (at_ : Instant) (zone : Name) (hglues : ∀ g ∈ glues, g.rdatas ≠ [])
    (index : ℕ) (ns : NameServerManager) :
    ∃ ns', addGlues hash at_ zone index glues ns = (.ok (), ns') := by
  induction glues generalizing index ns with
  | nil => exact ⟨ns, rfl⟩
  | cons glue glues ih =>
    obtain ⟨ns', hns'⟩ := addNameServer_eq_ok hash ns at_ index glue.name glue.ttl
      (hglues glue mem_cons_self)
      (if glue.name.isSubDomain zone then .fromAuth else .outOfZone)
    simp only [addGlues, hns']
    exact ih (fun g hg => hglues g (mem_cons_of_mem _ hg)) (index + 1) ns'

theorem addZoneNameServer_cases (nc : NsasCache T) (at_ : Instant) (zone : Name)
    (msg : Message Section) :
    (∃ r ns, (∀ r', Offers msg r' ↔ r' = r) ∧ (NsasCache.addZoneNameServer hash nc at_ zone msg).2 =
      (NsasCache.addZone hash { nc with nameServers := ns } at_.now r (trustOf msg)).2) ∨
    ((∀ r, ¬Offers msg r) ∧ (NsasCache.addZoneNameServer hash nc at_ zone msg).2 = nc) := by
  have hnone (hnot : ∀ r glues, getAuthAndGlues zone msg ≠ .ok (.ok (r, glues))) (r : RRset Rdata) :
      ¬Offers msg r := fun hr => by
    obtain ⟨glues, hglues⟩ := getAuthAndGlues_of_offers zone hr
    exact hnot r glues hglues
  rcases htaken : getAuthAndGlues zone msg with f | e | ⟨r, glues⟩
  · exact .inr ⟨hnone (by simp [htaken]), by simp only [NsasCache.addZoneNameServer, htaken]⟩
  · exact .inr ⟨hnone (by simp [htaken]), by simp only [NsasCache.addZoneNameServer, htaken]⟩
  · obtain ⟨hoffers, hglues⟩ := getAuthAndGlues_eq_ok htaken
    obtain ⟨ns, hns⟩ := addGlues_eq_ok hash at_ zone hglues 0 nc.nameServers
    refine .inl ⟨r, ns, fun r' => ⟨fun hr' => ?_, fun heq => heq ▸ hoffers⟩,
      by simp only [NsasCache.addZoneNameServer, htaken, hns]⟩
    simpa using hr'.1.symm.trans hoffers.1

/-- A response that is understood goes through `AddZoneNameServer`. -/
theorem handleResponse_cache (at_ : Instant) (question : Question) (zone : Name)
    (response : Message Section) (nc : NsasCache T) :
    (Understood response ∧ (handleResponse hash at_ question zone response nc).2 =
      (NsasCache.addZoneNameServer hash nc at_ zone response).2) ∨
    (¬Understood response ∧ (handleResponse hash at_ question zone response nc).2 = nc) := by
  have hfinal : (handleFinalAnswer hash at_ question zone response nc).2 =
      (NsasCache.addZoneNameServer hash nc at_ zone response).2 := by
    unfold handleFinalAnswer
    split <;> simp [*]
  have hreferal : (handleReferal hash at_ zone response nc).2 =
      (NsasCache.addZoneNameServer hash nc at_ zone response).2 := by
    unfold handleReferal
    split <;> simp [*]
  cases hkind : classifyResponse response with
  | error f => exact .inr ⟨by simp [Understood, hkind], by simp only [handleResponse, hkind]⟩
  | ok kind =>
    cases kind with
    | unknown => exact .inr ⟨by simp [Understood, hkind], by simp only [handleResponse, hkind]⟩
    | referral =>
      exact .inl ⟨⟨_, hkind, nofun⟩, by simpa only [handleResponse, hkind] using hreferal⟩
    | answer | nxDomain | nxRRset =>
      exact .inl ⟨⟨_, hkind, nofun⟩, by simpa only [handleResponse, hkind] using hfinal⟩

section

variable [LawfulNameTree T (Element ZoneEntry)]

variable {trust : TrustLevel} {nc : NsasCache T} {r : RRset Rdata} {now : Time}

section

variable (hrdatas : ∀ d ∈ r.rdatas, nsName d ≠ none)

include hrdatas

theorem sameZone_addZone_of_refuses (hrefuses : nc.Refuses now r.name trust) (n : Name) :
    SameZone nc (NsasCache.addZone hash nc now r trust).2 n := by
  obtain ⟨elem, hget, hfresh, hlevel⟩ := hrefuses
  cases hservers : r.rdatas.mapM nsName with
  | none => exact absurd hrdatas (mapM_nsName_eq_none_iff.mp hservers)
  | some servers =>
    have hsearch := NameTree.search_eq_exactMatch.mpr hget
    simp only [NsasCache.addZone, hservers, hsearch, hfresh, hlevel, and_self, if_true]
    exact ⟨rfl, (nc.visitedZone.moveToFront_perm elem).filter _⟩

theorem addZone_of_not_refuses (hnot : ¬nc.Refuses now r.name trust) :
    ∃ servers entry, r.rdatas.mapM nsName = some servers ∧
      entry = newZoneEntry now r.name servers r.ttl trust ∧
      (NsasCache.addZone hash nc now r trust).2 =
        { nc with
          visitedZone := (nc.visitedZone.pushFront entry).1,
          zones := NameTree.insert nc.zones r.name (nc.visitedZone.pushFront entry).2 } := by
  cases hservers : r.rdatas.mapM nsName with
  | none => exact absurd hrdatas (mapM_nsName_eq_none_iff.mp hservers)
  | some servers =>
    refine ⟨servers, newZoneEntry now r.name servers r.ttl trust, rfl, rfl, ?_⟩
    cases hsearch : NameTree.search nc.zones r.name with
    | exactMatch elem =>
      have hget := NameTree.search_eq_exactMatch.mp hsearch
      have hcond : ¬(elem.value.isExpired now = false ∧
          trust.level < elem.value.trustLevel.level) := fun h => hnot ⟨elem, hget, h⟩
      simp only [NsasCache.addZone, hservers, hsearch, hcond, if_false]
    | closestEncloser elem | notFound => simp only [NsasCache.addZone, hservers, hsearch]

theorem sameZone_addZone_iff (n : Name) :
    SameZone nc (NsasCache.addZone hash nc now r trust).2 n ↔
      (n = r.name → nc.Refuses now r.name trust) := by
  by_cases hrefuses : nc.Refuses now r.name trust
  · exact ⟨fun _ _ => hrefuses, fun _ => sameZone_addZone_of_refuses hash hrdatas hrefuses n⟩
  · obtain ⟨servers, entry, -, hentry, hcache⟩ := addZone_of_not_refuses hash hrdatas hrefuses
    have hzone : entry.zone = r.name := by rw [hentry, newZoneEntry]
    rw [hcache]
    constructor
    · rintro ⟨-, hperm⟩ rfl
      -- The list has one element more for the zone, so it cannot be the same.
      have hlength := hperm.length_eq
      simp [NsasCache.entriesOf, LinkedList.pushFront, hzone] at hlength
    · intro hn
      have hne : n ≠ r.name := fun heq => hrefuses (hn heq)
      refine ⟨by simp [NameTree.get_insert, hne], ?_⟩
      have hother : ¬entry.zone = n := by
        rw [hzone]
        exact hne.symm
      simp [NsasCache.entriesOf, LinkedList.pushFront, hother]

end

theorem sameZone_addZoneNameServer_iff (nc : NsasCache T) (at_ : Instant) (zone : Name)
    (msg : Message Section) (n : Name) :
    SameZone nc (NsasCache.addZoneNameServer hash nc at_ zone msg).2 n ↔
      ∀ r, Offers msg r → n = r.name → nc.Refuses at_.now r.name (trustOf msg) := by
  rcases addZoneNameServer_cases hash nc at_ zone msg with
    ⟨r, ns, hoffers, hcache⟩ | ⟨hnone, hcache⟩
  · have hstep : SameZone { nc with nameServers := ns }
        (NsasCache.addZone hash { nc with nameServers := ns } at_.now r (trustOf msg)).2 n ↔
          (n = r.name → nc.Refuses at_.now r.name (trustOf msg)) :=
      sameZone_addZone_iff hash ((hoffers r).mpr rfl).2.2 n
    simp only [hcache, hoffers, forall_eq, ← hstep]
    exact ⟨fun hsame => ⟨hsame.get_eq, hsame.entries⟩, fun hsame => ⟨hsame.get_eq, hsame.entries⟩⟩
  · rw [hcache]
    exact ⟨fun _ r hr => absurd hr (hnone r), fun _ => SameZone.refl nc n⟩

/-- The entries outside `zone` are left exactly when the response is in its bailiwick. -/
theorem handleResponse_bailiwick_iff (at_ : Instant) (question : Question) (zone : Name)
    (response : Message Section) (nc : NsasCache T) :
    (∀ n, ¬zone <:+ n →
      SameZone nc (handleResponse hash at_ question zone response nc).2 n) ↔
      nc.InBailiwick at_.now zone response := by
  rcases handleResponse_cache hash at_ question zone response nc with
    ⟨hkind, hcache⟩ | ⟨hkind, hcache⟩
  · simp only [hcache, sameZone_addZoneNameServer_iff]
    constructor
    · intro hall _ r hr
      by_cases hzone : zone <:+ r.name
      · exact .inl hzone
      · exact .inr (hall r.name hzone r hr rfl)
    · rintro hin n hn r hr rfl
      exact (hin hkind r hr).resolve_left hn
  · rw [hcache]
    exact ⟨fun _ hunderstood => absurd hunderstood hkind, fun _ n _ => SameZone.refl nc n⟩

end

def exampleQuestion : Question := ⟨["www", "example", "com"], .a, .internet⟩

def exampleResponse (owner : Name) : Message Section where
  header := ⟨0, true, false, .noError, 1, 1, 0⟩
  question := exampleQuestion
  answer := [⟨["www", "example", "com"], .a, .internet, 300, [.a [1, 1, 1, 1]]⟩]
  auth := [⟨owner, .ns, .internet, 300, [.ns ["ns", "example", "com"]]⟩]
  additional := []

def exampleInstant : Instant := ⟨0, fun _ _ => 0⟩

def exampleCache (owner : Name) : NsasCache (NameTable (Element ZoneEntry)) :=
  (handleResponse (fun _ => 0) exampleInstant exampleQuestion ["example", "com"]
    (exampleResponse owner) newNsasCache).2

/-- An NS RRset of the zone itself leaves its parent. -/
theorem example_own_servers_stored :
    ¬["example", "com"] <:+ ["com"] ∧
      SameZone newNsasCache (exampleCache ["example", "com"]) ["com"] := by
  refine ⟨by decide, (handleResponse_bailiwick_iff (fun _ => 0) exampleInstant exampleQuestion
    ["example", "com"] (exampleResponse ["example", "com"]) newNsasCache).mpr ?_ _ (by decide)⟩
  intro _ r hr
  have hsection : (exampleResponse ["example", "com"]).auth = [r] := hr.1
  obtain rfl : _ = r := by simpa [exampleResponse] using hsection
  exact .inl suffix_rfl

/-- The servers of `example.com.` become the servers of `com.`. -/
theorem example_parent_taken_over :
    ¬["example", "com"] <:+ ["com"] ∧ ¬SameZone newNsasCache (exampleCache ["com"]) ["com"] ∧
      NameTree.search (exampleCache ["com"]).zones ["other", "com"] =
        .closestEncloser ⟨0, ⟨["com"], [["ns", "example", "com"]], 300000000000, .fromAuth⟩⟩ := by
  refine ⟨by decide, fun hsame => ?_, by decide⟩
  have hget := hsame.get_eq
  revert hget
  decide

end Vanguard.Recursor
