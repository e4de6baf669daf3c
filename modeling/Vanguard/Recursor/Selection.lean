import Vanguard.Recursor.Sound

namespace Vanguard.Recursor

open Library List

inductive RecursorCall where
  | zones (call : Call)
  | addNameServer (at_ : Instant) (glue : RRset Rdata) (trustLevel : TrustLevel)
  | updateRtt (server : NameServer) (rtt : Int64)

section

variable {T : Type} [NameTree T (Element ZoneEntry)]

/-- The servers are live ones of the zone of the element, each at its fastest address. -/
structure NsasCache.Chosen (hash : Name → UInt32) (nc : NsasCache T) (now : Time) (zone : Name)
    (elem : Element ZoneEntry) (servers : List NameServer) : Prop where
  get : NameTree.get nc.zones elem.value.zone = some elem
  encloses : elem.value.zone ∈ zone.tails
  live : elem.value.isExpired now = false
  server : ∀ s ∈ servers, s.zone = elem.value.zone ∧ s.name ∈ elem.value.nameServers ∧
    ∃ e, nc.nameServers.getNameServer hash s.name = some e ∧ e.isExpired now = false ∧ e.Fastest s

end

section

variable {T : Type} [NameTree T (Element ZoneEntry)] [ErasableNameTree T (Element ZoneEntry)]
  (hash : Name → UInt32)

/-- A step of the cache. A glue without address panics before anything changes. -/
def NsasCache.recursorStep (maxCacheSize : ℤ) (nc : NsasCache T) :
    RecursorCall → Except Empty (NsasCache T)
  | .zones call => nc.step hash maxCacheSize call
  | .addNameServer at_ glue trustLevel =>
    match nc.nameServers.addNameServer hash at_ 0 glue.name glue.ttl glue.rdatas trustLevel with
    | .ok nameServers => .ok { nc with nameServers }
    | .error _ => .ok nc
  | .updateRtt server rtt =>
    .ok { nc with nameServers := nc.nameServers.updateRtt hash server rtt }

/-- Zones at or above the name were removed that had expired or had no live server. -/
inductive NsasCache.Dropped (now : Time) (zone : Name) : NsasCache T → NsasCache T → Prop where
  | nothing (nc : NsasCache T) : Dropped now zone nc nc
  | zone {nc nc' : NsasCache T} (elem : Element ZoneEntry)
      (hget : NameTree.get nc.zones elem.value.zone = some elem)
      (htail : elem.value.zone ∈ zone.tails)
      (hdead : elem.value.isExpired now = true ∨
        elem.value.liveServers hash nc.nameServers now = [])
      (hrest : Dropped now zone (nc.removeZone hash elem) nc') : Dropped now zone nc nc'

variable [LawfulErasableNameTree T (Element ZoneEntry)]

def NsasCache.ancestors (nc : NsasCache T) (zone : Name) : ℕ :=
  zone.tails.countP (fun m => (NameTree.get nc.zones m).isSome)

variable {nc : NsasCache T} {elem : Element ZoneEntry} {zone : Name}

theorem ancestors_removeZone_lt (hthere : NameTree.get nc.zones elem.value.zone = some elem)
    (htail : elem.value.zone ∈ zone.tails) :
    (nc.removeZone hash elem).ancestors zone < nc.ancestors zone := by
  have hget : ∀ m, NameTree.get (nc.removeZone hash elem).zones m =
      if m = elem.value.zone then none else NameTree.get nc.zones m := fun m =>
    LawfulErasableNameTree.get_delete _ _ _
  obtain ⟨before, after, hsplit⟩ := append_of_mem htail
  have hle : ∀ l : List Name,
      l.countP (fun m => (NameTree.get (nc.removeZone hash elem).zones m).isSome) ≤
        l.countP (fun m => (NameTree.get nc.zones m).isSome) := by
    intro l
    refine countP_mono_left fun m _ hm => ?_
    rw [hget] at hm
    split at hm
    · cases hm
    · exact hm
  have hbefore := hle before
  have hafter := hle after
  have hgone : (NameTree.get (nc.removeZone hash elem).zones elem.value.zone).isSome = false := by
    rw [hget, if_pos rfl, Option.isSome_none]
  simp only [NsasCache.ancestors, hsplit, countP_append, countP_cons, hgone, hthere,
    Option.isSome_some, if_true, Bool.false_eq_true, if_false]
  omega

/-- Dead zones were removed, and no zone was found or servers of one. -/
structure NsasCache.Selected (hash : Name → UInt32) (nc : NsasCache T) (now : Time) (zone : Name)
    (servers : List NameServer) (nc' : NsasCache T) : Prop where
  dropped : ∃ mid : NsasCache T, NsasCache.Dropped hash now zone nc mid ∧ nc'.zones = mid.zones ∧
    nc'.nameServers = mid.nameServers
  chosen : servers ≠ [] → ∃ elem, nc'.Chosen hash now zone elem servers

omit [LawfulErasableNameTree T (Element ZoneEntry)] in
theorem NsasCache.Selected.cons {nc nc' : NsasCache T} {now : Time} {servers : List NameServer}
    (hget : NameTree.get nc.zones elem.value.zone = some elem)
    (htail : elem.value.zone ∈ zone.tails)
    (hdead : elem.value.isExpired now = true ∨ elem.value.liveServers hash nc.nameServers now = [])
    (h : NsasCache.Selected hash (nc.removeZone hash elem) now zone servers nc') :
    NsasCache.Selected hash nc now zone servers nc' := by
  obtain ⟨mid, hdropped, hzones, hservers⟩ := h.dropped
  exact ⟨⟨mid, .zone elem hget htail hdead hdropped, hzones, hservers⟩, h.chosen⟩

variable [LawfulNameTree T (Element ZoneEntry)]

theorem NsasCache.Sound.selectNameServers (now : Time) (zone : Name) {searches : ℕ} (h : nc.Sound)
    (hlt : nc.ancestors zone < searches) : ∃ servers nc',
      NsasCache.selectNameServers hash now zone searches nc = (some (.ok servers), nc') ∧
      NsasCache.Selected hash nc now zone servers nc' := by
  induction searches generalizing nc with
  | zero => exact absurd hlt (Nat.not_lt_zero _)
  | succ searches ih =>
    by_cases hfound : ∃ elem, NameTree.search nc.zones zone = .exactMatch elem ∨
        NameTree.search nc.zones zone = .closestEncloser elem
    · obtain ⟨elem, hsearch⟩ := hfound
      obtain ⟨m, htail, hm⟩ := NameTree.get_of_search hsearch
      obtain rfl := h.keyed m elem hm
      have hfewer := ancestors_removeZone_lt hash hm htail
      obtain ⟨servers, nc', heq, hselected⟩ := ih (h.removeZone hash elem) (by omega)
      rw [NsasCache.selectNameServers_found hash hsearch]
      by_cases hexpired : elem.value.isExpired now = true
      · rw [if_pos hexpired]
        exact ⟨servers, nc', heq, hselected.cons hash hm htail (.inl hexpired)⟩
      · rw [if_neg hexpired]
        obtain ⟨chosen, hchosen, hnil, hall⟩ := elem.value.selectNameServer_ok hash now h.addressed
        rw [hchosen]
        cases chosen with
        | nil => exact ⟨servers, nc', heq, hselected.cons hash hm htail (.inr (hnil.mp rfl))⟩
        | cons server rest =>
          refine ⟨server :: rest, _, rfl, ⟨nc, .nothing nc, rfl, rfl⟩, fun _ => ⟨elem, ?_⟩⟩
          exact ⟨hm, htail, Bool.eq_false_iff.mpr hexpired, hall⟩
    · exact ⟨[], nc, NsasCache.selectNameServers_none hash hfound, ⟨nc, .nothing nc, rfl, rfl⟩,
        fun hne => absurd rfl hne⟩

theorem NsasCache.Sound.select (h : nc.Sound) (now : Time) (zone : Name) :
    ∃ servers nc', nc.select hash now zone = (some (.ok servers), nc') ∧
      NsasCache.Selected hash nc now zone servers nc' := by
  refine h.selectNameServers hash now zone ?_
  have hcount : nc.ancestors zone ≤ zone.tails.length := countP_le_length
  rw [length_tails] at hcount
  omega

omit [LawfulNameTree T (Element ZoneEntry)] in
theorem NsasCache.Dropped.sound {now : Time} {nc nc' : NsasCache T}
    (hdropped : NsasCache.Dropped hash now zone nc nc') (h : nc.Sound) : nc'.Sound := by
  induction hdropped with
  | nothing => exact h
  | zone elem _ _ _ _ ih => exact ih (h.removeZone hash elem)

theorem NsasCache.Sound.recursorStep {nc nc' : NsasCache T} (h : nc.Sound) {maxCacheSize : ℤ}
    {call : RecursorCall} (hstep : nc.recursorStep hash maxCacheSize call = .ok nc') :
    nc'.Sound := by
  cases call with
  | zones call =>
    cases call with
    | addZoneNameServer at_ zone msg =>
      cases hstep
      exact h.addZoneNameServer hash at_ zone msg
    | selectNameServers now zone =>
      cases hstep
      obtain ⟨servers, nc', heq, hselected⟩ := h.select hash now zone
      obtain ⟨mid, hdropped, hzones, hservers⟩ := hselected.dropped
      have hmid := hdropped.sound hash h
      rw [heq]
      exact ⟨by rw [hzones]; exact hmid.keyed, by rw [hservers]; exact hmid.addressed⟩
    | enforceMemoryLimit now =>
      cases hstep
      exact h.enforceMemoryLimit hash _ now
  | addNameServer at_ glue trustLevel =>
    simp only [NsasCache.recursorStep] at hstep
    split at hstep
    · next hadd =>
      cases hstep
      exact ⟨h.keyed, addressed_addNameServer hash h.addressed hadd⟩
    · cases hstep
      exact h
  | updateRtt server rtt =>
    cases hstep
    exact ⟨h.keyed, addressed_updateRtt hash server rtt h.addressed⟩

theorem NsasCache.sound_of_reached {maxCacheSize : ℤ} {calls : List RecursorCall}
    (hreached : Reached (NsasCache.recursorStep hash maxCacheSize) newNsasCache calls nc) :
    nc.Sound := by
  have hstart : (newNsasCache : NsasCache T).Sound :=
    ⟨by simp [newNsasCache, NameTree.get_newDomainTree], by simp [newNsasCache]⟩
  exact reached_invariant NsasCache.Sound (fun _ _ _ h heq => h.recursorStep hash heq) hstart
    hreached

/-- `SelectNameServers` returns live servers of the closest live zone and removes only dead ones. -/
theorem select_sound (maxCacheSize : ℤ) {calls : List RecursorCall} {nc : NsasCache T}
    (hreached : Reached (NsasCache.recursorStep hash maxCacheSize) newNsasCache calls nc)
    (now : Time) (zone : Name) :
    ∃ servers nc', nc.select hash now zone = (some (.ok servers), nc') ∧
      NsasCache.Selected hash nc now zone servers nc' :=
  (NsasCache.sound_of_reached hash hreached).select hash now zone

end

def referredCalls : List RecursorCall :=
  [.zones (.addZoneNameServer exampleInstant ["com"]
    (exampleReferral ["a", "com"] ["ns", "com"] 10))]

def referredServer : NameServer := ⟨["a", "com"], ["ns", "com"], .a [1, 1, 1, 1], 0⟩

/-- It is selected for a name in the zone as long as the zone has not expired. -/
theorem example_select_sound :
    ∃ nc nc' : NsasCache (NameTable (Element ZoneEntry)),
      run (NsasCache.recursorStep exampleHash 0) newNsasCache referredCalls = .ok nc ∧
      nc.select exampleHash 1 ["www", "a", "com"] = (some (.ok [referredServer]), nc') ∧
      NsasCache.Selected exampleHash nc 1 ["www", "a", "com"] [referredServer] nc' := by
  obtain ⟨nc, hrun, hfirst⟩ : ∃ nc : NsasCache (NameTable (Element ZoneEntry)),
      run (NsasCache.recursorStep exampleHash 0) newNsasCache referredCalls = .ok nc ∧
      (nc.select exampleHash 1 ["www", "a", "com"]).1 = some (.ok [referredServer]) := ⟨_, rfl, rfl⟩
  obtain ⟨servers, nc', heq, hselected⟩ :=
    select_sound exampleHash 0 ⟨_, prefix_rfl, hrun⟩ 1 ["www", "a", "com"]
  rw [heq] at hfirst
  obtain rfl : servers = [referredServer] := by simpa using hfirst
  exact ⟨nc, nc', hrun, heq, hselected⟩

end Vanguard.Recursor
