import Vanguard.Recursor.Removal

namespace Vanguard.Recursor

open Library List

section

variable (hash : Name → UInt32)

theorem nsEntrys_deleteNameServers (ns : NameServerManager) (names : List Name) (key : UInt32) :
    (ns.deleteNameServers hash names).nsEntrys key =
      if key ∈ names.map hash then none else ns.nsEntrys key := by
  induction names generalizing ns with
  | nil => rfl
  | cons name names ih =>
    have hcons : ns.deleteNameServers hash (name :: names) =
        NameServerManager.deleteNameServers hash
          ⟨Function.update ns.nsEntrys (hash name) none⟩ names := rfl
    rw [hcons, ih, map_cons]
    by_cases hrest : key ∈ names.map hash
    · rw [if_pos hrest, if_pos (mem_cons_of_mem _ hrest)]
    · rw [if_neg hrest]
      by_cases hkey : key = hash name
      · rw [if_pos (mem_cons.mpr (.inl hkey)), hkey]
        exact Function.update_self ..
      · rw [if_neg (fun hmem => (mem_cons.mp hmem).elim hkey hrest)]
        exact Function.update_of_ne hkey ..

variable {ns : NameServerManager} {zone : ZoneEntry} {now : Time}

theorem mem_liveServers {e : NameServerEntry} : e ∈ zone.liveServers hash ns now ↔
      e.name ∈ zone.nameServers ∧ ns.nsEntrys (hash e.name) = some e ∧ e.isExpired now = false := by
  simp only [ZoneEntry.liveServers, NameServerManager.getNameServer, mem_filterMap,
    Option.filter_eq_some_iff, Bool.not_eq_true', decide_eq_true_eq]
  constructor
  · rintro ⟨name, hname, ⟨hentry, rfl⟩, hlive⟩
    exact ⟨hname, hentry, hlive⟩
  · rintro ⟨hname, hentry, hlive⟩
    exact ⟨e.name, hname, ⟨hentry, rfl⟩, hlive⟩

theorem mem_liveServers_deleteNameServers {names : List Name} {e : NameServerEntry} :
    e ∈ zone.liveServers hash (ns.deleteNameServers hash names) now ↔
      e ∈ zone.liveServers hash ns now ∧ hash e.name ∉ names.map hash := by
  rw [mem_liveServers, mem_liveServers, nsEntrys_deleteNameServers]
  by_cases hdeleted : hash e.name ∈ names.map hash
  · simp [hdeleted]
  · simp only [hdeleted, if_false, not_false_eq_true, and_true]

theorem liveServers_deleteNameServers {names : List Name}
    (hkept : ∀ e ∈ zone.liveServers hash ns now, hash e.name ∉ names.map hash) :
    zone.liveServers hash (ns.deleteNameServers hash names) now = zone.liveServers hash ns now := by
  refine filterMap_congr fun name hname => ?_
  simp only [NameServerManager.getNameServer, nsEntrys_deleteNameServers]
  by_cases hdeleted : hash name ∈ names.map hash
  · -- Whatever was under the hash was not a live server of the zone.
    rw [if_pos hdeleted]
    cases hlive : (Option.filter (fun e => decide (e.name = name)) (ns.nsEntrys (hash name))).filter
        (fun e => !e.isExpired now) with
    | none => rfl
    | some e =>
      simp only [Option.filter_eq_some_iff, decide_eq_true_eq, Bool.not_eq_true'] at hlive
      obtain ⟨⟨hentry, rfl⟩, hexpired⟩ := hlive
      exact absurd hdeleted (hkept e ((mem_liveServers hash).mpr ⟨hname, hentry, hexpired⟩))
  · rw [if_neg hdeleted]

variable {T : Type} [NameTree T (Element ZoneEntry)]

def NsasCache.Other (nc : NsasCache T) (now : Time) (removed : Element ZoneEntry) (n : Name)
    (other : Element ZoneEntry) : Prop :=
  NameTree.get nc.zones n = some other ∧ n ≠ removed.value.zone ∧ other.value.isExpired now = false

def NsasCache.SharesNoServer (nc : NsasCache T) (now : Time) (removed : Element ZoneEntry) : Prop :=
  ∀ n other, nc.Other now removed n other → ∀ e ∈ other.value.liveServers hash nc.nameServers now,
    ∀ name ∈ removed.value.nameServers, hash name ≠ hash e.name

variable [ErasableNameTree T (Element ZoneEntry)]

structure NsasCache.Undisturbed (nc : NsasCache T) (now : Time) (removed : Element ZoneEntry)
    (n : Name) (other : Element ZoneEntry) : Prop where
  get_eq : NameTree.get (nc.removeZone hash removed).zones n = some other
  live : ∀ e, e ∈ other.value.liveServers hash (nc.removeZone hash removed).nameServers now ↔
    e ∈ other.value.liveServers hash nc.nameServers now
  select : other.value.selectNameServer hash (nc.removeZone hash removed).nameServers now =
    other.value.selectNameServer hash nc.nameServers now

/-- Removing a zone leaves the servers of all other zones exactly when it shares none with them. -/
theorem removeZone_undisturbed_iff [LawfulErasableNameTree T (Element ZoneEntry)]
    (nc : NsasCache T) (now : Time) (removed : Element ZoneEntry) :
    (∀ n other, nc.Other now removed n other → nc.Undisturbed hash now removed n other) ↔
      nc.SharesNoServer hash now removed := by
  constructor
  · rintro hall n other hother e he name hname heq
    have hafter := ((hall n other hother).live e).mpr he
    have hkept := ((mem_liveServers_deleteNameServers hash).mp hafter).2
    exact hkept (mem_map.mpr ⟨name, hname, heq⟩)
  · intro hshares n other hother
    have hkept : ∀ e ∈ other.value.liveServers hash nc.nameServers now,
        hash e.name ∉ removed.value.nameServers.map hash := by
      intro e he hmem
      obtain ⟨name, hname, heq⟩ := mem_map.mp hmem
      exact hshares n other hother e he name hname heq
    have hlive : other.value.liveServers hash (nc.removeZone hash removed).nameServers now =
        other.value.liveServers hash nc.nameServers now := liveServers_deleteNameServers hash hkept
    refine ⟨?_, fun e => by rw [hlive], by simp only [ZoneEntry.selectNameServer, hlive]⟩
    have hget : NameTree.get (nc.removeZone hash removed).zones n =
        if n = removed.value.zone then none else NameTree.get nc.zones n :=
      LawfulErasableNameTree.get_delete _ _ _
    rw [hget, if_neg hother.2.1, hother.1]

end

def exampleReferral (owner server : Name) (ttl : UInt32) : Message Section where
  header := ⟨0, false, false, .noError, 0, 1, 1⟩
  question := exampleQuestion
  answer := []
  auth := [⟨owner, .ns, .internet, ttl, [.ns server]⟩]
  additional := [⟨server, .a, .internet, 3600, [.a [1, 1, 1, 1]]⟩]

def exampleHash (n : Name) : UInt32 := (n.headD "").length.toUInt32

def exampleZones (serverOfA serverOfB : Name) : NsasCache (NameTable (Element ZoneEntry)) :=
  (NsasCache.addZoneNameServer exampleHash
    (NsasCache.addZoneNameServer exampleHash newNsasCache exampleInstant ["com"]
      (exampleReferral ["a", "com"] serverOfA 10)).2 exampleInstant ["com"]
    (exampleReferral ["b", "com"] serverOfB 3600)).2

def exampleElement (id : ℕ) (owner server : Name) (expireTime : Time) : Element ZoneEntry :=
  ⟨id, ⟨owner, [server], expireTime, .fromReferal⟩⟩

/-- Removing `a.com.` leaves the server of `b.com.` if it is another one. -/
theorem example_own_server_kept :
    (exampleZones ["n", "com"] ["ns", "com"]).Undisturbed exampleHash 11000000000
      (exampleElement 0 ["a", "com"] ["n", "com"] 10000000000) ["b", "com"]
      (exampleElement 1 ["b", "com"] ["ns", "com"] 3600000000000) := by
  refine (removeZone_undisturbed_iff exampleHash (exampleZones ["n", "com"] ["ns", "com"])
    11000000000 (exampleElement 0 ["a", "com"] ["n", "com"] 10000000000)).mpr ?_ _ _
      ⟨by decide, by decide, by decide⟩
  rintro n other ⟨hget, hne, -⟩ e he name hname
  have hzones : (exampleZones ["n", "com"] ["ns", "com"]).zones =
      ⟨[(["b", "com"], exampleElement 1 ["b", "com"] ["ns", "com"] 3600000000000),
        (["a", "com"], exampleElement 0 ["a", "com"] ["n", "com"] 10000000000)]⟩ := by decide
  have hlookup : (exampleZones ["n", "com"] ["ns", "com"]).zones.entries.lookup n = some other :=
    hget
  have hna : (n == ["a", "com"]) = false := by simpa [exampleElement] using hne
  obtain rfl : exampleElement 1 ["b", "com"] ["ns", "com"] 3600000000000 = other := by
    cases hnb : n == ["b", "com"] with
    | false => simp [hzones, lookup_cons, hna, hnb] at hlookup
    | true => simpa [hzones, lookup_cons, hnb] using hlookup
  have hserver : e.name = ["ns", "com"] := by
    simpa [exampleElement] using ((mem_liveServers exampleHash).mp he).1
  obtain rfl : name = ["n", "com"] := by simpa [exampleElement] using hname
  rw [hserver]
  decide

/-- `b.com.` has a server to ask, until a query for the expired `a.com.` deletes the one they share.
-/
theorem example_shared_server_lost :
    (exampleZones ["ns", "com"] ["ns", "com"]).Other 11000000000
        (exampleElement 0 ["a", "com"] ["ns", "com"] 10000000000) ["b", "com"]
        (exampleElement 1 ["b", "com"] ["ns", "com"] 3600000000000) ∧
      ¬(exampleZones ["ns", "com"] ["ns", "com"]).Undisturbed exampleHash 11000000000
        (exampleElement 0 ["a", "com"] ["ns", "com"] 10000000000) ["b", "com"]
        (exampleElement 1 ["b", "com"] ["ns", "com"] 3600000000000) ∧
      ((exampleZones ["ns", "com"] ["ns", "com"]).select exampleHash 11000000000 ["b", "com"]).1 =
        some (.ok [⟨["b", "com"], ["ns", "com"], .a [1, 1, 1, 1], 0⟩]) ∧
      (((exampleZones ["ns", "com"] ["ns", "com"]).select exampleHash 11000000000
        ["a", "com"]).2.select exampleHash 11000000000 ["b", "com"]).1 = some (.ok []) := by
  refine ⟨⟨by decide, by decide, by decide⟩, fun h => ?_, rfl, rfl⟩
  have hselect : (Except.ok [] : Except Fault (List NameServer)) =
      .ok [⟨["b", "com"], ["ns", "com"], .a [1, 1, 1, 1], 0⟩] := h.select
  cases hselect

end Vanguard.Recursor
