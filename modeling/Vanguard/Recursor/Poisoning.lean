import Vanguard.Recursor.Sharing

namespace Vanguard.Recursor

open Library

section

variable (hash : Name → UInt32)

variable {ns ns' : NameServerManager} {trustLevel : TrustLevel}

theorem addNameServer_cases {at_ : Instant} {index : ℕ} {name : Name} {ttl : UInt32}
    {addrs : List Rdata}
    (hadd : ns.addNameServer hash at_ index name ttl addrs trustLevel = .ok ns') : ns' = ns ∨
      ns.keeps hash at_.now name trustLevel = false ∧
      ∃ e : NameServerEntry, e.name = name ∧ e.expireTime = at_.now.after ttl ∧
        ns' = ⟨Function.update ns.nsEntrys (hash name) (some e)⟩ := by
  unfold NameServerManager.addNameServer newNameServerEntry at hadd
  by_cases haddrs : addrs = []
  · simp [haddrs] at hadd
  simp only [haddrs, if_false] at hadd
  cases hkeeps : ns.keeps hash at_.now name trustLevel with
  | true =>
    rw [hkeeps] at hadd
    exact .inl (Except.ok.inj hadd).symm
  | false =>
    rw [hkeeps] at hadd
    exact .inr ⟨rfl, _, rfl, rfl, (Except.ok.inj hadd).symm⟩

def NameServerManager.Guards (ns : NameServerManager) (now : Time) (name : Name)
    (e : NameServerEntry) : Prop :=
  ∃ slot, ns.nsEntrys (hash name) = some slot ∧ slot.isExpired now = false ∧
    (slot = e ∨ slot.name ≠ name)

variable {hash} {at_ : Instant} {zone name : Name} {e : NameServerEntry}

theorem NameServerManager.Guards.getNameServer {now : Time} (h : ns.Guards hash now name e)
    {e' : NameServerEntry} (hget : ns.getNameServer hash name = some e') : e' = e := by
  obtain ⟨slot, hslot, -, hentry⟩ := h
  rw [NameServerManager.getNameServer, hslot, Option.filter_eq_some_iff] at hget
  obtain ⟨heq, hname⟩ := hget
  cases heq
  rcases hentry with rfl | hother
  · rfl
  · exact absurd (by simpa using hname) hother

theorem NameServerManager.Guards.addNameServer (h : ns.Guards hash at_.now name e) {index : ℕ}
    {server : Name} {ttl : UInt32} {addrs : List Rdata}
    (htrust : server = name → trustLevel = .outOfZone)
    (hadd : ns.addNameServer hash at_ index server ttl addrs trustLevel = .ok ns') :
    ns'.Guards hash at_.now name e := by
  obtain ⟨slot, hslot, hvalid, hentry⟩ := h
  rcases addNameServer_cases hash hadd with rfl | ⟨hkeeps, new, hname, hexpire, rfl⟩
  · exact ⟨slot, hslot, hvalid, hentry⟩
  by_cases hsame : hash name = hash server
  · -- The valid entry is kept against the lowest trust, so the new one is of another server.
    have hserver : server ≠ name := by
      intro heq
      rw [NameServerManager.keeps, ← hsame, hslot, htrust heq] at hkeeps
      simp [hvalid, TrustLevel.level] at hkeeps
    refine ⟨new, ?_, ?_, .inr (hname ▸ hserver)⟩
    · rw [hsame]
      exact Function.update_self ..
    · rw [NameServerEntry.isExpired, hexpire, Time.after]
      simp
  · exact ⟨slot, (Function.update_of_ne hsame ..).trans hslot, hvalid, hentry⟩

theorem NameServerManager.Guards.addGlues (hout : name.isSubDomain zone = false)
    (glues : List (RRset Rdata)) (index : ℕ) (h : ns.Guards hash at_.now name e) :
    (addGlues hash at_ zone index glues ns).2.Guards hash at_.now name e := by
  induction glues generalizing index ns with
  | nil => exact h
  | cons glue glues ih =>
    unfold Recursor.addGlues
    simp only []
    split
    · exact h
    · next hadd =>
      refine ih (index + 1) (h.addNameServer (fun heq => ?_) hadd)
      rw [heq, if_neg (by simp [hout])]

variable {T : Type} [NameTree T (Element ZoneEntry)]

theorem addZone_nameServers (nc : NsasCache T) (now : Time) (nsRRset : RRset Rdata)
    (trustLevel : TrustLevel) :
    (NsasCache.addZone hash nc now nsRRset trustLevel).2.nameServers = nc.nameServers := by
  unfold NsasCache.addZone
  split
  · rfl
  · simp only []
    split
    · split <;> rfl
    · rfl

/-- A server outside the zone keeps its valid entry or loses it, whatever a response says. -/
theorem out_of_zone_entry_kept (hash : Name → UInt32) (nc : NsasCache T) (at_ : Instant)
    (zone : Name) (msg : Message Section) {name : Name} {e : NameServerEntry}
    (hout : name.isSubDomain zone = false) (hget : nc.nameServers.getNameServer hash name = some e)
    (hvalid : e.isExpired at_.now = false) {e' : NameServerEntry}
    (hget' : (NsasCache.addZoneNameServer hash nc at_ zone msg).2.nameServers.getNameServer hash
      name = some e') : e' = e := by
  have hguards : nc.nameServers.Guards hash at_.now name e :=
    ⟨e, (Option.filter_eq_some_iff.mp hget).1, hvalid, .inl rfl⟩
  suffices hafter : (NsasCache.addZoneNameServer hash nc at_ zone msg).2.nameServers.Guards hash
      at_.now name e from hafter.getNameServer hget'
  unfold NsasCache.addZoneNameServer
  split
  · exact hguards
  · exact hguards
  · next nsRRset glues _ =>
    have hglues := hguards.addGlues hout glues 0
    split
    · next hadded => rwa [hadded] at hglues
    · next hadded =>
      rw [addZone_nameServers]
      rwa [hadded] at hglues

end

def foreignReferral : Message Section :=
  { exampleReferral ["b", "org"] ["ns", "com"] 3600 with
    additional := [⟨["ns", "com"], .a, .internet, 3600, [.a [6, 6, 6, 6]]⟩] }

/-- The server of `com.` keeps its address. -/
theorem example_foreign_address_refused :
    ∃ e e', (exampleZones ["ns", "com"] ["ns", "com"]).nameServers.getNameServer exampleHash
        ["ns", "com"] = some e ∧
      (NsasCache.addZoneNameServer exampleHash (exampleZones ["ns", "com"] ["ns", "com"])
        exampleInstant ["org"] foreignReferral).2.nameServers.getNameServer exampleHash
          ["ns", "com"] = some e' ∧
      e.addrEntrys = [⟨.a [1, 1, 1, 1], 0⟩] ∧ e' = e := by
  have hbefore : (exampleZones ["ns", "com"] ["ns", "com"]).nameServers.getNameServer exampleHash
      ["ns", "com"] = some ⟨["ns", "com"], [⟨.a [1, 1, 1, 1], 0⟩], 3600000000000, .fromAuth⟩ := by
    decide
  obtain ⟨e', hafter⟩ : ∃ e', (NsasCache.addZoneNameServer exampleHash
      (exampleZones ["ns", "com"] ["ns", "com"]) exampleInstant ["org"]
      foreignReferral).2.nameServers.getNameServer exampleHash ["ns", "com"] = some e' :=
    Option.isSome_iff_exists.mp (by decide)
  exact ⟨_, e', hbefore, hafter, rfl,
    out_of_zone_entry_kept exampleHash _ exampleInstant ["org"] foreignReferral (by decide) hbefore
      (by decide) hafter⟩

end Vanguard.Recursor
