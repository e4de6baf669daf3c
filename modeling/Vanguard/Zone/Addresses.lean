import Vanguard.Zone.GlueLookup

namespace Vanguard.Zone

open Library List Option

namespace ZoneMap

open Classical in
noncomputable def covering (m : ZoneMap) (origin name : Name) : Option Name :=
  if origin <:+ name ∧ m.topmostCut origin name = none ∧ ¬m.Existing name then
    ((m.closestEncloser name).map Name.wildcard).filter fun w => m.HasData w
  else none

/-- Those stored at the name, or synthesised from the wildcard that covers it. -/
def addresses (m : ZoneMap) (origin name : Name) : Set (Name × RRType × Entry) :=
  {x | origin <:+ name ∧ x.1 = name ∧ x.2.1 ∈ addressTypes ∧
    (m name x.2.1 = some x.2.2 ∨ ∃ w ∈ m.covering origin name, m w x.2.1 = some x.2.2)}

end ZoneMap

def targets (typ : RRType) (rdatas : List Rdata) : List Name :=
  rdatas.filterMap fun rdata =>
    match targetOf typ rdata with
    | .ok target => target
    | .error _ => none

/-- An RRset of type NS, MX or SRV, with rdatas of its type. -/
def Refers (typ : RRType) (rdatas : List Rdata) : Prop :=
  ∀ rdata ∈ rdatas, ∃ name, targetOf typ rdata = .ok (some name)

variable {T : Type} [DomainTree T NameNode]

namespace MemoryZone

structure AddressesFound (h : Objects) (z : MemoryZone T) (name : Name) : Prop where
  cuts : z.CutsReadable name
  marked : ∀ w ∈ z.usedWildcard name, (dataAt z.domains w).isSome = true
  stored : (z.content h name .a).isSome = true ∨ (z.content h name .aaaa).isSome = true →
    ¬z.Delegates name ∧
      ((z.content h name .a).isSome = true ∨ (z.content h name .cname).isSome = false)
  covered : ∀ w ∈ (z.content h).covering z.origin name, z.content h w .aaaa = none
  same : ((z.usedWildcard name).bind fun w => z.content h w .a) =
    ((z.content h).covering z.origin name).bind fun w => z.content h w .a

variable {h : Objects} {z : MemoryZone T} {name : Name}

theorem Filed.of_content (hz : z.Filed h) {n : Name} {t : RRType} {e : Entry}
    (hentry : z.content h n t = some e) :
    z.origin <:+ n ∧ (z.content h).Existing n ∧ (node z.domains n).isSome = true := by
  obtain ⟨p, hslot⟩ := slots_of_content (show (z.content h n t).isSome = true by simp [hentry])
  obtain ⟨nodeData, hdata⟩ := isSome_iff_exists.mp
    (isSome_dataAt_of_slots (show (z.slots n t).isSome = true by simp [hslot]))
  have hhas : (z.content h).HasData n := ⟨t, by simp [hentry]⟩
  exact ⟨hz.inZone n t (by simp [hslot]), hhas.existing, isSome_node_of_dataAt hdata⟩

theorem Filed.content_of_usedWildcard (hz : z.Filed h) {w : Name}
    (hused : z.usedWildcard name = some w) (t : RRType) : z.content h name t = none := by
  by_contra hsome
  obtain ⟨e, hentry⟩ := ne_none_iff_exists'.mp hsome
  have hnode := (hz.of_content hentry).2.2
  simp [usedWildcard, hnode] at hused

theorem of_covering {m : ZoneMap} {origin w : Name} (hcovered : m.covering origin name = some w) :
    origin <:+ name ∧ ∀ t, m name t = none := by
  unfold ZoneMap.covering at hcovered
  split at hcovered
  · next hcond =>
    refine ⟨hcond.1, fun t => ?_⟩
    by_contra hsome
    have hhas : m.HasData name := ⟨t, by simpa [isSome_iff_ne_none] using hsome⟩
    exact hcond.2.2 hhas.existing
  · cases hcovered

/-- The lookup gives the addresses exactly if the last conditions of `AddressesFound` hold. -/
theorem given_eq_addresses_iff (hz : z.Filed h) :
    z.given h name = (z.content h).addresses z.origin name ↔
      ((z.content h name .a).isSome = true ∨ (z.content h name .aaaa).isSome = true →
        ¬z.Delegates name ∧
          ((z.content h name .a).isSome = true ∨ (z.content h name .cname).isSome = false)) ∧
      (∀ w ∈ (z.content h).covering z.origin name, z.content h w .aaaa = none) ∧
      ((z.usedWildcard name).bind fun w => z.content h w .a) =
        ((z.content h).covering z.origin name).bind fun w => z.content h w .a := by
  have hfour : RRType.a ∈ addressTypes := by decide
  have hsix : RRType.aaaa ∈ addressTypes := by decide
  constructor
  · intro hsame
    have hiff (t : RRType) (e : Entry) := Set.ext_iff.mp hsame (name, t, e)
    refine ⟨fun hstored => ?_, fun w hw => ?_, Option.ext fun e =>
      ⟨fun hused => ?_, fun hcov => ?_⟩⟩
    · obtain ⟨t, ht, e, hentry⟩ : ∃ t ∈ addressTypes, ∃ e, z.content h name t = some e := by
        simpa [addressTypes, isSome_iff_exists] using hstored
      have hmem := (hiff t e).mpr ⟨(hz.of_content hentry).1, rfl, ht, .inl hentry⟩
      rcases hmem.2 with ⟨-, -, hcond⟩ | ⟨-, hused⟩
      · exact hcond
      · obtain ⟨w, hw, -⟩ := bind_eq_some_iff.mp hused
        simp [hz.content_of_usedWildcard hw] at hentry
    · by_contra hsome
      obtain ⟨e, hentry⟩ := ne_none_iff_exists'.mp hsome
      obtain ⟨hin, hnone⟩ := of_covering hw
      have hmem := (hiff .aaaa e).mpr ⟨hin, rfl, hsix, .inr ⟨w, hw, hentry⟩⟩
      rcases hmem.2 with ⟨-, hown, -⟩ | ⟨htyp, -⟩
      · simp [hnone] at hown
      · have hne : RRType.aaaa ≠ .a := by decide
        exact absurd htyp hne
    · have hmem := (hiff .a e).mp ⟨rfl, .inr ⟨rfl, hused⟩⟩
      obtain ⟨w, hw, -⟩ := bind_eq_some_iff.mp hused
      rcases hmem.2.2.2 with hown | ⟨w', hw', hentry⟩
      · simp [hz.content_of_usedWildcard hw] at hown
      · exact bind_eq_some_iff.mpr ⟨w', hw', hentry⟩
    · obtain ⟨w, hw, hentry⟩ := bind_eq_some_iff.mp hcov
      obtain ⟨hin, hnone⟩ := of_covering hw
      have hmem := (hiff .a e).mpr ⟨hin, rfl, hfour, .inr ⟨w, hw, hentry⟩⟩
      rcases hmem.2 with ⟨-, hown, -⟩ | ⟨-, hused⟩
      · simp [hnone] at hown
      · exact hused
  · rintro ⟨hstored, hcovered, hsame⟩
    ext ⟨n, t, e⟩
    constructor
    · rintro ⟨rfl, ⟨ht, hentry, -⟩ | ⟨rfl, hused⟩⟩
      · exact ⟨(hz.of_content hentry).1, rfl, ht, .inl hentry⟩
      · rw [hsame] at hused
        obtain ⟨w, hw, hentry⟩ := bind_eq_some_iff.mp hused
        exact ⟨(of_covering hw).1, rfl, hfour, .inr ⟨w, hw, hentry⟩⟩
    · rintro ⟨-, rfl, ht, hentry | ⟨w, hw, hentry⟩⟩
      · refine ⟨rfl, .inl ⟨ht, hentry, hstored ?_⟩⟩
        rcases mem_pair.mp ht with rfl | rfl
        · exact .inl (by simp [hentry])
        · exact .inr (by simp [hentry])
      · rcases mem_pair.mp ht with rfl | rfl
        · refine ⟨rfl, .inr ⟨rfl, ?_⟩⟩
          rw [hsame]
          exact bind_eq_some_iff.mpr ⟨w, hw, hentry⟩
        · cases (hcovered w hw).symm.trans hentry

variable {rdatas : List Rdata} {l : List (Option Found)} {typ : RRType}

theorem additionalOf_cons {rdata : Rdata} (htarget : targetOf typ rdata = .ok (some name)) :
    z.additionalOf typ (rdata :: rdatas) = .ok l ↔
      ∃ addrs rest, z.getAdditioanlAddrs name = .ok addrs ∧ z.additionalOf typ rdatas = .ok rest ∧
        l = addrs ++ rest := by
  simp only [additionalOf, htarget, bind, Except.bind]
  cases z.getAdditioanlAddrs name with
  | error e => simp
  | ok addrs =>
    cases z.additionalOf typ rdatas with
    | error e => simp
    | ok rest => simp [pure, Except.pure, eq_comm]

theorem additionalOf_returns_iff (hrefers : Refers typ rdatas) :
    (∃ l, z.additionalOf typ rdatas = .ok l) ↔
      ∀ name ∈ targets typ rdatas, ∃ l, z.getAdditioanlAddrs name = .ok l := by
  induction rdatas with
  | nil => simp [additionalOf, targets]
  | cons rdata rdatas ih =>
    obtain ⟨name, htarget⟩ := hrefers rdata mem_cons_self
    have hrest := ih fun rdata' hmem => hrefers rdata' (mem_cons_of_mem _ hmem)
    have htargets : targets typ (rdata :: rdatas) = name :: targets typ rdatas := by
      simp [targets, htarget]
    rw [htargets, forall_mem_cons, ← hrest]
    simp only [additionalOf_cons htarget]
    constructor
    · rintro ⟨l, addrs, rest, haddrs, hok, -⟩
      exact ⟨⟨addrs, haddrs⟩, rest, hok⟩
    · rintro ⟨⟨addrs, haddrs⟩, rest, hok⟩
      exact ⟨addrs ++ rest, addrs, rest, haddrs, hok, rfl⟩

theorem mem_additionalOf (hrefers : Refers typ rdatas) (hok : z.additionalOf typ rdatas = .ok l)
    (x : Option Found) : x ∈ l ↔ ∃ name ∈ targets typ rdatas, ∃ addrs,
      z.getAdditioanlAddrs name = .ok addrs ∧ x ∈ addrs := by
  induction rdatas generalizing l with
  | nil =>
    cases hok
    simp [targets]
  | cons rdata rdatas ih =>
    obtain ⟨name, htarget⟩ := hrefers rdata mem_cons_self
    obtain ⟨addrs, rest, haddrs, hrest, rfl⟩ := (additionalOf_cons htarget).mp hok
    have hmem := ih (fun rdata' hmem => hrefers rdata' (mem_cons_of_mem _ hmem)) hrest
    have htargets : targets typ (rdata :: rdatas) = name :: targets typ rdatas := by
      simp [targets, htarget]
    simp [htargets, haddrs, hmem]

variable [LawfulDomainTree T NameNode]

/-- `GetAdditional` is complete exactly if `AddressesFound` holds of every name. -/
theorem additional_complete_iff (hz : z.Filed h) {r : RRset Rdata}
    (hrefers : Refers r.typ r.rdatas) :
    (∃ l, z.getAdditional (some r) = .ok l ∧ ∀ x, x ∈ l.map (Option.map (Found.view h)) ↔
      ∃ name ∈ targets r.typ r.rdatas, ∃ y ∈ (z.content h).addresses z.origin name, x = some y) ↔
    ∀ name ∈ targets r.typ r.rdatas, z.AddressesFound h name := by
  have hview {l : List (Option Found)} (hok : z.additionalOf r.typ r.rdatas = .ok l)
      (x : Option (Name × RRType × Entry)) : x ∈ l.map (Option.map (Found.view h)) ↔
        ∃ name ∈ targets r.typ r.rdatas, ∃ y ∈ z.given h name, x = some y := by
    have hall := (additionalOf_returns_iff hrefers).mp ⟨l, hok⟩
    simp only [List.mem_map, mem_additionalOf hrefers hok]
    constructor
    · rintro ⟨found, ⟨name, hname, addrs, haddrs, hmem⟩, rfl⟩
      exact ⟨name, hname, (mem_getAdditioanlAddrs hz haddrs _).mp (mem_map_of_mem hmem)⟩
    · rintro ⟨name, hname, hgiven⟩
      obtain ⟨addrs, haddrs⟩ := hall name hname
      obtain ⟨found, hmem, rfl⟩ := mem_map.mp ((mem_getAdditioanlAddrs hz haddrs x).mpr hgiven)
      exact ⟨found, ⟨name, hname, addrs, haddrs, hmem⟩, rfl⟩
  constructor
  · rintro ⟨l, hok, hmem⟩ name hname
    obtain ⟨addrs, haddrs⟩ := (additionalOf_returns_iff hrefers).mp ⟨l, hok⟩ name hname
    obtain ⟨hcuts, hmarked⟩ := (getAdditioanlAddrs_returns_iff hz).mp ⟨addrs, haddrs⟩
    -- An address says for which name it was given.
    have hsame : z.given h name = (z.content h).addresses z.origin name := by
      ext y
      constructor
      · intro hgiven
        obtain ⟨name', hname', y', hy', heq⟩ :=
          (hmem (some y)).mp ((hview hok (some y)).mpr ⟨name, hname, y, hgiven, rfl⟩)
        cases heq
        obtain rfl : name' = name := hy'.2.1.symm.trans hgiven.1
        exact hy'
      · intro haddress
        obtain ⟨name', hname', y', hy', heq⟩ :=
          (hview hok (some y)).mp ((hmem (some y)).mpr ⟨name, hname, y, haddress, rfl⟩)
        cases heq
        obtain rfl : name' = name := hy'.1.symm.trans haddress.2.1
        exact hy'
    obtain ⟨hstored, hcovered, hwildcard⟩ := (given_eq_addresses_iff hz).mp hsame
    exact ⟨hcuts, hmarked, hstored, hcovered, hwildcard⟩
  · intro hfound
    have hall : ∀ name ∈ targets r.typ r.rdatas, ∃ l, z.getAdditioanlAddrs name = .ok l :=
      fun name hname => (getAdditioanlAddrs_returns_iff hz).mpr
        ⟨(hfound name hname).cuts, (hfound name hname).marked⟩
    obtain ⟨l, hok⟩ := (additionalOf_returns_iff hrefers).mpr hall
    refine ⟨l, hok, fun x => (hview hok x).trans ?_⟩
    refine exists_congr fun name => and_congr_right fun hname => ?_
    have hf := hfound name hname
    rw [(given_eq_addresses_iff hz).mpr ⟨hf.stored, hf.covered, hf.same⟩]

end MemoryZone

/-- A delegation, addresses at and below it, and a wildcard with both kinds. -/
def additionalObjects : Objects := .ofLists
  [⟨["example"], .soa, .internet, 300, [0]⟩, ⟨["example"], .ns, .internet, 300, [1]⟩,
    ⟨["b", "example"], .ns, .internet, 300, [2]⟩, ⟨["b", "example"], .a, .internet, 300, [3]⟩,
    ⟨["ns", "b", "example"], .a, .internet, 300, [4]⟩, ⟨["*", "example"], .a, .internet, 300, [5]⟩,
    ⟨["*", "example"], .aaaa, .internet, 300, [6]⟩]
  [.soa ⟨["ns", "example"], ["root", "example"], 1, 7200, 3600, 86400, 300⟩,
    .ns ["ns", "example"], .ns ["ns", "b", "example"], .a [1, 1, 1, 1], .a [2, 2, 2, 2],
    .a [3, 3, 3, 3], .aaaa [0, 1]]

def additionalZone : MemoryZone (ReferenceTree NameNode) :=
  match run ZoneState.stepCall ⟨additionalObjects, newMemoryZone ["example"], []⟩
      ([0, 1, 2, 3, 4, 5, 6].map fun p => .change (.add p)) with
  | .ok s => s.zone
  | .error _ => newMemoryZone ["example"]

theorem additionalZone_filed : additionalZone.Filed additionalObjects := by
  have hrun : run ZoneState.stepCall ⟨additionalObjects, newMemoryZone ["example"], []⟩
      ([0, 1, 2, 3, 4, 5, 6].map fun p => .change (.add p)) =
        .ok ⟨additionalObjects, additionalZone, List.replicate 7 none⟩ := rfl
  refine filed_of_reached (fun op hmem => ?_) ⟨_, prefix_refl _, hrun⟩
  obtain ⟨p, hp, heq⟩ := mem_map.mp hmem
  obtain rfl := ZoneCall.change.inj heq
  have hall : ∀ p ∈ ([0, 1, 2, 3, 4, 5, 6] : List ℕ), p < additionalObjects.rrsets.next := by decide
  exact hall p hp

/-- The address of the name server below the delegation is given as glue. -/
theorem example_glue_given :
    ∃ l, additionalZone.getAdditional
        (some ⟨["b", "example"], .ns, .internet, 300, [.ns ["ns", "b", "example"]]⟩) = .ok l ∧
      ∀ x, x ∈ l.map (Option.map (Found.view additionalObjects)) ↔
        ∃ name ∈ targets .ns [.ns ["ns", "b", "example"]],
          ∃ y ∈ (additionalZone.content additionalObjects).addresses ["example"] name,
            x = some y := by
  have hrefers : Refers .ns [.ns ["ns", "b", "example"]] := by
    intro rdata hmem
    rw [mem_singleton.mp hmem]
    exact ⟨["ns", "b", "example"], rfl⟩
  refine (MemoryZone.additional_complete_iff additionalZone_filed hrefers).mpr fun name hname => ?_
  obtain rfl : name = ["ns", "b", "example"] := by simpa [targets, targetOf] using hname
  have hexists : (additionalZone.content additionalObjects).Existing ["ns", "b", "example"] :=
    ⟨["ns", "b", "example"], suffix_rfl, .a, by decide⟩
  have hnode : (node additionalZone.domains ["ns", "b", "example"]).isSome = true := by decide
  have hused : additionalZone.usedWildcard ["ns", "b", "example"] = none := by
    simp [MemoryZone.usedWildcard, hnode]
  have hcovering : (additionalZone.content additionalObjects).covering additionalZone.origin
      ["ns", "b", "example"] = none := if_neg fun h => h.2.2 hexists
  refine ⟨?_, by simp [hused], fun _ => ⟨?_, .inl (by decide)⟩, by simp [hcovering], ?_⟩
  · unfold MemoryZone.CutsReadable
    decide
  · unfold MemoryZone.Delegates
    decide
  · rw [hused, hcovering]

theorem additionalZone_covering :
    (additionalZone.content additionalObjects).covering ["example"] ["mail", "example"] =
      some ["*", "example"] := by
  have hno : ¬(additionalZone.content additionalObjects).Existing ["mail", "example"] := by
    rintro ⟨k, hk, hdata⟩
    obtain ⟨entry, hmem, hsome, rfl⟩ := node_of_hasData hdata
    have hnone : ∀ entry ∈ additionalZone.domains.nodes, entry.2.data.isSome = true →
        ¬["mail", "example"] <:+ entry.1 := by
      decide
    exact hnone entry hmem hsome hk
  have hencloser : (additionalZone.content additionalObjects).closestEncloser ["mail", "example"] =
      some ["example"] := by
    refine ZoneMap.closestEncloser_eq_some.mpr
      ⟨by decide, ⟨["example"], by decide, .soa, by decide⟩, fun k hk hexists => ?_⟩
    rcases suffix_cons_iff.mp hk with rfl | hk
    · exact absurd hexists hno
    · exact hk
  have hdata : (additionalZone.content additionalObjects).HasData ["*", "example"] :=
    ⟨.a, by decide⟩
  unfold ZoneMap.covering
  rw [if_pos ⟨by decide, by decide, hno⟩, hencloser]
  simp [Name.wildcard, hdata]

/-- A mail exchanger at a zone cut gets no address, one under the wildcard only the A RRset. -/
theorem example_addresses_missing :
    additionalZone.Filed additionalObjects ∧
    additionalZone.getAdditional
        (some ⟨["example"], .mx, .internet, 300, [.mx 10 ["b", "example"]]⟩) = .ok [] ∧
    (["b", "example"], RRType.a, Entry.mk 300 [.a [1, 1, 1, 1]]) ∈
      (additionalZone.content additionalObjects).addresses ["example"] ["b", "example"] ∧
    (∃ l, additionalZone.getAdditional
        (some ⟨["example"], .mx, .internet, 300, [.mx 10 ["mail", "example"]]⟩) = .ok l ∧
      l.map (Option.map (Found.view additionalObjects)) =
        [some (["mail", "example"], .a, ⟨300, [.a [3, 3, 3, 3]]⟩)]) ∧
    (["mail", "example"], RRType.aaaa, Entry.mk 300 [.aaaa [0, 1]]) ∈
      (additionalZone.content additionalObjects).addresses ["example"] ["mail", "example"] := by
  refine ⟨additionalZone_filed, rfl, ?_, ⟨_, rfl, by decide⟩, ?_⟩
  · exact ⟨by decide, rfl, by decide, .inl (by decide)⟩
  · exact ⟨by decide, rfl, by decide, .inr ⟨_, additionalZone_covering, by decide⟩⟩

end Vanguard.Zone
