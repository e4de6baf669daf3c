import Vanguard.K8s.SubsetRecords

namespace Vanguard.K8s

open Library Zone List

section

variable (g : Texts) (origin : Name) (o : Endpoints)

def IsPod (n : Name) : Prop :=
  ∃ subset ∈ o.subsets, ∃ addr ∈ subset.addresses,
    getEndpointsAddrDomain g origin addr o.name o.nspace = .ok n

def IsPort (n : Name) : Prop := ∃ subset ∈ o.subsets, ∃ port, port ∈ portsAt g origin o subset n

def lastWithPod (n : Name) : Option EndpointSubset :=
  (o.subsets.filter fun subset => podIps g origin o subset.addresses n ≠ []).getLast?

def lastExposure (n : Name) : Option (EndpointSubset × EndpointPort) :=
  (o.subsets.flatMap fun subset => (portsAt g origin o subset n).map (subset, ·)).getLast?

variable (svc : Service)

/-- The addresses of all pods and the targets of all named ports are there. -/
structure HoldsAll (m : ZoneMap) : Prop where
  pods : ∀ subset ∈ o.subsets, ∀ addr ∈ subset.addresses, ∀ n,
    getEndpointsAddrDomain g origin addr o.name o.nspace = .ok n →
    ∃ entry ∈ m n .a, ∃ host, g.aFromString addr.ip = some host ∧ .a host ∈ entry.rdatas
  ports : ∀ subset ∈ o.subsets, ∀ port ∈ subset.ports, port.name ≠ "" → ∀ n,
    getPortName g origin port.name port.protocol o.name o.nspace = .ok n →
    ∃ entry ∈ m n .srv, ∀ target, SrvTarget g origin o svc subset target →
      srvRdata port target ∈ entry.rdatas

structure HoldsOnly (m : ZoneMap) : Prop where
  pods : ∀ n, IsPod g origin o n → ∀ entry ∈ m n .a, ∀ rdata ∈ entry.rdatas,
    ∃ subset ∈ o.subsets, ∃ addr ∈ subset.addresses,
      getEndpointsAddrDomain g origin addr o.name o.nspace = .ok n ∧ rdata = g.aRdata addr.ip
  ports : ∀ n, IsPort g origin o n → ∀ entry ∈ m n .srv, entry.rdatas.Nodup ∧
    ∀ rdata ∈ entry.rdatas, ∃ subset ∈ o.subsets, ∃ port ∈ portsAt g origin o subset n,
      ∃ target, SrvTarget g origin o svc subset target ∧ rdata = srvRdata port target

/-- The last subset with a name has all addresses and targets of that name. -/
structure LastHasAll : Prop where
  pods : ∀ n, ∀ last ∈ lastWithPod g origin o n, ∀ subset ∈ o.subsets,
    ∀ ip ∈ podIps g origin o subset.addresses n, ∃ host, g.aFromString ip = some host ∧
      ∃ ip' ∈ podIps g origin o last.addresses n, g.aFromString ip' = some host
  ports : ∀ n, ∀ last ∈ lastExposure g origin o n, ∀ subset ∈ o.subsets,
    ∀ port ∈ portsAt g origin o subset n, ∀ target, SrvTarget g origin o svc subset target →
      SrvTarget g origin o svc last.1 target ∧
        port.port.toUInt32.toUInt16 = last.2.port.toUInt32.toUInt16

structure LastStands (m : ZoneMap) : Prop where
  pods : ∀ n, IsPod g origin o n → ∃ last ∈ lastWithPod g origin o n,
    m n .a = some ⟨defaultTTL, (podIps g origin o last.addresses n).map g.aRdata⟩
  ports : ∀ n, IsPort g origin o n → ∃ last ∈ lastExposure g origin o n,
    m n .srv = some ⟨defaultTTL, (targetsOf g origin o svc last.1).map (srvRdata last.2)⟩

end

section last

variable {g : Texts} {origin : Name} {o : Endpoints} {svc : Service} {n : Name} {m : ZoneMap}

theorem IsPod.lastWithPod (hn : IsPod g origin o n) :
    (lastWithPod g origin o n).isSome = true := by
  obtain ⟨subset, hsubset, haddr⟩ := hn
  rw [K8s.lastWithPod, getLast?_isSome]
  refine ne_nil_of_mem (a := subset) ?_
  simpa [hsubset] using podIps_ne_nil_iff.mpr haddr

theorem IsPort.lastExposure (hn : IsPort g origin o n) :
    (lastExposure g origin o n).isSome = true := by
  obtain ⟨subset, hsubset, port, hport⟩ := hn
  rw [K8s.lastExposure, getLast?_isSome]
  refine ne_nil_of_mem (a := (subset, port)) ?_
  exact mem_flatMap.mpr ⟨subset, hsubset, mem_map_of_mem hport⟩

variable {last : EndpointSubset × EndpointPort}

theorem lastExposure_mem (hlast : last ∈ lastExposure g origin o n) :
    last.1 ∈ o.subsets ∧ last.2 ∈ portsAt g origin o last.1 n := by
  obtain ⟨subset, hsubset, hmem⟩ := mem_flatMap.mp (mem_of_getLast? hlast)
  obtain ⟨port, hport, rfl⟩ := mem_map.mp hmem
  exact ⟨hsubset, hport⟩

variable {subset : EndpointSubset}

theorem mem_portsAt {port : EndpointPort} :
    port ∈ portsAt g origin o subset n ↔ port ∈ subset.ports ∧ port.name ≠ "" ∧
      getPortName g origin port.name port.protocol o.name o.nspace = .ok n := by
  simp [portsAt]

theorem mem_podIps {addresses : List EndpointAddress} {ip : String} :
    ip ∈ podIps g origin o addresses n ↔ ∃ addr ∈ addresses,
      getEndpointsAddrDomain g origin addr o.name o.nspace = .ok n ∧ addr.ip = ip := by
  simp [podIps, and_assoc]

theorem a_mem_map_aRdata {ips : List String} {host : List UInt8} :
    Rdata.a host ∈ ips.map g.aRdata ↔ ∃ ip ∈ ips, g.aFromString ip = some host := by
  rw [mem_map]
  refine exists_congr fun ip => and_congr_right fun _ => ?_
  unfold Texts.aRdata
  cases g.aFromString ip with
  | none => simp [nilA]
  | some host' => simp

theorem srvRdata_eq_iff {port port' : EndpointPort} {target target' : Name} :
    srvRdata port target = srvRdata port' target' ↔
      port.port.toUInt32.toUInt16 = port'.port.toUInt32.toUInt16 ∧ target = target' := by
  simp [srvRdata]

variable (hm : LastStands g origin o svc m)

include hm

theorem LastStands.holdsOnly (hreads : g.Reads origin svc o) : HoldsOnly g origin o svc m := by
  constructor
  · intro n hn entry hentry rdata hrdata
    obtain ⟨last, hlast, heq⟩ := hm.pods n hn
    cases heq.symm.trans hentry
    obtain ⟨ip, hip, rfl⟩ := mem_map.mp hrdata
    obtain ⟨addr, haddr, hname, rfl⟩ := mem_podIps.mp hip
    exact ⟨last, mem_of_mem_filter (mem_of_getLast? hlast), addr, haddr, hname, rfl⟩
  · intro n hn entry hentry
    obtain ⟨last, hlast, heq⟩ := hm.ports n hn
    cases heq.symm.trans hentry
    obtain ⟨hsubset, hport⟩ := lastExposure_mem hlast
    obtain ⟨htargets, hnodup⟩ := targetsOf_spec hreads hsubset
    refine ⟨hnodup.map fun target target' h => (srvRdata_eq_iff.mp h).2, fun rdata hrdata => ?_⟩
    obtain ⟨target, htarget, rfl⟩ := mem_map.mp hrdata
    exact ⟨last.1, hsubset, last.2, hport, target, (htargets target).mp htarget, rfl⟩

theorem LastStands.pods_iff (hn : IsPod g origin o n) {last : EndpointSubset}
    (hlast : last ∈ lastWithPod g origin o n) {ip : String} :
    (∃ entry ∈ m n .a, ∃ host, g.aFromString ip = some host ∧ .a host ∈ entry.rdatas) ↔
      ∃ host, g.aFromString ip = some host ∧
        ∃ ip' ∈ podIps g origin o last.addresses n, g.aFromString ip' = some host := by
  obtain ⟨last', hlast', heq⟩ := hm.pods n hn
  cases hlast.symm.trans hlast'
  simp [heq, a_mem_map_aRdata]

theorem LastStands.ports_iff (hreads : g.Reads origin svc o) (hn : IsPort g origin o n)
    (hlast : last ∈ lastExposure g origin o n) {port : EndpointPort} :
    (∃ entry ∈ m n .srv, ∀ target, SrvTarget g origin o svc subset target →
      srvRdata port target ∈ entry.rdatas) ↔
    ∀ target, SrvTarget g origin o svc subset target → SrvTarget g origin o svc last.1 target ∧
      port.port.toUInt32.toUInt16 = last.2.port.toUInt32.toUInt16 := by
  obtain ⟨last', hlast', heq⟩ := hm.ports n hn
  cases hlast.symm.trans hlast'
  have htargets := (targetsOf_spec hreads (lastExposure_mem hlast).1).1
  have hmem (target : Name) :
      srvRdata port target ∈ (targetsOf g origin o svc last.1).map (srvRdata last.2) ↔
        SrvTarget g origin o svc last.1 target ∧
          port.port.toUInt32.toUInt16 = last.2.port.toUInt32.toUInt16 := by
    rw [mem_map]
    constructor
    · rintro ⟨target', htarget', hrdata⟩
      obtain ⟨hport, rfl⟩ := srvRdata_eq_iff.mp hrdata
      exact ⟨(htargets target').mp htarget', hport.symm⟩
    · rintro ⟨htarget, hport⟩
      exact ⟨target, (htargets target).mpr htarget, srvRdata_eq_iff.mpr ⟨hport.symm, rfl⟩⟩
  simp [heq, hmem]

theorem LastStands.holdsAll_iff (hreads : g.Reads origin svc o) :
    HoldsAll g origin o svc m ↔ LastHasAll g origin o svc := by
  constructor
  · rintro ⟨hpods, hports⟩
    constructor
    · intro n last hlast subset hsubset ip hip
      obtain ⟨addr, haddr, hname, rfl⟩ := mem_podIps.mp hip
      have hn : IsPod g origin o n := ⟨subset, hsubset, addr, haddr, hname⟩
      exact (hm.pods_iff hn hlast).mp (hpods subset hsubset addr haddr n hname)
    · intro n last hlast subset hsubset port hport
      obtain ⟨hmem, hnamed, hname⟩ := mem_portsAt.mp hport
      have hn : IsPort g origin o n := ⟨subset, hsubset, port, hport⟩
      exact (hm.ports_iff hreads hn hlast).mp (hports subset hsubset port hmem hnamed n hname)
  · rintro ⟨hpods, hports⟩
    constructor
    · intro subset hsubset addr haddr n hname
      have hn : IsPod g origin o n := ⟨subset, hsubset, addr, haddr, hname⟩
      obtain ⟨last, hlast⟩ := Option.isSome_iff_exists.mp hn.lastWithPod
      refine (hm.pods_iff hn hlast).mpr (hpods n last hlast subset hsubset addr.ip ?_)
      exact mem_podIps.mpr ⟨addr, haddr, hname, rfl⟩
    · intro subset hsubset port hmem hnamed n hname
      have hport := mem_portsAt.mpr ⟨hmem, hnamed, hname⟩
      have hn : IsPort g origin o n := ⟨subset, hsubset, port, hport⟩
      obtain ⟨last, hlast⟩ := Option.isSome_iff_exists.mp hn.lastExposure
      exact (hm.ports_iff hreads hn hlast).mpr (hports n last hlast subset hsubset port hport)

end last

variable {T : Type} [DomainTree T NameNode] [LawfulDomainTree T NameNode]

theorem addPodRecord_lastStands {g : Texts} (hg : g.Lawful) {a : Auth T} (ha : a.Sound)
    {svc : Service} {o : Endpoints} (hreads : g.Reads (a.origin .service) svc o)
    (hfree : ∀ n, IsPod g (a.origin .service) o n ∨ IsPort g (a.origin .service) o n →
      a.map .service n .cname = none) :
    Returns (a.perform (addPodRecord g (a.origin .service) svc o)) fun a' =>
      LastStands g (a.origin .service) o svc (a'.map .service) := by
  refine (addPodRecord_writes hreads).bind fun calls hcalls => ?_
  refine (Auth.run_replace_spec ha fun c hc => (hcalls.puts c hc).regular).imp fun a' ha' => ?_
  have htypes : RRType.a ≠ .cname ∧ RRType.srv ≠ .cname := by decide
  rw [ha'.2.2]
  constructor
  · intro n hn
    obtain ⟨last, hlast⟩ := Option.isSome_iff_exists.mp hn.lastWithPod
    have hin : a.origin .service <:+ n := by
      obtain ⟨subset, -, addr, -, hname⟩ := hn
      exact suffix_of_domain hg hname
    have hentries : (o.subsets.flatMap (podEntries g (a.origin .service) o · n)).getLast? =
        (lastWithPod g (a.origin .service) o n).map fun subset => ⟨defaultTTL,
          (podIps g (a.origin .service) o subset.addresses n).map g.aRdata⟩ := by
      unfold podEntries lastWithPod
      rw [flatMap_if_singleton, getLast?_map]
    refine ⟨last, hlast, ?_⟩
    rw [foldl_effect_of_puts hcalls.puts hin (hfree n (.inl hn)) htypes.1, hcalls.addresses,
      hentries, hlast]
    rfl
  · intro n hn
    obtain ⟨last, hlast⟩ := Option.isSome_iff_exists.mp hn.lastExposure
    have hin : a.origin .service <:+ n := by
      obtain ⟨subset, -, port, hport⟩ := hn
      exact suffix_of_domain hg (mem_portsAt.mp hport).2.2
    have hentries : (o.subsets.flatMap (portEntries g (a.origin .service) o svc · n)).getLast? =
        (lastExposure g (a.origin .service) o n).map fun last => ⟨defaultTTL,
          (targetsOf g (a.origin .service) o svc last.1).map (srvRdata last.2)⟩ := by
      unfold lastExposure
      rw [← getLast?_map, map_flatMap]
      simp only [map_map]
      rfl
    refine ⟨last, hlast, ?_⟩
    rw [foldl_effect_of_puts hcalls.puts hin (hfree n (.inr hn)) htypes.2, hcalls.services,
      hentries, hlast]
    rfl

/-- The records of all subsets are there exactly if the last subset with each name has them. -/
theorem addPodRecord_covers_iff {g : Texts} (hg : g.Lawful) {a : Auth T} (ha : a.Sound)
    (svc : Service) (o : Endpoints) (hreads : g.Reads (a.origin .service) svc o)
    (hfree : ∀ n, IsPod g (a.origin .service) o n ∨ IsPort g (a.origin .service) o n →
      a.map .service n .cname = none) :
    Returns (a.perform (addPodRecord g (a.origin .service) svc o)) fun a' =>
      HoldsOnly g (a.origin .service) o svc (a'.map .service) ∧
      (HoldsAll g (a.origin .service) o svc (a'.map .service) ↔
        LastHasAll g (a.origin .service) o svc) :=
  (addPodRecord_lastStands hg ha hreads hfree).imp fun _ hlast =>
    ⟨hlast.holdsOnly hreads, hlast.holdsAll_iff hreads⟩

theorem dottedTexts_reads (origin : Name) (svc : Service) (o : Endpoints) :
    dottedTexts.Reads origin svc o :=
  ⟨fun _ _ _ _ => ⟨_, rfl⟩, fun _ _ addr _ => dottedTexts_reverse addr.ip,
    fun _ _ _ _ _ => ⟨_, rfl⟩, fun _ => ⟨_, rfl⟩⟩

def mixedService : Service := ⟨"web", "prod", .clusterIP, "None", ""⟩

def webEndpoints : Endpoints :=
  ⟨"web", "prod", [⟨[⟨"10.42.0.5", "old"⟩], [⟨"http", 8080, "TCP"⟩]⟩,
    ⟨[⟨"10.42.0.6", "new"⟩], [⟨"metrics", 9090, "TCP"⟩]⟩]⟩

def sharedEndpoints : Endpoints :=
  ⟨"web", "prod", [⟨[⟨"10.42.0.5", "pod"⟩, ⟨"10.43.0.10", ""⟩], [⟨"http", 8080, "TCP"⟩]⟩,
    ⟨[⟨"10.42.0.6", "pod"⟩], [⟨"http", 8080, "TCP"⟩, ⟨"metrics", 9090, "TCP"⟩]⟩]⟩

def webName (labels : List String) : Name := labels ++ ["web", "prod", "svc", "cluster", "local"]

def ownNames (g : Texts) (origin : Name) (o : Endpoints) : List Name :=
  o.subsets.flatMap fun subset =>
    (subset.addresses.filterMap fun addr =>
      (getEndpointsAddrDomain g origin addr o.name o.nspace).toOption) ++
    subset.ports.filterMap fun port =>
      (getPortName g origin port.name port.protocol o.name o.nspace).toOption

theorem mem_ownNames {g : Texts} {origin : Name} {o : Endpoints} {n : Name}
    (hn : IsPod g origin o n ∨ IsPort g origin o n) : n ∈ ownNames g origin o := by
  rcases hn with ⟨subset, hsubset, addr, haddr, hname⟩ | ⟨subset, hsubset, port, hport⟩
  · refine mem_flatMap.mpr ⟨subset, hsubset, mem_append_left _ ?_⟩
    exact mem_filterMap.mpr ⟨addr, haddr, by rw [hname]; rfl⟩
  · obtain ⟨hport, -, hname⟩ := mem_portsAt.mp hport
    refine mem_flatMap.mpr ⟨subset, hsubset, mem_append_right _ ?_⟩
    exact mem_filterMap.mpr ⟨port, hport, by rw [hname]; rfl⟩

theorem webEndpoints_last :
    LastHasAll dottedTexts ["cluster", "local"] webEndpoints mixedService := by
  constructor
  · intro n last hlast subset hsubset ip hip
    obtain ⟨addr, haddr, hname, rfl⟩ := mem_podIps.mp hip
    rcases mem_pair.mp hsubset with rfl | rfl
    · obtain rfl := mem_singleton.mp haddr
      cases hname
      cases hlast
      exact ⟨[10, 42, 0, 5], by decide, "10.42.0.5", hip, by decide⟩
    · obtain rfl := mem_singleton.mp haddr
      cases hname
      cases hlast
      exact ⟨[10, 42, 0, 6], by decide, "10.42.0.6", hip, by decide⟩
  · intro n last hlast subset hsubset port hport target htarget
    obtain ⟨hmem, -, hname⟩ := mem_portsAt.mp hport
    rcases mem_pair.mp hsubset with rfl | rfl
    all_goals
      obtain rfl := mem_singleton.mp hmem
      cases hname
      cases hlast
      exact ⟨htarget, rfl⟩

/-- Subsets that share no name: the records of both are there. -/
theorem example_subsets_apart :
    ∃ a', clusterAuth.perform (addPodRecord dottedTexts ["cluster", "local"] mixedService
        webEndpoints) = .ok a' ∧
      HoldsAll dottedTexts ["cluster", "local"] webEndpoints mixedService (a'.map .service) := by
  have horigin := clusterAuth_origin
  have hcovers := addPodRecord_covers_iff dottedTexts_lawful clusterAuth_sound mixedService
    webEndpoints (dottedTexts_reads _ _ _)
  rw [horigin] at hcovers
  have hfree : ∀ n ∈ ownNames dottedTexts ["cluster", "local"] webEndpoints,
      clusterAuth.map .service n .cname = none := by decide +kernel
  obtain ⟨a', hok, -, hiff⟩ := hcovers fun n hn => hfree n (mem_ownNames hn)
  exact ⟨a', hok, hiff.mpr webEndpoints_last⟩

/-- Of subsets that share names only the records of the last are there. -/
theorem example_subset_overwritten :
    ∃ a', clusterAuth.perform (addPodRecord dottedTexts ["cluster", "local"] mixedService
        sharedEndpoints) = .ok a' ∧
      a'.map .service (webName ["pod"]) .a = some ⟨5, [.a [10, 42, 0, 6]]⟩ ∧
      a'.map .service (webName ["_http", "_TCP"]) .srv =
        some ⟨5, [.srv 10 100 8080 (webName ["pod"])]⟩ :=
  exists_ok (by decide +kernel)

end Vanguard.K8s
