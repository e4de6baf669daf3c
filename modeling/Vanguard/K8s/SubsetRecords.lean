import Vanguard.K8s.Puts

namespace Vanguard.K8s

open Library Zone List

/-- The texts that `addPodRecord` makes are accepted, so that it does not panic. -/
structure Texts.Reads (g : Texts) (origin : Name) (svc : Service) (o : Endpoints) : Prop where
  pods : ∀ subset ∈ o.subsets, ∀ addr ∈ subset.addresses,
    ∃ n, getEndpointsAddrDomain g origin addr o.name o.nspace = .ok n
  reverse : ∀ subset ∈ o.subsets, ∀ addr ∈ subset.addresses, ∃ rn, getReverseName g addr.ip = .ok rn
  ports : ∀ subset ∈ o.subsets, ∀ port ∈ subset.ports, port.name ≠ "" →
    ∃ n, getPortName g origin port.name port.protocol o.name o.nspace = .ok n
  service : isHeaderlessService svc = false → ∃ d, getServiceDomain g origin svc = .ok d

section

variable (g : Texts) (origin : Name) (o : Endpoints)

def podIps (addresses : List EndpointAddress) (n : Name) : List String :=
  (addresses.filter fun addr =>
    getEndpointsAddrDomain g origin addr o.name o.nspace = .ok n).map (·.ip)

def portsAt (subset : EndpointSubset) (n : Name) : List EndpointPort :=
  subset.ports.filter fun port => port.name ≠ "" ∧
    getPortName g origin port.name port.protocol o.name o.nspace = .ok n

def targetsOf (svc : Service) (subset : EndpointSubset) : List Name :=
  match podNames g origin o subset >>= srvTargets g origin svc with
  | .ok targets => targets
  | .error _ => []

def SrvTarget (svc : Service) (subset : EndpointSubset) (target : Name) : Prop :=
  if isHeaderlessService svc then
    ∃ addr ∈ subset.addresses, getEndpointsAddrDomain g origin addr o.name o.nspace = .ok target
  else getServiceDomain g origin svc = .ok target

end

def srvRdata (port : EndpointPort) (target : Name) : Rdata :=
  .srv defaultPriority defaultWeight port.port.toUInt32.toUInt16 target

section grouping

def Grouped (ips : Name → List String) (pods : List (Name × List String)) : Prop :=
  ∀ n, pods.filter (fun pod => pod.1 = n) = if ips n = [] then [] else [(n, ips n)]

variable {ips : Name → List String} {pods : List (Name × List String)} {n : Name}

theorem filter_addPodName_of_ne {n' : Name} (hne : n ≠ n') (ip : String) :
    (addPodName pods n ip).filter (fun pod => pod.1 = n') =
      pods.filter (fun pod => pod.1 = n') := by
  induction pods with
  | nil => simp [addPodName, hne]
  | cons first pods ih =>
    obtain ⟨m, js⟩ := first
    unfold addPodName
    split
    · next heq => simp [heq, hne]
    · rw [filter_cons, filter_cons, ih]

theorem filter_addPodName_self {js : List String}
    (hpods : pods.filter (fun pod => pod.1 = n) = if js = [] then [] else [(n, js)])
    (ip : String) :
    (addPodName pods n ip).filter (fun pod => pod.1 = n) = [(n, js ++ [ip])] := by
  induction pods with
  | nil =>
    have hjs : js = [] := by simpa using hpods
    simp [addPodName, hjs]
  | cons first pods ih =>
    obtain ⟨m, ks⟩ := first
    unfold addPodName
    by_cases hm : m = n
    · subst hm
      by_cases hjs : js = []
      · simp [hjs] at hpods
      · simp only [hjs, if_false, filter_cons, decide_true, if_true, List.cons.injEq,
          Prod.mk.injEq, true_and] at hpods
        simp [hpods.1, hpods.2]
    · rw [if_neg hm, filter_cons, if_neg (by simpa using hm)]
      refine ih ?_
      rwa [filter_cons, if_neg (by simpa using hm)] at hpods

variable (hpods : Grouped ips pods)

include hpods

theorem Grouped.addPodName (n : Name) (ip : String) :
    Grouped (fun n' => ips n' ++ if n = n' then [ip] else []) (addPodName pods n ip) := by
  intro n'
  by_cases hn : n = n'
  · subst hn
    simp [filter_addPodName_self (hpods n) ip]
  · simp [filter_addPodName_of_ne hn, hpods n', hn]

theorem Grouped.mem_iff : n ∈ pods.map (·.1) ↔ ips n ≠ [] := by
  have hfilter : n ∈ pods.map (·.1) ↔ pods.filter (fun pod => pod.1 = n) ≠ [] := by
    simp [filter_eq_nil_iff]
  rw [hfilter, hpods n]
  by_cases hips : ips n = []
  · simp [hips]
  · simp [hips]

theorem Grouped.nodup : (pods.map (·.1)).Nodup := by
  rw [nodup_iff_count_le_one]
  intro n
  have hcount : (pods.map (·.1)).count n = (pods.filter (fun pod => pod.1 = n)).length := by
    rw [List.count, countP_map, countP_eq_length_filter]
    exact congrArg List.length (filter_congr fun pod _ => beq_eq_decide pod.1 n)
  rw [hcount, hpods n]
  split <;> simp

end grouping

theorem flatMap_if_singleton {α β : Type} (p : α → Prop) [DecidablePred p] (f : α → β)
    (xs : List α) :
    (xs.flatMap fun x => if p x then [f x] else []) = (xs.filter fun x => p x).map f := by
  induction xs with
  | nil => rfl
  | cons x xs ih =>
    by_cases hx : p x
    · simp [hx, ih]
    · simp [hx, ih]

section records

variable {g : Texts} {origin : Name} {o : Endpoints} {svc : Service}

variable {pods : List (Name × List String)} {addresses : List EndpointAddress}

theorem run_podNames (haddresses : ∀ addr ∈ addresses,
      ∃ n, getEndpointsAddrDomain g origin addr o.name o.nspace = .ok n) {ips : Name → List String}
    (hpods : Grouped ips pods) : Returns (run (fun pods addr => do
        let n ← getEndpointsAddrDomain g origin addr o.name o.nspace
        .ok (addPodName pods n addr.ip)) pods addresses)
      (Grouped fun n => ips n ++ podIps g origin o addresses n) := by
  induction addresses generalizing ips pods with
  | nil => exact returns_ok (by simpa [podIps] using hpods)
  | cons addr addresses ih =>
    obtain ⟨n, hn⟩ := haddresses addr mem_cons_self
    obtain ⟨pods', hrun, hpods'⟩ := ih (fun addr' h => haddresses addr' (mem_cons_of_mem _ h))
      (hpods.addPodName n addr.ip)
    refine ⟨pods', run_cons_ok.mpr ⟨addPodName pods n addr.ip, by rw [hn]; rfl, hrun⟩, ?_⟩
    have hips (n' : Name) : ips n' ++ podIps g origin o (addr :: addresses) n' =
        ips n' ++ (if n = n' then [addr.ip] else []) ++ podIps g origin o addresses n' := by
      by_cases heq : n = n'
      · simp [podIps, hn, heq]
      · simp [podIps, hn, heq]
    simpa only [hips] using hpods'

variable {subset : EndpointSubset}

theorem podNames_grouped (hreads : g.Reads origin svc o) (hsubset : subset ∈ o.subsets) :
    Returns (podNames g origin o subset) (Grouped (podIps g origin o subset.addresses)) := by
  have hnone : Grouped (fun _ => []) [] := fun n => rfl
  have hrun := run_podNames (hreads.pods subset hsubset) hnone
  simp only [nil_append] at hrun
  exact hrun

theorem podIps_ne_nil_iff {n : Name} : podIps g origin o addresses n ≠ [] ↔
      ∃ addr ∈ addresses, getEndpointsAddrDomain g origin addr o.name o.nspace = .ok n := by
  simp [podIps]

theorem targetsOf_spec (hreads : g.Reads origin svc o) (hsubset : subset ∈ o.subsets) :
    (∀ target, target ∈ targetsOf g origin o svc subset ↔ SrvTarget g origin o svc subset target) ∧
      (targetsOf g origin o svc subset).Nodup := by
  obtain ⟨pods, hok, hpods⟩ := podNames_grouped hreads hsubset
  have hbind : podNames g origin o subset >>= srvTargets g origin svc =
      srvTargets g origin svc pods := by
    rw [hok]
    rfl
  unfold targetsOf SrvTarget
  rw [hbind]
  by_cases hsvc : isHeaderlessService svc = true
  · simp only [srvTargets, hsvc, if_true]
    exact ⟨fun target => hpods.mem_iff.trans podIps_ne_nil_iff, hpods.nodup⟩
  · obtain ⟨d, hd⟩ := hreads.service (by simpa using hsvc)
    have htargets : srvTargets g origin svc pods = .ok [d] := by
      rw [srvTargets, if_neg hsvc, hd]
      rfl
    simp only [htargets, if_neg hsvc, hd]
    simp [eq_comm]

variable {pod : Name × List String}

theorem addPod_writes (hpod : ∀ ip ∈ pod.2, ∃ rn, getReverseName g ip = .ok rn) :
    Returns (addPod g pod)
      (Writes (fun n => if pod.1 = n then [⟨defaultTTL, pod.2.map g.aRdata⟩] else [])
        fun _ => []) := by
  have hptrs := writes_collect_nil fun ip hip => writes_putPtr (hpod ip hip) pod.1
  refine hptrs.bind fun ptrs hptrs => returns_ok ?_
  have htyp : RRType.a ≠ .srv := by decide
  simpa [htyp] using hptrs.append (writes_put .a (by decide) .service pod.1 (pod.2.map g.aRdata))

theorem addPort_writes (hreads : g.Reads origin svc o) (hsubset : subset ∈ o.subsets)
    (hpods : podNames g origin o subset = .ok pods) {port : EndpointPort}
    (hport : port ∈ subset.ports) : Returns (addPort g origin svc o pods port)
      (Writes (fun _ => []) fun n =>
        if port.name ≠ "" ∧ getPortName g origin port.name port.protocol o.name o.nspace = .ok n
        then [⟨defaultTTL, (targetsOf g origin o svc subset).map (srvRdata port)⟩] else []) := by
  unfold addPort
  by_cases hname : port.name = ""
  · rw [if_pos hname]
    exact returns_ok (by simpa [hname] using Writes.nil)
  · obtain ⟨n, hn⟩ := hreads.ports subset hsubset port hport hname
    have htargets : srvTargets g origin svc pods = .ok (targetsOf g origin o svc subset) := by
      unfold targetsOf
      rw [hpods]
      change _ = Except.ok (match srvTargets g origin svc pods with
        | .ok targets => targets
        | .error _ => [])
      by_cases hsvc : isHeaderlessService svc = true
      · rw [srvTargets, if_pos hsvc]
      · obtain ⟨d, hd⟩ := hreads.service (by simpa using hsvc)
        rw [srvTargets, if_neg hsvc, hd]
        rfl
    rw [if_neg hname, hn, htargets]
    have hcond (n' : Name) : (port.name ≠ "" ∧
        (Except.ok n : Except ControllerPanic Name) = .ok n') = (n = n') := by simp [hname]
    simp only [hcond]
    have htyp : RRType.srv ≠ .a := by decide
    have hput := writes_put .srv (by decide) .service n
      ((targetsOf g origin o svc subset).map (srvRdata port))
    simp only [htyp, true_and, and_true, and_false, if_false] at hput
    exact returns_ok hput

theorem Grouped.ip_mem (hpods : Grouped (podIps g origin o addresses) pods) (hpod : pod ∈ pods)
    {ip : String} (hip : ip ∈ pod.2) : ∃ addr ∈ addresses, addr.ip = ip := by
  have hmem : pod ∈ pods.filter (fun pod' => pod'.1 = pod.1) := by simp [hpod]
  rw [hpods pod.1] at hmem
  split at hmem
  · cases hmem
  · have hpod' : pod = (pod.1, podIps g origin o addresses pod.1) := mem_singleton.mp hmem
    rw [hpod'] at hip
    obtain ⟨addr, haddr, rfl⟩ := mem_map.mp hip
    exact ⟨addr, mem_of_mem_filter haddr, rfl⟩

def podEntries (g : Texts) (origin : Name) (o : Endpoints) (subset : EndpointSubset) (n : Name) :
    List Entry :=
  if podIps g origin o subset.addresses n ≠ [] then
    [⟨defaultTTL, (podIps g origin o subset.addresses n).map g.aRdata⟩]
  else []

def portEntries (g : Texts) (origin : Name) (o : Endpoints) (svc : Service)
    (subset : EndpointSubset) (n : Name) : List Entry :=
  (portsAt g origin o subset n).map fun port =>
    ⟨defaultTTL, (targetsOf g origin o svc subset).map (srvRdata port)⟩

theorem addPodRecord_writes (hreads : g.Reads origin svc o) :
    Returns (addPodRecord g origin svc o)
      (Writes (fun n => o.subsets.flatMap (podEntries g origin o · n))
        fun n => o.subsets.flatMap (portEntries g origin o svc · n)) := by
  refine writes_collect fun subset hsubset => ?_
  obtain ⟨pods, hok, hpods⟩ := podNames_grouped hreads hsubset
  have hreverse (pod : Name × List String) (hpod : pod ∈ pods) :
      ∀ ip ∈ pod.2, ∃ rn, getReverseName g ip = .ok rn := by
    intro ip hip
    obtain ⟨addr, haddr, rfl⟩ := hpods.ip_mem hpod hip
    exact hreads.reverse subset hsubset addr haddr
  have haddresses := writes_collect fun pod hpod => addPod_writes (hreverse pod hpod)
  have hports := writes_collect fun port hport => addPort_writes hreads hsubset hok hport
  rw [hok]
  refine haddresses.bind fun first hfirst => hports.bind fun second hsecond => returns_ok ?_
  have hpodEntries (n : Name) : (pods.flatMap fun pod =>
      if pod.1 = n then [(⟨defaultTTL, pod.2.map g.aRdata⟩ : Entry)] else []) =
        podEntries g origin o subset n := by
    rw [flatMap_if_singleton, hpods n, podEntries]
    by_cases hips : podIps g origin o subset.addresses n = []
    · simp [hips]
    · simp [hips]
  have hboth := hfirst.append hsecond
  simp only [hpodEntries, flatMap_if_singleton, flatMap_nil_right, append_nil, nil_append] at hboth
  exact hboth

end records

end Vanguard.K8s
