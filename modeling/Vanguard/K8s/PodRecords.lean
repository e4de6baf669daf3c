import Vanguard.K8s.Creation

namespace Vanguard.K8s

open Library Zone List

/-- A label as the API server admits it: not empty, without dots and escapes. -/
def PlainLabel (s : String) : Prop := s ≠ "" ∧ ∀ c ∈ s.toList, c ≠ '.' ∧ c ≠ '\\'

/-- What is assumed of the library: a text is read label by label, and `Concat` appends. -/
structure Texts.Lawful (g : Texts) : Prop where
  cons : ∀ label text n, PlainLabel label → text ≠ "" →
    g.nameFromStringUnsafe (label ++ "." ++ text) = some n →
    ∃ l m, g.nameFromStringUnsafe text = some m ∧ n = l :: m
  concat : ∀ m o n, g.concat m o = some n → n = m ++ o

structure Texts.Accepts (g : Texts) (origin : Name) (o : Endpoints) : Prop where
  labels : ∀ subset ∈ o.subsets, ∀ addr ∈ subset.addresses, PlainLabel (podName addr)
  pods : ∀ subset ∈ o.subsets, ∀ addr ∈ subset.addresses,
    ∃ n, getEndpointsAddrDomain g origin addr o.name o.nspace = .ok n
  ports : ∀ subset ∈ o.subsets, ∀ port ∈ subset.ports, port.name ≠ "" →
    ∃ n, getPortName g origin port.name port.protocol o.name o.nspace = .ok n
  reverse : ∀ subset ∈ o.subsets, ∀ addr ∈ subset.addresses, ∃ rn, getReverseName g addr.ip = .ok rn

structure Call.Spares (d : Name) (c : Call) : Prop where
  regular : c.Regular
  other : c.zone = .service → c.name = d → c.typ ≠ .a ∧ c.typ ≠ .cname

section calls

variable {g : Texts} {origin d : Name} {o : Endpoints}

theorem domain_eq_ok {labels : List String} (hok : g.domain origin labels = .ok d) :
    ∃ n, g.nameFromStringUnsafe (join labels) = some n ∧ g.concat n origin = some d := by
  obtain ⟨n, hn, hconcat⟩ := bind_eq_ok hok
  have hsome {ε α : Type} {e : ε} {x : Option α} {a : α} (hx : orElse e x = .ok a) :
      x = some a := by
    cases x with
    | none => cases hx
    | some b => exact congrArg some (Except.ok.inj hx)
  exact ⟨n, hsome hn, hsome hconcat⟩

theorem suffix_of_domain (hg : g.Lawful) {labels : List String}
    (hok : g.domain origin labels = .ok d) : origin <:+ d := by
  obtain ⟨m, -, hconcat⟩ := domain_eq_ok hok
  rw [hg.concat _ _ _ hconcat]
  exact suffix_append _ _

variable {addr : EndpointAddress}

theorem pod_ne_domain (hg : g.Lawful) (hlabel : PlainLabel (podName addr)) {svc nspace : String}
    (hd : g.domain origin [svc, nspace, "svc"] = .ok d) {n : Name}
    (hn : getEndpointsAddrDomain g origin addr svc nspace = .ok n) : n ≠ d := by
  obtain ⟨m, hm, hconcat⟩ := domain_eq_ok hd
  obtain ⟨m', hm', hconcat'⟩ := domain_eq_ok hn
  have hjoin : join [podName addr, svc, nspace, "svc"] =
      podName addr ++ "." ++ join [svc, nspace, "svc"] := String.intercalate_cons_cons
  have hne : join [svc, nspace, "svc"] ≠ "" := by
    intro hempty
    have hlist := congrArg String.toList hempty
    simp [join, String.intercalate_cons_cons] at hlist
  rw [hjoin] at hm'
  obtain ⟨l, rest, hrest, rfl⟩ := hg.cons _ _ _ hlabel hne hm'
  cases hm.symm.trans hrest
  rw [hg.concat _ _ _ hconcat, hg.concat _ _ _ hconcat']
  simp

variable {ip : String}

theorem putPtr_spares (d : Name) (hip : ∃ rn, getReverseName g ip = .ok rn) (n : Name) :
    Returns (putPtr g .podReverse ip n) fun calls => ∀ c ∈ calls, c.Spares d := by
  obtain ⟨rn, hrn⟩ := hip
  unfold putPtr
  rw [hrn]
  cases rn with
  | none => exact returns_ok (by simp)
  | some rn =>
    exact returns_ok (forall_mem_singleton.mpr
      ⟨Call.regular_put (by decide) (by decide) _ _ _, fun hzone => by cases hzone⟩)

theorem dropPtr_spares (d : Name) (hip : ∃ rn, getReverseName g ip = .ok rn) :
    Returns (dropPtr g .podReverse ip) fun calls => ∀ c ∈ calls, c.Spares d := by
  obtain ⟨rn, hrn⟩ := hip
  unfold dropPtr
  rw [hrn]
  cases rn with
  | none => exact returns_ok (by simp)
  | some rn =>
    exact returns_ok (forall_mem_singleton.mpr
      ⟨Call.regular_drop (by decide) (by decide) _ _, fun hzone => by cases hzone⟩)

theorem srv_spares (d n : Name) (rdatas : List Rdata) :
    (Call.put .service n .srv rdatas).Spares d ∧ (Call.drop .service n .srv).Spares d := by
  have htyp : RRType.srv ≠ .a ∧ RRType.srv ≠ .cname := by decide
  exact ⟨⟨Call.regular_put (by decide) (by decide) _ _ _, fun _ _ => htyp⟩,
    ⟨Call.regular_drop (by decide) (by decide) _ _, fun _ _ => htyp⟩⟩

def PodsApart (g : Texts) (d : Name) (pods : List (Name × List String)) : Prop :=
  ∀ pod ∈ pods, pod.1 ≠ d ∧ ∀ ip ∈ pod.2, ∃ rn, getReverseName g ip = .ok rn

theorem PodsApart.addPodName {pods : List (Name × List String)} (hpods : PodsApart g d pods)
    {n : Name} (hn : n ≠ d) (hip : ∃ rn, getReverseName g ip = .ok rn) :
    PodsApart g d (addPodName pods n ip) := by
  induction pods with
  | nil => exact forall_mem_singleton.mpr ⟨hn, forall_mem_singleton.mpr hip⟩
  | cons first pods ih =>
    obtain ⟨hfirst, hrest⟩ := forall_mem_cons.mp hpods
    unfold K8s.addPodName
    split
    · refine forall_mem_cons.mpr ⟨⟨hfirst.1, ?_⟩, hrest⟩
      exact forall_mem_append.mpr ⟨hfirst.2, forall_mem_singleton.mpr hip⟩
    · exact forall_mem_cons.mpr ⟨hfirst, ih hrest⟩

variable {subset : EndpointSubset}

theorem podNames_apart (hg : g.Lawful) (ho : g.Accepts origin o)
    (hd : g.domain origin [o.name, o.nspace, "svc"] = .ok d) (hsubset : subset ∈ o.subsets) :
    Returns (podNames g origin o subset) (PodsApart g d) := by
  have hstep (pods : List (Name × List String)) (addr : EndpointAddress)
      (hpods : PodsApart g d pods) (haddr : addr ∈ subset.addresses) :
      Returns (do
        let n ← getEndpointsAddrDomain g origin addr o.name o.nspace
        .ok (addPodName pods n addr.ip)) (PodsApart g d) := by
    obtain ⟨n, hn⟩ := ho.pods subset hsubset addr haddr
    have hne := pod_ne_domain hg (ho.labels subset hsubset addr haddr) hd hn
    rw [hn]
    exact returns_ok (hpods.addPodName hne (ho.reverse subset hsubset addr haddr))
  have hnone : PodsApart g d [] := fun pod hpod => by cases hpod
  exact run_total (PodsApart g d) hstep (along_mem _ _ _) hnone

theorem addPod_spares {pod : Name × List String}
    (hpod : pod.1 ≠ d ∧ ∀ ip ∈ pod.2, ∃ rn, getReverseName g ip = .ok rn) :
    Returns (addPod g pod) fun calls => ∀ c ∈ calls, c.Spares d := by
  have hptrs := returns_collect fun ip hip => putPtr_spares d (hpod.2 ip hip) pod.1
  refine hptrs.bind fun ptrs hptrs => returns_ok (forall_mem_append.mpr ⟨hptrs, ?_⟩)
  exact forall_mem_singleton.mpr
    ⟨Call.regular_put (by decide) (by decide) _ _ _, fun _ hname => absurd hname hpod.1⟩

theorem addPort_spares (d : Name) (ho : g.Accepts origin o) {svc : Service}
    (hsvc : isHeaderlessService svc = true) (hsubset : subset ∈ o.subsets)
    (pods : List (Name × List String)) {port : EndpointPort} (hport : port ∈ subset.ports) :
    Returns (addPort g origin svc o pods port) fun calls => ∀ c ∈ calls, c.Spares d := by
  unfold addPort
  split
  · exact returns_ok (by simp)
  · next hname =>
    obtain ⟨n, hn⟩ := ho.ports subset hsubset port hport hname
    rw [hn, srvTargets, if_pos hsvc]
    exact returns_ok (forall_mem_singleton.mpr (srv_spares d n _).1)

theorem deletePort_spares (d : Name) (ho : g.Accepts origin o) (hsubset : subset ∈ o.subsets)
    {port : EndpointPort} (hport : port ∈ subset.ports) :
    Returns (deletePort g origin o port) fun calls => ∀ c ∈ calls, c.Spares d := by
  unfold deletePort
  split
  · exact returns_ok (by simp)
  · next hname =>
    obtain ⟨n, hn⟩ := ho.ports subset hsubset port hport hname
    rw [hn]
    exact returns_ok (forall_mem_singleton.mpr (srv_spares d n []).2)

section

variable (hg : g.Lawful) (ho : g.Accepts origin o)
  (hd : g.domain origin [o.name, o.nspace, "svc"] = .ok d)

include hg ho hd

theorem addPodRecord_spares {svc : Service} (hsvc : isHeaderlessService svc = true) :
    Returns (addPodRecord g origin svc o) fun calls => ∀ c ∈ calls, c.Spares d := by
  refine returns_collect fun subset hsubset => ?_
  refine (podNames_apart hg ho hd hsubset).bind fun pods hpods => ?_
  have haddresses := returns_collect fun pod hpod => addPod_spares (hpods pod hpod)
  have hports := returns_collect fun port hport => addPort_spares d ho hsvc hsubset pods hport
  refine haddresses.bind fun first hfirst => hports.bind fun second hsecond => ?_
  exact returns_ok (forall_mem_append.mpr ⟨hfirst, hsecond⟩)

theorem deletePod_spares (hsubset : subset ∈ o.subsets) (haddr : addr ∈ subset.addresses) :
    Returns (deletePod g origin o addr) fun calls => ∀ c ∈ calls, c.Spares d := by
  obtain ⟨n, hn⟩ := ho.pods subset hsubset addr haddr
  have hne := pod_ne_domain hg (ho.labels subset hsubset addr haddr) hd hn
  unfold deletePod
  rw [hn]
  refine (dropPtr_spares d (ho.reverse subset hsubset addr haddr)).bind fun ptr hptr => ?_
  refine returns_ok (forall_mem_cons.mpr ⟨?_, hptr⟩)
  exact ⟨Call.regular_drop (by decide) (by decide) _ _, fun _ hname => absurd hname hne⟩

theorem deletePodRecord_spares :
    Returns (deletePodRecord g origin o) fun calls => ∀ c ∈ calls, c.Spares d := by
  refine returns_collect fun subset hsubset => ?_
  have haddresses := returns_collect fun addr haddr => deletePod_spares hg ho hd hsubset haddr
  have hports := returns_collect fun port hport => deletePort_spares d ho hsubset hport
  refine haddresses.bind fun first hfirst => hports.bind fun second hsecond => ?_
  exact returns_ok (forall_mem_append.mpr ⟨hfirst, hsecond⟩)

end

end calls

/-- A library that reads a text label by label and knows some addresses and networks. -/
def dottedTexts : Texts where
  nameFromString s := some (split s)
  nameFromStringUnsafe s := some (split s)
  concat m o := some (m ++ o)
  aFromString s :=
    [("10.43.0.2", [10, 43, 0, 2]), ("10.43.0.10", [10, 43, 0, 10]),
      ("10.43.0.11", [10, 43, 0, 11]), ("10.42.0.5", [10, 42, 0, 5]),
      ("10.42.0.6", [10, 42, 0, 6])].lookup s
  txtFromString _ := some []
  ptr n := [n.length.toUInt8]
  parseCIDR s := [("10.42.0.0/16", 16), ("10.43.0.0/16", 16)].lookup s

theorem dottedTexts_lawful : dottedTexts.Lawful := by
  refine ⟨fun label text n hlabel _ hn => ⟨label, split text, rfl, ?_⟩, fun m o n hn => ?_⟩
  · have hdot : '.' ∉ label.toList := fun hmem => (hlabel.2 '.' hmem).1 rfl
    have hsplit : split (label ++ "." ++ text) = label :: split text := by
      simp [split, splitOn_append_cons_self_of_not_mem hdot]
    exact (Option.some.inj hn).symm.trans hsplit
  · exact (Option.some.inj hn).symm

theorem dottedTexts_reverse (ip : String) : ∃ rn, getReverseName dottedTexts ip = .ok rn := by
  unfold getReverseName
  split
  · exact ⟨_, rfl⟩
  · exact ⟨_, rfl⟩

def clusterConf : Kubernetes := ⟨"10.43.0.2", "cluster.local", "10.42.0.0/16", "10.43.0.0/16"⟩

def clusterAuth : Auth (ReferenceTree NameNode) :=
  match newAuth dottedTexts (.ofLists [] []) clusterConf with
  | .ok a => a
  | .error _ => ⟨.ofLists [] [], ⟨newMemoryZone [], false⟩, ⟨newMemoryZone [], false⟩,
    ⟨newMemoryZone [], false⟩⟩

theorem clusterAuth_sound : clusterAuth.Sound := by
  have hok : newAuth dottedTexts (.ofLists [] []) clusterConf = .ok clusterAuth := rfl
  refine newAuth_sound (fun p hp => ?_) (fun n hn => ?_) (fun network hmem text n htext hn => ?_)
    hok
  · simp [Objects.ofLists, Heap.ofList] at hp
  · cases hn
    decide
  · cases hn
    rcases mem_pair.mp hmem with rfl | rfl
    all_goals
      cases htext
      decide

theorem clusterAuth_origin : clusterAuth.origin .service = ["cluster", "local"] := by
  decide +kernel

end Vanguard.K8s
