import Vanguard.K8s.Replacing

namespace Vanguard.K8s

open Library Zone

variable {T : Type} [DomainTree T NameNode] [LawfulDomainTree T NameNode]

variable {r : RRset Rdata} {origin : Name} {n : Name} {m : ZoneMap} {t : RRType}

theorem isSome_offer_apex (horigin : origin.isWildCard = false) (hname : r.name = origin)
    (htyp : r.typ = t) (ht : t ≠ .cname) (hcname : m origin .cname = none) :
    (m.offer origin r origin t).isSome = true := by
  subst hname htyp
  have haccepts : m.Accepts r.name r :=
    ⟨by simp [horigin], by simp, fun _ => hcname, fun heq => absurd heq ht⟩
  rw [ZoneMap.offer, if_pos haccepts]
  simp [MapOp.apply, ZoneMap.set]

theorem offer_of_ne (ht : t ≠ r.typ) : m.offer origin r n t = m n t := by
  unfold ZoneMap.offer
  split
  · exact if_neg fun heq => ht heq.2
  · rfl

variable {h : Objects}

theorem run_additions {soa ns glue : Ptr} (hclosed : h.Closed) (hn : n.isWildCard = false)
    (hops : ∀ p ∈ [soa, ns, glue], (ZoneOp.add p).WellFormed h)
    (hsoa : (h.value soa).name = n ∧ (h.value soa).typ = .soa)
    (hns : (h.value ns).name = n ∧ (h.value ns).typ = .ns) :
    ∃ s, run ZoneState.step ⟨h, (newMemoryZone n : MemoryZone T).clone, []⟩
        [.add soa, .add ns, .add glue] = .ok s ∧
      s.objects.Closed ∧ h.Extends s.objects ∧ s.zone.Updatable s.objects ∧ s.zone.origin = n := by
  have hfilled : (newMemoryZone n : MemoryZone T).clone.Filled := by
    refine MemoryZone.Filled.clone fun m nodeData hdata => ?_
    simp [newMemoryZone, newWithDomains] at hdata
  obtain ⟨s, hrun, hz, hfilled', horigin, hext, hclosed', hcontent⟩ :=
    ZoneState.run_add (s := ⟨h, (newMemoryZone n : MemoryZone T).clone, []⟩)
      (MemoryZone.WellFormed.newMemoryZone h n).clone hfilled hops
  refine ⟨s, hrun, hclosed' hclosed, hext, ⟨hz, hfilled', ?_⟩, horigin⟩
  rw [MemoryZone.HasApex, hcontent, MemoryZone.content_clone, content_newMemoryZone, horigin]
  have hsoaKept := isSome_offer_apex (m := fun _ _ => none) hn hsoa.1 hsoa.2 (by decide) rfl
  have hcname : ZoneMap.offer n (fun _ _ => none) (h.value soa) n .cname = none := by
    refine offer_of_ne ?_
    rw [hsoa.2]
    decide
  have hnsKept := isSome_offer_apex hn hns.1 hns.2 (by decide) hcname
  exact ⟨ZoneMap.isSome_offer (ZoneMap.isSome_offer hsoaKept), ZoneMap.isSome_offer hnsKept⟩

theorem newZone_sound {soa ns glue : RRset Rdata} (hclosed : h.Closed) (hn : n.isWildCard = false)
    (hsoa : soa.name = n ∧ soa.typ = .soa) (hns : ns.name = n ∧ ns.typ = .ns)
    (hrdatas : ∀ r ∈ [soa, ns, glue], r.typ = .soa → SoaRdatas r.rdatas) :
    ∃ h' dz, newZone h n soa ns glue = .ok (h', (dz : DynamicZone T)) ∧ h'.Closed ∧ h.Grows h' ∧
      dz.memoryZone.Updatable h' ∧ dz.memoryZone.origin = n ∧ dz.locked = false := by
  obtain ⟨hclosed₁, hgrows₁, hp₁, hvalue₁⟩ := Objects.allocValue_spec hclosed soa
  obtain ⟨hclosed₂, hgrows₂, hp₂, hvalue₂⟩ := Objects.allocValue_spec hclosed₁ ns
  obtain ⟨hclosed₃, hgrows₃, hp₃, hvalue₃⟩ := Objects.allocValue_spec hclosed₂ glue
  unfold newZone
  simp only [DynamicZone.begin]
  generalize h.allocValue soa = made₁ at *
  generalize made₁.1.allocValue ns = made₂ at *
  generalize made₂.1.allocValue glue = made₃ at *
  have hsoa₃ : made₃.1.value made₁.2 = soa :=
    ((hgrows₂.trans hgrows₃).value_eq hclosed₁ hp₁).trans hvalue₁
  have hns₃ : made₃.1.value made₂.2 = ns := (hgrows₃.value_eq hclosed₂ hp₂).trans hvalue₂
  have hops : ∀ p ∈ [made₁.2, made₂.2, made₃.2], (ZoneOp.add p).WellFormed made₃.1 := by
    simp only [List.mem_cons, List.not_mem_nil, or_false, forall_eq_or_imp, forall_eq,
      ZoneOp.WellFormed, ZoneOp.value, MapOp.SoaTyped, hsoa₃, hns₃, hvalue₃] at hrdatas ⊢
    exact ⟨⟨hp₁.trans_le (hgrows₂.trans hgrows₃).rrsets.next_le, hrdatas.1⟩,
      ⟨hp₂.trans_le hgrows₃.rrsets.next_le, hrdatas.2.1⟩, hp₃, hrdatas.2.2⟩
  obtain ⟨s, hrun, hsclosed, hext, hs, horigin⟩ := run_additions (T := T) hclosed₃ hn hops
    (by rw [hsoa₃]; exact hsoa) (by rw [hns₃]; exact hns)
  refine ⟨s.objects, ⟨s.zone, false⟩, ?_, hsclosed, ?_, hs, horigin, rfl⟩
  · simp only [hrun, commit_of_updatable hs]
  · exact (hgrows₁.trans (hgrows₂.trans hgrows₃)).trans ⟨hext.rrsets, hext.rdatas ▸ .refl _⟩

theorem createZone_sound {g : Texts} {h h' : Objects} {text server : String} {dz : DynamicZone T}
    (hclosed : h.Closed) (hwild : ∀ n, g.nameFromString text = some n → n.isWildCard = false)
    (hok : createZone g h text server = .ok (h', dz)) :
    h'.Closed ∧ h.Grows h' ∧ dz.memoryZone.Updatable h' ∧ dz.locked = false := by
  unfold createZone at hok
  obtain ⟨n, hn, hok⟩ := bind_eq_ok hok
  obtain ⟨nsName, hnsName, hok⟩ := bind_eq_ok hok
  obtain ⟨rName, hrName, hok⟩ := bind_eq_ok hok
  obtain ⟨host, hhost, hok⟩ := bind_eq_ok hok
  have hname : g.nameFromString text = some n := by
    cases hparsed : g.nameFromString text with
    | none => simp [hparsed, orElse] at hn
    | some n' => simpa [hparsed, orElse] using hn
  have hrdatas : ∀ r ∈ [newRRset n .soa [.soa ⟨nsName, rName, 1981616, 7200, 1800, 86400, 30⟩],
      newRRset n .ns [.ns nsName], newRRset nsName .a [.a host]],
      r.typ = .soa → SoaRdatas r.rdatas := by
    have hne : RRType.ns ≠ .soa ∧ RRType.a ≠ .soa := by decide
    simp [newRRset, SoaRdatas, Rdata.isSoa, hne]
  obtain ⟨h'', dz', hmade, hclosed', hgrows, hz, -, hlock⟩ :=
    newZone_sound (T := T) hclosed (hwild n hname) ⟨rfl, rfl⟩ ⟨rfl, rfl⟩ hrdatas
  simp only [hmade, Except.ok.injEq, Prod.mk.injEq] at hok
  obtain ⟨rfl, rfl⟩ := hok
  exact ⟨hclosed', hgrows, hz, hlock⟩

theorem createServiceZone_sound {g : Texts} {h h' : Objects} {conf : Kubernetes}
    {dz : DynamicZone T} (hclosed : h.Closed)
    (hwild : ∀ n, g.nameFromString conf.clusterDomain = some n → n.isWildCard = false)
    (hok : createServiceZone g h conf = .ok (h', dz)) :
    h'.Closed ∧ h.Grows h' ∧ dz.memoryZone.Updatable h' ∧ dz.locked = false := by
  unfold createServiceZone at hok
  obtain ⟨made, hmade, hok⟩ := bind_eq_ok hok
  obtain ⟨label, -, hok⟩ := bind_eq_ok hok
  obtain ⟨n, -, hok⟩ := bind_eq_ok hok
  obtain ⟨hclosed₁, hgrows₁, hz₁, -⟩ := createZone_sound hclosed hwild hmade
  have hregular : (Call.put .service n .txt
      [.other .txt ((g.txtFromString dnsSchemaVersion).getD [])]).Regular :=
    Call.regular_put (by decide) (by decide) _ _ _
  obtain ⟨h'', dz', hreplaced, hclosed₂, hgrows₂, hz₂, -, hlock, -⟩ :=
    replaceRRset_spec hclosed₁ hz₁ hregular
  simp only [Call.put] at hreplaced
  simp only [hreplaced, Except.ok.injEq, Prod.mk.injEq] at hok
  obtain ⟨rfl, rfl⟩ := hok
  exact ⟨hclosed₂, hgrows₁.trans hgrows₂, hz₂, hlock⟩

theorem newAuth_sound {g : Texts} {conf : Kubernetes} {a : Auth T} (hclosed : h.Closed)
    (hdomain : ∀ n, g.nameFromString conf.clusterDomain = some n → n.isWildCard = false)
    (hreverse : ∀ network ∈ [conf.clusterServiceIPRange, conf.clusterCIDR], ∀ text n,
      reverseZoneNameForNetwork g network = .ok text → g.nameFromString text = some n →
        n.isWildCard = false) (hok : newAuth g h conf = .ok a) : a.Sound := by
  unfold newAuth at hok
  obtain ⟨service, hservice, hok⟩ := bind_eq_ok hok
  obtain ⟨reverse₁, hreverse₁, hok⟩ := bind_eq_ok hok
  obtain ⟨made₁, hmade₁, hok⟩ := bind_eq_ok hok
  obtain ⟨reverse₂, hreverse₂, hok⟩ := bind_eq_ok hok
  obtain ⟨made₂, hmade₂, hok⟩ := bind_eq_ok hok
  cases hok
  obtain ⟨hclosed₁, -, hz₁, hlock₁⟩ := createServiceZone_sound hclosed hdomain hservice
  obtain ⟨hclosed₂, hgrows₂, hz₂, hlock₂⟩ :=
    createZone_sound hclosed₁ (fun n => hreverse _ (by simp) _ n hreverse₁) hmade₁
  obtain ⟨hclosed₃, hgrows₃, hz₃, hlock₃⟩ :=
    createZone_sound hclosed₂ (fun n => hreverse _ (by simp) _ n hreverse₂) hmade₂
  refine ⟨hclosed₃, fun k => ?_, fun k => ?_⟩
  · cases k with
    | service => exact hz₁.of_grows hclosed₁ (hgrows₂.trans hgrows₃)
    | serviceReverse => exact hz₂.of_grows hclosed₂ hgrows₃
    | podReverse => exact hz₃
  · cases k with
    | service => exact hlock₁
    | serviceReverse => exact hlock₂
    | podReverse => exact hlock₃

end Vanguard.K8s
