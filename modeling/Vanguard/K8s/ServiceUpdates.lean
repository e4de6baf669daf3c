import Vanguard.K8s.ServiceRecords

namespace Vanguard.K8s

open Library Zone List

section handle

variable {T : Type} [DomainTree T NameNode] [LawfulDomainTree T NameNode] {g : Texts} {d : Name}
  {rns : List Name}

def updatedRecords (g : Texts) (reverseOrigin d : Name) (rns : List Name) (old new : Service)
    (ips : List String) (newReverse : Option Name) : Records :=
  if isNormalService old then
    (some ⟨defaultTTL, [g.aRdata new.clusterIP]⟩, none,
      rns.map (ptrAt g reverseOrigin d newReverse))
  else if isExternalService new ∧ old.externalName ≠ new.externalName then
    (if target g old = none then some ⟨defaultTTL, [g.aRdata new.clusterIP]⟩ else none,
      ownCname g old, rns.map (ptrAt g reverseOrigin d newReverse))
  else (ownA g old ips, ownCname g old, rns.map fun _ => none)

theorem handleServiceUpdate_spec {a : Auth T} (cache : Cache) (ha : a.Sound)
    (hin : a.origin .service <:+ d)
    {old new : Service} {ips : List String} {oldReverse newReverse : Option Name}
    (holds : Holds g (a.origin .serviceReverse) d rns old ips oldReverse a.map)
    (hold : getServiceDomain g (a.origin .service) old = .ok d)
    (hnew : getServiceDomain g (a.origin .service) new = .ok d)
    (holdReverse : getReverseName g old.clusterIP = .ok oldReverse)
    (hnewReverse : getReverseName g new.clusterIP = .ok newReverse) :
    Returns (a.handle g cache (.updateService old new)) fun a' =>
      recordsIn a'.map d rns =
        updatedRecords g (a.origin .serviceReverse) d rns old new ips newReverse := by
  obtain ⟨ha4, hcname, hptrs⟩ : a.map .service d .a = ownA g old ips ∧
      a.map .service d .cname = ownCname g old ∧
      ∀ rn ∈ rns, a.map .serviceReverse rn .ptr =
        if isNormalService old then ptrAt g (a.origin .serviceReverse) d oldReverse rn
        else none := by
    have hrecords := holds.records
    simp only [recordsIn, ownRecords, Prod.mk.injEq, map_inj_left] at hrecords
    exact hrecords
  change Returns (a.perform (handleServiceUpdate g (a.origin .service) old new)) _
  unfold handleServiceUpdate updatedRecords
  by_cases hnormal : isNormalService old = true
  · simp only [if_pos hnormal] at hptrs ⊢
    by_cases hip : old.clusterIP = new.clusterIP
    · rw [if_neg (not_not.mpr hip)]
      refine returns_ok ?_
      have hreverse : newReverse = oldReverse := by
        rw [hip, hnewReverse] at holdReverse
        exact Except.ok.inj holdReverse
      rw [recordsIn, ha4, hcname, ownA, if_pos hnormal, (ownCname_of_normal hnormal).2, hip,
        hreverse, map_congr_left hptrs]
    · rw [if_pos hip, deleteServiceRecord_eq hold holdReverse, addServiceRecord_eq hnew hnewReverse]
      have hregular : ∀ c ∈ deleted d oldReverse ++ added g d new.clusterIP newReverse,
          c.Regular := by
        intro c hc
        rcases mem_append.mp hc with hc | hc
        · exact serviceCalls_regular (by simp) (by simp) c hc
        · exact added_regular d _ newReverse c hc
      refine (Auth.run_replace_spec ha hregular).imp fun a' ha' => ?_
      obtain ⟨halias, hgone⟩ := ptr_deleted (d := d) holds.noAlias fun rn hrn hne =>
        (hptrs rn hrn).trans (if_neg hne)
      rw [ha'.2.2, foldl_append, recordsIn_added hin halias hgone, deleted,
        foldl_serviceCalls_cname, hcname, (ownCname_of_normal hnormal).2, if_pos rfl]
  · simp only [if_neg hnormal] at hptrs ⊢
    have hplain : recordsIn a.map d rns =
        (ownA g old ips, ownCname g old, rns.map fun _ => none) := by
      rw [recordsIn, ha4, hcname, map_congr_left hptrs]
    by_cases hexternal : isExternalService new = true
    · rw [if_pos hexternal]
      by_cases hname : old.externalName = new.externalName
      · simp only [hname, ne_eq, not_true_eq_false, and_false, if_false]
        exact returns_ok hplain
      · rw [if_pos hname, if_pos ⟨hexternal, hname⟩, addServiceRecord_eq hnew hnewReverse]
        refine (Auth.run_replace_spec ha (added_regular d _ newReverse)).imp fun a' ha' => ?_
        rw [ha'.2.2, recordsIn_added hin holds.noAlias hptrs, hcname]
        simp [ownCname]
    · rw [if_neg hexternal, if_neg fun h => hexternal h.1]
      exact returns_ok hplain

/-- The services for which an update does what it should. -/
def Converges (g : Texts) (reverseOrigin : Name) (old new : Service) (ips : List String)
    (newReverse : Option Name) : Prop :=
  if isNormalService old then isNormalService new = true
  else if isNormalService new then
    isHeaderlessService old = true ∧ ips.map g.aRdata = [g.aRdata new.clusterIP] ∧
      ∀ rn ∈ newReverse, ¬reverseOrigin <:+ rn
  else
    target g old = target g new ∧ (isHeaderlessService old → ips = []) ∧
      (isExternalService new ∧ old.externalName ≠ new.externalName →
        target g old ≠ none ∧ ∀ rn ∈ newReverse, ¬reverseOrigin <:+ rn)

omit [DomainTree T NameNode] [LawfulDomainTree T NameNode] in
theorem updatedRecords_eq_iff {reverseOrigin : Name} {old new : Service} {ips : List String}
    {newReverse : Option Name} (hrns : ∀ rn ∈ newReverse, rn ∈ rns) :
    updatedRecords g reverseOrigin d rns old new ips newReverse =
        ownRecords g reverseOrigin d rns new [] newReverse ↔
      Converges g reverseOrigin old new ips newReverse := by
  have hptrs : (rns.map (ptrAt g reverseOrigin d newReverse) = rns.map fun _ => none) ↔
      ∀ rn ∈ newReverse, ¬reverseOrigin <:+ rn := by
    simp only [map_inj_left, ptrAt, ite_eq_right_iff, reduceCtorEq, imp_false, not_and]
    exact ⟨fun h rn hrn => h rn (hrns rn hrn) hrn, fun h rn _ hrn => h rn hrn⟩
  unfold updatedRecords ownRecords Converges
  by_cases hold : isNormalService old = true
  · simp only [if_pos hold]
    by_cases hnew : isNormalService new = true
    · simp [ownA, hnew, ownCname_of_normal hnew]
    · simp [ownA, hnew]
  rw [if_neg hold, if_neg hold, ownA, if_neg hold]
  by_cases hnew : isNormalService new = true
  · obtain ⟨hexternal, hcname⟩ : isExternalService new = false ∧ ownCname g new = none :=
      ownCname_of_normal hnew
    simp only [hnew, hexternal, hcname, if_true, Bool.false_eq_true, false_and, if_false,
      Prod.mk.injEq, ownA, ← hptrs]
    constructor
    · rintro ⟨haddresses, -, hnone⟩
      split at haddresses
      · next hpods => exact ⟨hpods.1, by simpa using haddresses, hnone.symm⟩
      · cases haddresses
    · rintro ⟨hheadless, haddresses, hnone⟩
      have hips : ips ≠ [] := by
        rintro rfl
        cases haddresses
      rw [if_pos ⟨hheadless, hips⟩, haddresses, ownCname, target_of_headless hheadless]
      exact ⟨rfl, rfl, hnone.symm⟩
  · have hown : ownA g new [] = none := by simp [ownA, hnew]
    simp only [hnew, hown, Bool.false_eq_true, if_false]
    by_cases hother : isExternalService new = true ∧ old.externalName ≠ new.externalName
    · simp only [if_pos hother, Prod.mk.injEq, hptrs, ownCname_inj]
      constructor
      · rintro ⟨haddresses, htarget, hnone⟩
        have hsome : target g old ≠ none := fun h => by simp [h] at haddresses
        exact ⟨htarget, fun hheadless => absurd (target_of_headless hheadless) hsome,
          fun _ => ⟨hsome, hnone⟩⟩
      · rintro ⟨htarget, -, hexternal⟩
        rw [if_neg (hexternal hother).1]
        exact ⟨rfl, htarget, (hexternal hother).2⟩
    · simp only [if_neg hother, Prod.mk.injEq, ownCname_inj, and_true, ite_eq_right_iff,
        reduceCtorEq, imp_false, not_and, not_not]
      exact ⟨fun h => ⟨h.2, h.1, fun hyes => absurd hyes hother⟩, fun h => ⟨h.2.1, h.1⟩⟩

/-- An update leaves the records of a new service exactly for those of `Converges`. -/
theorem service_update_converges_iff (hg : g.Lawful) {a b : Auth T} (ha : a.Sound) (hb : b.Sound)
    (horigin : b.origin = a.origin) {old new : Service}
    (hsame : old.name = new.name ∧ old.nspace = new.nspace)
    (hd : getServiceDomain g (a.origin .service) new = .ok d) {oldReverse newReverse : Option Name}
    (hold : getReverseName g old.clusterIP = .ok oldReverse)
    (hnew : getReverseName g new.clusterIP = .ok newReverse) (ips : List String)
    (hrns : rns = oldReverse.toList ++ newReverse.toList)
    (holds : Holds g (a.origin .serviceReverse) d rns old ips oldReverse a.map)
    (hwithout : Without d rns b.map) (cache : Cache) :
    ∃ a' b', a.handle g cache (.updateService old new) = .ok a' ∧
      b.handle g cache (.create (.service new)) = .ok b' ∧
      (recordsIn a'.map d rns = recordsIn b'.map d rns ↔
        Converges g (a.origin .serviceReverse) old new ips newReverse) := by
  have hin : a.origin .service <:+ d := by
    obtain ⟨n, -, hconcat⟩ := domain_eq_ok hd
    rw [hg.concat _ _ _ hconcat]
    exact suffix_append _ _
  have hdold : getServiceDomain g (a.origin .service) old = .ok d := by
    rw [getServiceDomain, hsame.1, hsame.2]
    exact hd
  obtain ⟨a', hupdate, ha'⟩ := handleServiceUpdate_spec cache ha hin holds hdold hd hold hnew
  obtain ⟨b', hcreate, -, -, hb'⟩ :=
    handleServiceCreate_spec cache hb (horigin ▸ hin) hwithout (horigin ▸ hd) hnew
  refine ⟨a', b', hupdate, hcreate, ?_⟩
  rw [ha', hb'.records, horigin]
  exact updatedRecords_eq_iff fun rn hrn => by simp [hrns, Option.mem_def.mp hrn]

end handle

def webService (ip : String) : Service := ⟨"web", "prod", .clusterIP, ip, ""⟩

def webAlias (name : String) : Service := ⟨"web", "prod", .externalName, "", name⟩

def webDomain : Name := ["web", "prod", "svc", "cluster", "local"]

def webReverse : List Name :=
  [["10", "0", "43", "10", "in-addr", "arpa"], ["11", "0", "43", "10", "in-addr", "arpa"]]

theorem clusterAuth_without {rns : List Name} (hrns : rns ⊆ webReverse) :
    Without webDomain rns clusterAuth.map := by
  have hdomain : (dataAt clusterAuth.serviceZone.memoryZone.domains webDomain).isNone = true := by
    decide +kernel
  have hreverse : ∀ rn ∈ webReverse, clusterAuth.map .serviceReverse rn .ptr = none ∧
      clusterAuth.map .serviceReverse rn .cname = none := by
    decide +kernel
  refine ⟨fun t => ?_, fun rn hrn => (hreverse rn (hrns hrn)).1,
    fun rn hrn => (hreverse rn (hrns hrn)).2⟩
  have hnone : (clusterAuth.zone .service).memoryZone.slots webDomain t = none := by
    rw [MemoryZone.slots, Auth.zone, Option.isNone_iff_eq_none.mp hdomain, Option.bind_none]
  rw [Auth.map, MemoryZone.content, hnone]
  rfl

theorem web_domain : dottedTexts.domain (clusterAuth.origin .service) ["web", "prod", "svc"] =
    .ok webDomain := by
  rw [clusterAuth_origin]
  decide

theorem web_in_zone : clusterAuth.origin .service <:+ webDomain := by
  rw [clusterAuth_origin]
  decide

theorem web_created {rns : List Name} (hrns : rns ⊆ webReverse) {svc : Service}
    (hname : svc.name = "web" ∧ svc.nspace = "prod") {reverse : Option Name}
    (hreverse : getReverseName dottedTexts svc.clusterIP = .ok reverse) :
    Returns (clusterAuth.handle dottedTexts [] (.create (.service svc))) fun a =>
      a.Sound ∧ a.origin = clusterAuth.origin ∧
        Holds dottedTexts (clusterAuth.origin .serviceReverse) webDomain rns svc []
          reverse a.map := by
  refine handleServiceCreate_spec [] clusterAuth_sound web_in_zone (clusterAuth_without hrns) ?_
    hreverse
  rw [getServiceDomain, hname.1, hname.2]
  exact web_domain

/-- The service gets another address. -/
theorem example_service_readdressed :
    ∃ a a' b', clusterAuth.handle dottedTexts [] (.create (.service (webService "10.43.0.10"))) =
        .ok a ∧
      a.handle dottedTexts [] (.updateService (webService "10.43.0.10") (webService "10.43.0.11")) =
        .ok a' ∧
      clusterAuth.handle dottedTexts [] (.create (.service (webService "10.43.0.11"))) = .ok b' ∧
      recordsIn a'.map webDomain webReverse = recordsIn b'.map webDomain webReverse := by
  have hold : getReverseName dottedTexts (webService "10.43.0.10").clusterIP =
      .ok webReverse[0]? := by decide
  have hnew : getReverseName dottedTexts (webService "10.43.0.11").clusterIP =
      .ok webReverse[1]? := by decide
  obtain ⟨a, hcreated, hsound, horigin, holds⟩ :=
    web_created (List.Subset.refl webReverse) ⟨rfl, rfl⟩ hold
  have hd : getServiceDomain dottedTexts (a.origin .service) (webService "10.43.0.11") =
      .ok webDomain := by
    rw [horigin]
    exact web_domain
  rw [← horigin] at holds
  have hsame : (webService "10.43.0.10").name = (webService "10.43.0.11").name ∧
      (webService "10.43.0.10").nspace = (webService "10.43.0.11").nspace := ⟨rfl, rfl⟩
  have hrns : webReverse = (webReverse[0]?).toList ++ (webReverse[1]?).toList := rfl
  obtain ⟨a', b', hupdate, hcreate, hiff⟩ := service_update_converges_iff dottedTexts_lawful hsound
    clusterAuth_sound horigin.symm hsame hd hold hnew [] hrns holds
    (clusterAuth_without (List.Subset.refl _)) []
  exact ⟨a, a', b', hcreated, hupdate, hcreate, hiff.mpr rfl⟩

/-- The service is to stand for another name, and keeps the one it stood for. -/
theorem example_service_not_renamed :
    ∃ a a' b', clusterAuth.handle dottedTexts [] (.create (.service (webAlias "a.example"))) =
        .ok a ∧
      a.handle dottedTexts [] (.updateService (webAlias "a.example") (webAlias "b.example")) =
        .ok a' ∧
      clusterAuth.handle dottedTexts [] (.create (.service (webAlias "b.example"))) = .ok b' ∧
      a'.map .service webDomain .cname = some ⟨5, [.cname ["a", "example"]]⟩ ∧
      b'.map .service webDomain .cname = some ⟨5, [.cname ["b", "example"]]⟩ := by
  have hreverse (name : String) :
      getReverseName dottedTexts (webAlias name).clusterIP = .ok none := rfl
  obtain ⟨a, hcreated, hsound, horigin, holds⟩ :=
    web_created (nil_subset _) ⟨rfl, rfl⟩ (hreverse "a.example")
  obtain ⟨b', hcreate, -, -, hfresh⟩ := web_created (nil_subset _) ⟨rfl, rfl⟩ (hreverse "b.example")
  have hd (name : String) : getServiceDomain dottedTexts (a.origin .service) (webAlias name) =
      .ok webDomain := by
    rw [horigin]
    exact web_domain
  have hin : a.origin .service <:+ webDomain := by
    rw [horigin]
    exact web_in_zone
  rw [← horigin] at holds
  obtain ⟨a', hupdate, hupdated⟩ := handleServiceUpdate_spec [] hsound hin holds (hd _) (hd _)
    (hreverse _) (hreverse "b.example")
  refine ⟨a, a', b', hcreated, hupdate, hcreate, ?_, ?_⟩
  · exact (congrArg (·.2.1) hupdated).trans rfl
  · exact (congrArg (·.2.1) hfresh.records).trans rfl

end Vanguard.K8s
