import Vanguard.K8s.PodRecords

namespace Vanguard.K8s

open Library Zone List Call

section records

variable (g : Texts)

def ownA (svc : Service) (ips : List String) : Option Entry :=
  if isNormalService svc then some ⟨defaultTTL, [g.aRdata svc.clusterIP]⟩
  else if isHeaderlessService svc ∧ ips ≠ [] then some ⟨defaultTTL, ips.map g.aRdata⟩
  else none

def target (svc : Service) : Option Name :=
  if isExternalService svc then g.nameFromString svc.externalName else none

def ownCname (svc : Service) : Option Entry := (target g svc).map fun n => ⟨defaultTTL, [.cname n]⟩

variable {svc : Service}

variable {g} in
theorem target_of_headless (hsvc : isHeaderlessService svc = true) : target g svc = none := by
  unfold isHeaderlessService at hsvc
  unfold target isExternalService
  grind

variable {g} in
theorem ownCname_of_normal (hsvc : isNormalService svc = true) :
    isExternalService svc = false ∧ ownCname g svc = none := by
  have hexternal : isExternalService svc = false := by
    unfold isNormalService at hsvc
    unfold isExternalService
    grind
  simp [ownCname, target, hexternal]

variable {g} in
theorem ownCname_inj {svc svc' : Service} :
    ownCname g svc = ownCname g svc' ↔ target g svc = target g svc' := by
  refine ⟨fun h => Option.map_injective (fun n n' heq => ?_) h,
    fun h => by rw [ownCname, h, ownCname]⟩
  simpa using heq

def ptrEntry (d : Name) : Entry := ⟨defaultTTL, [.other .ptr (g.ptr d)]⟩

def ptrAt (reverseOrigin d : Name) (reverse : Option Name) (rn : Name) : Option Entry :=
  if reverse = some rn ∧ reverseOrigin <:+ rn then some (ptrEntry g d) else none

/-- The A, CNAME and PTR RRsets at a domain and at reverse names. -/
abbrev Records := Option Entry × Option Entry × List (Option Entry)

def ownRecords (reverseOrigin d : Name) (rns : List Name) (svc : Service)
    (ips : List String) (reverse : Option Name) : Records :=
  (ownA g svc ips, ownCname g svc, rns.map fun rn =>
    if isNormalService svc then ptrAt g reverseOrigin d reverse rn else none)

end records

def serviceCalls (d : Name) (addresses : Option (RRset Rdata)) (reverse : Option Name)
    (ptr : Name → Option (RRset Rdata)) : List Call :=
  ⟨.service, d, .a, addresses⟩ :: reverse.toList.map fun rn => ⟨.serviceReverse, rn, .ptr, ptr rn⟩

def added (g : Texts) (d : Name) (ip : String) (reverse : Option Name) : List Call :=
  serviceCalls d (some (newRRset d .a [g.aRdata ip])) reverse
    fun rn => some (newRRset rn .ptr [.other .ptr (g.ptr d)])

def deleted (d : Name) (reverse : Option Name) : List Call :=
  serviceCalls d none reverse fun _ => none

section handlers

variable {g : Texts} {origin d : Name} {svc : Service} {reverse : Option Name}

section

variable (hd : getServiceDomain g origin svc = .ok d)

include hd

theorem addServiceRecord_eq (hreverse : getReverseName g svc.clusterIP = .ok reverse) :
    addServiceRecord g origin svc = .ok (added g d svc.clusterIP reverse) := by
  simp only [addServiceRecord, hd, putPtr, hreverse, bind, Except.bind]
  cases reverse <;> rfl

theorem deleteServiceRecord_eq (hreverse : getReverseName g svc.clusterIP = .ok reverse) :
    deleteServiceRecord g origin svc = .ok (deleted d reverse) := by
  simp only [deleteServiceRecord, hd, dropPtr, hreverse, bind, Except.bind]
  cases reverse <;> rfl

theorem addExternalServiceRecord_eq (hsvc : isExternalService svc = true) :
    addExternalServiceRecord g origin svc = .ok
      ((target g svc).toList.map fun n => .put .service d .cname [.cname n]) := by
  rw [addExternalServiceRecord, hd, target, if_pos hsvc]
  cases g.nameFromString svc.externalName <;> rfl

end

theorem serviceCalls_regular {addresses : Option (RRset Rdata)} {ptr : Name → Option (RRset Rdata)}
    (haddresses : ∀ r ∈ addresses, r.name = d ∧ r.typ = .a)
    (hptr : ∀ rn, ∀ r ∈ ptr rn, r.name = rn ∧ r.typ = .ptr) :
    ∀ c ∈ serviceCalls d addresses reverse ptr, c.Regular := by
  intro c hc
  have htypes : (RRType.a ≠ .soa ∧ RRType.a ≠ .ns) ∧ RRType.ptr ≠ .soa ∧ RRType.ptr ≠ .ns := by
    decide
  rcases mem_cons.mp hc with rfl | hc
  · exact ⟨htypes.1.1, htypes.1.2, haddresses⟩
  · obtain ⟨rn, -, rfl⟩ := mem_map.mp hc
    exact ⟨htypes.2.1, htypes.2.2, hptr rn⟩

end handlers

variable {origins : ZoneKind → Name} {maps : ZoneKind → ZoneMap}

theorem effect_self (c : Call) :
    c.effect origins maps c.zone = c.apply (origins c.zone) (maps c.zone) :=
  Function.update_self ..

theorem effect_of_ne {c : Call} {k : ZoneKind} (hk : k ≠ c.zone) :
    c.effect origins maps k = maps k :=
  Function.update_of_ne hk ..

theorem foldl_reverse (d : Name) (reverse : Option Name) (ptr : Name → Option (RRset Rdata))
    (t : RRType) : (reverse.toList.map fun rn => (⟨.serviceReverse, rn, .ptr, ptr rn⟩ : Call)).foldl
      (Call.effect origins) maps .service d t = maps .service d t := by
  refine foldl_effect_of_ne (fun c hc heq => ?_) maps
  obtain ⟨rn, -, rfl⟩ := mem_map.mp hc
  cases heq.1

section foldl

variable {origins : ZoneKind → Name} {maps : ZoneKind → ZoneMap} {d : Name}
  {addresses : Option (RRset Rdata)} {reverse : Option Name} {ptr : Name → Option (RRset Rdata)}

theorem foldl_serviceCalls_a (hin : origins .service <:+ d) :
    (serviceCalls d addresses reverse ptr).foldl (Call.effect origins) maps .service d .a =
      if maps .service d .cname = none then addresses.map .ofRRset else none := by
  have htyp : RRType.a ≠ .cname := by decide
  rw [serviceCalls, foldl_cons, foldl_reverse, effect_self ⟨.service, d, .a, addresses⟩,
    apply_self _ _ ⟨.service, d, .a, addresses⟩]
  simp [Call.entry, hin, Free, htyp]

theorem foldl_serviceCalls_cname :
    (serviceCalls d addresses reverse ptr).foldl (Call.effect origins) maps .service d .cname =
      maps .service d .cname := by
  have htyp : RRType.cname ≠ .a := by decide
  rw [serviceCalls, foldl_cons, foldl_reverse, effect_self ⟨.service, d, .a, addresses⟩]
  exact apply_of_ne fun heq => htyp heq.2

theorem foldl_serviceCalls_ptr {rn : Name} (hcname : maps .serviceReverse rn .cname = none) :
    (serviceCalls d addresses reverse ptr).foldl (Call.effect origins) maps .serviceReverse rn
        .cname = none ∧
    (serviceCalls d addresses reverse ptr).foldl (Call.effect origins) maps
        .serviceReverse rn .ptr =
      if reverse = some rn ∧ origins .serviceReverse <:+ rn then (ptr rn).map .ofRRset
      else maps .serviceReverse rn .ptr := by
  have htyp : RRType.ptr ≠ .cname := by decide
  have hfirst : Call.effect origins maps ⟨.service, d, .a, addresses⟩ .serviceReverse =
      maps .serviceReverse := effect_of_ne (by simp)
  cases reverse with
  | none =>
    simp only [serviceCalls, Option.toList, map_nil, foldl_cons, foldl_nil, hfirst]
    simp [hcname]
  | some r =>
    simp only [serviceCalls, Option.toList, map_cons, map_nil, foldl_cons, foldl_nil]
    rw [effect_self ⟨.serviceReverse, r, .ptr, ptr r⟩, hfirst]
    refine ⟨(apply_of_ne fun heq => htyp heq.2.symm).trans hcname, ?_⟩
    by_cases hrn : rn = r
    · subst hrn
      rw [apply_self _ _ ⟨.serviceReverse, rn, .ptr, ptr rn⟩]
      simp [Call.entry, Free, htyp, hcname]
    · rw [apply_of_ne fun heq => hrn heq.1, if_neg]
      exact fun heq => hrn (Option.some.inj heq.1).symm

end foldl

def recordsIn (maps : ZoneKind → ZoneMap) (d : Name) (rns : List Name) : Records :=
  (maps .service d .a, maps .service d .cname, rns.map (maps .serviceReverse · .ptr))

def NoAlias (maps : ZoneKind → ZoneMap) (rns : List Name) : Prop :=
  ∀ rn ∈ rns, maps .serviceReverse rn .cname = none

section records

variable {origins : ZoneKind → Name} {maps : ZoneKind → ZoneMap} {d : Name} {rns : List Name}

variable {reverse : Option Name}

theorem recordsIn_added {g : Texts} {ip : String} (hin : origins .service <:+ d)
    (halias : NoAlias maps rns) (hptr : ∀ rn ∈ rns, maps .serviceReverse rn .ptr = none) :
    recordsIn ((added g d ip reverse).foldl (Call.effect origins) maps) d rns =
      (if maps .service d .cname = none then some ⟨defaultTTL, [g.aRdata ip]⟩ else none,
        maps .service d .cname, rns.map (ptrAt g (origins .serviceReverse) d reverse)) := by
  rw [recordsIn, added, foldl_serviceCalls_a hin, foldl_serviceCalls_cname]
  refine congrArg₂ Prod.mk rfl (congrArg₂ Prod.mk rfl (map_congr_left fun rn hrn => ?_))
  rw [(foldl_serviceCalls_ptr (halias rn hrn)).2, hptr rn hrn]
  rfl

theorem ptr_deleted (halias : NoAlias maps rns)
    (hptr : ∀ rn ∈ rns, ¬(reverse = some rn ∧ origins .serviceReverse <:+ rn) →
      maps .serviceReverse rn .ptr = none) :
    NoAlias ((deleted d reverse).foldl (Call.effect origins) maps) rns ∧
    ∀ rn ∈ rns, (deleted d reverse).foldl (Call.effect origins) maps .serviceReverse rn .ptr =
      none := by
  refine ⟨fun rn hrn => (foldl_serviceCalls_ptr (halias rn hrn)).1, fun rn hrn => ?_⟩
  refine (foldl_serviceCalls_ptr (halias rn hrn)).2.trans ?_
  split
  · rfl
  · next hne => exact hptr rn hrn hne

theorem recordsIn_cname {n : Name} (hin : origins .service <:+ d)
    (hnone : ∀ t, maps .service d t = none) :
    recordsIn ((Call.put .service d .cname [.cname n]).effect origins maps) d rns =
      (none, some ⟨defaultTTL, [.cname n]⟩, rns.map (maps .serviceReverse · .ptr)) := by
  have htyp : RRType.a ≠ .cname := by decide
  have hservice : (Call.put .service d .cname [.cname n]).effect origins maps .service =
      (Call.put .service d .cname [.cname n]).apply (origins .service) (maps .service) :=
    effect_self _
  have hreverse : (Call.put .service d .cname [.cname n]).effect origins maps .serviceReverse =
      maps .serviceReverse := effect_of_ne (by simp [Call.put])
  have hfree : Free (maps .service) d .cname := ⟨fun _ => hnone _, fun _ t _ => hnone t⟩
  have hcname : (Call.put .service d .cname [.cname n]).apply (origins .service) (maps .service) d
      .cname = some ⟨defaultTTL, [.cname n]⟩ := by
    refine (apply_self _ _ (.put .service d .cname [.cname n])).trans ?_
    simp [Call.entry, Call.put, hin, hfree, Entry.ofRRset, newRRset]
  unfold recordsIn
  rw [hservice, hreverse, hcname, apply_of_ne fun heq => htyp heq.2, hnone]

end records

section handle

variable {T : Type} [DomainTree T NameNode] [LawfulDomainTree T NameNode] {g : Texts} {d : Name}
  {rns : List Name}

theorem added_regular (d : Name) (ip : String) (reverse : Option Name) :
    ∀ c ∈ added g d ip reverse, c.Regular := by
  refine serviceCalls_regular (fun r hr => ?_) fun rn r hr => ?_
  all_goals
    cases hr
    exact ⟨rfl, rfl⟩

structure Without (d : Name) (rns : List Name) (maps : ZoneKind → ZoneMap) : Prop where
  domain : ∀ t, maps .service d t = none
  ptr : ∀ rn ∈ rns, maps .serviceReverse rn .ptr = none
  noAlias : NoAlias maps rns

structure Holds (g : Texts) (reverseOrigin d : Name) (rns : List Name) (svc : Service)
    (ips : List String) (reverse : Option Name) (maps : ZoneKind → ZoneMap) : Prop where
  records : recordsIn maps d rns = ownRecords g reverseOrigin d rns svc ips reverse
  noAlias : NoAlias maps rns

theorem handleServiceCreate_spec {b : Auth T} (cache : Cache) (hb : b.Sound)
    (hin : b.origin .service <:+ d)
    (hwithout : Without d rns b.map) {svc : Service} {reverse : Option Name}
    (hd : getServiceDomain g (b.origin .service) svc = .ok d)
    (hreverse : getReverseName g svc.clusterIP = .ok reverse) :
    Returns (b.handle g cache (.create (.service svc))) fun b' =>
      b'.Sound ∧ b'.origin = b.origin ∧
        Holds g (b.origin .serviceReverse) d rns svc [] reverse b'.map := by
  have hptrs : rns.map (b.map .serviceReverse · .ptr) = rns.map fun _ => none :=
    map_congr_left hwithout.ptr
  change Returns (b.perform (handleServiceCreate g (b.origin .service) svc)) _
  unfold handleServiceCreate
  by_cases hnormal : isNormalService svc = true
  · rw [if_pos hnormal, addServiceRecord_eq hd hreverse]
    refine (Auth.run_replace_spec hb (added_regular d _ reverse)).imp fun b' hb' => ?_
    refine ⟨hb'.1, hb'.2.1, ?_, ?_⟩
    · rw [hb'.2.2, recordsIn_added hin hwithout.noAlias hwithout.ptr, hwithout.domain, if_pos rfl,
        ownRecords, ownA, if_pos hnormal, (ownCname_of_normal hnormal).2]
      simp only [if_pos hnormal]
    · rw [hb'.2.2]
      exact fun rn hrn => (foldl_serviceCalls_ptr (hwithout.noAlias rn hrn)).1
  · have hown : ownRecords g (b.origin .serviceReverse) d rns svc [] reverse =
        (none, ownCname g svc, rns.map fun _ => none) := by
      simp [ownRecords, ownA, hnormal]
    have hplain (hcname : ownCname g svc = none) : Holds g (b.origin .serviceReverse) d rns svc []
        reverse b.map := by
      refine ⟨?_, hwithout.noAlias⟩
      rw [hown, hcname, recordsIn, hwithout.domain, hwithout.domain, hptrs]
    rw [if_neg hnormal]
    by_cases hexternal : isExternalService svc = true
    · rw [if_pos hexternal, addExternalServiceRecord_eq hd hexternal]
      cases htarget : target g svc with
      | none => exact returns_ok ⟨hb, rfl, hplain (by rw [ownCname, htarget]; rfl)⟩
      | some n =>
        refine (Auth.run_replace_spec hb fun c hc => ?_).imp fun b' hb' =>
          ⟨hb'.1, hb'.2.1, ?_, ?_⟩
        · rw [mem_singleton.mp hc]
          exact regular_put (by decide) (by decide) _ _ _
        · rw [hb'.2.2, hown, ownCname, htarget, ← hptrs]
          exact recordsIn_cname hin hwithout.domain
        · rw [hb'.2.2]
          refine fun rn hrn => (foldl_effect_of_ne (fun c hc heq => ?_) _).trans
            (hwithout.noAlias rn hrn)
          rw [mem_singleton.mp hc] at heq
          cases heq.1
    · rw [if_neg hexternal]
      exact returns_ok ⟨hb, rfl, hplain (by simp [ownCname, target, hexternal])⟩

end handle

end Vanguard.K8s
