import Vanguard.K8s.PodRecords

namespace Vanguard.K8s

open Library Zone List

inductive Report where
  | create (cache : Cache) (o : Endpoints)
  | update (cache : Cache) (o : Endpoints)
  deriving DecidableEq, Repr

def Report.cache : Report → Cache
  | .create cache _ | .update cache _ => cache

def Report.object : Report → Endpoints
  | .create _ o | .update _ o => o

structure Watch (T : Type) where
  auth : Auth T
  latest : Option Endpoints

def Report.isUpdate : Report → Bool
  | .create _ _ => false
  | .update _ _ => true

def Report.event (latest : Option Endpoints) : Report → Event
  | .create _ o => .create (.endpoints o)
  | .update _ o =>
    match latest with
    | some old => .updateEndpoints old o
    | none => .create (.endpoints o)

def Watch.step {T : Type} [DomainTree T NameNode] (g : Texts) (w : Watch T) (r : Report) :
    Except ControllerPanic (Watch T) := do
  let auth ← w.auth.handle g r.cache (r.event w.latest)
  .ok ⟨auth, some r.object⟩

/-- The report is about a headless service that the cache holds, with names that are accepted. -/
structure Report.About (g : Texts) (origin : Name) (name nspace : String) (r : Report) : Prop where
  object : r.object.name = name ∧ r.object.nspace = nspace
  headless : ∃ svc, getService r.cache name nspace = some svc ∧ isHeaderlessService svc = true
  accepted : g.Accepts origin r.object

def Shows (g : Texts) (e : Option Entry) (ips : List String) : Prop :=
  if ips = [] then e = none
  else ∃ entry, e = some entry ∧ ∀ rdata, rdata ∈ entry.rdatas ↔
    ∃ ip ∈ ips, ∃ host, g.aFromString ip = some host ∧ rdata = .a host

section calls

variable {g : Texts} {origin d : Name} {name nspace : String} {ips : List String} {svc : Service}
  {origins : ZoneKind → Name} {calls : List Call} {maps : ZoneKind → ZoneMap}

theorem shows_aRdata_iff (hne : ips ≠ []) :
    Shows g (some ⟨defaultTTL, ips.map g.aRdata⟩) ips ↔
      ∀ ip ∈ ips, (g.aFromString ip).isSome = true := by
  rw [Shows, if_neg hne]
  constructor
  · rintro ⟨entry, hentry, hmem⟩ ip hip
    cases hentry
    obtain ⟨ip', -, host, hhost, heq⟩ := (hmem (g.aRdata ip)).mp (mem_map_of_mem hip)
    cases hparsed : g.aFromString ip with
    | none => simp [Texts.aRdata, hparsed, nilA] at heq
    | some host' => rfl
  · intro hall
    refine ⟨_, rfl, fun rdata => ?_⟩
    simp only [mem_map]
    refine exists_congr fun ip => and_congr_right fun hip => ?_
    obtain ⟨host, hhost⟩ := Option.isSome_iff_exists.mp (hall ip hip)
    simp [Texts.aRdata, hhost, eq_comm]

def renewal (g : Texts) (d : Name) (ips : List String) : List Call :=
  if ips = [] then [] else [.put .service d .a (ips.map g.aRdata)]

theorem addIfHeadless_eq {ep : Endpoints} (hd : g.domain origin [name, nspace, "svc"] = .ok d)
    (hname : svc.name = name) (hnspace : svc.nspace = nspace)
    (hsvc : isHeaderlessService svc = true) :
    addIfHeadless g origin svc ep = .ok (renewal g d ep.ips) := by
  subst hname hnspace
  rw [addIfHeadless, if_pos hsvc, addHeadlessServiceRecord, renewal, getServiceDomain, hd]
  by_cases hips : ep.ips = []
  · simp [hips]
  · simp [hips]
    rfl

def Renewing (g : Texts) (d : Name) (ips : List String) (calls : List Call) : Prop :=
  ∃ before after, calls = before ++ renewal g d ips ++ after ∧
    (∀ c ∈ before, c.Spares d) ∧ ∀ c ∈ after, c.Spares d

section

variable (hg : g.Lawful) (hd : g.domain origin [name, nspace, "svc"] = .ok d)

include hg hd

theorem handleEndPointCreate_renewing {cache : Cache} {o : Endpoints}
    (hobject : o.name = name ∧ o.nspace = nspace) (ho : g.Accepts origin o)
    (hfound : getService cache name nspace = some svc) (hsvc : isHeaderlessService svc = true) :
    Returns (handleEndPointCreate g origin cache o) (Renewing g d o.ips) := by
  obtain ⟨rfl, rfl⟩ := hobject
  have hkey : svc.name = o.name ∧ svc.nspace = o.nspace := by
    simpa using find?_some hfound
  unfold handleEndPointCreate
  rw [hfound]
  refine (addPodRecord_spares hg ho hd hsvc).bind fun pods hpods => ?_
  rw [addIfHeadless_eq hd hkey.1 hkey.2 hsvc]
  exact returns_ok ⟨pods, [], by simp, hpods, by simp⟩

theorem handleEndPointUpdate_renewing {old new : Endpoints}
    (hold : old.name = name ∧ old.nspace = nspace) (hnew : new.name = name ∧ new.nspace = nspace)
    (hoaccepts : g.Accepts origin old) (hnaccepts : g.Accepts origin new)
    (hkey : svc.name = name ∧ svc.nspace = nspace) (hsvc : isHeaderlessService svc = true)
    (hchanged : isSubsetsEqual old new ≠ true) :
    Returns (handleEndPointUpdate g origin svc old new) (Renewing g d new.ips) := by
  obtain ⟨rfl, rfl⟩ := hold
  unfold handleEndPointUpdate
  rw [if_neg hchanged, addIfHeadless_eq hd hkey.1 hkey.2 hsvc]
  refine (deletePodRecord_spares hg hoaccepts hd).bind fun deleted hdeleted => ?_
  rw [← hnew.1, ← hnew.2] at hd
  refine (addPodRecord_spares hg hnaccepts hd hsvc).bind fun added hadded => ?_
  exact returns_ok ⟨[], deleted ++ added, by simp, by simp,
    forall_mem_append.mpr ⟨hdeleted, hadded⟩⟩

end

theorem foldl_effect_of_spares (hcalls : ∀ c ∈ calls, c.Spares d) {t : RRType}
    (ht : t = .a ∨ t = .cname) (maps : ZoneKind → ZoneMap) :
    calls.foldl (Call.effect origins) maps .service d t = maps .service d t := by
  refine foldl_effect_of_ne (fun c hc heq => ?_) maps
  obtain ⟨ha, hcname⟩ := (hcalls c hc).other heq.1 heq.2.1
  rcases ht with rfl | rfl
  · exact ha heq.2.2
  · exact hcname heq.2.2

theorem map_of_renewing (hin : origins .service <:+ d) (hcalls : Renewing g d ips calls) :
    calls.foldl (Call.effect origins) maps .service d .a =
      if ips = [] then maps .service d .a
      else if maps .service d .cname = none then some ⟨defaultTTL, ips.map g.aRdata⟩ else none := by
  obtain ⟨before, after, rfl, hbefore, hafter⟩ := hcalls
  rw [foldl_append, foldl_append, foldl_effect_of_spares hafter (.inl rfl)]
  unfold renewal
  split
  · exact foldl_effect_of_spares hbefore (.inl rfl) maps
  · next hne =>
    have htyp : RRType.a ≠ .cname := by decide
    have hfree : Free (before.foldl (Call.effect origins) maps .service) d .a ↔
        maps .service d .cname = none := by
      simp [Free, htyp, foldl_effect_of_spares hbefore (.inr rfl)]
    rw [foldl_cons, foldl_nil, Call.effect]
    simp only [Call.put, Function.update_self]
    rw [Call.apply_self (c := ⟨.service, d, .a, _⟩)]
    simp only [Call.entry, hin, if_true, hfree, Option.map_some]
    rfl

theorem cname_of_renewing (hcalls : Renewing g d ips calls) :
    calls.foldl (Call.effect origins) maps .service d .cname = maps .service d .cname := by
  obtain ⟨before, after, rfl, hbefore, hafter⟩ := hcalls
  rw [foldl_append, foldl_append, foldl_effect_of_spares hafter (.inr rfl)]
  refine (foldl_effect_of_ne (fun c hc heq => ?_) _).trans
    (foldl_effect_of_spares hbefore (.inr rfl) maps)
  unfold renewal at hc
  split at hc
  · cases hc
  · rw [mem_singleton.mp hc] at heq
    have htyp : RRType.a ≠ .cname := by decide
    exact htyp heq.2.2

theorem Renewing.regular (hcalls : Renewing g d ips calls) : ∀ c ∈ calls, c.Regular := by
  obtain ⟨before, after, rfl, hbefore, hafter⟩ := hcalls
  simp only [forall_mem_append]
  refine ⟨⟨fun c hc => (hbefore c hc).regular, ?_⟩, fun c hc => (hafter c hc).regular⟩
  unfold renewal
  split
  · simp
  · exact forall_mem_singleton.mpr (Call.regular_put (by decide) (by decide) _ _ _)

end calls

section watch

variable {T : Type} [DomainTree T NameNode]

/-- The A RRset at the domain has the addresses of the endpoints that were reported last. -/
def Watch.Follows (g : Texts) (d : Name) (w : Watch T) : Prop :=
  ∀ o ∈ w.latest, Shows g (w.auth.map .service d .a) o.ips

def Watch.PassesOver (w : Watch T) (r : Report) : Prop :=
  r.isUpdate = true ∧ ∃ old ∈ w.latest,
    old.subsets.length = 0 ∧ r.object.subsets.length = 0 ∨ isSubsetsEqual old r.object = true

omit [DomainTree T NameNode] in
instance (w : Watch T) (r : Report) : Decidable (w.PassesOver r) :=
  inferInstanceAs (Decidable (_ ∧ ∃ _ ∈ _, _))

/-- A report without addresses finds no A RRset, and another one no CNAME. -/
def Watch.Renews (g : Texts) (d : Name) (w : Watch T) (r : Report) : Prop :=
  ¬w.PassesOver r →
    if r.object.ips = [] then w.auth.map .service d .a = none
    else w.auth.map .service d .cname = none ∧ ∀ ip ∈ r.object.ips, (g.aFromString ip).isSome = true

instance (g : Texts) (d : Name) (w : Watch T) (r : Report) : Decidable (w.Renews g d r) :=
  inferInstanceAs (Decidable (¬w.PassesOver r →
    if r.object.ips = [] then w.auth.map .service d .a = none
    else w.auth.map .service d .cname = none ∧
      ∀ ip ∈ r.object.ips, (g.aFromString ip).isSome = true))

variable {w : Watch T} {r : Report}

omit [DomainTree T NameNode] in
theorem Watch.PassesOver.ips_eq (hover : w.PassesOver r) :
    ∃ old ∈ w.latest, old.ips = r.object.ips := by
  obtain ⟨-, old, hold, hsame⟩ := hover
  refine ⟨old, hold, ?_⟩
  rcases hsame with ⟨hold, hnew⟩ | hequal
  · simp only [Endpoints.ips, length_eq_zero_iff.mp hold, length_eq_zero_iff.mp hnew]
  · exact ips_of_isSubsetsEqual hequal

structure Watch.Ready (g : Texts) (origin : Name) (name nspace : String) (w : Watch T) : Prop where
  sound : w.auth.Sound
  origin_eq : w.auth.origin .service = origin
  latest : ∀ o ∈ w.latest, (o.name = name ∧ o.nspace = nspace) ∧ g.Accepts origin o

def Watch.entryAfter (g : Texts) (d : Name) (w : Watch T) (r : Report) : Option Entry :=
  if w.PassesOver r ∨ r.object.ips = [] then w.auth.map .service d .a
  else if w.auth.map .service d .cname = none then some ⟨defaultTTL, r.object.ips.map g.aRdata⟩
  else none

variable {g : Texts} {origin d : Name} {name nspace : String}

theorem Watch.shows_entryAfter_iff (hfollows : w.Follows g d) (r : Report) :
    Shows g (w.entryAfter g d r) r.object.ips ↔ w.Renews g d r := by
  unfold Watch.entryAfter Watch.Renews
  by_cases hover : w.PassesOver r
  · obtain ⟨old, hold, hips⟩ := hover.ips_eq
    rw [if_pos (.inl hover), ← hips]
    exact iff_of_true (hfollows old hold) fun hnot => absurd hover hnot
  · by_cases hips : r.object.ips = []
    · simp [hips, hover, Shows]
    · rw [if_neg (by simp [hover, hips]), if_neg hips]
      by_cases hcname : w.auth.map .service d .cname = none
      · rw [if_pos hcname, shows_aRdata_iff hips]
        simp [hover, hcname]
      · rw [if_neg hcname]
        simp [hover, hcname, Shows, hips]

theorem handlerCalls_of_report (hg : g.Lawful) (hd : g.domain origin [name, nspace, "svc"] = .ok d)
    (hw : w.Ready g origin name nspace) (hr : r.About g origin name nspace) :
    Returns (handlerCalls g origin r.cache (r.event w.latest)) fun calls =>
      if w.PassesOver r then calls = [] else Renewing g d r.object.ips calls := by
  obtain ⟨svc, hfound, hsvc⟩ := hr.headless
  have hkey : svc.name = name ∧ svc.nspace = nspace := by simpa using find?_some hfound
  have hcreate (hover : ¬w.PassesOver r) :
      Returns (handleEndPointCreate g origin r.cache r.object) fun calls =>
        if w.PassesOver r then calls = [] else Renewing g d r.object.ips calls := by
    simp only [if_neg hover]
    exact handleEndPointCreate_renewing hg hd hr.object hr.accepted hfound hsvc
  cases r with
  | create cache o => exact hcreate (by simp [Watch.PassesOver, Report.isUpdate])
  | update cache new =>
    cases hlatest : w.latest with
    | none => exact hcreate (by simp [Watch.PassesOver, hlatest])
    | some old =>
      obtain ⟨hold, hoaccepts⟩ := hw.latest old hlatest
      have hover : w.PassesOver (.update cache new) ↔
          old.subsets.length = 0 ∧ new.subsets.length = 0 ∨ isSubsetsEqual old new = true := by
        simp [Watch.PassesOver, Report.isUpdate, Report.object, hlatest]
      have hservice : getService cache old.name old.nspace = some svc := by
        rw [hold.1, hold.2]
        exact hfound
      simp only [Report.event, handlerCalls, Report.cache, Report.object, hservice]
      by_cases hsubsets : old.subsets.length ≠ 0 ∨ new.subsets.length ≠ 0
      · rw [if_pos hsubsets]
        by_cases hequal : isSubsetsEqual old new = true
        · rw [handleEndPointUpdate, if_pos hequal]
          refine returns_ok ?_
          rw [if_pos (hover.mpr (.inr hequal))]
        · have hnot : ¬w.PassesOver (.update cache new) := by
            rw [hover]
            tauto
          simp only [if_neg hnot]
          exact handleEndPointUpdate_renewing hg hd hold hr.object hoaccepts hr.accepted hkey hsvc
            hequal
      · rw [if_neg hsubsets]
        refine returns_ok ?_
        simp only [not_or, not_not] at hsubsets
        rw [if_pos (hover.mpr (.inl hsubsets))]

end watch

variable {T : Type} [DomainTree T NameNode] [LawfulDomainTree T NameNode] {g : Texts}
  {origin d : Name} {name nspace : String} {w : Watch T} {r : Report}

theorem Watch.step_spec (hg : g.Lawful) (hd : g.domain origin [name, nspace, "svc"] = .ok d)
    (hw : w.Ready g origin name nspace) (hr : r.About g origin name nspace) :
    Returns (w.step g r) fun w' => w'.Ready g origin name nspace ∧ w'.latest = some r.object ∧
      w'.auth.map .service d .a = w.entryAfter g d r ∧
      w'.auth.map .service d .cname = w.auth.map .service d .cname := by
  have hin : w.auth.origin .service <:+ d := hw.origin_eq ▸ suffix_of_domain hg hd
  have hhandle : w.auth.handle g r.cache (r.event w.latest) =
      w.auth.perform (handlerCalls g origin r.cache (r.event w.latest)) := by
    rw [← hw.origin_eq]
    rfl
  have hdone : Returns (w.auth.handle g r.cache (r.event w.latest)) fun auth =>
      auth.Sound ∧ auth.origin = w.auth.origin ∧
        auth.map .service d .a = w.entryAfter g d r ∧
        auth.map .service d .cname = w.auth.map .service d .cname := by
    rw [hhandle]
    refine (handlerCalls_of_report hg hd hw hr).bind fun calls hcalls => ?_
    unfold Watch.entryAfter
    by_cases hover : w.PassesOver r
    · rw [if_pos hover] at hcalls
      rw [hcalls, if_pos (.inl hover)]
      exact returns_ok ⟨hw.sound, rfl, rfl, rfl⟩
    · rw [if_neg hover] at hcalls
      refine (Auth.run_replace_spec hw.sound hcalls.regular).imp fun auth hauth => ?_
      refine ⟨hauth.1, hauth.2.1, ?_, ?_⟩
      · rw [hauth.2.2, map_of_renewing hin hcalls]
        simp only [hover, false_or]
      · rw [hauth.2.2, cname_of_renewing hcalls]
  refine hdone.bind fun auth hauth => ?_
  refine ⟨⟨auth, some r.object⟩, rfl, ⟨hauth.1, ?_, fun o ho => ?_⟩, rfl, hauth.2.2⟩
  · exact (congrFun hauth.2.1 _).trans hw.origin_eq
  · cases ho
    exact ⟨hr.object, hr.accepted⟩

/-- The A RRset has the addresses of the endpoints exactly if every report renews it. -/
theorem headless_follows_iff (hg : g.Lawful) {a : Auth T} (ha : a.Sound)
    (hd : g.domain (a.origin .service) [name, nspace, "svc"] = .ok d) (reports : List Report)
    (hreports : ∀ r ∈ reports, r.About g (a.origin .service) name nspace) :
    (∃ w, run (Watch.step g) ⟨a, none⟩ reports = .ok w) ∧
    ((∀ w, Reached (Watch.step g) ⟨a, none⟩ reports w → w.Follows g d) ↔
      Along (Watch.step g) (Watch.Renews g d) ⟨a, none⟩ reports) := by
  have hready : (⟨a, none⟩ : Watch T).Ready g (a.origin .service) name nspace := ⟨ha, rfl, by simp⟩
  have hstep (w : Watch T) (r : Report) (hmem : r ∈ reports)
      (hw : w.Ready g (a.origin .service) name nspace) := Watch.step_spec hg hd hw (hreports r hmem)
  constructor
  · obtain ⟨w, hrun, -⟩ := run_total (Watch.Ready g (a.origin .service) name nspace)
      (fun w r hw hmem => (hstep w r hmem hw).imp fun w' hw' => hw'.1) (along_mem _ _ _) hready
    exact ⟨w, hrun⟩
  · refine reached_iff_along_of_subset (Watch.Ready g (a.origin .service) name nspace) _ reports
      ?_ ?_ reports (List.Subset.refl _) hready (by simp [Watch.Follows])
    · intro w r hmem w' hw hfollows hok
      obtain ⟨w'', hok', hw', hlatest, hentry, -⟩ := hstep w r hmem hw
      cases hok.symm.trans hok'
      refine ⟨hw', ?_⟩
      rw [← Watch.shows_entryAfter_iff hfollows r, ← hentry]
      simp [Watch.Follows, hlatest]
    · intro w r hmem e hw _ hstop
      obtain ⟨w', hok, -⟩ := hstep w r hmem hw
      cases hstop.symm.trans hok

def headlessService : Service := ⟨"db", "prod", .clusterIP, "None", ""⟩

def dbEndpoints (ips : List String) : Endpoints :=
  ⟨"db", "prod", if ips = [] then [] else [⟨ips.map (⟨·, ""⟩), []⟩]⟩

variable {ips : List String}

theorem dbEndpoints_accepted (hips : ∀ ip ∈ ips, PlainLabel (podName ⟨ip, ""⟩)) :
    dottedTexts.Accepts ["cluster", "local"] (dbEndpoints ips) := by
  have haddress {subset : EndpointSubset} (hsubset : subset ∈ (dbEndpoints ips).subsets) :
      subset.ports = [] ∧ ∀ addr ∈ subset.addresses, ∃ ip ∈ ips, addr = ⟨ip, ""⟩ := by
    unfold dbEndpoints at hsubset
    split at hsubset
    · cases hsubset
    · rw [mem_singleton.mp hsubset]
      refine ⟨rfl, fun addr haddr => ?_⟩
      obtain ⟨ip, hip, rfl⟩ := mem_map.mp haddr
      exact ⟨ip, hip, rfl⟩
  refine ⟨fun subset hsubset addr haddr => ?_, fun _ _ _ _ => ⟨_, rfl⟩,
    fun subset hsubset port hport _ => ?_, fun _ _ addr _ => dottedTexts_reverse addr.ip⟩
  · obtain ⟨ip, hip, rfl⟩ := (haddress hsubset).2 addr haddr
    exact hips ip hip
  · rw [(haddress hsubset).1] at hport
    cases hport

theorem db_domain : dottedTexts.domain (clusterAuth.origin .service) ["db", "prod", "svc"] =
    .ok ["db", "prod", "svc", "cluster", "local"] := by
  rw [clusterAuth_origin]
  decide

theorem db_about (hips : ∀ ip ∈ ips, PlainLabel (podName ⟨ip, ""⟩))
    (hcache : r.cache = [headlessService]) (hobject : r.object = dbEndpoints ips) :
    r.About dottedTexts (clusterAuth.origin .service) "db" "prod" := by
  rw [clusterAuth_origin]
  refine ⟨hobject ▸ ⟨rfl, rfl⟩, ⟨headlessService, ?_, rfl⟩, hobject ▸ dbEndpoints_accepted hips⟩
  rw [hcache]
  rfl

theorem db_plain : ∀ ip ∈ ["10.42.0.5", "10.42.0.6"], PlainLabel (podName ⟨ip, ""⟩) := by
  have hlabels : ∀ ip ∈ ["10.42.0.5", "10.42.0.6"], podName ⟨ip, ""⟩ ≠ "" ∧
      (podName ⟨ip, ""⟩).toList.all (fun c => c ≠ '.' ∧ c ≠ '\\') = true := by
    decide
  exact fun ip hip => ⟨(hlabels ip hip).1, by simpa using (hlabels ip hip).2⟩

/-- A first and a second pod are added to the service. -/
theorem example_endpoints_followed :
    (∃ w, run (Watch.step dottedTexts) (⟨clusterAuth, none⟩ : Watch (ReferenceTree NameNode))
        [.create [headlessService] (dbEndpoints ["10.42.0.5"]),
          .update [headlessService] (dbEndpoints ["10.42.0.5", "10.42.0.6"])] = .ok w) ∧
    ∀ w, Reached (Watch.step dottedTexts) (⟨clusterAuth, none⟩ : Watch (ReferenceTree NameNode))
        [.create [headlessService] (dbEndpoints ["10.42.0.5"]),
          .update [headlessService] (dbEndpoints ["10.42.0.5", "10.42.0.6"])] w →
      w.Follows dottedTexts ["db", "prod", "svc", "cluster", "local"] := by
  have hreports : ∀ r ∈ [Report.create [headlessService] (dbEndpoints ["10.42.0.5"]),
      .update [headlessService] (dbEndpoints ["10.42.0.5", "10.42.0.6"])],
      r.About dottedTexts (clusterAuth.origin .service) "db" "prod" := by
    intro r hr
    rcases mem_pair.mp hr with rfl | rfl
    · exact db_about (fun ip hip => db_plain ip (by simpa using Or.inl hip)) rfl rfl
    · exact db_about db_plain rfl rfl
  obtain ⟨hruns, hiff⟩ :=
    headless_follows_iff dottedTexts_lawful clusterAuth_sound db_domain _ hreports
  refine ⟨hruns, hiff.mpr ⟨fun _ => ?_, fun w hw => ⟨fun _ => ?_, fun _ _ => trivial⟩⟩⟩
  · have hips : (dbEndpoints ["10.42.0.5"]).ips ≠ [] ∧
        ∀ ip ∈ (dbEndpoints ["10.42.0.5"]).ips, (dottedTexts.aFromString ip).isSome = true := by
      decide
    rw [Report.object, if_neg hips.1]
    exact ⟨by decide +kernel, hips.2⟩
  · obtain ⟨w', hok, hcname⟩ : ∃ w', Watch.step dottedTexts ⟨clusterAuth, none⟩
        (.create [headlessService] (dbEndpoints ["10.42.0.5"])) = .ok w' ∧
        w'.auth.map .service ["db", "prod", "svc", "cluster", "local"] .cname = none :=
      exists_ok (by decide +kernel)
    cases hw.symm.trans hok
    have hips : (dbEndpoints ["10.42.0.5", "10.42.0.6"]).ips ≠ [] ∧
        ∀ ip ∈ (dbEndpoints ["10.42.0.5", "10.42.0.6"]).ips,
          (dottedTexts.aFromString ip).isSome = true := by
      decide
    rw [Report.object, if_neg hips.1]
    exact ⟨hcname, hips.2⟩

/-- The only pod of the service goes, and its address stays. -/
theorem example_endpoints_not_followed :
    ∃ w, run (Watch.step dottedTexts) (⟨clusterAuth, none⟩ : Watch (ReferenceTree NameNode))
        [.create [headlessService] (dbEndpoints ["10.42.0.5"]),
          .update [headlessService] (dbEndpoints [])] = .ok w ∧
      w.latest = some (dbEndpoints []) ∧
      w.auth.map .service ["db", "prod", "svc", "cluster", "local"] .a =
        some ⟨5, [.a [10, 42, 0, 5]]⟩ :=
  exists_ok (by decide +kernel)

end Vanguard.K8s
