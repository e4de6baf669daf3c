import Vanguard.Auth.Commands
import Vanguard.Auth.Transactions

namespace Vanguard.Auth

open Library Zone Heap

def requestOf {T Z : Type} [NameTree Z Ptr] (verb : String) (cls : RRClass) (g : Texts)
    (aclFind : String → List UInt8 → Bool) (h : Objects) (ds : AuthDataSource T Z)
    (rrs : List AuthRR) : Option (Collected × Ptr) :=
  match collectRrs g verb cls h rrs with
  | .error _ => none
  | .ok c => c.targetZone.bind fun zoneName =>
    (ds.getUpdator aclFind c.targetView zoneName none).map fun z => (c, z)

variable {T Z : Type} [DomainTree T NameNode] [NameTree Z Ptr]

def Accepts (verb : String) (cls : RRClass) (g : Texts) (aclFind : String → List UInt8 → Bool)
    (h : Objects) (ds : AuthDataSource T Z) (rrs : List AuthRR) : Prop :=
  ∃ c z, requestOf verb cls g aclFind h ds rrs = some (c, z) ∧
    Transacts c.objects (ds.zones.load z).zone c.rrsets

/-- `updateAuthRrs` deletes the old records, and that makes a difference to the zone. -/
def DeletesForGood (g : Texts) (aclFind : String → List UInt8 → Bool) (h : Objects)
    (ds : AuthDataSource T Z) (oldRrs : List AuthRR) : Prop :=
  deletesOld g oldRrs = true ∧ ∃ c z, requestOf "delete" .none g aclFind h ds oldRrs = some (c, z) ∧
    Transacts c.objects (ds.zones.load z).zone c.rrsets ∧
    Alters c.objects (ds.zones.load z).zone c.rrsets

def AuthDataSource.records (ds : AuthDataSource T Z) (h : Objects) (z : Ptr) : ZoneMap :=
  (ds.zones.load z).zone.memoryZone.content h

structure Sound (h : Objects) (ds : AuthDataSource T Z) : Prop where
  closed : h.Closed
  allocated : ∀ z, (ds.zones.load z).zone.memoryZone.Allocated h
  /-- Zones have been checked by `Commit` or were never loaded. -/
  served : ∀ z, (ds.zones.load z).zone.memoryZone.Served

variable {ds : AuthDataSource T Z}

omit [NameTree Z Ptr] in
theorem Sound.records_eq {h h' : Objects} (hsound : Sound h ds) (hgrows : h.Grows h') (z : Ptr) :
    ds.records h' z = ds.records h z :=
  (MemoryZone.Agrees.of_grows (hsound.allocated z) hsound.closed hgrows).content_eq

omit [NameTree Z Ptr] in
theorem Sound.grow {h h' : Objects} (hsound : Sound h ds) (hgrows : h.Grows h')
    (hclosed : h'.Closed) : Sound h' ds :=
  ⟨hclosed, fun z => (hsound.allocated z).mono hgrows.rrsets.next_le, hsound.served⟩

inductive CommandEffect (verb : String) (cls : RRClass) (g : Texts)
    (aclFind : String → List UInt8 → Bool) (h : Objects) (ds : AuthDataSource T Z)
    (rrs : List AuthRR) : Objects × AuthDataSource T Z × Option CommandError → Prop
  | rejected {h' : Objects} {err : CommandError}
      (hrequest : requestOf verb cls g aclFind h ds rrs = none) (hgrows : h.Grows h')
      (hclosed : h'.Closed) : CommandEffect verb cls g aclFind h ds rrs (h', ds, some err)
  | updated {c : Collected} {z : Ptr} {u : Updated T}
      (hrequest : requestOf verb cls g aclFind h ds rrs = some (c, z))
      (hgathered : Gathered h cls rrs.length c)
      (hu : updateZone c.objects (ds.zones.load z).zone c.rrsets = .ok u) :
      CommandEffect verb cls g aclFind h ds rrs
        (u.objects, { ds with
          zones := ds.zones.write z { ds.zones.load z with zone := u.zone } },
          u.err.map fun e => .zoneUpdateFailed (.update e))

theorem changeAuthRrs_effect {verb : String} {cls : RRClass} {g : Texts}
    {aclFind : String → List UInt8 → Bool} {h : Objects} {rrs : List AuthRR}
    {r : Objects × AuthDataSource T Z × Option CommandError} (hclosed : h.Closed)
    (hok : changeAuthRrs verb cls g aclFind h ds rrs = .ok r) :
    CommandEffect verb cls g aclFind h ds rrs r := by
  unfold changeAuthRrs at hok
  cases hcollect : collectRrs g verb cls h rrs with
  | error err =>
    simp only [hcollect] at hok
    cases hok
    exact .rejected (by simp [requestOf, hcollect]) (.refl h) hclosed
  | ok c =>
    have hgathered := collectRrs_gathered hclosed hcollect
    simp only [hcollect] at hok
    cases hzone : c.targetZone with
    | none =>
      simp only [hzone] at hok
      split at hok
      · cases hok
        exact .rejected (by simp [requestOf, hcollect, hzone]) hgathered.grows hgathered.closed
      · cases hok
    | some zoneName =>
      simp only [hzone, handleDynamicRRsets] at hok
      cases hupdator : ds.getUpdator aclFind c.targetView zoneName none with
      | none =>
        simp only [hupdator] at hok
        cases hok
        exact .rejected (by simp [requestOf, hcollect, hzone, hupdator]) hgathered.grows
          hgathered.closed
      | some z =>
        simp only [hupdator] at hok
        cases hu : updateZone c.objects (ds.zones.load z).zone c.rrsets with
        | error e => simp [hu] at hok
        | ok u =>
          simp only [hu] at hok
          cases hok
          exact .updated (by simp [requestOf, hcollect, hzone, hupdator]) hgathered hu

section

variable [LawfulDomainTree T NameNode] {verb : String} {cls : RRClass} {g : Texts}
  {aclFind : String → List UInt8 → Bool} {h h' : Objects} {ds ds' : AuthDataSource T Z}
  {rrs : List AuthRR} {err : Option CommandError}

omit [DomainTree T NameNode] [NameTree Z Ptr] [LawfulDomainTree T NameNode] in
theorem Gathered.listed {rounds : ℕ} {c : Collected} (hc : Gathered h cls rounds c)
    (hcls : cls ≠ .any) : Listed c.objects c.rrsets := fun p hp =>
  ⟨(hc.rrsets p hp).1, (hc.rrsets p hp).2 ▸ hcls⟩

section

variable (hsound : Sound h ds)

include hsound

theorem changeAuthRrs_sound (hcls : cls ≠ .any)
    (hok : changeAuthRrs verb cls g aclFind h ds rrs = .ok (h', ds', err)) : Sound h' ds' := by
  cases changeAuthRrs_effect hsound.closed hok with
  | rejected hrequest hgrows hclosed => exact hsound.grow hgrows hclosed
  | @updated c z u hrequest hgathered hu =>
    have hmade := hsound.grow hgathered.grows hgathered.closed
    obtain ⟨hclosed, hnext, halloc, hserved⟩ := updateZone_sound (hmade.served z)
      (hmade.allocated z) hmade.closed (hgathered.listed hcls) hu
    refine ⟨hclosed, fun z' => ?_, fun z' => ?_⟩
    · by_cases hz : z' = z
      · subst hz
        simpa only [load_write_self] using halloc
      · simpa only [load_write_of_ne hz] using (hmade.allocated z').mono hnext
    · by_cases hz : z' = z
      · subst hz
        simpa only [load_write_self] using hserved
      · simpa only [load_write_of_ne hz] using hmade.served z'

theorem changeAuthRrs_err_iff
    (hok : changeAuthRrs verb cls g aclFind h ds rrs = .ok (h', ds', err)) :
    err = none ↔ Accepts verb cls g aclFind h ds rrs := by
  unfold Accepts
  cases changeAuthRrs_effect hsound.closed hok with
  | rejected hrequest hgrows hclosed => simp [hrequest]
  | updated hrequest hgathered hu => simp [hrequest, ← updateZone_err_iff hu]

theorem changeAuthRrs_of_err (hcls : cls ≠ .any)
    (hok : changeAuthRrs verb cls g aclFind h ds rrs = .ok (h', ds', err)) (herr : err ≠ none)
    (z : Ptr) : ds'.records h' z = ds.records h z := by
  cases changeAuthRrs_effect hsound.closed hok with
  | rejected hrequest hgrows hclosed => exact hsound.records_eq hgrows z
  | @updated c z' u hrequest hgathered hu =>
    have hmade := hsound.grow hgathered.grows hgathered.closed
    obtain ⟨hzone, hext, -⟩ := updateZone_of_err (hmade.served z') (hmade.allocated z')
      hmade.closed (hgathered.listed hcls) hu (by simpa using herr)
    rw [← hsound.records_eq hgathered.grows z]
    unfold AuthDataSource.records
    by_cases hz : z = z'
    · subst hz
      simp only [load_write_self, hzone]
      exact MemoryZone.content_of_extends hext (hmade.allocated z)
    · simp only [load_write_of_ne hz]
      exact MemoryZone.content_of_extends hext (hmade.allocated z)

theorem deleteAuthRrs_unchanged_iff (hne : rrs ≠ [])
    (hok : deleteAuthRrs g aclFind h ds rrs = .ok (h', ds', none)) :
    (∀ z, ds'.records h' z = ds.records h z) ↔
      ∀ c z, requestOf "delete" .none g aclFind h ds rrs = some (c, z) →
        ¬Alters c.objects (ds.zones.load z).zone c.rrsets := by
  have heffect := changeAuthRrs_effect hsound.closed hok
  generalize hresult : (h', ds', (none : Option CommandError)) = r at heffect
  cases heffect with
  | rejected hrequest hgrows hclosed => cases hresult
  | @updated c z u hrequest hgathered hu =>
    simp only [Prod.mk.injEq] at hresult
    obtain ⟨rfl, rfl, hnone⟩ := hresult
    have herr : u.err = none := by simpa using hnone.symm
    have hmade := hsound.grow hgathered.grows hgathered.closed
    have hrrsets : c.rrsets ≠ [] := by
      rw [← List.length_pos_iff_ne_nil, hgathered.length]
      exact List.length_pos_iff_ne_nil.mpr hne
    have hdelete : ∀ p ∈ c.rrsets, (c.objects.rrsets.load p).cls ≠ .internet := fun p hp => by
      rw [(hgathered.rrsets p hp).2]
      decide
    obtain ⟨hchanges, hkeeps⟩ := updateZone_deletions (hmade.allocated z) hmade.closed
      (hgathered.listed (by decide)) hdelete hrrsets hu herr
    simp only [hrequest, Option.some.injEq, Prod.mk.injEq, and_imp, forall_eq',
      forall_apply_eq_imp_iff]
    constructor
    · intro hsame halters
      have hz := hsame z
      rw [← hsound.records_eq hgathered.grows z] at hz
      simp only [AuthDataSource.records, load_write_self] at hz
      exact hchanges halters hz
    · intro hnot z'
      obtain ⟨hcontent, hext⟩ := hkeeps hnot
      rw [← hsound.records_eq hgathered.grows z']
      unfold AuthDataSource.records
      by_cases hz : z' = z
      · subst hz
        simpa only [load_write_self] using hcontent
      · simp only [load_write_of_ne hz]
        exact MemoryZone.content_of_extends hext (hmade.allocated z')

end

/-- A failed update leaves the records exactly if the zone takes the new ones without the old. -/
theorem updateAuthRrs_atomic_iff {oldRrs newRrs : List AuthRR} (hsound : Sound h ds)
    (hok : updateAuthRrs g aclFind h ds oldRrs newRrs = .ok (h', ds', err)) :
    (err ≠ none → ∀ z, ds'.records h' z = ds.records h z) ↔
      (DeletesForGood g aclFind h ds oldRrs → ∀ h₁ ds₁,
        deleteAuthRrs g aclFind h ds oldRrs = .ok (h₁, ds₁, none) →
        Accepts "add" .internet g aclFind h₁ ds₁ newRrs) := by
  unfold updateAuthRrs at hok
  by_cases hdeletes : deletesOld g oldRrs = true
  · rw [if_pos hdeletes] at hok
    have hne : oldRrs ≠ [] := by
      rintro rfl
      simp [deletesOld] at hdeletes
    cases hfirst : deleteAuthRrs g aclFind h ds oldRrs with
    | error e => simp [hfirst] at hok
    | ok r =>
      obtain ⟨h₁, ds₁, err₁⟩ := r
      simp only [hfirst] at hok
      cases err₁ with
      | some e =>
        cases hok
        have hsame := changeAuthRrs_of_err hsound (by decide) hfirst (by simp)
        refine iff_of_true (fun _ => hsame) fun _ h₂ ds₂ hnil => ?_
        simp at hnil
      | none =>
        have hsound₁ := changeAuthRrs_sound hsound (by decide) hfirst
        have hsecond : err ≠ none → ∀ z, ds'.records h' z = ds₁.records h₁ z := fun herr =>
          changeAuthRrs_of_err hsound₁ (by decide) hok herr
        have hunchanged := deleteAuthRrs_unchanged_iff hsound hne hfirst
        have haccepted := (changeAuthRrs_err_iff hsound hfirst).mp rfl
        have hgood : DeletesForGood g aclFind h ds oldRrs ↔
            ¬∀ z, ds₁.records h₁ z = ds.records h z := by
          rw [hunchanged]
          obtain ⟨c, z, hrequest, htransacts⟩ := haccepted
          simp [DeletesForGood, hdeletes, hrequest, htransacts]
        have htaken : (∀ h₂ ds₂, (.ok (h₁, ds₁, none) :
            Except CommandPanic (Objects × AuthDataSource T Z × Option CommandError)) =
              .ok (h₂, ds₂, none) → Accepts "add" .internet g aclFind h₂ ds₂ newRrs) ↔
            err = none := by
          rw [changeAuthRrs_err_iff hsound₁ hok]
          refine ⟨fun htakes => htakes h₁ ds₁ rfl, fun htakes h₂ ds₂ heq => ?_⟩
          cases heq
          exact htakes
        rw [hgood, htaken]
        constructor
        · intro hatomic hchanged
          by_contra herr
          exact hchanged fun z => (hsecond herr z).symm.trans (hatomic herr z)
        · intro hnil herr z
          have hkept : ∀ z, ds₁.records h₁ z = ds.records h z := by
            by_contra hchanged
            exact herr (hnil hchanged)
          exact (hsecond herr z).trans (hkept z)
  · rw [if_neg hdeletes] at hok
    refine iff_of_true (fun herr => changeAuthRrs_of_err hsound (by decide) hok herr) ?_
    exact fun hgood => absurd hgood.1 hdeletes

end

def exampleTexts : Texts where
  nameFromString s :=
    if s = "example." then .ok ["example"]
    else if s = "www.example." then .ok ["www", "example"]
    else if s = "mail.example." then .ok ["mail", "example"]
    else .error "invalid name"
  ttlFromString s := if s = "300" then .ok 300 else .error "invalid ttl"
  typeFromString s := if s = "A" then .ok .a else .error "invalid type"
  rdataFromString _ s :=
    if s = "1.1.1.1" then .ok (.a [1, 1, 1, 1])
    else if s = "2.2.2.2" then .ok (.a [2, 2, 2, 2])
    else .error "invalid rdata"
  typeString t := if t = .soa then "SOA" else if t = .cname then "CNAME" else "A"

def addressZone : MemoryZone (ReferenceTree NameNode) :=
  match run ZoneState.step ⟨updateObjects, newMemoryZone ["example"], []⟩
      [.add 0, .add 1, .add 2] with
  | .ok s => s.zone
  | .error _ => newMemoryZone ["example"]

def addressDataSource : AuthDataSource (ReferenceTree NameNode) (NameTable Ptr) where
  viewZones view := if view = "default" then some ⟨[(["example"], 0)]⟩ else none
  zones := ⟨fun _ => ⟨⟨addressZone, false⟩, [], []⟩, 1⟩

theorem addressDataSource_sound : Sound updateObjects addressDataSource := by
  have hrun : run ZoneState.step (⟨updateObjects, newMemoryZone ["example"], []⟩ :
      ZoneState (ReferenceTree NameNode)) ([0, 1, 2].map .add) =
        .ok ⟨updateObjects, addressZone, [none, none, none]⟩ := rfl
  refine ⟨by unfold Objects.Closed; decide, fun z => ?_, fun z => .inl ?_⟩
  · exact (wellFormed_of_additions (by decide) hrun).allocated
  · show addressZone.validate = none
    decide

def addressRR (name rdata : String) : AuthRR := ⟨"default", "example.", name, "300", "A", rdata⟩

/-- The old record is not in the zone: the deletion is refused and all records stay. -/
theorem example_update_refused :
    ∃ h' ds', updateAuthRrs exampleTexts (fun _ _ => false) updateObjects addressDataSource
        [addressRR "mail.example." "1.1.1.1"] [addressRR "www.example." "2.2.2.2"] =
          .ok (h', ds', some (.zoneUpdateFailed (.update (.zone .unknownRRset)))) ∧
      ∀ z, ds'.records h' z = addressDataSource.records updateObjects z := by
  have hrefused : ∃ r, deleteAuthRrs exampleTexts (fun _ _ => false) updateObjects
      addressDataSource [addressRR "mail.example." "1.1.1.1"] = .ok r ∧ r.2.2 ≠ none :=
    ⟨_, rfl, by decide⟩
  obtain ⟨h', ds', hok⟩ : ∃ h' ds', updateAuthRrs exampleTexts (fun _ _ => false) updateObjects
      addressDataSource [addressRR "mail.example." "1.1.1.1"]
      [addressRR "www.example." "2.2.2.2"] =
        .ok (h', ds', some (.zoneUpdateFailed (.update (.zone .unknownRRset)))) := ⟨_, _, rfl⟩
  refine ⟨h', ds', hok, (updateAuthRrs_atomic_iff addressDataSource_sound hok).mpr ?_ (by simp)⟩
  rintro - h₁ ds₁ hdeleted
  obtain ⟨r, hr, hne⟩ := hrefused
  cases hr.symm.trans hdeleted
  exact absurd rfl hne

/-- The new rdata is invalid, or there is none: the old record is gone. -/
theorem example_update_loses_record :
    (∃ h' ds', updateAuthRrs exampleTexts (fun _ _ => false) updateObjects addressDataSource
        [addressRR "www.example." "1.1.1.1"] [addressRR "www.example." "2.2.2"] =
          .ok (h', ds', some (.invalidRR "invalid rdata")) ∧
      addressDataSource.records updateObjects 0 ["www", "example"] .a =
        some ⟨300, [.a [1, 1, 1, 1]]⟩ ∧
      ds'.records h' 0 ["www", "example"] .a = none ∧
      (addressDataSource.zones.load 0).zone.memoryZone.serial updateObjects = some 1 ∧
      (ds'.zones.load 0).zone.memoryZone.serial h' = some 2) ∧
    ∃ h' ds', updateAuthRrs exampleTexts (fun _ _ => false) updateObjects addressDataSource
        [addressRR "www.example." "1.1.1.1"] [] =
          .ok (h', ds', some (.zoneUpdateFailed (.update .noAuthUpdate))) ∧
      ds'.records h' 0 ["www", "example"] .a = none :=
  ⟨⟨_, _, rfl, by decide, by decide, by decide, by decide⟩, _, _, rfl, by decide⟩

end Vanguard.Auth
