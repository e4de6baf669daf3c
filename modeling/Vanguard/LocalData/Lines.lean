import Vanguard.LocalData.RRsets

namespace Vanguard.LocalData

section

variable (p : LocalPolicy)

def LocalPolicy.typ : LocalPolicyType :=
  match p.kind with
  | .nxDomain => .nxDomain
  | .nxRRset => .nxRRset
  | .exceptionDomain => .exceptionDomain
  | .localRRset _ => .localRRset

def LocalPolicy.Single : Prop :=
  ∀ rrsets, p.kind = .localRRset rrsets →
    ∃ name typ ttl d, rrsets = [⟨name, typ, .internet, ttl, [d]⟩]

def LocalPolicy.WellFormed : Prop :=
  ∀ rrsets, p.kind = .localRRset rrsets →
    rrsets ≠ [] ∧ UniqueTypes rrsets ∧ ∀ r ∈ rrsets, r.rdatas ≠ []

/-- What `addPolicy` makes of what is at the name, and whether it returns nil. -/
def LocalPolicy.addTo : Option LocalPolicy → LocalPolicy × Bool
  | none => (p, true)
  | some oldp =>
    match oldp.kind, p.kind with
    | .localRRset rrsets, .localRRset news =>
      ({ oldp with kind := .localRRset (addRRsets rrsets news).1 }, (addRRsets rrsets news).2)
    | _, _ => (oldp, false)

end

/-- What `removePolicy` leaves of what is at the name. -/
def LocalPolicy.removeFrom (p oldp : LocalPolicy) : Option LocalPolicy :=
  match oldp.kind, p.kind with
  | .localRRset rrsets, .localRRset gone =>
    if gone.foldl dropRRset rrsets = [] then none
    else some { oldp with kind := .localRRset (gone.foldl dropRRset rrsets) }
  | .localRRset _, _ => some oldp
  | _, _ => none

section build

variable {parsers : Parsers} {lPType : LocalPolicyType} {data : String} {name : Name}
  {p : LocalPolicy}

theorem newLocalRRset_eq_ok {typ rdataStr : String} {ttl : ℤ} {kind : PolicyKind}
    (hok : newLocalRRset parsers name typ ttl rdataStr = .ok kind) :
    ∃ rrType rdata, parsers.typeFromString typ = .ok rrType ∧
      parsers.rdataFromString rrType rdataStr = .ok rdata ∧
      kind = .localRRset [⟨name, rrType, .internet, .ofInt ttl, [rdata]⟩] := by
  unfold newLocalRRset at hok
  cases htyp : parsers.typeFromString typ with
  | error e => simp [htyp] at hok
  | ok rrType =>
    cases hrdata : parsers.rdataFromString rrType rdataStr with
    | error e => simp [htyp, hrdata] at hok
    | ok rdata =>
      simp only [htyp, hrdata, Except.ok.injEq] at hok
      exact ⟨rrType, rdata, rfl, hrdata, hok.symm⟩

theorem buildRedirect_eq_ok {fields : List String} {kind : PolicyKind}
    (hok : buildRedirect parsers name fields = .ok kind) :
    ∃ first ttl typ rdata more n, fields = first :: ttl :: typ :: rdata :: more ∧
      parsers.atoi ttl = .ok n ∧
      newLocalRRset parsers name typ n (" ".intercalate (rdata :: more)) = .ok kind := by
  unfold buildRedirect at hok
  split at hok
  · next first ttl typ rdata more =>
    cases hn : parsers.atoi ttl with
    | error e => simp [hn] at hok
    | ok n =>
      simp only [hn] at hok
      exact ⟨first, ttl, typ, rdata, more, n, rfl, hn, hok⟩
  · cases hok

theorem single_of_build (hok : buildLocalPolicy parsers lPType data = .ok (name, p)) :
    p.typ = lPType ∧ p.Single := by
  unfold buildLocalPolicy at hok
  split at hok
  · cases hok
  · next zoneMatch origin hname =>
    cases lPType with
    | nxDomain | nxRRset | exceptionDomain =>
      cases hok
      exact ⟨rfl, fun rrsets hkind => by cases hkind⟩
    | localRRset =>
      cases hredirect : buildRedirect parsers origin (splitFields data) with
      | error e => simp [hredirect] at hok
      | ok kind =>
        simp only [hredirect] at hok
        cases hok
        obtain ⟨-, ttl, typ, rdata, more, n, -, -, hnew⟩ := buildRedirect_eq_ok hredirect
        obtain ⟨rrType, rdata, -, -, rfl⟩ := newLocalRRset_eq_ok hnew
        refine ⟨rfl, fun rrsets hkind => ?_⟩
        cases hkind
        exact ⟨_, _, _, _, rfl⟩
    | other text => cases hok

end build

section policies

variable {p oldp : LocalPolicy}

def weight : Option LocalPolicy → ℕ
  | none => 0
  | some p =>
    match p.kind with
    | .localRRset rrsets => 1 + rdataCount rrsets
    | _ => 1

theorem addTo_redirect {rrsets news : List (RRset Rdata)} (hold : oldp.kind = .localRRset rrsets)
    (hnew : p.kind = .localRRset news) : p.addTo (some oldp) =
      ({ oldp with kind := .localRRset (addRRsets rrsets news).1 }, (addRRsets rrsets news).2) := by
  simp only [LocalPolicy.addTo, hold, hnew]

theorem addTo_refused (hne : ¬(oldp.typ = .localRRset ∧ p.typ = .localRRset)) :
    p.addTo (some oldp) = (oldp, false) := by
  unfold LocalPolicy.addTo
  dsimp only
  split
  · next hold hnew => exact absurd (by simp [LocalPolicy.typ, hold, hnew]) hne
  · rfl

theorem typ_eq_localRRset : p.typ = .localRRset ↔ ∃ rrsets, p.kind = .localRRset rrsets := by
  unfold LocalPolicy.typ
  cases p.kind <;> simp

theorem addTo_cases (hp : p.Single) (slot : Option LocalPolicy) :
    (slot = none ∧ p.addTo slot = (p, true)) ∨
    (∃ oldp rrsets name typ ttl d, slot = some oldp ∧ oldp.kind = .localRRset rrsets ∧
      p.kind = .localRRset [⟨name, typ, .internet, ttl, [d]⟩] ∧
      p.addTo slot = (⟨oldp.isZoneMatch, .localRRset
        (addRRset ⟨name, typ, .internet, ttl, [d]⟩ rrsets).1⟩,
          (addRRset ⟨name, typ, .internet, ttl, [d]⟩ rrsets).2)) ∨
    ∃ oldp, slot = some oldp ∧ p.addTo slot = (oldp, false) := by
  cases slot with
  | none => exact .inl ⟨rfl, rfl⟩
  | some oldp =>
    refine .inr ?_
    by_cases hjoin : oldp.typ = .localRRset ∧ p.typ = .localRRset
    · obtain ⟨rrsets, hold⟩ := typ_eq_localRRset.mp hjoin.1
      obtain ⟨news, hnew⟩ := typ_eq_localRRset.mp hjoin.2
      obtain ⟨name, typ, ttl, d, rfl⟩ := hp news hnew
      refine .inl ⟨oldp, rrsets, name, typ, ttl, d, rfl, hold, hnew, ?_⟩
      rw [addTo_redirect hold hnew, addRRsets_singleton]
    · exact .inr ⟨oldp, rfl, addTo_refused hjoin⟩

variable {slot : Option LocalPolicy}

theorem addTo_of_refused (hp : p.Single) (hrefused : (p.addTo slot).2 = false) :
    some (p.addTo slot).1 = slot := by
  rcases addTo_cases hp slot with ⟨-, hadd⟩ | ⟨oldp, rrsets, name, typ, ttl, d, rfl, hold, -, hadd⟩ |
    ⟨oldp, rfl, hadd⟩
  · rw [hadd] at hrefused
    cases hrefused
  · rw [hadd] at hrefused ⊢
    rw [addRRset_of_refused rfl hrefused, ← hold]
  · rw [hadd]

theorem weight_addTo (hp : p.Single) (hok : (p.addTo slot).2 = true) :
    weight slot < weight (some (p.addTo slot).1) := by
  rcases addTo_cases hp slot with ⟨rfl, hadd⟩ |
    ⟨oldp, rrsets, name, typ, ttl, d, rfl, hold, -, hadd⟩ |
    ⟨oldp, rfl, hadd⟩
  · rw [hadd]
    unfold weight
    dsimp only
    split <;> omega
  · rw [hadd] at hok ⊢
    simp only [weight, hold, (addRRset_of_accepted rfl hok).1]
    omega
  · rw [hadd] at hok
    cases hok

theorem LocalPolicy.WellFormed.addTo (hp : p.Single)
    (hslot : ∀ oldp, slot = some oldp → oldp.WellFormed) : (p.addTo slot).1.WellFormed := by
  rcases addTo_cases hp slot with ⟨rfl, hadd⟩ |
    ⟨oldp, rrsets, name, typ, ttl, d, rfl, hold, -, hadd⟩ |
    ⟨oldp, rfl, hadd⟩
  · rw [hadd]
    intro rrsets hkind
    obtain ⟨name, typ, ttl, d, rfl⟩ := hp rrsets hkind
    exact ⟨by simp, by simp [UniqueTypes], by simp⟩
  · rw [hadd]
    obtain ⟨-, hunique, hrdatas⟩ := hslot oldp rfl rrsets hold
    intro rrsets' hkind
    cases hkind
    have htypes := types_addRRset ⟨name, typ, .internet, ttl, [d]⟩ rrsets
    refine ⟨fun hnil => ?_, hunique.addRRset _, rdatas_addRRset_ne_nil (by simp) hrdatas⟩
    rw [hnil] at htypes
    split_ifs at htypes with hmem
    · rw [← htypes] at hmem
      cases hmem
    · simp at htypes
  · rw [hadd]
    exact hslot oldp rfl

theorem removeFrom_redirect {rrsets gone : List (RRset Rdata)}
    (hold : oldp.kind = .localRRset rrsets) (hgone : p.kind = .localRRset gone) :
    p.removeFrom oldp =
      if gone.foldl dropRRset rrsets = [] then none
      else some { oldp with kind := .localRRset (gone.foldl dropRRset rrsets) } := by
  simp only [LocalPolicy.removeFrom, hold, hgone]

theorem removeFrom_kept (hold : oldp.typ = .localRRset) (hp : p.typ ≠ .localRRset) :
    p.removeFrom oldp = some oldp := by
  obtain ⟨rrsets, hkind⟩ := typ_eq_localRRset.mp hold
  unfold LocalPolicy.removeFrom
  rw [hkind]
  split
  · next hgone => exact absurd (typ_eq_localRRset.mpr ⟨_, hgone⟩) hp
  · rfl
  · next hother _ => exact absurd rfl (hother rrsets)

theorem removeFrom_gone (hold : oldp.typ ≠ .localRRset) : p.removeFrom oldp = none := by
  unfold LocalPolicy.removeFrom
  split
  · next hkind _ => exact absurd (typ_eq_localRRset.mpr ⟨_, hkind⟩) hold
  · next hkind _ => exact absurd (typ_eq_localRRset.mpr ⟨_, hkind⟩) hold
  · rfl

variable {rrsets : List (RRset Rdata)}

theorem foldl_dropRRset (gone : List (RRset Rdata)) (hunique : UniqueTypes rrsets)
    (hrdatas : ∀ r ∈ rrsets, r.rdatas ≠ []) : UniqueTypes (gone.foldl dropRRset rrsets) ∧
      ∀ r ∈ gone.foldl dropRRset rrsets, r.rdatas ≠ [] := by
  induction gone generalizing rrsets with
  | nil => exact ⟨hunique, hrdatas⟩
  | cons g gone ih =>
    refine ih (hunique.dropRRset g) fun r hr => ?_
    rcases mem_dropRRset hr with ⟨hmem, -⟩ | ⟨-, -, -, hne, -⟩
    · exact hrdatas r hmem
    · exact hne

theorem foldlM_deleteRRset (gone : List (RRset Rdata)) (hunique : UniqueTypes rrsets) :
    gone.foldlM deleteRRset rrsets = some (gone.foldl dropRRset rrsets) := by
  induction gone generalizing rrsets with
  | nil => rfl
  | cons g gone ih =>
    rw [List.foldlM_cons, deleteRRset_eq hunique, List.foldl_cons]
    exact ih (hunique.dropRRset g)

theorem LocalPolicy.WellFormed.removeFrom (hold : oldp.WellFormed) {left : LocalPolicy}
    (hleft : p.removeFrom oldp = some left) : left.WellFormed := by
  unfold LocalPolicy.removeFrom at hleft
  split at hleft
  · next rrsets gone holdkind hgone =>
    obtain ⟨-, hunique, hrdatas⟩ := hold rrsets holdkind
    split_ifs at hleft with hnil
    cases hleft
    intro rrsets' hkind
    cases hkind
    exact ⟨hnil, foldl_dropRRset gone hunique hrdatas⟩
  · cases hleft
    exact hold
  · cases hleft

end policies

end Vanguard.LocalData
