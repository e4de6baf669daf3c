import Vanguard.LocalData.Wildcards

namespace Vanguard.LocalData

open List Option
open Query (Client)

/-- What is left if only the same type and form is removed, and only the rdatas listed. -/
def LocalPolicy.without (p oldp : LocalPolicy) : Option LocalPolicy :=
  if oldp.typ = p.typ ∧ oldp.isZoneMatch = p.isZoneMatch then
    match oldp.kind, p.kind with
    | .localRRset rrsets, .localRRset gone =>
      if gone.foldl dropRRset rrsets = [] then none
      else some { oldp with kind := .localRRset (gone.foldl dropRRset rrsets) }
    | _, _ => none
  else some oldp

def LocalPolicy.Disjoint (p oldp : LocalPolicy) : Prop :=
  ∀ rrsets gone, oldp.kind = .localRRset rrsets → p.kind = .localRRset gone →
    ∀ r ∈ gone, ∀ old ∈ rrsets, old.typ = r.typ → ∀ d ∈ r.rdatas, d ∉ old.rdatas

/-- Type and form are those to remove, or nothing is removed from a redirection. -/
def LocalPolicy.Fits (p oldp : LocalPolicy) : Prop :=
  (oldp.typ = p.typ ∧ oldp.isZoneMatch = p.isZoneMatch) ∨
    (oldp.typ = .localRRset ∧ (p.typ ≠ .localRRset ∨ p.Disjoint oldp))

def builtLines (parsers : Parsers) (typ : LocalPolicyType) : List String → List (Name × LocalPolicy)
  | [] => []
  | data :: datas =>
    match buildLocalPolicy parsers typ data with
    | .error _ => []
    | .ok line => line :: builtLines parsers typ datas

def remaining (take : LocalPolicy → LocalPolicy → Option LocalPolicy)
    (lines : List (Name × LocalPolicy)) (name : Name) (slot : Option LocalPolicy) :
    Option LocalPolicy :=
  lines.foldl (fun slot line => if line.1 = name then slot.bind (take line.2) else slot) slot

section policies

variable {p oldp left : LocalPolicy}

theorem without_eq (p oldp : LocalPolicy) : p.without oldp =
    if oldp.typ = p.typ ∧ oldp.isZoneMatch = p.isZoneMatch then p.removeFrom oldp
    else some oldp := by
  unfold LocalPolicy.without
  split_ifs with hsame
  · by_cases hold : oldp.typ = .localRRset
    · obtain ⟨rrsets, hkind⟩ := typ_eq_localRRset.mp hold
      obtain ⟨gone, hgone⟩ := typ_eq_localRRset.mp (hsame.1 ▸ hold)
      simp only [removeFrom_redirect hkind hgone, hkind, hgone]
    · rw [removeFrom_gone hold]
      split
      · next hkind _ => exact absurd (typ_eq_localRRset.mpr ⟨_, hkind⟩) hold
      · rfl
  · rfl

theorem removeFrom_same (hleft : p.removeFrom oldp = some left) :
    left.typ = oldp.typ ∧ left.isZoneMatch = oldp.isZoneMatch := by
  unfold LocalPolicy.removeFrom at hleft
  split at hleft
  · next hkind _ =>
    split_ifs at hleft
    cases hleft
    exact ⟨by simp [LocalPolicy.typ, hkind], rfl⟩
  · cases hleft
    exact ⟨rfl, rfl⟩
  · cases hleft

theorem removeFrom_eq_self_iff (hp : p.Single) (hold : oldp.WellFormed) :
    p.removeFrom oldp = some oldp ↔
      oldp.typ = .localRRset ∧ (p.typ ≠ .localRRset ∨ p.Disjoint oldp) := by
  by_cases htyp : oldp.typ = .localRRset
  · by_cases hptyp : p.typ = .localRRset
    · obtain ⟨rrsets, hkind⟩ := typ_eq_localRRset.mp htyp
      obtain ⟨gone, hgone⟩ := typ_eq_localRRset.mp hptyp
      obtain ⟨name, typ, ttl, d, rfl⟩ := hp gone hgone
      obtain ⟨hne, -, hrdatas⟩ := hold rrsets hkind
      have hdisjoint : p.Disjoint oldp ↔
          dropRRset rrsets ⟨name, typ, .internet, ttl, [d]⟩ = rrsets := by
        have hdrop : ∀ old ∈ rrsets, dropRdatas ⟨name, typ, .internet, ttl, [d]⟩ old = some old ↔
            (old.typ = typ → d ∉ old.rdatas) :=
          fun old hmem => dropRdatas_eq_self_iff rfl (hrdatas old hmem)
        rw [dropRRset_eq_self_iff, forall₂_congr hdrop]
        simp [LocalPolicy.Disjoint, hkind, hgone]
      have hfrom : p.removeFrom oldp =
          if dropRRset rrsets ⟨name, typ, .internet, ttl, [d]⟩ = [] then none
          else some ⟨oldp.isZoneMatch, .localRRset
            (dropRRset rrsets ⟨name, typ, .internet, ttl, [d]⟩)⟩ := removeFrom_redirect hkind hgone
      rw [hfrom, hdisjoint]
      simp only [htyp, hptyp, ne_eq, not_true_eq_false, false_or, true_and]
      constructor
      · intro heq
        split_ifs at heq
        have hkept := congrArg LocalPolicy.kind (Option.some.inj heq)
        rw [hkind] at hkept
        exact PolicyKind.localRRset.inj hkept
      · intro heq
        rw [heq, if_neg hne, ← hkind]
    · exact iff_of_true (removeFrom_kept htyp hptyp) ⟨htyp, .inl hptyp⟩
  · rw [removeFrom_gone htyp]
    simp [htyp]

theorem removeFrom_eq_without_iff (hp : p.Single) (hold : oldp.WellFormed) :
    p.removeFrom oldp = p.without oldp ↔ p.Fits oldp := by
  rw [without_eq, LocalPolicy.Fits]
  split_ifs with hsame
  · exact iff_of_true rfl (.inl hsame)
  · rw [removeFrom_eq_self_iff hp hold, or_iff_right hsame]

theorem LocalPolicy.Fits.removeFrom {p' : LocalPolicy} (hfits : p.Fits oldp)
    (hleft : p'.removeFrom oldp = some left) : p.Fits left := by
  obtain ⟨htyp, hform⟩ := removeFrom_same hleft
  rw [LocalPolicy.Fits, htyp, hform]
  refine hfits.imp_right fun hkept => ⟨hkept.1, hkept.2.imp_right fun hdisjoint => ?_⟩
  obtain ⟨rrsets, hkind⟩ := typ_eq_localRRset.mp hkept.1
  intro rest gone hrest hgone
  -- What is left of an RRset has no more rdatas than it had.
  have hsub : ∀ old ∈ rest, ∃ old' ∈ rrsets, old'.typ = old.typ ∧ old.rdatas ⊆ old'.rdatas := by
    by_cases hp' : p'.typ = .localRRset
    · obtain ⟨gone', hgone'⟩ := typ_eq_localRRset.mp hp'
      rw [removeFrom_redirect hkind hgone'] at hleft
      split_ifs at hleft
      cases hleft
      cases hrest
      exact foldl_dropRRset_subset gone' rrsets
    · rw [removeFrom_kept hkept.1 hp'] at hleft
      cases hleft
      cases hkind.symm.trans hrest
      exact fun old hold => ⟨old, hold, rfl, List.Subset.refl _⟩
  intro r hr old hold holdtyp d hd hmem
  obtain ⟨old', hold', htyp', hrdatas⟩ := hsub old hold
  exact hdisjoint rrsets gone hkind hgone r hr old' hold' (htyp'.trans holdtyp) d hd (hrdatas hmem)

end policies

section runs

variable {take : LocalPolicy → LocalPolicy → Option LocalPolicy}

theorem remaining_none (take : LocalPolicy → LocalPolicy → Option LocalPolicy)
    (lines : List (Name × LocalPolicy)) (name : Name) : remaining take lines name none = none := by
  unfold remaining
  induction lines with
  | nil => rfl
  | cons line lines ih => simp [ih]

variable {lines : List (Name × LocalPolicy)}

theorem remaining_of_not_mem {name : Name} (hname : ∀ line ∈ lines, line.1 ≠ name)
    (slot : Option LocalPolicy) : remaining take lines name slot = slot := by
  unfold remaining
  induction lines with
  | nil => rfl
  | cons line lines ih =>
    rw [foldl_cons, if_neg (hname line mem_cons_self)]
    exact ih fun line' hline' => hname line' (mem_cons_of_mem _ hline')

theorem single_of_mem_builtLines {parsers : Parsers} {typ : LocalPolicyType} {datas : List String}
    {line : Name × LocalPolicy} (hline : line ∈ builtLines parsers typ datas) :
    line.2.Single := by
  induction datas with
  | nil => cases hline
  | cons data datas ih =>
    unfold builtLines at hline
    split at hline
    · cases hline
    · next line' hbuild =>
      rcases mem_cons.mp hline with rfl | hline
      · exact (single_of_build hbuild).2
      · exact ih hline

theorem remaining_without {name : Name} {slot : Option LocalPolicy}
    (hlines : ∀ line ∈ lines, line.2.Single) (hslot : ∀ oldp, slot = some oldp → oldp.WellFormed ∧
      ∀ line ∈ lines, line.1 = name → line.2.Fits oldp) :
    remaining LocalPolicy.removeFrom lines name slot =
      remaining LocalPolicy.without lines name slot := by
  unfold remaining
  induction lines generalizing slot with
  | nil => rfl
  | cons line lines ih =>
    have hsingle : ∀ line' ∈ lines, line'.2.Single :=
      fun line' hline' => hlines line' (mem_cons_of_mem _ hline')
    rw [foldl_cons, foldl_cons]
    by_cases hname : line.1 = name
    · rw [if_pos hname, if_pos hname]
      cases slot with
      | none => exact ih hsingle fun oldp hold => by cases hold
      | some oldp =>
        obtain ⟨hwf, hfits⟩ := hslot oldp rfl
        have hstep := (removeFrom_eq_without_iff (hlines line mem_cons_self) hwf).mpr
          (hfits line mem_cons_self hname)
        rw [bind_some, bind_some, ← hstep]
        refine ih hsingle fun left hleft => ⟨hwf.removeFrom hleft, fun line' hline' hname' => ?_⟩
        exact (hfits line' (mem_cons_of_mem _ hline') hname').removeFrom hleft
    · rw [if_neg hname, if_neg hname]
      refine ih hsingle fun oldp hold => ⟨(hslot oldp hold).1, fun line' hline' => ?_⟩
      exact (hslot oldp hold).2 line' (mem_cons_of_mem _ hline')

variable {P : Type} [NameTree P LocalPolicy] [LawfulNameTree P LocalPolicy]
  [ErasableNameTree P LocalPolicy] [LawfulErasableNameTree P LocalPolicy]

theorem policyAt_removePolicies (parsers : Parsers) {policies : Policies P}
    (hwf : WellFormed (tables policies)) (view : String) (typ : LocalPolicyType)
    (datas : List String) :
    (∀ v, (tables (removePolicies parsers policies view typ datas).1 v).isSome =
      (tables policies v).isSome) ∧
    ∀ v m, policyAt (tables (removePolicies parsers policies view typ datas).1) v m =
      if v = view then remaining LocalPolicy.removeFrom (builtLines parsers typ datas) m
        (policyAt (tables policies) v m)
      else policyAt (tables policies) v m := by
  induction datas generalizing policies with
  | nil =>
    refine ⟨fun v => rfl, fun v m => ?_⟩
    split_ifs <;> rfl
  | cons data datas ih =>
    rcases removePolicies_cons parsers hwf view typ data datas with ⟨e, hbuild, hsame⟩ |
      ⟨name, p, hbuild, ⟨hview, hsame⟩ | ⟨hview, policies', htables, heq⟩⟩
    · rw [hsame]
      refine ⟨fun v => rfl, fun v m => ?_⟩
      simp [builtLines, hbuild, remaining]
    · rw [hsame]
      refine ⟨fun v => rfl, fun v m => ?_⟩
      split_ifs with hv
      · have hnone : policyAt (tables policies) v m = none := by simp [policyAt, hv, hview]
        rw [hnone, remaining_none]
      · rfl
    · have hwf' : WellFormed (tables policies') := by
        rw [htables]
        refine hwf.setPolicy fun q hq => ?_
        obtain ⟨oldp, hold, hleft⟩ := bind_eq_some_iff.mp hq
        exact (hwf view name oldp hold).removeFrom hleft
      obtain ⟨hviews, hpolicies⟩ := ih hwf'
      rw [heq]
      refine ⟨fun v => ?_, fun v m => ?_⟩
      · rw [hviews v, htables, setPolicy]
        by_cases hv : v = view
        · rw [hv, Function.update_self, hview]
          rfl
        · rw [Function.update_of_ne hv]
      · rw [hpolicies v m, htables, policyAt_setPolicy]
        by_cases hv : v = view
        · subst hv
          simp only [true_and, if_true, builtLines, hbuild, remaining, foldl_cons]
          by_cases hm : m = name
          · rw [if_pos hm, if_pos hm.symm, hm]
          · rw [if_neg hm, if_neg (Ne.symm hm)]
        · simp [hv]

end runs

def deniedZone : Policies (NameTable LocalPolicy) :=
  performAll exampleParsers [.add "default" .nxDomain ["*.a."],
    .add "default" .exceptionDomain ["www.a."]]

def twoAddresses : List Call :=
  [.add "default" .localRRset ["*.a. 60 A 1.1.1.1", "*.a. 60 A 2.2.2.2"]]

end Vanguard.LocalData
