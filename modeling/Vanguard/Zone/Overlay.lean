import Vanguard.Zone.Records

namespace Vanguard.Zone

open Library List ZoneMap Entry

/-- No CNAME beside another type, and no delegation at a wildcard. -/
structure ZoneMap.Legal (m : ZoneMap) : Prop where
  cnameAlone : m.CnameAlone
  noWildcardCut : ∀ n, n.isWildCard = true → m n .ns = none

theorem ZoneMap.Legal.offer {origin : Name} {m : ZoneMap} (hm : m.Legal) (r : RRset Rdata) :
    (m.offer origin r).Legal := by
  by_cases haccepts : m.Accepts origin r
  · have hoffer := offer_of_accepts haccepts
    obtain ⟨hcut, -, hother, hcname⟩ := haccepts
    refine ⟨fun n t hsome ht => ?_, fun n hwild => ?_⟩
    · rw [hoffer] at hsome ht
      by_contra hne
      split at hsome
      · next hkey =>
        obtain ⟨rfl, htyp⟩ := hkey
        rw [if_neg fun heq => hne (heq.2.trans htyp.symm), hcname htyp.symm t hne] at ht
        cases ht
      · split at ht
        · next hkey =>
          obtain ⟨rfl, rfl⟩ := hkey
          rw [hother hne] at hsome
          cases hsome
        · exact hne (hm.cnameAlone n t hsome ht)
    · rw [hoffer, if_neg]
      · exact hm.noWildcardCut n hwild
      · rintro ⟨rfl, htyp⟩
        exact hcut ⟨htyp.symm, hwild⟩
  · rw [offer_of_not_accepts haccepts]
    exact hm

theorem ZoneMap.Legal.foldl_offer {origin : Name} {m : ZoneMap} (hm : m.Legal)
    (rs : List (RRset Rdata)) : (rs.foldl (ZoneMap.offer origin) m).Legal := by
  induction rs generalizing m with
  | nil => exact hm
  | cons r rs ih => exact ih (hm.offer r)

structure WholeZone (origin : Name) (soa : RRset Rdata) (rs : List (RRset Rdata)) : Prop where
  soa_name : soa.name = origin
  soa_typ : soa.typ = .soa
  soa_rdatas : ∃ x, soa.rdatas = [.soa x]
  typ_ne_soa : ∀ r ∈ rs, r.typ ≠ .soa
  inZone : ∀ r ∈ rs, r.name.isSubDomain origin = true
  rdatas_ne_nil : ∀ r ∈ rs, r.rdatas ≠ []
  ttl_eq : ∀ r ∈ rs, ∀ r' ∈ rs, r'.name = r.name → r'.typ = r.typ → r'.ttl = r.ttl
  cname : ∀ r ∈ rs, r.typ = .cname → r.name ≠ origin ∧
    ∀ r' ∈ rs, r'.name = r.name → r'.typ = .cname ∧ r'.rdatas = r.rdatas
  ns : ∃ r ∈ rs, r.name = origin ∧ r.typ = .ns

section

variable (origin : Name) (old : ZoneMap) (soa : RRset Rdata) (rs : List (RRset Rdata))

/-- What a node of the old map must be like for its records to be those of the new version. -/
structure CoveredAt (n : Name) : Prop where
  soa_or : ∀ e, n = origin → old n .soa = some e → newer e.rdatas soa.rdatas = true ∨
    e.ttl = soa.ttl ∧ ∀ x, x ∈ e.rdatas ↔ x ∈ soa.rdatas
  cname_or : ∀ e, old n .cname = some e → (∃ r ∈ rs, r.name = n ∧ r.typ = .cname) ∨
    e.rdatas = [] ∧ ∀ r ∈ soa :: rs, r.name ≠ n
  rdatas_mem : ∀ t e, old n t = some e → t ≠ .cname → ¬(n = origin ∧ t = .soa) →
    (∀ x ∈ e.rdatas, ∃ r ∈ rs, r.name = n ∧ r.typ = t ∧ x ∈ r.rdatas) ∧
    ∀ r ∈ rs, r.name = n → r.typ ≠ .cname

structure Covered : Prop where
  noWildcardCut : ∀ r ∈ rs, ¬(r.typ = .ns ∧ r.name.isWildCard = true)
  node : ∀ n, CoveredAt origin old soa rs n

end

section

variable {origin : Name} {old : ZoneMap} {soa : RRset Rdata} {rs : List (RRset Rdata)} {n : Name}
  {t : RRType} {m : ZoneMap}

theorem withKey_cons_of_ne {r : RRset Rdata} (hne : ¬(r.name = n ∧ r.typ = t)) :
    withKey n t (r :: rs) = withKey n t rs := by
  simp [withKey, hne]

theorem withKey_eq_nil (h : ∀ r ∈ rs, r.name = n → r.typ ≠ t) : withKey n t rs = [] :=
  eq_nil_iff_forall_not_mem.mpr fun r hr =>
    h r (mem_withKey.mp hr).1 (mem_withKey.mp hr).2.1 (mem_withKey.mp hr).2.2

theorem ZoneMap.Legal.eq_none (hlegal : old.Legal) {e : Entry} (hcname : old n .cname = some e)
    (ht : t ≠ .cname) : old n t = none := by
  by_contra hsome
  exact ht (hlegal.cnameAlone n t (by simp [hcname]) (Option.isSome_iff_ne_none.mpr hsome))

theorem foldl_offer_wildcard (hwild : n.isWildCard = true) (m : ZoneMap) :
    rs.foldl (ZoneMap.offer origin) m n .ns = m n .ns := by
  induction rs generalizing m with
  | nil => rfl
  | cons r rs ih =>
    rw [foldl_cons, ih]
    by_cases haccepts : m.Accepts origin r
    · rw [offer_of_accepts haccepts, if_neg]
      rintro ⟨rfl, htyp⟩
      exact haccepts.1 ⟨htyp.symm, hwild⟩
    · rw [offer_of_not_accepts haccepts]

theorem foldl_offer_cname_blocked (hcname : ∀ r ∈ rs, r.name = n → r.typ = .cname) (ht : t ≠ .cname)
    (hnode : m n t ≠ none) : rs.foldl (ZoneMap.offer origin) m n = m n := by
  refine foldl_offer_of_refused ?_
  rintro r hr rfl m' hm' haccepts
  exact hnode (hm' ▸ haccepts.2.2.2 (hcname r hr rfl) t ht)

section

variable (hcname : ∀ r ∈ rs, r.name = n → r.typ ≠ .cname)

include hcname

theorem foldl_offer_blocked (hnode : m n .cname ≠ none) :
    rs.foldl (ZoneMap.offer origin) m n = m n := by
  refine foldl_offer_of_refused ?_
  rintro r hr rfl m' hm' haccepts
  exact hnode (hm' ▸ haccepts.2.2.1 (hcname r hr rfl))

end

variable (hlegal : old.Legal) (hzone : WholeZone origin soa rs)
  (hcut : ∀ r ∈ rs, ¬(r.typ = .ns ∧ r.name.isWildCard = true))

include hzone

theorem matches_soa_iff {e : Option Entry} :
    Entry.Matches (some (Entry.add e soa)) [soa] ↔ ∀ e', e = some e' →
      newer e'.rdatas soa.rdatas = true ∨
      e'.ttl = soa.ttl ∧ ∀ x, x ∈ e'.rdatas ↔ x ∈ soa.rdatas := by
  have hsame : Entry.Matches (some (.ofRRset soa)) [soa] :=
    matches_some_iff.mpr fun ttl x => by
    simp
  cases e with
  | none => exact iff_of_true hsame nofun
  | some e' =>
    by_cases hnewer : newer e'.rdatas soa.rdatas = true
    · simp only [Entry.add, hzone.soa_typ, if_true, hnewer]
      exact iff_of_true hsame fun e'' he'' => .inl (Option.some.inj he'' ▸ hnewer)
    · simp only [Entry.add, hzone.soa_typ, if_true, if_false, matches_some_iff,
        mem_singleton, exists_eq_left, Option.some.injEq, forall_eq', hnewer, false_or,
        Bool.false_eq_true]
      obtain ⟨x, hx⟩ := hzone.soa_rdatas
      constructor
      · intro hmatches
        obtain ⟨httl, -⟩ := (hmatches soa.ttl (.soa x)).mpr ⟨rfl, by simp [hx]⟩
        refine ⟨httl.symm, fun y => ?_⟩
        simpa [httl] using hmatches soa.ttl y
      · rintro ⟨httl, hmem⟩ ttl y
        rw [httl, hmem]

theorem foldl_offer_cname (hcname : ∀ r ∈ rs, r.name = n → r.typ = .cname)
    (hnode : ∀ t ≠ .cname, m n t = none) (t : RRType) :
    rs.foldl (ZoneMap.offer origin) m n t = Entry.addAll (m n t) (withKey n t rs) := by
  refine foldl_offer_of_accepts (fun entries => ∀ t ≠ .cname, entries t = none) hnode ?_ t
  rintro r hr rfl m' hm'
  have htyp := hcname r hr rfl
  have hns : RRType.cname ≠ .ns := by decide
  have haccepts : m'.Accepts origin r := ⟨fun hcut => hns (htyp.symm.trans hcut.1),
    hzone.inZone r hr, fun hne => absurd htyp hne, fun _ => hm'⟩
  refine ⟨haccepts, fun k hk => ?_⟩
  rw [offer_of_accepts haccepts, if_neg fun heq => hk (heq.2.trans htyp)]
  exact hm' k hk

section

variable (hcname : ∀ r ∈ rs, r.name = n → r.typ ≠ .cname)

include hcname

theorem WholeZone.merged :
    ∃ ttl, ∀ r ∈ withKey n t rs, r.typ ≠ .soa ∧ r.typ ≠ .cname ∧ r.ttl = ttl := by
  by_cases hkey : ∃ r ∈ rs, r.name = n ∧ r.typ = t
  · obtain ⟨r, hr, rfl, rfl⟩ := hkey
    refine ⟨r.ttl, fun r' hr' => ?_⟩
    obtain ⟨hmem, hname, htyp⟩ := mem_withKey.mp hr'
    exact ⟨hzone.typ_ne_soa r' hmem, hcname r' hmem hname, hzone.ttl_eq r hr r' hmem hname htyp⟩
  · refine ⟨0, fun r' hr' => ?_⟩
    obtain ⟨hmem, hname, htyp⟩ := mem_withKey.mp hr'
    exact absurd ⟨r', hmem, hname, htyp⟩ hkey

include hcut

theorem foldl_offer_merged (hnode : m n .cname = none) (t : RRType) :
    rs.foldl (ZoneMap.offer origin) m n t = Entry.addAll (m n t) (withKey n t rs) := by
  refine foldl_offer_of_accepts (fun entries => entries .cname = none) hnode ?_ t
  rintro r hr rfl m' hm'
  have haccepts : m'.Accepts origin r := ⟨hcut r hr, hzone.inZone r hr, fun _ => hm', fun htyp =>
    absurd htyp (hcname r hr rfl)⟩
  refine ⟨haccepts, ?_⟩
  show m'.offer origin r r.name .cname = none
  rw [offer_of_accepts haccepts, if_neg fun heq => hcname r hr rfl heq.2.symm]
  exact hm'

theorem matches_merged_iff (hnode : m n .cname = none) (t : RRType) :
    Entry.Matches (rs.foldl (ZoneMap.offer origin) m n t) (withKey n t rs) ↔
      ∀ x ∈ Entry.rdatasOf (m n t), ∃ r ∈ rs, r.name = n ∧ r.typ = t ∧ x ∈ r.rdatas := by
  obtain ⟨ttl, hmerged⟩ := hzone.merged (t := t) hcname
  rw [foldl_offer_merged hzone hcut hcname hnode, matches_addAll_iff hmerged]
  refine forall₂_congr fun x _ => exists_congr fun r => ?_
  rw [mem_withKey, and_assoc, and_assoc]

include hlegal

theorem overlay_at_others (horigin : n ≠ origin) :
    (∀ t, Entry.Matches (rs.foldl (ZoneMap.offer origin) old n t) (withKey n t rs)) ↔
      CoveredAt origin old soa rs n := by
  rcases hnode : old n .cname with _ | e
  · constructor
    · intro hall
      refine ⟨fun _ heq => absurd heq horigin, fun e he => (nomatch hnode.symm.trans he), ?_⟩
      intro t e he _ _
      have hmatches := (matches_merged_iff hzone hcut hcname hnode t).mp (hall t)
      rw [he] at hmatches
      exact ⟨hmatches, hcname⟩
    · intro hcovered t
      refine (matches_merged_iff hzone hcut hcname hnode t).mpr ?_
      rcases hold : old n t with _ | e
      · exact nofun
      · have ht : t ≠ .cname := fun ht => nomatch (ht ▸ hold).symm.trans hnode
        exact (hcovered.rdatas_mem t e hold ht fun heq => horigin heq.1).1
  · have hblocked : rs.foldl (ZoneMap.offer origin) old n = old n :=
      foldl_offer_blocked hcname (by simp [hnode])
    have hnone {t : RRType} (ht : t ≠ .cname) : old n t = none := hlegal.eq_none hnode ht
    rw [hblocked]
    constructor
    · intro hall
      refine ⟨fun _ heq => absurd heq horigin, ?_, ?_⟩
      · intro e' he'
        cases hnode.symm.trans he'
        have hmatches := hall .cname
        rw [withKey_eq_nil hcname, hnode, matches_nil_iff] at hmatches
        refine .inr ⟨hmatches, forall_mem_cons.mpr ⟨?_, fun r hr hname => ?_⟩⟩
        · exact fun heq => horigin (heq.symm.trans hzone.soa_name)
        · have hmatches := hall r.typ
          rw [hnone (hcname r hr hname)] at hmatches
          exact not_matches_none (mem_withKey.mpr ⟨hr, hname, rfl⟩)
            (hzone.rdatas_ne_nil r hr) hmatches
      · exact fun t e' he' ht => (nomatch (hnone ht).symm.trans he')
    · intro hcovered t
      rcases hcovered.cname_or e hnode with ⟨r, hr, hname, htyp⟩ | ⟨hrdatas, hnames⟩
      · exact absurd htyp (hcname r hr hname)
      · rw [withKey_eq_nil fun r hr hname _ => hnames r (mem_cons_of_mem _ hr) hname,
          matches_nil_iff]
        by_cases ht : t = .cname
        · rw [ht, hnode]
          exact hrdatas
        · rw [hnone ht]
          rfl

end

include hlegal

theorem overlay_at_cname {r : RRset Rdata} (hr : r ∈ rs) (htyp : r.typ = .cname) :
    (∀ t, Entry.Matches (rs.foldl (ZoneMap.offer origin) old r.name t) (withKey r.name t rs)) ↔
      CoveredAt origin old soa rs r.name := by
  obtain ⟨horigin, hsame⟩ := hzone.cname r hr htyp
  have hcname : ∀ r' ∈ rs, r'.name = r.name → r'.typ = .cname := fun r' hr' hname =>
    (hsame r' hr' hname).1
  have hkey : r ∈ withKey r.name .cname rs := mem_withKey.mpr ⟨hr, rfl, htyp⟩
  by_cases hothers : ∀ t ≠ .cname, old r.name t = none
  · refine iff_of_true (fun t => ?_) ⟨?_, ?_, ?_⟩
    · rw [foldl_offer_cname hzone hcname hothers]
      by_cases ht : t = .cname
      · subst ht
        refine matches_addAll_cname (r := r) (ne_nil_of_mem hkey) fun r' hr' => ?_
        obtain ⟨hmem, hname, htyp'⟩ := mem_withKey.mp hr'
        exact ⟨htyp', hzone.ttl_eq r hr r' hmem hname (htyp'.trans htyp.symm),
          (hsame r' hmem hname).2⟩
      · rw [withKey_eq_nil fun r' hr' hname => (hcname r' hr' hname).trans_ne (Ne.symm ht), hothers t ht]
        exact matches_nil_iff.mpr rfl
    · exact fun _ heq => absurd heq horigin
    · exact fun _ _ => .inl ⟨r, hr, rfl, htyp⟩
    · exact fun t e he ht => absurd (hothers t ht ▸ he) nofun
  · push Not at hothers
    obtain ⟨t, ht, hnode⟩ := hothers
    obtain ⟨e, he⟩ := Option.ne_none_iff_exists'.mp hnode
    have hnone : old r.name .cname = none := by
      by_contra hsome
      obtain ⟨e', he'⟩ := Option.ne_none_iff_exists'.mp hsome
      exact hnode (hlegal.eq_none he' ht)
    refine iff_of_false (fun hall => ?_) fun hcovered => ?_
    · have hmatches := hall .cname
      rw [foldl_offer_cname_blocked hcname ht hnode, hnone] at hmatches
      exact not_matches_none hkey (hzone.rdatas_ne_nil r hr) hmatches
    · exact (hcovered.rdatas_mem t e he ht fun heq => horigin heq.1).2 r hr rfl htyp

include hcut in
theorem overlay_at_origin :
    (∀ t, Entry.Matches (rs.foldl (ZoneMap.offer origin) (old.offer origin soa) origin t)
      (withKey origin t (soa :: rs))) ↔ CoveredAt origin old soa rs origin := by
  have hcname : ∀ r ∈ rs, r.name = origin → r.typ ≠ .cname := fun r hr hname htyp =>
    (hzone.cname r hr htyp).1 hname
  have hrest : withKey origin .soa rs = [] := withKey_eq_nil fun r hr _ => hzone.typ_ne_soa r hr
  have hsoaKey : withKey origin .soa (soa :: rs) = [soa] := by
    have hfirst : soa.name = origin ∧ soa.typ = .soa := ⟨hzone.soa_name, hzone.soa_typ⟩
    unfold withKey at hrest ⊢
    rw [filter_cons_of_pos (by simpa using hfirst), hrest]
  have hne : RRType.soa ≠ .cname := by decide
  rcases hnode : old origin .cname with _ | e
  · have haccepts : old.Accepts origin soa := by
      refine ⟨fun hns => ?_, ?_, fun _ => hzone.soa_name ▸ hnode, fun htyp => ?_⟩
      · exact absurd (hzone.soa_typ.symm.trans hns.1) (by decide)
      · simp [hzone.soa_name]
      · exact absurd (hzone.soa_typ.symm.trans htyp) hne
    have hoffer (t : RRType) : old.offer origin soa origin t =
        if t = .soa then some (Entry.add (old origin .soa) soa) else old origin t := by
      rw [offer_of_accepts haccepts, hzone.soa_name, hzone.soa_typ]
      simp
    have hnode' : old.offer origin soa origin .cname = none := by
      rw [hoffer, if_neg hne.symm, hnode]
    have hsoa : Entry.Matches
        (rs.foldl (ZoneMap.offer origin) (old.offer origin soa) origin .soa)
        (withKey origin .soa (soa :: rs)) ↔ ∀ e, old origin .soa = some e →
          newer e.rdatas soa.rdatas = true ∨
          e.ttl = soa.ttl ∧ ∀ x, x ∈ e.rdatas ↔ x ∈ soa.rdatas := by
      rw [foldl_offer_merged hzone hcut hcname hnode', hrest, hsoaKey, hoffer, if_pos rfl]
      exact matches_soa_iff hzone
    have hothers (t : RRType) (ht : t ≠ .soa) : Entry.Matches
        (rs.foldl (ZoneMap.offer origin) (old.offer origin soa) origin t)
        (withKey origin t (soa :: rs)) ↔ ∀ x ∈ Entry.rdatasOf (old origin t),
          ∃ r ∈ rs, r.name = origin ∧ r.typ = t ∧ x ∈ r.rdatas := by
      rw [withKey_cons_of_ne fun heq => ht (heq.2.symm.trans hzone.soa_typ),
        matches_merged_iff hzone hcut hcname hnode', hoffer, if_neg ht]
    constructor
    · intro hall
      refine ⟨fun e _ => hsoa.mp (hall .soa) e, fun e he => (nomatch hnode.symm.trans he), ?_⟩
      intro t e he _ hkey
      have hmatches := (hothers t fun ht => hkey ⟨rfl, ht⟩).mp (hall t)
      rw [he] at hmatches
      exact ⟨hmatches, hcname⟩
    · intro hcovered t
      by_cases ht : t = .soa
      · subst ht
        exact hsoa.mpr fun e he => hcovered.soa_or e rfl he
      · refine (hothers t ht).mpr ?_
        rcases hold : old origin t with _ | e
        · exact nofun
        · have htyp : t ≠ .cname := fun htyp => nomatch (htyp ▸ hold).symm.trans hnode
          exact (hcovered.rdatas_mem t e hold htyp fun heq => ht heq.2).1
  · have hrefused : ¬old.Accepts origin soa := fun haccepts => by
      have hnone := haccepts.2.2.1 fun htyp => hne (hzone.soa_typ.symm.trans htyp)
      rw [hzone.soa_name, hnode] at hnone
      cases hnone
    have hblocked : rs.foldl (ZoneMap.offer origin) old origin = old origin :=
      foldl_offer_blocked hcname (by simp [hnode])
    rw [offer_of_not_accepts hrefused, hblocked]
    refine iff_of_false (fun hall => ?_) fun hcovered => ?_
    · have hmatches := hall .soa
      obtain ⟨x, hx⟩ := hzone.soa_rdatas
      rw [hlegal.eq_none hnode hne, hsoaKey] at hmatches
      exact not_matches_none (mem_singleton_self soa) (by simp [hx]) hmatches
    · rcases hcovered.cname_or e hnode with ⟨r, hr, hname, htyp⟩ | ⟨-, hnames⟩
      · exact hcname r hr hname htyp
      · exact hnames soa mem_cons_self hzone.soa_name

theorem overlay_iff :
    ((soa :: rs).foldl (ZoneMap.offer origin) old).records = recordsOf (soa :: rs) ↔
      Covered origin old soa rs := by
  rw [records_eq_iff, foldl_cons]
  by_cases hcut : ∀ r ∈ rs, ¬(r.typ = .ns ∧ r.name.isWildCard = true)
  · refine (forall_congr' fun n => ?_).trans ⟨fun hall => ⟨hcut, hall⟩, Covered.node⟩
    by_cases horigin : n = origin
    · subst horigin
      exact overlay_at_origin hlegal hzone hcut
    · have hsoa : soa.name ≠ n := fun hname => horigin (hname.symm.trans hzone.soa_name)
      have hkey (t : RRType) : withKey n t (soa :: rs) = withKey n t rs :=
        withKey_cons_of_ne fun heq => hsoa heq.1
      have hold : rs.foldl (ZoneMap.offer origin) (old.offer origin soa) n =
          rs.foldl (ZoneMap.offer origin) old n :=
        foldl_offer_congr (offer_of_name_ne hsoa) rs
      simp only [hkey, hold]
      by_cases hcname : ∃ r ∈ rs, r.name = n ∧ r.typ = .cname
      · obtain ⟨r, hr, rfl, htyp⟩ := hcname
        exact overlay_at_cname hlegal hzone hr htyp
      · exact overlay_at_others hlegal hzone hcut (fun r hr hname htyp =>
          hcname ⟨r, hr, hname, htyp⟩) horigin
  · push Not at hcut
    obtain ⟨r, hr, hns, hwild⟩ := hcut
    refine iff_of_false (fun hall => ?_) fun hcovered => hcovered.noWildcardCut r hr ⟨hns, hwild⟩
    have hkept : (soa :: rs).foldl (ZoneMap.offer origin) old r.name .ns = old r.name .ns :=
      foldl_offer_wildcard hwild old
    rw [foldl_cons, hlegal.noWildcardCut r.name hwild] at hkept
    have hmatches := hall r.name .ns
    rw [hkept] at hmatches
    exact not_matches_none (mem_withKey.mpr ⟨mem_cons_of_mem _ hr, rfl, hns⟩)
      (hzone.rdatas_ne_nil r hr) hmatches

end

end Vanguard.Zone
