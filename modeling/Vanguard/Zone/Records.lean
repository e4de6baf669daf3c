import Vanguard.Zone.Offers

namespace Vanguard.Zone

open Library List

structure Record where
  name : Name
  typ : RRType
  ttl : UInt32
  rdata : Rdata
  deriving DecidableEq, Repr

def ZoneMap.records (m : ZoneMap) : Set Record :=
  {x | ∃ e, m x.name x.typ = some e ∧ x.ttl = e.ttl ∧ x.rdata ∈ e.rdatas}

def recordsOf (rs : List (RRset Rdata)) : Set Record :=
  {x | ∃ r ∈ rs, x.name = r.name ∧ x.typ = r.typ ∧ x.ttl = r.ttl ∧ x.rdata ∈ r.rdatas}

def ZoneMap.CnameAlone (m : ZoneMap) : Prop :=
  ∀ n t, (m n .cname).isSome = true → (m n t).isSome = true → t = .cname

section offer

variable {origin : Name} {m : ZoneMap} {r : RRset Rdata}

theorem ZoneMap.offer_of_accepts (haccepts : m.Accepts origin r) (n : Name) (t : RRType) :
    m.offer origin r n t =
      if n = r.name ∧ t = r.typ then some (Entry.add (m r.name r.typ) r) else m n t := by
  rw [offer, if_pos haccepts]
  rfl

theorem ZoneMap.offer_of_not_accepts (hrefused : ¬m.Accepts origin r) : m.offer origin r = m :=
  if_neg hrefused

variable {n : Name}

theorem ZoneMap.offer_of_name_ne (hne : r.name ≠ n) : m.offer origin r n = m n := by
  by_cases haccepts : m.Accepts origin r
  · funext t
    rw [offer_of_accepts haccepts, if_neg fun heq => hne heq.1.symm]
  · rw [offer_of_not_accepts haccepts]

theorem ZoneMap.offer_congr {m m' : ZoneMap} (hm : m n = m' n) (r : RRset Rdata) :
    m.offer origin r n = m'.offer origin r n := by
  by_cases hname : r.name = n
  · subst hname
    have haccepts : m.Accepts origin r ↔ m'.Accepts origin r := by simp only [Accepts, hm]
    by_cases hm' : m'.Accepts origin r
    · funext t
      rw [offer_of_accepts (haccepts.mpr hm'), offer_of_accepts hm', hm]
    · rw [offer_of_not_accepts (haccepts.not.mpr hm'), offer_of_not_accepts hm', hm]
  · rw [offer_of_name_ne hname, offer_of_name_ne hname, hm]

theorem ZoneMap.foldl_offer_congr {m m' : ZoneMap} (hm : m n = m' n) (rs : List (RRset Rdata)) :
    rs.foldl (offer origin) m n = rs.foldl (offer origin) m' n := by
  induction rs generalizing m m' with
  | nil => exact hm
  | cons r rs ih => exact ih (offer_congr hm r)

variable {rs : List (RRset Rdata)}

theorem ZoneMap.foldl_offer_of_refused {m : ZoneMap}
    (hrefused : ∀ r ∈ rs, r.name = n → ∀ m' : ZoneMap, m' n = m n → ¬m'.Accepts origin r) :
    rs.foldl (offer origin) m n = m n := by
  suffices hfold : ∀ m' : ZoneMap, m' n = m n → rs.foldl (offer origin) m' n = m n from hfold m rfl
  induction rs with
  | nil => exact fun m' hm' => hm'
  | cons r rs ih =>
    intro m' hm'
    refine ih (fun r' hr' => hrefused r' (mem_cons_of_mem _ hr')) _ ?_
    by_cases hname : r.name = n
    · rw [offer_of_not_accepts (hrefused r mem_cons_self hname m' hm'), hm']
    · rw [offer_of_name_ne hname, hm']

def Entry.addAll (e : Option Entry) (rs : List (RRset Rdata)) : Option Entry :=
  rs.foldl (fun e r => some (Entry.add e r)) e

def withKey (n : Name) (t : RRType) (rs : List (RRset Rdata)) : List (RRset Rdata) :=
  rs.filter fun r => r.name = n ∧ r.typ = t

@[simp] theorem mem_withKey {t : RRType} {r : RRset Rdata} :
    r ∈ withKey n t rs ↔ r ∈ rs ∧ r.name = n ∧ r.typ = t := by
  simp [withKey]

theorem ZoneMap.foldl_offer_of_accepts (P : (RRType → Option Entry) → Prop) {m : ZoneMap}
    (hm : P (m n)) (haccepts : ∀ r ∈ rs, r.name = n → ∀ m' : ZoneMap, P (m' n) →
      m'.Accepts origin r ∧ P (m'.offer origin r n)) (t : RRType) :
    rs.foldl (offer origin) m n t = Entry.addAll (m n t) (withKey n t rs) := by
  induction rs generalizing m with
  | nil => rfl
  | cons r rs ih =>
    have hrest : ∀ r' ∈ rs, r'.name = n → ∀ m' : ZoneMap, P (m' n) →
        m'.Accepts origin r' ∧ P (m'.offer origin r' n) :=
      fun r' hr' => haccepts r' (mem_cons_of_mem _ hr')
    by_cases hname : r.name = n
    · obtain ⟨hr, hkept⟩ := haccepts r mem_cons_self hname m hm
      rw [foldl_cons, ih hkept hrest, offer_of_accepts hr]
      subst hname
      by_cases htyp : t = r.typ
      · subst htyp
        simp [withKey, Entry.addAll]
      · simp [withKey, htyp, Ne.symm htyp]
    · rw [foldl_cons, ih (by rwa [offer_of_name_ne hname]) hrest, offer_of_name_ne hname]
      simp [withKey, hname]

end offer

def Entry.rdatasOf (e : Option Entry) : List Rdata := e.elim [] Entry.rdatas

def Entry.Matches (e : Option Entry) (rs : List (RRset Rdata)) : Prop :=
  ∀ ttl x, (∃ e', e = some e' ∧ ttl = e'.ttl ∧ x ∈ e'.rdatas) ↔ ∃ r ∈ rs, ttl = r.ttl ∧ x ∈ r.rdatas

theorem records_eq_iff {m : ZoneMap} {rs : List (RRset Rdata)} :
    m.records = recordsOf rs ↔ ∀ n t, Entry.Matches (m n t) (withKey n t rs) := by
  constructor
  · intro heq n t ttl x
    have hiff := Set.ext_iff.mp heq ⟨n, t, ttl, x⟩
    refine hiff.trans (exists_congr fun r => ?_)
    rw [mem_withKey, and_assoc]
    exact and_congr_right fun _ => by rw [and_assoc]; simp only [eq_comm]
  · intro hall
    ext ⟨n, t, ttl, x⟩
    refine (hall n t ttl x).trans (exists_congr fun r => ?_)
    rw [mem_withKey, and_assoc]
    exact and_congr_right fun _ => by rw [and_assoc]; simp only [eq_comm]

section entries

variable {e : Option Entry} {r : RRset Rdata} {rs : List (RRset Rdata)} {ttl : UInt32}

theorem Entry.not_matches_none (hr : r ∈ rs) (hrdatas : r.rdatas ≠ []) :
    ¬Entry.Matches none rs := by
  intro hmatches
  obtain ⟨x, hx⟩ := exists_mem_of_ne_nil _ hrdatas
  obtain ⟨e', he', -⟩ := (hmatches r.ttl x).mpr ⟨r, hr, rfl, hx⟩
  cases he'

theorem Entry.matches_some_iff {e' : Entry} : Entry.Matches (some e') rs ↔
    ∀ ttl x, ttl = e'.ttl ∧ x ∈ e'.rdatas ↔ ∃ r ∈ rs, ttl = r.ttl ∧ x ∈ r.rdatas := by
  simp [Matches]

theorem Entry.matches_nil_iff : Entry.Matches e [] ↔ rdatasOf e = [] := by
  cases e with
  | none => simp [Matches, rdatasOf]
  | some e' =>
    rw [matches_some_iff, rdatasOf, Option.elim_some, eq_nil_iff_forall_not_mem]
    refine ⟨fun hmatches x hx => ?_, fun hnone ttl x => by simp [hnone]⟩
    obtain ⟨r, hr, -⟩ := (hmatches e'.ttl x).mp ⟨rfl, hx⟩
    cases hr

theorem Entry.mem_add (hsoa : r.typ ≠ .soa) (hcname : r.typ ≠ .cname) {x : Rdata} :
    x ∈ (Entry.add e r).rdatas ↔ x ∈ rdatasOf e ∨ x ∈ r.rdatas := by
  cases e with
  | none => simp [Entry.add, rdatasOf]
  | some e' => simp [Entry.add, hsoa, hcname, rdatasOf]

theorem Entry.ttl_add (hsoa : r.typ ≠ .soa) (hcname : r.typ ≠ .cname) :
    (Entry.add e r).ttl = r.ttl := by
  cases e with
  | none => rfl
  | some e' => simp [Entry.add, hsoa, hcname]

section

variable (hrs : ∀ r ∈ rs, r.typ ≠ .soa ∧ r.typ ≠ .cname ∧ r.ttl = ttl)

include hrs

theorem Entry.addAll_merged (hne : rs ≠ []) : ∃ e', addAll e rs = some e' ∧ e'.ttl = ttl ∧
      ∀ x, x ∈ e'.rdatas ↔ x ∈ rdatasOf e ∨ ∃ r ∈ rs, x ∈ r.rdatas := by
  induction rs generalizing e with
  | nil => exact absurd rfl hne
  | cons r rs ih =>
    obtain ⟨hsoa, hcname, rfl⟩ := hrs r mem_cons_self
    by_cases hrest : rs = []
    · subst hrest
      exact ⟨_, rfl, ttl_add hsoa hcname, fun x => by simp [mem_add hsoa hcname]⟩
    · obtain ⟨e', he', httl, hmem⟩ := ih (e := some (Entry.add e r))
        (fun r' hr' => hrs r' (mem_cons_of_mem _ hr')) hrest
      refine ⟨e', he', httl, fun x => ?_⟩
      rw [hmem, exists_mem_cons_iff, ← or_assoc]
      exact or_congr_left (mem_add hsoa hcname)

theorem Entry.matches_addAll_iff :
    Entry.Matches (addAll e rs) rs ↔ ∀ x ∈ rdatasOf e, ∃ r ∈ rs, x ∈ r.rdatas := by
  by_cases hne : rs = []
  · subst hne
    rw [addAll, foldl_nil, matches_nil_iff, eq_nil_iff_forall_not_mem]
    simp
  · obtain ⟨e', he', httl, hmem⟩ := addAll_merged (e := e) hrs hne
    rw [he', matches_some_iff]
    constructor
    · intro hmatches x hx
      obtain ⟨r, hr, -, hxr⟩ := (hmatches e'.ttl x).mp ⟨rfl, (hmem x).mpr (.inl hx)⟩
      exact ⟨r, hr, hxr⟩
    · intro hold ttl' x
      constructor
      · rintro ⟨rfl, hx⟩
        obtain ⟨r, hr, hxr⟩ := ((hmem x).mp hx).elim (hold x) id
        exact ⟨r, hr, httl.trans (hrs r hr).2.2.symm, hxr⟩
      · rintro ⟨r, hr, rfl, hx⟩
        exact ⟨(hrs r hr).2.2.trans httl.symm, (hmem x).mpr (.inr ⟨r, hr, hx⟩)⟩

end

theorem Entry.matches_addAll_cname (hne : rs ≠ [])
    (hrs : ∀ r' ∈ rs, r'.typ = .cname ∧ r'.ttl = r.ttl ∧ r'.rdatas = r.rdatas) :
    Entry.Matches (addAll e rs) rs := by
  have hlast : ∀ e, rs ≠ [] → addAll e rs = some (.ofRRset r) := by
    clear hne
    induction rs with
    | nil => exact fun _ hne => absurd rfl hne
    | cons r' rs ih =>
      intro e _
      obtain ⟨htyp, httl, hrdatas⟩ := hrs r' mem_cons_self
      have hadd : Entry.add e r' = .ofRRset r := by
        have hsoa : RRType.cname ≠ .soa := by decide
        cases e <;> simp [Entry.add, htyp, hsoa, Entry.ofRRset, httl, hrdatas]
      by_cases hrest : rs = []
      · subst hrest
        exact congrArg some hadd
      · exact ih (fun r'' hr'' => hrs r'' (mem_cons_of_mem _ hr'')) _ hrest
  rw [hlast e hne, matches_some_iff]
  intro ttl x
  constructor
  · rintro ⟨rfl, hx⟩
    obtain ⟨r', hr'⟩ := exists_mem_of_ne_nil _ hne
    obtain ⟨-, httl, hrdatas⟩ := hrs r' hr'
    exact ⟨r', hr', httl.symm, hrdatas ▸ hx⟩
  · rintro ⟨r', hr', rfl, hx⟩
    obtain ⟨-, httl, hrdatas⟩ := hrs r' hr'
    rw [hrdatas] at hx
    exact ⟨httl, hx⟩

end entries

end Vanguard.Zone
