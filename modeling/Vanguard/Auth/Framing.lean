import Vanguard.Auth.Axfr
import Vanguard.Zone.Records

namespace Vanguard.Auth

open Zone List

def recordsIn (rrsets : List (RRset Rdata)) : List Record :=
  rrsets.flatMap fun r => r.rdatas.map (⟨r.name, r.typ, r.ttl, ·⟩)

@[simp] theorem recordsIn_append (rs rs' : List (RRset Rdata)) :
    recordsIn (rs ++ rs') = recordsIn rs ++ recordsIn rs' :=
  flatMap_append

section

variable (parts : List (List (RRset Rdata)))

def recordsOfSeries : List Record := recordsIn parts.flatten

structure IsAnswer (soa : Record) (rs : List Record) : Prop where
  records : ∃ closing : Record, closing.typ = .soa ∧ recordsOfSeries parts = soa :: rs ++ [closing]
  soa_typ : soa.typ = .soa
  rs_ne_nil : rs ≠ []
  typ_ne_soa : ∀ r ∈ rs, r.typ ≠ .soa

inductive IsTruncated : Prop
  | noSoa (hfirst : ∀ r, (recordsOfSeries parts).head? = some r → r.typ ≠ .soa)
  | unclosed {soa : Record} {rs : List Record} (hrecords : recordsOfSeries parts = soa :: rs)
    (hsoa : soa.typ = .soa) (hrs : ∀ r ∈ rs, r.typ ≠ .soa)

end

def LoneSoa : List (List (RRset Rdata)) → Prop
  | [] => False
  | rrsets :: _ => ∃ soa : Record, soa.typ = .soa ∧ recordsIn rrsets = [soa]

section

variable (parts : List (List (RRset Rdata)))

def FilledSeries : Prop :=
  ∀ rrsets ∈ parts, ∀ r ∈ rrsets, r.rdatas ≠ []

def Master.answering : Master (RRset Rdata) :=
  ⟨true, true, parts.map .message⟩

theorem doAXFR_answering :
    doAXFR RRset.typ (.answering parts) = readLoop RRset.typ false (parts.map .message) := rfl

end

theorem recordsIn_cons_eq {r : RRset Rdata} (hr : r.rdatas ≠ []) (rs : List (RRset Rdata)) :
    ∃ x xs, recordsIn (r :: rs) = x :: xs ∧ x.typ = r.typ := by
  obtain ⟨d, ds, hds⟩ := exists_cons_of_ne_nil hr
  refine ⟨⟨r.name, r.typ, r.ttl, d⟩, ds.map (⟨r.name, r.typ, r.ttl, ·⟩) ++ recordsIn rs, ?_, rfl⟩
  simp [recordsIn, hds]

theorem recordsIn_concat_eq {r : RRset Rdata} (hr : r.rdatas ≠ []) (rs : List (RRset Rdata)) :
    ∃ xs x, recordsIn (rs ++ [r]) = recordsIn rs ++ xs ++ [x] ∧ x.typ = r.typ ∧
      ∀ y ∈ xs, y.typ = r.typ := by
  rcases eq_nil_or_concat' r.rdatas with hnil | ⟨ds, d, hds⟩
  · exact absurd hnil hr
  · refine ⟨ds.map (⟨r.name, r.typ, r.ttl, ·⟩), ⟨r.name, r.typ, r.ttl, d⟩, ?_, rfl, ?_⟩
    · simp [recordsIn, hds]
    · intro y hy
      obtain ⟨d', _, rfl⟩ := mem_map.mp hy
      rfl

theorem recordsIn_ne_nil {rrsets : List (RRset Rdata)} (hne : rrsets ≠ [])
    (hfilled : ∀ r ∈ rrsets, r.rdatas ≠ []) : recordsIn rrsets ≠ [] := by
  obtain ⟨r, rs, rfl⟩ := exists_cons_of_ne_nil hne
  obtain ⟨x, xs, heq, _⟩ := recordsIn_cons_eq (hfilled r mem_cons_self) rs
  rw [heq]
  exact cons_ne_nil _ _

section order

variable {soa : Record} {rs : List Record}

theorem eq_nil_of_soa_last (hrs : ∀ r ∈ rs, r.typ ≠ .soa) {xs : List Record} {x : Record}
    (hpre : xs ++ [x] <+: soa :: rs) (hx : x.typ = .soa) : xs = [] := by
  cases xs with
  | nil => rfl
  | cons y ys =>
    rw [cons_append, cons_prefix_cons] at hpre
    exact absurd hx (hrs x (hpre.2.subset (by simp)))

theorem prefix_of_append_eq_concat {β : Type} {xs ys zs : List β} {z : β} (hys : ys ≠ [])
    (heq : xs ++ ys = zs ++ [z]) : xs <+: zs := by
  rcases eq_nil_or_concat' ys with hnil | ⟨ys', y, rfl⟩
  · exact absurd hnil hys
  · rw [← append_assoc] at heq
    exact ⟨ys', (append_inj' heq rfl).1⟩

theorem eq_of_closing (hne : rs ≠ []) (hrs : ∀ r ∈ rs, r.typ ≠ .soa) {xs ys : List Record}
    {y closing : Record} (hys : ∀ r ∈ ys, r.typ = .soa)
    (heq : xs ++ ys ++ [y] = soa :: rs ++ [closing]) : xs = soa :: rs ∧ y = closing := by
  obtain ⟨hinit, hlast⟩ := append_inj' heq rfl
  refine ⟨?_, singleton_inj.mp hlast⟩
  rcases eq_nil_or_concat' ys with rfl | ⟨ys', w, rfl⟩
  · rw [← hinit, append_nil]
  · rcases eq_nil_or_concat' rs with rfl | ⟨rs', v, rfl⟩
    · exact absurd rfl hne
    · rw [← append_assoc, ← cons_append] at hinit
      have hvw := singleton_inj.mp (append_inj' hinit rfl).2
      exact absurd (hvw ▸ hys w (by simp)) (hrs v (by simp))

end order

section series

variable {parts : List (List (RRset Rdata))} {soa : Record} {rs : List Record}

section

variable (hfilled : FilledSeries parts)

include hfilled

theorem loneSoa_of_endsWithSoa {before after : List (List (RRset Rdata))}
    {rrsets : List (RRset Rdata)} (hparts : parts = before ++ rrsets :: after)
    (hfirst : ∀ first, parts.head? = some first → first ≠ []) (hrs : ∀ r ∈ rs, r.typ ≠ .soa)
    (hpre : recordsOfSeries (before ++ [rrsets]) <+: soa :: rs)
    (hends : EndsWithSoa RRset.typ rrsets) : LoneSoa parts := by
  obtain ⟨init, last, rfl, hlast⟩ := hends
  have hfill : last.rdatas ≠ [] := hfilled (init ++ [last]) (by simp [hparts]) last (by simp)
  obtain ⟨xs, x, hrecords, hx, _⟩ := recordsIn_concat_eq hfill init
  have hseries : recordsOfSeries (before ++ [init ++ [last]]) =
      recordsIn before.flatten ++ (recordsIn init ++ xs) ++ [x] := by
    rw [recordsOfSeries, flatten_append, recordsIn_append, flatten_singleton, hrecords]
    simp
  rw [hseries] at hpre
  obtain ⟨hbefore, hinit⟩ := append_eq_nil_iff.mp (eq_nil_of_soa_last hrs hpre (hx.trans hlast))
  cases before with
  | nil =>
    subst hparts
    refine ⟨x, hx.trans hlast, ?_⟩
    rw [hrecords, hinit, nil_append]
  | cons first before =>
    subst hparts
    rw [flatten_cons, recordsIn_append] at hbefore
    exact absurd (append_eq_nil_iff.mp hbefore).1
      (recordsIn_ne_nil (hfirst first rfl) (hfilled first mem_cons_self))

theorem readLoop_of_head (hfirst : ∀ first, parts.head? = some first → first ≠ [])
    (hrecords : recordsOfSeries parts = soa :: rs) (hsoa : soa.typ = .soa) :
    readLoop RRset.typ false (parts.map .message) =
      readLoop RRset.typ true (parts.map .message) := by
  cases parts with
  | nil => cases hrecords
  | cons rrsets parts =>
    obtain ⟨r, rest, rfl⟩ := exists_cons_of_ne_nil (hfirst rrsets rfl)
    obtain ⟨x, xs, heq, hx⟩ :=
      recordsIn_cons_eq (hfilled (r :: rest) mem_cons_self r mem_cons_self) (rest ++ parts.flatten)
    have hhead : soa = x := (List.cons.inj (hrecords.symm.trans heq)).1
    exact readLoop_first (hx ▸ hhead ▸ hsoa) rest _

theorem doAXFR_of_loneSoa (hlone : LoneSoa parts) :
    doAXFR RRset.typ (.answering parts) = ([], none) := by
  match parts, hlone with
  | rrsets :: parts, ⟨soa, hsoa, hrecords⟩ =>
    match rrsets with
    | [] => cases hrecords
    | r :: rest =>
      have hfill := hfilled (r :: rest) mem_cons_self
      obtain ⟨x, xs, heq, hx⟩ := recordsIn_cons_eq (hfill r mem_cons_self) rest
      have hr : r.typ = .soa := by
        rw [← hx, ← (List.cons.inj (hrecords.symm.trans heq)).1, hsoa]
      have hrest : rest = [] := by
        by_contra hne
        have hne' := recordsIn_ne_nil hne fun r' hr' => hfill r' (mem_cons_of_mem _ hr')
        have hfirst := recordsIn_ne_nil (cons_ne_nil r []) (by simpa using hfill r mem_cons_self)
        have happend : recordsIn [r] ++ recordsIn rest = [soa] := by
          rw [← recordsIn_append]
          exact hrecords
        rcases append_eq_singleton_iff.mp happend with ⟨hnil, _⟩ | ⟨_, hnil⟩
        · exact hfirst hnil
        · exact hne' hnil
      rw [doAXFR_answering, map_cons, readLoop_first hr, hrest]
      exact readLoop_of_endsWithSoa [] hr _

theorem doAXFR_of_isAnswer (hne : ∀ rrsets ∈ parts, rrsets ≠ []) (hanswer : IsAnswer parts soa rs)
    (hlone : ¬LoneSoa parts) :
    ∃ sent, doAXFR RRset.typ (.answering parts) = (sent, none) ∧ recordsIn sent = soa :: rs := by
  obtain ⟨closing, hclosing, hrecords⟩ := hanswer.records
  have hfirst (first : List (RRset Rdata)) (hhead : parts.head? = some first) : first ≠ [] :=
    hne first (mem_of_mem_head? hhead)
  rw [doAXFR_answering, readLoop_of_head hfilled hfirst hrecords hanswer.soa_typ]
  rcases eq_nil_or_concat' parts with rfl | ⟨series, final, hparts⟩
  · cases hrecords
  have hmem : final ∈ parts := by simp [hparts]
  -- No message before the final one ends with a SOA.
  have hseries (rrsets : List (RRset Rdata)) (hrrsets : rrsets ∈ series) :
      rrsets ≠ [] ∧ ¬EndsWithSoa RRset.typ rrsets := by
    refine ⟨hne rrsets (by simp [hparts, hrrsets]), fun hends => hlone ?_⟩
    obtain ⟨before, after, rfl⟩ := append_of_mem hrrsets
    have hrest : recordsOfSeries (after ++ [final]) ≠ [] := by
      rw [recordsOfSeries, flatten_append, recordsIn_append]
      refine append_ne_nil_of_right_ne_nil _ ?_
      simpa using recordsIn_ne_nil (hne final hmem) (hfilled final hmem)
    have hsplit : recordsOfSeries (before ++ [rrsets]) ++ recordsOfSeries (after ++ [final]) =
        soa :: rs ++ [closing] := by
      rw [← hrecords, hparts]
      simp [recordsOfSeries]
    have hposition : parts = before ++ rrsets :: (after ++ [final]) := by simp [hparts]
    exact loneSoa_of_endsWithSoa hfilled hposition hfirst hanswer.typ_ne_soa
      (prefix_of_append_eq_concat hrest hsplit) hends
  rcases eq_nil_or_concat' final with hnil | ⟨init, last, hfinal⟩
  · exact absurd hnil (hne final hmem)
  obtain ⟨xs, x, hxs, hx, htyps⟩ :=
    recordsIn_concat_eq (hfilled final hmem last (by simp [hfinal])) (series.flatten ++ init)
  have hall : recordsIn (series.flatten ++ init) ++ xs ++ [x] = soa :: rs ++ [closing] := by
    rw [← hxs, ← hrecords, hparts, hfinal]
    simp [recordsOfSeries]
  have hlast : last.typ = .soa := by
    rw [← hx, singleton_inj.mp (append_inj' hall rfl).2, hclosing]
  refine ⟨series.flatten ++ init, ?_, ?_⟩
  · rw [hparts, hfinal, map_append, map_singleton, readLoop_append hseries,
      readLoop_of_endsWithSoa init hlast]
  · exact (eq_of_closing hanswer.rs_ne_nil hanswer.typ_ne_soa
      (fun y hy => (htyps y hy).trans hlast) hall).1

theorem doAXFR_of_isTruncated (htruncated : IsTruncated parts) (hlone : ¬LoneSoa parts) :
    ∃ err, (doAXFR RRset.typ (.answering parts)).2 = some err := by
  rw [doAXFR_answering]
  match parts with
  | [] | [] :: parts => exact ⟨_, rfl⟩
  | (r :: rest) :: parts =>
    obtain ⟨x, xs, heq, hx⟩ :=
      recordsIn_cons_eq (hfilled (r :: rest) mem_cons_self r mem_cons_self) (rest ++ parts.flatten)
    cases htruncated with
    | noSoa hfirst =>
      have htyp : r.typ ≠ .soa := hx ▸ hfirst x (congrArg List.head? heq)
      refine ⟨.noSoa, ?_⟩
      rw [map_cons, readLoop, if_pos (by simpa using htyp)]
    | unclosed hrecords hsoa hrs =>
      refine readLoop_fails (fun rrsets hrrsets hends => hlone ?_) false
      obtain ⟨before, after, hparts⟩ := append_of_mem hrrsets
      have hpre : recordsOfSeries (before ++ [rrsets]) <+: recordsOfSeries ((r :: rest) :: parts) :=
        ⟨recordsOfSeries after, by simp [hparts, recordsOfSeries]⟩
      exact loneSoa_of_endsWithSoa hfilled hparts (by simp) hrs (hrecords ▸ hpre) hends

end

/-- A whole answer is sent and a truncated one is an error exactly if no lone SOA comes first. -/
theorem doAXFR_framing_iff (hfilled : FilledSeries parts) :
    (∀ soa rs, IsAnswer parts soa rs → (∀ rrsets ∈ parts, rrsets ≠ []) →
      ((∃ sent, doAXFR RRset.typ (.answering parts) = (sent, none) ∧ recordsIn sent = soa :: rs) ↔
        ¬LoneSoa parts)) ∧
    (IsTruncated parts →
      ((∃ err, (doAXFR RRset.typ (.answering parts)).2 = some err) ↔ ¬LoneSoa parts)) := by
  refine ⟨fun soa rs hanswer hne => ⟨?_, doAXFR_of_isAnswer hfilled hne hanswer⟩,
    fun htruncated => ⟨?_, doAXFR_of_isTruncated hfilled htruncated⟩⟩
  · rintro ⟨sent, hsent, hrecords⟩ hlone
    rw [doAXFR_of_loneSoa hfilled hlone] at hsent
    cases hsent
    cases hrecords
  · rintro ⟨err, herr⟩ hlone
    rw [doAXFR_of_loneSoa hfilled hlone] at herr
    cases herr

end series

def exampleSoaRdata : Rdata :=
  .soa ⟨["ns", "example"], ["root", "example"], 1, 7200, 3600, 86400, 300⟩

def exampleSoaRRset : RRset Rdata := ⟨["example"], .soa, .internet, 300, [exampleSoaRdata]⟩

def exampleNsRRset : RRset Rdata := ⟨["example"], .ns, .internet, 300, [.ns ["ns", "example"]]⟩

theorem isAnswer_example {parts : List (List (RRset Rdata))}
    (hparts : parts.flatten = [exampleSoaRRset, exampleNsRRset, exampleSoaRRset]) :
    IsAnswer parts ⟨["example"], .soa, 300, exampleSoaRdata⟩
      [⟨["example"], .ns, 300, .ns ["ns", "example"]⟩] := by
  refine ⟨⟨⟨["example"], .soa, 300, exampleSoaRdata⟩, rfl, ?_⟩, rfl, by simp, by decide⟩
  rw [recordsOfSeries, hparts]
  rfl

/-- With the name server in the first message the zone is sent, or the truncation noticed. -/
theorem example_shared_first_message :
    (∃ sent, doAXFR RRset.typ
        (.answering [[exampleSoaRRset, exampleNsRRset], [exampleSoaRRset]]) = (sent, none) ∧
      recordsIn sent = [⟨["example"], .soa, 300, exampleSoaRdata⟩,
        ⟨["example"], .ns, 300, .ns ["ns", "example"]⟩]) ∧
    ∃ err, (doAXFR RRset.typ (.answering [[exampleSoaRRset, exampleNsRRset]])).2 = some err := by
  have hwhole : FilledSeries [[exampleSoaRRset, exampleNsRRset], [exampleSoaRRset]] := by
    simp [FilledSeries, exampleSoaRRset, exampleNsRRset]
  have hcut : FilledSeries [[exampleSoaRRset, exampleNsRRset]] := by
    simp [FilledSeries, exampleSoaRRset, exampleNsRRset]
  have hrecords : recordsOfSeries [[exampleSoaRRset, exampleNsRRset]] =
      ⟨["example"], .soa, 300, exampleSoaRdata⟩ ::
        [⟨["example"], .ns, 300, .ns ["ns", "example"]⟩] := rfl
  have htruncated : IsTruncated [[exampleSoaRRset, exampleNsRRset]] :=
    .unclosed hrecords rfl (by decide)
  have hlone (rest : List (List (RRset Rdata))) :
      ¬LoneSoa ([exampleSoaRRset, exampleNsRRset] :: rest) := by
    rintro ⟨soa, _, hrecords⟩
    cases hrecords
  exact ⟨((doAXFR_framing_iff hwhole).1 _ _ (isAnswer_example rfl) (by simp)).mpr (hlone _),
    ((doAXFR_framing_iff hcut).2 htruncated).mpr (hlone _)⟩

/-- With a lone SOA in the first message nothing is sent, and there is no error. -/
theorem example_lone_soa_ends_transfer :
    IsAnswer [[exampleSoaRRset], [exampleNsRRset], [exampleSoaRRset]]
      ⟨["example"], .soa, 300, exampleSoaRdata⟩
      [⟨["example"], .ns, 300, .ns ["ns", "example"]⟩] ∧
    doAXFR RRset.typ (.answering [[exampleSoaRRset], [exampleNsRRset], [exampleSoaRRset]]) =
      ([], none) ∧
    IsTruncated [[exampleSoaRRset]] ∧
    doAXFR RRset.typ (.answering [[exampleSoaRRset]]) = ([], none) :=
  ⟨isAnswer_example rfl, rfl, .unclosed rfl rfl (by simp), rfl⟩

end Vanguard.Auth
