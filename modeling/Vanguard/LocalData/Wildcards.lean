import Vanguard.LocalData.Effects

namespace Vanguard.LocalData

open List Option
open Query (Client)

section

variable {P : Type} [NameTree P LocalPolicy]

def AnswersWith (policies : Policies P) (client : Client) (qname : Name) (d : Rdata) : Prop :=
  ∃ client' response r, responseWithLocalData policies client = .ok (client', true) ∧
    client'.response = some response ∧ response.message.answer.getLast? = some r ∧
    r.typ = client.question.typ ∧ r.name = qname ∧ d ∈ r.rdatas

variable {qname : Name}

theorem getMessage_eq_rrset {p : LocalPolicy} {qtype : RRType} {r : RRset Rdata}
    (hget : p.getMessage qname qtype = some (.rrset r)) : r.typ = qtype ∧ r.name = qname := by
  unfold LocalPolicy.getMessage at hget
  split at hget
  · cases hget
  · cases hget
  · cases hget
  · obtain ⟨old, hold, heq⟩ := map_eq_some_iff.mp hget
    cases heq
    exact ⟨by simpa using find?_some hold, rfl⟩

theorem answer_eq_rrset {t : PolicyTable} {qtype : RRType} {r : RRset Rdata}
    (hanswer : t.answer qname qtype = some (.rrset r)) : r.typ = qtype ∧ r.name = qname := by
  unfold PolicyTable.answer at hanswer
  split at hanswer
  · exact getMessage_eq_rrset hanswer
  · obtain ⟨m, -, hm⟩ := exists_of_findSome?_eq_some hanswer
    obtain ⟨p, -, hp⟩ := bind_eq_some_iff.mp hm
    unfold LocalPolicy.answerBelow at hp
    split_ifs at hp
    exact getMessage_eq_rrset hp

variable [LawfulNameTree P LocalPolicy]

theorem answersWith_iff (policies : Policies P) {client : Client} (d : Rdata)
    (hqname : realQueryName client.question (client.response.map fun r => r.message) = .ok qname) :
    AnswersWith policies client qname d ↔ ∃ r,
      PolicyTable.answer (policyAt (tables policies) client.view) qname client.question.typ =
        some (.rrset r) ∧ d ∈ r.rdatas := by
  have hrespond := responseWithLocalData_eq policies client
  unfold respond at hrespond
  unfold AnswersWith
  cases hview : tables policies client.view with
  | none =>
    have hnone : policyAt (tables policies) client.view = fun _ => none := by
      funext m
      simp [policyAt, hview]
    have hanswer : PolicyTable.answer (fun _ => none) qname client.question.typ = none :=
      findSome?_eq_none_iff.mpr fun _ _ => rfl
    simp [hrespond, hview, hnone, hanswer]
  | some t =>
    simp only [hview, hqname] at hrespond
    rw [hrespond, policyAt_of_some hview]
    cases hanswer : t.answer qname client.question.typ with
    | none => simp
    | some answer =>
      cases answer with
      | nxDomain | nxRRset => simp [PolicyAnswer.message, Query.Packet.makeResponse]
      | rrset r =>
        obtain ⟨htyp, hname⟩ := answer_eq_rrset hanswer
        simp [PolicyAnswer.message, htyp, hname]

end

section

variable {parsers : Parsers} {data nameText ttlText typeText rdataText : String}
  {more : List String} {n : Name} {typ : RRType} {d : Rdata}

theorem build_wildcard (hdata : splitFields data =
      ("*." ++ nameText) :: ttlText :: typeText :: rdataText :: more)
    (hname : parsers.nameFromString nameText = .ok n)
    (htype : parsers.typeFromString typeText = .ok typ)
    (hrdata : parsers.rdataFromString typ (" ".intercalate (rdataText :: more)) = .ok d)
    {name : Name} {p : LocalPolicy}
    (hok : buildLocalPolicy parsers .localRRset data = .ok (name, p)) :
    name = n ∧ p.isZoneMatch = true ∧
      ∃ ttl, p.kind = .localRRset [⟨n, typ, .internet, ttl, [d]⟩] := by
  have hstrip : nameStripFirstWildcard parsers ("*." ++ nameText) = .ok (true, n) := by
    have hlist : ("*." ++ nameText).toList = '*' :: '.' :: nameText.toList := by simp
    simp [nameStripFirstWildcard, hlist, hname, Except.map]
  unfold buildLocalPolicy at hok
  rw [hdata, headD_cons, hstrip] at hok
  dsimp only at hok
  cases hredirect : buildRedirect parsers n
      (("*." ++ nameText) :: ttlText :: typeText :: rdataText :: more) with
  | error e => simp [hredirect] at hok
  | ok kind =>
    simp only [hredirect] at hok
    cases hok
    obtain ⟨first, ttl, typ', rdata, more', k, hfields, -, hnew⟩ := buildRedirect_eq_ok hredirect
    cases hfields
    obtain ⟨rrType, rdata, htype', hrdata', rfl⟩ := newLocalRRset_eq_ok hnew
    cases htype.symm.trans htype'
    cases hrdata.symm.trans hrdata'
    exact ⟨rfl, rfl, _, rfl⟩

theorem getMessage_addTo {p : LocalPolicy} {ttl : UInt32} {slot : Option LocalPolicy}
    (hkind : p.kind = .localRRset [⟨n, typ, .internet, ttl, [d]⟩])
    (hok : (p.addTo slot).2 = true) (q : Name) :
    ∃ r, (p.addTo slot).1.getMessage q typ = some (.rrset r) ∧ d ∈ r.rdatas := by
  have hp : p.Single := by
    intro rrsets hrrsets
    rw [hkind] at hrrsets
    cases hrrsets
    exact ⟨_, _, _, _, rfl⟩
  rcases addTo_cases hp slot with ⟨-, hadd⟩ | ⟨oldp, rrsets, _, _, _, _, -, -, hkind', hadd⟩ |
    ⟨oldp, -, hadd⟩
  · rw [hadd]
    simp [LocalPolicy.getMessage, hkind]
  · rw [hkind] at hkind'
    cases hkind'
    rw [hadd] at hok ⊢
    obtain ⟨-, r, hfind, hd⟩ := addRRset_of_accepted rfl hok
    refine ⟨{ r with name := q }, ?_, hd⟩
    dsimp only at hfind
    simp [LocalPolicy.getMessage, hfind]
  · rw [hadd] at hok
    cases hok

end

section

variable {P : Type} [NameTree P LocalPolicy] [LawfulNameTree P LocalPolicy]
  [ErasableNameTree P LocalPolicy] [LawfulErasableNameTree P LocalPolicy]

/-- A wildcard redirection answers exactly if it comes first at its name, or did so before. -/
theorem zone_redirect_answers_iff {parsers : Parsers} (policies : Policies P)
    {data nameText ttlText typeText rdataText : String} {more : List String} {n : Name}
    {typ : RRType} {d : Rdata}
    (hdata : splitFields data = ("*." ++ nameText) :: ttlText :: typeText :: rdataText :: more)
    (hname : parsers.nameFromString nameText = .ok n)
    (htype : parsers.typeFromString typeText = .ok typ)
    (hrdata : parsers.rdataFromString typ (" ".intercalate (rdataText :: more)) = .ok d)
    {client : Client} (hqtype : client.question.typ = typ)
    (hnil : (addPolicies parsers policies client.view .localRRset [data]).2 = .nil) {q : Name}
    (hqname : realQueryName client.question (client.response.map fun r => r.message) = .ok q)
    (hle : n <:+ q) (hne : q ≠ n)
    (hcloser : ∀ m, n <:+ m → m <:+ q → m ≠ n → policyAt (tables policies) client.view m = none) :
    AnswersWith (addPolicies parsers policies client.view .localRRset [data]).1 client q d ↔
      (∀ p, policyAt (tables policies) client.view n = some p → p.isZoneMatch = true) ∨
        AnswersWith policies client q d := by
  rcases addPolicies_cons parsers policies client.view .localRRset data [] with ⟨-, -, -, hne⟩ |
    ⟨name, p, hbuild, ⟨-, -, e, he⟩ | ⟨hok, policies', htables, heq⟩⟩
  · exact absurd hnil hne
  · rw [he] at hnil
    cases hnil
  obtain ⟨rfl, hzone, ttl, hkind⟩ := build_wildcard hdata hname htype hrdata hbuild
  subst hqtype
  have hafter : policyAt (tables policies') client.view =
      Function.update (policyAt (tables policies) client.view) name
        (some (p.addTo (policyAt (tables policies) client.view name)).1) := by
    funext m
    rw [htables, policyAt_setPolicy, Function.update_apply]
    simp
  rw [heq, addPolicies, answersWith_iff policies' d hqname, hafter]
  by_cases hform : ∀ oldp, policyAt (tables policies) client.view name = some oldp →
      oldp.isZoneMatch = true
  · -- What is at the name answers for the names below it.
    refine iff_of_true ?_ (.inl hform)
    have hmatch : (p.addTo (policyAt (tables policies) client.view name)).1.isZoneMatch = true := by
      rcases addTo_cases (single_of_build hbuild).2 (policyAt (tables policies) client.view name)
        with ⟨-, hadd⟩ | ⟨oldp, _, _, _, _, _, hold, -, -, hadd⟩ | ⟨oldp, hold, hadd⟩
      · rw [hadd]
        exact hzone
      all_goals
        rw [hadd]
        exact hform oldp hold
    obtain ⟨r, hget, hd⟩ := getMessage_addTo hkind hok q
    refine ⟨r, ?_, hd⟩
    rw [PolicyTable.answer_of_closest hle hne fun m hm hmq hmn => by
      rw [Function.update_of_ne hmn]
      exact hcloser m hm hmq hmn]
    obtain ⟨above, habove⟩ : ∃ above, name.tails = name :: above := by
      cases name with
      | nil => exact ⟨[], rfl⟩
      | cons label rest => exact ⟨rest.tails, tails_cons label rest⟩
    simp [habove, LocalPolicy.answerBelow, hmatch, hget]
  · -- The rdata has gone to a redirection for the name alone, which no name below it sees.
    rw [or_iff_right hform, answersWith_iff policies d hqname]
    push Not at hform
    obtain ⟨oldp, hold, hexact⟩ := hform
    have hmatch : (p.addTo (policyAt (tables policies) client.view name)).1.isZoneMatch =
        oldp.isZoneMatch := by
      rcases addTo_cases (single_of_build hbuild).2 (policyAt (tables policies) client.view name)
        with ⟨hnone, -⟩ | ⟨oldp', _, _, _, _, _, hold', -, -, hadd⟩ | ⟨oldp', hold', hadd⟩
      · rw [hold] at hnone
        cases hnone
      all_goals
        cases hold.symm.trans hold'
        rw [hadd]
    rw [PolicyTable.answer_congr (Function.update_of_ne hne _ _) fun m _ => ?_]
    by_cases hm : m = name
    · have hnew : (p.addTo (policyAt (tables policies) client.view name)).1.answerBelow q
          client.question.typ = none := by
        rw [LocalPolicy.answerBelow, hmatch, if_neg hexact]
      have holdnone : oldp.answerBelow q client.question.typ = none := if_neg hexact
      rw [hm, Function.update_self, bind_some, hnew, hold, bind_some, holdnone]
    · rw [Function.update_of_ne hm]

end

def exactRedirect : Policies (NameTable LocalPolicy) :=
  performAll exampleParsers [.add "default" .localRRset ["a. 60 A 1.1.1.1"]]

def zoneRedirect : Policies (NameTable LocalPolicy) :=
  performAll exampleParsers [.add "default" .localRRset ["*.a. 60 A 1.1.1.1"]]

/-- The redirection `*.a.` after one for `a.` alone does not answer. -/
theorem example_wildcard_after_exact :
    (addPolicies exampleParsers exactRedirect "default" .localRRset
        ["*.a. 60 A 2.2.2.2"]).2 = .nil ∧
      responseWithLocalData (addPolicies exampleParsers exactRedirect "default" .localRRset
        ["*.a. 60 A 2.2.2.2"]).1 (policyClient ["www", "a"]) =
          .ok (policyClient ["www", "a"], false) :=
  ⟨rfl, rfl⟩

/-- The redirection `*.a.` answers for a name below it if another one in that form was there. -/
theorem example_wildcard_after_wildcard :
    AnswersWith (addPolicies exampleParsers zoneRedirect "default" .localRRset
        ["*.a. 60 A 2.2.2.2"]).1 (policyClient ["www", "a"]) ["www", "a"] (.a [2, 2, 2, 2]) := by
  have hdata : splitFields "*.a. 60 A 2.2.2.2" = ("*." ++ "a.") :: "60" :: "A" :: "2.2.2.2" :: [] :=
    rfl
  have hname : exampleParsers.nameFromString "a." = .ok ["a"] := rfl
  have hqtype : (policyClient ["www", "a"]).question.typ = .a := rfl
  refine (zone_redirect_answers_iff zoneRedirect hdata hname rfl rfl hqtype rfl rfl
    ⟨["www"], rfl⟩ (by decide) ?_).mpr (.inl ?_)
  · intro m hm hmq hne
    have htails : m = ["www", "a"] ∨ m = ["a"] ∨ m = [] := by
      have hmem : m ∈ List.tails ["www", "a"] := (mem_tails _ _).mpr hmq
      simpa [List.tails] using hmem
    rcases htails with rfl | rfl | rfl
    · rfl
    · exact absurd rfl hne
    · rfl
  · intro p hp
    cases hp
    rfl

end Vanguard.LocalData
