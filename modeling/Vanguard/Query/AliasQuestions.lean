import Vanguard.Query.Circles

namespace Vanguard.Query

def NoAlias (checkCnameIndirect : Bool) (response : Option Response) : Prop :=
  ∀ r ∈ response, r.message.header.anCount = 0 ∨
    ∃ rrset, decidingRRset checkCnameIndirect r.message.answer = some rrset ∧ rrset.typ ≠ .cname

theorem needRedirect_eq_none_iff {checkCnameIndirect : Bool} {response : Option Response} :
    needRedirect checkCnameIndirect response = .ok none ↔ NoAlias checkCnameIndirect response := by
  cases response with
  | none => exact iff_of_true rfl (fun r hr => by cases hr)
  | some r =>
    simp only [needRedirect, NoAlias, Option.mem_some_iff, forall_eq']
    by_cases hzero : r.message.header.anCount = 0
    · simp [hzero]
    · rw [if_neg hzero]
      cases hrrset : decidingRRset checkCnameIndirect r.message.answer with
      | none => simp [hzero]
      | some rrset =>
        by_cases htyp : rrset.typ = .cname
        · cases hfirst : firstTarget rrset.rdatas with
          | error f | ok target => simp [hzero, htyp, hfirst, Except.map]
        · simp [htyp]

def AnsweredAsIs {σ : Type} (left : Left) (out : Resolution σ × Except Stop Client) : Prop :=
  out.1.calls.length = 1 ∧ ∃ client', out.2 = .ok client' ∧
    client'.response.map (fun r => (r.message.answer, r.message.header.rcode)) =
      left.response.map (fun r => (r.message.answer, r.message.header.rcode))

/-- A question is answered as is exactly if the deciding RRset is no alias. -/
theorem answered_as_is_iff {σ : Type} {resolver : σ → Client → σ × Except Stop Left}
    (checkCnameIndirect : Bool) {client : Client} {s s' : σ} {left : Left}
    (hleft : resolver s client = (s', .ok left)) :
    AnsweredAsIs left (cnameResolve resolver checkCnameIndirect client ⟨s, []⟩) ↔
      NoAlias checkCnameIndirect left.response := by
  obtain ⟨halias, hfinal, hfault⟩ := cnameResolve_of_left checkCnameIndirect hleft
  rw [← needRedirect_eq_none_iff]
  cases hneed : needRedirect checkCnameIndirect left.response with
  | error f =>
    rw [hfault f hneed]
    refine iff_of_false ?_ (by simp)
    rintro ⟨-, client', hok, -⟩
    cases hok
  | ok next =>
    cases next with
    | none =>
      rw [hfinal hneed]
      exact iff_of_true ⟨rfl, _, rfl, rfl⟩ rfl
    | some target =>
      obtain ⟨r, hr⟩ := exists_of_needRedirect hneed
      rw [halias target r hneed hr]
      refine iff_of_false (fun honce => ?_) (by simp)
      -- The target is asked for as well.
      have hmore := (asked_followCNameChain_succ resolver checkCnameIndirect 15
        (firstContext checkCnameIndirect (client.fill left) r target)
        ⟨s', [⟨client.question, left.response⟩]⟩).length_le
      have hcalls : ∀ t : Resolution σ, t.asked.length = t.calls.length :=
        fun t => List.length_map _
      have hlength :
          (followCNameChain resolver checkCnameIndirect (15 + 1) _ _).1.calls.length = 1 :=
        honce.1
      rw [List.length_append, hcalls, hcalls, hlength] at hmore
      exact absurd hmore (by simp)

def aliasQuery (name : Name) : Client := (addressQuery name).asking ⟨name, .cname, .internet⟩

def danglingResolver (s : ℕ) (client : Client) : ℕ × Except Stop Left :=
  let response := client.request.makeResponse
  let known := client.question.name = ["www"] ∨ client.question.name = ["mail"]
  let rcode := if known then Rcode.noError else .nxDomain
  let answer : Section := if client.question.name = ["www"]
    then [⟨["www"], .cname, .internet, 300, [.cname ["gone"]]⟩] else []
  let header := { response.message.header with anCount := answer.length.toUInt16, rcode }
  (s + 1, .ok ⟨some ⟨⟨{ response.message with header, answer }, none⟩, .resolver .auth⟩, true⟩)

/-- The question for the CNAME of a name that has none is answered as is. -/
theorem example_no_alias_answered_as_is :
    ∃ left, danglingResolver 0 (aliasQuery ["mail"]) = (1, .ok left) ∧
      AnsweredAsIs left (cnameResolve danglingResolver true (aliasQuery ["mail"]) ⟨0, []⟩) := by
  refine ⟨_, rfl, (answered_as_is_iff true rfl).mpr fun r hr => ?_⟩
  cases hr
  exact .inl rfl

/-- The question for the CNAME of `www.` is followed to the target. -/
theorem example_alias_question_followed :
    (aliasQuery ["www"]).question.typ = .cname ∧
    ∃ left, danglingResolver 0 (aliasQuery ["www"]) = (1, .ok left) ∧
      left.response.map (fun r => r.message.header.rcode) = some .noError ∧
      let out := cnameResolve danglingResolver true (aliasQuery ["www"]) ⟨0, []⟩
      ¬AnsweredAsIs left out ∧ out.1.calls.length = 2 ∧ ∃ client', out.2 = .ok client' ∧
        client'.response.map (fun r => r.message.header.rcode) = some .nxDomain := by
  refine ⟨rfl, _, rfl, rfl, ?_, rfl, _, rfl, rfl⟩
  rintro ⟨hlength, -⟩
  exact absurd hlength (by decide)

end Vanguard.Query
