import Vanguard.Query.CNameHandler

namespace Vanguard.Query

open List

def LeadsTo (r next : RRset Rdata) : Prop := r.typ = .cname → firstTarget r.rdatas = .ok next.name

structure AliasChain (start : Name) (answers : Section) : Prop where
  head : ∀ r ∈ answers.head?, r.name = start
  links : answers.IsChain LeadsTo

def EndsInAlias (answers : Section) (target : Name) : Prop :=
  ∃ r ∈ answers.getLast?, r.typ = .cname ∧ firstTarget r.rdatas = .ok target

theorem AliasChain.take_one {start : Name} {answers : Section} (hchain : AliasChain start answers) :
    AliasChain start (answers.take 1) := by
  refine ⟨fun r hr => hchain.head r ?_, hchain.links.take 1⟩
  cases answers with
  | nil => simp at hr
  | cons first rest => simpa using hr

theorem AliasChain.append {start target : Name} {answers more : Section}
    (hchain : AliasChain start answers) (hend : EndsInAlias answers target)
    (hmore : AliasChain target more) : AliasChain start (answers ++ more) := by
  obtain ⟨last, hlast, -, htarget⟩ := hend
  refine ⟨fun r hr => hchain.head r ?_, hchain.links.append hmore.links ?_⟩
  · cases answers with
    | nil => simp at hlast
    | cons first rest => simpa using hr
  · intro r hr next hnext _
    obtain rfl := Option.mem_unique hr hlast
    rw [htarget, hmore.head next hnext]

theorem EndsInAlias.append {more : Section} {target : Name} (hend : EndsInAlias more target)
    (answers : Section) : EndsInAlias (answers ++ more) target := by
  obtain ⟨last, hlast, halias⟩ := hend
  exact ⟨last, by rw [getLast?_append, hlast]; rfl, halias⟩

def Call.Chained (call : Call) : Prop :=
  ∀ r, call.response = some r → AliasChain call.question.name r.message.answer

def Typed (response : Option Response) : Prop :=
  ∀ r, response = some r → ∀ rrset ∈ r.message.answer, rrset.typ = .cname →
    ∃ target, firstTarget rrset.rdatas = .ok target

/-- `ANCount` is not zero exactly if the answer section is not empty. -/
def Counted (response : Option Response) : Prop :=
  ∀ r, response = some r → (r.message.header.anCount ≠ 0 ↔ r.message.answer ≠ [])

def lastRcode (calls : List Call) : Option Rcode :=
  (calls.filterMap Call.response).getLast?.map fun r => r.message.header.rcode

theorem lastRcode_concat_none (calls : List Call) (question : Question) :
    lastRcode (calls ++ [⟨question, none⟩]) = lastRcode calls := by
  simp [lastRcode]

theorem lastRcode_concat_some (calls : List Call) (question : Question) (r : Response) :
    lastRcode (calls ++ [⟨question, some r⟩]) = some r.message.header.rcode := by
  simp [lastRcode]

section redirect

variable {checkCnameIndirect : Bool}

theorem header_cut (r : Response) :
    (r.cut checkCnameIndirect).message.header = r.message.header := by
  cases checkCnameIndirect <;> rfl

variable {r : Response}

theorem AliasChain.cut (checkCnameIndirect : Bool) {start : Name}
    (hchain : AliasChain start r.message.answer) :
    AliasChain start (r.cut checkCnameIndirect).message.answer := by
  cases checkCnameIndirect with
  | false => exact hchain
  | true => exact hchain.take_one

variable {nextName : Name}

section

variable (hneed : needRedirect checkCnameIndirect (some r) = .ok (some nextName))

include hneed

theorem decidingRRset_of_needRedirect :
    ∃ rrset, decidingRRset checkCnameIndirect r.message.answer = some rrset ∧
      rrset.typ = .cname ∧ firstTarget rrset.rdatas = .ok nextName := by
  simp only [needRedirect] at hneed
  split_ifs at hneed
  · cases hneed
  · split at hneed
    · cases hneed
    · next rrset hrrset =>
      split_ifs at hneed with htyp
      · refine ⟨rrset, hrrset, htyp, ?_⟩
        cases hfirst : firstTarget rrset.rdatas with
        | error f => simp [hfirst, Except.map] at hneed
        | ok target =>
          rw [hfirst] at hneed
          cases hneed
          rfl
      · cases hneed

theorem endsInAlias_of_needRedirect :
    EndsInAlias (r.cut checkCnameIndirect).message.answer nextName := by
  obtain ⟨rrset, hrrset, htyp, htarget⟩ := decidingRRset_of_needRedirect hneed
  refine ⟨rrset, ?_, htyp, htarget⟩
  cases checkCnameIndirect with
  | false => exact hrrset
  | true =>
    cases hanswer : r.message.answer with
    | nil => simp [decidingRRset, hanswer] at hrrset
    | cons first rest => simpa [Response.cut, decidingRRset, hanswer] using hrrset

end

variable {response : Option Response}

theorem exists_of_needRedirect
    (hneed : needRedirect checkCnameIndirect response = .ok (some nextName)) :
    ∃ r, response = some r := by
  cases response with
  | none => simp [needRedirect] at hneed
  | some r => exact ⟨r, rfl⟩

theorem needRedirect_returns (checkCnameIndirect : Bool) (hcount : Counted response)
    (htyped : Typed response) : ∃ next, needRedirect checkCnameIndirect response = .ok next := by
  cases hresponse : response with
  | none => exact ⟨none, rfl⟩
  | some r =>
    simp only [needRedirect]
    by_cases hzero : r.message.header.anCount = 0
    · exact ⟨none, if_pos hzero⟩
    · have hanswer : r.message.answer ≠ [] := (hcount r hresponse).mp hzero
      obtain ⟨rrset, hrrset, hmem⟩ : ∃ rrset,
          decidingRRset checkCnameIndirect r.message.answer = some rrset ∧
            rrset ∈ r.message.answer := by
        cases checkCnameIndirect with
        | false => exact ⟨_, getLast?_eq_getLast_of_ne_nil hanswer, getLast_mem hanswer⟩
        | true => exact ⟨_, head?_eq_some_head hanswer, head_mem hanswer⟩
      rw [if_neg hzero, hrrset]
      by_cases htyp : rrset.typ = .cname
      · obtain ⟨target, htarget⟩ := htyped r hresponse rrset hmem htyp
        exact ⟨some target, by simp [htyp, htarget, Except.map]⟩
      · exact ⟨none, by simp [htyp]⟩

end redirect

end Vanguard.Query
