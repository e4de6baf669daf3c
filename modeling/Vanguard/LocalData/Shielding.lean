import Vanguard.LocalData.LocalData
import Vanguard.Query.Client

namespace Vanguard.LocalData

open List
open Query (Client Packet Response)

/-- `GetMessage`. An RRset goes into the response of the client if there is one. -/
def PolicyAnswer.message (client : Client) : PolicyAnswer → Response
  | .nxDomain =>
    let msg := client.request.makeResponse
    ⟨{ msg with message := { msg.message with
        header := { msg.message.header with rcode := .nxDomain } } }, .resolver .localData⟩
  | .nxRRset =>
    let msg := client.request.makeResponse
    ⟨{ msg with message := { msg.message with
        header := { msg.message.header with rcode := .noError } } }, .resolver .localData⟩
  | .rrset r =>
    let msg : Packet := (client.response.map Response.toPacket).getD client.request.makeResponse
    let header := { msg.message.header with anCount := .ofNat r.rdatas.length, rcode := .noError }
    ⟨{ msg with message := { msg.message with answer := msg.message.answer ++ [r], header } },
      .resolver .localData⟩

def responseWithLocalData {P : Type} [NameTree P LocalPolicy] (policies : String → Option P)
    (client : Client) : Except Fault (Client × Bool) :=
  match policies client.view with
  | none => .ok (client, false)
  | some ps =>
    match realQueryName client.question (client.response.map fun r => r.message) with
    | .error f => .error f
    | .ok qname =>
      match findAnswer ps qname client.question.typ with
      | none => .ok (client, false)
      | some answer => .ok ({ client with response := some (answer.message client) }, true)

section

variable {P : Type} [NameTree P LocalPolicy]

/-- The policy at the name does not answer, nor, without one, any zone above. -/
def Unanswered (ps : P) (qname : Name) (qtype : RRType) : Prop :=
  (∀ p, NameTree.get ps qname = some p → p.getMessage qname qtype = none) ∧
    (NameTree.get ps qname = none → ∀ m ∈ qname.tails, ∀ p, NameTree.get ps m = some p →
      p.isZoneMatch = true → p.getMessage qname qtype = none)

/-- The nearest zone at or above the name is passthru, and these are further up. -/
def PassthruZone (ps : P) (qname : Name) (above : List Name) : Prop :=
  ∃ below m p, qname.tails = below ++ m :: above ∧
    (∀ n ∈ below, ∀ p', NameTree.get ps n = some p' → p'.isZoneMatch = false) ∧
    NameTree.get ps m = some p ∧ p.isZoneMatch = true ∧ p.kind = .exceptionDomain

theorem getMessage_exceptionDomain {p : LocalPolicy} (hkind : p.kind = .exceptionDomain)
    (qname : Name) (qtype : RRType) : p.getMessage qname qtype = none := by
  simp [LocalPolicy.getMessage, hkind]

variable {qname : Name}

theorem unanswered_iff_of_passthruZone {ps : P} {qtype : RRType} {above : List Name}
    (hzone : PassthruZone ps qname above) : Unanswered ps qname qtype ↔
      (∀ p, NameTree.get ps qname = some p → p.getMessage qname qtype = none) ∧
        (NameTree.get ps qname = none → ∀ n ∈ above, ∀ p, NameTree.get ps n = some p →
          p.isZoneMatch = true → p.getMessage qname qtype = none) := by
  obtain ⟨below, m, p, htails, hbelow, hget, -, hkind⟩ := hzone
  unfold Unanswered
  rw [htails]
  refine and_congr_right fun _ => forall_congr' fun _ => ?_
  constructor
  · intro hall n hn
    exact hall n (mem_append_right _ (mem_cons_of_mem _ hn))
  · intro habove n hn p' hp' hmatch
    rcases mem_append.mp hn with hn | hn
    · exact absurd hmatch (by simp [hbelow n hn p' hp'])
    · rcases mem_cons.mp hn with rfl | hn
      · cases hget.symm.trans hp'
        exact getMessage_exceptionDomain hkind qname qtype
      · exact habove n hn p' hp' hmatch

variable [LawfulNameTree P LocalPolicy]

theorem findAnswer_eq_none_iff {ps : P} {qtype : RRType} :
    findAnswer ps qname qtype = none ↔ Unanswered ps qname qtype := by
  rw [findAnswer_eq]
  unfold PolicyTable.answer
  cases hget : NameTree.get ps qname with
  | some p => simp [Unanswered, hget]
  | none =>
    have hunanswered : Unanswered ps qname qtype ↔ ∀ m ∈ qname.tails, ∀ p,
        NameTree.get ps m = some p → p.isZoneMatch = true → p.getMessage qname qtype = none := by
      simp [Unanswered, hget]
    rw [hunanswered, findSome?_eq_none_iff]
    refine forall_congr' fun m => forall_congr' fun _ => ?_
    rw [Option.bind_eq_none_iff]
    refine forall_congr' fun p => forall_congr' fun _ => ?_
    rw [LocalPolicy.answerBelow]
    split_ifs with hmatch
    · exact ⟨fun hnone _ => hnone, fun hnone => hnone hmatch⟩
    · exact iff_of_true rfl fun htrue => absurd htrue hmatch

theorem responseWithLocalData_eq_false_iff {policies : String → Option P} {client : Client} {ps : P}
    (hview : policies client.view = some ps)
    (hqname : realQueryName client.question (client.response.map fun r => r.message) = .ok qname) :
    responseWithLocalData policies client = .ok (client, false) ↔
      Unanswered ps qname client.question.typ := by
  rw [← findAnswer_eq_none_iff]
  simp only [responseWithLocalData, hview, hqname]
  cases hanswer : findAnswer ps qname client.question.typ with
  | none | some answer => simp

/-- A passthru zone shields exactly if neither the name nor, without a policy there, a zone above
answers. -/
theorem passthru_shields_iff {policies : String → Option P} {client : Client} {ps : P}
    (hview : policies client.view = some ps) {qname : Name}
    (hqname : realQueryName client.question (client.response.map fun r => r.message) = .ok qname) :
    (∀ p, NameTree.get ps qname = some p → p.kind = .exceptionDomain →
      responseWithLocalData policies client = .ok (client, false)) ∧
    ∀ above, PassthruZone ps qname above →
      (responseWithLocalData policies client = .ok (client, false) ↔
        (∀ p, NameTree.get ps qname = some p → p.getMessage qname client.question.typ = none) ∧
        (NameTree.get ps qname = none → ∀ n ∈ above, ∀ p, NameTree.get ps n = some p →
          p.isZoneMatch = true → p.getMessage qname client.question.typ = none)) := by
  refine ⟨fun p hget hkind => ?_, fun above hzone => ?_⟩
  · refine (responseWithLocalData_eq_false_iff hview hqname).mpr ⟨fun p' hp' => ?_, fun hnone => ?_⟩
    · cases hget.symm.trans hp'
      exact getMessage_exceptionDomain hkind qname _
    · rw [hget] at hnone
      cases hnone
  · exact (responseWithLocalData_eq_false_iff hview hqname).trans
      (unanswered_iff_of_passthruZone hzone)

end

def policyClient (name : Name) : Client where
  ip := [127, 0, 0, 1]
  request := ⟨⟨⟨7, false, false, .noError, 0, 0, 0⟩, ⟨name, .a, .internet⟩, [], [], []⟩, none⟩
  response := none
  view := "default"
  viewId := 0
  cacheHit := false
  cacheAnswer := true

/-- The policies `passthru *.example.com` and these at `*.com`. -/
def policyTable (kind : PolicyKind) : String → Option (NameTable LocalPolicy) := fun _ =>
  some ⟨[(["example", "com"], ⟨true, .exceptionDomain⟩), (["com"], ⟨true, kind⟩)]⟩

theorem passthruZone_policyTable (kind : PolicyKind) :
    PassthruZone (⟨[(["example", "com"], ⟨true, .exceptionDomain⟩), (["com"], ⟨true, kind⟩)]⟩ :
      NameTable LocalPolicy) ["www", "example", "com"] [["com"], []] := by
  refine ⟨[["www", "example", "com"]], ["example", "com"], _, rfl, fun n hn p' hp' => ?_, rfl, rfl,
    rfl⟩
  obtain rfl := mem_singleton.mp hn
  cases hp'

/-- With a redirection of another type at `*.com` the query goes on to the resolvers. -/
theorem example_passthru_obeyed :
    responseWithLocalData (policyTable (.localRRset [])) (policyClient ["www", "example", "com"]) =
      .ok (policyClient ["www", "example", "com"], false) := by
  have hview : policyTable (.localRRset []) (policyClient ["www", "example", "com"]).view =
      some ⟨[(["example", "com"], ⟨true, .exceptionDomain⟩), (["com"], ⟨true, .localRRset []⟩)]⟩ :=
    rfl
  refine ((passthru_shields_iff hview rfl).2 _
    (passthruZone_policyTable _)).mpr ⟨fun p hp => ?_, fun _ n hn p hp _ => ?_⟩
  · cases hp
  · rcases mem_pair.mp hn with rfl | rfl
    · cases hp
      rfl
    · cases hp

/-- With `nxdomain *.com` the query for a name below the passthru zone is denied. -/
theorem example_denied_above_passthru :
    PassthruZone (⟨[(["example", "com"], ⟨true, .exceptionDomain⟩), (["com"], ⟨true, .nxDomain⟩)]⟩ :
      NameTable LocalPolicy) ["www", "example", "com"] [["com"], []] ∧
    ∃ client' r, responseWithLocalData (policyTable .nxDomain)
        (policyClient ["www", "example", "com"]) = .ok (client', true) ∧
      client'.response = some r ∧ r.message.header.rcode = .nxDomain :=
  ⟨passthruZone_policyTable .nxDomain, _, _, rfl, rfl, rfl⟩

end Vanguard.LocalData
