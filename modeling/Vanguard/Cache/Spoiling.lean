import Vanguard.Cache.Pass

namespace Vanguard.Cache

open Library LocalData Memory List

variable {P : Type} (rt : Runtime) (conf : ViewConf P)

def storedReply (query : Query) (server : Server) (question : Question) :
    Option (Message Section) :=
  let found := MessageCache.lookup rt server.cache query.now server.mem question.name question.typ
  if found.isNone && (query.resolve question).cacheAnswer then (query.resolve question).message
  else none

def rewritesByHijack [NameTree P LocalPolicy] (question : Question) (response : Message Section) :
    Bool :=
  response.header.rcode = .nxDomain &&
    conf.policies.any fun policies =>
      match realQueryName question (some response) with
      | .ok qname =>
        match findAnswer policies qname question.typ with
        | some (.rrset _) => true
        | _ => false
      | .error _ => false

/-- `aaaa_filter` takes records from a response with these records. -/
def rewritesByFilter (ip : List UInt8) (short : Bool) (response : Message Section) : Bool :=
  isTransferEnable conf ip && response.header.rcode = .noError &&
    (response.answer.any (fun r => r.typ = .aaaa) ||
      (!short && response.additional.any (fun r => r.typ = .aaaa)))

/-- The reply to the query goes into the cache, and `hijack` or `aaaa_filter` then rewrites it. -/
def replyRewritten [NameTree P LocalPolicy] (server : Server) (query : Query) : Bool :=
  (storedReply rt query server query.question).any fun v =>
    rewritesByHijack conf query.question v ||
      rewritesByFilter conf query.ip server.cache.shortAnswer v

/-- `dns64` asks for addresses, and the reply, which it then rewrites, goes into the cache. -/
def synthesisStored (server : Server) (query : Query) : Bool :=
  let ctx := cacheHandleQuery rt query ⟨server, newClient query, none⟩
  ctx.client.response.any fun response =>
    needDNS64Synthesis conf query.question (ctx.server.mem.view response) &&
      match realQueryName query.question (some (ctx.server.mem.view response)) with
      | .ok nextName =>
        (storedReply rt query ctx.server ⟨nextName, .a, query.question.cls⟩).isSome
      | .error _ => false

def Unspoiled [NameTree P LocalPolicy] (server : Server) : Input → Prop
  | .query q => replyRewritten rt conf server q = false ∧ synthesisStored rt conf server q = false
  | .prefetch _ _ => True

instance [NameTree P LocalPolicy] (server : Server) :
    ∀ input, Decidable (Unspoiled rt conf server input)
  | .query _ => inferInstanceAs (Decidable (_ ∧ _))
  | .prefetch _ _ => inferInstanceAs (Decidable True)

variable {response response' : Message Section}

theorem realQueryName_eq_of_bare (question : Question)
    (h : response.answer.map bare = response'.answer.map bare) :
    realQueryName question (some response) = realQueryName question (some response') := by
  have hlast := congrArg List.getLast? h
  simp only [getLast?_map] at hlast
  simp only [realQueryName]
  cases hr : response.answer.getLast? with
  | none =>
    cases hr' : response'.answer.getLast? with
    | none => rfl
    | some last' => simp [hr, hr'] at hlast
  | some last =>
    cases hr' : response'.answer.getLast? with
    | none => simp [hr, hr'] at hlast
    | some last' =>
      rw [hr, hr'] at hlast
      have hbare : bare last = bare last' := Option.some.inj hlast
      have htyp : last.typ = last'.typ := by simpa [bare] using congrArg (fun r => r.typ) hbare
      have hrdatas : last.rdatas = last'.rdatas := by
        simpa [bare] using congrArg (fun r => r.rdatas) hbare
      simp only [htyp, hrdatas]

theorem rewritesByHijack_eq_of_bare [NameTree P LocalPolicy] (question : Question)
    (hrcode : response.header.rcode = response'.header.rcode)
    (h : response.answer.map bare = response'.answer.map bare) :
    rewritesByHijack conf question response = rewritesByHijack conf question response' := by
  simp only [rewritesByHijack, hrcode, realQueryName_eq_of_bare question h]

/-- `aaaa_filter` finds nothing to remove for the client. -/
def LeftByFilter (ip : List UInt8) (seen : Seen) : Prop :=
  isTransferEnable conf ip = true → seen.rcode = .noError →
    (∀ r ∈ seen.answer, r.typ ≠ .aaaa) ∧ ∀ r ∈ seen.additional, r.typ ≠ .aaaa

theorem leftByFilter_cutOff {ip : List UInt8} {short : Bool} {v : Message Section}
    (h : rewritesByFilter conf ip short v = false) : LeftByFilter conf ip (cutOff short v) := by
  intro henable hrcode
  have hcode : v.header.rcode = .noError := hrcode
  simp only [rewritesByFilter, henable, hcode, decide_true, Bool.true_and, Bool.or_eq_false_iff,
    any_eq_false, decide_eq_true_eq, Bool.and_eq_false_iff, Bool.not_eq_false'] at h
  refine ⟨fun r hr => ?_, fun r hr => ?_⟩
  · obtain ⟨rrset, hrrset, rfl⟩ := mem_map.mp hr
    exact h.1 rrset hrrset
  · simp only [cutOff, Seen.cut] at hr
    rcases h.2 with hshort | hnone
    · simp [hshort] at hr
    · split at hr
      · cases hr
      · obtain ⟨rrset, hrrset, rfl⟩ := mem_map.mp hr
        exact hnone rrset hrrset

end Vanguard.Cache
