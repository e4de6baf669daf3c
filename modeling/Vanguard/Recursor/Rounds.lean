import Vanguard.Recursor.Select

/-!
# The rounds of the recursor

`handleQuery` counts the rounds of a context in `depth`. A referral also starts a goroutine for each
missing name server, whose context goes on counting. The cache, the replies, the clock and the pool
are shared, so every step takes them as they happen to be.
-/

namespace Vanguard.Recursor

open Library

def maxQueryDep : ℕ := 20

inductive RoundPhase where
  /-- `handleReferal` is called with the response the client came with. -/
  | referal (response : Message Section)
  /-- `handleQuery` is called. -/
  | query
  /-- `doQuery` waits for the first of the servers. -/
  | sent (servers : List NameServer)
  /-- The loop of `getMissingNameServer`: the names left, whether to wait, the queries started. -/
  | missing (names : List Name) (wait : Bool) (outQuery : ℕ)
  /-- `getMissingNameServer` waits for the first server. -/
  | waiting
  /-- `handleQuery` has returned, or a panic has ended the goroutine. -/
  | ended
  deriving DecidableEq, Repr

structure RecursorCtx where
  question : Question
  /-- The rounds counted so far, those of the contexts it comes from included. -/
  depth : ℕ
  nameServers : List NameServer
  phase : RoundPhase
  inherited : ℕ
  parent : Option ℕ
  rounds : ℕ
  deriving DecidableEq, Repr

inductive Meets (T : Type) where
  /-- `handleQuery` at this time with this cache, after the time for the query is over or not. -/
  | cache (nc : NsasCache T) (now : Time) (late : Bool)
  /-- `handleReferal` for the response the client came with. -/
  | referral (nc : NsasCache T) (at_ : Instant)
  /-- `doQuery` returns with an error, or with a response for this cache. -/
  | reply (nc : NsasCache T) (at_ : Instant) (response : Option (Message Section))
  | pool (available : Bool)
  | wake

inductive Blocked where
  | blocked
  deriving DecidableEq, Repr

namespace RecursorCtx

def init (question : Question) (nameServers : List NameServer) (phase : RoundPhase) : RecursorCtx :=
  ⟨question, 0, nameServers, phase, 0, none, 0⟩

/-- The context that `getMissingNameServer` makes for a server. -/
def newCtx (ctx : RecursorCtx) (server : Name) : RecursorCtx where
  question := ⟨server, .a, .internet⟩
  depth := ctx.depth
  nameServers := ctx.nameServers
  phase := .query
  inherited := ctx.depth
  parent := some ctx.depth
  rounds := 0

def goTo (ctx : RecursorCtx) (phase : RoundPhase) : RecursorCtx := { ctx with phase }

/-- What `handleResponse` or `handleReferal` goes on with. -/
def goOn (ctx : RecursorCtx) : Except Fault Continuation → RecursorCtx
  | .ok (.query missing wait) =>
    if missing = [] ∨ maxQueryDep < ctx.depth then ctx.goTo .query
    else ctx.goTo (.missing missing wait 0)
  | .ok (.answer _) | .ok .errInvalidResponse | .error _ => ctx.goTo .ended

variable {T : Type} [NameTree T (Element ZoneEntry)] [ErasableNameTree T (Element ZoneEntry)]
  (hash : Name → UInt32) (ctx : RecursorCtx)

/-- `handleQuery` up to the call of `doQuery`. -/
def handleQuery (nc : NsasCache T) (now : Time) (late : Bool) : Option RecursorCtx :=
  let ctx := { ctx with depth := ctx.depth + 1 }
  if maxQueryDep ≤ ctx.depth ∨ (1 < ctx.depth ∧ late = true) then some (ctx.goTo .ended)
  else
    match (nc.select hash now ctx.question.name).1 with
    | some (.ok []) => some { ctx with phase := .sent ctx.nameServers, rounds := ctx.rounds + 1 }
    | some (.ok servers) => some { ctx with phase := .sent servers, rounds := ctx.rounds + 1 }
    | some (.error _) => some (ctx.goTo .ended)
    | none => none

def next : Meets T → Option (List RecursorCtx)
  | .cache nc now late =>
    match ctx.phase with
    | .query => (ctx.handleQuery hash nc now late).map ([·])
    | _ => none
  | .referral nc at_ =>
    match ctx.phase with
    | .referal response => some [ctx.goOn (handleReferal hash at_ .root response nc).1]
    | _ => none
  | .reply nc at_ response =>
    match ctx.phase, response with
    | .sent _, none => some [ctx.goTo .query]
    | .sent (server :: _), some response =>
      some [ctx.goOn (handleResponse hash at_ ctx.question server.zone response nc).1]
    | _, _ => none
  | .pool available =>
    match ctx.phase with
    | .missing [] wait outQuery =>
      some [ctx.goTo (if wait = true ∧ 0 < outQuery then .waiting else .query)]
    | .missing (name :: names) wait outQuery =>
      if available then
        -- `cloneNameServers` panics
        if ctx.nameServers = [] then some [ctx.goTo .ended]
        else some [ctx.goTo (.missing names wait (outQuery + 1)), ctx.newCtx name]
      else some [ctx.goTo (.missing names wait outQuery)]
    | _ => none
  | .wake =>
    match ctx.phase with
    | .waiting => some [ctx.goTo .query]
    | _ => none

end RecursorCtx

structure RoundEvent (T : Type) where
  ctx : ℕ
  meets : Meets T

section

variable {T : Type} [NameTree T (Element ZoneEntry)] [ErasableNameTree T (Element ZoneEntry)]
  (hash : Name → UInt32)

/-- One step of the contexts that come from one call of `resolver`. -/
def roundStep (ctxs : List RecursorCtx) (e : RoundEvent T) : Except Blocked (List RecursorCtx) :=
  match ctxs[e.ctx]? with
  | some ctx =>
    match ctx.next hash e.meets with
    | some new => .ok (ctxs.eraseIdx e.ctx ++ new)
    | none => .error .blocked
  | none => .error .blocked

end

/-- `resolver`, which trusts the referral a client comes with. -/
def startRounds (question : Question) (nameServers : List NameServer)
    (response : Option (Message Section)) : List RecursorCtx :=
  match response with
  | some referral =>
    match classifyResponse referral with
    | .ok .referral => [.init question nameServers (.referal referral)]
    | .ok _ => [.init question nameServers .query]
    -- a panic, which the server recovers from
    | .error _ => []
  | none => [.init question nameServers .query]

end Vanguard.Recursor
