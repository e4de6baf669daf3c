import Vanguard.Query.Client
import Mathlib.Data.List.Chain

/-!
# Following CNAMEs

As long as the answer is an alias `CNameHandler` asks for the target and adds what it gets to the
first response. The resolver is arbitrary and may keep a state; every call of it is recorded.
-/

namespace Vanguard.Query

inductive Stop where
  | fault (f : Fault)
  | invalidKey
  | waits
  deriving DecidableEq, Repr

structure Call where
  question : Question
  response : Option Response
  deriving DecidableEq, Repr

structure Resolution (σ : Type) where
  state : σ
  calls : List Call

/-- `Context`, without the count of redirects, which `followCNameChain` keeps. -/
structure Context where
  originalQuestion : Question
  response : Response
  client : Client
  namechain : List Name

def maxRedirectCount : ℕ := 16

def firstTarget (rdatas : List Rdata) : Except Fault Name :=
  match rdatas with
  | [] => .error .indexOutOfRange
  | .cname name :: _ => .ok name
  | _ :: _ => .error .typeAssertion

section

variable (checkCnameIndirect : Bool)

def decidingRRset (answers : Section) : Option (RRset Rdata) :=
  if checkCnameIndirect then answers.head? else answers.getLast?

def needRedirect : Option Response → Except Fault (Option Name)
  | none => .ok none
  | some msg =>
    if msg.message.header.anCount = 0 then .ok none
    else
      match decidingRRset checkCnameIndirect msg.message.answer with
      | none => .error .indexOutOfRange
      | some rrset => if rrset.typ = .cname then (firstTarget rrset.rdatas).map some else .ok none

def Response.cut (r : Response) : Response :=
  if checkCnameIndirect then
    { r with message := { r.message with answer := r.message.answer.take 1 } }
  else r

end

namespace Context

variable (ctx : Context)

def lastName : Name := ctx.namechain.getLastD ctx.originalQuestion.name

/-- The question of `makeRedirectQuery`. -/
def redirectQuestion : Question :=
  ⟨ctx.lastName, ctx.originalQuestion.typ, ctx.originalQuestion.cls⟩

def mergeResponse : Option Response → Context
  | none => ctx
  | some response =>
    { ctx with response := { ctx.response with message := { ctx.response.message with
        answer := ctx.response.message.answer ++ response.message.answer
        header := { ctx.response.message.header with rcode := response.message.header.rcode } } } }

/-- `addRedirect`, none for `ErrCNameCircleIsDetected`. -/
def addRedirect (nextName : Name) : Option Context :=
  if ctx.namechain.any (fun name => name = nextName) then none
  else some { ctx with namechain := ctx.namechain ++ [nextName] }

def assembleFinalResponse : Client :=
  let client := ctx.client.asking ctx.originalQuestion
  let message := { ctx.response.message with
    header := { ctx.response.message.header with id := client.request.message.header.id }
    question := ctx.originalQuestion }
  { client with response := some { ctx.response with message } }

end Context

def newCNameContext (client : Client) (response : Response) : Context :=
  ⟨client.question, response, client, [client.question.name]⟩

section handler

variable {σ : Type} (resolver : σ → Client → σ × Except Stop Left) (checkCnameIndirect : Bool)

def Resolution.ask (t : Resolution σ) (client : Client) : Resolution σ × Except Stop Client :=
  match resolver t.state client with
  | (state, .ok left) => (⟨state, t.calls ++ [⟨client.question, left.response⟩]⟩,
      .ok (client.fill left))
  | (state, .error e) => (⟨state, t.calls ++ [⟨client.question, none⟩]⟩, .error e)

/-- `followCNameChain` up to the recursive call, which the flag announces. -/
def followOnce (ctx : Context) (t : Resolution σ) : Resolution σ × Except Stop (Context × Bool) :=
  match t.ask resolver { ctx.client.asking ctx.redirectQuestion with response := none } with
  | (t, .error e) => (t, .error e)
  | (t, .ok client) =>
    let ctx := { ctx with client }
    match needRedirect checkCnameIndirect client.response with
    | .error f => (t, .error (.fault f))
    | .ok none => (t, .ok (ctx.mergeResponse client.response, false))
    | .ok (some nextName) =>
      let ctx := ctx.mergeResponse (client.response.map (.cut checkCnameIndirect))
      match ctx.addRedirect nextName with
      | none => (t, .ok (ctx, false))
      | some ctx => (t, .ok (ctx, true))

/-- `followCNameChain` with this many redirects left; with none left the chain is too long. -/
def followCNameChain : ℕ → Context → Resolution σ → Resolution σ × Except Stop Context
  | 0, ctx, t => (t, .ok ctx)
  | n + 1, ctx, t =>
    match followOnce resolver checkCnameIndirect ctx t with
    | (t, .error e) => (t, .error e)
    | (t, .ok (ctx, false)) => (t, .ok ctx)
    | (t, .ok (ctx, true)) => followCNameChain n ctx t

def cnameResolve (client : Client) (t : Resolution σ) : Resolution σ × Except Stop Client :=
  match t.ask resolver client with
  | (t, .error e) => (t, .error e)
  | (t, .ok client) =>
    match needRedirect checkCnameIndirect client.response, client.response with
    | .error f, _ => (t, .error (.fault f))
    | .ok (some nextName), some response =>
      let ctx := newCNameContext client (response.cut checkCnameIndirect)
      let ctx := (ctx.addRedirect nextName).getD ctx
      match followCNameChain resolver checkCnameIndirect maxRedirectCount ctx t with
      | (t, .error e) => (t, .error e)
      | (t, .ok ctx) => (t, .ok ctx.assembleFinalResponse)
    | .ok _, _ => (t, .ok client)

end handler

end Vanguard.Query
