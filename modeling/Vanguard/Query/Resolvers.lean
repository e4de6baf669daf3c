import Vanguard.LocalData.Shielding
import Vanguard.Query.Selector

/-!
# The resolvers

Local data and the zones come first, then the stub zones, the forwarder and the recursor behind
`QueryLimit`, everything inside `CNameHandler`. Each tells from `client.Response` whether somebody
has answered. What they meet outside is given.
-/

namespace Vanguard.Query

open LocalData (LocalPolicy responseWithLocalData)

/-- What a call of `singleflight.Do` is to its caller. -/
inductive Flight where
  | leads
  | follows (r : Left)
  /-- Too many functions run already and it gets an error. -/
  | exceeds
  deriving DecidableEq, Repr

inductive StubOutcome where
  /-- `NewSafeUDPSender` fails. -/
  | senderFails
  | noMasters
  | failed
  | replied (msg : Packet)
  deriving DecidableEq, Repr

inductive RecursorOutcome where
  /-- Too many recursive queries run already. -/
  | exceeds
  | failed
  | replied (msg : Packet)
  deriving DecidableEq, Repr

structure Modules where
  localData : Bool
  auth : Bool
  /-- `ModuleStubZone`. -/
  stub : Bool
  forwarder : Bool
  recursor : Bool
  deriving DecidableEq, Repr

/-- There is a `QueryLimit`. -/
def Modules.limit (mods : Modules) : Bool := mods.stub || mods.forwarder || mods.recursor

/-- There is a `ResolverManager`. -/
def Modules.any (mods : Modules) : Bool := mods.localData || mods.auth || mods.limit

structure World (P : Type) where
  policies : String → Option P
  zoneAnswer : String → Packet → Option (Message Section)
  /-- What the first call of `Do` is. -/
  flight : Flight
  later : List Flight
  stub : StubOutcome
  forward : Option Packet
  recursorEnable : Bool
  recursion : RecursorOutcome

abbrev Resolve := Client → Except Stop Client

def link (enabled : Bool) (resolve : Resolve → Resolve) (next : Resolve) : Resolve :=
  if enabled then resolve next else next

/-- `client.Response != nil && ClassifyResponse(client.Response) == REFERRAL`. -/
def isReferral (response : Option Response) : Except Stop Bool :=
  match response with
  | none => .ok false
  | some r =>
    match classifyResponse r.message with
    | .error f => .error (.fault f)
    | .ok typ => .ok (typ = .referral)

def fakeAuthResolve {P : Type} [NameTree P LocalPolicy] (policies : String → Option P)
    (next : Resolve) : Resolve := fun client =>
  match responseWithLocalData policies client with
  | .error f => .error (.fault f)
  | .ok (client, true) => .ok { client with cacheAnswer := false }
  | .ok (client, false) => next client

def authResolve (zoneAnswer : String → Packet → Option (Message Section)) (next : Resolve) :
    Resolve := fun client =>
  match zoneAnswer client.view client.request with
  | none => next client
  | some msg =>
    let client := { client with response := some ⟨⟨msg, none⟩, .resolver .auth⟩ }
    match isReferral client.response with
    | .error e => .error e
    | .ok true => next client
    | .ok false => .ok { client with cacheAnswer := false }

def Client.servFail (client : Client) : Response :=
  Response.mapHeader (fun h => { h with rcode := .servFail })
    ⟨client.request.makeResponse, .resolver .stub⟩

def stubResolve (outcome : StubOutcome) (next : Resolve) : Resolve := fun client =>
  if outcome = .senderFails then .ok client
  else
    match isReferral client.response with
    | .error e => .error e
    | .ok true => .ok client
    | .ok false =>
      match outcome with
      | .replied msg =>
        .ok { client with response := some ⟨msg, .resolver .stub⟩, cacheAnswer := false }
      | .failed => .ok { client with response := some client.servFail, cacheAnswer := false }
      | _ => next client

def processRequest (reply : Option Packet) (client : Client) : Client :=
  match reply with
  | none => client
  | some msg => { client with response := some ⟨msg, .resolver .forwarder⟩ }

def forwarderResolve (reply : Option Packet) (next : Resolve) : Resolve := fun client =>
  match isReferral client.response with
  | .error e => .error e
  | .ok true => .ok client
  | .ok false =>
    let client := processRequest reply client
    match client.response with
    | some r =>
      .ok { client with
        response := some (r.mapHeader fun h =>
          { h with id := client.request.message.header.id, aa := false })
        cacheAnswer := true }
    | none => next client

def recurse (outcome : RecursorOutcome) (client : Client) : Except Stop Client :=
  if outcome = .exceeds then .ok client
  else
    match isReferral client.response with
    | .error e => .error e
    | .ok _ =>
      match outcome with
      | .replied msg =>
        .ok { client with response := some ((⟨msg, .resolver .recursor⟩ : Response).mapHeader
          fun h => { h with id := client.request.message.header.id }) }
      | _ => .ok client

def recursorResolve (enable : Bool) (outcome : RecursorOutcome) (next : Resolve) : Resolve :=
  fun client =>
    let resolved : Except Stop Client :=
      if enable then
        (recurse outcome client).map fun client =>
          { client with
            response := client.response.map (.mapHeader fun h => { h with ra := true }) }
      else .ok client
    match resolved with
    | .error e => .error e
    | .ok client => if client.response.isSome then .ok client else next client

/-- `QueryLimit.Resolve` over what `Do` is to each of its calls. -/
def queryLimitResolve (resolver : Resolve) : List Flight → Resolve
  | [], _ => .error .waits
  | flight :: flights, client =>
    let shared : Except Stop (Option (Client × Left)) :=
      match flight with
      | .leads => (resolver client).map fun client => some (client, client.left)
      | .follows r => .ok (some (client, r))
      | .exceeds => .ok none
    match shared with
    | .error e => .error e
    | .ok none => .ok client
    | .ok (some (client, r)) =>
      if client.response.isSome then .ok client
      else
        match r.response with
        | none => .ok client
        | some resp =>
          if client.question.name = resp.message.question.name then
            .ok { client with
              response := some { resp.mapHeader fun h =>
                { h with id := client.request.message.header.id } with
                producer := .copied resp.producer }
              cacheAnswer := r.cacheAnswer }
          else queryLimitResolve resolver flights client

section chain

variable {P : Type} [NameTree P LocalPolicy] (mods : Modules)

/-- The resolvers behind `QueryLimit`. -/
def outsideResolve (w : World P) : Resolve :=
  link mods.stub (stubResolve w.stub) <|
    link mods.forwarder (forwarderResolve w.forward) <|
      link mods.recursor (recursorResolve w.recursorEnable w.recursion) .ok

def limitResolve (w : World P) : Resolve :=
  link mods.limit (fun _ => queryLimitResolve (outsideResolve mods w) (w.flight :: w.later)) .ok

/-- The resolvers inside `CNameHandler`. -/
def chainResolve (w : World P) : Resolve :=
  link mods.localData (fakeAuthResolve w.policies) <|
    link mods.auth (authResolve w.zoneAnswer) <| limitResolve mods w

/-- The resolver that `CNameHandler` calls; each call meets a world of its own. -/
def resolverOf (worlds : ℕ → World P) (n : ℕ) (client : Client) : ℕ × Except Stop Left :=
  (n + 1, (chainResolve mods (worlds n) client).map Client.left)

def resolverHandleQuery (checkCnameIndirect : Bool) (worlds : ℕ → World P) (next : Resolve) :
    Resolve := fun client =>
  match (cnameResolve (resolverOf mods worlds) checkCnameIndirect client ⟨0, []⟩).2 with
  | .error e => .error e
  | .ok client => if client.response.isSome then .ok client else next client

end chain

def failForwarderHandleQuery (reply : Option Packet) : Resolve := fun client =>
  match reply with
  | none => .ok client
  | some msg => .ok { client with response := some ⟨msg, .resolver .failForwarder⟩ }

/-- `Cache.HandleQuery`, with what is found in the cache and the message that `AddMessage` gets. -/
def cacheHandleQuery (found : Option Response) (next : Resolve) (client : Client) :
    Except Stop (Client × Option Response) :=
  match found with
  | some message =>
    let response := message.mapHeader fun h =>
      { h with id := client.request.message.header.id, aa := false }
    let response := { response with
      message := { response.message with question := client.question }
      producer := .copied message.producer }
    .ok ({ client with cacheHit := true, response := some response }, none)
  | none =>
    match next { client with cacheHit := false } with
    | .error e => .error e
    | .ok client => .ok (client, if client.cacheAnswer then client.response else none)

structure Pass (P : Type) where
  found : Option Response
  worlds : ℕ → World P
  failForward : Option Packet

structure BackConf where
  mods : Modules
  checkCnameIndirect : Bool
  failForwarder : Bool
  deriving DecidableEq, Repr

def Pass.afterResolvers {P : Type} (pass : Pass P) (conf : BackConf) : Resolve :=
  if conf.failForwarder then failForwarderHandleQuery pass.failForward else .ok

variable {P : Type} [NameTree P LocalPolicy] (pass : Pass P) (conf : BackConf)

def Pass.behindCache : Resolve :=
  link conf.mods.any (resolverHandleQuery conf.mods conf.checkCnameIndirect pass.worlds)
    (pass.afterResolvers conf)

def Pass.handleQuery : Client → Except Stop (Client × Option Response) :=
  cacheHandleQuery pass.found (pass.behindCache conf)

end Vanguard.Query
