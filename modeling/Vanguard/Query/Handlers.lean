import Vanguard.Cache.Handlers
import Vanguard.Query.Resolvers

/-!
# The way of a query through the handlers

The zones of Kubernetes, the view selector, the filters, then `aaaa_filter`, `sort_list`, `hijack`
and `dns64`, which work on the response when it comes back, and the cache. A handler that is not
enabled is one whose settings do nothing.
-/

namespace Vanguard.Query

open LocalData (LocalPolicy responseWithLocalData realQueryName)

structure Conf (P : Type) where
  /-- The response of the zones of `K8SAuth` to a request, none if the name is in none of them. -/
  k8sAnswer : Packet → Option (Message Section)
  mgr : SelectorMgr
  allowQuery : Client → Bool
  dropSrvFailed : Bool
  rt : Cache.Runtime
  /-- The settings of `aaaa_filter`, `sort_list`, `hijack` and `dns64` in each view. -/
  views : String → Cache.ViewConf P
  back : BackConf

/-- What a query meets from the cache on, and what that of `dns64` meets. -/
structure Passes (P : Type) where
  first : Pass P
  second : Pass P

def isCNameResponse (msg : Message Section) : Except Fault Bool :=
  if msg.header.anCount ≠ 1 then .ok false
  else
    match msg.answer with
    | [] => .error .indexOutOfRange
    | rrset :: _ => .ok (rrset.typ = .cname)

/-- The target of the alias that `redirectQuery` follows. -/
def redirectTarget (msg : Message Section) : Except Fault Name :=
  match msg.answer with
  | [] => .error .indexOutOfRange
  | rrset :: _ => firstTarget rrset.rdatas

/-- `mergeResponse` of `K8SAuth`. -/
def mergeK8s (first redirect : Response) : Response :=
  { first with message := { first.message with
      answer := first.message.answer ++ redirect.message.answer
      header := { first.message.header with rcode := redirect.message.header.rcode } } }

def k8sHandleQuery (k8sAnswer : Packet → Option (Message Section)) (next : Resolve) : Resolve :=
  fun client =>
    match k8sAnswer client.request with
    | none => next client
    | some msg =>
      let origin : Response := ⟨⟨msg, none⟩, .resolver .auth⟩
      match isCNameResponse msg with
      | .error f => .error (.fault f)
      | .ok false => .ok { client with response := some origin, cacheAnswer := false }
      | .ok true =>
        match redirectTarget msg with
        | .error f => .error (.fault f)
        | .ok target =>
          match next { client.asking { client.question with name := target } with
              response := none, cacheAnswer := false } with
          | .error e => .error e
          | .ok redirected =>
            match redirected.response with
            | none => .ok redirected
            | some response =>
              .ok { redirected.asking { redirected.question with name := client.question.name } with
                response := some (mergeK8s origin response) }

def selectorHandleQuery (mgr : SelectorMgr) (next : Resolve) : Resolve := fun client =>
  match mgr.selectView client with
  | .error e => .error e
  | .ok client => next client

def allowResponse (drop : Bool) (response : Option Response) : Bool :=
  !drop || response.any fun r => r.message.header.rcode ≠ .servFail

def filterHandleQuery (allowQuery : Client → Bool) (drop : Bool) (next : Resolve) : Resolve :=
  fun client =>
    if allowQuery client = false then .ok client
    else
      match next client with
      | .error e => .error e
      | .ok client =>
        if allowResponse drop client.response then .ok client
        else .ok { client with response := none }

/-- `transferAdaptor.HandleQuery`. -/
def transferAdaptor (transferResponse : Resolve) (next : Resolve) : Resolve := fun client =>
  match next client with
  | .error e => .error e
  | .ok client => transferResponse client

section transfers

variable {P : Type} (rt : Cache.Runtime) (views : String → Cache.ViewConf P)

def removeAaaaRecords (r : Response) : Response :=
  { r with message := { r.message with
      answer := r.message.answer.filter fun rrset => rrset.typ ≠ .aaaa
      additional := r.message.additional.filter fun rrset => rrset.typ ≠ .aaaa } }

def aaaaFilterTransferResponse : Resolve := fun client =>
  match client.response with
  | none => .ok client
  | some r =>
    if Cache.isTransferEnable (views client.view) client.ip &&
        r.message.header.rcode = .noError then
      .ok { client with response := some (removeAaaaRecords r) }
    else .ok client

/-- The loop of `SortList.TransferResponse`. -/
def sortAnswers (conf : Cache.ViewConf P) (ip : List UInt8) : Section → Except Fault Section
  | [] => .ok []
  | rrset :: answers =>
    match Cache.sortRRset rt conf ip rrset, sortAnswers conf ip answers with
    | .error f, _ => .error f
    | _, .error f => .error f
    | .ok sorted, .ok answers => .ok (sorted.getD rrset :: answers)

def sortListTransferResponse : Resolve := fun client =>
  match client.response with
  | none => .ok client
  | some r =>
    match sortAnswers rt (views client.view) client.ip r.message.answer with
    | .error f => .error (.fault f)
    | .ok answer =>
      .ok { client with response := some { r with message := { r.message with answer } } }

def hijackTransferResponse [NameTree P LocalPolicy] : Resolve := fun client =>
  if client.response.any fun r => r.message.header.rcode ≠ .nxDomain then .ok client
  else
    match responseWithLocalData (fun view => (views view).policies) client with
    | .error f => .error (.fault f)
    | .ok (client, _) => .ok client

end transfers

/-- Each answer up to the first A RRset is appended, and that one converted. -/
def mergeAnswers (converters : List Cache.Dns64Converter) : Section → Section → Except Fault Section
  | [], finalAnswers => .ok finalAnswers
  | answer :: answers, finalAnswers =>
    if answer.typ ≠ .a then mergeAnswers converters answers (finalAnswers ++ [answer])
    else (Cache.synthesisAAAAFromA converters answer).map fun aaaa => finalAnswers ++ [aaaa]

def synthesizeDNS64Response (converters : List Cache.Dns64Converter) (originalQuestion : Question)
    (originalResponse : Response) : Resolve := fun client =>
  let client := client.asking originalQuestion
  match client.response with
  | none => .ok { client with response := some originalResponse }
  | some response =>
    match mergeAnswers converters response.message.answer originalResponse.message.answer with
    | .error f => .error (.fault f)
    | .ok answer =>
      .ok { client with response := some { response with message := { response.message with
        question := originalQuestion, answer } } }

/-- The client of the query for addresses that `queryARecord` passes on. -/
def Client.aRecordQuery (client : Client) (name : Name) : Client :=
  { client.asking ⟨name, .a, client.question.cls⟩ with response := none }

section chain

variable {P : Type} [NameTree P LocalPolicy]

def Pass.respond (pass : Pass P) (back : BackConf) : Resolve := fun client =>
  (pass.handleQuery back client).map Prod.fst

variable (conf : Conf P)

/-- `DNS64.HandleQuery`, from the response to the query on. -/
def dns64TransferResponse (second : Pass P) : Resolve := fun client =>
  match client.response with
  | none => .ok client
  | some original =>
    if Cache.needDNS64Synthesis (conf.views client.view) client.question original.message then
      match realQueryName client.question (some original.message) with
      | .error f => .error (.fault f)
      | .ok nextName =>
        match second.respond conf.back (client.aRecordQuery nextName) with
        | .error e => .error e
        | .ok answered =>
          synthesizeDNS64Response (conf.views answered.view).converters client.question original
            answered
    else .ok client

variable (passes : Passes P)

def dns64HandleQuery : Resolve :=
  transferAdaptor (dns64TransferResponse conf passes.second) (passes.first.respond conf.back)

def transferHandleQuery : Resolve :=
  transferAdaptor (aaaaFilterTransferResponse conf.views) <|
    transferAdaptor (sortListTransferResponse conf.rt conf.views) <|
      transferAdaptor (hijackTransferResponse conf.views) <| dns64HandleQuery conf passes

def behindSelector : Resolve :=
  filterHandleQuery conf.allowQuery conf.dropSrvFailed (transferHandleQuery conf passes)

def handleQuery : Resolve :=
  k8sHandleQuery conf.k8sAnswer <| selectorHandleQuery conf.mgr <| behindSelector conf passes

end chain

/-- The client that comes to the view selector, none if `K8SAuth` does not pass the query on. -/
def atSelector (k8sAnswer : Packet → Option (Message Section)) (client : Client) : Option Client :=
  match k8sAnswer client.request with
  | none => some client
  | some msg =>
    match isCNameResponse msg, redirectTarget msg with
    | .ok true, .ok target =>
      some { client.asking { client.question with name := target } with
        response := none, cacheAnswer := false }
    | _, _ => none

end Vanguard.Query
