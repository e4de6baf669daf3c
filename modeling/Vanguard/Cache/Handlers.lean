import Vanguard.Cache.MessageCache
import Vanguard.LocalData.LocalData

/-!
# The handlers around the cache

The cache comes last before the resolver, so `dns64`, `hijack`, `sort_list` and `aaaa_filter` work
on the response it leaves: on a miss the very object that was stored, on a hit a copy of its struct.
A handler that panics ends the query, and the objects stay as they are then.
-/

namespace Vanguard.Cache

open Library LocalData

structure Client where
  ip : List UInt8
  id : UInt16
  question : Question
  response : Option Ptr
  cacheHit : Bool
  cacheAnswer : Bool

inductive Event where
  | added (m : Ptr) (reply : Message Section)
  | handed (m : Ptr) (question : Question) (response : Message Section)
  deriving DecidableEq, Repr

/-- The objects, the message cache of the view, and what happened at it, the latest first. -/
structure Server where
  mem : Memory
  cache : MessageCache
  trace : List Event

structure Reply where
  /-- `client.Response` as they leave it. -/
  message : Option (Message Section)
  spare : ℕ
  cacheAnswer : Bool

structure Query where
  ip : List UInt8
  id : UInt16
  question : Question
  now : Time
  resolve : Question → Reply

/-- A query on its way through the handlers, and the panic that ended it. -/
structure Ctx where
  server : Server
  client : Client
  fault : Option Fault

structure Dns64Converter where
  pre : List UInt8
  suffix : List UInt8
  prefixLen : ℕ
  deriving DecidableEq, Repr

def Dns64Converter.synthesisAddr (c : Dns64Converter) (v4 : List UInt8) : List UInt8 :=
  let v6 := (v4.take 4).foldl
    (fun v6 b =>
      if 16 ≤ v6.length then v6 else if v6.length = 8 then v6 ++ [0, b] else v6 ++ [b])
    (c.pre.take (c.prefixLen / 8))
  (v6 ++ c.suffix.drop v6.length).takeD 16 0

structure ViewConf (P : Type) where
  acls : Option (List String)
  aclFind : String → List UInt8 → Bool
  sortOrder : List UInt8 → Option (List UInt8 → Option ℕ)
  policies : Option P
  converters : List Dns64Converter

def fetch (rt : Runtime) (now : Time) (reply : Reply) (server : Server) : Server × Option Ptr :=
  match reply.message with
  | none => (server, none)
  | some v =>
    let (mem, m) := server.mem.storeMessage v reply.spare
    if reply.cacheAnswer then
      let (cache, mem) := MessageCache.addMessage rt server.cache now mem m
      (⟨mem, cache, .added m v :: server.trace⟩, some m)
    else ({ server with mem }, some m)

def cacheHandleQuery (rt : Runtime) (query : Query) (ctx : Ctx) : Ctx :=
  let question := ctx.client.question
  match MessageCache.get rt ctx.server.cache query.now ctx.server.mem
    question.name question.typ with
  | some (m, cache, mem) =>
    let message := mem.messages.load m
    let header := { message.header with id := ctx.client.id, aa := false }
    let (mem, response) := mem.allocMessage { message with header, question }
    { ctx with
      server := ⟨mem, cache, .handed m question (mem.view response) :: ctx.server.trace⟩
      client := { ctx.client with cacheHit := true, response := some response } }
  | none =>
    let reply := query.resolve question
    let (server, response) := fetch rt query.now reply ctx.server
    let client := { ctx.client with cacheHit := false, cacheAnswer := reply.cacheAnswer }
    { ctx with server, client := { client with response := response.or client.response } }

section

variable {P : Type} (rt : Runtime) (conf : ViewConf P)

def needDNS64Synthesis (question : Question) (response : Message Section) : Bool :=
  conf.converters ≠ [] && question.typ = .aaaa && response.header.rcode = .noError &&
    response.answer.all (fun r => r.typ ≠ .aaaa)

/-- The address behind the type assertion `rdata.(*g53.A).Host`, none if it panics. -/
def hostOfA : Rdata → Option (List UInt8)
  | .a host => some host
  | _ => none

def synthesisAAAAFromA (converters : List Dns64Converter) (a : RRset Rdata) :
    Except Fault (RRset Rdata) :=
  match a.rdatas.mapM hostOfA with
  | none => .error .typeAssertion
  | some hosts =>
    .ok { a with
      typ := .aaaa
      rdatas := converters.flatMap (fun c => hosts.map (fun h => .aaaa (c.synthesisAddr h))) }

/-- Each answer up to the first A RRset is appended, and that one converted. -/
def mergeAnswers (answers : Slice) : List ℕ → Memory → Slice → Memory × Except Fault Slice
  | [], mem, finalAnswers => (mem, .ok finalAnswers)
  | i :: is, mem, finalAnswers =>
    let p := mem.arrays.load answers.array i
    let answer := mem.rrsets.load p
    if answer.typ ≠ .a then
      let (mem, finalAnswers) := mem.append rt.grow finalAnswers p
      mergeAnswers answers is mem finalAnswers
    else
      match synthesisAAAAFromA conf.converters answer with
      | .error f => (mem, .error f)
      | .ok aaaa =>
        let (mem, p) := mem.allocRRset aaaa
        let (mem, finalAnswers) := mem.append rt.grow finalAnswers p
        (mem, .ok finalAnswers)

def synthesizeDNS64Response (originalQuestion : Question) (originalResponse : Ptr) (ctx : Ctx) :
    Ctx :=
  let client := { ctx.client with question := originalQuestion }
  match client.response with
  | none => { ctx with client := { client with response := some originalResponse } }
  | some response =>
    let mem := ctx.server.mem
    let finalAnswers := (mem.messages.load originalResponse).answer
    let answers := (mem.messages.load response).answer
    match mergeAnswers rt conf answers (List.range answers.len) mem finalAnswers with
    | (mem, .error f) => { server := { ctx.server with mem }, client, fault := some f }
    | (mem, .ok finalAnswers) =>
      let mem := mem.modifyMessage response
        (fun msg => { msg with question := originalQuestion, answer := finalAnswers })
      { ctx with server := { ctx.server with mem }, client }

/-- The query for addresses that `queryARecord` passes on. -/
def aRecordQuery (name : Name) (ctx : Ctx) : Ctx :=
  { ctx with client := { ctx.client with
      response := none
      question := ⟨name, .a, ctx.client.question.cls⟩ } }

def dns64HandleQuery (query : Query) (ctx : Ctx) : Ctx :=
  let ctx := cacheHandleQuery rt query ctx
  match ctx.client.response with
  | none => ctx
  | some response =>
    let message := ctx.server.mem.view response
    if needDNS64Synthesis conf ctx.client.question message then
      match realQueryName ctx.client.question (some message) with
      | .error f => { ctx with fault := some f }
      | .ok nextName =>
        synthesizeDNS64Response rt conf ctx.client.question response
          (cacheHandleQuery rt query (aRecordQuery nextName ctx))
    else ctx

def makeResponse (client : Client) : Message Slice :=
  ⟨⟨client.id, false, false, .noError, 0, 0, 0⟩, client.question, .nil, .nil, .nil⟩

def respond (rcode : Rcode) (ctx : Ctx) : Ctx :=
  let response := makeResponse ctx.client
  let (mem, m) := ctx.server.mem.allocMessage
    { response with header := { response.header with rcode } }
  { ctx with
    server := { ctx.server with mem }
    client := { ctx.client with response := some m } }

/-- `LocalRRset.GetMessage` from the RRset it found on: the RRset goes into the message. -/
def addLocalRRset (r : RRset Rdata) (m : Ptr) (mem : Memory) : Memory :=
  let (mem, p) := mem.allocRRset r
  let (mem, answers) := mem.append rt.grow (mem.messages.load m).answer p
  mem.modifyMessage m fun msg =>
    { msg with
      answer := answers
      header := { msg.header with anCount := .ofNat r.rdatas.length, rcode := .noError } }

def applyAnswer (answer : PolicyAnswer) (ctx : Ctx) : Ctx :=
  match answer with
  | .nxDomain => respond .nxDomain ctx
  | .nxRRset => respond .noError ctx
  | .rrset r =>
    let ctx := if ctx.client.response.isSome then ctx else respond .noError ctx
    match ctx.client.response with
    | some m =>
      { ctx with server := { ctx.server with mem := addLocalRRset rt r m ctx.server.mem } }
    | none => ctx

def hijackTransferResponse [NameTree P LocalPolicy] (ctx : Ctx) : Ctx :=
  let response := ctx.client.response.map ctx.server.mem.view
  if response.any (fun msg => msg.header.rcode ≠ .nxDomain) then ctx
  else
    match conf.policies with
    | none => ctx
    | some policies =>
      match realQueryName ctx.client.question response with
      | .error f => { ctx with fault := some f }
      | .ok qname =>
        match findAnswer policies qname ctx.client.question.typ with
        | none => ctx
        | some answer => applyAnswer rt answer ctx

/-- The address behind the type assertion for an RRset of type A or AAAA, none if it panics. -/
def hostOf (typ : RRType) : Rdata → Option (List UInt8)
  | .a host => if typ = .a then some host else none
  | .aaaa host => if typ = .a then none else some host
  | _ => none

def sortRRset (ip : List UInt8) (r : RRset Rdata) : Except Fault (Option (RRset Rdata)) :=
  if r.rdatas.length < 2 ∨ (r.typ ≠ .a ∧ r.typ ≠ .aaaa) then .ok none
  else
    match conf.sortOrder ip with
    | none => .ok none
    | some order =>
      if r.rdatas.all (fun d => (hostOf r.typ d).isSome) then
        let priority d := ((hostOf r.typ d).bind order).getD 65535
        .ok (some { r with rdatas := rt.sort priority r.rdatas })
      else .error .typeAssertion

/-- The loop of `SortList.TransferResponse` over the indices of the answers. -/
def sortAnswers (ip : List UInt8) (answers : Slice) : List ℕ → Memory → Memory × Option Fault
  | [], mem => (mem, none)
  | i :: is, mem =>
    match sortRRset rt conf ip (mem.rrsets.load (mem.arrays.load answers.array i)) with
    | .error f => (mem, some f)
    | .ok none => sortAnswers ip answers is mem
    | .ok (some r) =>
      let (mem, p) := mem.allocRRset r
      sortAnswers ip answers is (mem.setElem answers i p)

def sortListTransferResponse (ctx : Ctx) : Ctx :=
  match ctx.client.response with
  | none => ctx
  | some response =>
    let answers := (ctx.server.mem.messages.load response).answer
    let (mem, fault) :=
      sortAnswers rt conf ctx.client.ip answers (List.range answers.len) ctx.server.mem
    { ctx with server := { ctx.server with mem }, fault }

def isTransferEnable (ip : List UInt8) : Bool :=
  match conf.acls with
  | none => false
  | some acls => acls.any (fun acl => conf.aclFind acl ip)

def removeAaaaInSection (mem : Memory) (rrsets : Slice) : Memory × Slice :=
  (rrsets.read mem.arrays).foldl
    (fun acc p =>
      if (acc.1.rrsets.load p).typ ≠ .aaaa then acc.1.append rt.grow acc.2 p else acc)
    (mem, .nil)

def removeAaaaRecords (mem : Memory) (response : Ptr) : Memory :=
  let (mem, answer) := removeAaaaInSection rt mem (mem.messages.load response).answer
  let mem := mem.modifyMessage response (fun msg => { msg with answer })
  let (mem, additional) := removeAaaaInSection rt mem (mem.messages.load response).additional
  mem.modifyMessage response (fun msg => { msg with additional })

def aaaaFilterTransferResponse (ctx : Ctx) : Ctx :=
  match ctx.client.response with
  | none => ctx
  | some response =>
    if isTransferEnable conf ctx.client.ip &&
        (ctx.server.mem.messages.load response).header.rcode = .noError then
      { ctx with server := { ctx.server with mem := removeAaaaRecords rt ctx.server.mem response } }
    else ctx

/-- `transferAdaptor.HandleQuery`: pass the query on and then transfer the response. -/
def transferAdaptor (transferResponse next : Ctx → Ctx) (ctx : Ctx) : Ctx :=
  let ctx := next ctx
  if ctx.fault.isSome then ctx else transferResponse ctx

def newClient (query : Query) : Client := ⟨query.ip, query.id, query.question, none, false, true⟩

/-- A query through the handlers from `aaaa_filter` on. -/
def handleQuery [NameTree P LocalPolicy] (server : Server) (query : Query) : Ctx :=
  transferAdaptor (aaaaFilterTransferResponse rt conf)
    (transferAdaptor (sortListTransferResponse rt conf)
      (transferAdaptor (hijackTransferResponse rt conf) (dns64HandleQuery rt conf query)))
    ⟨server, newClient query, none⟩

/-- What the server does: it answers a query, or its prefetcher renews a message. -/
inductive Input where
  | query (q : Query)
  | prefetch (now : Time) (reply : Reply)

def step [NameTree P LocalPolicy] (server : Server) : Input → Except Fault Server
  | .query q => .ok (handleQuery rt conf server q).server
  | .prefetch now reply => .ok (fetch rt now reply server).1

def newServer (maxSize : ℕ) (shortAnswer : Bool) : Server :=
  ⟨.empty, MessageCache.newMessageCache maxSize shortAnswer, []⟩

end

end Vanguard.Cache
