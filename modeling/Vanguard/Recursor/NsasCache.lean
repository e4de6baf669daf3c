import Vanguard.Dns.Message
import Vanguard.Dns.NameTree
import Vanguard.Library.LinkedList

/-!
# The recursor's cache of zones and name servers

`NsasCache` remembers which name servers a zone has and at which addresses. An entry that has not
expired is replaced only by one that is trusted at least as much, or more.
-/

namespace Vanguard.Recursor

open Library

inductive TrustLevel where
  | outOfZone
  | fromReferal
  | fromAuth
  deriving DecidableEq, Repr

def TrustLevel.level : TrustLevel → ℕ
  | .outOfZone => 0
  | .fromReferal => 1
  | .fromAuth => 2

structure AddressEntry where
  addr : Rdata
  rtt : Int64
  deriving DecidableEq, Repr

structure NameServerEntry where
  name : Name
  addrEntrys : List AddressEntry
  expireTime : Time
  trustLevel : TrustLevel
  deriving DecidableEq, Repr

def NameServerEntry.isExpired (e : NameServerEntry) (now : Time) : Bool := e.expireTime < now

/-- The clock, and the random times that the addresses of a new entry start from. -/
structure Instant where
  now : Time
  /-- `rand.Intn(10)` for an address of an entry. -/
  draw : ℕ → ℕ → Fin 10

def newNameServerEntry (at_ : Instant) (index : ℕ) (name : Name) (ttl : UInt32)
    (addrs : List Rdata) (trustLevel : TrustLevel) : Except Fault NameServerEntry :=
  if addrs = [] then .error .noAddr
  else .ok
    { name
      addrEntrys := addrs.zipIdx.map (fun a => ⟨a.1, .ofNat (at_.draw index a.2)⟩)
      expireTime := at_.now.after ttl
      trustLevel }

structure NameServerManager where
  nsEntrys : UInt32 → Option NameServerEntry

section

variable (hash : Name → UInt32)

variable (ns : NameServerManager)

def NameServerManager.keeps (now : Time) (name : Name) (trustLevel : TrustLevel) : Bool :=
  match ns.nsEntrys (hash name) with
  | some oldEntry => !oldEntry.isExpired now && trustLevel.level ≤ oldEntry.trustLevel.level
  | none => false

def NameServerManager.addNameServer (at_ : Instant) (index : ℕ) (name : Name) (ttl : UInt32)
    (addrs : List Rdata) (trustLevel : TrustLevel) : Except Fault NameServerManager :=
  match newNameServerEntry at_ index name ttl addrs trustLevel with
  | .error f => .error f
  | .ok e =>
    if ns.keeps hash at_.now name trustLevel then .ok ns
    else .ok ⟨Function.update ns.nsEntrys (hash name) (some e)⟩

def NameServerManager.getNameServer (name : Name) : Option NameServerEntry :=
  (ns.nsEntrys (hash name)).filter (fun e => e.name = name)

end

structure ZoneEntry where
  zone : Name
  nameServers : List Name
  expireTime : Time
  trustLevel : TrustLevel
  deriving DecidableEq, Repr

def ZoneEntry.isExpired (e : ZoneEntry) (now : Time) : Bool := e.expireTime < now

def newZoneEntry (now : Time) (name : Name) (nameServers : List Name) (ttl : UInt32)
    (trustLevel : TrustLevel) : ZoneEntry :=
  ⟨name, nameServers, now.after ttl, trustLevel⟩

/-- `NsasCache`. The tree leads to the elements of the list, the last visited first. -/
structure NsasCache (T : Type) where
  zones : T
  visitedZone : LinkedList ZoneEntry
  nameServers : NameServerManager

def nsName : Rdata → Option Name
  | .ns name => some name
  | _ => none

/-- `errAuthSectionIsNotValid`. -/
inductive AuthError where
  | errAuthSectionIsNotValid
  deriving DecidableEq, Repr

def glueFor (glues : Section) (server : Name) : RRset Rdata :=
  glues.foldl
    (fun valid glue =>
      if glue.typ = .a ∧ glue.name = server then
        { valid with rdatas := valid.rdatas ++ glue.rdatas, ttl := glue.ttl }
      else valid)
    ⟨server, .a, .internet, 0, []⟩

def getAuthAndGlues (_zone : Name) (msg : Message Section) :
    Except Fault (Except AuthError (RRset Rdata × List (RRset Rdata))) :=
  let auth :=
    if msg.question.typ = .ns ∧ msg.answer.length = 1 then msg.answer else msg.auth
  match auth with
  | [nsRRset] =>
    if nsRRset.typ ≠ .ns then .ok (.error .errAuthSectionIsNotValid)
    else
      match nsRRset.rdatas.mapM nsName with
      | none => .error .typeAssertion
      | some servers =>
        let validGlues := (servers.map (glueFor msg.additional)).filter (fun g => g.rdatas ≠ [])
        .ok (.ok (nsRRset, validGlues))
  | _ => .ok (.error .errAuthSectionIsNotValid)

section

variable {T : Type} [NameTree T (Element ZoneEntry)] (hash : Name → UInt32)

/-- The loop of `AddZoneNameServer` over the glues, from the `index`-th on. -/
def addGlues (at_ : Instant) (zone : Name) :
    ℕ → List (RRset Rdata) → NameServerManager → Except Fault Unit × NameServerManager
  | _, [], ns => (.ok (), ns)
  | index, glue :: glues, ns =>
    let trustLevel := if glue.name.isSubDomain zone then .fromAuth else .outOfZone
    match ns.addNameServer hash at_ index glue.name glue.ttl glue.rdatas trustLevel with
    | .error f => (.error f, ns)
    | .ok ns' => addGlues at_ zone (index + 1) glues ns'

def missingAndKnown (ns : NameServerManager) (now : Time) (servers : List Name) :
    List Name × List Name :=
  let missing := servers.filter fun s =>
    match ns.getNameServer hash s with
    | some e => e.isExpired now || e.trustLevel = .outOfZone
    | none => true
  let known := servers.filter fun s =>
    match ns.getNameServer hash s with
    | some e => !e.isExpired now
    | none => false
  (missing, known)

def newNsasCache : NsasCache T := ⟨NameTree.newDomainTree, .new, ⟨fun _ => none⟩⟩

def NsasCache.addZone (nc : NsasCache T) (now : Time) (nsRRset : RRset Rdata)
    (trustLevel : TrustLevel) : Except Fault (List Name × List Name) × NsasCache T :=
  match nsRRset.rdatas.mapM nsName with
  | none => (.error .typeAssertion, nc)
  | some serverNames =>
    let push : NsasCache T :=
      let zoneEntry := newZoneEntry now nsRRset.name serverNames nsRRset.ttl trustLevel
      let (visitedZone, elem) := nc.visitedZone.pushFront zoneEntry
      { nc with visitedZone, zones := NameTree.insert nc.zones nsRRset.name elem }
    match NameTree.search nc.zones nsRRset.name with
    | .exactMatch elem =>
      if elem.value.isExpired now = false ∧ trustLevel.level < elem.value.trustLevel.level then
        (.ok ([], []), { nc with visitedZone := nc.visitedZone.moveToFront elem })
      else (.ok (missingAndKnown hash nc.nameServers now serverNames), push)
    | _ => (.ok (missingAndKnown hash nc.nameServers now serverNames), push)

def trustOf (msg : Message Section) : TrustLevel :=
  if msg.header.aa then .fromAuth else .fromReferal

def NsasCache.addZoneNameServer (nc : NsasCache T) (at_ : Instant) (zone : Name)
    (msg : Message Section) : Except Fault (List Name × List Name) × NsasCache T :=
  match getAuthAndGlues zone msg with
  | .error f => (.error f, nc)
  | .ok (.error _) => (.ok ([], []), nc)
  | .ok (.ok (nsRRset, glues)) =>
    match addGlues hash at_ zone 0 glues nc.nameServers with
    | (.error f, nameServers) => (.error f, { nc with nameServers })
    | (.ok (), nameServers) =>
      NsasCache.addZone hash { nc with nameServers } at_.now nsRRset (trustOf msg)

/-- What `handleResponse` goes on with. -/
inductive Continuation where
  | answer (response : Message Section)
  | query (missing : List Name) (wait : Bool)
  | errInvalidResponse
  deriving DecidableEq, Repr

def handleFinalAnswer (at_ : Instant) (question : Question) (zone : Name)
    (response : Message Section) (nc : NsasCache T) : Except Fault Continuation × NsasCache T :=
  match NsasCache.addZoneNameServer hash nc at_ zone response with
  | (.error f, nc') => (.error f, nc')
  | (.ok _, nc') => (.ok (.answer { response with question }), nc')

def handleReferal (at_ : Instant) (zone : Name) (response : Message Section) (nc : NsasCache T) :
    Except Fault Continuation × NsasCache T :=
  match NsasCache.addZoneNameServer hash nc at_ zone response with
  | (.error f, nc') => (.error f, nc')
  | (.ok (missing, known), nc') => (.ok (.query missing (known = [])), nc')

def handleResponse (at_ : Instant) (question : Question) (zone : Name)
    (response : Message Section) (nc : NsasCache T) : Except Fault Continuation × NsasCache T :=
  match classifyResponse response with
  | .error f => (.error f, nc)
  | .ok .unknown => (.ok .errInvalidResponse, nc)
  | .ok .referral => handleReferal hash at_ zone response nc
  | .ok _ => handleFinalAnswer hash at_ question zone response nc

end

end Vanguard.Recursor
