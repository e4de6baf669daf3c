import Vanguard.Dns.Memory
import Vanguard.Library.LinkedList

/-!
# The message cache

`MessageCache` keeps messages in the order of their last use and finds them by the hash of the name
and the type. It stores the pointer it is given. Adding a message sets its RA flag, bounds its ttls
and may clear sections; finding one turns the rdatas of its answers round.
-/

namespace Vanguard.Cache

open Library

/-- What the cache and the handlers take from `g53` and from Go itself. -/
structure Runtime where
  hash : Name → UInt32
  /-- `RotateRdata`, which reorders the rdatas of an RRset. -/
  rotate : List Rdata → List Rdata
  rotate_perm : ∀ l, (rotate l).Perm l
  sort : (Rdata → ℕ) → List Rdata → List Rdata
  sort_perm : ∀ priority l, (sort priority l).Perm l
  grow : ℕ → ℕ

abbrev Key := UInt64

def keyForMessage (rt : Runtime) (name : Name) (typ : RRType) : Key :=
  (rt.hash name).toUInt64 <<< 32 ||| typ.code.toUInt64

structure MessageCacheEntry where
  message : Ptr
  expireTime : Time
  deriving DecidableEq, Repr

def MessageCacheEntry.isExpire (e : MessageCacheEntry) (now : Time) : Bool := e.expireTime < now

structure MessageCache where
  positiveTtl : UInt32
  negativeTtl : UInt32
  maxSize : ℕ
  shortAnswer : Bool
  ll : LinkedList MessageCacheEntry
  cache : Key → Option (Element MessageCacheEntry)

/-- `ClearSection(AuthSection)`. -/
def clearAuth (msg : Message Slice) : Message Slice :=
  { msg with auth := .nil, header := { msg.header with nsCount := 0 } }

/-- `ClearSection(AdditionalSection)`. -/
def clearAdditional (msg : Message Slice) : Message Slice :=
  { msg with additional := .nil, header := { msg.header with arCount := 0 } }

/-- One round of the loop of `positiveMessageToCache` over the answers. -/
def clampTtl (positiveTtl : UInt32) (acc : Memory × UInt32) (answer : Ptr) : Memory × UInt32 :=
  let ttl := (acc.1.rrsets.load answer).ttl
  if ttl < acc.2 then (acc.1, ttl)
  else if positiveTtl < ttl then
    (acc.1.modifyRRset answer (fun r => { r with ttl := positiveTtl }), acc.2)
  else acc

def clampSoa (negativeTtl : UInt32) (mem : Memory) (auths : List Ptr) : Memory × UInt32 :=
  match auths with
  | [soa] =>
    if (mem.rrsets.load soa).typ = .soa then
      match (mem.rrsets.load soa).rdatas with
      | [.soa rdata] =>
        let minTtl := if rdata.minimum < negativeTtl then rdata.minimum else negativeTtl
        if (mem.rrsets.load soa).ttl < minTtl then (mem, (mem.rrsets.load soa).ttl)
        else (mem.modifyRRset soa (fun r => { r with ttl := minTtl }), minTtl)
      | _ => (mem, negativeTtl)
    else (mem, negativeTtl)
  | _ => (mem, negativeTtl)

namespace MessageCache

def newMessageCache (maxSize : ℕ) (shortAnswer : Bool) : MessageCache :=
  ⟨3600, 60, maxSize, shortAnswer, .new, fun _ => none⟩

section

variable (c : MessageCache) (now : Time) (mem : Memory) (message : Ptr)

def negativeMessageToCache : Memory × MessageCacheEntry :=
  let (mem, minTtl) := clampSoa c.negativeTtl mem ((mem.messages.load message).auth.read mem.arrays)
  let mem := if c.shortAnswer then mem.modifyMessage message clearAdditional else mem
  (mem, ⟨message, now.after minTtl⟩)

def positiveMessageToCache : Memory × MessageCacheEntry :=
  let mem :=
    if c.shortAnswer then mem.modifyMessage message (fun msg => clearAdditional (clearAuth msg))
    else mem
  let answers := (mem.messages.load message).answer.read mem.arrays
  let (mem, minTtl) := answers.foldl (clampTtl c.positiveTtl) (mem, c.positiveTtl)
  (mem, ⟨message, now.after minTtl⟩)

def messageToCache : Memory × MessageCacheEntry :=
  let mem := mem.modifyMessage message
    (fun msg => { msg with header := { msg.header with ra := true } })
  if 0 < (mem.messages.load message).answer.len then c.positiveMessageToCache now mem message
  else c.negativeMessageToCache now mem message

end

def removeElement (rt : Runtime) (c : MessageCache) (mem : Memory)
    (e : Element MessageCacheEntry) : MessageCache :=
  let question := (mem.messages.load e.value.message).question
  { c with
    ll := c.ll.remove e
    cache := Function.update c.cache (keyForMessage rt question.name question.typ) none }

def removeOldest (rt : Runtime) (c : MessageCache) (mem : Memory) : MessageCache :=
  match c.ll.back with
  | some e => removeElement rt c mem e
  | none => c

/-- The part of `add` that stores the entry. Every holder of a used element sees the new one. -/
def place (c : MessageCache) (key : Key) (entry : MessageCacheEntry) : MessageCache :=
  match c.cache key with
  | some elem =>
    { c with
      ll := (c.ll.moveToFront elem).setValue elem entry
      cache := fun k =>
        (c.cache k).map (fun e => if e.id = elem.id then { e with value := entry } else e) }
  | none =>
    { c with
      ll := (c.ll.pushFront entry).1
      cache := Function.update c.cache key (some (c.ll.pushFront entry).2) }

variable (rt : Runtime)

def add (c : MessageCache) (mem : Memory) (key : Key) (entry : MessageCacheEntry) : MessageCache :=
  let c := c.place key entry
  if c.maxSize ≠ 0 ∧ c.maxSize < c.ll.len then removeOldest rt c mem else c

def addMessage (c : MessageCache) (now : Time) (mem : Memory) (message : Ptr) :
    MessageCache × Memory :=
  let (mem, entry) := c.messageToCache now mem message
  let question := (mem.messages.load message).question
  (add rt c mem (keyForMessage rt question.name question.typ) entry, mem)

/-- The element `get` finds: its entry has not expired and its message says the name asked for. -/
def lookup (c : MessageCache) (now : Time) (mem : Memory) (name : Name) (typ : RRType) :
    Option (Element MessageCacheEntry) :=
  (c.cache (keyForMessage rt name typ)).filter fun elem =>
    !elem.value.isExpire now && (mem.messages.load elem.value.message).question.name = name

def roundrobinAnswer (mem : Memory) (message : Ptr) : Memory :=
  ((mem.messages.load message).answer.read mem.arrays).foldl
    (fun mem rrset =>
      if 1 < (mem.rrsets.load rrset).rdatas.length then
        mem.modifyRRset rrset (fun r => { r with rdatas := rt.rotate r.rdatas })
      else mem)
    mem

def get (c : MessageCache) (now : Time) (mem : Memory) (name : Name) (typ : RRType) :
    Option (Ptr × MessageCache × Memory) :=
  (lookup rt c now mem name typ).map fun elem =>
    (elem.value.message, { c with ll := c.ll.moveToFront elem },
      roundrobinAnswer rt mem elem.value.message)

end MessageCache

end Vanguard.Cache
