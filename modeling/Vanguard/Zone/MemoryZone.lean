import Vanguard.Zone.DomainTree
import Vanguard.Dns.RRset
import Mathlib.Data.List.AList

namespace Vanguard.Zone

open Library

/-- The errors of `zone.go` and `g53` that zone operations return. -/
inductive ZoneError where
  | outOfZone
  /-- `ErrCNAMECoExistsWithOtherRR`. -/
  | cnameCoExistsWithOtherRR
  | shortOfSOA
  | shortOfNS
  | unknownRRset
  | noEffectiveUpdate
  /-- `g53.ErrDuplicateRdata`. -/
  | duplicateRdata
  deriving DecidableEq, Repr

inductive Panic where
  | noNsAtZoneCut
  | wildcardNotCorrectMarked
  | nilNodeData
  | nilRRset
  /-- `Rdatas[0]` of an RRset without rdata. -/
  | indexOutOfRange
  | notSOA
  | zoneShortOfSoa
  | zoneSoaIsNotOne
  deriving DecidableEq, Repr

/-- `NameNode`: the RRset pointer stored for each type. A type can be stored with a nil pointer. -/
abbrev NameNode := AList (fun _ : RRType => Option Ptr)

def NameNode.clone (n : NameNode) : NameNode := n

/-- Whether the pointer taken at creation is still the node of the origin, which `Remove` can take
out of the tree. -/
inductive OriginNode where
  | attached
  | detached
  deriving DecidableEq, Repr

structure MemoryZone (T : Type) where
  origin : Name
  originNode : OriginNode
  domains : T

/-- What a call leaves behind: the objects, the zone, and the error it returned, if any. -/
structure Outcome (T : Type) where
  objects : Objects
  zone : MemoryZone T
  err : Option ZoneError

def rdatasDiff (h : Objects) (first second : List Ptr) : List Ptr :=
  first.filter (fun src => !second.any (fun target => h.rdatas.load src = h.rdatas.load target))

def firstSerial (h : Objects) (r : RRset Ptr) : Except Panic UInt32 :=
  match r.rdatas with
  | [] => .error .indexOutOfRange
  | p :: _ =>
    match h.rdatas.load p with
    | .soa soa => .ok soa.serial
    | _ => .error .notSOA

/-- `AddRdata` for each new rdata. The flag says that all were duplicates. -/
def addRdatas (h : Objects) (old new : List Ptr) : List Ptr × Bool :=
  new.foldl (fun acc p =>
    if acc.1.any (fun q => h.rdatas.load q = h.rdatas.load p) then acc
    else (acc.1 ++ [p], false)) (old, true)

/-- What `addRRset` does with the type's slot of a node that has data. -/
inductive Merge where
  | keep (err : Option ZoneError)
  | store (objects : Objects) (p : Ptr)

/-- The part of `addRRset` that decides what a node with data will hold for the new RRset. -/
def mergeRRset (h : Objects) (nodeData : NameNode) (p : Ptr) : Except Panic Merge :=
  let rrset := h.rrsets.load p
  if rrset.typ = .soa then
    match nodeData.lookup .soa with
    | some (some old) =>
      match firstSerial h (h.rrsets.load old) with
      | .error e => .error e
      | .ok oldSerial =>
        match firstSerial h rrset with
        | .error e => .error e
        | .ok newSerial => if oldSerial ≥ newSerial then .ok (.keep none) else .ok (.store h p)
    | _ => .ok (.store h p)
  else
    match nodeData.lookup rrset.typ with
    | none => .ok (.store h p)
    | some old =>
      if rrset.typ = .cname then .ok (.store h p)
      else
        match old with
        | none => .error .nilRRset
        | some old =>
          let oldRRset := h.rrsets.load old
          let merged := addRdatas h oldRRset.rdatas rrset.rdatas
          if merged.2 ∧ rrset.ttl = oldRRset.ttl then .ok (.keep (some .duplicateRdata))
          else
            -- `oldRRset.Clone()` with the new rdatas and ttl
            let alloc := h.allocRRset { oldRRset with ttl := rrset.ttl, rdatas := merged.1 }
            .ok (.store alloc.1 alloc.2)

def checkRRsetCouldBeAdded (nodeData : NameNode) (rrset : RRset Ptr) : Option ZoneError :=
  if rrset.typ ≠ .cname then
    if (nodeData.lookup .cname).isSome then some .cnameCoExistsWithOtherRR else none
  else if nodeData.entries.length > 1 then some .cnameCoExistsWithOtherRR
  else if (nodeData.lookup .cname).isNone then some .cnameCoExistsWithOtherRR
  else none

variable {T : Type} [DomainTree T NameNode]

def newWithDomains (origin : Name) (domains : T) : MemoryZone T :=
  ⟨origin, .attached, insert domains origin⟩

def newMemoryZone (origin : Name) : MemoryZone T := newWithDomains origin newDomainTree

def markWildcardParent (domains : T) (name : Name) : T :=
  setMark (insert domains name.parent) name.parent true

def unmarkWildcardParent (domains : T) (name : Name) : T :=
  match search domains name.parent with
  | (_, .exactMatch) => setMark domains name.parent false
  | _ => domains

namespace MemoryZone

section

variable (z : MemoryZone T)

/-- `clone`: the tree and the maps of its nodes are copied, the RRset pointers are shared. -/
def clone : MemoryZone T :=
  newWithDomains z.origin (Zone.clone NameNode.clone z.domains)

def originData : Option NameNode :=
  match z.originNode with
  | .attached => dataAt z.domains z.origin
  | .detached => none

def isEmpty : Bool := z.originData.isNone

def validate : Option ZoneError :=
  match z.originData with
  | none => some .shortOfSOA
  | some node =>
    if (node.lookup .soa).isNone then some .shortOfSOA
    else if (node.lookup .ns).isNone then some .shortOfNS
    else none

def checkRRsetValid (rrset : RRset Ptr) : Option ZoneError :=
  if rrset.typ = .ns ∧ rrset.name.isWildCard = true then some .noEffectiveUpdate
  else if rrset.name.isSubDomain z.origin = false then some .outOfZone
  else none

/-- The end of `addRRset`: write the node's map, then set the flags the new RRset asks for. -/
def storeNode (domains : T) (rrset : RRset Ptr) (nodeData : NameNode) : MemoryZone T :=
  let stored := setData domains rrset.name nodeData
  let flagged :=
    if rrset.typ = .ns ∧ rrset.name ≠ z.origin then setCallback stored rrset.name true else stored
  { z with
    domains := if rrset.name.isWildCard then markWildcardParent flagged rrset.name else flagged }

end

def addRRset (h : Objects) (z : MemoryZone T) (p : Ptr) : Except Panic (Outcome T) :=
  let rrset := h.rrsets.load p
  match z.checkRRsetValid rrset with
  | some err => .ok ⟨h, z, some err⟩
  | none =>
    let domains := insert z.domains rrset.name
    match dataAt domains rrset.name with
    | none => .ok ⟨h, z.storeNode domains rrset (AList.insert rrset.typ (some p) ∅), none⟩
    | some nodeData =>
      match checkRRsetCouldBeAdded nodeData rrset with
      | some err => .ok ⟨h, { z with domains }, some err⟩
      | none =>
        match mergeRRset h nodeData p with
        | .error e => .error e
        | .ok (.keep err) => .ok ⟨h, { z with domains }, err⟩
        | .ok (.store h' q) =>
          .ok ⟨h', z.storeNode domains rrset (nodeData.insert rrset.typ (some q)), none⟩

def checkRRsetCouldBeDeleted (h : Objects) (z : MemoryZone T) (rrset : RRset Ptr) :
    Except Panic (Option ZoneError) :=
  if rrset.name.isSubDomain z.origin = false then .ok (some .outOfZone)
  else if rrset.name = z.origin then
    if rrset.typ = .soa then .ok (some .shortOfSOA)
    else if rrset.typ = .ns then
      match z.originData with
      | none => .error .nilNodeData
      | some node =>
        match node.lookup .ns with
        | some (some ns) =>
          if rdatasDiff h (h.rrsets.load ns).rdatas rrset.rdatas = [] then .ok (some .shortOfNS)
          else .ok none
        | _ => .error .nilRRset
    else .ok none
  else .ok none

section

variable (z : MemoryZone T) (name : Name)

/-- `getNode`: the data of the node, none for `ErrUnknownRRset`. -/
def getNode : Option NameNode :=
  match search z.domains name with
  | (_, .exactMatch) => dataAt z.domains name
  | _ => none

def removeName : MemoryZone T :=
  let domains := remove z.domains name
  { z with
    domains
    originNode := if (node domains z.origin).isSome then z.originNode else .detached }

def deleteNode : MemoryZone T :=
  let removed := z.removeName name
  if name.isWildCard then
    { removed with domains := unmarkWildcardParent removed.domains name }
  else removed

/-- `delete(nodeData, typ)`, after which a node without any type is deleted. -/
def dropType (nodeData : NameNode) (typ : RRType) : MemoryZone T :=
  let left := nodeData.erase typ
  let z' := { z with domains := setData z.domains name left }
  if left.entries.length = 0 then z'.deleteNode name else z'

end

variable (h : Objects) (z : MemoryZone T)

def deleteRRset (p : Ptr) : Except Panic (Outcome T) :=
  let rrset := h.rrsets.load p
  match z.checkRRsetCouldBeDeleted h rrset with
  | .error e => .error e
  | .ok (some err) => .ok ⟨h, z, some err⟩
  | .ok none =>
    match z.getNode rrset.name with
    | none => .ok ⟨h, z, some .unknownRRset⟩
    | some nodeData =>
      match nodeData.lookup rrset.typ with
      | none => .ok ⟨h, z, some .unknownRRset⟩
      | some _ => .ok ⟨h, z.dropType rrset.name nodeData rrset.typ, none⟩

def deleteDomain (name : Name) : Except Panic (Outcome T) :=
  if name.isSubDomain z.origin = false then .ok ⟨h, z, some .outOfZone⟩
  else
    match z.getNode name with
    | none => .ok ⟨h, z, some .unknownRRset⟩
    | some oldData =>
      if name = z.origin then
        -- a type the old map does not have is copied as a nil pointer
        let newData : NameNode :=
          AList.insert .ns ((oldData.lookup .ns).getD none)
            (AList.insert .soa ((oldData.lookup .soa).getD none) ∅)
        .ok ⟨h, { z with domains := setData z.domains name newData }, none⟩
      else .ok ⟨h, z.deleteNode name, none⟩

def deleteRr (p : Ptr) : Except Panic (Outcome T) :=
  let rrset := h.rrsets.load p
  match z.checkRRsetCouldBeDeleted h rrset with
  | .error e => .error e
  | .ok (some err) => .ok ⟨h, z, some err⟩
  | .ok none =>
    match z.getNode rrset.name with
    | none => .ok ⟨h, z, some .unknownRRset⟩
    | some nodeData =>
      match nodeData.lookup rrset.typ with
      | none => .ok ⟨h, z, some .unknownRRset⟩
      | some none => .error .nilRRset
      | some (some old) =>
        let oldRRset := h.rrsets.load old
        let left := rdatasDiff h oldRRset.rdatas rrset.rdatas
        if left = [] then .ok ⟨h, z.dropType rrset.name nodeData rrset.typ, none⟩
        else
          let alloc := h.allocRRset { oldRRset with rdatas := left }
          .ok ⟨alloc.1,
            { z with
              domains := setData z.domains rrset.name
                (nodeData.insert rrset.typ (some alloc.2)) }, none⟩

def increaseSerialNumber : Except Panic Objects :=
  match z.originData with
  | none => .error .zoneShortOfSoa
  | some node =>
    match (node.lookup .soa).getD none with
    | none => .error .nilRRset
    | some soa =>
      match (h.rrsets.load soa).rdatas with
      | [p] =>
        match h.rdatas.load p with
        | .soa rdata =>
          .ok { h with rdatas := h.rdatas.write p (.soa { rdata with serial := rdata.serial + 1 }) }
        | _ => .error .notSOA
      | _ => .error .zoneSoaIsNotOne

end MemoryZone

end Vanguard.Zone
