import Vanguard.Zone.MemoryZone

/-!
# Looking a name up in a zone

`find` descends towards the name and notes the first zone cut on the way. It answers from the node
of the name, from the wildcard below the deepest node above it, or with one of the negative
results.
-/

namespace Vanguard.Zone

section

open Library

inductive ResultType where
  | success
  | delegation
  | nxDomain
  | nxRRset
  | cname
  | servFail
  deriving DecidableEq, Repr

inductive FindOption where
  | default
  | glueOk
  deriving DecidableEq, Repr

/-- An RRset a lookup returns: the stored object, or a copy of it owned by the query name. -/
inductive Found where
  | stored (p : Ptr)
  /-- `synthesis := *rrset` with its name replaced. -/
  | synthesis (p : Ptr) (name : Name)
  deriving DecidableEq, Repr

def Found.value (h : Objects) : Found → RRset Rdata
  | .stored p => h.value p
  | .synthesis p name => { h.value p with name }

structure FindResult where
  typ : ResultType
  rrset : Option Found
  deriving DecidableEq, Repr

/-- `memoryZoneFinderCtx`: the result and the node `GetAdditional` looks at. -/
structure FinderCtx where
  result : FindResult
  node : Option NameNode
  deriving DecidableEq

def FinderCtx.negative (typ : ResultType) : FinderCtx := ⟨⟨typ, none⟩, none⟩

structure FindState where
  zonecut : Option NameNode
  rrset : Option Ptr
  option : FindOption

def zoneCutCallback (nd : Node NameNode) (state : FindState) : Except Panic (Bool × FindState) :=
  match nd.data with
  | none => .error .nilNodeData
  | some nameNode =>
    match nameNode.lookup .ns with
    | none => .error .noNsAtZoneCut
    | some ns =>
      if state.zonecut.isSome then .ok (false, state)
      else .ok (state.option != .glueOk, { state with zonecut := some nameNode, rrset := ns })

def answerFrom (nameNode : NameNode) (typ : RRType) : FindResult :=
  match nameNode.lookup typ with
  | some rrset => ⟨.success, rrset.map Found.stored⟩
  | none =>
    match nameNode.lookup .cname with
    | some cname => ⟨.cname, cname.map Found.stored⟩
    | none => ⟨.nxRRset, none⟩

def synthesizeFrom (nameNode : NameNode) (typ : RRType) (name : Name) : Except Panic FindResult :=
  match nameNode.lookup typ with
  | some (some rrset) => .ok ⟨.success, some (.synthesis rrset name)⟩
  | some none => .error .nilRRset
  | none =>
    match nameNode.lookup .cname with
    | some (some cname) => .ok ⟨.cname, some (.synthesis cname name)⟩
    | some none => .error .nilRRset
    | none => .ok ⟨.nxRRset, none⟩

variable {T : Type} [DomainTree T NameNode]

namespace MemoryZone

variable (z : MemoryZone T) (name : Name) (typ : RRType)

def findPartial (out : SearchOut) (state : FindState) : Except Panic FinderCtx :=
  match state.zonecut with
  | some zonecut => .ok ⟨⟨.delegation, state.rrset.map Found.stored⟩, some zonecut⟩
  | none =>
    if out.superDomain then .ok (.negative .nxRRset)
    else if markAt z.domains out.node then
      match search z.domains out.node.wildcard with
      | (_, .exactMatch) =>
        match dataAt z.domains out.node.wildcard with
        | none => .error .nilNodeData
        | some nameNode =>
          match synthesizeFrom nameNode typ name with
          | .error e => .error e
          | .ok result => .ok ⟨result, none⟩
      | _ => .error .wildcardNotCorrectMarked
    else .ok (.negative .nxDomain)

def findExact : FinderCtx :=
  match dataAt z.domains name with
  | none => .negative (if isNodeNonTerminal z.domains name then .nxRRset else .nxDomain)
  | some nameNode =>
    -- `node != z.originNode`
    if callbackAt z.domains name ∧ ¬(name = z.origin ∧ z.originNode = .attached) ∧
        (nameNode.lookup .ns).isSome then
      ⟨⟨.delegation, ((nameNode.lookup .ns).getD none).map Found.stored⟩, some nameNode⟩
    else ⟨answerFrom nameNode typ, some nameNode⟩

def find (option : FindOption) : Except Panic FinderCtx :=
  match searchExt z.domains name zoneCutCallback ⟨none, none, option⟩ with
  | .error e => .error e
  | .ok (out, state) =>
    match out.result with
    | .partialMatch => z.findPartial name typ out state
    | .notFound => .ok (.negative .nxDomain)
    | .exactMatch => .ok (z.findExact name typ)

end MemoryZone

end

/-- The panics of `GetAdditional`. -/
inductive AdditionalPanic where
  | find (panic : Panic)
  /-- `rdata.(*g53.NS)`, `rdata.(*g53.MX)` or `rdata.(*g53.SRV)` on another rdata. -/
  | typeAssertion
  deriving DecidableEq, Repr

def targetOf (typ : RRType) (rdata : Rdata) : Except AdditionalPanic (Option Name) :=
  if typ = .ns then
    match rdata with
    | .ns name => .ok (some name)
    | _ => .error .typeAssertion
  else if typ = .mx then
    match rdata with
    | .mx _ exchange => .ok (some exchange)
    | _ => .error .typeAssertion
  else if typ = .srv then
    match rdata with
    | .srv _ _ _ target => .ok (some target)
    | _ => .error .typeAssertion
  else .ok none

variable {T : Type} [DomainTree T NameNode]

namespace MemoryZone

/-- `clean`. The tree has no node afterwards and the node of the origin is `NULL_NODE`. -/
def clean (z : MemoryZone T) : MemoryZone T :=
  { z with originNode := .detached, domains := newDomainTree }

def getAdditioanlAddrs (z : MemoryZone T) (name : Name) :
    Except AdditionalPanic (List (Option Found)) :=
  match z.find name .a .glueOk with
  | .error e => .error (.find e)
  | .ok ctx =>
    let aaaa : List (Option Found) :=
      match ctx.node.bind (·.lookup .aaaa) with
      | some aaaa => [aaaa.map .stored]
      | none => []
    match ctx.result.typ with
    | .success => .ok (ctx.result.rrset :: aaaa)
    | .nxRRset => .ok aaaa
    | _ => .ok []

/-- The loop of `GetAdditional` over the rdatas of the result. -/
def additionalOf (z : MemoryZone T) (typ : RRType) :
    List Rdata → Except AdditionalPanic (List (Option Found))
  | [] => .ok []
  | rdata :: rdatas => do
    let target ← targetOf typ rdata
    let addrs ← match target with
      | some name => z.getAdditioanlAddrs name
      | none => .ok []
    let rest ← z.additionalOf typ rdatas
    return addrs ++ rest

/-- `GetAdditional` of a `memoryZoneFinderCtx`, for the RRset of its result as it is now. -/
def getAdditional (z : MemoryZone T) (rrset : Option (RRset Rdata)) :
    Except AdditionalPanic (List (Option Found)) :=
  match rrset with
  | some rrset => z.additionalOf rrset.typ rrset.rdatas
  | none => .ok []

end MemoryZone

end Vanguard.Zone
