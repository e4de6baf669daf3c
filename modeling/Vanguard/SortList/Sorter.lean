import Vanguard.Cache.Handlers
import Vanguard.Library.Sorting

/-!
# Sort lists

A sort list names the networks whose addresses the clients of a network prefer. The RRset is sorted
by the place of the longest network that covers an address, or 65535.
-/

namespace Vanguard.SortList

open Library

/-- The bits its addresses start with, the last bit first, so that it is a suffix of them. -/
abbrev Network := List Bool

/-- What `cement/netradix`, which is not part of this repository, makes of texts and addresses. -/
structure Addresses where
  network : String → Except String Network
  bits : List UInt8 → List Bool
  /-- The error of `Add` for a network that has a value. -/
  nodeBusy : String
  /-- The error of `Delete` for a network that has none. -/
  notFound : String

/-- `netradix.NetRadixTree`. -/
structure Tree (V : Type) where
  value : Network → Option V

namespace Tree

variable {V : Type} (g : Addresses)

def newNetRadixTree : Tree V := ⟨fun _ => none⟩

def add (t : Tree V) (text : String) (v : V) : Except String (Tree V) := do
  let n ← g.network text
  if (t.value n).isSome then .error g.nodeBusy else return ⟨Function.update t.value n (some v)⟩

def delete (t : Tree V) (text : String) : Except String (Tree V) := do
  let n ← g.network text
  if (t.value n).isSome then return ⟨Function.update t.value n none⟩ else .error g.notFound

def searchBest (t : Tree V) (ip : List UInt8) : Option V :=
  (longestSuffix (fun n => (t.value n).isSome) (g.bits ip)).bind t.value

end Tree

def maxOrderCnt : ℕ := 65535

def errUnknownSortlist : String := "unknown sort list"

/-- `UserAddrBasedSorter.viewSortLists`. -/
abbrev Sorter := String → Option (Tree (Tree ℕ))

section code

variable (g : Addresses)

/-- The loop of `newOrderTree`, from the `i`-th text on. It drops the error of `Add`. -/
def addOrders : List String → ℕ → Tree ℕ → Tree ℕ
  | [], _, orderTree => orderTree
  | ip :: ips, i, orderTree => addOrders ips (i + 1) ((orderTree.add g ip i).toOption.getD orderTree)

def newOrderTree (preferedIps : List String) : Tree ℕ := addOrders g preferedIps 0 .newNetRadixTree

section

variable (s : Sorter) (view sourceIp : String)

def addSorter (preferedIps : List String) : Sorter × Option String :=
  let sourceTree := (s view).getD .newNetRadixTree
  match sourceTree.add g sourceIp (newOrderTree g preferedIps) with
  | .error e => (Function.update s view (some sourceTree), some e)
  | .ok sourceTree => (Function.update s view (some sourceTree), none)

def deleteSorter : Sorter × Option String :=
  match s view with
  | none => (s, some errUnknownSortlist)
  | some tree =>
    match tree.delete g sourceIp with
    | .error e => (s, some e)
    | .ok tree => (Function.update s view (some tree), none)

def updateSorter (preferedIps : List String) : Sorter × Option String :=
  match s view with
  | none => (s, some errUnknownSortlist)
  | some sourceTree =>
    match sourceTree.delete g sourceIp with
    | .error e => (s, some e)
    | .ok sourceTree =>
      match sourceTree.add g sourceIp (newOrderTree g preferedIps) with
      | .error e => (Function.update s view (some sourceTree), some e)
      | .ok sourceTree => (Function.update s view (some sourceTree), none)

end

/-- The loop of `ReloadConfig`, which panics with the text of an error. -/
def loadSorters : List (String × String × List String) → Sorter → Except String Sorter
  | [], s => .ok s
  | c :: conf, s =>
    match addSorter g s c.1 c.2.1 c.2.2 with
    | (_, some e) => .error ("sortlist load config failed:" ++ e)
    | (s, none) => loadSorters conf s

inductive Call where
  | reloadConfig (conf : List (String × String × List String))
  | addSorter (view sourceIp : String) (preferedIps : List String)
  | deleteSorter (view sourceIp : String)
  | updateSorter (view sourceIp : String) (preferedIps : List String)

def step (s : Sorter) : Call → Except String Sorter
  | .reloadConfig conf => loadSorters g conf fun _ => none
  | .addSorter view sourceIp preferedIps => .ok (addSorter g s view sourceIp preferedIps).1
  | .deleteSorter view sourceIp => .ok (deleteSorter g s view sourceIp).1
  | .updateSorter view sourceIp preferedIps => .ok (updateSorter g s view sourceIp preferedIps).1

def orderTree (s : Sorter) (view : String) (sourceIP : List UInt8) : Option (Tree ℕ) :=
  (s view).bind fun sourceTree => sourceTree.searchBest g sourceIP

def rrOrders (h : Objects) (tree : Tree ℕ) (typ : RRType) :
    List Ptr → (Ptr → ℕ) → Except Fault (Ptr → ℕ)
  | [], rrOrder => .ok rrOrder
  | rdata :: rdatas, rrOrder =>
    match Cache.hostOf typ (h.rdatas.load rdata) with
    | none => .error .typeAssertion
    | some host =>
      rrOrders h tree typ rdatas
        (Function.update rrOrder rdata ((tree.searchBest g host).getD maxOrderCnt))

def rrsetSortWrapper (priorities : Ptr → ℕ) (rrset : Ptr) : SortInterface Objects where
  less h := keys.less ((h.rrsets.load rrset).rdatas.map priorities)
  swap h i j := (swapAt (h.rrsets.load rrset).rdatas i j).map fun rdatas =>
    { h with rrsets := h.rrsets.write rrset { h.rrsets.load rrset with rdatas } }

def sort (program : ℕ → SortProgram) (s : Sorter) (view : String) (sourceIP : List UInt8)
    (h : Objects) (rrset : Ptr) : Except Fault (Objects × Ptr) :=
  let r := h.rrsets.load rrset
  if r.rdatas.length < 2 ∨ (r.typ ≠ .a ∧ r.typ ≠ .aaaa) then .ok (h, rrset)
  else
    match orderTree g s view sourceIP with
    | none => .ok (h, rrset)
    | some tree =>
      match rrOrders g h tree r.typ r.rdatas fun _ => 0 with
      | .error f => .error f
      | .ok rrOrder =>
        let (h, rrsetClone) := h.allocRRset r
        match (program r.rdatas.length).run (rrsetSortWrapper rrOrder rrsetClone) h with
        | none => .error .indexOutOfRange
        | some h => .ok (h, rrsetClone)

end code

end Vanguard.SortList
