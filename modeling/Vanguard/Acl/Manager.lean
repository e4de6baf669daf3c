import Vanguard.Cache.HttpError
import Mathlib.Logic.Function.Basic

/-!
# Access control lists

`AclManager` has an ACL for each name: the networks it covers in a radix tree, and whether it takes
effect at the moment, which schedules decide. An update removes the ACL and then adds the new one.
-/

namespace Vanguard.Access

open Cache (HttpError)

/-- The operations of `cement/netradix`, which is not part of this repository. -/
class NetRadixTree (T : Type) where
  newNetRadixTree : T
  add : T → String → Except String T
  searchBest : T → List UInt8 → Bool
  covers : String → List UInt8 → Bool

/-- What the ACLs rely on: the longest match is found where there is a match. -/
class LawfulNetRadixTree (T : Type) [NetRadixTree T] : Prop where
  searchBest_new : ∀ ip, NetRadixTree.searchBest (NetRadixTree.newNetRadixTree : T) ip = false
  searchBest_add : ∀ (t t' : T) network, NetRadixTree.add t network = .ok t' → ∀ ip,
    NetRadixTree.searchBest t' ip =
      (NetRadixTree.searchBest t ip || NetRadixTree.covers (T := T) network ip)

structure Schedules (Interval S Tm : Type) where
  newSchedule : List Interval → Except String S
  includeTime : S → Tm → Bool

structure Acl (T S : Type) where
  tree : T
  takeEffect : Bool
  validTime : Option S
  invalidTime : Option S

section acl

variable {T S Tm Interval : Type} [NetRadixTree T]

/-- The loop of `NewAcl` over the addresses. -/
def addNetworks (tree : T) : List String → Except String T
  | [] => .ok tree
  | ip :: ips =>
    match NetRadixTree.add tree ip with
    | .error e => .error ("address " ++ ip ++ " isn't valid: " ++ e)
    | .ok tree => addNetworks tree ips

def Acl.checkValid (includeTime : S → Tm → Bool) (now : Tm) (a : Acl T S) : Acl T S :=
  if a.invalidTime.isNone && a.validTime.isNone then a
  else if a.invalidTime.any (fun s => includeTime s now) ||
      a.validTime.any (fun s => !includeTime s now) then
    { a with takeEffect := false }
  else { a with takeEffect := true }

def scheduleOf (schedules : Schedules Interval S Tm) (intervals : List Interval) :
    Except String (Option S) :=
  if intervals.isEmpty then .ok none else (schedules.newSchedule intervals).map some

def newAcl (schedules : Schedules Interval S Tm) (now : Tm) (ips : List String)
    (validInterval invalidInterval : List Interval) : Except String (Acl T S) :=
  match addNetworks NetRadixTree.newNetRadixTree ips with
  | .error e => .error e
  | .ok tree =>
    match scheduleOf schedules validInterval with
    | .error e => .error e
    | .ok validTime =>
      match scheduleOf schedules invalidInterval with
      | .error e => .error e
      | .ok invalidTime =>
        .ok (Acl.checkValid schedules.includeTime now ⟨tree, true, validTime, invalidTime⟩)

def Acl.include (a : Acl T S) (ip : List UInt8) : Bool :=
  if a.takeEffect then NetRadixTree.searchBest a.tree ip else false

end acl

structure AclManager (T S : Type) where
  acls : String → Option (Acl T S)

def errAnyNonAcl : HttpError := ⟨400, "any or none or all acl is read only"⟩
def errAclExists : HttpError := ⟨401, "acl already exists"⟩
def errNonExistAcl : HttpError := ⟨402, "operate non-exist acl"⟩
def errBadAclName : HttpError := ⟨407, "acl can't named with acl"⟩
def errInvalidNetwork : HttpError := ⟨104, "network isn't valid"⟩

/-- `strings.ToLower` for ASCII. No other letter becomes one of the names it is compared with. -/
def toLower (name : String) : String := .ofList (name.toList.map Char.toLower)

def isReadOnly (name : String) : Bool := ["any", "none", "all"].contains (toLower name)

def checkNameValid (name : String) : Option HttpError :=
  if toLower name = "acl" then some errBadAclName
  else if isReadOnly (toLower name) then some errAnyNonAcl
  else none

inductive AclCommand where
  | addAcl (name : String) (networks : List String)
  | deleteAcl (name : String)
  | updateAcl (name : String) (networks : List String)

namespace AclManager

variable {T S Tm Interval : Type} [NetRadixTree T] (schedules : Schedules Interval S Tm) (now : Tm)

section

variable (m : AclManager T S) (aclName : String)

def find (ip : List UInt8) : Bool :=
  if toLower aclName = "any" then true
  else if toLower aclName = "none" then false
  else
    match m.acls aclName with
    | none => false
    | some acl => acl.include ip

def add (ips : List String) : AclManager T S × Option HttpError :=
  match newAcl schedules now ips [] [] with
  | .error e => (m, some (errInvalidNetwork.addDetail e))
  | .ok acl => (⟨Function.update m.acls aclName (some acl)⟩, none)

omit [NetRadixTree T] in
def remove : AclManager T S × Option HttpError :=
  if (m.acls aclName).isSome then (⟨Function.update m.acls aclName none⟩, none)
  else (m, some errNonExistAcl)

def update (ips : List String) : AclManager T S × Option HttpError :=
  match m.remove aclName with
  | (m, some e) => (m, some e)
  | (m, none) => m.add schedules now aclName ips

end

variable (m : AclManager T S) (name : String) (networks : List String)

def addAcl : AclManager T S × Option HttpError :=
  match checkNameValid name with
  | some e => (m, some e)
  | none =>
    if (m.acls name).isSome then (m, some errAclExists) else m.add schedules now name networks

def updateAcl : AclManager T S × Option HttpError :=
  if isReadOnly name then (m, some errAnyNonAcl) else m.update schedules now name networks

omit [NetRadixTree T] in
def deleteAcl : AclManager T S × Option HttpError :=
  if isReadOnly name then (m, some errAnyNonAcl) else m.remove name

def handleCmd : AclCommand → AclManager T S × Option HttpError
  | .addAcl name networks => m.addAcl schedules now name networks
  | .deleteAcl name => m.deleteAcl name
  | .updateAcl name networks => m.updateAcl schedules now name networks

end AclManager

end Vanguard.Access
