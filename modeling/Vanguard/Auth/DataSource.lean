import Vanguard.Dns.NameTree
import Vanguard.Zone.DynamicZone

/-!
# The zones of the authoritative resolver

`AuthDataSource` has a tree of zones for each view, by reference. A zone is a master unless masters
are configured for it, and takes updates of clients only as a master.
-/

namespace Vanguard.Auth

open Library Zone

/-- `DynamicZone` with its masters and the access lists of its updates. -/
structure AuthZone (T : Type) where
  zone : DynamicZone T
  masters : List String
  acls : List String

structure AuthDataSource (T Z : Type) where
  viewZones : String → Option Z
  zones : Heap (AuthZone T)

namespace AuthZone

variable {T : Type}

def isMaster (z : AuthZone T) : Bool := z.masters.isEmpty

def getMasters (z : AuthZone T) : List String := if z.isMaster then [] else z.masters

def getUpdator (aclFind : String → List UInt8 → Bool) (z : AuthZone T) (ip : Option (List UInt8))
    (force : Bool) : Bool :=
  if force then true
  else if z.masters ≠ [] then false
  else
    match ip with
    | none => true
    | some ip => z.acls.isEmpty || z.acls.any (fun aclName => aclFind aclName ip)

end AuthZone

namespace AuthDataSource

variable {T Z : Type} [NameTree Z Ptr]

def getZone (ds : AuthDataSource T Z) (viewName : String) (name : Name) : Found Ptr :=
  match ds.viewZones viewName with
  | none => .notFound
  | some zones => NameTree.search zones name

/-- `getUpdator`: the zone whose name is `origin`, if the client may update it. -/
def getUpdator (aclFind : String → List UInt8 → Bool) (ds : AuthDataSource T Z)
    (viewName : String) (origin : Name) (clientIP : Option (List UInt8)) : Option Ptr :=
  match ds.getZone viewName origin with
  | .exactMatch z => if (ds.zones.load z).getUpdator aclFind clientIP false then some z else none
  | _ => none

end AuthDataSource

end Vanguard.Auth
