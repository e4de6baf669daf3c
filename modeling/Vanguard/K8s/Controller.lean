import Vanguard.K8s.Auth

/-!
# The controller of a cluster

`controller.go` handles the events of services and endpoints. No handler reads a zone, except for
its origin, so a handler is modelled by the calls of `replaceRRset` it makes, in their order. A
handler that panics ends the program.
-/

namespace Vanguard.K8s

open Library Zone

abbrev Calls := Except ControllerPanic (List Call)

def defaultPriority : UInt16 := 10

def defaultWeight : UInt16 := 100

abbrev Cache := List Service

def getService (cache : Cache) (name nspace : String) : Option Service :=
  cache.find? fun svc => svc.name = name && svc.nspace = nspace

/-- The names of pods with their addresses. Pods with the same host name share an entry. -/
def addPodName : List (Name × List String) → Name → String → List (Name × List String)
  | [], n, ip => [(n, [ip])]
  | (n', ips) :: pods, n, ip =>
    if n' = n then (n', ips ++ [ip]) :: pods else (n', ips) :: addPodName pods n ip

section

variable (g : Texts) (origin : Name)

/-- The first loop of `addPodRecord` over the addresses of a subset. -/
def podNames (o : Endpoints) (subset : EndpointSubset) :
    Except ControllerPanic (List (Name × List String)) :=
  run (fun pods addr => do
    let n ← getEndpointsAddrDomain g origin addr o.name o.nspace
    .ok (addPodName pods n addr.ip)) [] subset.addresses

def putPtr (zone : ZoneKind) (ip : String) (n : Name) : Calls := do
  match ← getReverseName g ip with
  | some rn => .ok [.put zone rn .ptr [.other .ptr (g.ptr n)]]
  | none => .ok []

def dropPtr (zone : ZoneKind) (ip : String) : Calls := do
  match ← getReverseName g ip with
  | some rn => .ok [.drop zone rn .ptr]
  | none => .ok []

/-- The second loop of `addPodRecord`, over the names of pods. -/
def addPod (pod : Name × List String) : Calls := do
  let ptrs ← collect (fun ip => putPtr g .podReverse ip pod.1) pod.2
  .ok (ptrs ++ [.put .service pod.1 .a (pod.2.map g.aRdata)])

def srvTargets (svc : Service) (pods : List (Name × List String)) :
    Except ControllerPanic (List Name) :=
  if isHeaderlessService svc then .ok (pods.map (·.1))
  else do
    let n ← getServiceDomain g origin svc
    .ok [n]

/-- The third loop of `addPodRecord`, over the ports of a subset. -/
def addPort (svc : Service) (o : Endpoints) (pods : List (Name × List String))
    (port : EndpointPort) : Calls :=
  if port.name = "" then .ok []
  else do
    let n ← getPortName g origin port.name port.protocol o.name o.nspace
    let targets ← srvTargets g origin svc pods
    .ok [.put .service n .srv
      (targets.map (.srv defaultPriority defaultWeight port.port.toUInt32.toUInt16))]

def addPodRecord (svc : Service) (o : Endpoints) : Calls :=
  collect (fun subset => do
    let pods ← podNames g origin o subset
    let addresses ← collect (addPod g) pods
    let ports ← collect (addPort g origin svc o pods) subset.ports
    .ok (addresses ++ ports)) o.subsets

/-- The first loop of `deletePodRecord`. -/
def deletePod (o : Endpoints) (addr : EndpointAddress) : Calls := do
  let n ← getEndpointsAddrDomain g origin addr o.name o.nspace
  let ptr ← dropPtr g .podReverse addr.ip
  .ok (.drop .service n .a :: ptr)

/-- The second loop of `deletePodRecord`. -/
def deletePort (o : Endpoints) (port : EndpointPort) : Calls :=
  if port.name = "" then .ok []
  else do
    let n ← getPortName g origin port.name port.protocol o.name o.nspace
    .ok [.drop .service n .srv]

def deletePodRecord (o : Endpoints) : Calls :=
  collect (fun subset => do
    let addresses ← collect (deletePod g origin o) subset.addresses
    let ports ← collect (deletePort g origin o) subset.ports
    .ok (addresses ++ ports)) o.subsets

section

variable (svc : Service)

def addHeadlessServiceRecord (ep : Endpoints) : Calls :=
  let rdatas := ep.ips.map g.aRdata
  if rdatas = [] then .ok []
  else do
    let n ← getServiceDomain g origin svc
    .ok [.put .service n .a rdatas]

def addIfHeadless (ep : Endpoints) : Calls :=
  if isHeaderlessService svc then addHeadlessServiceRecord g origin svc ep else .ok []

def addExternalServiceRecord : Calls := do
  let n ← getServiceDomain g origin svc
  match g.nameFromString svc.externalName with
  | some en => .ok [.put .service n .cname [.cname en]]
  | none => .ok []

def addServiceRecord : Calls := do
  let n ← getServiceDomain g origin svc
  let ptr ← putPtr g .serviceReverse svc.clusterIP n
  .ok (.put .service n .a [g.aRdata svc.clusterIP] :: ptr)

def deleteServiceRecord : Calls := do
  let n ← getServiceDomain g origin svc
  let ptr ← dropPtr g .serviceReverse svc.clusterIP
  .ok (.drop .service n .a :: ptr)

def deleteExternalServiceRecord : Calls := do
  let n ← getServiceDomain g origin svc
  .ok [.drop .service n .cname]

def deleteHeadlessServiceRecord : Calls := do
  let n ← getServiceDomain g origin svc
  .ok [.drop .service n .a]

def handleServiceCreate : Calls :=
  if isNormalService svc then addServiceRecord g origin svc
  else if isExternalService svc then addExternalServiceRecord g origin svc
  else .ok []

def handleServiceDelete : Calls :=
  if isNormalService svc then deleteServiceRecord g origin svc
  else if isHeaderlessService svc then deleteHeadlessServiceRecord g origin svc
  else if isExternalService svc then deleteExternalServiceRecord g origin svc
  else .ok []

end

def handleServiceUpdate (old new : Service) : Calls :=
  if isNormalService old then
    if old.clusterIP ≠ new.clusterIP then do
      let deleted ← deleteServiceRecord g origin old
      let added ← addServiceRecord g origin new
      .ok (deleted ++ added)
    else .ok []
  else if isExternalService new then
    if old.externalName ≠ new.externalName then addServiceRecord g origin new else .ok []
  else .ok []

def handleEndPointCreate (cache : Cache) (o : Endpoints) : Calls :=
  match getService cache o.name o.nspace with
  | none => .ok []
  | some svc => do
    let pods ← addPodRecord g origin svc o
    let addresses ← addIfHeadless g origin svc o
    .ok (pods ++ addresses)

def handleEndPointUpdate (svc : Service) (old new : Endpoints) : Calls :=
  if isSubsetsEqual old new then .ok []
  else do
    let addresses ← addIfHeadless g origin svc new
    let deleted ← deletePodRecord g origin old
    let added ← addPodRecord g origin svc new
    .ok (addresses ++ deleted ++ added)

def handleEndPointDelete (o : Endpoints) : Calls := deletePodRecord g origin o

end

inductive Object where
  | endpoints (o : Endpoints)
  | service (o : Service)
  deriving DecidableEq, Repr

inductive Event where
  | create (o : Object)
  | updateEndpoints (old new : Endpoints)
  | updateService (old new : Service)
  | delete (o : Object)
  deriving DecidableEq, Repr

def handlerCalls (g : Texts) (origin : Name) (cache : Cache) : Event → Calls
  | .create (.endpoints o) => handleEndPointCreate g origin cache o
  | .create (.service o) => handleServiceCreate g origin o
  | .updateEndpoints old new =>
    if old.subsets.length ≠ 0 ∨ new.subsets.length ≠ 0 then
      match getService cache old.name old.nspace with
      | some svc => handleEndPointUpdate g origin svc old new
      | none => .ok []
    else .ok []
  | .updateService old new => handleServiceUpdate g origin old new
  | .delete (.endpoints o) => handleEndPointDelete g origin o
  | .delete (.service o) => handleServiceDelete g origin o

variable {T : Type} [DomainTree T NameNode]

def Auth.perform (a : Auth T) (calls : Calls) : Except ControllerPanic (Auth T) := do
  let calls ← calls
  run Auth.replace a calls

def Auth.handle (g : Texts) (cache : Cache) (a : Auth T) (e : Event) :
    Except ControllerPanic (Auth T) :=
  a.perform (handlerCalls g a.serviceZone.memoryZone.origin cache e)

end Vanguard.K8s
