import Vanguard.K8s.Objects
import Vanguard.Library.Returns
import Vanguard.Zone.DynamicZone

/-!
# The zones of a cluster

`auth.go` keeps three zones: the one with the names of services and pods, and the reverse zones of
both. Their records are changed with `replaceRRset` only, a transaction of its own that looks at no
error. The functions of the DNS library that read texts are parameters.
-/

namespace Vanguard

/-- `RR_PTR`. -/
def RRType.ptr : RRType := ⟨12⟩

/-- `RR_TXT`. -/
def RRType.txt : RRType := ⟨16⟩

def Objects.allocValue (h : Objects) (r : RRset Rdata) : Objects × Library.Ptr :=
  let (rdatas, ps) := h.rdatas.allocAll r.rdatas
  { h with rdatas }.allocRRset ⟨r.name, r.typ, r.cls, r.ttl, ps⟩

namespace K8s

open Library Zone

structure Texts where
  nameFromString : String → Option Name
  nameFromStringUnsafe : String → Option Name
  concat : Name → Name → Option Name
  aFromString : String → Option (List UInt8)
  txtFromString : String → Option (List UInt8)
  ptr : Name → List UInt8
  parseCIDR : String → Option ℕ

inductive ControllerPanic where
  /-- `NameFromStringUnsafe` does not accept the text. -/
  | invalidName
  /-- The nil name that `Concat` returned beside its error is used. -/
  | nilName
  | indexOutOfRange
  | zone (e : Panic)
  deriving DecidableEq, Repr

/-- The errors of `NewAuth`. -/
inductive AuthError where
  /-- The error of `NameFromString`. -/
  | invalidName
  /-- The error of `AFromString`. -/
  | invalidAddress
  /-- The error of `net.ParseCIDR`. -/
  | invalidNetwork
  | unsupportNetmask
  | panic (e : ControllerPanic)
  deriving DecidableEq, Repr

def defaultTTL : UInt32 := 5

def reverseBaseZone : String := "in-addr.arpa"

def versionQuery : String := "dns-version"

def dnsSchemaVersion : String := "1.0.1"

def split (s : String) : List String := (s.toList.splitOn '.').map String.ofList

def join (labels : List String) : String := String.intercalate "." labels

/-- `strings.Replace(s, ".", "-", n)` on the characters of a text. -/
def replaceDots : ℕ → List Char → List Char
  | 0, s => s
  | _, [] => []
  | n + 1, c :: s => if c = '.' then '-' :: replaceDots n s else c :: replaceDots (n + 1) s

def orElse {ε α : Type} (e : ε) : Option α → Except ε α
  | some a => .ok a
  | none => .error e

/-- The nil `*g53.A` beside an error. It is stored like any other rdata and not looked into. -/
def nilA : Rdata := .other .a []

/-- The rdata that `AFromString` returns, its error being ignored. -/
def Texts.aRdata (g : Texts) (ip : String) : Rdata :=
  match g.aFromString ip with
  | some host => .a host
  | none => nilA

def newRRset (name : Name) (typ : RRType) (rdatas : List Rdata) : RRset Rdata :=
  ⟨name, typ, .internet, defaultTTL, rdatas⟩

def Texts.domain (g : Texts) (origin : Name) (labels : List String) :
    Except ControllerPanic Name := do
  let n ← orElse .invalidName (g.nameFromStringUnsafe (join labels))
  orElse .nilName (g.concat n origin)

def getServiceDomain (g : Texts) (origin : Name) (svc : Service) : Except ControllerPanic Name :=
  g.domain origin [svc.name, svc.nspace, "svc"]

def podName (addr : EndpointAddress) : String :=
  if addr.hostname = "" then String.ofList (replaceDots 3 addr.ip.toList) else addr.hostname

def getEndpointsAddrDomain (g : Texts) (origin : Name) (addr : EndpointAddress)
    (svc nspace : String) : Except ControllerPanic Name :=
  g.domain origin [podName addr, svc, nspace, "svc"]

def getPortName (g : Texts) (origin : Name) (port protocol svc nspace : String) :
    Except ControllerPanic Name :=
  g.domain origin ["_" ++ port, "_" ++ protocol, svc, nspace, "svc"]

/-- `getReverseName`, none for `errInvalidClusterIP`. -/
def getReverseName (g : Texts) (ip : String) : Except ControllerPanic (Option Name) :=
  match split ip with
  | [a, b, c, d] => do
    let n ← orElse .invalidName (g.nameFromStringUnsafe (join [d, c, b, a, reverseBaseZone]))
    .ok (some n)
  | _ => .ok none

/-- The zones of `Auth`. -/
inductive ZoneKind where
  | service
  | serviceReverse
  | podReverse
  deriving DecidableEq, Repr

structure Auth (T : Type) where
  objects : Objects
  serviceZone : DynamicZone T
  serviceReverseZone : DynamicZone T
  podReverseZone : DynamicZone T

/-- A call of `replaceRRset`. -/
structure Call where
  zone : ZoneKind
  name : Name
  typ : RRType
  rrset : Option (RRset Rdata)
  deriving DecidableEq, Repr

/-- `replaceServiceRRset` and its like with an RRset of the name and type. -/
def Call.put (zone : ZoneKind) (name : Name) (typ : RRType) (rdatas : List Rdata) : Call :=
  ⟨zone, name, typ, some (newRRset name typ rdatas)⟩

/-- `replaceServiceRRset` and its like with nil. -/
def Call.drop (zone : ZoneKind) (name : Name) (typ : RRType) : Call := ⟨zone, name, typ, none⟩

namespace Auth

variable {T : Type}

def zone (a : Auth T) : ZoneKind → DynamicZone T
  | .service => a.serviceZone
  | .serviceReverse => a.serviceReverseZone
  | .podReverse => a.podReverseZone

def setZone (a : Auth T) (dz : DynamicZone T) : ZoneKind → Auth T
  | .service => { a with serviceZone := dz }
  | .serviceReverse => { a with serviceReverseZone := dz }
  | .podReverse => { a with podReverseZone := dz }

end Auth

variable {T : Type} [DomainTree T NameNode]

/-- `replaceRRset`. The errors of `DeleteRRset`, `Add` and `Commit` are ignored. -/
def replaceRRset (h : Objects) (dz : DynamicZone T) (name : Name) (typ : RRType)
    (rrset : Option (RRset Rdata)) : Except ControllerPanic (Objects × DynamicZone T) :=
  let (begun, tmp) := dz.begin
  let transaction :=
    match rrset with
    | some r =>
      let (h, p) := h.allocValue r
      run ZoneState.step ⟨h, tmp, []⟩ [.deleteRRset p, .add p]
    | none =>
      let (h, p) := h.allocValue ⟨name, typ, ⟨0⟩, 0, []⟩
      run ZoneState.step ⟨h, tmp, []⟩ [.deleteRRset p]
  match transaction with
  | .ok tx => .ok (tx.objects, (begun.commit tx.zone).1)
  | .error e => .error (.zone e)

/-- `replaceServiceRRset`, `replaceServiceReverseRRset` and `replacePodReverseRRset`. -/
def Auth.replace (a : Auth T) (c : Call) : Except ControllerPanic (Auth T) :=
  match replaceRRset a.objects (a.zone c.zone) c.name c.typ c.rrset with
  | .ok (objects, dz) => .ok { a.setZone dz c.zone with objects }
  | .error e => .error e

structure Kubernetes where
  clusterDNSServer : String
  clusterDomain : String
  clusterCIDR : String
  clusterServiceIPRange : String
  deriving DecidableEq, Repr

/-- The end of `createZone`: a new zone, and a transaction that adds three RRsets to it. -/
def newZone (h : Objects) (n : Name) (soa ns glue : RRset Rdata) :
    Except Panic (Objects × DynamicZone T) :=
  let (h, soa) := h.allocValue soa
  let (h, ns) := h.allocValue ns
  let (h, glue) := h.allocValue glue
  let (begun, tmp) := (⟨newMemoryZone n, false⟩ : DynamicZone T).begin
  match run ZoneState.step ⟨h, tmp, []⟩ [.add soa, .add ns, .add glue] with
  | .ok tx => .ok (tx.objects, (begun.commit tx.zone).1)
  | .error e => .error e

def createZone (g : Texts) (h : Objects) (origin server : String) :
    Except AuthError (Objects × DynamicZone T) := do
  let n ← orElse .invalidName (g.nameFromString origin)
  let nsName ← orElse (.panic .invalidName) (g.nameFromStringUnsafe ("ns.dns." ++ origin))
  let rName ← orElse (.panic .invalidName) (g.nameFromStringUnsafe ("hostmaster." ++ origin))
  let host ← orElse .invalidAddress (g.aFromString server)
  let soa := .soa ⟨nsName, rName, 1981616, 7200, 1800, 86400, 30⟩
  match newZone h n (newRRset n .soa [soa]) (newRRset n .ns [.ns nsName])
      (newRRset nsName .a [.a host]) with
  | .ok made => .ok made
  | .error e => .error (.panic (.zone e))

def createServiceZone (g : Texts) (h : Objects) (conf : Kubernetes) :
    Except AuthError (Objects × DynamicZone T) := do
  let (h, dz) ← createZone g h conf.clusterDomain conf.clusterDNSServer
  let n ← orElse (.panic .invalidName) (g.nameFromStringUnsafe versionQuery)
  let n ← orElse (.panic .nilName) (g.concat n dz.memoryZone.origin)
  let rdata := .other .txt ((g.txtFromString dnsSchemaVersion).getD [])
  match replaceRRset h dz n .txt (some (newRRset n .txt [rdata])) with
  | .ok made => .ok made
  | .error e => .error (.panic e)

def reverseZoneNameForNetwork (g : Texts) (network : String) : Except AuthError String := do
  let ones ← orElse .invalidNetwork (g.parseCIDR network)
  let label (i : ℕ) : Except AuthError String :=
    orElse (.panic .indexOutOfRange) (split network)[i]?
  if ones = 8 then
    let a ← label 0
    .ok (join [a, reverseBaseZone])
  else if ones = 16 then
    let b ← label 1
    let a ← label 0
    .ok (join [b, a, reverseBaseZone])
  else if ones = 24 then
    let c ← label 2
    let b ← label 1
    let a ← label 0
    .ok (join [c, b, a, reverseBaseZone])
  else .error .unsupportNetmask

def newAuth (g : Texts) (h : Objects) (conf : Kubernetes) : Except AuthError (Auth T) := do
  let (h, serviceZone) ← createServiceZone g h conf
  let serviceReverseName ← reverseZoneNameForNetwork g conf.clusterServiceIPRange
  let (h, serviceReverseZone) ← createZone g h serviceReverseName conf.clusterDNSServer
  let podNetworkReverseName ← reverseZoneNameForNetwork g conf.clusterCIDR
  let (h, podReverseZone) ← createZone g h podNetworkReverseName conf.clusterDNSServer
  .ok ⟨h, serviceZone, serviceReverseZone, podReverseZone⟩

end K8s

end Vanguard
