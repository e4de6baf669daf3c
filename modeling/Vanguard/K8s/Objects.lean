import Mathlib.Data.List.Basic

/-!
# The objects a cluster reports

Services and the endpoints behind them, with the fields the controller reads, and the predicates of
`helper.go` on them.
-/

namespace Vanguard.K8s

open List

inductive ServiceType where
  /-- `ServiceTypeClusterIP`. -/
  | clusterIP
  /-- `ServiceTypeNodePort`. -/
  | nodePort
  /-- `ServiceTypeLoadBalancer`. -/
  | loadBalancer
  /-- `ServiceTypeExternalName`. -/
  | externalName
  deriving DecidableEq, Repr

structure Service where
  name : String
  nspace : String
  typ : ServiceType
  clusterIP : String
  externalName : String
  deriving DecidableEq, Repr

structure EndpointAddress where
  ip : String
  hostname : String
  deriving DecidableEq, Repr

structure EndpointPort where
  name : String
  port : Int32
  protocol : String
  deriving DecidableEq, Repr

structure EndpointSubset where
  addresses : List EndpointAddress
  ports : List EndpointPort
  deriving DecidableEq, Repr

structure Endpoints where
  name : String
  nspace : String
  subsets : List EndpointSubset
  deriving DecidableEq, Repr

def isSubsetEqual (sa sb : EndpointSubset) : Bool :=
  if sa.addresses.length ≠ sb.addresses.length then false
  else if sa.ports.length ≠ sb.ports.length then false
  else
    (sa.addresses.zip sb.addresses).all (fun x => x.1.ip = x.2.ip && x.1.hostname = x.2.hostname) &&
    (sa.ports.zip sb.ports).all (fun x =>
      x.1.name = x.2.name && x.1.port = x.2.port && x.1.protocol = x.2.protocol)

def isSubsetsEqual (a b : Endpoints) : Bool :=
  if a.subsets.length ≠ b.subsets.length then false
  else (a.subsets.zip b.subsets).all (fun x => isSubsetEqual x.1 x.2)

def clusterIPNone : String := "None"

def isHeaderlessService (svc : Service) : Bool :=
  svc.typ ≠ .externalName && svc.clusterIP = clusterIPNone

def isNormalService (svc : Service) : Bool :=
  svc.typ ≠ .externalName && svc.clusterIP ≠ clusterIPNone

def isExternalService (svc : Service) : Bool := svc.typ = .externalName && svc.externalName ≠ ""

def EndpointSubset.ips (subset : EndpointSubset) : List String :=
  (subset.addresses.map (·.ip)).filter (· ≠ "")

/-- The addresses over all subsets, in the order in which `addHeadlessServiceRecord` reads them. -/
def Endpoints.ips (o : Endpoints) : List String := o.subsets.flatMap (·.ips)

theorem map_eq_map_of_zip {α β : Type} {f : α → β} {l l' : List α} (hlength : l.length = l'.length)
    (hzip : ∀ x ∈ l.zip l', f x.1 = f x.2) : l.map f = l'.map f := by
  induction l generalizing l' with
  | nil =>
    obtain rfl := length_eq_zero_iff.mp hlength.symm
    rfl
  | cons a l ih =>
    cases l' with
    | nil => simp at hlength
    | cons b l' =>
      have hhead : f a = f b := hzip (a, b) (by simp)
      have htail := ih (Nat.succ.inj hlength) fun x hx => hzip x (by simp [hx])
      rw [map_cons, map_cons, hhead, htail]

theorem map_ip_of_isSubsetEqual {sa sb : EndpointSubset} (heq : isSubsetEqual sa sb = true) :
    sa.addresses.map (·.ip) = sb.addresses.map (·.ip) := by
  unfold isSubsetEqual at heq
  split_ifs at heq with haddresses hports
  simp only [Bool.and_eq_true, all_eq_true, decide_eq_true_eq] at heq
  exact map_eq_map_of_zip (not_not.mp haddresses) fun x hx => (heq.1 x hx).1

theorem ips_of_isSubsetsEqual {a b : Endpoints} (heq : isSubsetsEqual a b = true) :
    a.ips = b.ips := by
  unfold isSubsetsEqual at heq
  split_ifs at heq with hlength
  simp only [all_eq_true] at heq
  have hsubset (x : EndpointSubset × EndpointSubset) (hx : x ∈ a.subsets.zip b.subsets) :
      x.1.ips = x.2.ips := congrArg (List.filter (· ≠ "")) (map_ip_of_isSubsetEqual (heq x hx))
  have hmap := map_eq_map_of_zip (not_not.mp hlength) hsubset
  simpa only [Endpoints.ips, flatMap_def] using congrArg List.flatten hmap

end Vanguard.K8s
