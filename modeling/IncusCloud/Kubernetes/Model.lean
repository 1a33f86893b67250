import IncusCloud.Agent.ClusterPatch
import IncusCloud.Tenants.Quota
import Mathlib.Data.Rat.Floor

/-!
# Workload clusters

`k8s/model.ts`, the rows of `k8s_clusters`, and `assess` of `k8s/worker.ts`. Amounts of memory in
GiB are decimal fractions here.
-/

namespace IncusCloud.Kubernetes

open Lib
open Tenants (Usage gib)

inductive K8sStatus
  | creating | provisioning | ready | degraded | deleting | error
  deriving DecidableEq

/-- Statuses the worker sets; `creating`, `provisioning` and `deleting` belong to a running job. -/
def owned : List K8sStatus := [.ready, .degraded, .error]

def busy : List K8sStatus := [.creating, .provisioning, .deleting]

/-! ### Specs -/

/-- The load balancer in front of the control planes: an instance (lxc, oci), or an address
(kube-vip, OVN). -/
inductive LbSpec
  | instance (flavor : String)
  | address (host : String)

structure K8sSpec where
  controlPlane : String
  worker : String
  loadBalancer : LbSpec
  metallb : Option (List String)

/-- Whether the load balancer is an instance of the tenant's (and needs IncusCloud's forward). -/
def lbIsInstance : LbSpec → Bool
  | .instance _ => true
  | .address _ => false

structure Flavor where
  cpu : ℕ
  memoryGiB : ℚ

/-- `\d+(?:\.\d+)?`, and what it stands for. -/
def parseDecimal (s : List Char) : Option ℚ :=
  match s.splitOn '.' with
  | [whole] => if Agent.isDigits whole then some (decimal whole) else none
  | [whole, part] =>
    if Agent.isDigits whole && Agent.isDigits part then
      some (decimal whole + (decimal part : ℚ) / 10 ^ part.length)
    else none
  | _ => none

/-- CPU and memory of a `c<cores>-m<GiB>` flavor. -/
def parseFlavor (f : String) : Option Flavor :=
  match Agent.trim f.toList with
  | 'c' :: rest =>
    match cut '-' rest with
    | (cores, some ('m' :: memory)) =>
      if Agent.isDigits cores then
        (parseDecimal memory).bind fun memoryGiB =>
          if 0 < decimal cores ∧ 0 < memoryGiB then some ⟨decimal cores, memoryGiB⟩ else none
      else none
    | _ => none
  | _ => none

def flavorOf (f : String) : Flavor := (parseFlavor f).getD ⟨0, 0⟩

/-- `Math.round` of what is not negative. -/
def round (x : ℚ) : ℕ := (x + 1 / 2).floor.toNat

/-- Every instance gets the project's default root disk. -/
def nodeDisk : ℕ := 10 * gib

def lbFlavor (spec : K8sSpec) (lb : Bool) : Option Flavor :=
  match spec.loadBalancer with
  | .instance flavor => if lb then some (flavorOf flavor) else none
  | .address _ => none

/-- What a cluster (or, without `lb`, added nodes) of this spec counts against the tenant's quota. -/
def usageOfSpec (spec : K8sSpec) (controlPlanes workers : ℕ) (lb : Bool) : Usage :=
  let cp := flavorOf spec.controlPlane
  let w := flavorOf spec.worker
  let balancer := lbFlavor spec lb
  let instances := controlPlanes + workers + if balancer.isSome then 1 else 0
  fun
    | .instances => instances
    | .cpu => controlPlanes * cp.cpu + workers * w.cpu + balancer.elim 0 (·.cpu)
    | .memory =>
      round ((controlPlanes * cp.memoryGiB + workers * w.memoryGiB + balancer.elim 0 (·.memoryGiB)) * gib)
    | .disk => instances * nodeDisk

/-! ### Versions -/

def kubernetesVersions : List String := ["v1.34.0", "v1.35.5", "v1.36.4", "v1.37.0"]

/-- `/^v1\.(\d+)\./`; none is `NaN`. -/
def minorOf (v : String) : Option ℕ :=
  match v.toList with
  | 'v' :: '1' :: '.' :: rest =>
    match cut '.' rest with
    | (minor, some _) => if Agent.isDigits minor then some (decimal minor) else none
    | _ => none
  | _ => none

/-- Why `old` cannot become `new`: one minor version forward at most, to an offered version. -/
def upgradeError (old new : String) : Option String :=
  if !kubernetesVersions.contains new then
    some (new ++ " is not offered; choose one of " ++ ", ".intercalate kubernetesVersions)
  else
    match minorOf old, minorOf new with
    | some a, some b =>
      if b < a || (b = a && new < old) then
        some ("Kubernetes cannot be downgraded (" ++ old ++ " to " ++ new ++ ")")
      else if b > a + 1 then
        some ("Upgrade one minor version at a time: " ++ old ++ " can go to v1." ++ toString (a + 1) ++
          " next")
      else none
    | _, _ => none

/-! ### Rows -/

/-- A row of `k8s_clusters`. -/
structure K8sRow where
  id : String
  tenantId : String
  clusterId : String
  name : String
  version : String
  controlPlanes : ℕ
  workers : ℕ
  spec : K8sSpec
  endpointHost : String
  endpointPort : ℕ
  lbMember : String
  status : K8sStatus
  statusMessage : String
  nodes : ℕ
  nodesReady : ℕ

/-- A Cluster's condition `ControlPlaneAvailable`. -/
structure ControlPlane where
  available : Bool
  message : String

def assess (row : K8sRow) (cluster : Option ControlPlane) (nodesReady : ℕ) : K8sStatus × String :=
  match cluster with
  | none => (.error, "Its Cluster is missing from the management cluster")
  | some cp =>
    if !cp.available then
      (.degraded,
        "Control plane not available" ++ if cp.message = "" then "" else ": " ++ cp.message)
    else if nodesReady < row.controlPlanes + row.workers then
      (.degraded,
        toString nodesReady ++ " of " ++ toString (row.controlPlanes + row.workers) ++ " nodes ready")
    else (.ready, "")

theorem assess_ne_deleting (row : K8sRow) (cluster : Option ControlPlane) (nodesReady : ℕ) :
    (assess row cluster nodesReady).1 ≠ .deleting := by
  unfold assess
  cases cluster with
  | none => simp
  | some cp =>
    dsimp only
    split_ifs
    all_goals simp

end IncusCloud.Kubernetes
