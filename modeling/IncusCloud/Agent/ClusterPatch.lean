import IncusCloud.Lib.Json
import IncusCloud.Lib.Number
import IncusCloud.Lib.Run

/-!
# Day-2 edits of a workload cluster

The Kubernetes agent's `lib/upgrade.ts`, `lib/scale.ts`, `lib/cluster-patch.ts` and `patchCluster`
of `lib/capi.ts`: an edit reads the Cluster, builds a JSON patch from what it read, and sends it.
The API server applies a patch as a whole and refuses one of which a `test` fails.
-/

namespace IncusCloud.Agent

open Lib

/-! ### Versions -/

/-- What `String.prototype.trim` takes away. -/
def isSpace (ch : Char) : Bool :=
  let n := ch.toNat
  (9 ≤ n && n ≤ 13) || (0x2000 ≤ n && n ≤ 0x200A) ||
    [0x20, 0xA0, 0x1680, 0x2028, 0x2029, 0x202F, 0x205F, 0x3000, 0xFEFF].contains n

def trim (s : List Char) : List Char := ((s.dropWhile isSpace).reverse.dropWhile isSpace).reverse

/-- `\d+`. -/
def isDigits (s : List Char) : Bool := s ≠ [] && s.all Char.isDigit

/-- `K8S_VERSION_PATTERN.exec`: `^v(\d+)\.(\d+)\.(\d+)$`, and its groups. -/
def versionGroups : List Char → Option (List Char × List Char × List Char)
  | 'v' :: s =>
    match s.splitOn '.' with
    | [a, b, c] => if isDigits a && isDigits b && isDigits c then some (a, b, c) else none
    | _ => none
  | _ => none

structure K8sVersion where
  major : Number
  minor : Number
  patch : Number

def parseK8sVersion (version : String) : Option K8sVersion :=
  (versionGroups (trim version.toList)).map fun g =>
    ⟨Number.ofDigits g.1, Number.ofDigits g.2.1, Number.ofDigits g.2.2⟩

def compareK8sVersions (a b : K8sVersion) : Number :=
  (a.major.sub b.major).or ((a.minor.sub b.minor).or (a.patch.sub b.patch))

/-- `String(n)` of a version's number. -/
def showNumber : Number → String
  | .int i => toString i
  | .infinity s => if s then "-Infinity" else "Infinity"
  | .nan => "NaN"

/-- `n + 1`. -/
def succ : Number → Number
  | .int i => .ofInt (i + 1)
  | n => n

/-- Why `current` cannot be upgraded to `target`, or none when it can. -/
def upgradeError (current target : String) : Option String :=
  match parseK8sVersion target, parseK8sVersion current with
  | none, _ => some ("invalid Kubernetes version '" ++ target ++ "' (expected vX.Y.Z)")
  | some _, none =>
    some ("the cluster's current version '" ++ current ++ "' is not a vX.Y.Z version")
  | some new, some old =>
    let order := compareK8sVersions new old
    if order.isInt 0 then some ("the cluster already runs " ++ current)
    else if order.lt 0 then
      some ("downgrades are not supported (" ++ current ++ " → " ++ target ++ ")")
    else if new.major.differs old.major then
      some ("major version upgrades are not supported (" ++ current ++ " → " ++ target ++ ")")
    else if (new.minor.sub old.minor).gt 1 then
      some ("upgrade one minor version at a time: v" ++ showNumber old.major ++ "." ++
        showNumber (succ old.minor) ++ ".x is next after " ++ current)
    else none

/-! ### Patches -/

/-- `ClusterPatchRequest`, the body of a `PATCH`. -/
structure ClusterPatchRequest where
  controlPlaneCount : Option ℕ
  workerCount : Option ℕ
  kubernetesVersion : Option String

/-- What `ClusterPatchBody` accepts. -/
def ClusterPatchRequest.accepted (r : ClusterPatchRequest) : Bool :=
  (r.controlPlaneCount.all fun n => 1 ≤ n && n ≤ 9 && n % 2 = 1) &&
    (r.workerCount.all fun n => n ≤ 100) &&
    (r.kubernetesVersion.all fun v => (versionGroups v.toList).isSome) &&
    (r.controlPlaneCount.isSome || r.workerCount.isSome || r.kubernetesVersion.isSome)

abbrev ClusterObject := Json

variable (c : ClusterObject)

/-- `cluster.spec?.topology?.version`. -/
def topologyVersion : Option String :=
  (Json.getAt ["spec", "topology", "version"] c).bind Json.asString

/-- `cluster.spec?.topology?.workers?.machineDeployments`. -/
def machineDeployments : Option (List Json) :=
  (Json.getAt ["spec", "topology", "workers", "machineDeployments"] c).bind Json.asArray

def groupName (group : Json) : Option String := (Json.child "name" group).bind Json.asString

def firstGroup : Option String :=
  (machineDeployments c).bind fun gs => gs.head?.bind groupName

inductive PatchError
  | rejected (message : String)
  | failed (message : String)

def versionPath : String := "/spec/topology/version"
def controlPlanePath : String := "/spec/topology/controlPlane/replicas"
def namePath : String := "/spec/topology/workers/machineDeployments/0/name"
def replicasPath : String := "/spec/topology/workers/machineDeployments/0/replicas"

def present (s : Option String) : Option String := s.filter (· ≠ "")

def buildScalePatch (controlPlaneCount workerCount : Option ℕ) :
    Except PatchError (List Json.PatchOp) :=
  let scale := controlPlaneCount.elim [] fun n => [.add controlPlanePath (.num n)]
  match workerCount with
  | none => .ok scale
  | some n =>
    match present (firstGroup c) with
    | none => .error (.failed "cluster has no worker group (machineDeployment) to scale")
    | some name => .ok (scale ++ [.test namePath name, .add replicasPath (.num n)])

def buildVersionPatch : Option String → Except PatchError (List Json.PatchOp)
  | none => .ok []
  | some version =>
    match present (topologyVersion c) with
    | none => .error (.rejected "cluster has no topology version to upgrade")
    | some current =>
      match upgradeError current version with
      | some error => .error (.rejected error)
      | none => .ok [.test versionPath current, .replace versionPath (.str version)]

/-- JSON patch for a day-2 edit. The version change carries a `test` op on the version it was
validated against. -/
def buildClusterPatch (r : ClusterPatchRequest) : Except PatchError (List Json.PatchOp) := do
  let ops ← buildVersionPatch c r.kubernetesVersion
  if r.controlPlaneCount.isSome || r.workerCount.isSome then
    let scale ← buildScalePatch c r.controlPlaneCount r.workerCount
    pure (ops ++ scale)
  else pure ops

/-! ### Edits at the same time -/

structure Edit where
  request : ClusterPatchRequest
  read : ClusterObject

def Edit.patch (e : Edit) : Option (List Json.PatchOp) :=
  (buildClusterPatch e.read e.request).toOption

structure ApiServer where
  cluster : ClusterObject
  /-- The edits that have read the Cluster, in that order. -/
  edits : List Edit

inductive EditAction
  | read (request : ClusterPatchRequest)
  | apply (edit : ℕ)
  | reorder (order : List ℕ)

def reordered (order : List ℕ) (c : ClusterObject) : Option ClusterObject :=
  Json.modifyAt
    (fun
      | .arr gs => if order.isPerm (List.range gs.length) then some (.arr (order.filterMap (gs[·]?)))
        else none
      | _ => none)
    ["spec", "topology", "workers", "machineDeployments"] c

namespace ApiServer

def step (s : ApiServer) : EditAction → Option ApiServer
  | .read request =>
    if request.accepted then some { s with edits := s.edits ++ [⟨request, s.cluster⟩] } else none
  | .apply i =>
    (s.edits[i]?).bind fun e => e.patch.bind fun ops =>
      (Json.patch ops s.cluster).map fun c => { s with cluster := c }
  | .reorder order => (reordered order s.cluster).map fun c => { s with cluster := c }

end ApiServer

end IncusCloud.Agent
