import IncusCloud.Acl.Guards
import IncusCloud.Mobility.Preflight
import IncusCloud.Reconcile.Worker

/-!
# Where instances may be sent and backups restored

`resolveTarget` of `api/mobility.ts`, which migrations and replication policies ask, and
`restoreTarget` of `api/backups.ts`: who may create instances on the target cluster's path chooses
the project, others get their tenant's placement there.
-/

namespace IncusCloud.Mobility

open Acl (Snapshot Principal Privilege projectPath instancePath formatPath)
open Lib (need found)
open Reconcile (ClusterStatus)

def clusterPath (c : String) : String := formatPath (.cluster c)

/-- A row of `clusters`, as far as targets are chosen by it. -/
structure TargetCluster where
  id : Uuid
  name : Name
  status : ClusterStatus
  deriving DecidableEq

/-- `placements.status`. -/
inductive PlacementStatus
  | pending | ready | error
  deriving DecidableEq

/-- A row of `placements`. -/
structure TargetPlacement where
  tenantId : Uuid
  clusterId : Uuid
  project : Name
  status : PlacementStatus

structure TargetTables where
  clusters : List TargetCluster
  placements : List TargetPlacement

namespace TargetTables

/-- The query for a cluster by the text of its id; the database compares ids, not spellings. -/
def cluster (db : TargetTables) (id : String) : Option TargetCluster :=
  db.clusters.find? fun c => some c.id = Uuid.ofText id

def placement (db : TargetTables) (tenantId : Option Uuid) (clusterId : Uuid) : Option TargetPlacement :=
  tenantId.bind fun t => db.placements.find? fun x => x.tenantId = t && x.clusterId = clusterId

end TargetTables

def uuidParam (id what : String) : Except ApiError String := do
  need (isUuid id = true) (notFound what)
  pure id

/-- What `visibleInventoryInstance` returns. -/
structure InventoryInstance where
  id : Uuid
  clusterId : Uuid
  clusterName : Name
  project : Name
  name : Name
  tenantId : Option Uuid

def InventoryInstance.path (i : InventoryInstance) : String :=
  instancePath i.clusterName.text i.project.text i.name.text

inductive TransportChoice
  | auto | direct | relay
  deriving DecidableEq

/-- `MigrationBody`, as far as `resolveTarget` reads it. -/
structure MigrationBody where
  targetClusterId : String
  targetProject : Option String
  pool : Option String
  transport : Option TransportChoice

/-- What `resolveTarget` returns. -/
structure MigrationTarget where
  dst : TargetCluster
  targetProject : String
  pool : Option String
  transport : TransportChoice
  deriving DecidableEq

def alreadyThere : ApiError := bad "invalid_request" "The instance is already on that cluster"

def targetDisabled : ApiError := bad "invalid_request" "The target cluster is disabled"

def notPlaced : ApiError := ⟨403, "forbidden", "The tenant is not placed on that cluster"⟩

def poolRefused : ApiError := ⟨403, "forbidden", "Only platform operators choose the storage pool"⟩

def resolveTarget (db : TargetTables) (acl : Snapshot) (p : Principal) (inst : InventoryInstance)
    (body : MigrationBody) (privilege : Privilege) : Except ApiError MigrationTarget := do
  need (acl.can p privilege inst.path = true) forbidden
  let targetClusterId ← uuidParam body.targetClusterId "Target cluster not found"
  need (targetClusterId ≠ inst.clusterId.text) alreadyThere
  let ⟨dst, _⟩ ← found (db.cluster targetClusterId) (notFound "Target cluster not found")
  need (dst.status ≠ .disabled) targetDisabled
  let placement := db.placement inst.tenantId dst.id
  if acl.can p .instanceCreate (clusterPath dst.name.text) = true then
    pure
      { dst, pool := body.pool, transport := body.transport.getD .auto,
        targetProject := body.targetProject.getD ((placement.map (·.project.text)).getD inst.project.text) }
  else do
    let ⟨at_, _⟩ ← found (placement.filter (·.status = .ready)) notPlaced
    need (acl.can p .instanceCreate (projectPath dst.name.text at_.project.text) = true) forbidden
    need (∀ t ∈ truthy body.targetProject, t = at_.project.text) forbidden
    pure { dst, targetProject := at_.project.text, pool := none, transport := .auto }

/-- A row of `backups`, as far as `restoreTarget` reads it. -/
structure RestorableBackup where
  tenantId : Option Uuid
  project : Name

/-- The body of a restore, as far as `restoreTarget` reads it. -/
structure RestoreBody where
  targetClusterId : String
  targetProject : Option String
  pool : Option String

/-- What `restoreTarget` returns. -/
structure RestorePlace where
  dst : TargetCluster
  project : String
  pool : Option String
  deriving DecidableEq

def restoreTarget (db : TargetTables) (acl : Snapshot) (p : Principal) (b : RestorableBackup)
    (body : RestoreBody) : Except ApiError RestorePlace := do
  let targetClusterId ← uuidParam body.targetClusterId "Target cluster not found"
  let ⟨dst, _⟩ ← found (db.cluster targetClusterId) (notFound "Target cluster not found")
  need (dst.status ≠ .disabled) targetDisabled
  let placement := db.placement b.tenantId dst.id
  if acl.can p .instanceCreate (clusterPath dst.name.text) = true then
    pure
      { dst, pool := body.pool,
        project := body.targetProject.getD ((placement.map (·.project.text)).getD b.project.text) }
  else do
    need (truthy body.pool = none) poolRefused
    let ⟨at_, _⟩ ← found (placement.filter (·.status = .ready)) notPlaced
    need (∀ t ∈ truthy body.targetProject, t = at_.project.text) forbidden
    need (acl.can p .instanceCreate (projectPath dst.name.text at_.project.text) = true) forbidden
    pure { dst, project := at_.project.text, pool := none }

end IncusCloud.Mobility
