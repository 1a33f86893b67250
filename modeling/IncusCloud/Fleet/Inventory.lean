import IncusCloud.Acl.Guards
import IncusCloud.Lib.Keyed
import IncusCloud.Lib.Run
import IncusCloud.Lib.Slots

/-!
# When a cluster's inventory is read

The column `inventory_at` of one cluster: `refreshInventory` of `mobility/migrate-job.ts` clears it,
and the passes of `fleet/worker.ts` over the cluster read it (`due`) and write it, at the end of
`applySnapshot` or when they record an error. Replicas' passes may overlap: a pass that outlives
its lease goes on.
-/

namespace IncusCloud.Fleet

open Lib

/-- Where `tick` is with the cluster. -/
inductive PassPhase
  | selected
  | collecting
  | collected
  /-- `applySnapshot` has committed; the sweep and the backfill follow. -/
  | applied
  | failed
  | ended
  deriving DecidableEq

structure InventoryPass where
  phase : PassPhase
  /-- How many refreshes there had been when `collect` began. -/
  began : ℕ
  wrote : Bool

structure Inventory where
  inventoryAt : Option Int
  disabled : Bool
  refreshes : ℕ
  passes : List InventoryPass

inductive InventoryAction
  | refreshInventory
  | setDisabled (disabled : Bool)
  /-- The `select` of `tick` at `now`, with the interval. -/
  | select (now intervalMs : Int)
  | collect (i : ℕ)
  | collected (i : ℕ)
  | applySnapshot (i : ℕ) (now : Int)
  | finish (i : ℕ)
  /-- `collect`, `applySnapshot` (which then has written nothing), the sweep or the backfill throws. -/
  | fail (i : ℕ)
  | recordError (i : ℕ) (now : Int)
  /-- The worker stops, loses its lease, or cannot record the error. -/
  | leave (i : ℕ)

namespace Inventory

/-- The `where` of `tick`'s `select`. -/
def due (s : Inventory) (now intervalMs : Int) : Bool :=
  !s.disabled && match s.inventoryAt with
    | none => true
    | some at_ => at_ < now - intervalMs

/-- The pass goes to another phase, by a step that `from_` allows. -/
def goOn (s : Inventory) (i : ℕ) (from_ : PassPhase → Bool)
    (next : InventoryPass → InventoryPass) : Option Inventory :=
  match s.passes[i]? with
  | some p => if from_ p.phase then some { s with passes := s.passes.set i (next p) } else none
  | none => none

def write (s : Inventory) (i : ℕ) (from_ : PassPhase → Bool) (phase : PassPhase) (now : Int) :
    Option Inventory :=
  (s.goOn i from_ fun p => { p with phase := phase, wrote := true }).map fun s =>
    { s with inventoryAt := some now }

def step (s : Inventory) : InventoryAction → Option Inventory
  | .refreshInventory => some { s with inventoryAt := none, refreshes := s.refreshes + 1 }
  | .setDisabled disabled => some { s with disabled := disabled }
  | .select now intervalMs =>
    if s.due now intervalMs then some { s with passes := s.passes ++ [⟨.selected, 0, false⟩] }
    else none
  | .collect i =>
    s.goOn i (· = .selected) fun p => { p with phase := .collecting, began := s.refreshes }
  | .collected i => s.goOn i (· = .collecting) fun p => { p with phase := .collected }
  | .applySnapshot i now => s.write i (· = .collected) .applied now
  | .finish i => s.goOn i (· = .applied) fun p => { p with phase := .ended }
  | .fail i =>
    s.goOn i (fun phase => phase = .collecting || phase = .collected || phase = .applied) fun p =>
      { p with phase := .failed }
  | .recordError i now => s.write i (· = .failed) .ended now
  | .leave i =>
    s.goOn i (fun phase => phase = .selected || phase = .failed) fun p => { p with phase := .ended }

end Inventory

/-!
### What an inventory pass stores

`collectInventory` of `fleet/collect.ts` and `applySnapshot` of `fleet/store.ts`, as far as
permissions read what they store: the instances with their locations, and the members with their
groups.
-/

/-! ### What Incus answers -/

structure ServerName where
  text : String
  nonempty : text ≠ ""

structure IncusInstance where
  project : Name
  name : Name
  location : String

structure IncusMember where
  serverName : ServerName
  groups : Option (List Name)

structure ServerEnvironment where
  serverClustered : Bool
  serverName : ServerName

structure IncusAnswers where
  server : Except ApiError ServerEnvironment
  /-- `/1.0/instances?recursion=2&all-projects=true`, or why it failed. -/
  instances : Except String (List IncusInstance)
  /-- `/1.0/cluster/members?recursion=1`, unless it failed. -/
  members : Option (List IncusMember)
  instances_keys : ∀ is, instances = .ok is → (is.map fun i => (i.project, i.name)).Nodup

/-! ### `collectInventory` -/

structure MemberSnapshot where
  name : String
  groups : List Name

structure InstanceSnapshot where
  project : Name
  name : Name
  location : String

structure InventorySnapshot where
  clustered : Bool
  members : List MemberSnapshot
  instances : List InstanceSnapshot

def defaultGroup : Name := ⟨"default", by decide⟩

/-- `instanceOf`: a standalone server says "none". -/
def instanceOf (i : IncusInstance) : InstanceSnapshot :=
  ⟨i.project, i.name, if i.location ≠ "" ∧ i.location ≠ "none" then i.location else ""⟩

/-- `memberOf`, for a member of a cluster. -/
def memberOf (m : IncusMember) : MemberSnapshot := ⟨m.serverName.text, m.groups.getD []⟩

def membersOf (env : ServerEnvironment) (list : Option (List IncusMember)) : List MemberSnapshot :=
  if env.serverClustered then (list.getD []).map memberOf
  else [⟨env.serverName.text, [defaultGroup]⟩]

def collectInventory (a : IncusAnswers) : Except ApiError InventorySnapshot := do
  let env ← a.server
  let raw ← a.instances.mapError fun m => ⟨502, "cluster_error", "Reading instances: " ++ m⟩
  pure ⟨env.serverClustered, membersOf env a.members, raw.map instanceOf⟩

/-! ### `applySnapshot` -/

/-- The key `(cluster_id, project, name)` of `instances`. -/
def instanceKey (r : InstanceRow) : Uuid × Name × Name := (r.clusterId, r.project, r.name)

/-- The key `(cluster_id, name)` of `cluster_members`. -/
def memberKey (r : ClusterMemberRow) : Uuid × String := (r.clusterId, r.name)

/-- The database with the keys of the tables a pass reads and writes. -/
structure FleetDb where
  db : Db
  clusters_ids : (db.clusters.map (·.id)).Nodup
  clusters_names : (db.clusters.map (·.name)).Nodup
  instances_keys : (db.instances.map instanceKey).Nodup
  clusterMembers_keys : (db.clusterMembers.map memberKey).Nodup

def chunk : ℕ := 500

def instanceRow (clusterId : Uuid) (i : InstanceSnapshot) : InstanceRow :=
  ⟨clusterId, i.project, i.name, i.location⟩

def memberRow (clusterId : Uuid) (m : MemberSnapshot) : ClusterMemberRow :=
  ⟨clusterId, m.name, m.groups⟩

/-- The table after the upserts and the `delete` of what disappeared. -/
def storedInstances (clusterId : Uuid) (old rows : List InstanceRow) : List InstanceRow :=
  (rows.foldl (upsert instanceKey) old).filter fun r =>
    r.clusterId ≠ clusterId || instanceKey r ∈ rows.map instanceKey

def storedMembers (clusterId : Uuid) (old rows : List ClusterMemberRow) : List ClusterMemberRow :=
  old.filter (·.clusterId ≠ clusterId) ++ rows

theorem nodup_storedInstances {clusterId : Uuid} {old rows : List InstanceRow}
    (h : (old.map instanceKey).Nodup) :
    ((storedInstances clusterId old rows).map instanceKey).Nodup :=
  (List.Sublist.map _ List.filter_sublist).nodup (nodup_upsertAll h)

theorem nodup_storedMembers {clusterId : Uuid} {old : List ClusterMemberRow}
    {members : List MemberSnapshot} (h : (old.map memberKey).Nodup)
    (hrows : ((members.map (memberRow clusterId)).map memberKey).Nodup) :
    ((storedMembers clusterId old (members.map (memberRow clusterId))).map memberKey).Nodup := by
  unfold storedMembers
  rw [List.map_append, List.nodup_append]
  refine ⟨(List.Sublist.map _ List.filter_sublist).nodup h, hrows, ?_⟩
  -- What is kept is another cluster's.
  intro k hk k' hk' heq
  obtain ⟨r, hr, rfl⟩ := List.mem_map.mp hk
  obtain ⟨r', hr', rfl⟩ := List.mem_map.mp hk'
  obtain ⟨m, -, rfl⟩ := List.mem_map.mp hr'
  have hne := of_decide_eq_true (List.mem_filter.mp hr).2
  exact hne (Prod.mk.inj heq).1

/-- `applySnapshot`: the transaction fails where one `insert` names a key twice. -/
def applySnapshot (f : FleetDb) (clusterId : Uuid) (snap : InventorySnapshot) : Option FleetDb :=
  let rows := snap.instances.map (instanceRow clusterId)
  let members := snap.members.map (memberRow clusterId)
  if h : (∀ part ∈ rows.toChunks chunk, (part.map instanceKey).Nodup) ∧
      (members.map memberKey).Nodup then
    some
      { db :=
          { f.db with
            instances := storedInstances clusterId f.db.instances rows
            clusterMembers := storedMembers clusterId f.db.clusterMembers members }
        clusters_ids := f.clusters_ids
        clusters_names := f.clusters_names
        instances_keys := nodup_storedInstances f.instances_keys
        clusterMembers_keys := nodup_storedMembers f.clusterMembers_keys h.2 }
  else none

end IncusCloud.Fleet
