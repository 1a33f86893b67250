import IncusCloud.Db.Schema
import IncusCloud.Lib.OrdMap
import Mathlib.Algebra.GroupWithZero.Nat

/-!
# Lifecycle events and inventory passes

`onLifecycle` of `acl/lifecycle.ts`, with the statements of `acl/owners.ts`, `acl/entries.ts` and
`leases/leases.ts` it runs, and the inventory pass of `fleet/worker.ts`, for one cluster. Handlers
are not awaited: each statement of each handler is a step of its own, and so is each of the pass.

`living` is what Incus has, with what each instance holds; nothing reads the latter. A table with a
primary key is a function of it.
-/

namespace IncusCloud.Fleet

open Lib Acl
open Function (update)

/-! ### Owners and leases -/

/-- `InstanceKey`, on the cluster at hand. -/
structure InstanceKey where
  project : Name
  name : Name
  deriving DecidableEq

inductive OwnerSource
  | incuscloud | event | backfill
  deriving DecidableEq

/-- IncusCloud's own jobs know best; then the clusters' events; the backfill only fills gaps. -/
def sourceRank : OwnerSource → ℕ
  | .backfill => 0
  | .event => 1
  | .incuscloud => 2

/-- A service account (`true`) or a user. -/
structure Owner where
  subject : Option (Bool × Uuid)
  source : OwnerSource
  deriving DecidableEq

structure InstanceLease where
  tenantId : Uuid
  expiresAt : Option Int
  extensions : ℕ
  actedAt : Option Int
  deriving DecidableEq

section

variable {V : Type}

def rekey (t : InstanceKey → Option V) (old new : InstanceKey) : Option (InstanceKey → Option V) :=
  match t old with
  | none => some t
  | some row =>
    if old ≠ new ∧ (t new).isSome then none
    else some (update (update t old none) new (some row))

def forget (t : InstanceKey → Option V) (k : InstanceKey) : InstanceKey → Option V :=
  update t k none

end

def renameOwned : (InstanceKey → Option Owner) → InstanceKey → InstanceKey →
    Option (InstanceKey → Option Owner) := rekey

def renameLease : (InstanceKey → Option InstanceLease) → InstanceKey → InstanceKey →
    Option (InstanceKey → Option InstanceLease) := rekey

def forgetOwned : (InstanceKey → Option Owner) → InstanceKey → InstanceKey → Option Owner := forget

def forgetLease : (InstanceKey → Option InstanceLease) → InstanceKey →
    InstanceKey → Option InstanceLease := forget

def recordOwner (t : InstanceKey → Option Owner) (k : InstanceKey) (subject : Bool × Uuid)
    (source : OwnerSource) : InstanceKey → Option Owner :=
  match t k with
  | none => update t k (some ⟨some subject, source⟩)
  | some old =>
    -- The backfill only fills gaps; otherwise an equal or better source wins.
    if source ≠ .backfill ∧ sourceRank old.source ≤ sourceRank source then
      update t k (some ⟨some subject, source⟩)
    else t

/-! ### Entries -/

/-- A row of `acl_entries`; `grant` is its subject and its role. -/
structure EntryRow where
  id : ℕ
  path : String
  grant : SubjectKind × Uuid × String
  deriving DecidableEq

def instancePath (cluster : Name) (k : InstanceKey) : String :=
  "/clusters/" ++ cluster.text ++ "/projects/" ++ k.project.text ++ "/instances/" ++ k.name.text

/-- Entries on `path` and below it. -/
def entriesUnder (path : String) (r : EntryRow) : Bool :=
  r.path = path || (path ++ "/").toList.isPrefixOf r.path.toList

/-- `String.prototype.length`. -/
def utf16Length (s : String) : ℕ := (s.toList.map fun c => if c.toNat < 0x10000 then 1 else 2).sum

/-- Moves the entries on `old` and below it to `new`; an error where two are then alike
(`acl_entry_unique`). -/
def moveEntries (rows : List EntryRow) (old new : String) : Option (List EntryRow) :=
  let moved := rows.map fun r =>
    if entriesUnder old r then
      { r with path := new ++ String.ofList (r.path.toList.drop (utf16Length old)) }
    else r
  if (moved.map fun r => (r.path, r.grant)).Nodup then some moved else none

def goneEntries (cluster : Name) (inventory : List InstanceKey) (rows : List EntryRow) : List ℕ :=
  ((rows.filter fun r =>
      ("/clusters/" ++ cluster.text ++ "/projects/").toList.isPrefixOf r.path.toList &&
        decide ("/instances/".toList <:+: r.path.toList)).filter fun r =>
      r.path ∉ inventory.map (instancePath cluster)).map (·.id)

/-! ### Events -/

structure Held where
  owner : Option Owner
  lease : Option InstanceLease
  entries : List (ℕ × SubjectKind × Uuid × String)
  deriving DecidableEq

/-- A lifecycle event. `subject` is what `subjectOf` finds behind the requestor. -/
inductive LifecycleEvent
  | created (key : InstanceKey) (subject : Option (Bool × Uuid))
  | renamed (project : Name) (old name : Name)
  | deleted (key : InstanceKey)

namespace LifecycleEvent

def possible (living : OrdMap InstanceKey Held) : LifecycleEvent → Bool
  | .created key _ => (living.get key).isNone
  | .renamed project old name =>
    (living.get ⟨project, old⟩).isSome && (living.get ⟨project, name⟩).isNone
  | .deleted key => (living.get key).isSome

def after (living : OrdMap InstanceKey Held) : LifecycleEvent → OrdMap InstanceKey Held
  | .created key subject => living ++ [(key, ⟨subject.map (⟨some ·, .event⟩), none, []⟩)]
  | .renamed project old name =>
    living.map fun e => if e.1 = ⟨project, old⟩ then (⟨project, name⟩, e.2) else e
  | .deleted key => living.erase key

def isCreate : LifecycleEvent → Bool
  | .created _ _ => true
  | _ => false

end LifecycleEvent

inductive Stage
  | owners | leases | entries | ended
  deriving DecidableEq

/-- Where the inventory pass is; `taken` is how much had happened when its snapshot was read. -/
inductive Pass
  | idle
  | collected (snapshot : List InstanceKey) (taken : ℕ)
  | applied (taken : ℕ)
  | sweeping (gone : List ℕ) (taken : ℕ)
  | swept (taken : ℕ)
  | filling (orphans : List InstanceKey) (taken : ℕ)
  deriving DecidableEq

structure ClusterState where
  start : OrdMap InstanceKey Held
  /-- What has happened since, and how far each handler is. -/
  log : List (LifecycleEvent × Stage)
  owners : InstanceKey → Option Owner
  leases : InstanceKey → Option InstanceLease
  entries : List EntryRow
  inventory : List InstanceKey
  pass : Pass

inductive ClusterAction
  | incus (event : LifecycleEvent)
  | handle (i : ℕ)
  /-- The pass: `collect`, `applySnapshot`, the reads of `sweepInstanceEntries` and its delete, the
  read of `backfillOwners` (`placed` are the tenants' projects) and each of its inserts (`owner` is
  the first owner of the tenant). -/
  | collect
  | applySnapshot
  | sweep
  | deleteSwept
  | orphans (placed : List Name)
  | backfill (owner : Option Uuid)
  | fail

namespace ClusterState

/-- What Incus had when the first `n` events had happened. -/
def livingAt (s : ClusterState) (n : ℕ) : OrdMap InstanceKey Held :=
  (s.log.take n).foldl (fun living e => e.1.after living) s.start

def living (s : ClusterState) : OrdMap InstanceKey Held := s.livingAt s.log.length

/-- The handler of event `i` has come to `stage`. -/
def reach (s : ClusterState) (i : ℕ) (e : LifecycleEvent) (stage : Stage) : ClusterState :=
  { s with log := s.log.set i (e, stage) }

/-- `onLifecycle`, one statement of it; one that fails ends the handler. -/
def onLifecycle (cluster : Name) (s : ClusterState) (i : ℕ) : LifecycleEvent → Stage → ClusterState
  | .created key (some subject), .owners =>
    { s with owners := recordOwner s.owners key subject .event }.reach i (.created key (some subject))
      .ended
  | .created key none, .owners => s.reach i (.created key none) .ended
  | .renamed project old name, .owners =>
    match renameOwned s.owners ⟨project, old⟩ ⟨project, name⟩ with
    | some owners => { s with owners := owners }.reach i (.renamed project old name) .leases
    | none => s.reach i (.renamed project old name) .ended
  | .renamed project old name, .leases =>
    match renameLease s.leases ⟨project, old⟩ ⟨project, name⟩ with
    | some leases => { s with leases := leases }.reach i (.renamed project old name) .entries
    | none => s.reach i (.renamed project old name) .ended
  | .renamed project old name, .entries =>
    match moveEntries s.entries (instancePath cluster ⟨project, old⟩)
        (instancePath cluster ⟨project, name⟩) with
    | some entries => { s with entries := entries }.reach i (.renamed project old name) .ended
    | none => s.reach i (.renamed project old name) .ended
  | .deleted key, .owners =>
    { s with owners := forgetOwned s.owners key }.reach i (.deleted key) .leases
  | .deleted key, .leases =>
    { s with leases := forgetLease s.leases key }.reach i (.deleted key) .entries
  | .deleted key, .entries =>
    -- Its permission entries go too: a later instance of that name starts clean.
    { s with entries := s.entries.filter fun r => !entriesUnder (instancePath cluster key) r }.reach i
      (.deleted key) .ended
  | _, _ => s

def step (cluster : Name) (s : ClusterState) : ClusterAction → Option ClusterState
  | .incus e => if e.possible s.living then some { s with log := s.log ++ [(e, .owners)] } else none
  | .handle i =>
    match s.log[i]? with
    | some (e, stage) => if stage = .ended then none else some (s.onLifecycle cluster i e stage)
    | none => none
  | .collect =>
    match s.pass with
    | .idle => some { s with pass := .collected (s.living.map (·.1)) s.log.length }
    | _ => none
  | .applySnapshot =>
    match s.pass with
    | .collected snapshot taken => some { s with inventory := snapshot, pass := .applied taken }
    | _ => none
  | .sweep =>
    match s.pass with
    | .applied taken =>
      some { s with pass := .sweeping (goneEntries cluster s.inventory s.entries) taken }
    | _ => none
  | .deleteSwept =>
    match s.pass with
    | .sweeping gone taken =>
      some { s with entries := s.entries.filter (·.id ∉ gone), pass := .swept taken }
    | _ => none
  | .orphans placed =>
    match s.pass with
    | .swept taken =>
      some
        { s with
          pass := .filling (s.inventory.filter fun k => k.project ∈ placed ∧ s.owners k = none) taken }
    | _ => none
  | .backfill owner =>
    match s.pass with
    | .filling (k :: orphans) taken =>
      match owner with
      | some id =>
        some
          { s with
            owners := recordOwner s.owners k (false, id) .backfill, pass := .filling orphans taken }
      | none => some { s with pass := .filling orphans taken }
    | .filling [] _ => some { s with pass := .idle }
    | _ => none
  | .fail => some { s with pass := .idle }

end ClusterState

end IncusCloud.Fleet
