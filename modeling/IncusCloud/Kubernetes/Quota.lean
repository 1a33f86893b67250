import IncusCloud.Kubernetes.Jobs

/-!
# Workload clusters under a quota

Everything that bears on a tenant's quota where its instances are those of its workload clusters:
`POST /api/v1/kubernetes` and `PATCH /api/v1/kubernetes/:id` of `api/kubernetes.ts`, `pendingOf` of
`api/tenant-cloud.ts`, the ends of the create and delete jobs, and the part of a reconcile pass that
reads a project's usage.

A request decides under the tenant's lock, but each of its reads sees what is committed then. What
the controllers have made of a cluster's nodes is not followed: at any time they are whatever they
are. `parts` and `used` are history: which cluster's nodes a usage was read from, and the ids rows
have had.
-/

namespace IncusCloud.Kubernetes

open Jobs (JobState)
open Tenants (Usage Quotas quotaKeys sumUsage exceeds)

/-- What the cluster counts against the tenant's quota. -/
def K8sRow.usage (r : K8sRow) : Usage := usageOfSpec r.spec r.controlPlanes r.workers true

/-- A project's usage as it was read, and what of it each cluster's nodes used. -/
structure ReadUsage where
  usage : Usage
  parts : String → Usage

/-- A placement of the tenant, and `placements.usage`. -/
structure K8sPlacement where
  clusterId : String
  read : Option ReadUsage

structure CreateUsage where
  k8sId : String
  usage : Usage
  state : JobState

def CreateUsage.active (j : CreateUsage) : Bool := j.state = .queued || j.state = .running

inductive Change
  | create (row : K8sRow)
  | scale (cur : K8sRow) (body : PatchBody)

def grow (cur next : K8sRow) : Usage := fun k =>
  usageOfSpec cur.spec next.controlPlanes next.workers false k -
    usageOfSpec cur.spec cur.controlPlanes cur.workers false k

def Change.request : Change → Usage
  | create row => row.usage
  | scale cur body => grow cur (Management.patched body cur)

inductive QuotaCheck
  | free
  | patching (id : String) (body : PatchBody)
  | locked (change : Change)
  | summed (change : Change) (usages : List (Option ReadUsage))
  | within (change : Change)

structure TenantClusters where
  quotas : Quotas
  rows : List K8sRow
  placements : List K8sPlacement
  jobs : List CreateUsage
  nodes : String → Usage
  /-- The passes that have read a project's usage and not stored it yet. -/
  passes : List K8sPlacement
  check : QuotaCheck
  used : List String

inductive QuotaAction
  /-- A request takes the lock; `PATCH` reads the row; then both read the placements' usages, then
  the pending creates, and write; or the request is refused for another reason, or fails. -/
  | post (row : K8sRow)
  | patch (id : String) (body : PatchBody)
  | readRow
  | readUsages
  | readPending
  | commit
  | abandon
  | start (j : ℕ)
  | finish (j : ℕ) (succeeds : Bool)
  /-- A row's status is written by its job or by the sync worker; a delete job removes the row. -/
  | setStatus (id : String) (status : K8sStatus)
  | remove (id : String)
  | setNodes (id : String) (usage : Usage)
  /-- A reconcile pass reads a project's usage, where there is one, and stores it. -/
  | passRead (cluster : String) (there : Bool)
  | passStore (p : ℕ)

namespace TenantClusters

variable (t : TenantClusters)

def row (id : String) : Option K8sRow := t.rows.find? (·.id = id)

def pendingOf : Usage := sumUsage ((t.jobs.filter (·.active)).map fun j => some j.usage)

def pendingFor (id : String) : Usage := fun k =>
  ((t.jobs.filter fun j => j.active ∧ j.k8sId = id).map fun j => j.usage k).sum

def projectUsage (cluster : String) : ReadUsage where
  usage k := (t.rows.map fun r => if r.clusterId = cluster then t.nodes r.id k else 0).sum
  parts id k := (t.row id).elim 0 fun r => if r.clusterId = cluster then t.nodes id k else 0

def updateRow (id : String) (f : K8sRow → K8sRow) : TenantClusters :=
  { t with rows := t.rows.map fun r => if r.id = id then f r else r }

def setJob (j : ℕ) (job : CreateUsage) : TenantClusters := { t with jobs := t.jobs.set j job }

def created (row : K8sRow) : TenantClusters :=
  { t with
    rows := t.rows ++ [{ row with status := .creating }]
    jobs := t.jobs ++ [⟨row.id, row.usage, .queued⟩]
    placements :=
      if t.placements.any (·.clusterId = row.clusterId) then t.placements
      else t.placements ++ [⟨row.clusterId, none⟩]
    used := row.id :: t.used
    check := .free }

/-- `set(next)`. -/
def scaled (cur : K8sRow) (body : PatchBody) : TenantClusters :=
  let next := Management.patched body cur
  { t.updateRow cur.id fun r =>
      { r with version := next.version, controlPlanes := next.controlPlanes, workers := next.workers } with
    check := .free }

def step : QuotaAction → Option TenantClusters
  | .post row =>
    match t.check with
    | .free => some { t with check := .locked (.create row) }
    | _ => none
  | .patch id body =>
    match t.check with
    | .free => some { t with check := .patching id body }
    | _ => none
  | .readRow =>
    match t.check with
    | .patching id body =>
      match t.row id with
      | none => some { t with check := .free }
      | some cur =>
        match Management.patchRefusal cur body false with
        | some _ => some { t with check := .free }
        | none =>
          -- Only growth needs room; shrinking is always allowed.
          if 0 < grow cur (Management.patched body cur) .instances then
            some { t with check := .locked (.scale cur body) }
          else some { t with check := .within (.scale cur body) }
    | _ => none
  | .readUsages =>
    match t.check with
    | .locked change => some { t with check := .summed change (t.placements.map (·.read)) }
    | _ => none
  | .readPending =>
    match t.check with
    | .summed change usages =>
      let used := sumUsage (usages.map (Option.map (·.usage)) ++ [some t.pendingOf])
      if exceeds t.quotas used change.request = [] then some { t with check := .within change }
      else some { t with check := .free }
    | _ => none
  | .commit =>
    match t.check with
    -- Ids are drawn, and are new.
    | .within (.create row) => if row.id ∈ t.used then none else some (t.created row)
    | .within (.scale cur body) => some (t.scaled cur body)
    | _ => none
  | .abandon => some { t with check := .free }
  | .start j =>
    match t.jobs[j]? with
    | some job => if job.state = .queued then some (t.setJob j { job with state := .running }) else none
    | none => none
  | .finish j succeeds =>
    match t.jobs[j]? with
    | some job =>
      if job.active then
        some (t.setJob j { job with state := if succeeds then .succeeded else .failed })
      else none
    | none => none
  | .setStatus id status => some (t.updateRow id fun r => { r with status := status })
  | .remove id => some { t with rows := t.rows.filter (·.id ≠ id) }
  | .setNodes id usage => some { t with nodes := Function.update t.nodes id usage }
  | .passRead cluster there =>
    some
      { t with
        passes := t.passes ++ [⟨cluster, if there then some (t.projectUsage cluster) else none⟩] }
  | .passStore p =>
    (t.passes[p]?).map fun pass =>
      { t with
        placements := t.placements.map fun x =>
          if x.clusterId = pass.clusterId then { x with read := pass.read } else x
        passes := t.passes.eraseIdx p }

def total : Usage := fun k => (t.rows.map fun r => r.usage k).sum

/-- A tenant without workload clusters, placed on some Incus clusters. -/
def fresh (quotas : Quotas) (clusters : List String) : TenantClusters where
  quotas := quotas
  rows := []
  placements := clusters.map fun c => ⟨c, none⟩
  jobs := []
  nodes _ _ := 0
  passes := []
  check := .free
  used := []

end TenantClusters

end IncusCloud.Kubernetes
