import IncusCloud.Balancing.Engine
import IncusCloud.Db.Schema
import IncusCloud.Lib.Handler
import IncusCloud.Lib.NumberFormat
import IncusCloud.Tenants.Quota

/-!
# Tenants' projects

`reconcile/projects.ts`: `projectConfigFor` and `ensureProject`, which creates a tenant's project on
a cluster or brings its limits and restrictions in line, with the cluster's projects that it reads
and changes. A cluster keeps the config it is sent, less the keys whose value is empty.
-/

namespace IncusCloud.Reconcile

open Lib
open Tenants (QuotaKey quotaKeys)

abbrev Config := OrdMap String String

def tenantKey : String := "user.incuscloud.tenant"

def clusterGroupsKey : String := "restricted.cluster.groups"

/-- `k.startsWith(p)`. -/
def startsWith (k p : String) : Bool := p.toList.isPrefixOf k.toList

structure ProjectTenant where
  id : Uuid
  slug : String

/-- The name of a cluster group; there is no empty one (`NAME`). -/
structure GroupName where
  text : String
  ne_empty : text ≠ ""

instance : DecidableEq GroupName := fun a b =>
  decidable_of_iff (a.text = b.text) (by cases a; cases b; simp)

abbrev ProjectLimits := QuotaKey → Option Number

/-- Restricted tenant project: own images, profiles and volumes, the cluster's networks, and this
placement's share of the quota. -/
def projectConfigFor (tenant : ProjectTenant) (limits : ProjectLimits) : Config :=
  OrdMap.ofList <|
    [("restricted", "true"),
      -- Restricted projects block backups by default.
      ("restricted.backups", "allow"),
      -- Kubernetes nodes are containers that need nesting.
      ("restricted.containers.nesting", "allow"),
      ("restricted.cluster.target", "allow"),
      ("features.images", "true"),
      ("features.profiles", "true"),
      ("features.storage.volumes", "true"),
      ("features.storage.buckets", "true"),
      ("features.networks", "false"),
      (tenantKey, tenant.id.text)] ++
    quotaKeys.filterMap fun k => (limits k).map fun v => ("limits." ++ k.text, String.ofList v.text)

/-- What is kept in line with the wanted config on a project that is there. -/
def updatable (k : String) : Bool := startsWith k "restricted" || startsWith k "limits." || k = tenantKey

def unsettable (k : String) : Bool := startsWith k "limits." || k = clusterGroupsKey

section

variable (tenant : ProjectTenant) (limits : ProjectLimits) (clusterGroups : List GroupName)
    (snapshotsFull : Bool)

/-- The `want` of `ensureProject`. -/
def wantedConfig : Config :=
  let want := (projectConfigFor tenant limits).set "restricted.snapshots"
    (if snapshotsFull then "block" else "allow")
  if clusterGroups = [] then want
  else
    want.set clusterGroupsKey
      (join ',' ((clusterGroups.map (·.text)).insertionSort fun a b => !Balancing.textLt b a))

/-- The `patch` of `ensureProject`; an empty value unsets its key. -/
def patchFor (want current : Config) : Config :=
  (want.filter fun e => updatable e.1 && current.get e.1 ≠ some e.2) ++
    (current.filter fun e => unsettable e.1 && (want.get e.1).isNone).map fun e => (e.1, "")

/-- The `next` of `ensureProject`: the whole config. -/
def applyPatch (current patch : Config) : Config :=
  patch.foldl (fun next e => if e.2 = "" then next.erase e.1 else next.set e.1 e.2) current

/-! ### The cluster -/

structure Project where
  config : Option Config
  description : Option String
  full : ∀ e ∈ config.getD [], e.2 ≠ ""

/-- `project.config ?? {}`. -/
def Project.current (p : Project) : Config := p.config.getD []

def Project.keep (config : Config) (description : String) : Project where
  config := some (config.filter fun e => e.2 ≠ "")
  description := some description
  full := by
    intro e he
    simpa using (List.mem_filter.mp he).2

inductive ProjectCall
  | get (name : String)
  | post (name description : String) (config : Config)
  | put (name : String) (config : Config) (description : String)

abbrev ProjectCall.Answer : ProjectCall → Type
  | get _ => Project
  | _ => Unit

inductive ProjectError
  /-- `ClusterError`, with its `clusterStatus`. -/
  | cluster (status : ℕ) (message : String)
  | api (status : ℕ) (code message : String)

/-- How a call fails: an answer other than that there is no such project, or no answer. -/
inductive Trouble
  | refused (status : ℕ) (message : String) (found : status ≠ 404)
  | unreachable (message : String)

def Trouble.error : Trouble → ProjectError
  | refused status message _ => .cluster status message
  | unreachable message => .api 502 "cluster_unreachable" message

structure ProjectHost where
  projects : String → Option Project
  sent : List ProjectCall

/-- How a call goes: as asked, or it fails, after it took effect or not. -/
abbrev CallFate := Option (Trouble × Bool)

namespace ProjectHost

variable (h : ProjectHost)

def change (c : ProjectCall) (name : String) (p : Project) (o : CallFate) :
    Except ProjectError Unit × ProjectHost :=
  let asked : ProjectHost := { h with sent := c :: h.sent }
  let done : ProjectHost := { asked with projects := Function.update h.projects name (some p) }
  o.elim (.ok (), done) fun t => (.error t.1.error, if t.2 then done else asked)

def answer (c : ProjectCall) (o : CallFate) : Except ProjectError c.Answer × ProjectHost :=
  match c with
  | .get name =>
    (o.elim ((h.projects name).elim (.error (.cluster 404 "Project not found")) .ok) fun t =>
      .error t.1.error, h)
  | .post name description config =>
    if (h.projects name).isSome then
      (.error (.cluster 409 "Project already exists"),
        { h with sent := .post name description config :: h.sent })
    else h.change (.post name description config) name (.keep config description) o
  | .put name config description =>
    if (h.projects name).isNone then
      (.error (.cluster 404 "Project not found"), { h with sent := .put name config description :: h.sent })
    else h.change (.put name config description) name (.keep config description) o

end ProjectHost

def projectWorld : World ProjectCall ProjectCall.Answer ProjectError ProjectHost CallFate :=
    ⟨fun c h o => h.answer c o⟩

/-! ### `ensureProject` -/

inductive Ensured
  | created | updated | unchanged

abbrev Ensure := Handler ProjectCall ProjectCall.Answer ProjectError Unit

def getProject (name : String) : Ensure Project := Handler.call (ProjectCall.get name)

def postProject (name description : String) (config : Config) : Ensure Unit :=
  Handler.call (ProjectCall.post name description config)

def putProject (name : String) (config : Config) (description : String) : Ensure Unit :=
  Handler.call (ProjectCall.put name config description)

def findProject (name : String) : Ensure (Option Project) :=
  tryCatch
    (do
      let project ← getProject name
      pure (some project))
    fun e =>
      match e with
      | .cluster 404 _ => pure none
      | e => throw e

def alignProject (name : String) (project : Project) : Ensure Ensured :=
  let want := wantedConfig tenant limits clusterGroups snapshotsFull
  if project.current.get tenantKey ≠ some tenant.id.text then
    throw (.api 409 "project_exists"
      ("Project \"" ++ name ++ "\" already exists on the cluster and does not belong to this tenant"))
  else
    let patch := patchFor want project.current
    if patch = [] then pure .unchanged
    else do
      putProject name (applyPatch project.current patch) (project.description.getD "")
      pure .updated

/-- Creates the tenant's project, or brings its limits in line. Refuses a same-named project that
is not this tenant's. -/
def ensureProject (name : String) : Ensure Ensured := do
  let found ← findProject name
  found.elim
    (do
      postProject name ("IncusCloud tenant " ++ tenant.slug)
        (wantedConfig tenant limits clusterGroups snapshotsFull)
      pure .created)
    (alignProject tenant limits clusterGroups snapshotsFull name)

end

end IncusCloud.Reconcile
