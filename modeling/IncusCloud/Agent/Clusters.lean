import IncusCloud.Agent.Addresses
import IncusCloud.Lib.Interleave

/-!
# The Kubernetes agent's clusters

What the routes of `k8s/routes/clusters.ts` read and write, call by call: the records
(`db/repo.ts`), the jobs of `lib/metallb-ops.ts`, the Incus projects (`lib/projects.ts`) and the
objects of the management cluster (`lib/capi.ts`). What the agent does between two of its awaits is
one call. A call of Incus or of `kubectl` may fail, before or after it took effect. What Cluster
API's controllers do is not followed.

`acting`, `touched`, `createdBy`, `undoing`, `written`, `writtenAt` and `seen` are history.
-/

namespace IncusCloud.Agent

open Lib

inductive AgentError
  | http (status : ℕ) (message : String)
  | noKubeconfig
  | failed (message : String)
  deriving DecidableEq

def AgentError.detail : AgentError → String
  | http _ message => message
  | noKubeconfig => "the cluster has no kubeconfig yet (control plane not initialized)"
  | failed message => message

/-! ### Records -/

inductive ClusterStatus
  | pending | provisioning | ready | scaling | upgrading | error
  deriving DecidableEq

structure ClusterSpec where
  metallb : Option MetalLBRequest
  endpointHost : Option String
  deriving DecidableEq

structure ClusterRecord where
  name : String
  project : Option String
  status : ClusterStatus
  spec : ClusterSpec
  deriving DecidableEq

def wantedMetalLB (r : ClusterRecord) : Option (List String) := r.spec.metallb.map (·.addresses)

/-- The table of clusters: names are unique. The last that was created comes first. -/
structure ClusterRepo where
  rows : List ClusterRecord
  nodup : (rows.map (·.name)).Nodup

namespace ClusterRepo

variable (t : ClusterRepo)

def empty : ClusterRepo := ⟨[], List.nodup_nil⟩

variable (name : String)

def getByName : Option ClusterRecord := t.rows.find? fun r => r.name = name

def create (r : ClusterRecord) : Option ClusterRepo :=
  if h : r.name ∈ t.rows.map (·.name) then none else some ⟨r :: t.rows, List.nodup_cons.mpr ⟨h, t.nodup⟩⟩

def update (f : ClusterRecord → ClusterRecord) (hf : ∀ r, (f r).name = r.name) : ClusterRepo where
  rows := t.rows.map fun r => if r.name = name then f r else r
  nodup := by
    have hnames : (t.rows.map fun r => if r.name = name then f r else r).map (·.name) = t.rows.map (·.name) := by
      rw [List.map_map]
      refine List.map_congr_left fun r _ => ?_
      show (if r.name = name then f r else r).name = r.name
      split_ifs
      · exact hf r
      · rfl
    rw [hnames]
    exact t.nodup

def setSpec (spec : ClusterSpec) : ClusterRepo :=
  t.update name (fun r => { r with spec := spec }) fun _ => rfl

def setStatus (status : ClusterStatus) : ClusterRepo :=
  t.update name (fun r => { r with status := status }) fun _ => rfl

def deleteByName : ClusterRepo where
  rows := t.rows.filter fun r => r.name ≠ name
  nodup := t.nodup.sublist (List.filter_sublist.map _)

def otherPools (except : String) : List (String × List String) :=
  (t.rows.filter fun r => r.name ≠ except).filterMap fun r => (wantedMetalLB r).map fun a => (r.name, a)

/-- Addresses the network does not know are spoken for. -/
def reservedAddresses (except : String) : List String :=
  (t.otherPools except).flatMap (·.2) ++ t.rows.filterMap fun r => r.spec.endpointHost

/-- Why addresses would collide with another cluster's pool or an endpoint. -/
def poolConflict (addresses : List String) (except : String) : Option String :=
  ((t.otherPools except).findSome? fun pool =>
    let clash := overlapping addresses pool.2
    if clash ≠ [] then
      some (", ".intercalate clash ++ " overlaps the MetalLB pool of cluster " ++ pool.1 ++ " (" ++
        ", ".intercalate pool.2 ++ ")")
    else none).or
  (t.rows.findSome? fun r =>
    r.spec.endpointHost.bind fun host =>
      if overlapping addresses [host] ≠ [] then some (host ++ " is the API endpoint of cluster " ++ r.name) else none)

end ClusterRepo

/-! ### Jobs -/

inductive JobAction
  | install (addresses : List String)
  | remove

inductive JobStage
  | kubeconfig
  | manifest
  | controller
  | speaker
  | pool (attempt : ℕ)
  | delete

structure Job where
  action : JobAction
  running : Bool
  error : Option String
  stage : JobStage

/-- MetalLB in a workload cluster: its manifest, and the addresses of the agent's pool. -/
structure Workload where
  manifest : Bool
  pool : Option (List String)

/-- The addresses as `buildPoolManifest` writes them. -/
def poolAddresses (addresses : List String) : List String := addresses.map fun a => String.ofList (trim a.toList)

def poolAttempts : ℕ := 24

def Job.work (j : Job) (c : Workload) : Workload × Option JobStage :=
  match j.stage, j.action with
  | .kubeconfig, .install _ => (c, some .manifest)
  | .kubeconfig, .remove => (c, some .delete)
  | .manifest, _ => ({ c with manifest := true }, some .controller)
  | .controller, _ => (c, some .speaker)
  | .speaker, _ => (c, some (.pool 0))
  | .pool _, .install addresses => ({ c with pool := some (poolAddresses addresses) }, none)
  | .pool _, .remove => (c, none)
  -- The manifest's namespace and definitions take the pool with them.
  | .delete, _ => (⟨false, none⟩, none)

def JobStage.failure : JobStage → String
  | kubeconfig => ""
  | manifest => "applying MetalLB failed: "
  | controller => "MetalLB deployment/controller did not become ready: "
  | speaker => "MetalLB daemonset/speaker did not become ready: "
  | pool _ => "creating the MetalLB address pool failed: "
  | delete => "removing MetalLB failed: "

/-- The stage after a step that failed: the pool is tried again. -/
def JobStage.retry : JobStage → Option JobStage
  | pool attempt => if attempt + 1 < poolAttempts then some (pool (attempt + 1)) else none
  | _ => none

def Job.fail (j : Job) (message : String) : Job :=
  match j.stage.retry with
  | some stage => { j with stage := stage }
  | none => { j with running := false, error := some (j.stage.failure ++ message) }

/-! ### Projects -/

/-- An Incus project, with its profiles besides `default`. -/
structure IncusProject where
  config : OrdMap String String
  instances : List String
  images : List String
  profiles : List String
  defaultProfile : Option (String × String)
  deriving DecidableEq

def managedKey : String := "user.incendio.managed"
def clusterKey : String := "user.incendio.cluster"

structure ProjectMetadata where
  role : String
  cluster : String
  k8sVersion : String

def buildProjectConfig (m : ProjectMetadata) : OrdMap String String :=
  [(managedKey, "true"), ("user.incendio.role", m.role), (clusterKey, m.cluster)] ++
    if m.k8sVersion ≠ "" then [("user.incendio.k8s-version", m.k8sVersion)] else []

structure Touch where
  cluster : String
  project : String
  config : OrdMap String String
  /-- The other clusters whose records named the project. -/
  others : List String

/-! ### The state -/

structure AgentState (ι : Type) where
  records : ClusterRepo
  heap : List Job
  jobs : OrdMap String ℕ
  workloads : String → Workload
  projects : OrdMap String IncusProject
  clusters : List String
  /-- The identity secrets, and the projects they are for. -/
  secrets : OrdMap String String
  acting : ι → String
  touched : List Touch
  createdBy : List (ι × String)
  undoing : ι → Bool
  written : ℕ
  writtenAt : String → ℕ
  seen : ι → ℕ

namespace AgentState

variable {ι : Type} (w : AgentState ι) (cluster : String)

/-- `jobs.get(cluster)`. -/
def job : Option Job := (w.jobs.get cluster).bind fun k => w.heap[k]?

/-- `jobs.get(cluster)?.running`. -/
def jobRunning : Bool := (w.job cluster).any (·.running)

def start (action : JobAction) : AgentState ι :=
  if w.jobRunning cluster then w
  else { w with heap := w.heap ++ [⟨action, true, none, .kubeconfig⟩], jobs := w.jobs.set cluster w.heap.length }

def startInstall (addresses : List String) : AgentState ι := w.start cluster (.install addresses)

def startRemove : AgentState ι := w.start cluster .remove

def forgetJob : AgentState ι :=
  if w.jobRunning cluster then w else { w with jobs := w.jobs.erase cluster }

def onProject (project : String) (f : IncusProject → IncusProject) : AgentState ι :=
  { w with projects := w.projects.map fun e => if e.1 = project then (e.1, f e.2) else e }

/-- A request deletes something of a project, or replaces its default profile. -/
def touch (i : ι) (project : String) : AgentState ι :=
  match w.projects.get project with
  | none => w
  | some p =>
    { w with touched :=
      ⟨w.acting i, project, p.config,
        (w.records.rows.filter fun r => r.project = some project && r.name ≠ w.acting i).map (·.name)⟩ :: w.touched }

end AgentState

end IncusCloud.Agent
