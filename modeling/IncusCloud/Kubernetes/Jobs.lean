import IncusCloud.Jobs.Runner
import IncusCloud.Kubernetes.Model
import IncusCloud.Lib.Interleave
import IncusCloud.Mobility.Migrate

/-!
# Who writes a workload cluster's row

`k8s/jobs.ts` (the create and the delete of a workload cluster), `k8s/credentials.ts` (CAPN's
certificate, which the tenant's clusters on one Incus cluster share), `k8s/worker.ts` (the sync) and
the routes `PATCH` and `DELETE` of `api/kubernetes.ts`, as programs that interleave call by call. A
request's transaction is one call. What the controllers and Incus answer is not followed here, and
every call may fail, before or after it took effect; the forward is that of `Endpoint`.

An identity secret is told by the certificate whose key it holds, and a certificate by its number.
`used`, `deletes`, `seenAt`, `checked`, `past` and `looked` are history.
-/

namespace IncusCloud.Kubernetes

open Lib
open Jobs (JobState)
open Mobility (JobError)

/-! ### The database, the management cluster and the Incus clusters -/

inductive K8sJobType
  | create | delete
  deriving DecidableEq

/-- A job of a workload cluster: `K8sJobPayload` is the row's id. -/
structure K8sJob where
  id : String
  type : K8sJobType
  tenantId : String
  clusterId : String
  k8sId : String
  state : JobState
  cancelRequested : Bool

def K8sJob.active (j : K8sJob) : Bool := j.state = .queued || j.state = .running

/-- Who acts: the run of a job, a tick of the sync worker, a request. -/
inductive K8sProc
  | job (id : String)
  | tick (n : ℕ)
  | patch (n : ℕ)
  | delete (n : ℕ)
  deriving DecidableEq

structure Placement where
  project : String
  status : String
  message : String

structure Certificate where
  clusterId : String
  tenantId : String
  fingerprint : ℕ

structure Management where
  rows : List K8sRow
  jobs : List K8sJob
  /-- `k8s_credentials`: the certificate of a tenant on an Incus cluster. -/
  credentials : String → String → Option ℕ
  /-- What a transaction that holds the lock would roll back to. -/
  saved : String → String → Option ℕ
  holder : String → String → Option K8sProc
  trusted : List Certificate
  generated : ℕ
  /-- The tenants' namespaces, and the identity secrets in them by Incus cluster. -/
  namespaces : String → Bool
  secrets : String → String → Option ℕ
  used : List String
  deletes : String → ℕ
  seenAt : K8sProc → String → ℕ
  checked : String → Bool
  past : String → Bool
  /-- The tenants for whom a delete job found no row left, and may remove their namespace. -/
  looked : String → List K8sProc

/-- `PATCH`'s body. -/
structure PatchBody where
  version : Option String
  controlPlanes : Option ℕ
  workers : Option ℕ

inductive K8sCall
  /-- The runner takes a queued job, and writes how it ended. -/
  | claim (job : String)
  | succeed (job : String)
  | fail (job : String)
  | selectRow (id : String)
  | selectTenant (tenant : String)
  | selectPlacement (tenant cluster : String)
  | clientFor (cluster : String)
  | progress (stage message : String)
  | throwIfAborted
  | late
  | sleep
  /-- The class and its templates; then the tenant's namespace and what belongs in it. -/
  | applyClass
  | applyTenant (tenant : String)
  | applyCluster (id : String)
  | lock (tenant cluster : String)
  | commit (tenant cluster : String)
  | rollback (tenant cluster : String)
  | selectCredentials (tenant cluster : String)
  | deleteCredentials (tenant cluster : String)
  | insertCredentials (tenant cluster : String) (fingerprint : ℕ)
  | getSecret (tenant cluster : String)
  | applySecret (tenant cluster : String) (fingerprint : ℕ)
  | deleteSecret (tenant cluster : String)
  | trust (tenant cluster : String)
  | untrust (cluster : String) (fingerprint : ℕ)
  | selectOthers (tenant cluster except : String)
  | setStatus (id : String) (status : K8sStatus) (message : Option String)
  /-- The row is the delete's once it is `deleting`. -/
  | setError (id message : String)
  | setDeleting (id : String)
  | findLb (id : String)
  | defaultNetwork (id : String)
  | ensureForward (id target : String)
  | removeForward (id : String)
  | getCluster (id : String)
  | listMachines (id : String)
  | enqueueMetallb (id : String)
  | selectCreates (id : String)
  | deleteCluster (id : String)
  | removeLeftovers (id : String)
  | deleteRow (id : String)
  | selectLeft (tenant : String)
  | deleteNamespace (tenant : String)
  | acquireLease
  | stopped
  | selectSynced
  | saveSync (id : String) (status : Option (K8sStatus × String)) (nodes nodesReady : ℕ)
  | need (privilege : String)
  | patchTx (id : String) (body : PatchBody)
  | deleteTx (row : K8sRow)

def K8sCall.Answer : K8sCall → Type
  | claim _ => K8sJobType × String
  | selectRow _ => Option K8sRow
  | selectTenant _ => Bool
  | selectPlacement _ _ => Option Placement
  | clientFor _ => String
  | selectCredentials _ _ => Option ℕ
  | getSecret _ _ => Bool
  | trust _ _ => ℕ
  | selectOthers _ _ _ => Bool
  | findLb _ => Option String
  | defaultNetwork _ => String
  | getCluster _ => Option ControlPlane
  | listMachines _ => ℕ × ℕ
  | selectCreates _ => Bool
  | selectLeft _ => Bool
  | late => Bool
  | acquireLease => Bool
  | stopped => Bool
  | selectSynced => List K8sRow
  | patchTx _ _ => K8sRow
  | _ => Unit

/-- How a call goes, and what it finds where that is not followed here. -/
structure K8sOutcome where
  fails : Bool := false
  took : Bool := false
  aborted : Bool := false
  late : Bool := false
  tenant : Bool := true
  placement : Option Placement := some ⟨"", "ready", ""⟩
  clusterName : String := ""
  network : String := ""
  lb : Option String := none
  cluster : Option ControlPlane := none
  nodes : ℕ × ℕ := (0, 0)
  lease : Bool := true
  stopped : Bool := false
  overQuota : Bool := false
  drawn : String := ""

namespace Management

def row (w : Management) (id : String) : Option K8sRow := w.rows.find? (·.id = id)

def update (w : Management) (id : String) (f : K8sRow → K8sRow) : Management :=
  { w with rows := w.rows.map fun r => if r.id = id then f r else r }

def updateJobs (w : Management) (p : K8sJob → Bool) (f : K8sJob → K8sJob) : Management :=
  { w with jobs := w.jobs.map fun j => if p j then f j else j }

def look (w : Management) (i : K8sProc) : Management :=
  { w with seenAt := Function.update w.seenAt i w.deletes }

variable {α : Type}

def setAt (f : String → String → α) (tenant cluster : String) (a : α) : String → String → α :=
  Function.update f tenant (Function.update (f tenant) cluster a)

/-- The row whose create job `i` runs. -/
def creating (w : Management) (i : K8sProc) : Option String :=
  match i with
  | .job id => (w.jobs.find? fun j => j.id = id ∧ j.type = .create).map (·.k8sId)
  | _ => none

/-- The row whose delete job `i` runs. -/
def removing (w : Management) (i : K8sProc) : Option String :=
  match i with
  | .job id => (w.jobs.find? fun j => j.id = id ∧ j.type = .delete).map (·.k8sId)
  | _ => none

def acceptDelete (w : Management) (row : K8sRow) (drawn : String) : Management :=
  let w := w.update row.id fun r => { r with status := .deleting, statusMessage := "" }
  let w := w.updateJobs (fun j => j.type = .create ∧ j.state = .queued ∧ j.k8sId = row.id) fun j =>
    { j with state := .cancelled, cancelRequested := true }
  let w := w.updateJobs (fun j => j.type = .create ∧ j.state = .running ∧ j.k8sId = row.id) fun j =>
    { j with cancelRequested := true }
  { w with
    jobs := w.jobs ++ [⟨drawn, .delete, row.tenantId, row.clusterId, row.id, .queued, false⟩]
    used := row.id :: w.used
    deletes := Function.update w.deletes row.id (w.deletes row.id + 1) }

/-- `PATCH`'s row, with what was asked for. -/
def patched (body : PatchBody) (r : K8sRow) : K8sRow :=
  { r with
    version := body.version.getD r.version
    controlPlanes := body.controlPlanes.getD r.controlPlanes
    workers := body.workers.getD r.workers }

/-- Why `PATCH` refuses. -/
def patchRefusal (cur : K8sRow) (body : PatchBody) (overQuota : Bool) : Option JobError :=
  if busy.contains cur.status then
    some (.api 409 "busy" (cur.name ++ " is being created or deleted; try again when it is ready"))
  else
    let next := patched body cur
    match if next.version = cur.version then none else upgradeError cur.version next.version with
    | some why => some (.api 409 "bad_upgrade" why)
    | none => if overQuota then some (.api 409 "quota_exceeded" "Over the tenant's quota") else none

/-- A call whose effect is `done`. -/
def reply (w : Management) (o : K8sOutcome) (done : α × Management) :
    Option (Except JobError α × Management) :=
  some (if o.fails then (.error .failed, if o.took then done.2 else w) else (.ok done.1, done.2))

def silent (w : Management) (o : K8sOutcome) (a : α) : Option (Except JobError α × Management) :=
  some (if o.fails then (.error .failed, w) else (.ok a, w))

def release (w : Management) (tenant cluster : String) : Management :=
  { w with holder := setAt w.holder tenant cluster none }

def committed (w : Management) (i : K8sProc) (tenant cluster : String) : Management :=
  { w.release tenant cluster with
    past := (w.creating i).elim w.past fun id => Function.update w.past id true }

def rolledBack (w : Management) (i : K8sProc) (tenant cluster : String) : Management :=
  if w.holder tenant cluster = some i then
    { w.release tenant cluster with
      credentials := setAt w.credentials tenant cluster (w.saved tenant cluster) }
  else w

end Management

open Management (setAt)

/-- What a call of `i` answers, and what it does. None: it waits. -/
def answer (i : K8sProc) (c : K8sCall) (w : Management) (o : K8sOutcome) :
    Option (Except JobError c.Answer × Management) :=
  match c with
  | .claim job =>
    (w.jobs.find? fun j => j.id = job ∧ j.state = .queued).map fun j =>
      (.ok (j.type, j.k8sId),
        (w.updateJobs (·.id = job) fun j => { j with state := .running }).look i)
  | .succeed job =>
    w.reply o ((), w.updateJobs (·.id = job) fun j => { j with state := .succeeded })
  | .fail job =>
    w.reply o ((), w.updateJobs (·.id = job) fun j =>
      { j with state := if o.aborted then .cancelled else .failed })
  | .selectRow id => w.silent o (w.row id)
  | .selectTenant _ => w.silent o o.tenant
  | .selectPlacement _ _ => w.silent o o.placement
  | .clientFor _ => w.silent o o.clusterName
  | .progress _ _ => w.silent o ()
  | .throwIfAborted => w.silent o ()
  | .late => some (.ok o.late, w)
  | .sleep => w.silent o ()
  | .applyClass => w.silent o ()
  | .applyTenant tenant =>
    w.reply o ((), { w with namespaces := Function.update w.namespaces tenant true })
  | .applyCluster _ => w.silent o ()
  | .lock tenant cluster =>
    if o.fails then some (.error .failed, w)
    else
      match w.holder tenant cluster with
      | some _ => none
      | none =>
        some (.ok (),
          { w with
            holder := setAt w.holder tenant cluster (some i)
            saved := setAt w.saved tenant cluster (w.credentials tenant cluster) })
  | .commit tenant cluster => w.reply o ((), w.committed i tenant cluster)
  | .rollback tenant cluster => some (.ok (), w.rolledBack i tenant cluster)
  | .selectCredentials tenant cluster => w.silent o (w.credentials tenant cluster)
  | .deleteCredentials tenant cluster =>
    w.reply o ((), { w with credentials := setAt w.credentials tenant cluster none })
  | .insertCredentials tenant cluster fingerprint =>
    w.reply o ((), { w with credentials := setAt w.credentials tenant cluster (some fingerprint) })
  | .getSecret tenant cluster => w.silent o (w.secrets tenant cluster).isSome
  | .applySecret tenant cluster fingerprint =>
    if w.namespaces tenant then
      w.reply o ((), { w with secrets := setAt w.secrets tenant cluster (some fingerprint) })
    else some (.error .failed, w)
  | .deleteSecret tenant cluster =>
    w.reply o ((), { w with secrets := setAt w.secrets tenant cluster none })
  | .trust tenant cluster =>
    w.reply o
      (w.generated, { w with
        trusted := ⟨cluster, tenant, w.generated⟩ :: w.trusted
        generated := w.generated + 1 })
  | .untrust cluster fingerprint =>
    w.reply o
      ((), { w with
        trusted := w.trusted.filter fun c => c.clusterId ≠ cluster ∨ c.fingerprint ≠ fingerprint })
  | .selectOthers tenant cluster except =>
    w.reply o
      (w.rows.any fun r => r.tenantId = tenant ∧ r.clusterId = cluster ∧ r.id ≠ except,
        { w with checked := Function.update w.checked except true })
  | .setStatus id status message =>
    w.reply o
      ((), w.update id fun r =>
        { r with status := status, statusMessage := message.getD r.statusMessage })
  | .setError id message =>
    w.reply o
      ((), w.update id fun r =>
        if r.status = .deleting then r else { r with status := .error, statusMessage := message })
  | .setDeleting id => w.reply o ((), w.update id fun r => { r with status := .deleting })
  | .findLb _ => w.silent o o.lb
  | .defaultNetwork _ => w.silent o o.network
  | .ensureForward _ _ => w.silent o ()
  | .removeForward _ => w.silent o ()
  | .getCluster _ => w.silent o o.cluster
  | .listMachines _ => w.silent o o.nodes
  | .enqueueMetallb _ => w.silent o ()
  | .selectCreates id =>
    w.silent o (w.jobs.any fun j => j.type = .create ∧ j.active ∧ j.k8sId = id)
  | .deleteCluster _ => w.silent o ()
  | .removeLeftovers _ => w.silent o ()
  | .deleteRow id => w.reply o ((), { w with rows := w.rows.filter (·.id ≠ id) })
  | .selectLeft tenant =>
    w.reply o
      (w.rows.any (·.tenantId = tenant),
        if w.rows.any (·.tenantId = tenant) then w
        else { w with looked := Function.update w.looked tenant (i :: w.looked tenant) })
  | .deleteNamespace tenant =>
    w.reply o
      ((), { w with
        namespaces := Function.update w.namespaces tenant false
        secrets := Function.update w.secrets tenant fun _ => none
        looked := Function.update w.looked tenant ((w.looked tenant).erase i) })
  | .acquireLease => w.silent o o.lease
  | .stopped => some (.ok o.stopped, w)
  | .selectSynced =>
    w.reply o (w.rows.filter fun r => (.provisioning :: owned).contains r.status, w.look i)
  | .saveSync id status nodes nodesReady =>
    w.reply o
      ((), w.update id fun r =>
        { r with
          status := (status.map (·.1)).getD r.status
          statusMessage := (status.map (·.2)).getD r.statusMessage
          nodes := nodes
          nodesReady := nodesReady })
  | .need _ => w.silent o ()
  | .patchTx id body =>
    match w.row id with
    | none => some (.error (.api 404 "not_found" "Kubernetes cluster not found"), w)
    | some cur =>
      match Management.patchRefusal cur body o.overQuota with
      | some e => some (.error e, w)
      | none => w.reply o (Management.patched body cur, w.update id (Management.patched body))
  | .deleteTx row =>
    if w.jobs.any fun j => j.id = o.drawn then none
    else if w.jobs.any fun j => j.type = .delete ∧ j.active ∧ j.k8sId = row.id then
      some (.error (.api 409 "conflict" (row.name ++ " is already being deleted")), w)
    else w.reply o ((), w.acceptDelete row o.drawn)

/-! ### Programs -/

/-- `let pl` and `let why`: what was last seen of what is waited for. -/
structure Looked where
  placement : Option Placement
  why : String

abbrev Managing := Handler K8sCall K8sCall.Answer JobError Looked

namespace Managing

open Handler (call)

variable (tenant : String)

def claim (job : String) : Managing (K8sJobType × String) := call (K8sCall.claim job)
def succeed (job : String) : Managing Unit := call (K8sCall.succeed job)
def fail (job : String) : Managing Unit := call (K8sCall.fail job)
def selectRow (id : String) : Managing (Option K8sRow) := call (K8sCall.selectRow id)
def selectTenant : Managing Bool := call (K8sCall.selectTenant tenant)
def selectPlacement (tenant cluster : String) : Managing (Option Placement) :=
  call (K8sCall.selectPlacement tenant cluster)
def clientFor (cluster : String) : Managing String := call (K8sCall.clientFor cluster)
def progress (stage message : String) : Managing Unit := call (K8sCall.progress stage message)
def throwIfAborted : Managing Unit := call K8sCall.throwIfAborted
def late : Managing Bool := call K8sCall.late
def sleep : Managing Unit := call K8sCall.sleep
def applyClass : Managing Unit := call K8sCall.applyClass
def applyTenant : Managing Unit := call (K8sCall.applyTenant tenant)
def applyCluster (id : String) : Managing Unit := call (K8sCall.applyCluster id)
def lock (tenant cluster : String) : Managing Unit := call (K8sCall.lock tenant cluster)
def commit (tenant cluster : String) : Managing Unit := call (K8sCall.commit tenant cluster)
def rollback (tenant cluster : String) : Managing Unit := call (K8sCall.rollback tenant cluster)
def selectCredentials (tenant cluster : String) : Managing (Option ℕ) :=
  call (K8sCall.selectCredentials tenant cluster)
def deleteCredentials (tenant cluster : String) : Managing Unit :=
  call (K8sCall.deleteCredentials tenant cluster)
def insertCredentials (tenant cluster : String) (fingerprint : ℕ) : Managing Unit :=
  call (K8sCall.insertCredentials tenant cluster fingerprint)
def getSecret (tenant cluster : String) : Managing Bool := call (K8sCall.getSecret tenant cluster)
def applySecret (tenant cluster : String) (fingerprint : ℕ) : Managing Unit :=
  call (K8sCall.applySecret tenant cluster fingerprint)
def deleteSecret (tenant cluster : String) : Managing Unit := call (K8sCall.deleteSecret tenant cluster)
def trust (tenant cluster : String) : Managing ℕ := call (K8sCall.trust tenant cluster)
def untrust (cluster : String) (fingerprint : ℕ) : Managing Unit :=
  call (K8sCall.untrust cluster fingerprint)
def selectOthers (tenant cluster except : String) : Managing Bool :=
  call (K8sCall.selectOthers tenant cluster except)
def setStatus (id : String) (status : K8sStatus) (message : Option String) : Managing Unit :=
  call (K8sCall.setStatus id status message)
def setError (id message : String) : Managing Unit := call (K8sCall.setError id message)
def setDeleting (id : String) : Managing Unit := call (K8sCall.setDeleting id)
def findLb (id : String) : Managing (Option String) := call (K8sCall.findLb id)
def defaultNetwork (id : String) : Managing String := call (K8sCall.defaultNetwork id)
def ensureForward (id target : String) : Managing Unit := call (K8sCall.ensureForward id target)
def removeForward (id : String) : Managing Unit := call (K8sCall.removeForward id)
def getCluster (id : String) : Managing (Option ControlPlane) := call (K8sCall.getCluster id)
def listMachines (id : String) : Managing (ℕ × ℕ) := call (K8sCall.listMachines id)
def enqueueMetallb (id : String) : Managing Unit := call (K8sCall.enqueueMetallb id)
def selectCreates (id : String) : Managing Bool := call (K8sCall.selectCreates id)
def deleteCluster (id : String) : Managing Unit := call (K8sCall.deleteCluster id)
def removeLeftovers (id : String) : Managing Unit := call (K8sCall.removeLeftovers id)
def deleteRow (id : String) : Managing Unit := call (K8sCall.deleteRow id)
def selectLeft : Managing Bool := call (K8sCall.selectLeft tenant)
def deleteNamespace : Managing Unit := call (K8sCall.deleteNamespace tenant)
def acquireLease : Managing Bool := call K8sCall.acquireLease
def stopped : Managing Bool := call K8sCall.stopped
def selectSynced : Managing (List K8sRow) := call K8sCall.selectSynced
def saveSync (id : String) (status : Option (K8sStatus × String)) (nodes nodesReady : ℕ) : Managing Unit :=
  call (K8sCall.saveSync id status nodes nodesReady)
def need (privilege : String) : Managing Unit := call (K8sCall.need privilege)
def patchTx (id : String) (body : PatchBody) : Managing K8sRow := call (K8sCall.patchTx id body)
def deleteTx (row : K8sRow) : Managing Unit := call (K8sCall.deleteTx row)

end Managing

open Managing
open Handler (locals assign when)

/-- How often what is waited for is looked at at most before the deadline has passed. -/
structure K8sSite where
  looks : ℕ

def messageOf : JobError → String
  | .failed => "failed"
  | .api _ _ message => message

def timedOut (timeout : Looked → String) : Managing α := do
  let l ← locals
  throw (.api 504 "timeout" (timeout l))

/-- Looks until `check` gives a value, or fails with `timeout` once the deadline has passed. -/
def waitFor (check : Managing (Option α)) (timeout : Looked → String) : ℕ → Managing α
  | 0 => timedOut timeout
  | n + 1 => do
    throwIfAborted
    let v ← check
    v.elim
      (do
        let passed ← late
        if passed then timedOut timeout
        else do
          sleep
          waitFor check timeout n)
      pure

/-- Runs `fn` holding the lock on one tenant's credentials on one Incus cluster. -/
def locked (tenant cluster : String) (fn : Managing α) : Managing α := do
  lock tenant cluster
  tryCatch
    (do
      let r ← fn
      commit tenant cluster
      pure r)
    fun e => do
      rollback tenant cluster
      throw e

def reissue (tenant cluster : String) (row : Option ℕ) : Managing Unit := do
  row.elim (pure ()) fun old => do
    untrust cluster old
    deleteCredentials tenant cluster
  let fingerprint ← trust tenant cluster
  -- Without the secret the key is lost: a certificate nobody holds is not left trusted.
  tryCatch (applySecret tenant cluster fingerprint) fun e => do
    untrust cluster fingerprint
    throw e
  insertCredentials tenant cluster fingerprint

/-- Issued once; a missing secret means a new certificate. -/
def issue (tenant cluster : String) : Managing Unit := do
  let row ← selectCredentials tenant cluster
  let there ← row.elim (pure false) fun _ => getSecret tenant cluster
  when (!there) (reissue tenant cluster row)

def ensureCredentials (tenant cluster : String) : Managing Unit :=
  locked tenant cluster (issue tenant cluster)

def revokeCredentials (tenant cluster : String) : Managing Unit := do
  let row ← selectCredentials tenant cluster
  row.elim (pure ()) (untrust cluster)
  deleteSecret tenant cluster
  deleteCredentials tenant cluster

/-- Revokes the credentials unless a workload cluster other than `except` still uses them. -/
def revokeUnlessUsed (tenant cluster except : String) : Managing Unit :=
  locked tenant cluster do
    let others ← selectOthers tenant cluster except
    when (!others) (revokeCredentials tenant cluster)

section

variable (site : K8sSite)

def load (id : String) : Managing (K8sRow × String × String) := do
  let row ← selectRow id
  row.elim (throw (.api 404 "not_found" "Kubernetes cluster not found")) fun row => do
    let tenant ← selectTenant row.tenantId
    let placement ← selectPlacement row.tenantId row.clusterId
    if !tenant then throw (.api 409 "conflict" "The tenant is no longer placed on that cluster")
    else
      placement.elim
        (throw (.api 409 "conflict" "The tenant is no longer placed on that cluster"))
        fun placement => do
          let name ← clientFor row.clusterId
          pure (row, placement.project, name)

def endpointUrl (host : String) (port : ℕ) : String :=
  "https://" ++ (if host.contains ':' then "[" ++ host ++ "]" else host) ++ ":" ++ toString port

def placementNow (row : K8sRow) : Managing (Option Unit) := do
  let placement ← selectPlacement row.tenantId row.clusterId
  assign fun l => { l with placement := placement }
  pure (if placement.any (·.status = "ready") then some () else none)

def notPlaced (project cluster : String) (l : Looked) : String :=
  "The tenant's project " ++ project ++ " on " ++ cluster ++ " is not ready (" ++
    l.placement.elim "removed" (fun p => p.status ++ if p.message = "" then "" else ": " ++ p.message) ++
    ")"

/-- A tenant an operator just placed here: its project comes first. -/
def waitForPlacement (row : K8sRow) (project cluster : String) : Managing Unit := do
  let there ← placementNow row
  there.elim
    (do
      progress "placement" ("waiting for " ++ project ++ " on " ++ cluster)
      waitFor (placementNow row) (notPlaced project cluster) site.looks)
    pure

def forwardTo (row : K8sRow) : Managing Unit := do
  progress "load-balancer" "waiting for its address"
  let address ← waitFor (findLb row.id)
    (fun _ => "The load balancer of " ++ row.name ++ " did not get an address in time") site.looks
  progress "forward" (row.endpointHost ++ ":" ++ toString row.endpointPort ++ " to " ++ address ++ ":6443")
  let _ ← defaultNetwork row.id
  Managing.ensureForward row.id address

def controlPlaneNow (row : K8sRow) : Managing (Option Unit) := do
  let cluster ← getCluster row.id
  assign fun l => { l with why := cluster.elim "" (·.message) }
  pure (if cluster.any (·.available) then some () else none)

/-- The body of the create's `try`. -/
def createCluster (row : K8sRow) (project cluster : String) : Managing Unit := do
  waitForPlacement site row project cluster
  progress "namespace" row.tenantId
  applyClass
  applyTenant row.tenantId
  progress "credentials" ("a certificate for " ++ project ++ " on " ++ cluster)
  ensureCredentials row.tenantId row.clusterId
  progress "cluster" (row.name ++ " on " ++ endpointUrl row.endpointHost row.endpointPort)
  applyCluster row.id
  setStatus row.id .provisioning none
  when (lbIsInstance row.spec.loadBalancer) (forwardTo site row)
  progress "control-plane" "waiting until it is available"
  waitFor (controlPlaneNow row)
    (fun l => "The control plane of " ++ row.name ++ " did not become available in time" ++
      if l.why = "" then "" else " (" ++ l.why ++ ")")
    site.looks
  setStatus row.id .ready (some "")
  when row.spec.metallb.isSome (enqueueMetallb row.id)

def k8sCreateHandler (id : String) : Managing Unit := do
  let (row, project, cluster) ← load id
  tryCatch (createCluster site row project cluster) fun e => do
    -- Stopped by a delete: the row is the delete's now.
    setError row.id (String.ofList ((messageOf e).toList.take 500))
    throw e

/-- What is there while something is waited for to go. -/
def gone (there : Managing Bool) : Managing (Option Unit) := do
  let there ← there
  pure (if there then none else some ())

def removePort (row : K8sRow) : Managing Unit := do
  progress "forward" (row.endpointHost ++ ":" ++ toString row.endpointPort)
  let _ ← defaultNetwork row.id
  Managing.removeForward row.id

def clusterThere (row : K8sRow) : Managing Bool := do
  let cluster ← getCluster row.id
  pure cluster.isSome

def deleteOwned (row : K8sRow) (project cluster : String) : Managing Unit := do
  -- A create still running was asked to stop; it must end before its forward and credentials go.
  waitFor (gone (selectCreates row.id))
    (fun _ => "The create of " ++ row.name ++ " did not stop in time") site.looks
  progress "cluster" ("deleting " ++ row.name ++ " and its nodes")
  deleteCluster row.id
  waitFor (gone (clusterThere row)) (fun _ => row.name ++ " was not removed in time") site.looks
  progress "leftovers" ("instances of " ++ row.name ++ " left in " ++ project)
  removeLeftovers row.id
  when (lbIsInstance row.spec.loadBalancer) (removePort row)
  progress "credentials" ("revoking the certificate on " ++ cluster ++ " if no other cluster uses it")
  revokeUnlessUsed row.tenantId row.clusterId row.id
  deleteRow row.id
  -- The tenant's last workload cluster anywhere: its namespace goes too.
  let left ← selectLeft row.tenantId
  when (!left) (deleteNamespace row.tenantId)

def k8sDeleteHandler (id : String) : Managing Unit := do
  let (row, project, cluster) ← load id
  setDeleting row.id
  deleteOwned site row project cluster

def handlerOf (job : K8sJobType × String) : Managing Unit :=
  match job.1 with
  | .create => k8sCreateHandler site job.2
  | .delete => k8sDeleteHandler site job.2

/-- The runner's `run`. -/
def runJob (id : String) : Managing Unit := do
  let job ← claim id
  tryCatch
    (do
      handlerOf site job
      succeed id)
    fun _ => fail id

end

/-! ### The sync worker -/

/-- The load balancer may come back with another address: the forward follows it. -/
def retarget (row : K8sRow) : Managing Unit := do
  let _ ← clientFor row.clusterId
  let lb ← findLb row.id
  lb.elim (pure ()) fun address => do
    let _ ← defaultNetwork row.id
    Managing.ensureForward row.id address

def syncRow (row : K8sRow) : Managing Unit := do
  let cluster ← getCluster row.id
  let (nodes, nodesReady) ← listMachines row.id
  let owned := owned.contains row.status
  saveSync row.id (if owned then some (assess row cluster nodesReady) else none) nodes nodesReady
  when (cluster.isSome && owned && lbIsInstance row.spec.loadBalancer) (retarget row)

def syncRows : List K8sRow → Managing Unit
  | [] => pure ()
  | row :: rest => do
    let stop ← stopped
    if stop then pure ()
    else do
      tryCatch (syncRow row) fun _ => pure ()
      syncRows rest

/-- `K8sWorker.tick`. -/
def tick : Managing Unit := do
  let held ← acquireLease
  when held do
    let rows ← selectSynced
    syncRows rows

/-! ### The requests -/

/-- `PATCH /api/v1/kubernetes/:id`. -/
def patchRequest (id : String) (body : PatchBody) : Managing Unit := do
  let row ← selectRow id
  row.elim (throw (.api 404 "not_found" "Kubernetes cluster not found")) fun row => do
    need "k8s.provision"
    let _ ← patchTx row.id body
    pure ()

/-- `DELETE /api/v1/kubernetes/:id`. -/
def deleteRequest (id : String) : Managing Unit := do
  let row ← selectRow id
  row.elim (throw (.api 404 "not_found" "Kubernetes cluster not found")) fun row => do
    need "k8s.delete"
    deleteTx row

structure K8sRequests where
  patch : ℕ → String × PatchBody
  delete : ℕ → String

def program (site : K8sSite) (requests : K8sRequests) : K8sProc → Managing Unit
  | .job id => runJob site id
  | .tick _ => tick
  | .patch n => patchRequest (requests.patch n).1 (requests.patch n).2
  | .delete n => deleteRequest (requests.delete n)

/-! ### What others do -/

inductive K8sEvent
  /-- `POST /api/v1/kubernetes` is accepted: its row and its create job. -/
  | post (row : K8sRow) (job : String)
  /-- Another runner takes a running job for interrupted. -/
  | interrupt (job : String)

namespace Management

def posted (w : Management) (row : K8sRow) (job : String) : Management :=
  { w with
    rows := w.rows ++ [{ row with status := .creating, statusMessage := "" }]
    jobs := w.jobs ++ [⟨job, .create, row.tenantId, row.clusterId, row.id, .queued, false⟩]
    used := row.id :: w.used }

def happen (w : Management) : K8sEvent → Option Management
  | .post row job =>
    -- Ids are drawn, and are new.
    if row.id ∈ w.used ∨ w.jobs.any fun j => j.id = job then none else some (w.posted row job)
  | .interrupt job =>
    some (w.updateJobs (fun j => j.id = job ∧ j.state = .running) fun j => { j with state := .failed })

def empty : Management where
  rows := []
  jobs := []
  credentials _ _ := none
  saved _ _ := none
  holder _ _ := none
  trusted := []
  generated := 0
  namespaces _ := false
  secrets _ _ := none
  used := []
  deletes _ := 0
  seenAt _ _ := 0
  checked _ := false
  past _ := false
  looked _ := []

end Management

def management : Team K8sProc K8sCall K8sCall.Answer JobError Management K8sOutcome K8sEvent :=
  ⟨answer, Management.happen⟩

def allPrograms (site : K8sSite) (requests : K8sRequests) :
    Procs K8sProc K8sCall K8sCall.Answer JobError Management (Except JobError Unit × Looked) :=
  ⟨.empty, fun i => program site requests i ⟨none, ""⟩⟩

end IncusCloud.Kubernetes
