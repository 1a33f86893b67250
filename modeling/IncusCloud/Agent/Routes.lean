import IncusCloud.Agent.Calls

/-!
# The routes of the Kubernetes agent's clusters

`POST /v1/clusters`, `DELETE /v1/clusters/:name` and `GET`, `PUT` and
`DELETE /v1/clusters/:name/metallb` (`k8s/routes/clusters.ts`), with what they call of
`lib/projects.ts`, `lib/capi.ts`, `lib/endpoint-ops.ts` and `lib/network-hint.ts`, as programs that
interleave call by call.
-/

namespace IncusCloud.Agent

open Lib

structure RouteLocals where
  endpointHost : Option String := none

abbrev Route := Handler AgentCall AgentCall.Answer AgentError RouteLocals

namespace Route

open Handler (call)

def precheck (body : CreateClusterBody) : Route (Option AgentReply) := call (AgentCall.precheck body)
def reserved (except : String) : Route (List String) := call (AgentCall.reserved except)
def createRecord (body : CreateClusterBody) (endpointHost : Option String) : Route Unit :=
  call (AgentCall.createRecord body endpointHost)
def undo (on : Bool) : Route Unit := call (AgentCall.undo on)
def getByName (name : String) : Route (Option ClusterRecord) := call (AgentCall.getByName name)
def deleteRecord (name : String) : Route Unit := call (AgentCall.deleteRecord name)
def setError (name : String) : Route Unit := call (AgentCall.setError name)
def poolConflict (addresses : List String) (name : String) : Route (Option String) :=
  call (AgentCall.poolConflict addresses name)
def writePool (name : String) (record : ClusterRecord) (body : MetalLBRequest) : Route Unit :=
  call (AgentCall.writePool name record body)
def dropPool (name : String) : Route Bool := call (AgentCall.dropPool name)
def readStatus (name : String) : Route (Option (ClusterRecord × Option ℕ)) := call (AgentCall.readStatus name)
def settleStatus (name : String) (record : ClusterRecord) (job : Option ℕ) (installed : Bool) :
    Route AgentReply :=
  call (AgentCall.settleStatus name record job installed)
def capnReady : Route Bool := call AgentCall.capnReady
def getProject (project : String) : Route (Option (OrdMap String String)) :=
    call (AgentCall.getProject project)
def postProject (project : String) (config : OrdMap String String) : Route Unit :=
  call (AgentCall.postProject project config)
def resolveWorkloadResources : Route (String × String) := call AgentCall.resolveWorkloadResources
def ensureWorkloadProfile (project pool network : String) : Route Unit :=
  call (AgentCall.putDefaultProfile project pool network)
def applyIdentitySecret (secret project : String) : Route Unit := call (AgentCall.applySecret secret project)
def generateCluster : Route Manifest := call AgentCall.generateCluster
def networkFacts (network : String) : Route NetworkFacts := call (AgentCall.networkFacts network)
def patchLiveClass (name : String) : Route Unit := call (AgentCall.patchLiveClass name)
def kubectlApply (name : String) : Route Unit := call (AgentCall.applyManifest name)
def kubectlDeleteCluster (name : String) : Route Unit := call (AgentCall.kubectlDeleteCluster name)
def deleteAddons (name : String) : Route Unit := call (AgentCall.deleteAddons name)
def listInstances (project : String) : Route (List String) := call (AgentCall.listInstances project)
def stopInstance (project name : String) : Route Unit := call (AgentCall.stopInstance project name)
def deleteInstance (project name : String) : Route Unit := call (AgentCall.deleteInstance project name)
def listImages (project : String) : Route (List String) := call (AgentCall.listImages project)
def deleteImage (project fingerprint : String) : Route Unit :=
    call (AgentCall.deleteImage project fingerprint)
def listProfiles (project : String) : Route (List String) := call (AgentCall.listProfiles project)
def deleteProfile (project profile : String) : Route Unit := call (AgentCall.deleteProfile project profile)
def removeProject (project : String) : Route Unit := call (AgentCall.removeProject project)
def hasKubeconfig (name : String) : Route Bool := call (AgentCall.hasKubeconfig name)
def clusterNetwork (project : Option String) : Route String := call (AgentCall.clusterNetwork project)
def observe (name : String) : Route Bool := call (AgentCall.observe name)

end Route

open Route
open Handler (when)

/-! ### Projects -/

/-- Idempotent: returns silently if a project with the same name already exists. -/
def createProject (name : String) (m : ProjectMetadata) : Route Unit := do
  let existing ← getProject name
  when existing.isNone (postProject name (buildProjectConfig m))

/-- Already stopped is fine; anything else surfaces on the delete. -/
def deleteInstances (project : String) : List String → Route Unit
  | [] => pure ()
  | name :: names => do
    tryCatch (stopInstance project name) fun _ => pure ()
    deleteInstance project name
    deleteInstances project names

def deleteImages (project : String) : List String → Route Unit
  | [] => pure ()
  | fingerprint :: fingerprints => do
    deleteImage project fingerprint
    deleteImages project fingerprints

def deleteProfiles (project : String) : List String → Route Unit
  | [] => pure ()
  | profile :: profiles => do
    when (profile ≠ "default" && profile ≠ "") (deleteProfile project profile)
    deleteProfiles project profiles

def emptyProject (name : String) : Route Unit := do
  let instances ← listInstances name
  deleteInstances name instances
  let images ← listImages name
  deleteImages name images
  let profiles ← listProfiles name
  deleteProfiles name profiles

def notFound : AgentError → Bool
  | .http status _ => status = 404
  | _ => false

def deleteProject (name : String) : Route Unit := do
  let project ← getProject name
  when project.isSome do
    emptyProject name
    tryCatch (removeProject name) fun e => if notFound e then pure () else throw e

/-! ### The management cluster -/

def deleteClusterCrd (name : String) : Route Unit := do
  kubectlDeleteCluster name
  deleteAddons name

def lbProfile : String := "incendio-lb"

def ensureLoadBalancerProfile (project : String) : Route Unit :=
  Handler.call (AgentCall.putProfile project lbProfile)

def pickEndpointAddress (network : String) (taken : List String) : Route (Option String) := do
  let facts ← networkFacts network
  pure (pickAddress facts taken)

def pinEndpoint (className : String) (hasClass : Bool) (project network : String)
    (taken : List String) : Route (Option String) := do
  let host ← pickEndpointAddress network taken
  match host with
  | none => pure none
  | some host => do
    ensureLoadBalancerProfile project
    when (!hasClass) (patchLiveClass className)
    pure (some host)

/-- The pinned address; none: the endpoint is left to CAPN. -/
def pinClusterEndpoint (manifest : Manifest) (project network : String) (taken : List String) :
    Route (Option String) :=
  if manifest.haproxy then
    match manifest.className with
    | none => pure none
    | some className =>
      tryCatch (pinEndpoint className manifest.hasClass project network taken) fun _ => pure none
  else pure none

/-! ### Creates -/

def CreateClusterBody.projectMetadata (body : CreateClusterBody) : ProjectMetadata :=
  ⟨"workload", body.name, body.kubernetesVersion⟩

/-- The calls of a create's `try`. -/
def createSteps (body : CreateClusterBody) : Route Unit := do
  createProject body.projectName body.projectMetadata
  let resources ← resolveWorkloadResources
  ensureWorkloadProfile body.projectName resources.1 resources.2
  applyIdentitySecret (secretNameFor body.name) body.projectName
  let manifest ← generateCluster
  let taken ← reserved body.name
  let host ← pinClusterEndpoint manifest body.projectName resources.2 (taken ++ body.addresses)
  Handler.assign fun l => { l with endpointHost := host }
  kubectlApply body.name

/-- Best-effort rollback so a failed create can be retried cleanly. -/
def rollback (body : CreateClusterBody) : Route Unit := do
  undo true
  tryCatch (deleteClusterCrd body.name) fun _ => pure ()
  tryCatch (deleteProject body.projectName) fun _ => pure ()
  undo false

/-- The error that a computation throws, if it throws one. -/
def failure (m : Route Unit) : Route (Option AgentError) :=
  tryCatch (do
    m
    pure none) fun e => pure (some e)

def create (body : CreateClusterBody) : Route AgentReply := do
  let failed ← failure (createSteps body)
  match failed with
  | some e => do
    rollback body
    pure (.error 502 "failed to create cluster" (some e.detail))
  | none => do
    let l ← Handler.locals
    createRecord body l.endpointHost
    pure .created

/-- `POST /v1/clusters`. -/
def postCluster (body : CreateClusterBody) : Route AgentReply := do
  let refused ← precheck body
  match refused with
  | some reply => pure reply
  | none => do
    let ready ← capnReady
    if ready then create body
    else
      pure (.error 503 "management cluster not ready"
        (some "the CAPN controller is not available; deploy or repair the management appliance first"))

/-! ### Deletes -/

/-- The calls of a delete's `try`. -/
def deleteSteps (name : String) (record : ClusterRecord) : Route Unit := do
  let ready ← capnReady
  when ready (deleteClusterCrd name)
  match record.project.filter (· ≠ "") with
  | some project => deleteProject project
  | none => pure ()

/-- `DELETE /v1/clusters/:name`. -/
def deleteCluster (name : String) : Route AgentReply := do
  let record ← getByName name
  match record with
  | none => pure (.error 404 "not found" none)
  | some record => do
    let failed ← failure (deleteSteps name record)
    match failed with
    | some e => do
      setError name
      pure (.error 502 "failed to delete cluster" (some e.detail))
    | none => do
      deleteRecord name
      pure .deleted

/-! ### MetalLB -/

def checkNetwork (record : ClusterRecord) (body : MetalLBRequest) : Route (Option String) :=
  tryCatch (do
    let network ← clusterNetwork record.project
    let facts ← networkFacts network
    let outside := outsideSubnet body.addresses facts.cidr
    pure
      (if outside ≠ [] then
        some (", ".intercalate outside ++ " not in " ++ (suggestRange facts [] 20).subnet ++
          " (network " ++ network ++
          "); MetalLB's L2 mode can only announce addresses on the nodes' network")
      else none)) fun _ => pure none

/-- What a `PUT` does with the record that it read. -/
def putPool (name : String) (record : ClusterRecord) (body : MetalLBRequest) : Route AgentReply := do
  let has ← hasKubeconfig name
  if has then do
    let conflict ← poolConflict body.addresses name
    match conflict with
    | some detail => pure (.error 409 "addresses already in use" (some detail))
    | none => do
      let outside ← checkNetwork record body
      match outside with
      | some detail => pure (.error 400 "addresses outside the cluster network" (some detail))
      | none => do
        writePool name record body
        pure (.metallb 202 "installing" (some body.addresses))
  else
    pure (.error 409 "cluster not initialized" (some "MetalLB can be installed once the control plane is up"))

/-- `PUT /v1/clusters/:name/metallb`. -/
def putMetalLB (name : String) (body : MetalLBRequest) : Route AgentReply := do
  let record ← getByName name
  match record with
  | none => pure (.error 404 "not found" none)
  | some record => putPool name record body

/-- `DELETE /v1/clusters/:name/metallb`. -/
def deleteMetalLB (name : String) : Route AgentReply := do
  let there ← dropPool name
  pure (if there then .metallb 202 "removing" none else .error 404 "not found" none)

/-- What a `GET` answers when the status cannot be read. -/
def statusFailure (record : ClusterRecord) : AgentError → AgentReply
  | .noKubeconfig =>
    .metallb 200 (if (wantedMetalLB record).isSome then "waiting" else "absent") (wantedMetalLB record)
  | e => .error 502 "failed to read MetalLB status" (some e.detail)

/-- `GET /v1/clusters/:name/metallb`. -/
def getMetalLB (name : String) : Route AgentReply := do
  let found ← readStatus name
  match found with
  | none => pure (.error 404 "not found" none)
  | some (record, job) =>
    tryCatch (do
      let installed ← observe name
      settleStatus name record job installed) fun e => pure (statusFailure record e)

/-! ### Requests -/

inductive AgentRequest
  | post (body : CreateClusterBody)
  | delete (name : String)
  | getPool (name : String)
  | putPool (name : String) (body : MetalLBRequest)
  | deletePool (name : String)

def AgentRequest.route : AgentRequest → Route AgentReply
  | post body => postCluster body
  | delete name => deleteCluster name
  | getPool name => getMetalLB name
  | putPool name body => putMetalLB name body
  | deletePool name => deleteMetalLB name

def allRequests {ι : Type} (w : AgentState ι) (requests : ι → AgentRequest) :
    Procs ι AgentCall AgentCall.Answer AgentError (AgentState ι)
      (Except AgentError AgentReply × RouteLocals) :=
  ⟨w, fun i => (requests i).route {}⟩

end IncusCloud.Agent
