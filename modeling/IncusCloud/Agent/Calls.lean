import IncusCloud.Agent.Clusters

/-!
# What the Kubernetes agent's routes call

The calls of the routes of `k8s/routes/clusters.ts`, what each answers and what it does. The fields
of a create that only the generated manifest reads are left out.
-/

namespace IncusCloud.Agent

open Lib
open Function (update)

structure CreateClusterBody where
  name : String
  kubernetesVersion : String
  project : Option String
  metallb : Option MetalLBRequest

def secretNameFor (cluster : String) : String := "incendio-" ++ cluster

def suggestProjectName (cluster : String) : String := "k8s-" ++ cluster

namespace CreateClusterBody

variable (body : CreateClusterBody)

def projectName : String := body.project.getD (suggestProjectName body.name)

def addresses : List String := (body.metallb.map (·.addresses)).getD []

end CreateClusterBody

/-- What `endpoint-pin.ts` finds in a generated manifest. -/
structure Manifest where
  /-- `haproxyLoadBalancer(docs)`, which a pinned endpoint needs. -/
  haproxy : Bool
  className : Option String
  hasClass : Bool

inductive AgentReply
  | error (status : ℕ) (message : String) (detail : Option String)
  | created
  | deleted
  | metallb (status : ℕ) (state : String) (requested : Option (List String))
  deriving DecidableEq

/-! ### Calls -/

inductive AgentCall
  /-- `POST` up to its first await; a refusal ends it. -/
  | precheck (body : CreateClusterBody)
  | reserved (except : String)
  | createRecord (body : CreateClusterBody) (endpointHost : Option String)
  /-- The rollback of a `POST` begins or is over. -/
  | undo (on : Bool)
  | getByName (name : String)
  | deleteRecord (name : String)
  | setError (name : String)
  | poolConflict (addresses : List String) (name : String)
  /-- The end of a `PUT`, with the record that it read. -/
  | writePool (name : String) (record : ClusterRecord) (body : MetalLBRequest)
  | dropPool (name : String)
  /-- `GET` up to its first await: the record, and the job. -/
  | readStatus (name : String)
  | settleStatus (name : String) (record : ClusterRecord) (job : Option ℕ) (installed : Bool)
  | capnReady
  | getProject (project : String)
  | postProject (project : String) (config : OrdMap String String)
  | resolveWorkloadResources
  | putDefaultProfile (project pool network : String)
  | applySecret (secret project : String)
  | generateCluster
  | networkFacts (network : String)
  | putProfile (project profile : String)
  | patchLiveClass (name : String)
  | applyManifest (name : String)
  | kubectlDeleteCluster (name : String)
  | deleteAddons (name : String)
  | listInstances (project : String)
  | stopInstance (project name : String)
  | deleteInstance (project name : String)
  | listImages (project : String)
  | deleteImage (project fingerprint : String)
  | listProfiles (project : String)
  | deleteProfile (project profile : String)
  | removeProject (project : String)
  | hasKubeconfig (name : String)
  | clusterNetwork (project : Option String)
  | observe (name : String)

namespace AgentCall

def Answer : AgentCall → Type
  | precheck _ => Option AgentReply
  | reserved _ => List String
  | getByName _ => Option ClusterRecord
  | poolConflict _ _ => Option String
  | dropPool _ => Bool
  | readStatus _ => Option (ClusterRecord × Option ℕ)
  | settleStatus _ _ _ _ => AgentReply
  | capnReady => Bool
  | getProject _ => Option (OrdMap String String)
  | resolveWorkloadResources => String × String
  | generateCluster => Manifest
  | networkFacts _ => NetworkFacts
  | listInstances _ => List String
  | listImages _ => List String
  | listProfiles _ => List String
  | hasKubeconfig _ => Bool
  | clusterNetwork _ => String
  | observe _ => Bool
  | _ => Unit

end AgentCall

/-- How a call goes: the error it throws, and whether it took effect then; what it answers, where
this is not known here. -/
structure AgentOutcome where
  error : Option AgentError := none
  took : Bool := false
  yes : Bool := true
  resources : String × String := ("default", "incusbr0")
  manifest : Manifest := ⟨true, none, true⟩
  facts : NetworkFacts := ⟨"", [], []⟩

section

variable {ι : Type} [DecidableEq ι]

/-- A call that answers `a` and leaves `w'`, unless it fails. -/
def AgentOutcome.call {α : Type} (o : AgentOutcome) (a : α) (w w' : AgentState ι) : Except AgentError α × AgentState ι :=
  match o.error with
  | none => (.ok a, w')
  | some e => (.error e, if o.took then w' else w)

def refusal (t : ClusterRepo) (body : CreateClusterBody) : Option AgentReply :=
  if (t.getByName body.name).isSome then some (.error 409 "cluster already exists" none)
  else
    (body.metallb.bind fun m => t.poolConflict m.addresses body.name).map fun conflict =>
      .error 409 "MetalLB addresses already in use" (some conflict)

def AgentState.begins (w : AgentState ι) (i : ι) (cluster : String) : AgentState ι :=
  { w with acting := update w.acting i cluster, seen := update w.seen i w.written }

def newRecord (body : CreateClusterBody) (endpointHost : Option String) : ClusterRecord :=
  ⟨body.name, some body.projectName, .provisioning, ⟨body.metallb, endpointHost⟩⟩

/-- MetalLB's state in a workload cluster, overlaid with the job that a `GET` found. -/
def metallbState (w : AgentState ι) (job : Option ℕ) (installed : Bool) : String :=
  match job.bind fun k => w.heap[k]? with
  | some ⟨.install _, true, _, _⟩ => "installing"
  | some ⟨.remove, true, _, _⟩ => "removing"
  | some ⟨_, false, some _, _⟩ => "failed"
  | _ => if installed then "installed" else "absent"

/-- What a `GET` installs: what is requested but missing. -/
def missing (w : AgentState ι) (record : ClusterRecord) (job : Option ℕ) (installed : Bool) : Option (List String) :=
  if metallbState w job installed = "absent" ∧ record.status = .ready then wantedMetalLB record else none

def agentAnswer (i : ι) (c : AgentCall) (w : AgentState ι) (o : AgentOutcome) :
    Except AgentError c.Answer × AgentState ι :=
  match c with
  | .precheck body => (.ok (refusal w.records body), w.begins i body.name)
  | .reserved except => (.ok (w.records.reservedAddresses except), w)
  | .createRecord body endpointHost =>
    match w.records.create (newRecord body endpointHost) with
    | none => (.error (.failed "UNIQUE constraint failed: clusters.name"), w)
    | some t =>
      let w' : AgentState ι :=
        { w with
          records := t
          createdBy := (i, body.name) :: w.createdBy
          written := w.written + 1
          writtenAt := update w.writtenAt body.name (w.written + 1) }
      (.ok (), w')
  | .undo on => (.ok (), { w with undoing := update w.undoing i on })
  | .getByName name => (.ok (w.records.getByName name), w.begins i name)
  | .deleteRecord name => (.ok (), { w with records := w.records.deleteByName name }.forgetJob name)
  | .setError name => (.ok (), { w with records := w.records.setStatus name .error })
  | .poolConflict addresses name => (.ok (w.records.poolConflict addresses name), w)
  | .writePool name record body =>
    let w' : AgentState ι :=
      { w with
        records := w.records.setSpec name { record.spec with metallb := some body }
        written := w.written + 1
        writtenAt := update w.writtenAt name (w.written + 1) }
    (.ok (), (w'.forgetJob name).startInstall name body.addresses)
  | .dropPool name =>
    match w.records.getByName name with
    | none => (.ok false, w)
    | some r =>
      let w' : AgentState ι := { w with records := w.records.setSpec name { r.spec with metallb := none } }
      (.ok true, (w'.forgetJob name).startRemove name)
  | .readStatus name => (.ok ((w.records.getByName name).map fun r => (r, w.jobs.get name)), w)
  | .settleStatus name record job installed =>
    match missing w record job installed with
    | some addresses => (.ok (.metallb 200 "installing" (some addresses)), w.startInstall name addresses)
    | none => (.ok (.metallb 200 (metallbState w job installed) (wantedMetalLB record)), w)
  | .capnReady => o.call o.yes w w
  | .getProject project => o.call ((w.projects.get project).map (·.config)) w w
  | .postProject project config =>
    if (w.projects.get project).isSome then (.error (.http 409 "Project already exists"), w)
    else o.call () w { w with projects := w.projects.set project ⟨config, [], [], [], none⟩ }
  | .resolveWorkloadResources => o.call o.resources w w
  | .putDefaultProfile project pool network =>
    let w := w.touch i project
    o.call () w (w.onProject project fun p => { p with defaultProfile := some (pool, network) })
  | .applySecret secret project => o.call () w { w with secrets := w.secrets.set secret project }
  | .generateCluster => o.call o.manifest w w
  | .networkFacts _ => o.call o.facts w w
  | .putProfile project profile =>
    o.call () w (w.onProject project fun p => { p with profiles := profile :: p.profiles.erase profile })
  | .patchLiveClass _ => o.call () w w
  | .applyManifest name => o.call () w { w with clusters := name :: w.clusters.erase name }
  | .kubectlDeleteCluster name => o.call () w { w with clusters := w.clusters.filter (· ≠ name) }
  -- What this reports is only logged.
  | .deleteAddons name =>
    (.ok (), (o.call () w { w with secrets := w.secrets.erase (secretNameFor name) }).2)
  | .listInstances project => o.call (((w.projects.get project).map (·.instances)).getD []) w w
  | .stopInstance project _ => o.call () (w.touch i project) (w.touch i project)
  | .deleteInstance project name =>
    let w := w.touch i project
    o.call () w (w.onProject project fun p => { p with instances := p.instances.erase name })
  | .listImages project => o.call (((w.projects.get project).map (·.images)).getD []) w w
  | .deleteImage project fingerprint =>
    let w := w.touch i project
    o.call () w (w.onProject project fun p => { p with images := p.images.erase fingerprint })
  | .listProfiles project => o.call ("default" :: ((w.projects.get project).map (·.profiles)).getD []) w w
  | .deleteProfile project profile =>
    let w := w.touch i project
    o.call () w (w.onProject project fun p => { p with profiles := p.profiles.erase profile })
  | .removeProject project =>
    match w.projects.get project with
    | none => (.error (.http 404 "Project not found"), w)
    | some p =>
      if p.instances = [] ∧ p.images = [] ∧ p.profiles = [] then
        let w := w.touch i project
        o.call () w { w with projects := w.projects.erase project }
      else (.error (.http 400 "Only empty projects can be removed"), w)
  | .hasKubeconfig _ => o.call o.yes w w
  | .clusterNetwork _ => o.call o.resources.2 w w
  | .observe _ => o.call o.yes w w

structure JobStep where
  cluster : String
  error : Option String := none
  took : Bool := false

def jobStep (w : AgentState ι) (x : JobStep) : Option (AgentState ι) :=
  match w.jobs.get x.cluster with
  | none => none
  | some k =>
    match w.heap[k]? with
    | none => none
    | some j =>
      if j.running then
        let (done, next) := j.work (w.workloads x.cluster)
        match x.error with
        | some message =>
          some
            { w with
              heap := w.heap.set k (j.fail message)
              workloads := if x.took then update w.workloads x.cluster done else w.workloads }
        | none =>
          let w' : AgentState ι := { w with workloads := update w.workloads x.cluster done }
          match next with
          | some stage => some { w' with heap := w'.heap.set k { j with stage := stage } }
          | none => some { w' with heap := w'.heap.set k { j with running := false }, jobs := w'.jobs.erase x.cluster }
      else none

def agent : Team ι AgentCall AgentCall.Answer AgentError (AgentState ι) AgentOutcome JobStep :=
  ⟨fun i c w o => some (agentAnswer i c w o), jobStep⟩

end

end IncusCloud.Agent
