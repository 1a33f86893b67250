import IncusCloud.Lib.Handler
import IncusCloud.Mobility.Preflight

/-!
# Migrations

`mobility/migrate-job.ts`: `migrateHandler`, and the clusters it calls. Every call may fail, before
or after it took effect, and between any two calls someone else may create an instance under the
target's name; nobody else changes the source or what the transfer made.

Incus is as it documents itself: it refuses a name that is taken and the delete of a running
instance, and an ephemeral instance is deleted when it stops. What the handler's database calls
write is read by none of its calls, so only that they may fail is kept.
-/

namespace IncusCloud.Mobility

open Lib

inductive Transport
  | auto | direct | relay
  deriving DecidableEq

structure Place where
  cluster : String
  project : String
  name : String
  deriving DecidableEq

structure MigratePayload where
  sourceClusterId : String
  sourceProject : String
  name : String
  targetClusterId : String
  targetProject : String
  targetName : String
  mode : Mode
  live : Bool
  pool : Option String
  transport : Transport

namespace MigratePayload

def source (p : MigratePayload) : Place := ⟨p.sourceClusterId, p.sourceProject, p.name⟩
def target (p : MigratePayload) : Place := ⟨p.targetClusterId, p.targetProject, p.targetName⟩

end MigratePayload

structure JobRef where
  id : String
  actor : Option String

inductive StateAction
  | start | stop
  deriving DecidableEq

/-- What `migrateHandler` awaits. -/
inductive Call
  | clientFor (cluster : String)
  | progress (stage : String)
  | sourceFacts (place : Place)
  | targetFacts (cluster project : String)
  | readInstance (place : Place)
  | setState (place : Place) (action : StateAction)
  | transfer (source target : Place) (request : TargetRequest) (live : Bool) (transport : Transport)
  | delete (place : Place)
  | leaseOf (place : Place)
  /-- `if (ctx.signal.aborted) throw ctx.signal.reason`. -/
  | throwIfAborted
  | carryOwner (source target : Place)
  | recordOwner (place : Place) (subject : String)
  | putLease (place : Place) (lease : String)
  | refreshInventory (ids : List String)
  deriving DecidableEq

def Call.Answer : Call → Type
  | sourceFacts _ => SourceInstance
  | targetFacts _ _ => TargetFacts
  | readInstance _ => Option Instance
  | transfer _ _ _ _ _ => Transport
  | leaseOf _ => Option String
  | _ => Unit

def Call.isIncus : Call → Bool
  | readInstance _ => true
  | setState _ _ => true
  | delete _ => true
  | _ => false

inductive JobError
  | failed
  | api (status : ℕ) (code message : String)

/-! ### The clusters -/

/-- What pre-flight reads of an instance beyond its type, status and config. -/
structure Details where
  architecture : String
  expandedConfig : Option Config
  devices : Devices
  profiles : List String
  expandedDevices : Devices
  snapshots : ℕ

structure Server where
  architectures : List String
  pools : List String
  apiExtensions : List String

structure ProjectFacts where
  networks : List String
  profiles : List String
  defaultProfileDevices : Devices
  dropsBootState : Bool

structure Site where
  details : Place → Details
  server : String → Server
  project : String → String → Option ProjectFacts
  lease : Place → Option String

structure Entry where
  call : Call
  failed : Bool
  took : Bool
  deriving DecidableEq

structure Touch where
  place : Place
  deleted : Bool
  before : Instance

structure Clusters where
  instances : OrdMap Place Instance
  log : List Entry
  touched : List Touch
  transferred : Bool
  verified : Option InstanceType

structure Left where
  type : InstanceType
  status : Status
  config : Config

structure Outcome where
  fails : Bool
  took : Bool
  /-- What someone else has created under the target's name before it. -/
  appears : Option Instance
  left : Left
  transport : Transport

namespace Clusters

variable (w : Clusters)

def get (q : Place) : Option Instance := w.instances.get q
def put (q : Place) (i : Instance) : Clusters :=
  { w with instances := w.instances.set q i }
def remove (q : Place) : Clusters := { w with instances := w.instances.erase q }

def touch (q : Place) (deleted : Bool) (i : Instance) : Clusters :=
  { w with touched := ⟨q, deleted, i⟩ :: w.touched }

def names (cluster project : String) : List String :=
  (w.instances.filter fun e => e.1.cluster = cluster ∧ e.1.project = project).map (·.1.name)

def appear (q : Place) (job : String) : Option Instance → Clusters
  | none => w
  | some i => if w.get q = none ∧ i.tag tagJob ≠ some job then w.put q i else w

def sourceFacts (site : Site) (w : Clusters) (q : Place) : Option SourceInstance :=
  (w.get q).map fun i =>
    let d := site.details q
    { name := q.name, type := i.type, status := i.status, architecture := d.architecture
      config := i.config, expandedConfig := d.expandedConfig, devices := d.devices
      profiles := d.profiles, expandedDevices := d.expandedDevices, snapshots := d.snapshots
      apiExtensions := (site.server q.cluster).apiExtensions }

def targetFacts (site : Site) (w : Clusters) (cluster project : String) : TargetFacts :=
  let s := site.server cluster
  match site.project cluster project with
  | none =>
    { projectExists := false, architectures := s.architectures, pools := s.pools, networks := []
      profiles := [], instanceNames := [], defaultProfileDevices := []
      apiExtensions := s.apiExtensions, dropsBootState := false }
  | some f =>
    { projectExists := true, architectures := s.architectures, pools := s.pools
      networks := f.networks, profiles := f.profiles, instanceNames := w.names cluster project
      defaultProfileDevices := f.defaultProfileDevices, apiExtensions := s.apiExtensions
      dropsBootState := f.dropsBootState }

/-- `PUT …/state`; an instance that already is in that state stays as it is. -/
def setState (q : Place) (action : StateAction) : Option Clusters :=
  (w.get q).map fun i =>
    match action with
    | .start => if i.status = .running then w else w.put q i.started
    | .stop =>
      if i.status = .stopped then w
      else
        match i.stopped with
        | some j => (w.put q j).touch q false i
        | none => (w.remove q).touch q false i

/-- `DELETE`; one that runs is not deleted. -/
def delete (q : Place) : Option Clusters :=
  (w.get q).bind fun i =>
    if i.status = .running then none else some ((w.remove q).touch q true i)

def receive (q : Place) (request : TargetRequest) (left : Left) : Clusters :=
  w.put q ⟨left.type, left.status, false, request.config ++ left.config⟩

/-- What is read under the target's name, after a transfer has succeeded. -/
def verify (q target : Place) : Clusters :=
  if q = target ∧ w.transferred then { w with verified := (w.get q).map (·.type) } else w

/-- A call whose effect is `done`; `none`: the cluster refuses it. -/
def reply {α : Type} (c : Call) (o : Outcome) (done : Option (α × Clusters)) :
    Except JobError α × Clusters :=
  match done with
  | none => (.error .failed, { w with log := ⟨c, true, false⟩ :: w.log })
  | some (a, w') =>
    if o.fails then
      (.error .failed,
        if o.took then { w' with log := ⟨c, true, true⟩ :: w.log }
        else { w with log := ⟨c, true, false⟩ :: w.log })
    else (.ok a, { w' with log := ⟨c, false, true⟩ :: w.log })

/-- A call that changes nothing that is followed here. -/
def silent {α : Type} (c : Call) (o : Outcome) (a : α) : Except JobError α × Clusters :=
  w.reply c o (some (a, w))

end Clusters

def answer (site : Site) (p : MigratePayload) (job : JobRef) (c : Call) (w₀ : Clusters)
    (o : Outcome) : Except JobError c.Answer × Clusters :=
  let w := w₀.appear p.target job.id o.appears
  match c with
  | .clientFor _ => w.silent c o ()
  | .progress _ => w.silent c o ()
  | .sourceFacts q => w.reply c o ((w.sourceFacts site q).map fun s => (s, w))
  | .targetFacts cluster project => w.silent c o (w.targetFacts site cluster project)
  | .readInstance q =>
    w.reply c o (some (w.get q, if o.fails then w else w.verify q p.target))
  | .setState q action => w.reply c o ((w.setState q action).map fun w' => ((), w'))
  | .transfer s t request _ _ =>
    -- A name that is taken is refused, and so is a source that is not there.
    if w.get t = none ∧ (w.get s).isSome then
      w.reply c o (some (o.transport, { w.receive t request o.left with transferred := !o.fails }))
    else w.reply c o none
  | .delete q => w.reply c o ((w.delete q).map fun w' => ((), w'))
  | .leaseOf q => w.silent c o (site.lease q)
  | .throwIfAborted => w.silent c o ()
  | .carryOwner _ _ => w.silent c o ()
  | .recordOwner _ _ => w.silent c o ()
  | .putLease _ _ => w.silent c o ()
  | .refreshInventory _ => w.silent c o ()

def world (site : Site) (p : MigratePayload) (job : JobRef) :
    World Call Call.Answer JobError Clusters Outcome :=
  ⟨answer site p job⟩

/-! ### The handler -/

/-- Its `let`s. -/
structure Flags where
  stoppedSource : Bool
  committed : Bool

structure MigrateResult where
  transport : Transport
  targetClusterId : String
  targetProject : String
  targetName : String

abbrev Migration := Handler Call Call.Answer JobError Flags

namespace Migration

open Handler (call)

def clientFor (cluster : String) : Migration Unit := call (Call.clientFor cluster)
def progress (stage : String) : Migration Unit := call (Call.progress stage)
def sourceFacts (q : Place) : Migration SourceInstance := call (Call.sourceFacts q)
def targetFacts (cluster project : String) : Migration TargetFacts :=
  call (Call.targetFacts cluster project)
def readInstance (q : Place) : Migration (Option Instance) := call (Call.readInstance q)
def setState (q : Place) (action : StateAction) : Migration Unit := call (Call.setState q action)
def transfer (s t : Place) (request : TargetRequest) (live : Bool) (transport : Transport) :
    Migration Transport :=
  call (Call.transfer s t request live transport)
def delete (q : Place) : Migration Unit := call (Call.delete q)
def leaseOf (q : Place) : Migration (Option String) := call (Call.leaseOf q)
def throwIfAborted : Migration Unit := call Call.throwIfAborted
def carryOwner (s t : Place) : Migration Unit := call (Call.carryOwner s t)
def recordOwner (q : Place) (subject : String) : Migration Unit := call (Call.recordOwner q subject)
def putLease (q : Place) (lease : String) : Migration Unit := call (Call.putLease q lease)
def refreshInventory (ids : List String) : Migration Unit := call (Call.refreshInventory ids)

/-- `.catch(() => undefined)`. -/
def orNone {α : Type} (m : Migration (Option α)) : Migration (Option α) :=
  tryCatch m fun _ => pure none

/-- `.catch(() => {})`. -/
def orIgnore (m : Migration Unit) : Migration Unit := tryCatch m fun _ => pure ()

end Migration

open Migration
open Handler (locals assign when)

section

variable (p : MigratePayload) (job : JobRef)

def tagged (request : TargetRequest) : TargetRequest :=
  { request with
    config :=
      (request.config.set tagJob job.id).set tagMigratedFrom
        (p.sourceClusterId ++ "/" ++ p.sourceProject ++ "/" ++ p.name) }

variable (source : SourceInstance)

def restarts : Bool :=
  p.mode = .move ∧ source.status = .running ∧ !p.live

def stopSource : Migration Unit :=
  when (restarts p source) do
    progress "stopping the source"
    setState p.source .stop
    assign fun l => { l with stoppedSource := true }

def startCopy (copy : Option Instance) : Migration Unit :=
  when (restarts p source && copy.map (·.status) ≠ some .running) do
    progress "starting the copy"
    setState p.target .start

def readLease : Migration (Option String) :=
  if p.mode = .move then leaseOf p.source else pure none

def deleteSource : Migration Unit :=
  when (p.mode = .move) do
    throwIfAborted
    assign fun l => { l with committed := true }
    progress "deleting the source"
    -- After a live move the source is still running; a delete would be refused.
    let left ← readInstance p.source
    when (left.any fun i => i.status ≠ .stopped) (setState p.source .stop)
    delete p.source

def handOwner : Migration Unit :=
  match p.mode, job.actor with
  | .move, _ => carryOwner p.source p.target
  | .copy, some actor => recordOwner p.target actor
  | .copy, none => pure ()

def handLease : Option String → Migration Unit
  | some lease => putLease p.target lease
  | none => pure ()

/-- The body of the `try`. -/
def migrate (request : TargetRequest) : Migration Transport := do
  stopSource p source
  progress "transferring"
  let transport ← transfer p.source p.target request p.live p.transport
  progress "verifying"
  let copy ← readInstance p.target
  when (copy.map (·.type) ≠ some source.type)
    (throw (.api 502 "migration_failed" "The copy is missing on the target after the transfer"))
  startCopy p source copy
  let lease ← readLease p
  deleteSource p
  handOwner p job
  handLease p lease
  pure transport

def removeCopy : Option Instance → Migration Unit
  | none => pure ()
  | some copy =>
    when (copy.tag tagJob = some job.id) do
      when (copy.status = .running) (orIgnore (setState p.target .stop))
      orIgnore (delete p.target)

/-- The body of the `catch`, but for the `throw` that ends it. -/
def rollBack : Migration Unit := do
  progress "rolling back"
  let copy ← orNone (readInstance p.target)
  removeCopy p job copy
  let l ← locals
  when l.stoppedSource (orIgnore (setState p.source .start))

def migrateHandler (parse : String → Option BootState) : Migration MigrateResult := do
  clientFor p.sourceClusterId
  clientFor p.targetClusterId
  progress "checking"
  let source ← sourceFacts p.source
  let target ← targetFacts p.targetClusterId p.targetProject
  let check := preflight parse ⟨source, target, p.targetName, p.mode, p.live, p.pool⟩
  when (!check.ok) (throw (.api 409 "preflight_failed" ("; ".intercalate check.problems)))
  let transport ←
    Handler.andFinally
      (tryCatch (migrate p job source (tagged p job check.request)) fun e => do
        let l ← locals
        when (!l.committed) (rollBack p job)
        throw e)
      (refreshInventory [p.sourceClusterId, p.targetClusterId])
  pure ⟨transport, p.targetClusterId, p.targetProject, p.targetName⟩

end

end IncusCloud.Mobility
