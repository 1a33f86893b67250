import IncusCloud.Backups.Backup

/-!
# Restores

`backups/restore-job.ts`: any number of runs of `restoreHandler`, call by call, and other clients
that create and delete instances. Every call may fail, before or after it took effect; Incus
refuses a name that is taken and the delete of a running instance.

Each instance is kept with the run that made it; none: another client did. The other fields of a
`RestoreWorld` but the staging projects are history.
-/

namespace IncusCloud.Backups

open Lib
open Mobility (Place Instance Config TargetRequest TargetFacts SourceInstance Site Clusters JobError Left
  BootState tagJob preflight rootOf)

def tagRestoredFrom : String := "user.incuscloud.restored-from"

/-- The control plane's own project for restores into restricted projects. -/
def stagingProject : String := "incuscloud-restore"

structure RestorePayload where
  backupId : String
  targetClusterId : String
  targetProject : String
  targetName : String
  /-- The storage pool; the target project's default profile decides otherwise. -/
  pool : Option String
  start : Bool

structure RestoreJob where
  id : String
  actor : Option String
  payload : RestorePayload

namespace RestoreJob

variable (j : RestoreJob)

def target : Place := ⟨j.payload.targetClusterId, j.payload.targetProject, j.payload.targetName⟩

def stagedName : String := "r-" ++ first8 j.id

def staged : Place := ⟨j.payload.targetClusterId, stagingProject, j.stagedName⟩

end RestoreJob

structure StoredBackup where
  state : BackupState
  objectKey : String

def BackupState.text : BackupState → String
  | .creating => "creating"
  | .ready => "ready"
  | .failed => "failed"

/-- What `restoreHandler` awaits. -/
inductive RestoreCall
  | selectBackup (id : String)
  | clientFor (cluster : String)
  | progress (stage : String)
  | getProject (cluster project : String)
  | readInstance (place : Place)
  | throwIfAborted
  | getObject (key : String)
  /-- `importInto`: the upload, and the wait for its operation. -/
  | upload (place : Place) (key : String) (pool : Option String)
  | patchRestored (place : Place) (backup : String)
  | targetFacts (cluster project : String)
  | getStaging (cluster : String)
  | createStaging (cluster : String)
  | sourceFacts (place : Place)
  | transfer (source target : Place) (request : TargetRequest)
  | delete (place : Place)
  | recordOwner (place : Place) (subject : String)
  | start (place : Place)
  | refreshInventory (ids : List String)

def RestoreCall.Answer : RestoreCall → Type
  | selectBackup _ => Option StoredBackup
  | getProject _ _ => Option Config
  | readInstance _ => Option Instance
  | getObject _ => Bool
  | targetFacts _ _ => TargetFacts
  | getStaging _ => Bool
  | sourceFacts _ => SourceInstance
  | _ => Unit

/-! ### The clusters -/

structure Owned (ι : Type) where
  inst : Instance
  maker : Option ι

/-- A run wrote or deleted what `maker` had made. -/
structure Touched (ι : Type) where
  run : ι
  place : Place
  maker : Option ι

structure RestoreNotes where
  /-- It is in `restoreViaStaging`, and will remove what is under its staged name. -/
  staging : Bool
  staged : Bool
  failed : Bool
  aim : Option Place
  /-- A cleanup call failed where there was something to clean up, or to read. -/
  spoiled : Bool

structure RestoreWorld (ι : Type) where
  instances : OrdMap Place (Owned ι)
  stagingProjects : List String
  notes : ι → RestoreNotes
  touched : List (Touched ι)

/-- How a call goes, and what it finds where that is not followed here. -/
structure RestoreOutcome where
  fails : Bool := false
  took : Bool := false
  backup : Option StoredBackup := some ⟨.ready, ""⟩
  projectConfig : Option Config := some []
  object : Bool := true
  left : Left := ⟨.container, .stopped, []⟩

structure RestoreSite where
  site : Site
  content : String → Instance

namespace RestoreWorld

variable {ι : Type} [DecidableEq ι] (w : RestoreWorld ι)

def get (q : Place) : Option (Owned ι) := w.instances.get q
def put (q : Place) (x : Owned ι) : RestoreWorld ι := { w with instances := w.instances.set q x }
def remove (q : Place) : RestoreWorld ι := { w with instances := w.instances.erase q }

/-- Its instances, as `mobility/facts.ts` reads them. -/
def clusters : Clusters := ⟨w.instances.map fun e => (e.1, e.2.inst), [], [], false, none⟩

def note (i : ι) (f : RestoreNotes → RestoreNotes) : RestoreWorld ι :=
  { w with notes := Function.update w.notes i (f (w.notes i)) }

def setAim (i : ι) (q : Option Place) : RestoreWorld ι := w.note i fun n => { n with aim := q }
def enter (i : ι) : RestoreWorld ι := w.note i fun n => { n with staging := true, staged := true }
def spoil (i : ι) : RestoreWorld ι := w.note i fun n => { n with spoiled := true }
def touch (i : ι) (q : Place) (x : Owned ι) : RestoreWorld ι :=
  { w with touched := ⟨i, q, x.maker⟩ :: w.touched }

/-- A call whose effect is `done`; `none`: Incus refuses it. -/
def reply {α : Type} (o : RestoreOutcome) (done : Option (α × RestoreWorld ι)) :
    Except JobError α × RestoreWorld ι :=
  match done with
  | none => (.error .failed, w)
  | some (a, w') =>
    if o.fails then (.error .failed, if o.took then w' else w) else (.ok a, w')

def silent {α : Type} (o : RestoreOutcome) (a : α) : Except JobError α × RestoreWorld ι :=
  if o.fails then (.error .failed, w) else (.ok a, w)

variable (jobs : ι → RestoreJob)

def isOwn (i : ι) (x : Instance) : Bool := x.tag tagJob = some (jobs i).id

/-- `readInstance`; a run that is in `restoreViaStaging` reads the target once that has failed, and
deletes what it reads as its own. -/
def read (i : ι) (q : Place) (o : RestoreOutcome) :
    Except JobError (Option Instance) × RestoreWorld ι :=
  let own := (w.get q).any fun x => isOwn jobs i x.inst
  let w₁ :=
    if (w.notes i).staging then
      w.note i fun n => { n with failed := true, aim := if !o.fails && own then some q else none }
    else w
  if o.fails then (.error .failed, w₁.spoil i) else (.ok ((w.get q).map (·.inst)), w₁)

/-- `DELETE`; one that runs is not deleted. The staged copy is the last that is cleaned up. -/
def delete (i : ι) (q : Place) (o : RestoreOutcome) : Except JobError Unit × RestoreWorld ι :=
  let w₁ := w.note i fun n =>
    { n with aim := none, staging := n.staging && (q ≠ (jobs i).staged || n.aim = some q) }
  match w.get q with
  | none => (.error .failed, w₁)
  | some x =>
    if x.inst.status = .running then (.error .failed, w₁.spoil i)
    else if o.fails then
      (.error .failed, if o.took then ((w₁.remove q).touch i q x).spoil i else w₁.spoil i)
    else (.ok (), (w₁.remove q).touch i q x)

def receive (i : ι) (q : Place) (request : TargetRequest) (left : Left) : RestoreWorld ι :=
  w.put q ⟨⟨left.type, left.status, false, request.config ++ left.config⟩, some i⟩

end RestoreWorld

section

variable {ι : Type} [DecidableEq ι] (site : RestoreSite) (jobs : ι → RestoreJob)

/-- What a call of the run `i` answers, and what it does. -/
def restoreAnswer (i : ι) (c : RestoreCall) (w : RestoreWorld ι) (o : RestoreOutcome) :
    Except JobError c.Answer × RestoreWorld ι :=
  match c with
  | .selectBackup _ => w.silent o o.backup
  | .clientFor _ => w.silent o ()
  | .progress _ => w.silent o ()
  | .getProject _ _ => w.silent o o.projectConfig
  | .readInstance q => w.read jobs i q o
  | .throwIfAborted => w.silent o ()
  | .getObject _ => w.silent o o.object
  | .upload q key _ =>
    w.reply o
      (match w.get q with
      | some _ => none
      | none =>
        let made := w.put q ⟨site.content key, some i⟩
        -- Into the target: the tag is written next.
        some ((), if q = (jobs i).target ∧ o.fails = false then made.setAim i (some q) else made))
  | .patchRestored q backup =>
    (w.setAim i none).reply o
      ((w.get q).map fun x =>
        ((), ((w.setAim i none).put q
          ⟨{ x.inst with config := x.inst.config.set tagRestoredFrom backup }, x.maker⟩).touch i q x))
  | .targetFacts cluster project => w.silent o (w.clusters.targetFacts site.site cluster project)
  | .getStaging cluster =>
    if o.fails then (.error .failed, w)
    else if cluster ∈ w.stagingProjects then (.ok true, w.enter i)
    else (.ok false, w)
  | .createStaging cluster =>
    if o.fails then
      (.error .failed,
        if o.took then { w with stagingProjects := cluster :: w.stagingProjects } else w)
    else (.ok (), { w with stagingProjects := cluster :: w.stagingProjects }.enter i)
  | .sourceFacts q => w.reply o ((w.clusters.sourceFacts site.site q).map fun s => (s, w))
  | .transfer s t request =>
    -- A name that is taken is refused, and so is a source that is not there.
    w.reply o
      (if w.get t = none ∧ (w.get s).isSome then some ((), w.receive i t request o.left) else none)
  | .delete q => w.delete jobs i q o
  | .recordOwner _ _ => w.silent o ()
  | .start q => w.reply o ((w.get q).map fun x => ((), w.put q ⟨x.inst.started, x.maker⟩))
  | .refreshInventory _ => w.silent o ()

inductive ClientAct
  | create (place : Place) (inst : Instance)
  | delete (place : Place)

def clientAct (w : RestoreWorld ι) : ClientAct → Option (RestoreWorld ι)
  | .create q x => if w.get q = none then some (w.put q ⟨x, none⟩) else none
  | .delete q => some (w.remove q)

def restores : Team ι RestoreCall RestoreCall.Answer JobError (RestoreWorld ι) RestoreOutcome ClientAct :=
  ⟨fun i c w o => some (restoreAnswer site jobs i c w o), clientAct⟩

end

/-! ### The handler -/

abbrev Restoring := Handler RestoreCall RestoreCall.Answer JobError Unit

namespace Restoring

open Handler (call)

def selectBackup (id : String) : Restoring (Option StoredBackup) := call (RestoreCall.selectBackup id)
def clientFor (cluster : String) : Restoring Unit := call (RestoreCall.clientFor cluster)
def progress (stage : String) : Restoring Unit := call (RestoreCall.progress stage)
def getProject (cluster project : String) : Restoring (Option Config) :=
  call (RestoreCall.getProject cluster project)
def readInstance (q : Place) : Restoring (Option Instance) := call (RestoreCall.readInstance q)
def throwIfAborted : Restoring Unit := call RestoreCall.throwIfAborted
def getObject (key : String) : Restoring Bool := call (RestoreCall.getObject key)
def upload (q : Place) (key : String) (pool : Option String) : Restoring Unit :=
  call (RestoreCall.upload q key pool)
def patchRestored (q : Place) (backup : String) : Restoring Unit :=
  call (RestoreCall.patchRestored q backup)
def targetFacts (cluster project : String) : Restoring TargetFacts :=
  call (RestoreCall.targetFacts cluster project)
def getStaging (cluster : String) : Restoring Bool := call (RestoreCall.getStaging cluster)
def createStaging (cluster : String) : Restoring Unit := call (RestoreCall.createStaging cluster)
def sourceFacts (q : Place) : Restoring SourceInstance := call (RestoreCall.sourceFacts q)
def transfer (source target : Place) (request : TargetRequest) : Restoring Unit :=
  call (RestoreCall.transfer source target request)
def delete (q : Place) : Restoring Unit := call (RestoreCall.delete q)
def recordOwner (q : Place) (subject : String) : Restoring Unit := call (RestoreCall.recordOwner q subject)
def start (q : Place) : Restoring Unit := call (RestoreCall.start q)
def refreshInventory (ids : List String) : Restoring Unit := call (RestoreCall.refreshInventory ids)

/-- `.catch(() => undefined)`. -/
def orNone {α : Type} (m : Restoring (Option α)) : Restoring (Option α) := tryCatch m fun _ => pure none

/-- `.catch(() => {})`. -/
def orIgnore (m : Restoring Unit) : Restoring Unit := tryCatch m fun _ => pure ()

end Restoring

open Restoring
open Handler (when)

def isTrue (v : Option String) : Bool :=
  ["true", "1", "yes", "on"].contains (String.ofList ((v.getD "").toList.map Char.toLower))

def ensureStaging (cluster : String) : Restoring Unit := do
  let there ← getStaging cluster
  when (!there) (createStaging cluster)

section

variable (parse : String → Option BootState) (job : RestoreJob)

def restoreRequest (request : TargetRequest) : TargetRequest :=
  { request with
    config := (request.config.set tagRestoredFrom job.payload.backupId).set tagJob job.id }

/-- The body of the `try`. -/
def stageAndMove (key : String) (target : TargetFacts) : Restoring Unit := do
  let rootPool := (rootOf target.defaultProfileDevices).bind (·.2.get "pool")
  progress "restoring into staging"
  upload job.staged key (job.payload.pool <|> rootPool)
  let source ← sourceFacts job.staged
  let check := preflight parse ⟨source, target, job.payload.targetName, .copy, false, job.payload.pool⟩
  when (!check.ok) (throw (.api 409 "preflight_failed" ("; ".intercalate check.problems)))
  progress "moving into the project"
  Restoring.transfer job.staged job.target (restoreRequest job check.request)

def removeHalfMade : Restoring Unit := do
  let copy ← orNone (readInstance job.target)
  when (copy.any fun x => x.tag tagJob = some job.id) (orIgnore (delete job.target))

def restoreViaStaging (key : String) : Restoring Unit := do
  let target ← targetFacts job.payload.targetClusterId job.payload.targetProject
  ensureStaging job.payload.targetClusterId
  Handler.andFinally
    (tryCatch (stageAndMove parse job key target) fun e => do
      removeHalfMade job
      throw e)
    (orIgnore (delete job.staged))

/-- An import into the target; what follows does not undo it. -/
def restoreDirectly (key : String) : Restoring Unit := do
  progress "restoring"
  upload job.target key job.payload.pool
  patchRestored job.target job.payload.backupId

def startRestored : Restoring Unit := do
  progress "starting"
  start job.target

def restore (key : String) (projectConfig : Config) : Restoring Unit := do
  if !isTrue (projectConfig.get "restricted") then restoreDirectly job key
  else restoreViaStaging parse job key
  job.actor.elim (pure ()) (recordOwner job.target)
  when job.payload.start (startRestored job)

/-- The backup, its project and its object are there, and the name is free. -/
def checkRestore : Restoring (StoredBackup × Config) := do
  let row ← selectBackup job.payload.backupId
  row.elim (throw (.api 404 "not_found" "The backup no longer exists")) fun row => do
    when (row.state ≠ .ready)
      (throw (.api 409 "conflict"
        ("Only a ready backup can be restored (this one is " ++ row.state.text ++ ")")))
    clientFor job.payload.targetClusterId
    progress "checking"
    let config ← getProject job.payload.targetClusterId job.payload.targetProject
    config.elim
      (throw (.api 409 "conflict"
        ("Project \"" ++ job.payload.targetProject ++ "\" does not exist on the target cluster")))
      fun config => do
        let there ← readInstance job.target
        when there.isSome
          (throw (.api 409 "conflict"
            ("An instance named \"" ++ job.payload.targetName ++ "\" already exists in " ++
              job.payload.targetProject ++ " on the target; it is not overwritten")))
        throwIfAborted
        let found ← getObject row.objectKey
        when (!found)
          (throw (.api 409 "conflict"
            ("The backup is not in its target any more (" ++ row.objectKey ++ ")")))
        pure (row, config)

def restoreHandler : Restoring RestorePayload := do
  let (row, config) ← checkRestore job
  Handler.andFinally (restore parse job row.objectKey config)
    (refreshInventory [job.payload.targetClusterId])
  pure job.payload

end

/-- The runs, none of which has made a call; there is no instance yet. -/
def allRestores {ι : Type} (parse : String → Option BootState) (jobs : ι → RestoreJob) :
    Procs ι RestoreCall RestoreCall.Answer JobError (RestoreWorld ι)
      (Except JobError RestorePayload × Unit) :=
  ⟨⟨[], [], fun _ => ⟨false, false, false, none, false⟩, []⟩, fun i => restoreHandler parse (jobs i) ()⟩

end IncusCloud.Backups
