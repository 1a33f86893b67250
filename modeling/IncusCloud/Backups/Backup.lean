import IncusCloud.Lib.Interleave
import IncusCloud.Lib.Text
import IncusCloud.Mobility.Migrate
import IncusCloud.Tenants.Quota

/-!
# Backups

`backups/backup-job.ts`: `backupHandler` and `pruneBackups`, with `needBackupQuota` and
`needUserQuota` of `tenants/limits.ts`, and the database, target and cluster they call. Every call
may fail, before or after it took effect.

A run is named by the id it draws for its row (`randomUUID`). The rows are in the order of their
`createdAt`. A store's `put` that returned is durable; an upload the cluster makes itself has
arrived when the target says so. `inserts` and `history` are history.
-/

namespace IncusCloud.Backups

open Lib
open Mobility (JobError)
open Tenants (gib)
open String (ofList)

scoped instance lawfulPairs : LawfulBEq (String × String) := inferInstance

inductive BackupTransport
  | auto | direct | relay
  deriving DecidableEq

structure BackupPayload where
  clusterId : String
  project : String
  instanceName : String
  targetId : String
  instanceOnly : Bool
  transport : BackupTransport
  /-- Set for scheduled runs: the policy's retention applies after a success. -/
  policyId : Option String

inductive ActorType
  | user | serviceAccount | system
  deriving DecidableEq

def ActorType.text : ActorType → String
  | .user => "user"
  | .serviceAccount => "service_account"
  | .system => "system"

structure BackupRun where
  jobId : String
  tenantId : Option String
  actorType : ActorType
  actorId : String
  payload : BackupPayload
  stamp : String
  /-- How often an upload is looked for again before `directWaitMs` have passed. -/
  polls : ℕ

/-- A row of `backup_targets`. -/
structure TargetRow where
  id : String
  name : String
  endpoint : String
  region : String
  bucket : String
  pathPrefix : String
  enabled : Bool

/-- A row of `backup_policies`; a check keeps `keep` positive. -/
structure PolicyRow where
  id : String
  keep : ℕ
  keep_pos : 1 ≤ keep

inductive BackupState
  | creating | ready | failed
  deriving DecidableEq

/-- A row of `backups`. -/
structure BackupRow where
  id : String
  tenantId : Option String
  policyId : Option String
  targetId : String
  objectKey : String
  clusterId : String
  project : String
  instanceName : String
  instanceType : String
  instanceOnly : Bool
  jobId : String
  createdBy : String
  state : BackupState
  sizeBytes : Option ℕ
  transport : String
  error : String
  deriving DecidableEq

structure BackupQuotas where
  backups : Option ℕ
  backupGiB : Option ℕ

structure UserQuotas where
  instances : Option ℕ
  cpu : Option ℕ
  memory : Option ℕ
  backups : Option ℕ

/-- `Object.keys(q).length` is zero. -/
def UserQuotas.isEmpty (q : UserQuotas) : Bool :=
  q.instances.isNone && q.cpu.isNone && q.memory.isNone && q.backups.isNone

/-! ### Names -/

/-- `s.slice(0, 8)`. -/
def first8 (s : String) : String := ofList (s.toList.take 8)

def trimSlashes (s : String) : String :=
  ofList ((s.toList.dropWhile (· = '/')).reverse.dropWhile (· = '/')).reverse

/-- `<prefix>/<project>/<instance>/<yyyymmddThhmmssZ>-<id8>.tar.gz`. -/
def objectKey (pathPrefix project instanceName stamp id : String) : String :=
  (if trimSlashes pathPrefix = "" then "" else trimSlashes pathPrefix ++ "/") ++ project ++ "/" ++
    instanceName ++ "/" ++ stamp ++ "-" ++ first8 id ++ ".tar.gz"

def hostOf (endpoint : String) : List Char :=
  let rest := (endpoint.toList.dropWhile (· ≠ ':')).drop 3
  let authority := rest.takeWhile fun ch => ch ≠ '/' && ch ≠ '?' && ch ≠ '#'
  let host := if '@' ∈ authority then (authority.dropWhile (· ≠ '@')).drop 1 else authority
  match cut ':' host with
  | (name, some port) => if port.all Char.isDigit then name else host
  | (_, none) => host

def incusUploadRegion (isUrl : String → Bool) (endpoint : String) : String :=
  let aws := ".amazonaws.com".toList
  let host := hostOf endpoint
  if !isUrl endpoint || !(aws <:+ host) then "us-east-1"
  else
    let parts := (host.take (host.length - aws.length)).splitOn '.'
    let isS3 (p : List Char) : Bool := p = "s3".toList || "s3-".toList <+: p
    match parts.dropWhile fun p => !isS3 p with
    | [] => "us-east-1"
    | p :: rest =>
      if "s3-".toList <+: p ∧ 3 < p.length then ofList (p.drop 3)
      else
        match rest.find? fun q =>
            q ≠ [] && !(["dualstack".toList, "fips".toList, "accesspoint".toList].contains q) with
        | some region => ofList region
        | none => "us-east-1"

/-! ### What the handler calls -/

inductive BackupCall
  | selectTarget (id : String)
  | selectQuotas (tenant : String)
  | countBackups (tenant : String)
  | userQuotaOf (tenant user : String)
  | userBackups (tenant user : String)
  | clientFor (cluster : String)
  | readInstance (project name : String)
  | insertRow (row : BackupRow)
  | server
  | progress (stage : String)
  | aborted
  /-- `if (ctx.signal.aborted) throw ctx.signal.reason`. -/
  | throwIfAborted
  /-- Asks the cluster for a backup, uploaded by itself or kept there, and waits for it. -/
  | makeBackup (direct : Bool) (name : String)
  | stat (target key : String)
  | download (streaming : Bool)
  | put (target key : String)
  | deleteObject (target key : String)
  /-- `DELETE` of the cluster's copy; one that is not there is fine. -/
  | dropLocal (name : String)
  | markReady (size : ℕ) (transport : String)
  | selectPolicy (id : String)
  /-- The policy's ready backups beyond `keep`, the newest first. -/
  | selectExtra (policy : String) (keep : ℕ)
  | deleteRow (id : String)
  | setPolicy (lastError : String)
  | markFailed (error : String)

def BackupCall.Answer : BackupCall → Type
  | selectTarget _ => Option TargetRow
  | selectQuotas _ => BackupQuotas
  | countBackups _ => ℕ × ℕ
  | userQuotaOf _ _ => UserQuotas
  | userBackups _ _ => ℕ
  | readInstance _ _ => Option String
  | server => List String
  | aborted => Bool
  | stat _ _ => Option ℕ
  | put _ _ => ℕ
  | selectPolicy _ => Option PolicyRow
  | selectExtra _ _ => List BackupRow
  | _ => Unit

structure RunHistory where
  /-- How many rows of its tenant had been inserted when it counted them. -/
  countedAt : ℕ
  marked : Bool
  gone : Bool
  unmarked : Bool

structure Vault where
  rows : List BackupRow
  objects : List (String × String)
  uploading : String → Bool
  inserts : String → ℕ
  history : String → RunHistory

/-- How a call goes, and what it finds where that is not followed here. -/
structure BackupOutcome where
  fails : Bool
  took : Bool
  lands : Bool
  aborted : Bool
  userQuotas : UserQuotas
  instanceType : Option String
  extensions : List String
  policy : Option PolicyRow
  size : ℕ

structure BackupSite where
  isUrl : String → Bool
  target : String → Option TargetRow
  quotas : String → BackupQuotas
  run : String → BackupRun

namespace BackupSite

variable (site : BackupSite)

def keyOf (id : String) (target : TargetRow) : String :=
  objectKey target.pathPrefix (site.run id).payload.project (site.run id).payload.instanceName
    (site.run id).stamp id

end BackupSite

namespace Vault

variable (v : Vault)

def live (tenant : String) : List BackupRow :=
  v.rows.filter fun r => r.tenantId = some tenant ∧ r.state ≠ .failed

def update (id : String) (f : BackupRow → BackupRow) : Vault :=
  { v with rows := v.rows.map fun r => if r.id = id then f r else r }

def note (id : String) (f : RunHistory → RunHistory) : Vault :=
  { v with history := Function.update v.history id (f (v.history id)) }

/-- An object goes; a run whose it is notes it when its row was marked ready. -/
def drop (target key : String) (id : String) (own : Bool) : Vault :=
  { v with objects := v.objects.filter (· ≠ (target, key)) }.note id fun h =>
    { h with gone := h.gone || (h.marked && own) }

def landed (id target key : String) (o : BackupOutcome) : Vault :=
  if v.uploading id ∧ o.lands then
    { v with
      objects := (target, key) :: v.objects, uploading := Function.update v.uploading id false }
  else v

def found (target key : String) (size : ℕ) : Option ℕ :=
  if (target, key) ∈ v.objects then some size else none

/-- A call whose effect is `done`. -/
def reply {α : Type} (o : BackupOutcome) (done : α × Vault) : Except JobError α × Vault :=
  if o.fails then (.error .failed, if o.took then done.2 else v) else (.ok done.1, done.2)

def silent {α : Type} (o : BackupOutcome) (a : α) : Except JobError α × Vault :=
  if o.fails then (.error .failed, v) else (.ok a, v)

/-- `pruneBackups`' rows: the policy's ready backups beyond `keep`, the newest first. -/
def extra (policy : String) (keep : ℕ) : List BackupRow :=
  ((v.rows.filter fun r => r.policyId = some policy ∧ r.state = .ready).reverse).drop keep

end Vault

variable (site : BackupSite)

/-- What a call of the run `id` answers, and what it does. -/
def answer (id : String) (c : BackupCall) (v : Vault) (o : BackupOutcome) :
    Except JobError c.Answer × Vault :=
  match c with
  | .selectTarget t => v.silent o (site.target t)
  | .selectQuotas t => v.silent o (site.quotas t)
  | .countBackups t =>
    v.reply o
      (((v.live t).length, ((v.live t).map fun r => r.sizeBytes.getD 0).sum),
        v.note id fun h => { h with countedAt := v.inserts t })
  | .userQuotaOf _ _ => v.silent o o.userQuotas
  | .userBackups t user =>
    v.silent o ((v.live t).filter fun r => r.createdBy = "user:" ++ user).length
  | .clientFor _ => v.silent o ()
  | .readInstance _ _ => v.silent o o.instanceType
  | .insertRow row =>
    if v.rows.any fun r => r.id = row.id then (.error .failed, v)
    else
      v.reply o
        ((), { v with
          rows := v.rows ++ [row]
          inserts :=
            match row.tenantId with
            | some t => Function.update v.inserts t (v.inserts t + 1)
            | none => v.inserts })
  | .server => v.silent o o.extensions
  | .progress _ => v.silent o ()
  | .aborted => (.ok o.aborted, v)
  | .throwIfAborted => v.silent o ()
  | .makeBackup direct _ =>
    v.reply o
      ((), if direct then { v with uploading := Function.update v.uploading id true } else v)
  | .stat target key =>
    (v.landed id target key o).silent o ((v.landed id target key o).found target key o.size)
  | .download _ => v.silent o ()
  | .put target key => v.reply o (o.size, { v with objects := (target, key) :: v.objects })
  | .deleteObject target key =>
    v.reply o
      ((), v.drop target key id ((site.target (site.run id).payload.targetId).any fun t =>
        t.id = target ∧ site.keyOf id t = key))
  | .dropLocal _ => v.silent o ()
  | .markReady size transport =>
    v.reply o
      ((), (v.update id fun r =>
        { r with state := .ready, sizeBytes := some size, transport := transport }).note id fun h =>
          { h with marked := true })
  | .selectPolicy _ => v.silent o o.policy
  | .selectExtra policy keep => v.silent o (v.extra policy keep)
  | .deleteRow r => v.reply o ((), { v with rows := v.rows.filter (·.id ≠ r) })
  | .setPolicy _ => v.silent o ()
  | .markFailed error =>
    v.reply o
      ((), (v.update id fun r => { r with state := .failed, error := error }).note id fun h =>
        { h with unmarked := true })

/-! ### The handler -/

/-- Its `let rowMade`. -/
structure BackupFlags where
  rowMade : Bool

structure BackupResult where
  backupId : String
  transport : String
  sizeBytes : ℕ
  pruned : ℕ
  warnings : List String

abbrev Backup := Handler BackupCall BackupCall.Answer JobError BackupFlags

namespace Backup

open Handler (call)

def selectTarget (id : String) : Backup (Option TargetRow) := call (BackupCall.selectTarget id)
def selectQuotas (tenant : String) : Backup BackupQuotas := call (BackupCall.selectQuotas tenant)
def countBackups (tenant : String) : Backup (ℕ × ℕ) := call (BackupCall.countBackups tenant)
def userQuotaOf (tenant user : String) : Backup UserQuotas :=
  call (BackupCall.userQuotaOf tenant user)
def userBackups (tenant user : String) : Backup ℕ := call (BackupCall.userBackups tenant user)
def clientFor (cluster : String) : Backup Unit := call (BackupCall.clientFor cluster)
def readInstance (project name : String) : Backup (Option String) :=
  call (BackupCall.readInstance project name)
def insertRow (row : BackupRow) : Backup Unit := call (BackupCall.insertRow row)
def server : Backup (List String) := call BackupCall.server
def progress (stage : String) : Backup Unit := call (BackupCall.progress stage)
def aborted : Backup Bool := call BackupCall.aborted
def throwIfAborted : Backup Unit := call BackupCall.throwIfAborted
def makeBackup (direct : Bool) (name : String) : Backup Unit :=
  call (BackupCall.makeBackup direct name)
def stat (target key : String) : Backup (Option ℕ) := call (BackupCall.stat target key)
def download (streaming : Bool) : Backup Unit := call (BackupCall.download streaming)
def put (target key : String) : Backup ℕ := call (BackupCall.put target key)
def deleteObject (target key : String) : Backup Unit := call (BackupCall.deleteObject target key)
def dropLocal (name : String) : Backup Unit := call (BackupCall.dropLocal name)
def markReady (size : ℕ) (transport : String) : Backup Unit :=
  call (BackupCall.markReady size transport)
def selectPolicy (id : String) : Backup (Option PolicyRow) := call (BackupCall.selectPolicy id)
def selectExtra (policy : String) (keep : ℕ) : Backup (List BackupRow) :=
  call (BackupCall.selectExtra policy keep)
def deleteRow (id : String) : Backup Unit := call (BackupCall.deleteRow id)
def setPolicy (lastError : String) : Backup Unit := call (BackupCall.setPolicy lastError)
def markFailed (error : String) : Backup Unit := call (BackupCall.markFailed error)

/-- `.catch(() => {})`. -/
def orIgnore (m : Backup Unit) : Backup Unit := tryCatch m fun _ => pure ()

end Backup

open Backup
open Handler (locals assign when)

/-- `(e as Error).message`. -/
def messageOf : JobError → String
  | .failed => "failed"
  | .api _ _ message => message

def refuseOver (msg : List String) : Backup Unit :=
  when (msg ≠ []) (throw (.api 409 "quota_exceeded" ("Over the quota: " ++ ", ".intercalate msg)))

/-- What a new backup would exceed, given the tenant's backups and their bytes. -/
def backupProblems (q : BackupQuotas) (r : ℕ × ℕ) : List String :=
  (match q.backups with
    | some n => if n < r.1 + 1 then ["backups: " ++ toString n ++ " already"] else []
    | none => []) ++
    (match q.backupGiB with
      | some n =>
        if n * gib ≤ r.2 then
          ["backup storage: " ++ Tenants.showAmount .disk r.2 ++ " of " ++ toString n ++ " GiB"]
        else []
      | none => [])

def needBackupQuota (tenant : String) (q : BackupQuotas) : Backup Unit :=
  when (q.backups.isSome || q.backupGiB.isSome) do
    let r ← countBackups tenant
    refuseOver (backupProblems q r)

/-- What one more backup would exceed of a user's share. -/
def userProblems (q : UserQuotas) (used : ℕ) : List String :=
  match q.backups with
  | some n =>
    if n < used + 1 then ["your backups: " ++ toString (used + 1) ++ " of " ++ toString n] else []
  | none => []

def needUserQuota (tenant user : String) : Backup Unit := do
  let q ← userQuotaOf tenant user
  when (!q.isEmpty) do
    let used ← userBackups tenant user
    refuseOver (userProblems q used)

section

variable (site : BackupSite) (id : String)

/-- The tenant's backup count and storage, and the user's own count. -/
def checkQuota : Backup Unit :=
  match (site.run id).tenantId with
  | none => pure ()
  | some tenant => do
    let q ← selectQuotas tenant
    needBackupQuota tenant q
    when ((site.run id).actorType = .user && (site.run id).actorId ≠ "")
      (needUserQuota tenant (site.run id).actorId)

def localName : String := "incuscloud-" ++ first8 (site.run id).jobId

variable (target : TargetRow)

def appeared : ℕ → Backup ℕ
  | 0 =>
    throw (.api 502 "target_error"
      "The cluster reported the upload done, but the object is not in the target")
  | n + 1 => do
    throwIfAborted
    let found ← stat target.id (site.keyOf id target)
    found.elim (appeared n) pure

/-- Without `direct_backup` the backup is made on the cluster first, then exported. -/
def makeLocal (streaming : Bool) : Backup Unit :=
  if streaming then progress "backing up and uploading"
  else do
    progress "backing up"
    makeBackup false (localName site id)
    progress "uploading"

def relay (streaming : Bool) : Backup ℕ := do
  makeLocal site id streaming
  download streaming
  put target.id (site.keyOf id target)

def giveUpDirect (e : JobError) (stopped : Bool) : Backup (Option ℕ) :=
  if (site.run id).payload.transport = .direct || stopped then throw e
  else do
    orIgnore (deleteObject target.id (site.keyOf id target))
    orIgnore (dropLocal (localName site id))
    progress "relaying"
    pure none

/-- The cluster uploads the backup itself; none: it could not. -/
def direct : Backup (Option ℕ) :=
  tryCatch
    (do
      progress "backing up and uploading"
      makeBackup true ""
      let size ← appeared site id target ((site.run id).polls + 1)
      pure (some size))
    fun e => do
      let stopped ← aborted
      giveUpDirect site id target e stopped

variable (extensions : List String)

def canDirect : Bool :=
  extensions.contains "backup_s3_upload" &&
    (target.region = "" || target.region = incusUploadRegion site.isUrl target.endpoint)

def noDirect : JobError :=
  let signs := incusUploadRegion site.isUrl target.endpoint
  .api 409 "conflict"
    (if target.region = "" || target.region = signs then
      "The cluster cannot upload backups itself (it lacks the backup_s3_upload API extension)"
    else
      "The cluster cannot upload to this target itself: Incus signs its uploads to this endpoint for region " ++
        signs ++ ", and the target is in " ++ target.region)

/-- The cluster uploads the backup itself where it can and may. -/
def tryDirect : Backup (Option ℕ) :=
  if (site.run id).payload.transport ≠ .relay && canDirect site target extensions then
    direct site id target
  else pure none

def transfer : Backup (ℕ × String) := do
  when ((site.run id).payload.transport = .direct && !canDirect site target extensions)
    (throw (noDirect site target))
  let uploaded ← tryDirect site id target extensions
  uploaded.elim
    (do
      let size ← relay site id target (extensions.contains "direct_backup")
      pure (size, "relay"))
    fun size => pure (size, "direct")

/-- `pruneBackups`' loop: object, then row. -/
def pruneRows : List BackupRow → Backup (ℕ × List String)
  | [] => pure (0, [])
  | b :: rest => do
    let failed ← tryCatch
      (do
        deleteObject b.targetId b.objectKey
        deleteRow b.id
        pure none)
      fun e => pure (some (b.objectKey ++ ": " ++ messageOf e))
    let (pruned, errors) ← pruneRows rest
    pure (failed.elim (pruned + 1, errors) fun e => (pruned, e :: errors))

/-- Removes the policy's ready backups beyond `keep`: object, then row. -/
def pruneBackups (policy : PolicyRow) : Backup (ℕ × List String) := do
  let extra ← selectExtra policy.id policy.keep
  pruneRows extra

def applyRetention : Backup (ℕ × List String) :=
  match (site.run id).payload.policyId with
  | none => pure (0, [])
  | some policyId => do
    let policy ← selectPolicy policyId
    let (pruned, errors) ← policy.elim (pure (0, [])) pruneBackups
    let warnings := errors.map ("Not pruned: " ++ ·)
    setPolicy ("; ".intercalate warnings)
    pure (pruned, warnings)

def newRow (instanceType : String) : BackupRow :=
  let run := site.run id
  { id := id, tenantId := run.tenantId, policyId := run.payload.policyId, targetId := target.id
    objectKey := site.keyOf id target, clusterId := run.payload.clusterId
    project := run.payload.project, instanceName := run.payload.instanceName
    instanceType := instanceType, instanceOnly := run.payload.instanceOnly, jobId := run.jobId
    createdBy := run.actorType.text ++ ":" ++ run.actorId, state := .creating, sizeBytes := none
    transport := "", error := "" }

/-- The body of the `try`. -/
def makeAndStore : Backup BackupResult := do
  let p := (site.run id).payload
  let inst ← readInstance p.project p.instanceName
  let instanceType ← inst.elim
    (throw (.api 404 "not_found" ("Instance \"" ++ p.instanceName ++ "\" not found in " ++ p.project)))
    pure
  insertRow (newRow site id target instanceType)
  assign fun _ => ⟨true⟩
  let extensions ← server
  let (size, transport) ← transfer site id target extensions
  markReady size transport
  let (pruned, warnings) ← applyRetention site id
  pure ⟨id, transport, size, pruned, warnings⟩

/-- The body of the `catch`, but for the `throw` that ends it. -/
def cleanUp (e : JobError) : Backup Unit := do
  orIgnore (deleteObject target.id (site.keyOf id target))
  let l ← locals
  when l.rowMade (markFailed (ofList ((messageOf e).toList.take 1000)))
  when (site.run id).payload.policyId.isSome (setPolicy (ofList ((messageOf e).toList.take 1000)))

def backUp : Backup BackupResult := do
  when (!target.enabled)
    (throw (.api 409 "conflict" ("The backup target \"" ++ target.name ++ "\" is disabled")))
  checkQuota site id
  clientFor (site.run id).payload.clusterId
  Handler.andFinally
    (tryCatch (makeAndStore site id target) fun e => do
      cleanUp site id target e
      throw e)
    (orIgnore (dropLocal (localName site id)))

end

def backupHandler (id : String) : Backup BackupResult := do
  let target ← selectTarget (site.run id).payload.targetId
  target.elim (throw (.api 404 "not_found" "The backup target no longer exists")) (backUp site id)

def backupWorld (id : String) : World BackupCall BackupCall.Answer JobError Vault BackupOutcome :=
  ⟨answer site id⟩

/-- Runs at the same time; a backup may also be deleted by who made it. -/
def backupTeam : Team String BackupCall BackupCall.Answer JobError Vault BackupOutcome String :=
  ⟨fun id c v o => some (answer site id c v o),
    fun v r => some { v with rows := v.rows.filter (·.id ≠ r) }⟩

end IncusCloud.Backups
