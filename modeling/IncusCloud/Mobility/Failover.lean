import IncusCloud.Lib.Handler
import IncusCloud.Mobility.Replication

/-!
# One failover

`failoverHandler` of `mobility/replication.ts`, and what its calls do. Every call may fail, before
or after it took effect; nobody else changes the policy or its instances while a failover runs.
What the handler puts back as it read it (the architecture, devices, profiles and so on) stays as
it is, and is left out.
-/

namespace IncusCloud.Mobility.FailoverJob

open Lib

/-- A row of `replicationPolicies`, as far as the handler reads it. -/
structure PolicyRow where
  id : String
  sourceClusterId : String
  sourceProject : String
  instanceName : String
  targetClusterId : String
  targetProject : String
  targetName : String
  state : PolicyState
  enabled : Bool

def policyInstanceKey (p : PolicyRow) : String :=
  p.sourceClusterId ++ "/" ++ p.sourceProject ++ "/" ++ p.instanceName

/-- `ctx.job.payload`. -/
structure Payload where
  policyId : String
  stopSource : Bool

/-- The policy's two clusters, and the instance it has on each. -/
inductive Side
  | source | target

/-- What `failoverHandler` awaits. -/
inductive Call
  | selectPolicy (id : String)
  | clientFor (side : Side)
  | progress (stage : String)
  | readInstance (side : Side)
  | stop
  | put (config : OrdMap String String)
  | start
  | updatePolicy (id : String) (state : PolicyState) (enabled : Bool)
  | refreshInventory (ids : List String)

def Call.Answer : Call → Type
  | selectPolicy _ => Option PolicyRow
  | readInstance _ => Option Instance
  | _ => Unit

def Call.onSource : Call → Bool
  | clientFor .source => true
  | readInstance .source => true
  | stop => true
  | _ => false

inductive Error
  | failed (message : String)
  | api (status : ℕ) (code message : String)

def Error.message : Error → String
  | failed message => message
  | api _ _ message => message

/-! ### The clusters and the database -/

structure Entry where
  call : Call
  failed : Bool
  took : Bool

structure Sites where
  policy : Option PolicyRow
  source : Option Instance
  target : Option Instance
  log : List Entry

structure Outcome where
  error : Option String
  took : Bool

namespace Sites

variable (w : Sites)

def enter (e : Entry) : Sites := { w with log := e :: w.log }

/-- A call whose effect is `done`; `none`: the cluster refuses it. -/
def reply {α : Type} (c : Call) (o : Outcome) (done : Option (α × Sites)) : Except Error α × Sites :=
  match done, o.error with
  | none, _ => (.error (.failed "Instance not found"), w.enter ⟨c, true, false⟩)
  | some (a, w'), none => (.ok a, w'.enter ⟨c, false, true⟩)
  | some (_, w'), some message =>
    (.error (.failed message), if o.took then w'.enter ⟨c, true, true⟩ else w.enter ⟨c, true, false⟩)

def instance? : Side → Option Instance
  | .source => w.source
  | .target => w.target

def stop : Option Sites :=
  w.source.map fun i => if i.status = .stopped then w else { w with source := i.stopped }

def put (config : OrdMap String String) : Option Sites :=
  w.target.map fun i => { w with target := some { i with config := config } }

def start : Option Sites :=
  w.target.map fun i => if i.status = .running then w else { w with target := some i.started }

def update (id : String) (state : PolicyState) (enabled : Bool) : Sites :=
  { w with policy := w.policy.map fun p => if p.id = id then { p with state := state, enabled := enabled } else p }

end Sites

def answer (c : Call) (w : Sites) (o : Outcome) : Except Error c.Answer × Sites :=
  match c with
  | .selectPolicy id => w.reply (.selectPolicy id) o (some (w.policy.filter fun p => p.id = id, w))
  | .clientFor side => w.reply (.clientFor side) o (some ((), w))
  | .progress stage => w.reply (.progress stage) o (some ((), w))
  | .readInstance side => w.reply (.readInstance side) o (some (w.instance? side, w))
  | .stop => w.reply .stop o (w.stop.map fun w' => ((), w'))
  | .put config => w.reply (.put config) o ((w.put config).map fun w' => ((), w'))
  | .start => w.reply .start o (w.start.map fun w' => ((), w'))
  | .updatePolicy id state enabled => w.reply (.updatePolicy id state enabled) o (some ((), w.update id state enabled))
  | .refreshInventory ids => w.reply (.refreshInventory ids) o (some ((), w))

def world : World Call Call.Answer Error Sites Outcome := ⟨answer⟩

/-! ### The handler -/

/-- Its `warnings`. -/
abbrev Warnings := List String

structure Result where
  targetClusterId : String
  targetProject : String
  targetName : String
  warnings : Warnings

abbrev Job := Handler Call Call.Answer Error Warnings

open Handler (call locals assign when)

def selectPolicy (id : String) : Job (Option PolicyRow) := call (Call.selectPolicy id)
def clientFor (side : Side) : Job Unit := call (Call.clientFor side)
def progress (stage : String) : Job Unit := call (Call.progress stage)
def readInstance (side : Side) : Job (Option Instance) := call (Call.readInstance side)
def stop : Job Unit := call Call.stop
def put (config : OrdMap String String) : Job Unit := call (Call.put config)
def start : Job Unit := call Call.start
def updatePolicy (id : String) (state : PolicyState) (enabled : Bool) : Job Unit :=
  call (Call.updatePolicy id state enabled)
def refreshInventory (ids : List String) : Job Unit := call (Call.refreshInventory ids)

def loadPolicy (id : String) : Job PolicyRow := do
  match ← selectPolicy id with
  | some p => pure p
  | none => throw (.api 404 "not_found" "The replication policy no longer exists")

/-- Best effort: the source may be the cluster that is gone. -/
def stopOriginal : Job Unit := do
  progress "stopping the source"
  tryCatch
    (do
      clientFor .source
      let original ← readInstance .source
      when (original.any fun i => i.status = .running) stop)
    fun e => assign fun warnings => warnings ++ ["The source could not be stopped: " ++ e.message]

def promoteReplica (p : PolicyRow) (replica : Instance) : Job Result := do
  progress "promoting the replica"
  put (promote (policyInstanceKey p) replica)
  progress "starting the replica"
  when (replica.status ≠ .running) start
  updatePolicy p.id .failedOver false
  refreshInventory [p.sourceClusterId, p.targetClusterId]
  let warnings ← locals
  pure ⟨p.targetClusterId, p.targetProject, p.targetName, warnings⟩

def failoverHandler (payload : Payload) : Job Result := do
  let p ← loadPolicy payload.policyId
  when (p.state ≠ .active) (throw (.api 409 "conflict" "This policy has already failed over"))
  clientFor .target
  match (← readInstance .target).filter fun i => i.tag tagReplicaOf = some p.id with
  | none => throw (.api 409 "conflict" "There is no replica to fail over to")
  | some replica =>
    when payload.stopSource stopOriginal
    promoteReplica p replica

end IncusCloud.Mobility.FailoverJob
