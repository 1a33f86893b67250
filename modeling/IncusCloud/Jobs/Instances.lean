import IncusCloud.Db.Schema
import IncusCloud.Jobs.Runner

/-!
# Jobs and the instances they work on

The rows of `jobs` with what they are for and the key their caller queued them under (`enqueueJob`
of `jobs/queue.ts`, the unique index `jobs_active_instance` of `db/schema.ts`), on any number of
runners. The callers are `api/mobility.ts`, `api/backups.ts`, `api/replication.ts`,
`api/balancing.ts`, `scheduleBackups`, `scheduleReplication`, `scheduleLeases` and
`scheduleBalancing`; of the handlers the model has what decides which instance they work on:
`loadPolicy` of a replication run, and the moves of a rebalance (`moveOne` of `balancing/jobs.ts`)
answer by answer.
-/

namespace IncusCloud.Jobs.Instances

structure InstanceRef where
  clusterId : Uuid
  project : Name
  name : Name
  deriving DecidableEq

/-- `<clusterId>/<project>/<name>`. -/
def instanceKey (x : InstanceRef) : String :=
  x.clusterId.text ++ "/" ++ x.project.text ++ "/" ++ x.name.text

/-- `rebalance:<clusterId>`. -/
def rebalanceKey (clusterId : Uuid) : String := "rebalance:" ++ clusterId.text

/-- A row of `replication_policies`, as far as its runs depend on it. -/
structure Policy where
  id : Uuid
  source : InstanceRef
  active : Bool
  deriving DecidableEq

def policyInstanceKey (p : Policy) : String := instanceKey p.source

/-- A job's type and payload, as far as they say what it works on. -/
inductive Payload
  | migrate (source : InstanceRef)
  | backup (inst : InstanceRef)
  | lease (inst : InstanceRef)
  | replicate (policyId : Uuid)
  | rebalance (clusterId : Uuid)
  | other (type : String)
  deriving DecidableEq

def Payload.type : Payload → String
  | migrate _ => "migrate"
  | backup _ => "backup"
  | lease _ => "lease"
  | replicate _ => "replicate"
  | rebalance _ => "rebalance"
  | other type => type

/-! ### A move -/

/-- Where `moveOne` is. -/
inductive MovePhase
  | reading
  | stopping
  /-- It waits for Incus to move the instance; `restart`: it has stopped it. -/
  | moving (restart : Bool)
  /-- It starts the instance again; `moved`: on its new member. -/
  | starting (moved : Bool)
  | checking
  deriving DecidableEq

/-- What a call of `moveOne` comes to. -/
inductive MoveAnswer
  | no
  /-- It went well; of the first read: the move needs a restart or not. -/
  | yes (restart : Bool)

/-- `moveOne`, from one call to the next; nothing: it returned or threw. -/
def MovePhase.next : MovePhase → MoveAnswer → Option MovePhase
  | reading, .no => none
  | reading, .yes restart => some (if restart then stopping else moving false)
  | stopping, .no => some (starting false)
  | stopping, .yes _ => some (moving true)
  | moving restart, .no => if restart then some (starting false) else none
  | moving restart, .yes _ => some (if restart then starting true else checking)
  -- A start that fails is let go.
  | starting moved, _ => if moved then some checking else none
  | checking, _ => none

/-- A `moveOne` of a rebalance. -/
structure MoveOne where
  inst : InstanceRef
  phase : MovePhase
  deriving DecidableEq

/-! ### The system -/

variable {Id : Type} [DecidableEq Id]

/-- The columns of a job that `JobRow` leaves out. -/
structure JobInfo (Id : Type) where
  id : Id
  payload : Payload
  instanceKey : Option String

structure World (Id : Type) where
  queue : Queue Id
  infos : List (JobInfo Id)
  policies : List Policy
  policyIds : List Uuid
  reads : List Policy
  loaded : List (Id × Policy)
  /-- The moves that rebalance jobs have begun and not ended. -/
  moves : List (Id × MoveOne)

inductive Action (Id : Type)
  | runner (a : Jobs.Action Id)
  /-- Accepted requests and scheduler passes, at the insert of `enqueueJob`. -/
  | migrate (id : Id) (source : InstanceRef) (createdAt : Int)
  | backup (id : Id) (inst : InstanceRef) (createdAt : Int)
  | lease (id : Id) (inst : InstanceRef) (createdAt : Int)
  | rebalance (id : Id) (clusterId : Uuid) (createdAt : Int)
  | other (id : Id) (type : String) (instanceKey : Option String) (createdAt : Int)
  | createPolicy (p : Policy)
  /-- Its `state` or another column that is not its source changes. -/
  | setPolicy (id : Uuid) (active : Bool)
  | deletePolicy (id : Uuid)
  | readPolicy (p : Policy)
  | runPolicy (p : Policy) (id : Id) (createdAt : Int)
  | loadPolicy (id : Id) (p : Policy)
  | readForMove (id : Id) (inst : InstanceRef)
  | moveOn (id : Id) (m : MoveOne) (answer : MoveAnswer)

namespace World

def boot : World Id := ⟨Queue.boot, [], [], [], [], [], []⟩

variable (w : World Id)

def busy (key : Option String) : Bool :=
  w.queue.jobs.any fun j => !j.state.final &&
    w.infos.any fun r => r.id = j.id && key.isSome && r.instanceKey = key

/-- `enqueueJob`: refused, and nothing changes, where the key is an active job's. -/
def enqueueJob (id : Id) (payload : Payload) (key : Option String) (createdAt : Int) :
    Option (World Id) :=
  if w.busy key then some w
  else
    (w.queue.step (.enqueue id payload.type createdAt)).map fun q =>
      { w with queue := q, infos := w.infos ++ [⟨id, payload, key⟩] }

def handles (id : Id) : Bool :=
  w.queue.runners.any fun r => r.active.any fun e => e.1 = id && e.2 matches .running _

def isFor (id : Id) (payload : Payload) : Bool :=
  w.infos.any fun r => r.id = id && r.payload = payload

/-- What a runner may do: rows come by `enqueueJob` alone, and a handler does not end in a move. -/
def allows : Jobs.Action Id → Bool
  | .enqueue _ _ _ => false
  | .handlerEnds _ id _ => w.moves.all fun m => m.1 ≠ id
  | _ => true

def step : Action Id → Option (World Id)
  | .runner a =>
    if w.allows a then (w.queue.step a).map fun q => { w with queue := q } else none
  | .migrate id source createdAt =>
    w.enqueueJob id (.migrate source) (some (Instances.instanceKey source)) createdAt
  | .backup id inst createdAt =>
    w.enqueueJob id (.backup inst) (some (Instances.instanceKey inst)) createdAt
  | .lease id inst createdAt =>
    w.enqueueJob id (.lease inst) (some (Instances.instanceKey inst)) createdAt
  | .rebalance id clusterId createdAt =>
    w.enqueueJob id (.rebalance clusterId) (some (rebalanceKey clusterId)) createdAt
  | .other id type key createdAt => w.enqueueJob id (.other type) key createdAt
  -- A policy's id is random: never one that was there before.
  | .createPolicy p =>
    if p.id ∈ w.policyIds then none
    else some { w with policies := w.policies ++ [p], policyIds := p.id :: w.policyIds }
  | .setPolicy id active =>
    some { w with policies := w.policies.map fun p => if p.id = id then { p with active } else p }
  | .deletePolicy id => some { w with policies := w.policies.filter fun p => p.id ≠ id }
  | .readPolicy p =>
    if p ∈ w.policies ∧ p.active = true then some { w with reads := w.reads ++ [p] } else none
  | .runPolicy p id createdAt =>
    if p ∈ w.reads then
      World.enqueueJob { w with reads := w.reads.erase p } id (.replicate p.id)
        (some (policyInstanceKey p)) createdAt
    else none
  | .loadPolicy id p =>
    if w.handles id = true ∧ w.isFor id (.replicate p.id) = true ∧ p ∈ w.policies then
      some { w with loaded := (id, p) :: w.loaded }
    else none
  | .readForMove id inst =>
    if w.handles id = true ∧ w.isFor id (.rebalance inst.clusterId) = true ∧
        (∀ m ∈ w.moves, m.1 ≠ id) then
      some { w with moves := (id, ⟨inst, .reading⟩) :: w.moves }
    else none
  | .moveOn id m answer =>
    if w.handles id = true ∧ (id, m) ∈ w.moves then
      some
        { w with
          moves := (match m.phase.next answer with
              | some phase => [(id, { m with phase })]
              | none => []) ++ w.moves.erase (id, m) }
    else none

/-! ### Who works on what -/

/-- A job in state `running`. -/
def running (id : Id) : Bool :=
  w.queue.jobs.any fun j => j.id = id && j.state = .running

def holds (r : JobInfo Id) (x : InstanceRef) : Bool :=
  match r.payload with
  | .migrate source => source = x
  | .backup inst => inst = x
  | .lease inst => inst = x
  | .replicate policyId =>
    (w.policies.any fun p => p.id = policyId && p.source = x) ||
      w.loaded.any fun l => l.1 = r.id && l.2.source = x
  | .rebalance _ => false
  | .other _ => false

def has (id : Id) (x : InstanceRef) : Bool :=
  w.infos.any fun r => r.id = id && w.holds r x

def movesNow (id : Id) (x : InstanceRef) : Bool :=
  w.moves.any fun m => m.1 = id && m.2.inst = x

def worksOn (id : Id) (x : InstanceRef) : Bool := w.has id x || w.movesNow id x

end World

end IncusCloud.Jobs.Instances
