import IncusCloud.Mobility.Incus

/-!
# Replication runs and failovers

`mobility/replication.ts`: `replicateHandler` and `failoverHandler` for one policy, any number of
runs of each, interleaved at their awaits. The scheduler and the API queue the runs, and nothing
keeps a failover from running beside a replication run, so a run may begin at any time. A call that
fails may have taken effect; what another call of a run does then is in its `catch`.

`promoted` and `overwritten` are history.
-/

namespace IncusCloud.Mobility

open Lib

/-- `replicationPolicies.state`. -/
inductive PolicyState
  | active | failedOver
  deriving DecidableEq

/-- The policy, as the two handlers read and write it. -/
structure Policy where
  id : String
  instanceKey : String
  state : PolicyState
  enabled : Bool

inductive RunPhase
  | started
  /-- The target is read; `existing`: this policy's replica is there. -/
  | checked (existing : Bool)
  | ready (existing : Bool)
  | transferring (refresh : Bool)
  /-- The transfer is done; what is recorded of it is next. -/
  | transferred (existing : Bool)
  /-- It failed and no replica was there: what it left behind is read next. -/
  | cleaning
  | deleting
  | ended
  deriving DecidableEq

/-- A run of `replicateHandler`. -/
structure Replicate where
  job : String
  phase : RunPhase

/-- Where a failover is; `replica` is the target as it was read. -/
inductive FailoverPhase
  | started
  | loaded
  | stoppingSource (replica : Instance)
  | promoting (replica : Instance)
  | starting (replica : Instance)
  | recording
  | ended

/-- A run of `failoverHandler`. -/
structure Failover where
  stopSource : Bool
  phase : FailoverPhase

structure Replication where
  policy : Policy
  source : Option Instance
  target : Option Instance
  runs : List Replicate
  failovers : List Failover
  promoted : Bool
  /-- A transfer with `refresh: true` has written to it since. -/
  overwritten : Bool

/-- The config of a new replica: that of pre-flight's request, tagged. -/
def replicaConfig (config : OrdMap String String) (policy job : String) : OrdMap String String :=
  (config.set tagReplicaOf policy).set tagJob job

/-- What a failover puts: the config it read, no longer a replica's. -/
def promote (key : String) (replica : Instance) : OrdMap String String :=
  ((replica.config.erase tagReplicaOf).erase tagJob).set tagPromotedFrom key

inductive RepAction
  | replicate (job : String)
  /-- `readInstance` of the target, and what follows from it. -/
  | read (i : ℕ)
  | preflight (i : ℕ)
  | accept (i : ℕ) (type : InstanceType) (config : OrdMap String String)
  | write (i : ℕ)
  | arrive (i : ℕ)
  | succeed (i : ℕ)
  /-- A call of the run fails; a first copy may be gone with it. -/
  | fail (i : ℕ) (removed : Bool)
  | readLeft (i : ℕ)
  | deleteLeft (i : ℕ) (took : Bool)
  | failover (stopSource : Bool)
  | load (k : ℕ)
  | readReplica (k : ℕ)
  | stopSource (k : ℕ) (took : Bool)
  /-- The replica is made an ordinary instance; `ok`: the call returns. -/
  | put (k : ℕ) (ok : Bool)
  | start (k : ℕ) (ok : Bool)
  | record (k : ℕ)
  | failFailover (k : ℕ)

namespace Replication

def putRun (s : Replication) (i : ℕ) (r : Replicate) (phase : RunPhase) : Replication :=
  { s with runs := s.runs.set i { r with phase := phase } }

def putFailover (s : Replication) (k : ℕ) (f : Failover) (phase : FailoverPhase) : Replication :=
  { s with failovers := s.failovers.set k { f with phase := phase } }

def afterFailure (existing : Bool) : RunPhase := if existing then .ended else .cleaning

def step (s : Replication) : RepAction → Option Replication
  | .replicate job => some { s with runs := s.runs ++ [⟨job, .started⟩] }
  | .read i =>
    match s.runs[i]? with
    | some ⟨job, .started⟩ =>
      match s.target with
      | none => some (s.putRun i ⟨job, .started⟩ (.checked false))
      | some t =>
        if t.tag tagReplicaOf = some s.policy.id then
          some (s.putRun i ⟨job, .started⟩ (.checked true))
        -- Not this policy's: it is not touched.
        else some (s.putRun i ⟨job, .started⟩ .ended)
    | _ => none
  | .preflight i =>
    match s.runs[i]? with
    | some ⟨job, .checked existing⟩ => some (s.putRun i ⟨job, .checked existing⟩ (.ready existing))
    | _ => none
  | .accept i type config =>
    match s.runs[i]? with
    | some ⟨job, .ready true⟩ =>
      if s.target.isSome then some (s.putRun i ⟨job, .ready true⟩ (.transferring true)) else none
    | some ⟨job, .ready false⟩ =>
      -- Incus refuses a name that is taken.
      if s.target.isSome then none
      else
        some
          { s.putRun i ⟨job, .ready false⟩ (.transferring false) with
            target := some ⟨type, .stopped, false, replicaConfig config s.policy.id job⟩ }
    | _ => none
  | .write i =>
    match s.runs[i]? with
    | some ⟨_, .transferring refresh⟩ =>
      if s.target.isSome then some { s with overwritten := s.overwritten || (refresh && s.promoted) }
      else none
    | _ => none
  | .arrive i =>
    match s.runs[i]? with
    | some ⟨job, .transferring refresh⟩ =>
      some (s.putRun i ⟨job, .transferring refresh⟩ (.transferred refresh))
    | _ => none
  | .succeed i =>
    match s.runs[i]? with
    | some ⟨job, .transferred existing⟩ => some (s.putRun i ⟨job, .transferred existing⟩ .ended)
    | _ => none
  | .fail i removed =>
    match s.runs[i]? with
    | some ⟨job, .started⟩ => some (s.putRun i ⟨job, .started⟩ .cleaning)
    | some ⟨job, .checked existing⟩ =>
      some (s.putRun i ⟨job, .checked existing⟩ (afterFailure existing))
    | some ⟨job, .ready existing⟩ =>
      some (s.putRun i ⟨job, .ready existing⟩ (afterFailure existing))
    | some ⟨job, .transferring refresh⟩ =>
      some
        { s.putRun i ⟨job, .transferring refresh⟩ (afterFailure refresh) with
          target := if removed && !refresh then none else s.target }
    | some ⟨job, .transferred existing⟩ =>
      some (s.putRun i ⟨job, .transferred existing⟩ (afterFailure existing))
    | some ⟨job, .cleaning⟩ => some (s.putRun i ⟨job, .cleaning⟩ .ended)
    | _ => none
  | .readLeft i =>
    match s.runs[i]? with
    | some ⟨job, .cleaning⟩ =>
      if s.target.any fun t => t.tag tagJob = some job then
        some (s.putRun i ⟨job, .cleaning⟩ .deleting)
      else some (s.putRun i ⟨job, .cleaning⟩ .ended)
    | _ => none
  | .deleteLeft i took =>
    match s.runs[i]? with
    | some ⟨job, .deleting⟩ =>
      some { s.putRun i ⟨job, .deleting⟩ .ended with target := if took then none else s.target }
    | _ => none
  | .failover stopSource => some { s with failovers := s.failovers ++ [⟨stopSource, .started⟩] }
  | .load k =>
    match s.failovers[k]? with
    | some ⟨stop, .started⟩ =>
      some (s.putFailover k ⟨stop, .started⟩ (if s.policy.state = .active then .loaded else .ended))
    | _ => none
  | .readReplica k =>
    match s.failovers[k]?, s.target with
    | some ⟨stop, .loaded⟩, some t =>
      if t.tag tagReplicaOf = some s.policy.id then
        some (s.putFailover k ⟨stop, .loaded⟩ (if stop then .stoppingSource t else .promoting t))
      else some (s.putFailover k ⟨stop, .loaded⟩ .ended)
    | some ⟨stop, .loaded⟩, none => some (s.putFailover k ⟨stop, .loaded⟩ .ended)
    | _, _ => none
  | .stopSource k took =>
    match s.failovers[k]? with
    | some ⟨stop, .stoppingSource t⟩ =>
      some
        { s.putFailover k ⟨stop, .stoppingSource t⟩ (.promoting t) with
          source := if took then s.source.bind Instance.stopped else s.source }
    | _ => none
  | .put k ok =>
    match s.failovers[k]?, s.target with
    | some ⟨stop, .promoting replica⟩, some t =>
      some
        { s.putFailover k ⟨stop, .promoting replica⟩ (if ok then .starting replica else .ended) with
          target := some { t with config := promote s.policy.instanceKey replica }
          promoted := true }
    | _, _ => none
  | .start k ok =>
    match s.failovers[k]? with
    | some ⟨stop, .starting replica⟩ =>
      -- One that was running when it was read is not started.
      if replica.status = .running then
        some (s.putFailover k ⟨stop, .starting replica⟩ .recording)
      else
        s.target.map fun t =>
          { s.putFailover k ⟨stop, .starting replica⟩ (if ok then .recording else .ended) with
            target := some t.started
            promoted := true }
    | _ => none
  | .record k =>
    match s.failovers[k]? with
    | some ⟨stop, .recording⟩ =>
      some
        { s.putFailover k ⟨stop, .recording⟩ .ended with
          policy := { s.policy with state := .failedOver, enabled := false } }
    | _ => none
  | .failFailover k => s.failovers[k]?.map fun f => s.putFailover k f .ended

end Replication

end IncusCloud.Mobility
