import IncusCloud.Acl.Guards
import IncusCloud.Fleet.Lifecycle
import IncusCloud.Lib.Run

/-!
# Leases

`extendLease` and `setLease` of `leases/leases.ts`, on the row of one instance. `extendLease` reads
the row and updates it in a second statement, which finds the row only where the number of
extensions is the one it read.
-/

namespace IncusCloud.Leases

open Acl Fleet
open Function (update)

inductive LeaseAction
  | stop | delete
  deriving DecidableEq

structure LeasePolicy where
  days : ℕ
  action : LeaseAction
  extendDays : ℕ
  maxExtensions : ℕ

def dayMs : Int := 86400000

/-- What `extendLease` goes on with of the row it read. -/
structure LeaseRead where
  extensions : ℕ
  expiresAt : Int

variable (policy : LeasePolicy)

def noneLeft : ApiError :=
  ⟨409, "conflict", "No extensions left: the tenant allows " ++
    if policy.maxExtensions = 1 then "one" else toString policy.maxExtensions⟩

def changedMeanwhile : ApiError := ⟨409, "conflict", "The lease changed meanwhile; try again"⟩

/-- `extendLease` up to its update. -/
def readLease : Option InstanceLease → Except ApiError LeaseRead
  | none => .error ⟨404, "not_found", "This instance has no lease"⟩
  | some lease =>
    match lease.expiresAt with
    | none => .error ⟨409, "conflict", "This instance's lease never ends"⟩
    | some expiresAt =>
      if policy.maxExtensions ≤ lease.extensions then .error (noneLeft policy)
      else .ok ⟨lease.extensions, expiresAt⟩

/-- Extends by the policy's `extendDays` from the later of now and the end that was read. -/
def extended (read : LeaseRead) (now : Int) (row : InstanceLease) : InstanceLease :=
  { row with
    expiresAt := some (max now read.expiresAt + policy.extendDays * dayMs)
    extensions := read.extensions + 1
    actedAt := none }

/-- The update of `extendLease`. -/
def updateLease (read : LeaseRead) (now : Int) :
    Option InstanceLease → Except ApiError InstanceLease
  | some row =>
    if row.extensions = read.extensions then .ok (extended policy read now row)
    else .error changedMeanwhile
  | none => .error changedMeanwhile

/-- `extendLease` with nothing between its two statements. -/
def extendLease (now : Int) (row : Option InstanceLease) : Except ApiError InstanceLease := do
  let read ← readLease policy row
  updateLease policy read now row

/-- Sets the end outright (none: never); the number of extensions stays. -/
def setLease (tenantId : Uuid) (expiresAt : Option Int) : Option InstanceLease → InstanceLease
  | none => ⟨tenantId, expiresAt, 0, none⟩
  | some row => { row with tenantId := tenantId, expiresAt := expiresAt, actedAt := none }

/-! ### Calls that overlap -/

inductive LeaseChange
  | extend (now : Int)
  | set (tenantId : Uuid) (expiresAt : Option Int)

def LeaseChange.isExtend : LeaseChange → Bool
  | extend _ => true
  | set _ _ => false

def LeaseChange.call (row : Option InstanceLease) : LeaseChange → Except ApiError InstanceLease
  | extend now => extendLease policy now row
  | set tenantId expiresAt => .ok (setLease tenantId expiresAt row)

def serial (row : Option InstanceLease) (changes : List LeaseChange) :
    Except ApiError (Option InstanceLease) :=
  changes.foldlM (fun row change => some <$> change.call policy row) row

structure LeaseCalls where
  row : Option InstanceLease
  /-- The calls of `extendLease` between their read and their update. -/
  reads : List LeaseRead
  /-- The calls that have succeeded, in the order of their writes. -/
  done : List LeaseChange

inductive LeaseStep
  | leaseOf
  | update (i : ℕ) (now : Int)
  | setLease (tenantId : Uuid) (expiresAt : Option Int)

namespace LeaseCalls

def step (s : LeaseCalls) : LeaseStep → Option LeaseCalls
  | .leaseOf =>
    match readLease policy s.row with
    | .ok read => some { s with reads := s.reads ++ [read] }
    | .error _ => some s
  | .update i now =>
    match s.reads[i]? with
    | none => none
    | some read =>
      match updateLease policy read now s.row with
      | .ok row => some ⟨some row, s.reads.eraseIdx i, s.done ++ [.extend now]⟩
      | .error _ => some { s with reads := s.reads.eraseIdx i }
  | .setLease tenantId expiresAt =>
    some { s with
      row := some (Leases.setLease tenantId expiresAt s.row)
      done := s.done ++ [.set tenantId expiresAt] }

end LeaseCalls

/-!
### Leases that end

`scheduleLeases` and `leaseHandler` of `leases/leases.ts`, with what changes under them:
`PUT /api/v1/tenants/:id/lease-policy` of `api/tenants.ts`, `extendLease` and `setLease`, the
inventory, and the instances themselves. Every statement and every request to Incus is a step of
its own, and a pass or a job may stop after any of them.

A job keeps what it saw when it read its lease, which nothing reads.
-/

abbrev InstanceAt := Uuid × InstanceKey

/-- A row of `instances`. -/
structure Inventoried where
  key : InstanceAt
  running : Bool
  seenAt : Int

/-- A row of the first `select` of `scheduleLeases`. -/
structure Unleased where
  key : InstanceAt
  tenantId : Uuid
  policy : LeasePolicy

structure LeaseDue where
  key : InstanceAt
  tenantId : Uuid
  action : LeaseAction

inductive SchedulePhase
  | handingOut (rest : List Unleased)
  | queueing (rest : List LeaseDue)
  /-- A job was queued; `acted_at` of its lease is to be set. -/
  | marking (key : InstanceAt) (rest : List LeaseDue)

/-- A pass of `scheduleLeases`. -/
structure LeasePass where
  now : Int
  phase : SchedulePhase

def LeasePass.toQueue (p : LeasePass) : List LeaseDue :=
  match p.phase with
  | .handingOut _ => []
  | .queueing rest => rest
  | .marking _ rest => rest

/-- What a job saw when it read its lease, at `now`: the lease, and its tenant's policy. -/
structure LeaseSeen where
  lease : InstanceLease
  now : Int
  policy : Option LeasePolicy

inductive LeaseJobPhase
  | queued
  | launched
  | due
  /-- The instance is gone, or has been deleted: the lease goes too. -/
  | gone
  | stopping
  | stopped
  | ended
  deriving DecidableEq

/-- A job of type `lease`, with its payload. -/
structure LeaseJob where
  key : InstanceAt
  action : LeaseAction
  phase : LeaseJobPhase
  /-- Its row was failed as interrupted; its handler may go on. -/
  interrupted : Bool
  seen : Option LeaseSeen
  acted : Bool

namespace LeaseJob

def waiting (j : LeaseJob) : Bool := j.phase = .queued || j.phase = .launched

/-- Its row is `queued` or `running`. -/
def active (j : LeaseJob) : Bool := decide (j.phase ≠ .ended) && !j.interrupted

end LeaseJob

structure Leasing where
  policies : Uuid → Option LeasePolicy
  placements : InstanceAt → Option Uuid
  instances : List Inventoried
  leases : InstanceAt → Option InstanceLease
  /-- The instances there are; `true`: it runs. -/
  living : InstanceAt → Option Bool
  /-- Requests that have removed a tenant's policy and not its leases. -/
  drops : List Uuid
  extensions : List (InstanceAt × LeasePolicy × LeaseRead)
  passes : List LeasePass
  jobs : List LeaseJob

inductive LeasingAction
  | setPolicy (tenant : Uuid) (policy : Option LeasePolicy)
  | dropTenantLeases (i : ℕ)
  | place (key : InstanceAt) (tenant : Option Uuid)
  | live (key : InstanceAt) (running : Option Bool)
  | applySnapshot (instances : List Inventoried)
  | readLease (key : InstanceAt) (policy : LeasePolicy)
  | updateLease (i : ℕ) (now : Int)
  | setLease (key : InstanceAt) (tenantId : Uuid) (expiresAt : Option Int)
  /-- `scheduleLeases` begins, with its first `select`. -/
  | scheduleLeases (now : Int)
  | handOut (i : ℕ)
  | selectEnded (i : ℕ)
  /-- `busy`: a job of another type is active on the instance. -/
  | enqueueJob (i : ℕ) (busy : Bool)
  | markActed (i : ℕ)
  | abandon (i : ℕ)
  | launch (j : ℕ)
  | leaseOf (j : ℕ) (now : Int)
  | readInstance (j : ℕ)
  | stopInstance (j : ℕ)
  | deleteInstance (j : ℕ)
  | forgetLease (j : ℕ)
  | recordStop (j : ℕ) (now : Int)
  | interrupt (j : ℕ)
  | fail (j : ℕ)

namespace Leasing

variable (s : Leasing)

def unleased : List Unleased :=
  s.instances.filterMap fun inst => do
    let tenant ← s.placements inst.key
    let policy ← s.policies tenant
    if s.leases inst.key = none then some ⟨inst.key, tenant, policy⟩ else none

/-- The ended leases whose action is still to take: a delete, or a stop of an instance the inventory
has seen running since the last stop. -/
def ended (now : Int) : List LeaseDue :=
  s.instances.filterMap fun inst => do
    let lease ← s.leases inst.key
    let policy ← s.policies lease.tenantId
    let expiresAt ← lease.expiresAt
    if expiresAt < now ∧ lease.actedAt.all (· < inst.seenAt) ∧
        ¬ (policy.action = .stop ∧ inst.running = false) then
      some ⟨inst.key, lease.tenantId, policy.action⟩
    else none

def onPass (i : ℕ) (f : LeasePass → Option Leasing) : Option Leasing :=
  (s.passes[i]?).bind f

def setPass (i : ℕ) (p : LeasePass) (phase : SchedulePhase) : Leasing :=
  { s with passes := s.passes.set i { p with phase := phase } }

def setLeaseRow (k : InstanceAt) (row : Option InstanceLease) : Leasing :=
  { s with leases := update s.leases k row }

def onJob (j : ℕ) (phase : LeaseJobPhase) (f : LeaseJob → Option Leasing) : Option Leasing :=
  match s.jobs[j]? with
  | some job => if job.phase = phase then f job else none
  | none => none

def setJob (j : ℕ) (job : LeaseJob) : Leasing := { s with jobs := s.jobs.set j job }

/-- `leaseHandler` up to where it knows that the lease has ended. -/
def handlerRead (now : Int) (job : LeaseJob) : LeaseJob :=
  match s.leases job.key with
  | none => { job with phase := .ended }
  | some lease =>
    match lease.expiresAt with
    | none => { job with phase := .ended }
    | some expiresAt =>
      if now < expiresAt then { job with phase := .ended }
      else { job with phase := .due, seen := some ⟨lease, now, s.policies lease.tenantId⟩ }

def handlerInstance (job : LeaseJob) : LeaseJob :=
  match s.living job.key with
  | none => { job with phase := .gone }
  | some true => { job with phase := .stopping }
  | some false => { job with phase := .stopped }

def step : LeasingAction → Option Leasing
  | .setPolicy tenant policy =>
    some { s with
      policies := update s.policies tenant policy
      drops := if policy = none then s.drops ++ [tenant] else s.drops }
  | .dropTenantLeases i =>
    (s.drops[i]?).map fun tenant => { s with
      leases := fun k => (s.leases k).filter (·.tenantId ≠ tenant)
      drops := s.drops.eraseIdx i }
  | .place key tenant => some { s with placements := update s.placements key tenant }
  | .live key running => some { s with living := update s.living key running }
  | .applySnapshot instances => some { s with instances := instances }
  | .readLease key policy =>
    match Leases.readLease policy (s.leases key) with
    | .ok read => some { s with extensions := s.extensions ++ [(key, policy, read)] }
    | .error _ => some s
  | .updateLease i now =>
    (s.extensions[i]?).map fun (key, policy, read) =>
      let s := { s with extensions := s.extensions.eraseIdx i }
      match Leases.updateLease policy read now (s.leases key) with
      | .ok row => s.setLeaseRow key (some row)
      | .error _ => s
  | .setLease key tenantId expiresAt =>
    some (s.setLeaseRow key (some (Leases.setLease tenantId expiresAt (s.leases key))))
  | .scheduleLeases now => some { s with passes := s.passes ++ [⟨now, .handingOut s.unleased⟩] }
  | .handOut i => s.onPass i fun p =>
    match p.phase with
    | .handingOut (u :: rest) =>
      let s' := s.setPass i p (.handingOut rest)
      -- `onConflictDoNothing`
      if s.leases u.key = none then
        some (s'.setLeaseRow u.key (some ⟨u.tenantId, some (p.now + u.policy.days * dayMs), 0, none⟩))
      else some s'
    | _ => none
  | .selectEnded i => s.onPass i fun p =>
    match p.phase with
    | .handingOut [] => some (s.setPass i p (.queueing (s.ended p.now)))
    | _ => none
  | .enqueueJob i busy => s.onPass i fun p =>
    match p.phase with
    | .queueing (e :: rest) =>
      if busy || s.jobs.any fun job => job.key = e.key && job.active then
        some (s.setPass i p (.queueing rest))
      else
        some { s.setPass i p (.marking e.key rest) with
          jobs := s.jobs ++ [⟨e.key, e.action, .queued, false, none, false⟩] }
    | _ => none
  | .markActed i => s.onPass i fun p =>
    match p.phase with
    | .marking key rest =>
      some ((s.setPass i p (.queueing rest)).setLeaseRow key
        ((s.leases key).map fun lease => { lease with actedAt := some p.now }))
    | _ => none
  | .abandon i => s.onPass i fun p => some (s.setPass i p (.queueing []))
  | .launch j => s.onJob j .queued fun job => some (s.setJob j { job with phase := .launched })
  | .leaseOf j now => s.onJob j .launched fun job => some (s.setJob j (s.handlerRead now job))
  | .readInstance j => s.onJob j .due fun job => some (s.setJob j (s.handlerInstance job))
  | .stopInstance j => s.onJob j .stopping fun job =>
    some { s.setJob j { job with phase := .stopped, acted := true } with
      living := update s.living job.key ((s.living job.key).map fun _ => false) }
  | .deleteInstance j => s.onJob j .stopped fun job =>
    if job.action = .delete then
      some { s.setJob j { job with phase := .gone, acted := true } with
        living := update s.living job.key none }
    else none
  | .forgetLease j => s.onJob j .gone fun job =>
    some ((s.setJob j { job with phase := .ended }).setLeaseRow job.key none)
  | .recordStop j now => s.onJob j .stopped fun job =>
    if job.action = .stop then
      some ((s.setJob j { job with phase := .ended }).setLeaseRow job.key
        ((s.leases job.key).map fun lease => { lease with actedAt := some now }))
    else none
  | .interrupt j =>
    (s.jobs[j]?).bind fun job =>
      if job.phase = .queued then none else some (s.setJob j { job with interrupted := true })
  | .fail j => (s.jobs[j]?).map fun job => s.setJob j { job with phase := .ended }

end Leasing

end IncusCloud.Leases
