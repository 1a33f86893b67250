import IncusCloud.Tenants.Quota

/-!
# Creates under a quota

Everything that bears on a tenant's quota: `POST /api/v1/tenants/:id/instances` and `pendingOf` of
`api/tenant-cloud.ts`, the create jobs of `tenants/create-job.ts` and the part of a reconcile pass
of `reconcile/cluster.ts` that reads a project's usage and limits the project.

A request decides under a lock, but each of its reads sees what is committed then. A job's request
to Incus may be acted on at any later time, also when the job no longer waits for it, and the job
may end at any time. `seen` and the like are history: how many instances there were when a usage
was read.
-/

namespace IncusCloud.Tenants

/-- What a create asks for: `CreatePayload`. -/
structure CreatePayload where
  cpu : ℕ
  memory : ℕ
  disk : ℕ

def CreatePayload.usage (p : CreatePayload) : Usage
  | .instances => 1
  | .cpu => p.cpu
  | .memory => p.memory
  | .disk => p.disk

/-- What instances are given, as Incus counts it for `limits.*`. -/
def usageOf (given : List CreatePayload) : Usage := fun k => (given.map fun p => p.usage k).sum

structure Place where
  usage : Option Usage
  seen : ℕ
  given : List CreatePayload
  /-- The project's limits; there is none before a pass makes it. -/
  limits : Option Limits

def Place.projectUsage (p : Place) : Option Usage := p.limits.map fun _ => usageOf p.given

def Place.admits (p : Place) (x : CreatePayload) : Bool :=
  p.limits.any fun l => quotaKeys.all fun k => (l k).all fun n => usageOf p.given k + x.usage k ≤ n

inductive JobState
  | queued | running | succeeded | failed
  deriving DecidableEq

inductive Incus
  | unsent | accepted | refused
  /-- It has made the instance, the `index`-th of the project. -/
  | made (index : ℕ)
  deriving DecidableEq

def Incus.isMade : Incus → Bool
  | .made _ => true
  | _ => false

structure CreateJob where
  place : ℕ
  payload : CreatePayload
  state : JobState
  incus : Incus
  read : Option (Usage × ℕ)

def CreateJob.active (j : CreateJob) : Bool := j.state = .queued || j.state = .running

inductive PassPhase
  | read (usage : Option Usage) (seen : ℕ)
  | stored
  | split (limits : Limits)
  | ended

structure ReconcilePass where
  place : ℕ
  phase : PassPhase

inductive Check
  | free
  | locked (place : ℕ) (payload : CreatePayload)
  | summed (place : ℕ) (payload : CreatePayload) (usages : List (Option Usage)) (seen : List ℕ)
  | within (place : ℕ) (payload : CreatePayload)

structure Tenant where
  quotas : Quotas
  places : List Place
  jobs : List CreateJob
  passes : List ReconcilePass
  check : Check

inductive TenantAction
  /-- A request takes the lock, reads the placements' usages, then the pending creates, and queues
  its job; or is refused for another reason, or fails. -/
  | lock (place : ℕ) (payload : CreatePayload)
  | readUsages
  | readPending
  | enqueue
  | abandon
  /-- A job starts, sends its request, reads its project's usage, stores it, and ends. -/
  | start (j : ℕ)
  | post (j : ℕ)
  | readUsage (j : ℕ)
  | storeUsage (j : ℕ)
  | finish (j : ℕ) (succeeds : Bool)
  | make (j : ℕ)
  | refuse (j : ℕ)
  /-- A pass over a placement reads the project's usage, stores it, splits what is left of the
  quota, and limits the project; or stops. -/
  | passRead (place : ℕ)
  | passStore (p : ℕ)
  | passSplit (p : ℕ)
  | passLimit (p : ℕ)
  | passStop (p : ℕ)

namespace Tenant

/-- Resources asked for by creates not finished yet: they count against the quota until their usage
is recorded. -/
def pendingOf (t : Tenant) : Usage :=
  sumUsage ((t.jobs.filter (·.active)).map fun j => some j.payload.usage)

/-- `placements.usage` is set. -/
def storeAt (t : Tenant) (i : ℕ) (usage : Option Usage) (seen : ℕ) : Tenant :=
  { t with places := t.places.modify i fun p => { p with usage := usage, seen := seen } }

def setJob (t : Tenant) (j : ℕ) (job : CreateJob) : Tenant := { t with jobs := t.jobs.set j job }

def setPass (t : Tenant) (p : ℕ) (place : ℕ) (phase : PassPhase) : Tenant :=
  { t with passes := t.passes.set p ⟨place, phase⟩ }

def step (t : Tenant) : TenantAction → Option Tenant
  | .lock place payload =>
    match t.check with
    | .free => if place < t.places.length then some { t with check := .locked place payload } else none
    | _ => none
  | .readUsages =>
    match t.check with
    | .locked place payload =>
      some
        { t with
          check := .summed place payload (t.places.map (·.usage)) (t.places.map (·.seen)) }
    | _ => none
  | .readPending =>
    match t.check with
    | .summed place payload usages _ =>
      let used := sumUsage (usages ++ [some t.pendingOf])
      if exceeds t.quotas used payload.usage = [] then some { t with check := .within place payload }
      else some { t with check := .free }
    | _ => none
  | .enqueue =>
    match t.check with
    | .within place payload =>
      some { t with jobs := t.jobs ++ [⟨place, payload, .queued, .unsent, none⟩], check := .free }
    | _ => none
  | .abandon => some { t with check := .free }
  | .start j =>
    match t.jobs[j]? with
    | some job => if job.state = .queued then some (t.setJob j { job with state := .running }) else none
    | none => none
  | .post j =>
    match t.jobs[j]? with
    | some job =>
      if job.state = .running ∧ job.incus = .unsent then
        some (t.setJob j { job with incus := .accepted })
      else none
    | none => none
  | .readUsage j =>
    match t.jobs[j]? with
    | some job =>
      match job.incus, t.places[job.place]? with
      | .made _, some p =>
        -- A read that fails is as good as none: the job goes on without it.
        if job.state = .running then
          some (t.setJob j { job with read := p.projectUsage.map (·, p.given.length) })
        else none
      | _, _ => none
    | none => none
  | .storeUsage j =>
    match t.jobs[j]? with
    | some job =>
      match job.read with
      | some (usage, seen) =>
        if job.state = .running then
          some ((t.storeAt job.place (some usage) seen).setJob j { job with read := none })
        else none
      | none => none
    | none => none
  | .finish j succeeds =>
    match t.jobs[j]? with
    | some job =>
      match succeeds, job.incus with
      | true, .made _ =>
        if job.state = .running then some (t.setJob j { job with state := .succeeded }) else none
      | true, _ => none
      | false, _ => if job.active then some (t.setJob j { job with state := .failed }) else none
    | none => none
  | .make j =>
    match t.jobs[j]? with
    | some job =>
      match job.incus, t.places[job.place]? with
      | .accepted, some p =>
        if p.admits job.payload then
          some
            ({ t with
                places := t.places.modify job.place fun p =>
                  { p with given := p.given ++ [job.payload] } }.setJob j
              { job with incus := .made p.given.length })
        else some (t.setJob j { job with incus := .refused })
      | _, _ => none
    | none => none
  | .refuse j =>
    match t.jobs[j]? with
    | some job =>
      if job.incus = .accepted then some (t.setJob j { job with incus := .refused }) else none
    | none => none
  | .passRead i =>
    match t.places[i]? with
    | some p =>
      some { t with passes := t.passes ++ [⟨i, .read p.projectUsage p.given.length⟩] }
    | none => none
  | .passStore p =>
    match t.passes[p]? with
    | some ⟨i, .read usage seen⟩ => some ((t.storeAt i usage seen).setPass p i .stored)
    | _ => none
  | .passSplit p =>
    match t.passes[p]? with
    | some ⟨i, .stored⟩ =>
      (splitLimits t.quotas (t.places.map (·.usage)))[i]?.map fun l => t.setPass p i (.split l)
    | _ => none
  | .passLimit p =>
    match t.passes[p]? with
    | some ⟨i, .split l⟩ =>
      some
        ({ t with places := t.places.modify i fun p => { p with limits := some l } }.setPass p i .ended)
    | _ => none
  | .passStop p =>
    match t.passes[p]? with
    | some ⟨i, _⟩ => some (t.setPass p i .ended)
    | none => none

/-- What the tenant has and what its creates ask for; an instance whose create still runs counts
once. -/
def total (t : Tenant) : Usage := fun k =>
  (t.places.map fun p => usageOf p.given k).sum +
    ((t.jobs.filter fun j => j.active && !j.incus.isMade).map fun j =>
      j.payload.usage k).sum

end Tenant

end IncusCloud.Tenants
