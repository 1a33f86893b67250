import IncusCloud.Reconcile.Worker

/-!
# The job loop

`jobs/runner.ts`, `jobs/queue.ts` and the cancel route of `api/jobs.ts`: any number of runners, each
ticking while it gets the lease, each running a few handlers at a time. A step is what happens
between two awaits, so the select, the claim and the launch of one job are three steps, and so are
the end of a handler, the write of its outcome and its removal from `active`. A runner that stalls
goes on after another has taken the lease over, and every time it writes or compares is by its own
clock.

`claims` and `launches` are history: no function of the source reads them.
-/

namespace IncusCloud.Jobs

open Reconcile (Lease acquireLease releaseLease)

inductive JobState
  | queued | running | succeeded | failed | cancelled
  deriving DecidableEq

inductive Ending
  | succeeded | failed | cancelled
  deriving DecidableEq

def Ending.state : Ending → JobState
  | succeeded => .succeeded
  | failed => .failed
  | cancelled => .cancelled

def JobState.final : JobState → Bool
  | queued => false
  | running => false
  | _ => true

variable {Id : Type} [DecidableEq Id]

/-- A row of `jobs`, as the runners and the cancel route read and write it. -/
structure JobRow (Id : Type) where
  id : Id
  type : String
  state : JobState
  holder : Option String
  heartbeatAt : Option Int
  cancelRequested : Bool
  createdAt : Int

/-- `update jobs … where id = id and p`. -/
def updateJob (jobs : List (JobRow Id)) (id : Id) (p : JobRow Id → Bool)
    (f : JobRow Id → JobRow Id) : List (JobRow Id) :=
  jobs.map fun j => if j.id = id ∧ p j then f j else j

/-- Some row the `where` finds: what `returning` is empty without. -/
def hits (jobs : List (JobRow Id)) (id : Id) (p : JobRow Id → Bool) : Bool :=
  jobs.any fun j => j.id = id ∧ p j

/-! ### Runners -/

/-- A handler in `active`. -/
inductive HandlerPhase
  | running (aborted : Bool)
  /-- It has ended, and `finish` is about to write how. -/
  | finishing (ending : Ending)
  | finished
  deriving DecidableEq

inductive TickPhase (Id : Type)
  | idle
  | acquired
  | swept
  | looping
  | selecting
  | chosen (id : Id)
  | claimed (id : Id)

/-- A `JobRunner`. -/
structure Runner (Id : Type) where
  holder : String
  handlers : List String
  concurrency : ℕ
  leaseMs : Int
  stopped : Bool
  phase : TickPhase Id
  active : List (Id × HandlerPhase)

/-- The jobs a tick fails as interrupted: running, another holder's, without a heartbeat since. -/
def stale (holder : String) (staleBefore : Int) (j : JobRow Id) : Bool :=
  j.state = .running && j.holder.any (· ≠ holder) && j.heartbeatAt.any (· < staleBefore)

def next (jobs : List (JobRow Id)) : Option (JobRow Id) :=
  ((jobs.filter fun j => j.state = .queued).insertionSort fun a b => a.createdAt ≤ b.createdAt).head?

/-- What the catch of `run` records. -/
def thrown (stopped aborted : Bool) : Ending :=
  if stopped then .failed else if aborted then .cancelled else .failed

/-- The handler of `id` as it is from now on. -/
def setHandler (active : List (Id × HandlerPhase)) (id : Id) (p : HandlerPhase) :
    List (Id × HandlerPhase) :=
  active.map fun e => if e.1 = id then (id, p) else e

/-! ### The system -/

/-- A cancel request: before its first statement, or before its second. -/
inductive CancelPhase
  | asked | notQueued | answered

structure Queue (Id : Type) where
  now : Int
  jobs : List (JobRow Id)
  lease : Option Lease
  runners : List (Runner Id)
  cancels : List (Id × CancelPhase)
  claims : List (Id × ℕ)
  launches : List Id

namespace Queue

def boot : Queue Id := ⟨0, [], none, [], [], [], []⟩

/-- Runner `i` as it is from now on. -/
def put (q : Queue Id) (i : ℕ) (r : Runner Id) : Queue Id := { q with runners := q.runners.set i r }

end Queue

inductive Action (Id : Type)
  | clock (now : Int)
  | enqueue (id : Id) (type : String) (createdAt : Int)
  | join (holder : String) (handlers : List String) (concurrency : ℕ) (leaseMs : Int)
  | tick (i : ℕ)
  | sweep (i : ℕ) (staleBefore : Int)
  | beforeTick (i : ℕ)
  | loop (i : ℕ)
  | select (i : ℕ)
  | claim (i : ℕ) (now : Int)
  | launch (i : ℕ)
  | fail (i : ℕ)
  | beat (i : ℕ) (id : Id) (now : Int)
  /-- A handler of runner `i` returns (`ok`) or throws. -/
  | handlerEnds (i : ℕ) (id : Id) (ok : Bool)
  | finish (i : ℕ) (id : Id)
  | settle (i : ℕ) (id : Id)
  | stop (i : ℕ)
  /-- `stop` aborts what is active, once the tick is over. -/
  | abort (i : ℕ)
  | release (i : ℕ)
  | start (i : ℕ)
  | crash (i : ℕ)
  | cancel (id : Id)
  | cancelStep (k : ℕ)

namespace Queue

def step (q : Queue Id) : Action Id → Option (Queue Id)
  | .clock now => some { q with now := now }
  -- An id is random: never one that was there before.
  | .enqueue id type createdAt =>
    if q.jobs.any fun j => j.id = id then none
    else some { q with jobs := q.jobs ++ [⟨id, type, .queued, none, none, false, createdAt⟩] }
  | .join holder handlers concurrency leaseMs =>
    some
      { q with runners := q.runners ++ [⟨holder, handlers, concurrency, leaseMs, false, .idle, []⟩] }
  | .tick i =>
    match q.runners[i]? with
    | some ⟨holder, handlers, n, ms, false, .idle, active⟩ =>
      let (row, held) := acquireLease q.lease holder ms q.now
      some
        { q.put i ⟨holder, handlers, n, ms, false, if held then .acquired else .idle, active⟩ with
          lease := row }
    | _ => none
  | .sweep i staleBefore =>
    match q.runners[i]? with
    | some ⟨holder, handlers, n, ms, stopped, .acquired, active⟩ =>
      some
        { q.put i ⟨holder, handlers, n, ms, stopped, .swept, active⟩ with
          jobs := q.jobs.map fun j =>
            if stale holder staleBefore j then { j with state := .failed } else j }
    | _ => none
  -- The schedulers only queue jobs; what they throw is logged.
  | .beforeTick i =>
    match q.runners[i]? with
    | some ⟨holder, handlers, n, ms, stopped, .swept, active⟩ =>
      some (q.put i ⟨holder, handlers, n, ms, stopped, .looping, active⟩)
    | _ => none
  | .loop i =>
    match q.runners[i]? with
    | some ⟨holder, handlers, n, ms, stopped, .looping, active⟩ =>
      let phase := if !stopped && active.length < n then .selecting else .idle
      some (q.put i ⟨holder, handlers, n, ms, stopped, phase, active⟩)
    | _ => none
  | .select i =>
    match q.runners[i]? with
    | some ⟨holder, handlers, n, ms, stopped, .selecting, active⟩ =>
      let phase := ((next q.jobs).map fun j => .chosen j.id).getD .idle
      some (q.put i ⟨holder, handlers, n, ms, stopped, phase, active⟩)
    | _ => none
  | .claim i now =>
    match q.runners[i]? with
    | some ⟨holder, handlers, n, ms, stopped, .chosen id, active⟩ =>
      if hits q.jobs id fun j => j.state = .queued then
        some
          { q.put i ⟨holder, handlers, n, ms, stopped, .claimed id, active⟩ with
            jobs := updateJob q.jobs id (fun j => j.state = .queued) fun j =>
              { j with state := .running, holder := some holder, heartbeatAt := some now }
            claims := (id, i) :: q.claims }
      else some (q.put i ⟨holder, handlers, n, ms, stopped, .looping, active⟩)
    | _ => none
  | .launch i =>
    match q.runners[i]? with
    | some ⟨holder, handlers, n, ms, stopped, .claimed id, active⟩ =>
      if q.jobs.any fun j => j.id = id && handlers.contains j.type then
        some
          { q.put i ⟨holder, handlers, n, ms, stopped, .looping, active ++ [(id, .running false)]⟩ with
            launches := id :: q.launches }
      -- A job no handler is for ends at once.
      else
        some
          (q.put i
            ⟨holder, handlers, n, ms, stopped, .looping, active ++ [(id, .finishing .failed)]⟩)
    | _ => none
  | .fail i => q.runners[i]?.map fun r => q.put i { r with phase := .idle }
  | .beat i id now =>
    match q.runners[i]? with
    | some r =>
      if r.active.any fun e => e.1 = id then
        let cancel := hits q.jobs id fun j => j.cancelRequested
        some
          { q.put i
              { r with
                active := r.active.map fun e =>
                  if e.1 = id ∧ cancel ∧ e.2 = .running false then (id, .running true) else e } with
            jobs := updateJob q.jobs id (fun _ => true) fun j => { j with heartbeatAt := some now } }
      else none
    | none => none
  | .handlerEnds i id ok =>
    match q.runners[i]? with
    | some r =>
      match r.active.find? fun e => e.1 = id with
      | some (_, .running aborted) =>
        let ending := if ok then .succeeded else thrown r.stopped aborted
        some (q.put i { r with active := setHandler r.active id (.finishing ending) })
      | _ => none
    | none => none
  | .finish i id =>
    match q.runners[i]? with
    | some r =>
      match r.active.find? fun e => e.1 = id with
      | some (_, .finishing ending) =>
        some
          { q.put i { r with active := setHandler r.active id .finished } with
            jobs := updateJob q.jobs id (fun _ => true) fun j =>
              { j with state := ending.state } }
      | _ => none
    | none => none
  | .settle i id =>
    match q.runners[i]? with
    | some r =>
      match r.active.find? fun e => e.1 = id with
      | some (_, .finished) =>
        some (q.put i { r with active := r.active.filter fun e => e.1 ≠ id })
      | _ => none
    | none => none
  | .stop i => q.runners[i]?.map fun r => q.put i { r with stopped := true }
  | .abort i =>
    match q.runners[i]? with
    | some ⟨holder, handlers, n, ms, true, .idle, active⟩ =>
      some
        (q.put i
          ⟨holder, handlers, n, ms, true, .idle,
            active.map fun e => if e.2 = .running false then (e.1, .running true) else e⟩)
    | _ => none
  | .release i =>
    match q.runners[i]? with
    | some ⟨holder, _, _, _, true, .idle, []⟩ =>
      some { q with lease := releaseLease q.lease holder }
    | _ => none
  | .start i =>
    match q.runners[i]? with
    | some ⟨holder, handlers, n, ms, true, .idle, active⟩ =>
      some (q.put i ⟨holder, handlers, n, ms, false, .idle, active⟩)
    | _ => none
  | .crash i =>
    q.runners[i]?.map fun r => q.put i { r with stopped := true, phase := .idle, active := [] }
  | .cancel id => some { q with cancels := q.cancels ++ [(id, .asked)] }
  | .cancelStep k =>
    match q.cancels[k]? with
    | some (id, .asked) =>
      if hits q.jobs id fun j => j.state = .queued then
        some
          { q with
            cancels := q.cancels.set k (id, .answered)
            jobs := updateJob q.jobs id (fun j => j.state = .queued) fun j =>
              { j with state := .cancelled, cancelRequested := true } }
      else some { q with cancels := q.cancels.set k (id, .notQueued) }
    | some (id, .notQueued) =>
      some
        { q with
          cancels := q.cancels.set k (id, .answered)
          jobs := updateJob q.jobs id (fun j => j.state = .running) fun j =>
            { j with cancelRequested := true } }
    | _ => none

end Queue

end IncusCloud.Jobs
