import IncusCloud.Leases.Leases

/-!
# Instances that take over a name

The same handlers and passes as in `Fleet/Lifecycle.lean`, with the leases `scheduleLeases` hands
out, for a cluster whose events may be lost. What an instance leaves under its name is told apart
from what its successor gets: instances are numbered in the order they come, and a row carries the
number of the instance it was made for. Nothing reads the numbers, nor `made`, `passes`, `absentTo`
and `sweptBy`, which keep what has happened.
-/

namespace IncusCloud.Fleet

open Lib Acl Leases
open Function (update)

/-! ### Rows -/

structure Marked (V : Type) where
  row : V
  of : ℕ

structure MarkedLease where
  lease : InstanceLease
  of : ℕ
  actedOf : Option ℕ

/-- `recordOwner`, for an instance. -/
def recordOwnerOf (t : InstanceKey → Option (Marked Owner)) (k : InstanceKey)
    (subject : Bool × Uuid) (source : OwnerSource) (of : ℕ) : InstanceKey → Option (Marked Owner) :=
  match t k with
  | none => update t k (some ⟨⟨some subject, source⟩, of⟩)
  | some old =>
    if source ≠ .backfill ∧ sourceRank old.row.source ≤ sourceRank source then
      update t k (some ⟨⟨some subject, source⟩, of⟩)
    else t

/-- A row of `instances`. -/
structure Seen where
  key : InstanceKey
  of : ℕ
  running : Bool
  seenAt : Int

/-! ### Handlers and passes -/

namespace LifecycleEvent

def keys : LifecycleEvent → List InstanceKey
  | .created key _ => [key]
  | .renamed project old name => [⟨project, old⟩, ⟨project, name⟩]
  | .deleted key => [key]

end LifecycleEvent

structure EventHandler where
  event : LifecycleEvent
  of : ℕ
  stage : Stage

/-- `collected`'s snapshot says which instance has a name and whether it runs. -/
inductive NumberedPass
  | idle
  | collected (no : ℕ) (snapshot : List (InstanceKey × ℕ × Bool))
  | applied (no : ℕ)
  | sweeping (no : ℕ) (gone : List ℕ)
  | swept (no : ℕ)
  | filling (no : ℕ) (orphans : List (InstanceKey × ℕ))

structure Handout where
  key : InstanceKey
  of : ℕ
  lease : InstanceLease

/-- What a pass of `scheduleLeases` has still to do: leases to hand out, then acted times to set. -/
inductive ScheduleRest
  | handingOut (rest : List Handout)
  | marking (rest : List (InstanceKey × ℕ))

structure LeaseSchedule where
  now : Int
  rest : ScheduleRest

def NumberedPass.named : NumberedPass → List (InstanceKey × ℕ)
  | .collected _ snapshot => snapshot.map fun x => (x.1, x.2.1)
  | .filling _ orphans => orphans
  | _ => []

def LeaseSchedule.named (p : LeaseSchedule) : List (InstanceKey × ℕ) :=
  match p.rest with
  | .handingOut rest => rest.map fun h => (h.key, h.of)
  | .marking rest => rest

/-! ### The cluster -/

structure Succession where
  born : ℕ
  living : OrdMap InstanceKey ℕ
  handlers : List EventHandler
  owners : InstanceKey → Option (Marked Owner)
  leases : InstanceKey → Option MarkedLease
  entries : List EntryRow
  inventory : List Seen
  pass : NumberedPass
  schedules : List LeaseSchedule
  made : InstanceKey → Option ℕ
  passes : ℕ
  /-- The passes that read the cluster without the name since it was last given up. -/
  absentTo : InstanceKey → List ℕ
  sweptBy : List ℕ

inductive SuccessionAction
  /-- Something happens in Incus; its event may be lost. -/
  | incus (event : LifecycleEvent) (delivered : Bool)
  | handle (i : ℕ)
  /-- The inventory pass, as in `ClusterAction`. -/
  | collect (running : InstanceKey → Bool)
  | applySnapshot (now : Int)
  | sweep
  | deleteSwept
  | orphans (placed : List Name)
  | backfill (owner : Option Uuid)
  | fail
  /-- `scheduleLeases` begins; `tenantOf` are the placements, `policyOf` the tenants' policies. -/
  | scheduleLeases (now : Int) (tenantOf : Name → Option Uuid) (policyOf : Uuid → Option LeasePolicy)
  | handOut (i : ℕ)
  | selectEnded (i : ℕ) (policyOf : Uuid → Option LeasePolicy)
  /-- A job is queued, unless one is active on the instance, and `acted_at` set. -/
  | markActed (i : ℕ) (queued : Bool)
  | abandon (i : ℕ)

namespace Succession

variable (s : Succession)

def possible : LifecycleEvent → Bool
  | .created key _ => (s.living.get key).isNone
  | .renamed project old name =>
    (s.living.get ⟨project, old⟩).isSome && (s.living.get ⟨project, name⟩).isNone
  | .deleted key => (s.living.get key).isSome

def giveUp (k : InstanceKey) : Succession :=
  { s with made := update s.made k none, absentTo := update s.absentTo k [] }

/-- What Incus has after an event, and the instance it is about. -/
def happen : LifecycleEvent → Succession × ℕ
  | .created key _ =>
    ({ s with
        born := s.born + 1
        living := s.living ++ [(key, s.born)]
        made := update s.made key (some s.born) }, s.born)
  | .renamed project old name =>
    ({ s.giveUp ⟨project, old⟩ with
        living := s.living.map fun e => if e.1 = ⟨project, old⟩ then (⟨project, name⟩, e.2) else e },
      (s.living.get ⟨project, old⟩).getD 0)
  | .deleted key =>
    ({ s.giveUp key with living := s.living.erase key }, (s.living.get key).getD 0)

/-- The handler of event `i` has come to `stage`. -/
def reach (i : ℕ) (h : EventHandler) (stage : Stage) : Succession :=
  { s with handlers := s.handlers.set i { h with stage := stage } }

/-- `onLifecycle`, one statement of it; one that fails ends the handler. -/
def onLifecycle (cluster : Name) (s : Succession) (i : ℕ) (h : EventHandler) : Succession :=
  match h.event, h.stage with
  | .created key (some subject), .owners =>
    { s with owners := recordOwnerOf s.owners key subject .event h.of }.reach i h .ended
  | .created _ none, .owners => s.reach i h .ended
  | .renamed project old name, .owners =>
    match rekey s.owners ⟨project, old⟩ ⟨project, name⟩ with
    | some owners => { s with owners := owners }.reach i h .leases
    | none => s.reach i h .ended
  | .renamed project old name, .leases =>
    match rekey s.leases ⟨project, old⟩ ⟨project, name⟩ with
    | some leases => { s with leases := leases }.reach i h .entries
    | none => s.reach i h .ended
  | .renamed project old name, .entries =>
    match moveEntries s.entries (instancePath cluster ⟨project, old⟩)
        (instancePath cluster ⟨project, name⟩) with
    | some entries => { s with entries := entries }.reach i h .ended
    | none => s.reach i h .ended
  | .deleted key, .owners => { s with owners := forget s.owners key }.reach i h .leases
  | .deleted key, .leases => { s with leases := forget s.leases key }.reach i h .entries
  | .deleted key, .entries =>
    { s with entries := s.entries.filter fun r => !entriesUnder (instancePath cluster key) r }.reach i h
      .ended
  | _, _ => s

def unleased (now : Int) (tenantOf : Name → Option Uuid)
    (policyOf : Uuid → Option LeasePolicy) : List Handout :=
  s.inventory.filterMap fun x => do
    let tenant ← tenantOf x.key.project
    let policy ← policyOf tenant
    if s.leases x.key = none then
      some ⟨x.key, x.of, ⟨tenant, some (now + policy.days * dayMs), 0, none⟩⟩
    else none

def ended (now : Int) (policyOf : Uuid → Option LeasePolicy) : List (InstanceKey × ℕ) :=
  s.inventory.filterMap fun x => do
    let marked ← s.leases x.key
    let policy ← policyOf marked.lease.tenantId
    let expiresAt ← marked.lease.expiresAt
    if expiresAt < now ∧ marked.lease.actedAt.all (· < x.seenAt) ∧
        ¬ (policy.action = .stop ∧ x.running = false) then some (x.key, x.of) else none

/-- A pass of `scheduleLeases` goes on. -/
def onSchedule (i : ℕ) (f : LeaseSchedule → Option Succession) : Option Succession :=
  (s.schedules[i]?).bind f

def setSchedule (i : ℕ) (p : LeaseSchedule) (rest : ScheduleRest) : Succession :=
  { s with schedules := s.schedules.set i { p with rest := rest } }

def step (cluster : Name) (s : Succession) : SuccessionAction → Option Succession
  | .incus e delivered =>
    if s.possible e then
      let (s', of) := s.happen e
      some { s' with handlers := if delivered then s'.handlers ++ [⟨e, of, .owners⟩] else s'.handlers }
    else none
  | .handle i =>
    match s.handlers[i]? with
    | some h => if h.stage = .ended then none else some (s.onLifecycle cluster i h)
    | none => none
  | .collect running =>
    match s.pass with
    | .idle =>
      some { s with
        pass := .collected s.passes (s.living.map fun x => (x.1, (s.living.get x.1).getD 0, running x.1))
        passes := s.passes + 1
        absentTo := fun k => if s.living.get k = none then s.passes :: s.absentTo k else s.absentTo k }
    | _ => none
  | .applySnapshot now =>
    match s.pass with
    | .collected no snapshot =>
      some { s with
        inventory := snapshot.map fun x => ⟨x.1, x.2.1, x.2.2, now⟩
        pass := .applied no }
    | _ => none
  | .sweep =>
    match s.pass with
    | .applied no =>
      some { s with pass := .sweeping no (goneEntries cluster (s.inventory.map (·.key)) s.entries) }
    | _ => none
  | .deleteSwept =>
    match s.pass with
    | .sweeping no gone =>
      some { s with
        entries := s.entries.filter (·.id ∉ gone)
        pass := .swept no
        sweptBy := no :: s.sweptBy }
    | _ => none
  | .orphans placed =>
    match s.pass with
    | .swept no =>
      some { s with
        pass := .filling no ((s.inventory.filter fun x =>
          x.key.project ∈ placed ∧ (s.owners x.key).isNone).map fun x => (x.key, x.of)) }
    | _ => none
  | .backfill owner =>
    match s.pass with
    | .filling no (x :: orphans) =>
      match owner with
      | some id =>
        some { s with
          owners := recordOwnerOf s.owners x.1 (false, id) .backfill x.2
          pass := .filling no orphans }
      | none => some { s with pass := .filling no orphans }
    | .filling _ [] => some { s with pass := .idle }
    | _ => none
  | .fail => some { s with pass := .idle }
  | .scheduleLeases now tenantOf policyOf =>
    some { s with
      schedules := s.schedules ++ [⟨now, .handingOut (s.unleased now tenantOf policyOf)⟩] }
  | .handOut i => s.onSchedule i fun p =>
    match p.rest with
    | .handingOut (h :: rest) =>
      let s' := s.setSchedule i p (.handingOut rest)
      -- `onConflictDoNothing`
      if s.leases h.key = none then
        some { s' with leases := update s.leases h.key (some ⟨h.lease, h.of, none⟩) }
      else some s'
    | _ => none
  | .selectEnded i policyOf => s.onSchedule i fun p =>
    match p.rest with
    | .handingOut [] => some (s.setSchedule i p (.marking (s.ended p.now policyOf)))
    | _ => none
  | .markActed i queued => s.onSchedule i fun p =>
    match p.rest with
    | .marking (x :: rest) =>
      let s' := s.setSchedule i p (.marking rest)
      if queued then
        some { s' with
          leases := update s.leases x.1 ((s.leases x.1).map fun l =>
            { l with lease := { l.lease with actedAt := some p.now }, actedOf := some x.2 }) }
      else some s'
    | _ => none
  | .abandon i => s.onSchedule i fun p => some (s.setSchedule i p (.marking []))

end Succession

end IncusCloud.Fleet
