import Mathlib.Data.List.Sort

/-!
# The reconciler loop

`reconcile/worker.ts` and `reconcile/requests.ts`: requests bump a cluster's generation, and a tick
of a replica reads the generations of the due clusters, visits them one at a time and records, after
each visit, the generation it read. A step is what happens between two awaits. A replica that
stalls keeps going after it lost the lease, so ticks of several replicas may overlap.

`tick`, `enrolled`, `requests` and `passes` are history: no function of the source reads them.

`reconcile/lease.ts`: one row per loop, taken or renewed in one statement by the clock of the
database. A holder that stalls past the end loses the lease without being told.
-/

namespace IncusCloud.Reconcile

/-- A row of `leases`. -/
structure Lease where
  holder : String
  expiresAt : Int

/-- `acquireLease`: the row afterwards, and whether `holder` holds it for the next `ttlMs`. -/
def acquireLease (row : Option Lease) (holder : String) (ttlMs now : Int) : Option Lease × Bool :=
  let taken : Lease := ⟨holder, now + max 1 ttlMs⟩
  match row with
  | none => (some taken, true)
  | some l => if l.holder = holder ∨ l.expiresAt < now then (some taken, true) else (some l, false)

def releaseLease (row : Option Lease) (holder : String) : Option Lease :=
  row.filter fun l => l.holder ≠ holder

/-! ### The loop -/

inductive ClusterStatus
  | pending | ready | degraded | error | disabled
  deriving DecidableEq

variable {Id Tenant : Type} [DecidableEq Id] [DecidableEq Tenant]

/-- `clusters`, as the loop reads and writes it. -/
structure ReconcileRow (Id : Type) where
  id : Id
  name : String
  status : ClusterStatus
  reconciledAt : Option Int
  reconcileRequestedAt : Option Int
  reconcileGeneration : ℕ
  reconciledGeneration : ℕ

/-! ### Requests -/

/-- Whom `requestReconcile` is for. -/
inductive ReconcileTarget (Id Tenant : Type)
  | all
  | ids (ids : List Id)
  | tenant (id : Tenant)
  deriving DecidableEq

/-- The clusters a target names; a tenant's are those it is placed on. -/
def ReconcileTarget.covers (placements : List (Tenant × Id)) : ReconcileTarget Id Tenant → Id → Bool
  | all, _ => true
  | ids l, id => id ∈ l
  | tenant t, id => (t, id) ∈ placements

/-- The columns `requestReconcile` sets. -/
def ReconcileRow.request (now : Int) (r : ReconcileRow Id) : ReconcileRow Id :=
  { r with
    reconcileRequestedAt := some now
    reconcileGeneration := r.reconcileGeneration + 1 }

/-- `requestReconcile`: one `update`. -/
def requestReconcile (rows : List (ReconcileRow Id)) (now : Int) (covers : Id → Bool) :
    List (ReconcileRow Id) :=
  rows.map fun r => if covers r.id then r.request now else r

/-! ### One tick -/

structure Due (Id : Type) where
  id : Id
  name : String
  generation : ℕ

/-- The `where` of the select: requested, never reconciled, or stale. -/
def ReconcileRow.isDue (staleBefore : Int) (r : ReconcileRow Id) : Bool :=
  r.status ≠ .disabled &&
    (r.reconciledGeneration < r.reconcileGeneration || r.reconciledAt.isNone ||
      r.reconciledAt.any (· < staleBefore))

def due (rows : List (ReconcileRow Id)) (staleBefore : Int) : List (Due Id) :=
  ((rows.filter (·.isDue staleBefore)).insertionSort fun a b => a.name ≤ b.name).map fun r =>
    ⟨r.id, r.name, r.reconcileGeneration⟩

/-- The columns a tick sets after the pass over `c`. -/
def ReconcileRow.served (c : Due Id) (r : ReconcileRow Id) : ReconcileRow Id :=
  { r with
    reconciledGeneration := c.generation
    reconcileRequestedAt :=
      if r.reconcileGeneration = c.generation then none else r.reconcileRequestedAt }

def ReconcileRow.drop (r : ReconcileRow Id) : ReconcileRow Id :=
  if r.status = .disabled ∧ r.reconcileRequestedAt.isSome then
    { r with reconcileRequestedAt := none, reconciledGeneration := r.reconcileGeneration }
  else r

/-- `update clusters … where id = id`. -/
def updateRow (rows : List (ReconcileRow Id)) (id : Id) (f : ReconcileRow Id → ReconcileRow Id) :
    List (ReconcileRow Id) :=
  rows.map fun r => if r.id = id then f r else r

/-! ### Replicas -/

inductive TickPhase (Id : Type)
  | idle
  | acquired
  | visiting (todo : List (Due Id))
  | renewed (c : Due Id) (rest : List (Due Id))
  | passing (c : Due Id) (rest : List (Due Id)) (began : ℕ)
  | passed (c : Due Id) (rest : List (Due Id)) (began : ℕ)
  | sweeping

/-- A `Worker`. -/
structure Replica (Id : Type) where
  holder : String
  leaseMs : Int
  stopped : Bool
  phase : TickPhase Id

structure Made (Id : Type) where
  cluster : Id
  generation : ℕ
  made : ℕ

structure Pass (Id : Type) where
  cluster : Id
  began : ℕ
  ended : ℕ

/-- The database, the replicas, and what has happened. -/
structure Fleet (Id Tenant : Type) where
  tick : ℕ
  now : Int
  rows : List (ReconcileRow Id)
  placements : List (Tenant × Id)
  lease : Option Lease
  replicas : List (Replica Id)
  enrolled : List Id
  requests : List (Made Id)
  passes : List (Pass Id)

namespace Fleet

def boot : Fleet Id Tenant := ⟨0, 0, [], [], none, [], [], [], []⟩

/-- Replica `i` as it is from now on. -/
def put (f : Fleet Id Tenant) (i : ℕ) (w : Replica Id) : Fleet Id Tenant :=
  { f with tick := f.tick + 1, replicas := f.replicas.set i w }

/-- The lease is asked for; with it the replica goes on in `phase`, without it its tick is over. -/
def acquire (f : Fleet Id Tenant) (i : ℕ) (w : Replica Id) (phase : TickPhase Id) : Fleet Id Tenant :=
  let (row, held) := acquireLease f.lease w.holder w.leaseMs f.now
  { f.put i { w with phase := if held then phase else .idle } with lease := row }

end Fleet

inductive LoopAction (Id Tenant : Type)
  | clock (now : Int)
  | enroll (id : Id) (name : String)
  | delete (id : Id)
  | setStatus (id : Id) (status : ClusterStatus)
  | place (t : Tenant) (id : Id)
  | unplace (t : Tenant) (id : Id)
  | request (target : ReconcileTarget Id Tenant)
  | join (holder : String) (leaseMs : Int)
  | stop (i : ℕ)
  | tick (i : ℕ)
  | select (i : ℕ) (staleBefore : Int)
  /-- Replica `i` comes to the top of its loop. -/
  | visit (i : ℕ)
  | reconcile (i : ℕ)
  /-- `finish` of `reconcileCluster`: the status and the time. -/
  | finish (i : ℕ) (status : ClusterStatus)
  | passEnd (i : ℕ)
  | record (i : ℕ)
  | sweep (i : ℕ)
  | fail (i : ℕ)
  deriving DecidableEq

namespace Fleet

def step (f : Fleet Id Tenant) : LoopAction Id Tenant → Option (Fleet Id Tenant)
  | .clock now => some { f with tick := f.tick + 1, now := now }
  -- An id is random: never one that was there before.
  | .enroll id name =>
    if id ∈ f.enrolled then none
    else
      some
        { f with
          tick := f.tick + 1
          rows := f.rows ++ [⟨id, name, .pending, none, none, 0, 0⟩]
          enrolled := id :: f.enrolled }
  | .delete id =>
    some
      { f with
        tick := f.tick + 1
        rows := f.rows.filter fun r => r.id ≠ id
        placements := f.placements.filter fun p => p.2 ≠ id }
  | .setStatus id status =>
    some
      { f with tick := f.tick + 1, rows := updateRow f.rows id fun r => { r with status := status } }
  | .place t id => some { f with tick := f.tick + 1, placements := (t, id) :: f.placements }
  | .unplace t id =>
    some { f with tick := f.tick + 1, placements := f.placements.filter fun p => p ≠ (t, id) }
  | .request target =>
    let covers := target.covers f.placements
    some
      { f with
        tick := f.tick + 1
        rows := requestReconcile f.rows f.now covers
        requests :=
          ((f.rows.filter fun r => covers r.id).map fun r =>
              ⟨r.id, r.reconcileGeneration + 1, f.tick⟩) ++
            f.requests }
  | .join holder leaseMs =>
    some { f with tick := f.tick + 1, replicas := f.replicas ++ [⟨holder, leaseMs, false, .idle⟩] }
  | .stop i => f.replicas[i]?.map fun w => f.put i { w with stopped := true }
  | .tick i =>
    match f.replicas[i]? with
    | some ⟨holder, ms, stopped, .idle⟩ => some (f.acquire i ⟨holder, ms, stopped, .idle⟩ .acquired)
    | _ => none
  | .select i staleBefore =>
    match f.replicas[i]? with
    | some ⟨holder, ms, stopped, .acquired⟩ =>
      some (f.put i ⟨holder, ms, stopped, .visiting (due f.rows staleBefore)⟩)
    | _ => none
  | .visit i =>
    match f.replicas[i]? with
    | some ⟨holder, ms, stopped, .visiting []⟩ => some (f.put i ⟨holder, ms, stopped, .sweeping⟩)
    | some ⟨holder, ms, stopped, .visiting (c :: rest)⟩ =>
      if stopped then some (f.put i ⟨holder, ms, stopped, .idle⟩)
      else some (f.acquire i ⟨holder, ms, stopped, .visiting (c :: rest)⟩ (.renewed c rest))
    | _ => none
  | .reconcile i =>
    match f.replicas[i]? with
    | some ⟨holder, ms, stopped, .renewed c rest⟩ =>
      some (f.put i ⟨holder, ms, stopped, .passing c rest f.tick⟩)
    | _ => none
  | .finish i status =>
    match f.replicas[i]? with
    | some ⟨_, _, _, .passing c _ _⟩ =>
      if status ∈ [.ready, .degraded, .error] then
        some
          { f with
            tick := f.tick + 1
            rows := updateRow f.rows c.id fun r =>
              { r with status := status, reconciledAt := some f.now } }
      else none
    | _ => none
  | .passEnd i =>
    match f.replicas[i]? with
    | some ⟨holder, ms, stopped, .passing c rest began⟩ =>
      some
        { f.put i ⟨holder, ms, stopped, .passed c rest began⟩ with
          passes := ⟨c.id, began, f.tick⟩ :: f.passes }
    | _ => none
  | .record i =>
    match f.replicas[i]? with
    | some ⟨holder, ms, stopped, .passed c rest _⟩ =>
      some
        { f.put i ⟨holder, ms, stopped, .visiting rest⟩ with
          rows := updateRow f.rows c.id (·.served c) }
    | _ => none
  | .sweep i =>
    match f.replicas[i]? with
    | some ⟨holder, ms, stopped, .sweeping⟩ =>
      some { f.put i ⟨holder, ms, stopped, .idle⟩ with rows := f.rows.map (·.drop) }
    | _ => none
  | .fail i => f.replicas[i]?.map fun w => f.put i { w with phase := .idle }

end Fleet

end IncusCloud.Reconcile
