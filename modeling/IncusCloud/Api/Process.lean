import IncusCloud.Api.AclEntries
import IncusCloud.Api.Users

/-!
# A process that checks and changes permissions

The requests that change memberships and roles, from the start of their transaction on, each a list
of what it awaits. `authz.write` drops the cached snapshot from inside the transaction.
-/

namespace IncusCloud.Api

open Acl

inductive Op
  | statement
  | revokeSubject
  /-- `authz.write`: `AclAuthz.write`, which is `acl.invalidate()`. -/
  | write
  | commit
  | requestReconcile
  deriving DecidableEq

/-- The requests, from the start of their transaction. -/
inductive Route
  | setMember
  | deleteMember
  | patchUser (body : PatchBody) (role : Option PlatformRole)
  | deleteUser

/-- `db.transaction`: what it runs, then the commit. -/
def transaction (body : List Op) : List Op := body ++ [.commit]

namespace Route

/-- The part of `PATCH` that is run before the role is set. -/
def patchStatements (body : PatchBody) : List Op :=
  (if patches body then [.statement] else []) ++
    if body.disabled = some true then [.statement, .revokeSubject] else []

def ops : Route → List Op
  | setMember => transaction [.statement, .write] ++ [.requestReconcile]
  | deleteMember => transaction [.statement, .write] ++ [.requestReconcile]
  | patchUser body role =>
    transaction
        (patchStatements body ++
          match newRole body role with
          | none => []
          | some r => .statement :: (r.toList.map fun _ => .statement) ++ [.write]) ++
      if body.disabled.isSome || body.platformRole.isSome then [.requestReconcile] else []
  | deleteUser => transaction [.statement, .revokeSubject, .write] ++ [.requestReconcile]

/-- The request changes a membership or a role: all but a `PATCH` that leaves the role as it is. -/
def changes : Route → Bool
  | patchUser body role => (newRole body role).isSome
  | _ => true

end Route

/-- A request under way: what it still awaits, and when it committed and returned. -/
structure Pending where
  route : Route
  todo : List Op
  committed : Option ℕ
  returned : Option ℕ

namespace Pending

/-- The snapshot is dropped, the change not yet committed. -/
def opened (p : Pending) : Bool := p.route.changes && p.todo.head? = some .commit

end Pending

/-- One process: its `Acl` and its requests. -/
structure Process where
  tick : ℕ
  clock : Int
  acl : Cache
  pending : List Pending

inductive Event
  | check
  | resume (k : ℕ)
  | settle (i : ℕ) (ok : Bool)
  | invalidate
  | clock (now : Int)
  | request (r : Route)
  | advance (j : ℕ)
  /-- What request `j` awaits fails: an open transaction is rolled back. -/
  | fail (j : ℕ)
  | reply (j : ℕ)

namespace Process

def boot (ttlMs clock : Int) : Process := ⟨0, clock, ⟨ttlMs, none, [], []⟩, []⟩

/-- The process after one more thing, with its `Acl` as it is then. -/
def withAcl (st : Process) (c : Cache) : Process := { st with tick := st.tick + 1, acl := c }

/-- The process after one more thing, with request `j` as it is then. -/
def withPending (st : Process) (j : ℕ) (p : Pending) : Process :=
  { st with tick := st.tick + 1, pending := st.pending.set j p }

/-- Request `j` does what it awaits next. -/
def advance (st : Process) (j : ℕ) (p : Pending) : Process :=
  match p.todo with
  | [] => st
  | .write :: rest =>
    { st.withPending j { p with todo := rest } with acl := st.acl.invalidate }
  | .commit :: rest => st.withPending j { p with todo := rest, committed := some st.tick }
  | _ :: rest => st.withPending j { p with todo := rest }

def next (st : Process) : Event → Option Process
  | .check => some (st.withAcl (st.acl.check st.tick st.clock))
  | .resume k => (st.acl.resume st.tick st.clock k).map st.withAcl
  | .settle i ok => (st.acl.settle i ok).map st.withAcl
  | .invalidate => some (st.withAcl st.acl.invalidate)
  | .clock now => some { st with tick := st.tick + 1, clock := now }
  | .request r =>
    some { st with tick := st.tick + 1, pending := st.pending ++ [⟨r, r.ops, none, none⟩] }
  | .advance j =>
    match st.pending[j]? with
    | some p => if p.todo = [] then none else some (st.advance j p)
    | none => none
  | .fail j =>
    match st.pending[j]? with
    | some p => if p.todo = [] then none else some (st.withPending j { p with todo := [] })
    | none => none
  | .reply j =>
    match st.pending[j]? with
    | some p =>
      if p.todo = [] ∧ p.returned = none then
        some (st.withPending j { p with returned := some st.tick })
      else none
    | none => none

def begins (st : Process) : Event → Bool
  | .check => st.acl.snap.isNone
  | .resume k => st.acl.reloads st.clock k
  | _ => false

end Process

/-!
### Requests that run at the same time

`PATCH` and `DELETE` of users, `POST` and `DELETE` of entries, interleaved. A request passes its
checks, then makes the three queries of `keepAnAdministrator` (one `Promise.all`, so in any order),
each on the database as it is then, and then writes. Permissions are asked of a snapshot that may
be of any earlier database: it is cached, and other replicas change the database too.
-/

inductive Request
  | patchUser (p : Principal) (id : String) (body : PatchBody)
  | deleteUser (p : Principal) (id : String)
  | createEntry (p : Principal) (body : EntryBody) (id : Uuid)
  | removeEntry (p : Principal) (id : String)

/-- The change a request that has passed its checks is about to make. -/
inductive Change
  | patch (body : PatchBody) (u : Uuid) (role : Option PlatformRole)
  | delete (u : Uuid)
  | create (body : EntryBody) (row : AclEntryRow)
  | remove (row : AclEntryRow)

namespace Change

/-- `lost`, as the handler passes it to `keepAnAdministrator`. -/
def lost : Change → AdminHold → Bool
  | patch body u _ => patchLost body u
  | delete u => deleteLost u
  | create body _ => createLost body
  | remove row => removeLost row

/-- The handler calls `keepAnAdministrator`. -/
def guarded : Change → Bool
  | create body _ => body.kind = .user && body.path = "/" && body.role = "no-access"
  | _ => true

def write (db : Db) : Change → Except ApiError Db
  | patch body u role => patchUser db body u role
  | delete u => .ok (deleteUserRow db u)
  | create _ row => insertEntry db row
  | remove row => .ok (deleteEntry db row)

end Change

namespace Request

def checks (s : Snapshot) (db : Db) : Request → Except ApiError Change
  | patchUser p id body => do
    let (u, role) ← userChecks s db p id
    pure (.patch body u.id role)
  | deleteUser p id => do
    let (u, _) ← userChecks s db p id
    pure (.delete u.id)
  | createEntry p body id => do
    let row ← createChecks s db p body id
    pure (.create body row)
  | removeEntry p id => do
    let row ← removeChecks s db p id
    pure (.remove row)

end Request

/-- Where a request is: before its checks, with the guard's answers so far, or answered. -/
inductive Phase
  | start
  | guarding (c : Change) (roles entries : Option (List AdminHold)) (out : Option (List Uuid))
  | done

namespace Phase

def reading : Phase → Bool
  | guarding _ roles entries out => roles.isSome || entries.isSome || out.isSome
  | _ => false

end Phase

/-- The database, the databases before it, and the requests. -/
structure Server where
  db : Db
  past : List Db
  requests : List (Request × Phase)

namespace Server

def put (st : Server) (i : ℕ) (r : Request) (phase : Phase) : Server :=
  { st with requests := st.requests.set i (r, phase) }

def commit (st : Server) (i : ℕ) (r : Request) (c : Change) : Server :=
  match c.write st.db with
  | .ok db' => { db := db', past := st.db :: st.past, requests := st.requests.set i (r, .done) }
  | .error _ => st.put i r .done

end Server

/-- The steps of request `i`; `check i k` is decided on a snapshot of the database `k` writes ago. -/
inductive Action
  | check (i k : ℕ)
  | readRoles (i : ℕ)
  | readEntries (i : ℕ)
  | readFenced (i : ℕ)
  | write (i : ℕ)
  | abort (i : ℕ)

def step (st : Server) : Action → Option Server
  | .check i k =>
    match st.requests[i]?, (st.db :: st.past)[k]? with
    | some (r, .start), some d =>
      match r.checks (load d) st.db with
      | .ok c => some (st.put i r (.guarding c none none none))
      | .error _ => some (st.put i r .done)
    | _, _ => none
  | .readRoles i =>
    match st.requests[i]? with
    | some (r, .guarding c none entries out) =>
      if c.guarded then some (st.put i r (.guarding c (some (adminRoles st.db)) entries out))
      else none
    | _ => none
  | .readEntries i =>
    match st.requests[i]? with
    | some (r, .guarding c roles none out) =>
      if c.guarded then some (st.put i r (.guarding c roles (some (adminEntries st.db)) out))
      else none
    | _ => none
  | .readFenced i =>
    match st.requests[i]? with
    | some (r, .guarding c roles entries none) =>
      if c.guarded then some (st.put i r (.guarding c roles entries (some (fenced st.db))))
      else none
    | _ => none
  | .write i =>
    match st.requests[i]? with
    | some (r, .guarding c roles entries out) =>
      if c.guarded = false then some (st.commit i r c)
      else
        match roles, entries, out with
        | some roles, some entries, some out =>
          match keepAnAdministrator (administratorsOf roles entries out) c.lost with
          | .ok _ => some (st.commit i r c)
          | .error _ => some (st.put i r .done)
        | _, _, _ => none
    | _ => none
  -- A connection that breaks, a transaction rolled back.
  | .abort i =>
    match st.requests[i]? with
    | some (r, _) => some (st.put i r .done)
    | none => none

end IncusCloud.Api
