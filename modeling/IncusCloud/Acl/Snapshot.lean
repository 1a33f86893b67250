import IncusCloud.Db.Schema
import IncusCloud.Lib.OrdMap

/-!
# The permission snapshot

`Acl.load` of `acl/acl.ts`: the explicit entries, today's roles read as entries, and the facts
resolution needs (disabled subjects, placements, owners, groups, where instances run), read from
the database. The two indexes of the entries, by path and by subject, are lookups in the list.
-/

namespace IncusCloud.Acl

open Lib (OrdMap)

/-- `subjectOf`'s two kinds of caller. -/
structure Principal where
  service : Bool
  id : Uuid

/-- `user:<id>` or `service:<id>`. -/
def subjectKey (service : Bool) (id : Uuid) : Subject :=
  ⟨if service then .service else .user, id.text⟩

def subjectOf (p : Principal) : Subject := subjectKey p.service p.id

structure Lookup where
  tenantSlugs : List (Uuid × String)
  clusterNames : List (Uuid × String)
  serviceAccounts : List Uuid
  owners : List (String × String)

structure Snapshot where
  entries : List Entry
  disabled : List Subject
  tenantOf : String → String → Option String
  projectsOf : String → List String
  ids : Lookup
  owners : OrdMap String Subject
  projects : List String
  /-- A user's or service account's groups, its tenants' default groups among them. -/
  groupsOf : Subject → List Subject
  /-- An instance path to the group paths of the member it runs on: its second parent. -/
  locatedIn : String → List String
  /-- A group path to the instance paths on its members. -/
  onGroup : String → List String

namespace Snapshot

def byPath (s : Snapshot) (path : String) : List Entry := s.entries.filter fun e => e.path = path

def bySubject (s : Snapshot) (subject : Subject) : List Entry :=
  s.entries.filter fun e => e.subject = subject

def keysOf (s : Snapshot) (subject : Subject) : List Subject := subject :: s.groupsOf subject

end Snapshot

/-! ### Entries -/

def platformRole : PlatformRole → RoleId
  | .admin => .administrator
  | .operator => .operator
  | .viewer => .auditor

/-- `PLATFORM_ROLE`, looked up by the text of a service account's role. -/
def platformRoleOfText (s : String) : Option RoleId :=
  if s = "admin" then some .administrator
  else if s = "operator" then some .operator
  else if s = "viewer" then some .auditor
  else none

def tenantRole : TenantRole → RoleId
  | .owner => .tenantAdmin
  | .admin => .tenantAdmin
  | .member => .unrestrictedUser
  | .viewer => .auditor

def entrySubject (e : AclEntryRow) : Subject := ⟨e.kind, e.subjectId.text⟩

variable (db : Db)

def explicitEntries : List Entry :=
  db.aclEntries.filterMap fun e =>
    (isRoleId e.role).map fun role =>
      { id := e.id.text, path := e.path, subject := entrySubject e, role,
        propagate := e.propagate, source := .acl }

def platformRoleEntries : List Entry :=
  db.platformRoles.map fun r =>
    { id := "platform-role:" ++ r.userId.text, path := "/", subject := ⟨.user, r.userId.text⟩,
      role := platformRole r.role, propagate := true, source := .platformRole }

def members : List (TenantMemberRow × TenantRow) :=
  innerJoin db.tenantMembers db.tenants fun m t => t.id = m.tenantId

def membershipEntries : List Entry :=
  (members db).map fun m =>
    { id := "tenant-membership:" ++ m.1.tenantId.text ++ ":" ++ m.1.userId.text,
      path := "/tenants/" ++ m.2.slug.text, subject := ⟨.user, m.1.userId.text⟩,
      role := tenantRole m.1.role, propagate := true, source := .tenantMembership }

/-- A service account's entry: on its tenant, or its platform role's on `/`. -/
def serviceAccountEntry (a : ServiceAccountRow) : Option Entry :=
  match db.tenants.find? fun t => some t.id = a.tenantId with
  | some t =>
    some { id := "service-account:" ++ a.id.text, path := "/tenants/" ++ t.slug.text,
           subject := ⟨.service, a.id.text⟩, role := .unrestrictedUser, propagate := true,
           source := .serviceAccount }
  | none =>
    if a.tenantId.isSome then none
    else
      (a.platformRole.bind platformRoleOfText).map fun role =>
        { id := "service-account:" ++ a.id.text, path := "/", subject := ⟨.service, a.id.text⟩,
          role, propagate := true, source := .serviceAccount }

def virtualEntries : List Entry :=
  platformRoleEntries db ++ membershipEntries db ++
    db.serviceAccounts.filterMap (serviceAccountEntry db)

/-! ### Facts -/

def projectPath (c p : String) : String := formatPath (.project c p)

def instancePath (c p i : String) : String := formatPath (.inst c p i)

def groupPath (c g : String) : String := formatPath (.group c g)

def withCluster {α : Type} (rows : List α) (clusterId : α → Uuid) : List (α × ClusterRow) :=
  innerJoin rows db.clusters fun r c => c.id = clusterId r

def places : List ((PlacementRow × ClusterRow) × TenantRow) :=
  innerJoin (withCluster db db.placements (·.clusterId)) db.tenants fun p t => t.id = p.1.tenantId

def disabledSubjects : List Subject :=
  (db.users.filter (·.disabled)).map (fun u => ⟨.user, u.id.text⟩) ++
    (db.serviceAccounts.filter (·.disabled)).map fun a => ⟨.service, a.id.text⟩

def tenantOf (c p : String) : Option String :=
  (((places db).filter fun x => x.1.2.name.text = c && x.1.1.project.text = p).getLast?).map
    (·.2.slug.text)

def projectsOf (slug : String) : List String :=
  ((places db).filter fun x => x.2.slug.text = slug).map fun x =>
    projectPath x.1.2.name.text x.1.1.project.text

def ownerSubject (o : Bool × Uuid) : Subject := subjectKey o.1 o.2

def ownedPaths : List (String × Subject) :=
  ((withCluster db db.instanceOwners (·.clusterId)).filterMap fun o =>
      o.1.owner.map fun w =>
        (instancePath o.2.name.text o.1.project.text o.1.name.text, ownerSubject w)) ++
    (innerJoin db.k8sClusters db.tenants fun k t => t.id = k.tenantId).map fun k =>
      (formatPath (.kubernetes k.2.slug.text k.1.name.text), k.1.createdBy)

def located : List (InstanceRow × ClusterRow) :=
  withCluster db db.instances (·.clusterId)

def locatedPath (i : InstanceRow × ClusterRow) : String :=
  instancePath i.2.name.text i.1.project.text i.1.name.text

def knownProjects : List String :=
  ((places db).map (fun x => projectPath x.1.2.name.text x.1.1.project.text) ++
    (located db).map fun i => projectPath i.2.name.text i.1.project.text).dedup

def groupsOf (subject : Subject) : List Subject :=
  ((db.groupMembers.filter fun g => subjectKey g.service g.memberId = subject).map fun g =>
      ⟨.group, g.groupId.text⟩) ++
    ((members db).filter fun m => (⟨.user, m.1.userId.text⟩ : Subject) = subject).map (fun m =>
      ⟨.tenant, m.1.tenantId.text⟩) ++
    (db.serviceAccounts.filter fun a =>
      (⟨.service, a.id.text⟩ : Subject) = subject).filterMap fun a =>
        a.tenantId.map fun t => ⟨.tenant, t.text⟩

/-- The group paths of the member an instance runs on; a member in no group is in `default`. -/
def groupsAt (i : InstanceRow × ClusterRow) : List String :=
  match (((withCluster db db.clusterMembers (·.clusterId)).filter fun m =>
      m.2.name = i.2.name && m.1.name = i.1.location).getLast?) with
  | some m =>
    (if m.1.groups = [] then ["default"] else m.1.groups.map (·.text)).map
      (groupPath i.2.name.text ·)
  | none => []

def grouped : List (String × List String) :=
  ((located db).map fun i => (locatedPath i, groupsAt db i)).filter fun x => !x.2.isEmpty

def locatedIn (path : String) : List String :=
  (((grouped db).filter fun x => x.1 = path).getLast?).elim [] (·.2)

def onGroup (g : String) : List String :=
  (grouped db).flatMap fun x => (x.2.filter fun h => h = g).map fun _ => x.1

/-- `Acl.load`. -/
def load : Snapshot where
  entries := explicitEntries db ++ virtualEntries db
  disabled := disabledSubjects db
  tenantOf := tenantOf db
  projectsOf := projectsOf db
  ids :=
    { tenantSlugs := db.tenants.map fun t => (t.id, t.slug.text)
      clusterNames := db.clusters.map fun c => (c.id, c.name.text)
      serviceAccounts := db.serviceAccounts.map (·.id)
      owners := ((members db).filter fun m => m.1.role = .owner).map fun m =>
        (m.1.tenantId.text, m.1.userId.text) }
  owners := OrdMap.ofList (ownedPaths db)
  projects := knownProjects db
  groupsOf := groupsOf db
  locatedIn := locatedIn db
  onGroup := onGroup db

/-!
### The cached snapshot

`Acl.snapshot`, `Acl.invalidate` and the checks that wait for them (`acl/acl.ts`). A check runs
until its first `await`, and goes on when what it awaits has settled; in between, the process does
other things. A check here is one call of `snapshot()`. `tick` numbers what the process does, one
thing after another; `clock` is `this.now()`.
-/

/-- A call of `load`: when it began, and `at`, what the clock said then. -/
structure Load where
  began : ℕ
  stamp : Int
  deriving DecidableEq

/-- Where a check is in `snapshot()`. -/
inductive CheckPhase
  | awaiting (l : Load)
  | loading (l : Load)
  | decided (l : Load)
  | failed
  deriving DecidableEq

structure Check where
  start : ℕ
  phase : CheckPhase
  deriving DecidableEq

/-- `Acl`: its `snap`, every load it began with how it settled, and every check it was asked. -/
structure Cache where
  ttlMs : Int
  snap : Option Load
  loads : List (Load × Option Bool)
  checks : List Check

namespace Cache

variable (c : Cache)

def invalidate : Cache := { c with snap := none }

def outcome (l : Load) : Option Bool :=
  (c.loads.find? fun x => x.1 = l).bind (·.2)

/-- `cur && this.now() - cur.at < this.ttlMs`, for what the awaited load came to. -/
def usable (clock : Int) (l : Load) : Bool :=
  c.outcome l = some true && clock - l.stamp < c.ttlMs

/-- `next = this.load(); this.snap = next`. -/
def load (tick : ℕ) (clock : Int) : Cache :=
  { c with snap := some ⟨tick, clock⟩, loads := c.loads ++ [(⟨tick, clock⟩, none)] }

/-- A check starts: `snapshot()` up to its first `await`. Without a `snap` that is the load. -/
def check (tick : ℕ) (clock : Int) : Cache :=
  match c.snap with
  | some l => { c with checks := c.checks ++ [⟨tick, .awaiting l⟩] }
  | none =>
    { c.load tick clock with checks := c.checks ++ [⟨tick, .loading ⟨tick, clock⟩⟩] }

/-- Check `k` goes on: what it awaits has settled. -/
def resume (tick : ℕ) (clock : Int) (k : ℕ) : Option Cache :=
  match c.checks[k]? with
  | some ⟨start, .awaiting l⟩ =>
    if c.outcome l = none then none
    else if c.usable clock l then
      some { c with checks := c.checks.set k ⟨start, .decided l⟩ }
    else
      -- Stale or failed: it loads itself, also when another check already has.
      some { c.load tick clock with checks := c.checks.set k ⟨start, .loading ⟨tick, clock⟩⟩ }
  | some ⟨start, .loading l⟩ =>
    match c.outcome l with
    | none => none
    | some true => some { c with checks := c.checks.set k ⟨start, .decided l⟩ }
    | some false => some { c with checks := c.checks.set k ⟨start, .failed⟩ }
  | _ => none

/-- Load `i` settles; one that failed is not kept. -/
def settle (i : ℕ) (ok : Bool) : Option Cache :=
  match c.loads[i]? with
  | some (l, none) =>
    some
      { c with
        loads := c.loads.set i (l, some ok)
        snap := if ok = false ∧ c.snap = some l then none else c.snap }
  | _ => none

/-- Going on, check `k` would begin a load. -/
def reloads (clock : Int) (k : ℕ) : Bool :=
  match c.checks[k]? with
  | some ⟨_, .awaiting l⟩ => !c.usable clock l
  | _ => false

end Cache

end IncusCloud.Acl
