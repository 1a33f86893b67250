import IncusCloud.Acl.Guards

/-!
# Changing entries

`POST` and `DELETE /api/v1/acl/entries` of `api/acl.ts`. A handler is its checks, which answer the
row to write or remove, then the guard of the last administrator, then the write: concurrent
requests are interleaved between these. Permissions are asked of a snapshot, everything else of the
tables.
-/

namespace IncusCloud.Api

open Acl
open Lib (need found)

/-! ### Who and what an entry is about -/

/-- `GIVABLE`: every role can be given. -/
def givable : List RoleId :=
  [.administrator, .operator, .clusterOwner, .groupOwner, .unrestrictedUser, .user, .tenantAdmin,
    .auditor, .noAccess]

/-- `PATH_KINDS`: everything but `/platform`. -/
def pathKinds : AclPath → Bool
  | .platform => false
  | _ => true

def onlyAdmins : List RoleId := [.administrator, .clusterOwner]

/-- `reachOf`: who an entry for a subject reaches. -/
def reachOf (db : Db) (x : Subject) : List Subject :=
  if isUuid x.id = false then []
  else
    match x.kind with
    | .group =>
      (db.groupMembers.filter fun m => m.groupId.text = canonical x.id).map fun m =>
        subjectKey m.service m.memberId
    | .tenant =>
      ((db.tenantMembers.filter fun m => m.tenantId.text = canonical x.id).map fun m =>
          ⟨.user, m.userId.text⟩) ++
        (db.serviceAccounts.filter fun a =>
          a.tenantId.map (·.text) = some (canonical x.id)).map fun a => ⟨.service, a.id.text⟩
    | _ => [x]

def subjectExists (db : Db) (kind : SubjectKind) (id : String) : Bool :=
  isUuid id &&
    match kind with
    | .user => db.users.any fun u => u.id.text = canonical id
    | .service => db.serviceAccounts.any fun a => a.id.text = canonical id
    | .group => db.groups.any fun g => g.id.text = canonical id
    | .tenant => db.tenants.any fun t => t.id.text = canonical id

/-- `objectExists`: the object a path names is there; projects are placed or in the inventory. -/
def objectExists (db : Db) (path : AclPath) : Bool :=
  let clusterId := fun name => (db.clusters.find? fun c => c.name.text = name).map (·.id)
  match path with
  | .root => true
  | .platform => false
  | .cluster c => (clusterId c).isSome
  | .group c g =>
    match clusterId c with
    | none => false
    | some id => g = "default" || db.clusterMembers.any fun m =>
        m.clusterId = id && m.groups.any fun x => x.text = g
  | .tenant t => db.tenants.any fun x => x.slug.text = t
  | .project c p =>
    match clusterId c with
    | none => false
    | some id => (db.placements.any fun x => x.clusterId = id && x.project.text = p) ||
        db.instances.any fun x => x.clusterId = id && x.project.text = p
  | .inst c p n =>
    match clusterId c with
    | none => false
    | some id => db.instances.any fun x =>
        x.clusterId = id && x.project.text = p && x.name.text = n
  | .kubernetes t n =>
    (innerJoin db.k8sClusters db.tenants fun k x => x.id = k.tenantId).any fun k =>
      k.2.slug.text = t && k.1.name.text = n

/-! ### Checks -/

variable (s : Snapshot)

def isAdministrator (p : Principal) : Bool :=
  (s.explain (subjectOf p) "/").decidedBy.any fun e => e.role = .administrator

/-- `needManage`: `acl.manage` on the path; administrator and cluster owner are for administrators
to give. -/
def needManage (p : Principal) (path : String) (role : RoleId) : Except ApiError Unit := do
  needPriv s p .aclManage path "Not found"
  need (role ∉ onlyAdmins ∨ isAdministrator s p = true) forbidden

/-- The body of `POST /api/v1/acl/entries`. -/
structure EntryBody where
  path : String
  kind : SubjectKind
  id : String
  role : String
  propagate : Bool

def invalidPath : ApiError :=
  bad "invalid_path" ("Entries go on /, a cluster, a project, an instance, a tenant or a " ++
    "Kubernetes cluster for now")

def nothingThere : ApiError :=
  bad "invalid_path" ("Nothing there: no such cluster, cluster group, project, instance, tenant " ++
    "or Kubernetes cluster")

/-- On `/` or a cluster an entry reaches every tenant's projects. -/
def overTenants : AclPath → Bool
  | .root | .cluster _ => true
  | _ => false

def isGroupPath : AclPath → Bool
  | .group _ _ => true
  | _ => false

def needPlace (role : RoleId) (path : AclPath) : Except ApiError Unit := do
  need (role ≠ .unrestrictedUser ∨ overTenants path = false)
    (bad "invalid_role" ("Unrestricted user goes on a cluster group, a tenant or a project: on a " ++
      "cluster or / it would reach every tenant's projects"))
  need (role ≠ .groupOwner ∨ isGroupPath path = true)
    (bad "invalid_role" "Group owner goes on a cluster group")

/-- The checks of `POST`, answering the row to insert under the id the database gives it. -/
def createChecks (db : Db) (p : Principal) (body : EntryBody) (id : Uuid) :
    Except ApiError AclEntryRow := do
  let ⟨path, hpath⟩ ← found (parsePath body.path) invalidPath
  need (pathKinds path = true) invalidPath
  let ⟨role, _⟩ ← found (isRoleId body.role) (bad "invalid_role" "Not a role that can be given yet")
  need (role ∈ givable) (bad "invalid_role" "Not a role that can be given yet")
  needPlace role path
  need (subjectExists db body.kind body.id = true)
    (bad "invalid_subject" "No such user, service account, group or tenant")
  needManage s p body.path role
  needOutrank s p body.path (reachOf db ⟨body.kind, body.id⟩)
  need (objectExists db path = true) nothingThere
  let ⟨subjectId, _⟩ ← found (Uuid.ofText body.id) internal
  pure
    { id, path := body.path, kind := body.kind, subjectId, role := body.role
      propagate := body.propagate
      createdBy := if p.service then none else some p.id
      parses := by rw [hpath]; rfl }

/-- The holds `POST` may drop: No access on `/` takes everything there from its holder. The user's
id is compared as the body spells it. -/
def createLost (body : EntryBody) (h : AdminHold) : Bool :=
  body.kind = .user && body.path = "/" && body.role = "no-access" && h.userId.text = body.id

def references (db : Db) (e : AclEntryRow) : Bool :=
  (match e.kind with
    | .user => db.users.any fun u => u.id = e.subjectId
    | .service => db.serviceAccounts.any fun a => a.id = e.subjectId
    | .group => db.groups.any fun g => g.id = e.subjectId
    | .tenant => db.tenants.any fun t => t.id = e.subjectId) &&
  (match e.createdBy with
    | some u => db.users.any fun x => x.id = u
    | none => true)

/-- No row has the entry's id, or its path, subject and role (`acl_entry_unique`). -/
def free (db : Db) (e : AclEntryRow) : Prop :=
  ∀ x ∈ db.aclEntries, x.id ≠ e.id ∧
    ¬ (x.path = e.path ∧ x.kind = e.kind ∧ x.subjectId = e.subjectId ∧ x.role = e.role)

instance (db : Db) (e : AclEntryRow) : Decidable (free db e) :=
  inferInstanceAs (Decidable (∀ x ∈ db.aclEntries, _ ∧ ¬ (_ ∧ _ ∧ _ ∧ _)))

def withEntry (db : Db) (e : AclEntryRow) (h : free db e) : Db :=
  { db with
    aclEntries := db.aclEntries ++ [e]
    aclEntries_ids := by
      rw [List.map_append, List.nodup_append]
      refine ⟨db.aclEntries_ids, by simp, fun a ha b hb => ?_⟩
      obtain ⟨x, hx, rfl⟩ := List.mem_map.mp ha
      rw [List.mem_map] at hb
      obtain ⟨y, hy, rfl⟩ := hb
      rw [List.mem_singleton.mp hy]
      exact (h x hx).1 }

def insertEntry (db : Db) (e : AclEntryRow) : Except ApiError Db :=
  if h : free db e then do
    need (references db e = true) internal
    pure (withEntry db e h)
  else .error ⟨409, "entry_exists", "This entry exists"⟩

/-- `POST /api/v1/acl/entries`. -/
def createEntry (db : Db) (p : Principal) (body : EntryBody) (id : Uuid) : Except ApiError Db := do
  let e ← createChecks s db p body id
  keepAnAdministrator (administrators db) (createLost body)
  insertEntry db e

/-- The checks of `DELETE`, answering the row to remove. -/
def removeChecks (db : Db) (p : Principal) (id : String) : Except ApiError AclEntryRow := do
  need (isUuid id = true) (notFound "No such entry")
  let ⟨row, _⟩ ← found (db.aclEntries.find? fun e => e.id.text = canonical id)
    (notFound "No such entry")
  let ⟨role, _⟩ ← found (isRoleId row.role) (notFound "No such entry")
  needManage s p row.path role
  -- Nor undo what someone above the caller decided.
  needOutrank s p row.path (reachOf db (entrySubject row) ++
    row.createdBy.toList.map fun u => ⟨.user, u.text⟩)
  pure row

/-- The hold `DELETE` may drop. -/
def removeLost (row : AclEntryRow) : AdminHold → Bool
  | .entry _ e => e = row.id
  | .role _ => false

def deleteEntry (db : Db) (row : AclEntryRow) : Db :=
  { db with
    aclEntries := db.aclEntries.filter fun e => e.id ≠ row.id
    aclEntries_ids := db.aclEntries_ids.sublist (List.filter_sublist.map _) }

/-- `DELETE /api/v1/acl/entries/:id`. -/
def removeEntry (db : Db) (p : Principal) (id : String) : Except ApiError Db := do
  let row ← removeChecks s db p id
  keepAnAdministrator (administrators db) (removeLost row)
  pure (deleteEntry db row)

end IncusCloud.Api
