import IncusCloud.Acl.Guards

/-!
# Users and their platform roles

`POST`, `PATCH` and `DELETE /api/v1/users` of `api/users.ts`. As for entries, a handler is its
checks, the guard of the last administrator and the transaction. Names, passwords and sessions are
not in the tables modelled; that a request sets one still shows in what the transaction updates.
-/

namespace IncusCloud.Api

open Acl
open Lib (need found)

/-- `needPlatform(p, "admin")`. -/
def needPlatform (s : Snapshot) (p : Principal) : Except ApiError Unit :=
  need (s.can p .platformUsers "/" = true) forbidden

/-- Emails are compared without regard to case (`citext`). -/
def sameEmail (a b : String) : Bool := a.toLower = b.toLower

/-- `load`: a user and its platform role. -/
def loadUser (db : Db) (id : String) : Except ApiError (UserRow × Option PlatformRole) := do
  need (isUuid id = true) (notFound "Not found")
  let ⟨u, _⟩ ← found (db.users.find? fun u => u.id.text = canonical id) (notFound "No such user")
  pure (u, (db.platformRoles.find? fun r => r.userId = u.id).map (·.role))

/-! ### `POST` -/

/-- `POST /api/v1/users`, under the id the database gives the user. -/
def createUser (s : Snapshot) (db : Db) (p : Principal) (email : String)
    (platformRole : Option PlatformRole) (id : Uuid) : Except ApiError Db := do
  needPlatform s p
  need (db.users.any (fun u => sameEmail u.email email) = false)
    ⟨409, "email_taken", "A user with this email already exists"⟩
  need (db.users.any (fun u => u.id = id) = false) internal
  pure
    { db with
      users := db.users ++ [⟨id, email, false⟩]
      platformRoles := db.platformRoles ++ platformRole.toList.map fun r => ⟨id, r⟩ }

/-! ### `PATCH` -/

/-- The body of `PATCH`: a missing field is `none`; `platformRole` may be `null`. -/
structure PatchBody where
  name : Option String
  disabled : Option Bool
  password : Option String
  platformRole : Option (Option PlatformRole)

/-- The checks of `PATCH` and `DELETE`, answering the user and its platform role. -/
def userChecks (s : Snapshot) (db : Db) (p : Principal) (id : String) :
    Except ApiError (UserRow × Option PlatformRole) := do
  needPlatform s p
  loadUser db id

/-- `dropsRole`: the platform role is set to something else than admin. -/
def dropsRole (body : PatchBody) : Bool :=
  match body.platformRole with
  | none => false
  | some r => r ≠ some .admin

/-- The holds `PATCH` may drop. -/
def patchLost (body : PatchBody) (u : Uuid) (h : AdminHold) : Bool :=
  h.userId = u && (body.disabled = some true ||
    match h with
    | .role _ => dropsRole body
    | .entry _ _ => false)

/-- Some column of `users` is set. -/
def patches (body : PatchBody) : Bool :=
  body.name.isSome || body.disabled.isSome || body.password.isSome

/-- The role is set, to another than `PATCH` has read. -/
def newRole (body : PatchBody) (role : Option PlatformRole) : Option (Option PlatformRole) :=
  body.platformRole.filter fun r => r ≠ role

/-- The transaction of `PATCH`, for the user and the role read before it: updating a row that is
gone is an error, and so is a role for it. -/
def patchUser (db : Db) (body : PatchBody) (u : Uuid) (role : Option PlatformRole) :
    Except ApiError Db := do
  let there := db.users.any fun r => r.id = u
  need (patches body = false ∨ there = true) internal
  need ((newRole body role).all (·.isNone) = true ∨ there = true) internal
  pure
    { db with
      users := db.users.map fun r =>
        if r.id = u then { r with disabled := body.disabled.getD r.disabled } else r
      platformRoles :=
        match newRole body role with
        | none => db.platformRoles
        | some r => (db.platformRoles.filter fun x => x.userId ≠ u) ++ r.toList.map fun r => ⟨u, r⟩ }

/-- `PATCH /api/v1/users/:id`. -/
def updateUser (s : Snapshot) (db : Db) (p : Principal) (id : String) (body : PatchBody) :
    Except ApiError Db := do
  let (u, role) ← userChecks s db p id
  keepAnAdministrator (administrators db) (patchLost body u.id)
  patchUser db body u.id role

/-! ### `DELETE` -/

/-- The holds `DELETE` drops. -/
def deleteLost (u : Uuid) (h : AdminHold) : Bool := h.userId = u

/-- An entry after a user is gone: it no longer names the user as its author. -/
def forgetAuthor (u : Uuid) (e : AclEntryRow) : AclEntryRow :=
  if e.createdBy = some u then { e with createdBy := none } else e

theorem forgetAuthor_id (u : Uuid) (e : AclEntryRow) : (forgetAuthor u e).id = e.id := by
  unfold forgetAuthor
  split_ifs
  · rfl
  · rfl

def deleteUserRow (db : Db) (u : Uuid) : Db :=
  { db with
    users := db.users.filter fun r => r.id ≠ u
    platformRoles := db.platformRoles.filter fun r => r.userId ≠ u
    tenantMembers := db.tenantMembers.filter fun m => m.userId ≠ u
    groupMembers := db.groupMembers.filter fun m => m.service || m.memberId ≠ u
    aclEntries := (db.aclEntries.filter fun e =>
      e.kind ≠ .user || e.subjectId ≠ u).map (forgetAuthor u)
    instanceOwners := db.instanceOwners.map fun o =>
      if o.owner = some (false, u) then { o with owner := none } else o
    aclEntries_ids := by
      rw [List.map_map]
      have hid : (fun e : AclEntryRow => e.id) ∘ forgetAuthor u = (·.id) :=
        funext fun e => forgetAuthor_id u e
      rw [hid]
      exact db.aclEntries_ids.sublist (List.filter_sublist.map _)
    tenantMembers_keys := db.tenantMembers_keys.sublist (List.filter_sublist.map _) }

/-- `DELETE /api/v1/users/:id`. -/
def deleteUser (s : Snapshot) (db : Db) (p : Principal) (id : String) : Except ApiError Db := do
  let (u, _) ← userChecks s db p id
  keepAnAdministrator (administrators db) (deleteLost u.id)
  pure (deleteUserRow db u.id)

end IncusCloud.Api
