import IncusCloud.Acl.Acl
import IncusCloud.Lib.Checked

/-!
# What changes must pass

The checks that guard changes of permissions: `needPriv` of `authz/guards.ts`, `needOutrank` of
`acl/outrank.ts`, and `administrators` and `keepAnAdministrator` of `acl/admins.ts`. Those that ask
the ACL are decided on a snapshot, the last two read the tables.
-/

namespace IncusCloud

structure ApiError where
  status : ℕ
  code : String
  message : String
  deriving DecidableEq

def forbidden : ApiError := ⟨403, "forbidden", "You do not have permission to do this"⟩

def notFound (what : String) : ApiError := ⟨404, "not_found", what⟩

def bad (code message : String) : ApiError := ⟨400, code, message⟩

def internal : ApiError := ⟨500, "internal", "Internal error"⟩

namespace Acl

open Lib (need)

/-! ### `needPriv` -/

/-- `needPriv`: 404 unless the principal may see the path, then 403 unless it holds the privilege
there. -/
def needPriv (s : Snapshot) (p : Principal) (q : Privilege) (path what : String) :
    Except ApiError Unit := do
  need (s.sees p path = true) (notFound what)
  need (s.can p q path = true) forbidden

/-! ### `needOutrank` -/

def outranked : ApiError :=
  ⟨403, "outranked", "They hold rights here that you do not; ask a platform administrator"⟩

def ownersOnly : ApiError :=
  ⟨403, "outranked",
    "Only the tenant's owners and platform administrators change what its owners get"⟩

/-- `/^\/tenants\/([^/]+)/`: the slug of the tenant a path is on or under. -/
def slugOfPath (path : String) : Option String :=
  let slug := (path.toList.drop "/tenants/".length).takeWhile (· ≠ '/')
  if "/tenants/".toList.isPrefixOf path.toList && !slug.isEmpty then some (String.ofList slug)
  else none

/-- `owner`: the subject is an owner of the tenant. -/
def ownerOf (l : Lookup) (tenantId : Option Uuid) (x : Subject) : Bool :=
  match tenantId with
  | some t => x.kind = .user && (t.text, x.id) ∈ l.owners
  | none => false

/-- `needOutrank`: refuses a change at `path` that reaches someone above the caller. -/
def needOutrank (s : Snapshot) (caller : Principal) (path : String) (subjects : List Subject) :
    Except ApiError Unit := do
  let me := subjectOf caller
  let mine := s.privileges me path
  need (∀ x ∈ subjects, x = me ∨ ∀ q ∈ s.reach x path, q ∈ mine) outranked
  match slugOfPath path with
  | none => pure ()
  | some slug =>
    let tenantId := (s.ids.tenantSlugs.find? fun t => t.2 = slug).map (·.1)
    need ((∀ x ∈ subjects, x = me ∨ ownerOf s.ids tenantId x = false) ∨
      ownerOf s.ids tenantId me = true ∨ s.can caller .platformUsers "/" = true) ownersOnly

/-! ### `keepAnAdministrator` -/

/-- What makes an enabled user an administrator: the platform role, or an Administrator entry on
`/`. -/
inductive AdminHold
  | role (userId : Uuid)
  | entry (userId entryId : Uuid)
  deriving DecidableEq

namespace AdminHold

def userId : AdminHold → Uuid
  | role u => u
  | entry u _ => u

end AdminHold

def enabled (db : Db) (u : Uuid) : Bool := db.users.any fun r => r.id = u && !r.disabled

/-- The first query of `administrators`: enabled users with the platform role. -/
def adminRoles (db : Db) : List AdminHold :=
  (db.platformRoles.filter fun r => r.role = .admin && enabled db r.userId).map fun r =>
    .role r.userId

/-- The second: enabled users' Administrator entries on `/`. -/
def adminEntries (db : Db) : List AdminHold :=
  (db.aclEntries.filter fun e => e.kind = .user && e.path = "/" && e.role = "administrator" &&
    enabled db e.subjectId).map fun e => .entry e.subjectId e.id

/-- The third: users with No access on `/`. -/
def fenced (db : Db) : List Uuid :=
  (db.aclEntries.filter fun e => e.kind = .user && e.path = "/" && e.role = "no-access").map
    (·.subjectId)

/-- What `administrators` makes of its three queries. -/
def administratorsOf (roles entries : List AdminHold) (out : List Uuid) : List AdminHold :=
  (roles ++ entries).filter fun h => h.userId ∉ out

def administrators (db : Db) : List AdminHold :=
  administratorsOf (adminRoles db) (adminEntries db) (fenced db)

def lastAdmin : ApiError := ⟨409, "last_admin", "This is the last platform administrator"⟩

/-- `keepAnAdministrator`, given the holds: refuses a change that drops the `lost` ones when they
are the last. -/
def keepAnAdministrator (all : List AdminHold) (lost : AdminHold → Bool) : Except ApiError Unit :=
  need (all.any lost = false ∨ (all.filter fun h => !lost h) ≠ []) lastAdmin

end Acl

end IncusCloud
