import IncusCloud.Api.Users

/-!
# Tenants and their members

`POST` and `DELETE /api/v1/tenants` and the member routes of `api/tenants.ts`. Quotas, leases and
names are not in the tables modelled.
-/

namespace IncusCloud.Api

open Acl
open Lib (need found)

/-! ### Checks -/

variable (s : Snapshot) (db : Db) (p : Principal)

/-- `load`, with `needTenant` of `authz/guards.ts`: 404 unless the principal may see the tenant,
then 403 unless it holds the privilege there. -/
def loadTenant (id : String) (q : Privilege) : Except ApiError TenantRow := do
  need (isUuid id = true) (notFound "Not found")
  let ⟨t, _⟩ ← found (db.tenants.find? fun t => t.id.text = canonical id) (notFound "Not found")
  need (s.can p .tenantView ("/tenants/" ++ t.slug.text) = true) (notFound "Not found")
  need (s.can p q ("/tenants/" ++ t.slug.text) = true) forbidden
  pure t

/-- `needOwnerPower`: owners are managed by owners and platform admins only. -/
def needOwnerPower (tenantId : Uuid) : Except ApiError Unit :=
  need ((p.service = false ∧ db.tenantMembers.any (fun m =>
      m.tenantId = tenantId && m.userId = p.id && m.role = .owner) = true) ∨
    s.can p .platformUsers "/" = true) forbidden

def ownersOf (tenantId : Uuid) : List TenantMemberRow :=
  db.tenantMembers.filter fun m => m.tenantId = tenantId && m.role = .owner

def ownerCount (tenantId : Uuid) : ℕ := (ownersOf db tenantId).length

def lastOwner : ApiError := ⟨409, "last_owner", "A tenant needs at least one owner"⟩

/-! ### Members -/

variable (tenantId userId : Uuid)

def memberOf : Option TenantMemberRow :=
  db.tenantMembers.find? fun m => m.tenantId = tenantId && m.userId = userId

def putMember (role : TenantRole) : Db :=
  { db with
    tenantMembers := (db.tenantMembers.filter fun m =>
      (m.tenantId, m.userId) ≠ (tenantId, userId)) ++ [⟨tenantId, userId, role⟩]
    tenantMembers_keys := by
      rw [List.map_append, List.nodup_append]
      refine ⟨db.tenantMembers_keys.sublist (List.filter_sublist.map _), by simp, ?_⟩
      intro a ha b hb
      obtain ⟨m, hm, rfl⟩ := List.mem_map.mp ha
      rw [List.mem_map] at hb
      obtain ⟨n, hn, rfl⟩ := hb
      rw [List.mem_singleton.mp hn]
      exact of_decide_eq_true (List.mem_filter.mp hm).2 }

def needOwnerChange (tenantId : Uuid)
    (cur : Option TenantRole) (role : TenantRole) : Except ApiError Unit :=
  if role = .owner ∨ cur = some .owner then needOwnerPower s db p tenantId else .ok ()

/-- `setMember`: sets a member's role (insert or change), enforcing owner rules. -/
def setMember (tenant : TenantRow) (userId : String) (role : TenantRole) : Except ApiError Db := do
  let ⟨user, _⟩ ← found (db.users.find? fun u => u.id.text = canonical userId)
    (notFound "No such user")
  let cur := (memberOf db tenant.id user.id).map (·.role)
  needOwnerChange s db p tenant.id cur role
  -- A tenant role is the most specific entry there: it would narrow platform staff.
  needOutrank s p ("/tenants/" ++ tenant.slug.text) [⟨.user, userId⟩]
  need (cur ≠ some .owner ∨ role = .owner ∨ 1 < ownerCount db tenant.id) lastOwner
  if cur = some role then pure db else pure (putMember db tenant.id user.id role)

/-- `PUT /api/v1/tenants/:id/members/:userId`. -/
def putMemberById (id userId : String) (role : TenantRole) : Except ApiError Db := do
  let tenant ← loadTenant s db p id .tenantMembers
  need (isUuid userId = true) (notFound "No such user")
  setMember s db p tenant userId role

/-- `POST /api/v1/tenants/:id/members`. -/
def postMember (id email : String) (role : TenantRole) : Except ApiError Db := do
  let tenant ← loadTenant s db p id .tenantMembers
  let ⟨u, _⟩ ← found (db.users.find? fun u => sameEmail u.email email)
    (notFound "No user with this email; ask a platform administrator to create the account")
  setMember s db p tenant u.id.text role

def dropMember : Db :=
  { db with
    tenantMembers := db.tenantMembers.filter fun m => (m.tenantId, m.userId) ≠ (tenantId, userId)
    tenantMembers_keys := db.tenantMembers_keys.sublist (List.filter_sublist.map _) }

def needOtherOwner (tenantId : Uuid) (cur : TenantRole) : Except ApiError Unit :=
  if cur = .owner then do
    needOwnerPower s db p tenantId
    need (1 < ownerCount db tenantId) lastOwner
  else .ok ()

/-- `DELETE /api/v1/tenants/:id/members/:userId`. -/
def deleteMember (id userId : String) : Except ApiError Db := do
  let tenant ← loadTenant s db p id .tenantMembers
  need (isUuid userId = true) (notFound "Not found")
  let ⟨cur, _⟩ ← found (db.tenantMembers.find? fun m =>
    m.tenantId = tenant.id && m.userId.text = canonical userId) (notFound "Not a member")
  needOutrank s p ("/tenants/" ++ tenant.slug.text) [⟨.user, cur.userId.text⟩]
  needOtherOwner s db p tenant.id cur.role
  pure (dropMember db tenant.id cur.userId)

/-! ### Tenants -/

def reserved : List String := ["default", "incuscloud", "admin", "system"]

def freeTenant (id : Uuid) : Prop :=
  (∀ t ∈ db.tenants, t.id ≠ id) ∧ ∀ m ∈ db.tenantMembers, m.tenantId ≠ id

instance (db : Db) (id : Uuid) : Decidable (freeTenant db id) :=
  inferInstanceAs (Decidable ((∀ t ∈ db.tenants, _) ∧ ∀ m ∈ db.tenantMembers, _))

def withTenant (t : TenantRow) (owner : Option Uuid) (h : freeTenant db t.id) : Db :=
  { db with
    tenants := db.tenants ++ [t]
    tenantMembers := db.tenantMembers ++ owner.toList.map fun u => ⟨t.id, u, .owner⟩
    tenantMembers_keys := by
      rw [List.map_append, List.nodup_append]
      refine ⟨db.tenantMembers_keys, by cases owner <;> simp, ?_⟩
      rintro a ha b hb rfl
      obtain ⟨m, hm, hma⟩ := List.mem_map.mp ha
      simp only [List.map_map, List.mem_map, Function.comp] at hb
      obtain ⟨u, -, hu⟩ := hb
      exact h.2 m hm (congrArg Prod.fst (hma.trans hu.symm)) }

def newOwner : Option String → Except ApiError (Option Uuid)
  | none => .ok none
  | some o => do
    need (isUuid o = true) (notFound "No such user")
    let ⟨u, _⟩ ← found (db.users.find? fun u => u.id.text = canonical o) (notFound "No such user")
    pure (some u.id)

/-- `POST /api/v1/tenants`, under the id the database gives the tenant. -/
def createTenant (slug : Name) (ownerId : Option String) (id : Uuid) : Except ApiError Db := do
  need (s.can p .tenantManage "/" = true) forbidden
  need (slug.text ∉ reserved) (bad "invalid_request" ("\"" ++ slug.text ++ "\" is reserved"))
  need (db.tenants.any (fun t => t.slug = slug) = false)
    ⟨409, "slug_taken", "A tenant with this slug already exists"⟩
  let owner ← newOwner db ownerId
  if h : freeTenant db id then pure (withTenant db ⟨id, slug⟩ owner h) else .error internal

/-- `entriesUnder`: a path and what is below it. -/
def underPath (path x : String) : Bool := x = path || (path ++ "/").toList.isPrefixOf x.toList

/-- A tenant's row and what the database deletes with it: memberships, service accounts with their
entries and groups, entries for its default group, then the entries on it and below. -/
def dropTenant (t : TenantRow) : Db :=
  let accounts := (db.serviceAccounts.filter fun a => a.tenantId = some t.id).map (·.id)
  { db with
    tenants := db.tenants.filter fun x => x.id ≠ t.id
    tenantMembers := db.tenantMembers.filter fun m => m.tenantId ≠ t.id
    serviceAccounts := db.serviceAccounts.filter fun a => a.tenantId ≠ some t.id
    groupMembers := db.groupMembers.filter fun m => !m.service || m.memberId ∉ accounts
    aclEntries := db.aclEntries.filter fun e =>
      (e.kind ≠ .tenant || e.subjectId ≠ t.id) && (e.kind ≠ .service || e.subjectId ∉ accounts) &&
        !underPath ("/tenants/" ++ t.slug.text) e.path
    instanceOwners := db.instanceOwners.map fun o =>
      match o.owner with
      | some (true, a) => if a ∈ accounts then { o with owner := none } else o
      | _ => o
    aclEntries_ids := db.aclEntries_ids.sublist (List.filter_sublist.map _)
    tenantMembers_keys := db.tenantMembers_keys.sublist (List.filter_sublist.map _) }

/-- `DELETE /api/v1/tenants/:id`. -/
def deleteTenant (id : String) : Except ApiError Db := do
  let tenant ← loadTenant s db p id .tenantView
  needOwnerPower s db p tenant.id
  need (db.placements.any (fun x => x.tenantId = tenant.id) = false)
    ⟨409, "tenant_placed", "Remove this tenant from its clusters first"⟩
  -- A tenant with Kubernetes clusters is not removed under them.
  need (db.k8sClusters.any (fun k => k.tenantId = tenant.id) = false) internal
  pure (dropTenant db tenant)

end IncusCloud.Api
