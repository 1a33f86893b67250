import IncusCloud.Acl.Proofs.Entries
import IncusCloud.Api.ServiceAccounts

/-!
# What managing a service account lends

Whoever rotates an account's secret can act as the account. The route asks for one privilege on the
account's tenant, `manages`, and compares nothing else. `rotate_lends_membership`: that is enough
where the account is decided by its tenant membership and the caller still holds the privilege, for
the roles that have `tenant.members` have all a member has; what an account was given elsewhere is
lent as it is (`rotate_lends_entries`).
-/

namespace IncusCloud.Api

open Acl Option
open Lib (need_eq_ok bind_eq_ok need_bind_eq_ok)

/-! ### Privileges that come with others -/

variable {s : Snapshot}

theorem mem_privileges_of_roles {t : Subject} {x : String} {m q : Privilege}
    (hroles : ∀ r : RoleId, m ∈ r.privileges → q ∈ r.privileges)
    (hown : ∀ r : RoleId, m ∉ r.ownedOnly) (h : m ∈ s.privileges t x) : q ∈ s.privileges t x := by
  obtain ⟨hs, p, hp, line, hline, hm⟩ := mem_privileges.mp h
  obtain ⟨hall, e, he, hgives⟩ := mem_privilegesOf.mp hm
  refine mem_privileges.mpr ⟨hs, p, hp, line, hline, mem_privilegesOf.mpr ⟨hall, e, he, ?_⟩⟩
  rcases hgives with hrole | ⟨-, howned⟩
  · exact .inl (hroles e.role hrole)
  · exact absurd howned (hown e.role)

theorem unrestrictedUser_le {q : Privilege} (hq : q ∈ RoleId.unrestrictedUser.privileges)
    (r : RoleId) (h : .tenantMembers ∈ r.privileges) : q ∈ r.privileges := by
  have hall : ∀ r : RoleId, .tenantMembers ∈ r.privileges →
      ∀ q ∈ RoleId.unrestrictedUser.privileges, q ∈ r.privileges := by
    intro r
    cases r <;> decide
  exact hall r h q hq

theorem managing_not_ownedOnly (r : RoleId) :
    Privilege.tenantMembers ∉ r.ownedOnly ∧ Privilege.platformUsers ∉ r.ownedOnly := by
  cases r <;> decide

/-! ### Membership entries -/

theorem mem_entries_of_decidedBy {t : Subject} {x : String} {e : Entry}
    (h : e ∈ (s.decide t x none).decidedBy) : e ∈ s.entries := by
  obtain ⟨-, p, -, line, -, he⟩ := mem_decidedBy.mp h
  obtain ⟨l, -, -, he⟩ := Lib.exists_of_mem_firstHit (preferOwn_subset he)
  exact (mem_byPath.mp (mem_here.mp he).1).1

theorem role_of_membership {db : Db} {e : Entry} (he : e ∈ (load db).entries)
    (hsource : e.source = .serviceAccount) {slug : String} (hpath : e.path = "/tenants/" ++ slug) :
    e.role = .unrestrictedUser := by
  rcases List.mem_append.mp he with he | he
  · obtain ⟨row, -, role, -, rfl⟩ := mem_explicitEntries.mp he
    cases hsource
  · simp only [virtualEntries, List.mem_append] at he
    rcases he with (he | he) | he
    · obtain ⟨r, -, rfl⟩ := List.mem_map.mp he
      cases hsource
    · obtain ⟨m, -, rfl⟩ := List.mem_map.mp he
      cases hsource
    · obtain ⟨a, -, ha⟩ := List.mem_filterMap.mp he
      unfold serviceAccountEntry at ha
      split at ha
      · rw [← some.inj ha]
      · split_ifs at ha
        obtain ⟨role, -, rfl⟩ := map_eq_some_iff.mp ha
        exact absurd hpath.symm (tenants_ne_root slug)

theorem mem_unrestrictedUser_of_membership {db : Db} {t : Subject} {x slug : String} {q : Privilege}
    (hby : ∀ e ∈ ((load db).decide t x none).decidedBy,
      e.source = .serviceAccount ∧ e.path = "/tenants/" ++ slug)
    (hq : q ∈ (load db).privileges t x) : q ∈ RoleId.unrestrictedUser.privileges := by
  obtain ⟨e, he, hgives⟩ := exists_decidedBy_of_mem_privileges hq
  obtain ⟨hsource, hpath⟩ := hby e he
  have hrole := role_of_membership (mem_entries_of_decidedBy he) hsource hpath
  unfold gives at hgives
  rw [hrole] at hgives
  rcases hgives with hq | ⟨-, hq⟩
  · exact hq
  · cases hq

/-! ### `rotate` -/

theorem manages_of_rotate {db : Db}
    {updateClient : ServiceAccountRow → String → Except ApiError Unit} {p : Principal}
    {id secret : String} {r : ServiceAccountRow × String}
    (h : rotate s db updateClient p id secret = .ok r) : manages s p r.1 = true := by
  obtain ⟨sa, hload, h⟩ := bind_eq_ok.mp h
  obtain ⟨_, -, h⟩ := bind_eq_ok.mp h
  have hr : (sa, secret) = r := Except.ok.inj h
  obtain ⟨-, hload⟩ := need_bind_eq_ok.mp hload
  obtain ⟨sa', -, hload⟩ := bind_eq_ok.mp hload
  obtain ⟨hmanages, hload⟩ := need_bind_eq_ok.mp hload
  have hsa : sa'.1 = sa := Except.ok.inj hload
  rw [← hr, ← hsa]
  exact hmanages

theorem tenantPathOf_cases {t : Uuid} {path : String} (h : tenantPathOf s t = some path) :
    ∃ slug, path = "/tenants/" ++ slug := by
  obtain ⟨x, -, rfl⟩ := map_eq_some_iff.mp h
  exact ⟨x.2, rfl⟩

def accountKey (sa : ServiceAccountRow) : Subject := subjectKey true sa.id

/-- **What managing lends**: whoever rotates a tenant's account holds `tenant.members` on the
tenant, and on every path where it holds it, what the account has by its tenant membership. Whoever
rotates another account holds `platform.users` on `/`, and everything wherever it holds that. -/
theorem rotate_lends_membership (acl db : Db)
    (updateClient : ServiceAccountRow → String → Except ApiError Unit) (p : Principal)
    (id secret : String) (r : ServiceAccountRow × String)
    (h : rotate (load acl) db updateClient p id secret = .ok r) :
    (∀ t, r.1.tenantId = some t → ∃ path, tenantPathOf (load acl) t = some path ∧
      .tenantMembers ∈ (load acl).privileges (subjectOf p) path ∧
      ∀ x, .tenantMembers ∈ (load acl).privileges (subjectOf p) x →
        (∀ e ∈ ((load acl).decide (accountKey r.1) x none).decidedBy,
          e.source = .serviceAccount ∧ e.path = path) →
        ∀ q ∈ (load acl).privileges (accountKey r.1) x, q ∈ (load acl).privileges (subjectOf p) x) ∧
    (r.1.tenantId = none → .platformUsers ∈ (load acl).privileges (subjectOf p) "/" ∧
      ∀ x, .platformUsers ∈ (load acl).privileges (subjectOf p) x →
        ∀ q ∈ (load acl).privileges (accountKey r.1) x, q ∈ (load acl).privileges (subjectOf p) x) := by
  have hmanages := manages_of_rotate h
  unfold manages at hmanages
  constructor
  · intro t ht
    rw [ht] at hmanages
    dsimp only at hmanages
    cases hpath : tenantPathOf (load acl) t with
    | none =>
      rw [hpath] at hmanages
      cases hmanages
    | some path =>
      rw [hpath] at hmanages
      have hgate := of_decide_eq_true hmanages
      refine ⟨path, rfl, hgate, fun x hx hby q hq => ?_⟩
      obtain ⟨slug, rfl⟩ := tenantPathOf_cases hpath
      have hmember := mem_unrestrictedUser_of_membership hby hq
      exact mem_privileges_of_roles (unrestrictedUser_le hmember)
        (fun r => (managing_not_ownedOnly r).1) hx
  · intro ht
    rw [ht] at hmanages
    have hgate := of_decide_eq_true hmanages
    refine ⟨hgate, fun x hx q _ => ?_⟩
    refine mem_privileges_of_roles (fun r hr => ?_) (fun r => (managing_not_ownedOnly r).2) hx
    rw [platformUsers_mem_privileges.mp hr]
    exact mem_administrator_privileges q

def tenantOfB : TenantRow := ⟨idA1, nameT⟩

def accountB : ServiceAccountRow :=
  { id := idB1
    clientId := "sa-00000000-0000-0000-0000-0000000000b1"
    tenantId := some tenantOfB.id
    platformRole := none
    disabled := false }

/-- `userU` is an admin of `tenantOfB`; its account was made Operator of cluster `c`. -/
def operatorAccount : Db where
  users := [⟨userU, "u@example.net", false⟩]
  tenants := [tenantOfB]
  tenantMembers := [⟨tenantOfB.id, userU, .admin⟩]
  serviceAccounts := [accountB]
  clusters := [clusterC]
  aclEntries :=
    [{ id := idE1
       path := "/clusters/c"
       kind := .service
       subjectId := accountB.id
       role := "operator"
       propagate := true
       createdBy := none
       parses := parsePath_clusterC }]
  aclEntries_ids := by simp
  tenantMembers_keys := by simp

theorem rotate_accountB : rotate (load operatorAccount) operatorAccount (fun _ _ => .ok ())
    ⟨false, userU⟩ accountB.id.text "secret" = .ok (accountB, "secret") := by decide

/-- On the tenant itself the account has nothing that its admin lacks. -/
theorem rotate_lends_on_tenant :
    rotate (load operatorAccount) operatorAccount (fun _ _ => .ok ()) ⟨false,
        userU⟩ accountB.id.text "secret" = .ok (accountB, "secret") ∧
      ∀ q ∈ (load operatorAccount).privileges (accountKey accountB) "/tenants/t",
        q ∈ (load operatorAccount).privileges (subjectOf ⟨false, userU⟩) "/tenants/t" := by
  refine ⟨rotate_accountB, ?_⟩
  obtain ⟨path, hpath, hgate, hlends⟩ := (rotate_lends_membership operatorAccount operatorAccount
    (fun _ _ => .ok ()) ⟨false, userU⟩ accountB.id.text "secret" (accountB, "secret")
    rotate_accountB).1 tenantOfB.id rfl
  have hpath' : tenantPathOf (load operatorAccount) tenantOfB.id = some "/tenants/t" := by decide
  obtain rfl := some.inj (hpath.symm.trans hpath')
  exact hlends "/tenants/t" hgate (by decide)

/-- On the cluster it is an Operator, and its tenant's admin is nobody. -/
theorem rotate_lends_entries :
    ¬ ∀ (acl db : Db) (updateClient : ServiceAccountRow → String → Except ApiError Unit)
      (p : Principal) (id secret : String) (r : ServiceAccountRow × String),
      rotate (load acl) db updateClient p id secret = .ok r →
      ∀ x, ∀ q ∈ (load acl).privileges (accountKey r.1) x,
        q ∈ (load acl).privileges (subjectOf p) x := by
  intro h
  have hlends := h operatorAccount operatorAccount (fun _ _ => .ok ()) ⟨false, userU⟩
    accountB.id.text "secret" (accountB, "secret") rotate_accountB "/clusters/c" .clusterView
    (by decide)
  have hnot : Privilege.clusterView ∉
      (load operatorAccount).privileges (subjectOf ⟨false, userU⟩) "/clusters/c" := by decide
  exact hnot hlends

end IncusCloud.Api
