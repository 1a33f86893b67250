import IncusCloud.Acl.Proofs.Entries

/-!
# Service accounts and their owners

`load` does not read who created a service account: what the account holds is decided by entries for
the account, its groups and its tenant's default group. So nothing that is a user's bears on it,
its owner's rights included (`account_rights_are_its_own`), and an account may hold what its owner
does not (`account_outranks_owner`).
-/

open List

namespace IncusCloud.Acl

open Lib (firstHit exists_of_mem_firstHit)

/-! ### What a subject's rights rest on -/

structure SameFor (t : Subject) (s s' : Snapshot) : Prop where
  disabled : t ∈ s'.disabled ↔ t ∈ s.disabled
  tenantOf : s'.tenantOf = s.tenantOf
  owners : s'.owners = s.owners
  groupsOf : s'.groupsOf t = s.groupsOf t
  locatedIn : s'.locatedIn = s.locatedIn
  entries : s'.entries.filter (fun e => e.subject ∈ s.keysOf t) =
    s.entries.filter fun e => e.subject ∈ s.keysOf t

section SameFor

variable {t : Subject} {s s' : Snapshot}

theorem here_byPath (s : Snapshot) (ks : List Subject) (l : String × Bool) :
    here ks s.byPath l =
      (s.entries.filter fun e => e.subject ∈ ks).filter fun e => e.path = l.1 && (l.2 || e.propagate) := by
  unfold here Snapshot.byPath
  rw [filter_filter, filter_filter]
  refine filter_congr fun e _ => ?_
  cases decide (e.subject ∈ ks) <;> simp [Bool.and_comm]

theorem resolve_same (h : SameFor t s s') (line : List String) (owned : Bool) :
    resolve (s.keysOf t) s'.byPath line owned = resolve (s.keysOf t) s.byPath line owned := by
  have hhere : here (s.keysOf t) s'.byPath = here (s.keysOf t) s.byPath := by
    funext l
    rw [here_byPath, here_byPath, h.entries]
  rw [resolve_eq, resolve_eq]
  unfold deciding
  rw [hhere]

theorem decide_same (h : SameFor t s s') (path : String) (owner : Option Subject) :
    s'.decide t path owner = s.decide t path owner := by
  have hkeys : s'.keysOf t = s.keysOf t := by
    rw [Snapshot.keysOf, Snapshot.keysOf, h.groupsOf]
  have howns : s'.owns owner t path = s.owns owner t path := by
    rw [Snapshot.owns, Snapshot.owns, h.owners]
  unfold Snapshot.decide
  simp only [h.disabled, hkeys, howns, h.tenantOf, h.locatedIn, resolve_same h]

end SameFor

/-! ### What is not a user's -/

/-- The databases differ at most in what is a user's: the users, their platform roles, memberships,
groups and entries. -/
structure SameButUsers (db db' : Db) : Prop where
  tenants : db'.tenants = db.tenants
  serviceAccounts : db'.serviceAccounts = db.serviceAccounts
  groupMembers : db'.groupMembers.filter (·.service) = db.groupMembers.filter (·.service)
  aclEntries : db'.aclEntries.filter (·.kind ≠ .user) = db.aclEntries.filter (·.kind ≠ .user)
  clusters : db'.clusters = db.clusters
  placements : db'.placements = db.placements
  instanceOwners : db'.instanceOwners = db.instanceOwners
  k8sClusters : db'.k8sClusters = db.k8sClusters
  instances : db'.instances = db.instances
  clusterMembers : db'.clusterMembers = db.clusterMembers

section Users

variable {db db' : Db} {a : Uuid}

theorem groupsOf_account (db : Db) (a : Uuid) :
    groupsOf db (subjectKey true a) =
      ((db.groupMembers.filter (·.service)).filter fun g => g.memberId = a).map (fun g =>
        ⟨.group, g.groupId.text⟩) ++
      (db.serviceAccounts.filter fun r => r.id = a).filterMap fun r =>
        r.tenantId.map fun t => ⟨.tenant, t.text⟩ := by
  have htext : ∀ x y : Uuid, x.text = y.text ↔ x = y := fun x y => by
    rw [Uuid.mk.injEq]
  have hmembers : ((members db).filter fun m =>
      (⟨.user, m.1.userId.text⟩ : Subject) = subjectKey true a) = [] := by
    simp [subjectKey]
  unfold groupsOf
  rw [hmembers, map_nil, append_nil, filter_filter]
  congr 2
  · refine filter_congr fun g _ => ?_
    cases hg : g.service <;> simp [subjectKey, htext]
  · refine filter_congr fun r _ => ?_
    simp [subjectKey, htext]

theorem kind_of_mem_keysOf {k : Subject} (hk : k ∈ (load db).keysOf (subjectKey true a)) :
    k.kind ≠ .user := by
  rcases mem_cons.mp hk with rfl | hk
  · exact SubjectKind.noConfusion
  · have hgroup : k ∈ groupsOf db (subjectKey true a) := hk
    rw [groupsOf_account] at hgroup
    rcases mem_append.mp hgroup with hk | hk
    · obtain ⟨g, -, rfl⟩ := List.mem_map.mp hk
      exact SubjectKind.noConfusion
    · obtain ⟨r, -, hr⟩ := List.mem_filterMap.mp hk
      obtain ⟨t, -, rfl⟩ := Option.map_eq_some_iff.mp hr
      exact SubjectKind.noConfusion

theorem explicitEntries_not_user (db : Db) :
    (explicitEntries db).filter (fun e => e.subject.kind ≠ .user) =
      (db.aclEntries.filter (·.kind ≠ .user)).filterMap fun e =>
        (isRoleId e.role).map fun role =>
          { id := e.id.text, path := e.path, subject := entrySubject e, role,
            propagate := e.propagate, source := .acl } := by
  unfold explicitEntries
  rw [filter_filterMap, filterMap_filter]
  refine filterMap_congr fun e _ => ?_
  cases hrole : isRoleId e.role with
  | none => simp
  | some role =>
    by_cases hkind : e.kind = .user
    · simp [entrySubject, hkind]
    · simp [entrySubject, hkind]

theorem virtualEntries_not_user (db : Db) :
    (virtualEntries db).filter (fun e => e.subject.kind ≠ .user) =
      (db.serviceAccounts.filterMap (serviceAccountEntry db)).filter
        fun e => e.subject.kind ≠ .user := by
  have hroles : (platformRoleEntries db).filter (fun e => e.subject.kind ≠ .user) = [] := by
    simp [platformRoleEntries]
  have hmembers : (membershipEntries db).filter (fun e => e.subject.kind ≠ .user) = [] := by
    refine filter_eq_nil_iff.mpr fun e he => ?_
    obtain ⟨m, -, rfl⟩ := List.mem_map.mp he
    simp
  unfold virtualEntries
  rw [filter_append, filter_append, hroles, hmembers, nil_append, nil_append]

theorem entries_not_user (h : SameButUsers db db') :
    (load db').entries.filter (fun e => e.subject.kind ≠ .user) =
      (load db).entries.filter fun e => e.subject.kind ≠ .user := by
  have haccounts : serviceAccountEntry db' = serviceAccountEntry db := by
    funext r
    unfold serviceAccountEntry
    rw [h.tenants]
  show (explicitEntries db' ++ virtualEntries db').filter _ =
    (explicitEntries db ++ virtualEntries db).filter _
  rw [filter_append, filter_append, explicitEntries_not_user, explicitEntries_not_user,
    virtualEntries_not_user, virtualEntries_not_user, h.aclEntries, h.serviceAccounts, haccounts]

theorem sameFor_account (h : SameButUsers db db') (a : Uuid) :
    SameFor (subjectKey true a) (load db) (load db') := by
  have hcluster {α : Type} (rows : List α) (id : α → Uuid) :
      withCluster db' rows id = withCluster db rows id := by
    unfold withCluster
    rw [h.clusters]
  have hplaces : places db' = places db := by
    unfold places
    rw [hcluster, h.placements, h.tenants]
  have hgrouped : grouped db' = grouped db := by
    have hat : groupsAt db' = groupsAt db := by
      funext i
      unfold groupsAt
      rw [hcluster, h.clusterMembers]
    unfold grouped located
    rw [hcluster, h.instances, hat]
  refine ⟨?_, ?_, ?_, ?_, ?_, ?_⟩
  · -- A user's flag is not an account's.
    show _ ∈ disabledSubjects db' ↔ _ ∈ disabledSubjects db
    unfold disabledSubjects
    rw [h.serviceAccounts, mem_append, mem_append]
    refine or_congr_left (iff_of_false ?_ ?_)
    · simp [subjectKey]
    · simp [subjectKey]
  · show tenantOf db' = tenantOf db
    funext c p
    unfold tenantOf
    rw [hplaces]
  · show Lib.OrdMap.ofList (ownedPaths db') = Lib.OrdMap.ofList (ownedPaths db)
    unfold ownedPaths
    rw [hcluster, h.instanceOwners, h.k8sClusters, h.tenants]
  · show groupsOf db' _ = groupsOf db _
    rw [groupsOf_account, groupsOf_account, h.groupMembers, h.serviceAccounts]
  · show locatedIn db' = locatedIn db
    funext path
    unfold locatedIn
    rw [hgrouped]
  · -- The entries that count are none of a user's.
    have hcounted (es : List Entry) :
        es.filter (fun e => e.subject ∈ (load db).keysOf (subjectKey true a)) =
          (es.filter fun e => e.subject.kind ≠ .user).filter
            fun e => e.subject ∈ (load db).keysOf (subjectKey true a) := by
      rw [filter_filter]
      refine filter_congr fun e _ => ?_
      by_cases he : e.subject ∈ (load db).keysOf (subjectKey true a)
      · simp [he, kind_of_mem_keysOf he]
      · simp [he]
    rw [hcounted (load db').entries, hcounted (load db).entries, entries_not_user h]

end Users

/-- Where the entry that gives an account something comes from: it names the account, a group the
account was put in, or its tenant's default group. -/
def NamesAccount (db : Db) (a : Uuid) (subject : Subject) : Prop :=
  subject = subjectKey true a ∨
    (∃ g ∈ db.groupMembers, g.service ∧ g.memberId = a ∧ subject = ⟨.group, g.groupId.text⟩) ∨
    ∃ r ∈ db.serviceAccounts, r.id = a ∧ ∃ t, r.tenantId = some t ∧ subject = ⟨.tenant, t.text⟩

theorem namesAccount_of_mem_keysOf {db : Db} {a : Uuid} {k : Subject}
    (hk : k ∈ (load db).keysOf (subjectKey true a)) : NamesAccount db a k := by
  rcases mem_cons.mp hk with rfl | hk
  · exact .inl rfl
  · have hgroup : k ∈ groupsOf db (subjectKey true a) := hk
    rw [groupsOf_account] at hgroup
    rcases mem_append.mp hgroup with hk | hk
    · obtain ⟨g, hg, rfl⟩ := List.mem_map.mp hk
      obtain ⟨hg, hmember⟩ := mem_filter.mp hg
      obtain ⟨hg, hservice⟩ := mem_filter.mp hg
      exact .inr (.inl ⟨g, hg, hservice, of_decide_eq_true hmember, rfl⟩)
    · obtain ⟨r, hr, hkey⟩ := List.mem_filterMap.mp hk
      obtain ⟨hr, hid⟩ := mem_filter.mp hr
      obtain ⟨t, ht, rfl⟩ := Option.map_eq_some_iff.mp hkey
      exact .inr (.inr ⟨r, hr, of_decide_eq_true hid, t, ht, rfl⟩)

/-- **A service account's rights are its own**: whatever the users' rights, its owner's among them,
become, the account is given the same on every path; what it is given comes from entries that name
the account, its groups or its tenant's default group; and an account that is disabled is given
nothing. -/
theorem account_rights_are_its_own {db db' : Db} (h : SameButUsers db db') (a : Uuid)
    (path : String) : (∀ owner, (load db').decide (subjectKey true a) path owner =
      (load db).decide (subjectKey true a) path owner) ∧
    (∀ q ∈ (load db).privileges (subjectKey true a) path,
      ∃ e ∈ (load db).entries, NamesAccount db a e.subject ∧
        q ∈ e.role.privileges ++ e.role.ownedOnly) ∧
    ((∃ r ∈ db.serviceAccounts, r.id = a ∧ r.disabled) →
      (load db).privileges (subjectKey true a) path = []) := by
  refine ⟨fun owner => decide_same (sameFor_account h a) path owner, fun q hq => ?_, ?_⟩
  · obtain ⟨-, p, -, line, -, hq⟩ := mem_privileges.mp hq
    obtain ⟨-, e, he, hgives⟩ := mem_privilegesOf.mp hq
    obtain ⟨l, -, -, he⟩ := exists_of_mem_firstHit (preferOwn_subset he)
    obtain ⟨hby, hkey, -⟩ := mem_here.mp he
    refine ⟨e, (mem_byPath.mp hby).1, namesAccount_of_mem_keysOf hkey, ?_⟩
    rcases hgives with hrole | ⟨-, howned⟩
    · exact mem_append_left _ hrole
    · exact mem_append_right _ howned
  · rintro ⟨r, hr, rfl, hdisabled⟩
    have hoff : subjectKey true r.id ∈ (load db).disabled := by
      refine mem_append_right _ (List.mem_map.mpr ⟨r, ?_, rfl⟩)
      exact mem_filter.mpr ⟨hr, hdisabled⟩
    rw [Snapshot.privileges, decide_of_disabled hoff]

/-! ### An account of a user with no rights -/

/-- Who created each service account: the column `created_by`, which `load` does not read. -/
abbrev CreatedBy := Uuid → Option Uuid

/-- An account that `userU` made, Operator of cluster `c`. -/
def clusterAccount : ServiceAccountRow :=
  { id := idB2
    clientId := "sa-00000000-0000-0000-0000-0000000000b2"
    tenantId := none
    platformRole := none
    disabled := false }

def madeByU : CreatedBy := fun a => if a = clusterAccount.id then some userU else none

/-- `userU` with the flag and the platform roles given, and its account. -/
def withOwner (disabled : Bool) (roles : List PlatformRoleRow) : Db where
  users := [⟨userU, "u@example.net", disabled⟩]
  platformRoles := roles
  serviceAccounts := [clusterAccount]
  clusters := [clusterC]
  aclEntries :=
    [{ id := idE2
       path := "/clusters/c"
       kind := .service
       subjectId := clusterAccount.id
       role := "operator"
       propagate := true
       createdBy := none
       parses := parsePath_clusterC }]
  aclEntries_ids := by simp
  tenantMembers_keys := tenantMembers_keys_nil

/-- The account of an administrator is given the same once its owner is disabled and has no role. -/
theorem account_keeps_rights_of_disabled_owner :
    (load (withOwner true [])).privileges (subjectKey true clusterAccount.id) "/clusters/c" =
        (load (withOwner false [⟨userU, .admin⟩])).privileges (subjectKey true clusterAccount.id)
          "/clusters/c" ∧
      .clusterView ∈ (load (withOwner true [])).privileges (subjectKey true clusterAccount.id)
        "/clusters/c" := by
  have hsame : SameButUsers (withOwner false [⟨userU, .admin⟩]) (withOwner true []) :=
    ⟨rfl, rfl, rfl, rfl, rfl, rfl, rfl, rfl, rfl, rfl⟩
  refine ⟨?_, by decide⟩
  exact congrArg Resolution.privileges
    ((account_rights_are_its_own hsame clusterAccount.id "/clusters/c").1 none)

/-- An account may hold what its owner does not, and holds it while its owner is disabled. -/
theorem account_outranks_owner :
    (¬ ∀ (db : Db) (createdBy : CreatedBy), ∀ r ∈ db.serviceAccounts, ∀ u ∈ db.users,
      createdBy r.id = some u.id → ∀ path, ∀ q ∈ (load db).privileges (subjectKey true r.id) path,
        q ∈ (load db).privileges (subjectKey false u.id) path) ∧
    ¬ ∀ (db : Db) (createdBy : CreatedBy), ∀ r ∈ db.serviceAccounts, ∀ u ∈ db.users,
      createdBy r.id = some u.id → u.disabled →
        ∀ path, (load db).privileges (subjectKey true r.id) path = [] := by
  have hheld : .clusterView ∈ (load (withOwner true [])).privileges
      (subjectKey true clusterAccount.id) "/clusters/c" := by decide
  constructor
  · intro h
    have hnot : Privilege.clusterView ∉ (load (withOwner true [])).privileges
        (subjectKey false userU) "/clusters/c" := by decide
    exact hnot (h (withOwner true []) madeByU clusterAccount mem_cons_self _ mem_cons_self rfl
      "/clusters/c" .clusterView hheld)
  · intro h
    have hnone := h (withOwner true []) madeByU clusterAccount mem_cons_self _ mem_cons_self rfl
      rfl "/clusters/c"
    rw [hnone] at hheld
    cases hheld

end IncusCloud.Acl
