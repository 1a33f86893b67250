import IncusCloud.Acl.Proofs.Entries

/-!
# Whose facts decide

What a subject holds on a path rests on the subject's flag and groups, the object's owner, tenant
and cluster groups, and the entries for the subject's keys on the paths of the chain and of these
groups: snapshots that agree on these (`OwnFacts`) decide alike, and rows of the database that bear
on none of them change nothing (`OwnRows`).
-/

open List

namespace IncusCloud.Acl

open Lib (OrdMap firstHit mem_firstHit_congr)

/-! ### Snapshots -/

/-- The cluster and the project whose tenant a chain asks for. -/
def AclPath.project? : AclPath → Option (String × String)
  | .project c p => some (c, p)
  | .inst c p _ => some (c, p)
  | _ => none

def Snapshot.sides (s : Snapshot) (path : String) : AclPath → List String
  | .inst _ _ _ => s.locatedIn path
  | _ => []

def Snapshot.Reaches (s : Snapshot) (path x : String) : Prop :=
  ∃ p, parsePath path = some p ∧ (x ∈ chain s.tenantOf p ∨ x ∈ s.sides path p)

structure OwnFacts (t : Subject) (path : String) (s s' : Snapshot) : Prop where
  disabled : t ∈ s'.disabled ↔ t ∈ s.disabled
  groups : ∀ g, g ∈ s'.groupsOf t ↔ g ∈ s.groupsOf t
  owner : s'.owners.get path = s.owners.get path
  tenant : ∀ p c r, parsePath path = some p → p.project? = some (c, r) →
    s'.tenantOf c r = s.tenantOf c r
  sides : ∀ p g, parsePath path = some p → (g ∈ s'.sides path p ↔ g ∈ s.sides path p)
  entries : ∀ e : Entry, e.subject ∈ s.keysOf t → s.Reaches path e.path →
    (e ∈ s'.entries ↔ e ∈ s.entries)

section OwnFacts

variable {t : Subject} {path : String} {s s' : Snapshot}

theorem chain_congr {tenantOf tenantOf' : String → String → Option String} {p : AclPath}
    (h : ∀ c r, p.project? = some (c, r) → tenantOf' c r = tenantOf c r) :
      chain tenantOf' p = chain tenantOf p := by
  cases p with
  | project c r => simp only [chain, h c r rfl]
  | inst c r i => simp only [chain, h c r rfl]
  | _ => rfl

theorem mem_levels {l : String × Bool} {line : List String} (h : l ∈ levels line) : l.1 ∈ line := by
  cases line with
  | nil => exact nomatch h
  | cons x line =>
    rcases mem_cons.mp h with rfl | h
    · exact mem_cons_self
    · obtain ⟨y, hy, rfl⟩ := List.mem_map.mp h
      exact mem_cons_of_mem _ hy

theorem mem_deciding_congr {ks ks' : List Subject} (hkeys : ∀ k, k ∈ ks' ↔ k ∈ ks)
    (hhead : ks'.head? = ks.head?)
    {line : List String}
    (hentries : ∀ e : Entry, e.subject ∈ ks → e.path ∈ line → (e ∈ s'.entries ↔ e ∈ s.entries))
    (e : Entry) :
    e ∈ deciding ks' s'.byPath line ↔ e ∈ deciding ks s.byPath line := by
  have hhere : ∀ l ∈ levels line, ∀ e, e ∈ here ks' s'.byPath l ↔ e ∈ here ks s.byPath l := by
    intro l hl e
    rw [mem_here, mem_here, mem_byPath, mem_byPath, hkeys]
    constructor
    · rintro ⟨⟨he, hpath⟩, hkey, hcounts⟩
      have hline : e.path ∈ line := hpath ▸ mem_levels hl
      exact ⟨⟨(hentries e hkey hline).mp he, hpath⟩, hkey, hcounts⟩
    · rintro ⟨⟨he, hpath⟩, hkey, hcounts⟩
      have hline : e.path ∈ line := hpath ▸ mem_levels hl
      exact ⟨⟨(hentries e hkey hline).mpr he, hpath⟩, hkey, hcounts⟩
  have hfirst := mem_firstHit_congr (levels line) hhere
  unfold deciding
  rw [mem_preferOwn, mem_preferOwn]
  unfold Preferred Own
  rw [hhead, hfirst]
  simp only [hfirst]

theorem mem_privilegesOf_of_same {owned : Bool} {es es' : List Entry} (h : ∀ e, e ∈ es' ↔ e ∈ es)
    (q : Privilege) :
    q ∈ privilegesOf owned es' ↔ q ∈ privilegesOf owned es := by
  rw [mem_privilegesOf, mem_privilegesOf]
  simp only [h]

theorem mem_decide {p : AclPath} (hs : t ∉ s.disabled) (hp : parsePath path = some p)
    (owner : Option Subject)
    (q : Privilege) : q ∈ (s.decide t path owner).privileges ↔
      if s.sides path p = [] then
        q ∈ privilegesOf (s.owns owner t path) (deciding (s.keysOf t) s.byPath (chain s.tenantOf p))
      else if deciding (s.keysOf t) s.byPath [path] ≠ [] then
        q ∈ privilegesOf (s.owns owner t path) (deciding (s.keysOf t) s.byPath [path])
      else
        q ∈ privilegesOf (s.owns owner t path)
          (deciding (s.keysOf t) s.byPath (chain s.tenantOf p)) ∨
          ∃ g ∈ s.sides path p, q ∈ privilegesOf (s.owns owner t path)
            (deciding (s.keysOf t) s.byPath [path, g]) := by
  have hdecide : s.decide t path owner =
      if (s.sides path p).isEmpty then
        resolve (s.keysOf t) s.byPath (chain s.tenantOf p) (s.owns owner t path)
      else if !(resolve (s.keysOf t) s.byPath [path] (s.owns owner t path)).decidedBy.isEmpty then
        resolve (s.keysOf t) s.byPath [path] (s.owns owner t path)
      else
        Snapshot.combine (resolve (s.keysOf t) s.byPath (chain s.tenantOf p)
          (s.owns owner t path) ::
          (s.sides path p).map fun g => resolve (s.keysOf t) s.byPath [path, g]
            (s.owns owner t path)) := by
    unfold Snapshot.decide
    rw [hp]
    dsimp only
    rw [if_neg hs]
    cases p <;> rfl
  rw [hdecide]
  by_cases hnil : s.sides path p = []
  · rw [hnil, isEmpty_nil, if_pos rfl, if_pos rfl, resolve_eq]
  · have hempty : (s.sides path p).isEmpty = false := isEmpty_eq_false_iff.mpr hnil
    rw [hempty, if_neg Bool.false_ne_true, if_neg hnil, resolve_eq]
    by_cases hown : deciding (s.keysOf t) s.byPath [path] = []
    · rw [hown]
      simp [Snapshot.combine, resolve_eq]
    · have hdecided : (deciding (s.keysOf t) s.byPath [path]).isEmpty = false :=
        isEmpty_eq_false_iff.mpr hown
      simp [hdecided, hown]

theorem decide_of_ownFacts (h : OwnFacts t path s s') (owner : Option Subject) (q : Privilege) :
    q ∈ (s'.decide t path owner).privileges ↔ q ∈ (s.decide t path owner).privileges := by
  cases hp : parsePath path with
  | none => rw [decide_of_not_parse hp, decide_of_not_parse hp]
  | some p =>
    by_cases hs : t ∈ s.disabled
    · rw [decide_of_disabled hs, decide_of_disabled (h.disabled.mpr hs)]
    · have hs' : t ∉ s'.disabled := fun hd => hs (h.disabled.mp hd)
      have hchain : chain s'.tenantOf p = chain s.tenantOf p := chain_congr fun c r =>
        h.tenant p c r hp
      have howns : s'.owns owner t path = s.owns owner t path := by
        unfold Snapshot.owns
        rw [h.owner]
      have hkeys : ∀ k, k ∈ s'.keysOf t ↔ k ∈ s.keysOf t := by
        intro k
        unfold Snapshot.keysOf
        rw [mem_cons, mem_cons, h.groups]
      have hdeciding : ∀ line : List String, (∀ x ∈ line, s.Reaches path x) → ∀ e,
          e ∈ deciding (s'.keysOf t) s'.byPath line ↔ e ∈ deciding (s.keysOf t) s.byPath line := by
        intro line hline
        exact mem_deciding_congr hkeys rfl fun e hkey hpath => h.entries e hkey (hline e.path hpath)
      have hpath : s.Reaches path path := by
        have hmem : formatPath p ∈ chain s.tenantOf p := by
          cases p <;> simp [chain, formatPath]
        rw [(formatPath_of_parsePath hp).1] at hmem
        exact ⟨p, hp, .inl hmem⟩
      have hfull := hdeciding (chain s.tenantOf p) fun x hx => ⟨p, hp, .inl hx⟩
      have hown := hdeciding [path] fun x hx => mem_singleton.mp hx ▸ hpath
      have hnil : s'.sides path p = [] ↔ s.sides path p = [] := by
        simp only [eq_nil_iff_forall_not_mem, fun g => h.sides p g hp]
      have hownNil : deciding (s'.keysOf t) s'.byPath [path] = [] ↔
        deciding (s.keysOf t) s.byPath [path] = [] := by
        simp only [eq_nil_iff_forall_not_mem, hown]
      have hgroup : ∀ g ∈ s.sides path p, q ∈ privilegesOf (s.owns owner t path)
          (deciding (s'.keysOf t) s'.byPath [path, g]) ↔
            q ∈ privilegesOf (s.owns owner t path) (deciding (s.keysOf t) s.byPath [path, g]) := by
        intro g hg
        refine mem_privilegesOf_of_same (hdeciding [path, g] fun x hx => ?_) q
        rcases mem_cons.mp hx with rfl | hx
        · exact hpath
        · rw [mem_singleton.mp hx]
          exact ⟨p, hp, .inr hg⟩
      rw [mem_decide hs' hp, mem_decide hs hp, hchain, howns]
      simp only [hnil, ne_eq, hownNil, mem_privilegesOf_of_same hfull q,
        mem_privilegesOf_of_same hown q,
        fun g => h.sides p g hp]
      have hexists : (∃ g ∈ s.sides path p, q ∈ privilegesOf (s.owns owner t path)
          (deciding (s'.keysOf t) s'.byPath [path, g])) ↔ ∃ g ∈ s.sides path p,
            q ∈ privilegesOf (s.owns owner t path) (deciding (s.keysOf t) s.byPath [path, g]) :=
        exists_congr fun g => and_congr_right fun hg => hgroup g hg
      rw [hexists]

end OwnFacts

/-! ### Rows -/

theorem filter_innerJoin {α β : Type} {xs : List α} {ys : List β} {on : α → β → Bool}
    {P : α × β → Bool}
    {Q : α → Bool} (h : ∀ x, ∀ y ∈ ys, on x y = true → P (x, y) = true → Q x = true) :
    (innerJoin xs ys on).filter P = (innerJoin (xs.filter Q) ys on).filter P := by
  induction xs with
  | nil => rfl
  | cons x xs ih =>
    have hcons : ∀ zs, innerJoin (x :: zs) ys on = (ys.filter (on x)).map (x, ·) ++
      innerJoin zs ys on := fun zs => rfl
    rw [hcons, filter_append, ih]
    by_cases hx : Q x = true
    · rw [filter_cons_of_pos hx, hcons, filter_append]
    · rw [filter_cons_of_neg hx]
      have hnil : ((ys.filter (on x)).map (x, ·)).filter P = [] := by
        rw [filter_eq_nil_iff]
        intro z hz hP
        obtain ⟨y, hy, rfl⟩ := List.mem_map.mp hz
        obtain ⟨hy, hon⟩ := mem_filter.mp hy
        exact hx (h x y hy hon hP)
      rw [hnil, nil_append]

def bears {α : Type} (db : Db) (clusterId : α → Uuid) (P : α × ClusterRow → Bool) (x : α) : Bool :=
  db.clusters.any fun k => k.id = clusterId x && P (x, k)

theorem filter_withCluster {α : Type} {db db' : Db} {rows rows' : List α} {clusterId : α → Uuid}
    {P : α × ClusterRow → Bool} (hclusters : db'.clusters = db.clusters)
    (hrows : rows'.filter (bears db clusterId P) = rows.filter (bears db clusterId P)) :
    (withCluster db' rows' clusterId).filter P = (withCluster db rows clusterId).filter P := by
  have hbears : ∀ x, ∀ k ∈ db.clusters, decide (k.id = clusterId x) = true → P (x, k) = true →
      bears db clusterId P x = true := by
    intro x k hk hid hpass
    apply any_eq_true.mpr
    refine ⟨k, hk, ?_⟩
    rw [hid, hpass]
    rfl
  unfold withCluster
  rw [hclusters, filter_innerJoin hbears, hrows, ← filter_innerJoin hbears]

/-- The databases differ at most in entries, memberships, placements, instances and owners of
others. -/
structure OwnRows (t : Subject) (path : String) (db db' : Db) : Prop where
  users : db'.users = db.users
  platformRoles : db'.platformRoles = db.platformRoles
  tenants : db'.tenants = db.tenants
  serviceAccounts : db'.serviceAccounts = db.serviceAccounts
  clusters : db'.clusters = db.clusters
  k8sClusters : db'.k8sClusters = db.k8sClusters
  clusterMembers : db'.clusterMembers = db.clusterMembers
  aclEntries : ∀ e : AclEntryRow, entrySubject e ∈ (load db).keysOf t →
    (load db).Reaches path e.path →
    (e ∈ db'.aclEntries ↔ e ∈ db.aclEntries)
  tenantMembers : ∀ m : TenantMemberRow, (⟨.user, m.userId.text⟩ : Subject) = t →
    (m ∈ db'.tenantMembers ↔ m ∈ db.tenantMembers)
  groupMembers : ∀ g : GroupMemberRow, subjectKey g.service g.memberId = t →
    (g ∈ db'.groupMembers ↔ g ∈ db.groupMembers)
  placements : ∀ p c r, parsePath path = some p → p.project? = some (c, r) →
    db'.placements.filter (bears db (·.clusterId) fun x => x.2.name.text = c && x.1.project.text =
      r) =
      db.placements.filter (bears db (·.clusterId) fun x => x.2.name.text = c && x.1.project.text =
        r)
  instances : db'.instances.filter (bears db (·.clusterId) fun x => locatedPath x = path) =
    db.instances.filter (bears db (·.clusterId) fun x => locatedPath x = path)
  instanceOwners : db'.instanceOwners.filter
      (bears db (·.clusterId) fun o => instancePath o.2.name.text o.1.project.text o.1.name.text =
        path) =
    db.instanceOwners.filter
      (bears db (·.clusterId) fun o => instancePath o.2.name.text o.1.project.text o.1.name.text =
        path)

section OwnRows

variable {t : Subject} {path : String} {db db' : Db}

theorem OwnRows.tenantOf_eq (h : OwnRows t path db db') {p : AclPath} {c r : String}
    (hp : parsePath path = some p)
    (hproject : p.project? = some (c, r)) : tenantOf db' c r = tenantOf db c r := by
  have hplaced := filter_withCluster h.clusters (h.placements p c r hp hproject)
  have hplaces : ∀ d : Db,
    (places d).filter (fun x => x.1.2.name.text = c && x.1.1.project.text = r) =
      (innerJoin ((withCluster d d.placements (·.clusterId)).filter
        fun x => x.2.name.text = c && x.1.project.text = r) d.tenants fun p t =>
          t.id = p.1.tenantId).filter
          fun x => x.1.2.name.text = c && x.1.1.project.text = r :=
    fun d => filter_innerJoin fun x y _ _ hpass => hpass
  unfold tenantOf
  rw [hplaces db', hplaces db, hplaced, h.tenants]

theorem OwnRows.locatedIn_eq (h : OwnRows t path db db') :
    locatedIn db' path = locatedIn db path := by
  have hgroups : groupsAt db' = groupsAt db := by
    funext x
    unfold groupsAt withCluster
    rw [h.clusters, h.clusterMembers]
  have hlocated := filter_withCluster h.clusters h.instances
  have hgrouped : ∀ d : Db, (grouped d).filter (fun x => x.1 = path) =
      (((withCluster d d.instances (·.clusterId)).filter fun x => locatedPath x = path).map
        fun x => (locatedPath x, groupsAt d x)).filter fun x => !x.2.isEmpty := by
    intro d
    unfold grouped located
    rw [filter_comm, filter_map]
    rfl
  unfold locatedIn
  rw [hgrouped db', hgrouped db, hlocated, hgroups]

theorem OwnRows.owner_eq (h : OwnRows t path db db') :
    OrdMap.get (OrdMap.ofList (ownedPaths db')) path =
      OrdMap.get (OrdMap.ofList (ownedPaths db)) path := by
  have howners := filter_withCluster h.clusters h.instanceOwners
  -- The owners of instances at the path are read from these rows.
  have hread : ∀ d : Db, (ownedPaths d).filter (fun e => e.1 = path) =
      ((withCluster d d.instanceOwners (·.clusterId)).filter
        fun o => instancePath o.2.name.text o.1.project.text o.1.name.text =
          path).filterMap (fun o =>
          o.1.owner.map fun w =>
            (instancePath o.2.name.text o.1.project.text o.1.name.text, ownerSubject w)) ++
        ((innerJoin d.k8sClusters d.tenants fun k t => t.id = k.tenantId).map fun k =>
          (formatPath (.kubernetes k.2.slug.text k.1.name.text), k.1.createdBy)).filter fun e =>
            e.1 = path := by
    intro d
    unfold ownedPaths
    rw [filter_append, filter_filterMap, filterMap_filter]
    congr 1
    refine filterMap_congr fun o _ => ?_
    cases o.1.owner with
    | none => simp
    | some w =>
      by_cases hpath : instancePath o.2.name.text o.1.project.text o.1.name.text = path
      · simp [hpath]
      · simp [hpath]
  rw [OrdMap.get_ofList, OrdMap.get_ofList, hread db', hread db, howners, h.k8sClusters, h.tenants]

theorem OwnRows.groups_iff (h : OwnRows t path db db') (g : Subject) : g ∈ groupsOf db' t ↔
    g ∈ groupsOf db t := by
  have hmembers : ∀ d : Db,
    g ∈ ((members d).filter fun m => (⟨.user, m.1.userId.text⟩ : Subject) = t).map (fun m =>
      (⟨.tenant, m.1.tenantId.text⟩ : Subject)) ↔ ∃ m ∈ d.tenantMembers,
        (⟨.user, m.userId.text⟩ : Subject) = t ∧
        (∃ k ∈ d.tenants, k.id = m.tenantId) ∧ (⟨.tenant, m.tenantId.text⟩ : Subject) = g := by
    intro d
    simp only [List.mem_map, mem_filter, decide_eq_true_iff, Prod.exists, members, mem_innerJoin]
    constructor
    · rintro ⟨m, k, ⟨⟨hm, hk, hid⟩, hkey⟩, hg⟩
      exact ⟨m, hm, hkey, ⟨k, hk, hid⟩, hg⟩
    · rintro ⟨m, hm, hkey, ⟨k, hk, hid⟩, hg⟩
      exact ⟨m, k, ⟨⟨hm, hk, hid⟩, hkey⟩, hg⟩
  have hgroups : ∀ d : Db,
    g ∈ (d.groupMembers.filter fun g => subjectKey g.service g.memberId = t).map (fun g =>
      (⟨.group, g.groupId.text⟩ : Subject)) ↔ ∃ x ∈ d.groupMembers,
        subjectKey x.service x.memberId = t ∧
        (⟨.group, x.groupId.text⟩ : Subject) = g := by
    intro d
    simp only [List.mem_map, mem_filter, decide_eq_true_iff, and_assoc]
  unfold groupsOf
  rw [mem_append, mem_append, mem_append, mem_append, hmembers, hmembers, hgroups, hgroups,
    h.serviceAccounts, h.tenants]
  refine or_congr_left (or_congr ?_ ?_)
  · refine exists_congr fun x => ?_
    constructor
    · rintro ⟨hx, hkey, hg⟩
      exact ⟨(h.groupMembers x hkey).mp hx, hkey, hg⟩
    · rintro ⟨hx, hkey, hg⟩
      exact ⟨(h.groupMembers x hkey).mpr hx, hkey, hg⟩
  · refine exists_congr fun m => ?_
    constructor
    · rintro ⟨hm, hkey, hg⟩
      exact ⟨(h.tenantMembers m hkey).mp hm, hkey, hg⟩
    · rintro ⟨hm, hkey, hg⟩
      exact ⟨(h.tenantMembers m hkey).mpr hm, hkey, hg⟩

theorem eq_of_user_mem_keysOf {k : Subject} (hk : k ∈ (load db).keysOf t) (huser : k.kind = .user) :
    k = t := by
  rcases mem_cons.mp hk with hk | hk
  · exact hk
  · exfalso
    have hgroup : k ∈ groupsOf db t := hk
    rcases mem_append.mp hgroup with hk | hk
    · rcases mem_append.mp hk with hk | hk
      · obtain ⟨g, -, rfl⟩ := List.mem_map.mp hk
        exact nomatch huser
      · obtain ⟨m, -, rfl⟩ := List.mem_map.mp hk
        exact nomatch huser
    · obtain ⟨a, -, ha⟩ := List.mem_filterMap.mp hk
      obtain ⟨_, -, rfl⟩ := Option.map_eq_some_iff.mp ha
      exact nomatch huser

theorem OwnRows.entries_iff (h : OwnRows t path db db') {e : Entry}
    (hkey : e.subject ∈ (load db).keysOf t)
    (hreach : (load db).Reaches path e.path) : e ∈ (load db').entries ↔ e ∈ (load db).entries := by
  have hentries : ∀ d : Db, e ∈ (load d).entries ↔ e ∈ explicitEntries d ∨
    (e ∈ platformRoleEntries d ∨
      e ∈ membershipEntries d) ∨ e ∈ d.serviceAccounts.filterMap (serviceAccountEntry d) := by
    intro d
    show e ∈ explicitEntries d ++ (platformRoleEntries d ++ membershipEntries d ++ _) ↔ _
    rw [mem_append, mem_append, mem_append]
  have hroles : platformRoleEntries db' = platformRoleEntries db := by
    unfold platformRoleEntries
    rw [h.platformRoles]
  have haccounts : serviceAccountEntry db' = serviceAccountEntry db := by
    funext a
    unfold serviceAccountEntry
    rw [h.tenants]
  have hexplicit : e ∈ explicitEntries db' ↔ e ∈ explicitEntries db := by
    rw [mem_explicitEntries, mem_explicitEntries]
    refine exists_congr fun row => ?_
    constructor
    · rintro ⟨hrow, role, hrole, rfl⟩
      exact ⟨(h.aclEntries row hkey hreach).mp hrow, role, hrole, rfl⟩
    · rintro ⟨hrow, role, hrole, rfl⟩
      exact ⟨(h.aclEntries row hkey hreach).mpr hrow, role, hrole, rfl⟩
  have hmembers : e ∈ membershipEntries db' ↔ e ∈ membershipEntries db := by
    simp only [membershipEntries, List.mem_map, Prod.exists, members, mem_innerJoin, h.tenants]
    refine exists_congr fun m => exists_congr fun k => ?_
    constructor
    · rintro ⟨⟨hm, hk, hid⟩, rfl⟩
      have hself := eq_of_user_mem_keysOf hkey rfl
      exact ⟨⟨(h.tenantMembers m hself).mp hm, hk, hid⟩, rfl⟩
    · rintro ⟨⟨hm, hk, hid⟩, rfl⟩
      have hself := eq_of_user_mem_keysOf hkey rfl
      exact ⟨⟨(h.tenantMembers m hself).mpr hm, hk, hid⟩, rfl⟩
  rw [hentries, hentries, hexplicit, hroles, hmembers, haccounts, h.serviceAccounts]

theorem OwnRows.ownFacts (h : OwnRows t path db db') : OwnFacts t path (load db) (load db') where
  disabled := by
    show t ∈ disabledSubjects db' ↔ t ∈ disabledSubjects db
    unfold disabledSubjects
    rw [h.users, h.serviceAccounts]
  groups := h.groups_iff
  owner := h.owner_eq
  tenant := fun p c r hp hproject => h.tenantOf_eq hp hproject
  sides := by
    intro p g hp
    cases p with
    | inst c r i =>
      show g ∈ locatedIn db' path ↔ g ∈ locatedIn db path
      rw [h.locatedIn_eq]
    | _ => rfl
  entries := fun e hkey hreach => h.entries_iff hkey hreach

end OwnRows

/-- **Decisions depend only on own facts**: snapshots that agree on the subject's and the object's
own facts give the same privileges, and so do databases that differ in the rows of others. -/
theorem own_facts_decide (t : Subject) (path : String) (owner : Option Subject) (q : Privilege) :
    (∀ s s', OwnFacts t path s s' →
      (q ∈ (s'.decide t path owner).privileges ↔ q ∈ (s.decide t path owner).privileges)) ∧
    ∀ db db', OwnRows t path db db' →
      (q ∈ ((load db').decide t path owner).privileges ↔
        q ∈ ((load db).decide t path owner).privileges) :=
  ⟨fun _ _ h => decide_of_ownFacts h owner q, fun _ _ h => decide_of_ownFacts h.ownFacts owner q⟩

def withEntries (entries : List Entry) : Snapshot where
  entries := entries
  disabled := []
  tenantOf _ _ := none
  projectsOf _ := []
  ids := ⟨[], [], [], []⟩
  owners := []
  projects := []
  groupsOf _ := []
  locatedIn _ := []
  onGroup _ := []

def operatorOnLab (user : String) : Entry :=
    ⟨user, "/clusters/lab", ⟨.user, user⟩, .operator, true, .acl⟩

/-- What another user has on the cluster does not bear on what one has there. -/
theorem own_facts_decide_operatorOnLab :
    .clusterView ∈ ((withEntries [operatorOnLab "ann", operatorOnLab "bob"]).decide ⟨.user, "ann"⟩
      "/clusters/lab" none).privileges ↔
      .clusterView ∈ ((withEntries [operatorOnLab "ann"]).decide ⟨.user, "ann"⟩
        "/clusters/lab" none).privileges := by
  refine (own_facts_decide ⟨.user, "ann"⟩ "/clusters/lab" none .clusterView).1 _ _
    ⟨Iff.rfl, fun _ => Iff.rfl, rfl, fun _ _ _ _ _ => rfl, fun p _ _ => by cases p <;> rfl,
      fun e hkey _ => ?_⟩
  have hann : e.subject = ⟨.user, "ann"⟩ := mem_singleton.mp hkey
  have hbob : e ≠ operatorOnLab "bob" := fun h => absurd (hann.symm.trans (congrArg (·.subject) h))
    (by decide)
  simp [withEntries, hbob]

end IncusCloud.Acl
