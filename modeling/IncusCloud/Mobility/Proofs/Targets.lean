import IncusCloud.Acl.Proofs.Resolve
import IncusCloud.Mobility.Targets

/-!
# Targets the caller may create in

Both functions ask for the cluster's own path and then take any project on it, and below a cluster
permissions can be others than the cluster's. `KeptBelow` reads off the entries when nothing takes
`instance.create` away between a cluster and a project on it (`can_iff_kept`), and
`targets_allowed_iff` says that this is when the project they answer is one the caller may create
in.
-/

namespace IncusCloud.Mobility

open Acl
open Lib (need found firstHit firstHit_append firstHit_cons_of_eq_nil firstHit_cons_of_ne_nil firstHit_eq_nil
  split need_bind_eq_ok found_bind_eq_ok bind_eq_ok)
variable {acl s : Snapshot} {parsed : AclPath} {p : Principal}

/-! ### Entries that allow creating -/

/-- The entries of one level, the caller's own before its groups', give `instance.create`, and No
access is not among them. -/
def Allow (s : Snapshot) (x : Subject) (es : List Acl.Entry) : Prop :=
  .instanceCreate ∈ privilegesOf false (preferOwn (s.keysOf x) es)

instance (s : Snapshot) (x : Subject) (es : List Acl.Entry) : Decidable (Allow s x es) :=
  inferInstanceAs (Decidable (_ ∈ _))

def standing (s : Snapshot) (x : Subject) (path : String) : List Acl.Entry :=
  here (s.keysOf x) s.byPath (path, true)

def passedOn (s : Snapshot) (x : Subject) (path : String) : List Acl.Entry :=
  here (s.keysOf x) s.byPath (path, false)

def levelsBelow (s : Snapshot) : AclPath → List (String × Bool)
  | .project c q => levels (projectPath c q :: tenantLevel (s.tenantOf c q))
  | .inst c q i => levels (instancePath c q i :: projectPath c q :: tenantLevel (s.tenantOf c q))
  | _ => []

def nearest (s : Snapshot) (x : Subject) (parsed : AclPath) : List Acl.Entry :=
  firstHit (here (s.keysOf x) s.byPath) (levelsBelow s parsed)

/-- What a cluster passes on still allows creating: it has no entries of the caller's and `/` passes
its own on, or those of its entries that propagate allow it, or `/` does where none propagates. -/
def PassesOn (s : Snapshot) (x : Subject) (cluster : String) : Prop :=
  standing s x (clusterPath cluster) = [] ∨
    (if passedOn s x (clusterPath cluster) = [] then Allow s x (passedOn s x "/")
      else Allow s x (passedOn s x (clusterPath cluster)))

/-- Nothing takes `instance.create` away between the cluster and the path: it is a path, and the
caller's nearest entries below the cluster allow creating, or there are none and the cluster passes
it on. A project given as `<project>/instances/<name>` spells an instance's path, which the groups
of its member allow too. -/
def KeptBelow (s : Snapshot) (x : Subject) (cluster path : String) : Prop :=
  ∃ parsed, parsePath path = some parsed ∧
    ((if nearest s x parsed = [] then PassesOn s x cluster else Allow s x (nearest s x parsed)) ∨
      (∃ c q i, parsed = .inst c q i) ∧ standing s x path = [] ∧
        ∃ g ∈ s.locatedIn path, Allow s x (passedOn s x g))

/-! ### What the entries decide -/

theorem instanceCreate_mem_privilegesOf {owned : Bool} {es : List Acl.Entry} :
    .instanceCreate ∈ privilegesOf owned es ↔ .instanceCreate ∈ privilegesOf false es := by
  have hrole : ∀ r : RoleId, Privilege.instanceCreate ∈ r.ownedOnly →
      Privilege.instanceCreate ∈ r.privileges := by
    intro r
    cases r <;> decide
  rw [mem_privilegesOf, mem_privilegesOf]
  refine and_congr_right fun _ => exists_congr fun e => and_congr_right fun _ => ?_
  constructor
  · rintro (h | ⟨-, h⟩)
    · exact .inl h
    · exact .inl (hrole e.role h)
  · rintro (h | ⟨h, -⟩)
    · exact .inl h
    · exact absurd h Bool.false_ne_true

variable {x : Subject}

theorem mem_resolve {line : List String} {owned : Bool} :
    .instanceCreate ∈ (resolve (s.keysOf x) s.byPath line owned).privileges ↔
      Allow s x (firstHit (here (s.keysOf x) s.byPath) (levels line)) := by
  rw [resolve_eq, instanceCreate_mem_privilegesOf]
  rfl

theorem levels_append (p : String) (ps qs : List String) :
    levels (p :: ps ++ qs) = levels (p :: ps) ++ qs.map (·, false) := by
  simp [levels]

theorem levels_chain {c : String}
    (h : (∃ q, parsed = .project c q) ∨ ∃ q i, parsed = .inst c q i) :
    levels (chain s.tenantOf parsed) = levelsBelow s parsed ++ [(clusterPath c, false), ("/", false)] := by
  rcases h with ⟨q, rfl⟩ | ⟨q, i, rfl⟩
  · exact levels_append _ _ [clusterPath c, "/"]
  · exact levels_append _ (_ :: _) [clusterPath c, "/"]

theorem allow_cluster_iff {c : String}
    (hc : Allow s x (firstHit (here (s.keysOf x) s.byPath) [(clusterPath c, true), ("/", false)])) :
    Allow s x (firstHit (here (s.keysOf x) s.byPath) [(clusterPath c, false), ("/", false)]) ↔
      PassesOn s x c := by
  have hpassed : standing s x (clusterPath c) = [] → passedOn s x (clusterPath c) = [] := by
    intro h
    rw [passedOn, here_false]
    rw [standing] at h
    rw [h]
    rfl
  have hroot : firstHit (here (s.keysOf x) s.byPath) [("/", false)] = passedOn s x "/" := by
    by_cases h : here (s.keysOf x) s.byPath ("/", false) = []
    · rw [firstHit_cons_of_eq_nil _ h]
      exact h.symm
    · exact firstHit_cons_of_ne_nil _ h
  unfold PassesOn
  by_cases hst : standing s x (clusterPath c) = []
  · -- The cluster has no entries of the caller's: `/` decided there, and decides below it.
    have hfalse : passedOn s x (clusterPath c) = [] := hpassed hst
    have hup : firstHit (here (s.keysOf x) s.byPath) [(clusterPath c, true), ("/", false)] = _ :=
      firstHit_cons_of_eq_nil _ hst
    have hdown : firstHit (here (s.keysOf x) s.byPath) [(clusterPath c, false), ("/", false)] = _ :=
      firstHit_cons_of_eq_nil _ hfalse
    rw [hup] at hc
    rw [hdown]
    exact iff_of_true hc (.inl hst)
  · rw [or_iff_right hst]
    split_ifs with hp
    · have hdown : firstHit (here (s.keysOf x) s.byPath) [(clusterPath c, false), ("/", false)] = _ :=
        firstHit_cons_of_eq_nil _ hp
      rw [hdown, hroot]
    · have hdown : firstHit (here (s.keysOf x) s.byPath) [(clusterPath c, false), ("/", false)] =
          passedOn s x (clusterPath c) := firstHit_cons_of_ne_nil _ hp
      rw [hdown]

theorem allow_chain_iff {c : String}
    (h : (∃ q, parsed = .project c q) ∨ ∃ q i, parsed = .inst c q i)
    (hc : Allow s x (firstHit (here (s.keysOf x) s.byPath) [(clusterPath c, true), ("/", false)])) :
    Allow s x (firstHit (here (s.keysOf x) s.byPath) (levels (chain s.tenantOf parsed))) ↔
      if nearest s x parsed = [] then PassesOn s x c else Allow s x (nearest s x parsed) := by
  rw [levels_chain h, firstHit_append]
  show Allow s x (if nearest s x parsed = [] then _ else nearest s x parsed) ↔ _
  by_cases hn : nearest s x parsed = []
  · rw [if_pos hn, if_pos hn]
    exact allow_cluster_iff hc
  · rw [if_neg hn, if_neg hn]

/-! ### Which paths a project's text spells -/

theorem parsed_of_project {c : Name} {q : String}
    (h : parsePath (projectPath c.text q) = some parsed) :
    (∃ r, parsed = .project c.text r) ∨ ∃ r i, parsed = .inst c.text r i := by
  have hsegs : segments parsed = "clusters" :: c.text :: "projects" :: split '/' q := by
    have hnames := names_noSlash_of_parsePath h
    have hformat : formatPath parsed = projectPath c.text q := (formatPath_of_parsePath h).1
    rw [← split_formatPath hnames, hformat]
    have htext : ((projectPath c.text q).toList.drop 1) =
        "clusters".toList ++ '/' :: (c.text.toList ++ '/' :: ("projects".toList ++ '/' :: q.toList)) := by
      simp [projectPath, formatPath]
    rw [htext]
    unfold split
    rw [String.toList_ofList, List.splitOn_append_cons_self_of_not_mem (by decide),
      List.splitOn_append_cons_self_of_not_mem c.noSlash,
      List.splitOn_append_cons_self_of_not_mem (by decide)]
    simp
  cases parsed with
  | project d r =>
    have hd : d = c.text := by simp_all [segments]
    subst hd
    exact .inl ⟨r, rfl⟩
  | inst d r i =>
    have hd : d = c.text := by simp_all [segments]
    subst hd
    exact .inr ⟨r, i, rfl⟩
  | _ => simp_all [segments]

theorem can_iff {q : Privilege} {path : String} :
    s.can p q path = true ↔ q ∈ s.privileges (subjectOf p) path := by
  simp [Snapshot.can]

theorem not_disabled {path : String} {q : Privilege}
    (h : q ∈ s.privileges x path) : x ∉ s.disabled := by
  intro hd
  rw [Snapshot.privileges, decide_of_disabled hd] at h
  exact absurd h List.not_mem_nil

theorem allow_of_can_cluster {c : Name}
    (h : s.can p .instanceCreate (clusterPath c.text) = true) :
    Allow s (subjectOf p) (firstHit (here (s.keysOf (subjectOf p)) s.byPath)
      [(clusterPath c.text, true), ("/", false)]) := by
  have hmem : Privilege.instanceCreate ∈ s.privileges (subjectOf p) (clusterPath c.text) := can_iff.mp h
  have hparse : parsePath (clusterPath c.text) = some (.cluster c.text) := by
    have hslash : ∀ n ∈ (AclPath.cluster c.text).names, '/' ∉ n.toList := by
      simpa [AclPath.names] using c.noSlash
    have hread := parsePath_of_noSlash hslash
    split_ifs at hread
    · exact hread
    · rw [Snapshot.privileges, clusterPath, decide_of_not_parse hread] at hmem
      exact absurd hmem List.not_mem_nil
  rw [Snapshot.privileges, decide_eq_resolve (not_disabled hmem) hparse (.inl (by simp)),
    mem_resolve] at hmem
  exact hmem

/-- **Below a cluster**: who may create on a cluster's path may create on the path of a project
there exactly when nothing takes it away in between. -/
theorem can_iff_kept {c : Name} (q : String)
    (h : s.can p .instanceCreate (clusterPath c.text) = true) :
    s.can p .instanceCreate (projectPath c.text q) = true ↔
      KeptBelow s (subjectOf p) c.text (projectPath c.text q) := by
  have hallow := allow_of_can_cluster h
  have hs : subjectOf p ∉ s.disabled := not_disabled (can_iff.mp h)
  rw [can_iff]
  cases hparse : parsePath (projectPath c.text q) with
  | none =>
    rw [Snapshot.privileges, decide_of_not_parse hparse]
    refine iff_of_false List.not_mem_nil ?_
    rintro ⟨parsed, hp, -⟩
    rw [hparse] at hp
    cases hp
  | some parsed =>
    have hkept : KeptBelow s (subjectOf p) c.text (projectPath c.text q) ↔
        (if nearest s (subjectOf p) parsed = [] then PassesOn s (subjectOf p) c.text
            else Allow s (subjectOf p) (nearest s (subjectOf p) parsed)) ∨
          (∃ c q i, parsed = .inst c q i) ∧ standing s (subjectOf p) (projectPath c.text q) = [] ∧
            ∃ g ∈ s.locatedIn (projectPath c.text q), Allow s (subjectOf p) (passedOn s (subjectOf p) g) := by
      constructor
      · rintro ⟨parsed', hp, hk⟩
        have : parsed' = parsed := Option.some.inj (hp.symm.trans hparse)
        rwa [this] at hk
      · exact fun hk => ⟨parsed, hparse, hk⟩
    rw [hkept]
    rcases parsed_of_project hparse with ⟨r, rfl⟩ | ⟨r, i, rfl⟩
    · -- A project's path: its chain alone decides.
      rw [Snapshot.privileges, decide_eq_resolve hs hparse (.inl (by simp)), mem_resolve,
        allow_chain_iff (.inl ⟨r, rfl⟩) hallow]
      simp
    · -- An instance's path: its own entries decide, else its project's side or a group's.
      have hpath : formatPath (.inst c.text r i) = projectPath c.text q := (formatPath_of_parsePath hparse).1
      have hplace : (∃ q, AclPath.inst c.text r i = .project c.text q) ∨
          ∃ q j, AclPath.inst c.text r i = .inst c.text q j := .inr ⟨r, i, rfl⟩
      have hchain := allow_chain_iff hplace hallow
      have hown : deciding (s.keysOf (subjectOf p)) s.byPath [projectPath c.text q] = [] ↔
          standing s (subjectOf p) (projectPath c.text q) = [] := by
        rw [deciding_eq_nil]
        simp [levels, standing]
      rw [mem_privileges_inst hs hparse]
      simp only [instanceCreate_mem_privilegesOf]
      rw [← hchain]
      by_cases hst : standing s (subjectOf p) (projectPath c.text q) = []
      · rw [if_neg (not_not.mpr (hown.mpr hst))]
        have hsides : ∀ g, Privilege.instanceCreate ∈ privilegesOf false
              (deciding (s.keysOf (subjectOf p)) s.byPath [projectPath c.text q, g]) ↔
            Allow s (subjectOf p) (passedOn s (subjectOf p) g) := by
          intro g
          have hg : firstHit (here (s.keysOf (subjectOf p)) s.byPath) [(g, false)] =
              passedOn s (subjectOf p) g := by
            by_cases hnil : here (s.keysOf (subjectOf p)) s.byPath (g, false) = []
            · rw [firstHit_cons_of_eq_nil _ hnil]
              exact hnil.symm
            · exact firstHit_cons_of_ne_nil _ hnil
          rw [deciding_of_head_nil (hown.mpr hst), List.map_cons, List.map_nil, hg]
          rfl
        simp only [hsides, hst, true_and]
        simp [deciding, Allow]
      · rw [if_pos (fun hnil => hst (hown.mp hnil))]
        have hhead : deciding (s.keysOf (subjectOf p)) s.byPath (chain s.tenantOf (.inst c.text r i)) =
            deciding (s.keysOf (subjectOf p)) s.byPath [projectPath c.text q] := by
          rw [chain_inst, hpath]
          exact deciding_of_head fun hnil => hst (hown.mp hnil)
        rw [← hhead]
        simp [hst, deciding, Allow]

/-! ### The two functions -/

theorem uuidParam_eq_ok {id what a : String} : uuidParam id what = .ok a ↔ isUuid id = true ∧ a = id := by
  rw [uuidParam, need_bind_eq_ok]
  refine and_congr_right fun _ => ?_
  show Except.ok id = Except.ok a ↔ a = id
  rw [Except.ok.injEq]
  exact eq_comm

/-- The project a caller who may create on the cluster gets: the one the body names, else the
tenant's placement there, else the same one. -/
def namedProject (db : TargetTables) (tenantId : Option Uuid) (dst : TargetCluster)
    (named : Option String) (project : Name) : String :=
  named.getD (((db.placement tenantId dst.id).map (·.project.text)).getD project.text)

variable {db : TargetTables}

theorem resolveTarget_ok {inst : InventoryInstance}
    {body : MigrationBody} {privilege : Privilege} {t : MigrationTarget}
    (h : resolveTarget db acl p inst body privilege = .ok t) :
    acl.can p privilege inst.path = true ∧ isUuid body.targetClusterId = true ∧
      body.targetClusterId ≠ inst.clusterId.text ∧ db.cluster body.targetClusterId = some t.dst ∧
      t.dst.status ≠ .disabled ∧
      ((acl.can p .instanceCreate (clusterPath t.dst.name.text) = true ∧
          t.targetProject = namedProject db inst.tenantId t.dst body.targetProject inst.project) ∨
        acl.can p .instanceCreate (projectPath t.dst.name.text t.targetProject) = true) := by
  obtain ⟨hinst, h⟩ := need_bind_eq_ok.mp h
  obtain ⟨id, hid, h⟩ := bind_eq_ok.mp h
  obtain ⟨huuid, rfl⟩ := uuidParam_eq_ok.mp hid
  obtain ⟨hother, h⟩ := need_bind_eq_ok.mp h
  obtain ⟨dst, hdst, h⟩ := found_bind_eq_ok.mp h
  obtain ⟨hstatus, h⟩ := need_bind_eq_ok.mp h
  by_cases hc : acl.can p .instanceCreate (clusterPath dst.name.text) = true
  · simp only [hc, if_true] at h
    have ht : t = _ := (Except.ok.inj h).symm
    subst ht
    exact ⟨hinst, huuid, hother, hdst, hstatus, .inl ⟨hc, rfl⟩⟩
  · simp only [hc, Bool.false_eq_true, if_false] at h
    obtain ⟨at_, _, h⟩ := found_bind_eq_ok.mp h
    obtain ⟨hproject, h⟩ := need_bind_eq_ok.mp h
    obtain ⟨-, h⟩ := need_bind_eq_ok.mp h
    have ht : t = _ := (Except.ok.inj h).symm
    subst ht
    exact ⟨hinst, huuid, hother, hdst, hstatus, .inr hproject⟩

theorem resolveTarget_of_cluster
    {inst : InventoryInstance} {body : MigrationBody} {privilege : Privilege} {dst : TargetCluster}
    (hinst : acl.can p privilege inst.path = true) (huuid : isUuid body.targetClusterId = true)
    (hother : body.targetClusterId ≠ inst.clusterId.text)
    (hdst : db.cluster body.targetClusterId = some dst) (hstatus : dst.status ≠ .disabled)
    (hc : acl.can p .instanceCreate (clusterPath dst.name.text) = true) :
    resolveTarget db acl p inst body privilege =
      .ok ⟨dst, namedProject db inst.tenantId dst body.targetProject inst.project, body.pool,
        body.transport.getD .auto⟩ := by
  refine need_bind_eq_ok.mpr ⟨hinst, bind_eq_ok.mpr ⟨_, uuidParam_eq_ok.mpr ⟨huuid, rfl⟩, ?_⟩⟩
  refine need_bind_eq_ok.mpr ⟨hother, found_bind_eq_ok.mpr ⟨dst, hdst, ?_⟩⟩
  refine need_bind_eq_ok.mpr ⟨hstatus, ?_⟩
  simp only [hc, if_true]
  rfl

theorem restoreTarget_ok {b : RestorableBackup}
    {body : RestoreBody} {t : RestorePlace} (h : restoreTarget db acl p b body = .ok t) :
    isUuid body.targetClusterId = true ∧ db.cluster body.targetClusterId = some t.dst ∧
      t.dst.status ≠ .disabled ∧
      ((acl.can p .instanceCreate (clusterPath t.dst.name.text) = true ∧
          t.project = namedProject db b.tenantId t.dst body.targetProject b.project) ∨
        acl.can p .instanceCreate (projectPath t.dst.name.text t.project) = true) := by
  obtain ⟨id, hid, h⟩ := bind_eq_ok.mp h
  obtain ⟨huuid, rfl⟩ := uuidParam_eq_ok.mp hid
  obtain ⟨dst, hdst, h⟩ := found_bind_eq_ok.mp h
  obtain ⟨hstatus, h⟩ := need_bind_eq_ok.mp h
  by_cases hc : acl.can p .instanceCreate (clusterPath dst.name.text) = true
  · simp only [hc, if_true] at h
    have ht : t = _ := (Except.ok.inj h).symm
    subst ht
    exact ⟨huuid, hdst, hstatus, .inl ⟨hc, rfl⟩⟩
  · simp only [hc, Bool.false_eq_true, if_false] at h
    obtain ⟨-, h⟩ := need_bind_eq_ok.mp h
    obtain ⟨at_, _, h⟩ := found_bind_eq_ok.mp h
    obtain ⟨-, h⟩ := need_bind_eq_ok.mp h
    obtain ⟨hproject, h⟩ := need_bind_eq_ok.mp h
    have ht : t = _ := (Except.ok.inj h).symm
    subst ht
    exact ⟨huuid, hdst, hstatus, .inr hproject⟩

theorem restoreTarget_of_cluster {b : RestorableBackup}
    {body : RestoreBody} {dst : TargetCluster} (huuid : isUuid body.targetClusterId = true)
    (hdst : db.cluster body.targetClusterId = some dst) (hstatus : dst.status ≠ .disabled)
    (hc : acl.can p .instanceCreate (clusterPath dst.name.text) = true) :
    restoreTarget db acl p b body =
      .ok ⟨dst, namedProject db b.tenantId dst body.targetProject b.project, body.pool⟩ := by
  refine bind_eq_ok.mpr ⟨_, uuidParam_eq_ok.mpr ⟨huuid, rfl⟩, ?_⟩
  refine found_bind_eq_ok.mpr ⟨dst, hdst, need_bind_eq_ok.mpr ⟨hstatus, ?_⟩⟩
  simp only [hc, if_true]
  rfl

/-- **Where instances are sent and backups restored**: the project the two functions answer is one
the caller may create instances in exactly when, for a caller who may create on the target cluster's
path, nothing takes that away between the cluster and the project it gets to choose. -/
theorem targets_allowed_iff (db : TargetTables) (acl : Snapshot) (p : Principal) :
    (∀ (inst : InventoryInstance) (body : MigrationBody) (privilege : Privilege),
      (∀ t, resolveTarget db acl p inst body privilege = .ok t →
          acl.can p .instanceCreate (projectPath t.dst.name.text t.targetProject) = true) ↔
        ∀ dst, db.cluster body.targetClusterId = some dst → acl.can p privilege inst.path = true →
          isUuid body.targetClusterId = true → body.targetClusterId ≠ inst.clusterId.text →
          dst.status ≠ .disabled → acl.can p .instanceCreate (clusterPath dst.name.text) = true →
          KeptBelow acl (subjectOf p) dst.name.text
            (projectPath dst.name.text (namedProject db inst.tenantId dst body.targetProject inst.project))) ∧
    ∀ (b : RestorableBackup) (body : RestoreBody),
      (∀ t, restoreTarget db acl p b body = .ok t →
          acl.can p .instanceCreate (projectPath t.dst.name.text t.project) = true) ↔
        ∀ dst, db.cluster body.targetClusterId = some dst → isUuid body.targetClusterId = true →
          dst.status ≠ .disabled → acl.can p .instanceCreate (clusterPath dst.name.text) = true →
          KeptBelow acl (subjectOf p) dst.name.text
            (projectPath dst.name.text (namedProject db b.tenantId dst body.targetProject b.project)) := by
  constructor
  · intro inst body privilege
    constructor
    · intro h dst hdst hinst huuid hother hstatus hc
      have ht := h _ (resolveTarget_of_cluster hinst huuid hother hdst hstatus hc)
      exact (can_iff_kept _ hc).mp ht
    · intro h t ht
      obtain ⟨hinst, huuid, hother, hdst, hstatus, ⟨hc, hproject⟩ | hproject⟩ := resolveTarget_ok ht
      · rw [hproject]
        exact (can_iff_kept _ hc).mpr (h t.dst hdst hinst huuid hother hstatus hc)
      · exact hproject
  · intro b body
    constructor
    · intro h dst hdst huuid hstatus hc
      have ht := h _ (restoreTarget_of_cluster huuid hdst hstatus hc)
      exact (can_iff_kept _ hc).mp ht
    · intro h t ht
      obtain ⟨huuid, hdst, hstatus, ⟨hc, hproject⟩ | hproject⟩ := restoreTarget_ok ht
      · rw [hproject]
        exact (can_iff_kept _ hc).mpr (h t.dst hdst huuid hstatus hc)
      · exact hproject

/-! ### A project behind No access -/

/-- `userU` is an Operator everywhere but on project `q` of cluster `c`, where it has No access. -/
def fencedProject : Db where
  users := [⟨userU, "u@example.net", false⟩]
  clusters := [clusterC]
  aclEntries :=
    [{ id := idB1
       path := "/"
       kind := .user
       subjectId := userU
       role := "operator"
       propagate := true
       createdBy := none
       parses := by decide },
     { id := idB2
       path := "/clusters/c/projects/q"
       kind := .user
       subjectId := userU
       role := "no-access"
       propagate := true
       createdBy := none
       parses := by decide }]
  tenantMembers_keys := tenantMembers_keys_nil

def openCluster : TargetTables where
  clusters := [⟨clusterC.id, clusterC.name, .ready⟩]
  placements := []

/-- Instance `i` of project `a` on another cluster, of no tenant. -/
def elsewhere : InventoryInstance where
  id := ⟨"00000000-0000-0000-0000-0000000000b3", by decide⟩
  clusterId := ⟨"00000000-0000-0000-0000-0000000000b4", by decide⟩
  clusterName := ⟨"b", by decide⟩
  project := nameA
  name := nameI
  tenantId := none

/-- An operator sends an instance into the project it has No access on, and restores a backup there. -/
theorem target_behind_noAccess :
    (¬ ∀ (db : TargetTables) (acl : Snapshot) (p : Principal) (inst : InventoryInstance)
        (body : MigrationBody) (privilege : Privilege) (t : MigrationTarget),
      resolveTarget db acl p inst body privilege = .ok t →
        acl.can p .instanceCreate (projectPath t.dst.name.text t.targetProject) = true) ∧
    ¬ ∀ (db : TargetTables) (acl : Snapshot) (p : Principal) (b : RestorableBackup)
        (body : RestoreBody) (t : RestorePlace),
      restoreTarget db acl p b body = .ok t →
        acl.can p .instanceCreate (projectPath t.dst.name.text t.project) = true := by
  have hcannot : (load fencedProject).can ⟨false, userU⟩ .instanceCreate (projectPath "c" "q") = false := by
    decide
  constructor
  · intro h
    have hq := h openCluster (load fencedProject) ⟨false, userU⟩ elsewhere ⟨clusterC.id.text, some "q", none, none⟩
      .instanceRelocate ⟨⟨clusterC.id, clusterC.name, .ready⟩, "q", none, .auto⟩ (by decide)
    exact absurd (hq.symm.trans hcannot) (by decide)
  · intro h
    have hq := h openCluster (load fencedProject) ⟨false, userU⟩ ⟨none, ⟨"a", by decide⟩⟩
      ⟨clusterC.id.text, some "q", none⟩ ⟨⟨clusterC.id, clusterC.name, .ready⟩, "q", none⟩ (by decide)
    exact absurd (hq.symm.trans hcannot) (by decide)

end IncusCloud.Mobility
