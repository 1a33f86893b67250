import IncusCloud.Reconcile.Grants
import Mathlib.Order.Lattice.Nat

/-!
# Grants never exceed permissions, per instance

What Incus makes of a list of grants: a relation on the server holds on every project and instance,
one on a project on its instances (`effectiveRank`). `grantOf_of_mem` and `mem_of_grantOf` say once
which grants `explicitRelations` makes; `instance_grants_le` is the bound for every instance that is
listed.

A project must not be listed twice with different instances: the narrowing a listing's instances
ask for is not carried to another listing of the project (`instance_grants_exceed_twice_listed`).
-/

namespace IncusCloud.Reconcile

open Acl List

/-! ### Ranks -/

theorem rank_injective {a b : Relation} (h : rank a = rank b) : a = b := by
  cases a <;> cases b <;> simp_all [rank]

theorem rank_pos {a : Relation} : 0 < rank a ↔ a ≠ .none := by
  cases a <;> simp [rank]

theorem iRank_asInstance_mono {a b : Relation} (h : rank a ≤ rank b) :
    iRank (asInstance a) ≤ iRank (asInstance b) := by
  cases a <;> cases b <;> simp_all [rank, iRank, asInstance]

def asProject : Relation → Relation
  | .admin => .operator
  | r => r

theorem asInstance_asProject (r : Relation) : asInstance (asProject r) = asInstance r := by
  cases r <;> rfl

/-! ### The strongest relation -/

/-- One step of `strongest`'s fold. -/
def stronger (a b : Relation) : Relation := if rank b > rank a then b else a

theorem rank_foldl_stronger_le_iff (l : List Relation) (a : Relation) (n : ℕ) :
    rank (l.foldl stronger a) ≤ n ↔ rank a ≤ n ∧ ∀ b ∈ l, rank b ≤ n := by
  induction l generalizing a with
  | nil => simp
  | cons b l ih =>
    rw [foldl_cons, ih, forall_mem_cons]
    unfold stronger
    split_ifs with h
    · constructor
      · rintro ⟨h1, h2⟩
        exact ⟨by omega, h1, h2⟩
      · rintro ⟨-, h1, h2⟩
        exact ⟨h1, h2⟩
    · constructor
      · rintro ⟨h1, h2⟩
        exact ⟨h1, by omega, h2⟩
      · rintro ⟨h1, -, h2⟩
        exact ⟨h1, h2⟩

variable (map : RoleId → Option Relation)

theorem rank_strongest_le_iff (roles : List RoleId) (n : ℕ) :
    rank (strongest map roles) ≤ n ↔
      .noAccess ∈ roles ∨ ∀ r ∈ roles, rank ((map r).getD .none) ≤ n := by
  have hfold := rank_foldl_stronger_le_iff
    ((if .noAccess ∈ roles then [] else roles).map fun r => (map r).getD .none) .none n
  change rank (strongest map roles) ≤ n ↔ _ at hfold
  rw [hfold]
  by_cases h : .noAccess ∈ roles
  · simp [h, rank]
  · simp [h, rank]

theorem strongest_of_noAccess {roles : List RoleId}
    (h : .noAccess ∈ roles) : strongest map roles = .none := by
  have h0 : rank (strongest map roles) ≤ 0 := (rank_strongest_le_iff map roles 0).mpr (.inl h)
  exact rank_injective (Nat.le_zero.mp h0)

theorem le_rank_strongest {roles : List RoleId}
    (h : .noAccess ∉ roles) {r : RoleId} (hr : r ∈ roles) :
    rank ((map r).getD .none) ≤ rank (strongest map roles) := by
  rcases (rank_strongest_le_iff map roles _).mp le_rfl with h' | h'
  · exact absurd h' h
  · exact h' r hr

theorem strongest_eq_none_or (roles : List RoleId) :
    strongest map roles = .none ∨
      .noAccess ∉ roles ∧ ∃ r ∈ roles, (map r).getD .none = strongest map roles := by
  by_cases h : .noAccess ∈ roles
  · exact .inl (strongest_of_noAccess map h)
  by_contra hno
  push Not at hno
  obtain ⟨hne, hall⟩ := hno
  have hpos : 0 < rank (strongest map roles) := rank_pos.mpr hne
  -- Every role ranks strictly below, so the strongest would too.
  have hlt : rank (strongest map roles) ≤ rank (strongest map roles) - 1 := by
    refine (rank_strongest_le_iff map roles _).mpr (.inr fun r hr => ?_)
    have hle := le_rank_strongest map h hr
    have hne' : rank ((map r).getD .none) ≠ rank (strongest map roles) :=
      fun he => hall h r hr (rank_injective he)
    omega
  omega

theorem rank_asProject_onServer_le (r : RoleId) :
    rank (asProject ((onServer r).getD .none)) ≤ rank ((onProject r).getD .none) := by
  cases r <;> decide

theorem rank_server_le_project (roles : List RoleId) :
    rank (asProject (strongest onServer roles)) ≤ rank (strongest onProject roles) := by
  rcases strongest_eq_none_or onServer roles with h | ⟨hno, r, hr, he⟩
  · rw [h]
    exact Nat.zero_le _
  · rw [← he]
    exact (rank_asProject_onServer_le r).trans (le_rank_strongest onProject hno hr)

/-! ### What Incus makes of grants -/

variable (relation : String)

/-- The rank of a relation's text on an instance; admin is read as operator, and entitlements such
as `can_view` are no relation. -/
def instanceRankOf : ℕ :=
  if relation = "viewer" then iRank .viewer
  else if relation = "user" then iRank .user
  else if relation = "operator" ∨ relation = "admin" then iRank .operator
  else 0

def projectRankOf : ℕ :=
  if relation = "viewer" then rank .viewer
  else if relation = "operator" ∨ relation = "admin" then rank .operator
  else 0

def effectiveRank (rankOf : String → ℕ) (grants : List Grant) (objects : List String) : ℕ :=
  (grants.toFinset.filter fun g => g.object ∈ objects).sup fun g => rankOf g.relation

def instanceRank (grants : List Grant) (p i : Name) : ℕ :=
  effectiveRank instanceRankOf grants [serverObject, projectObject p, instanceObject p i]

def projectRank (grants : List Grant) (p : Name) : ℕ :=
  effectiveRank projectRankOf grants [serverObject, projectObject p]

theorem effectiveRank_le_iff {rankOf : String → ℕ} {grants : List Grant} {objects : List String}
    {n : ℕ} : effectiveRank rankOf grants objects ≤ n ↔
      ∀ g ∈ grants, g.object ∈ objects → rankOf g.relation ≤ n := by
  unfold effectiveRank
  rw [Finset.sup_le_iff]
  simp only [Finset.mem_filter, mem_toFinset, and_imp]

theorem le_effectiveRank (rankOf : String → ℕ) {grants : List Grant} {g : Grant} (hg : g ∈ grants)
    {objects : List String} (ho : g.object ∈ objects) :
    rankOf g.relation ≤ effectiveRank rankOf grants objects :=
  effectiveRank_le_iff.mp le_rfl g hg ho

theorem instanceRankOf_text (r : Relation) : instanceRankOf r.text = iRank (asInstance r) := by
  cases r <;> decide

theorem instanceRankOf_instance_text (r : InstanceRelation) : instanceRankOf r.text = iRank r := by
  cases r <;> decide

theorem projectRankOf_text (r : Relation) : projectRankOf r.text = rank (asProject r) := by
  cases r <;> decide

/-! ### Objects -/

theorem projectObject_injective {p q : Name} (h : projectObject p = projectObject q) : p = q := by
  obtain ⟨p, hp⟩ := p
  obtain ⟨q, hq⟩ := q
  simpa [projectObject, ← String.toList_inj] using h

theorem projectObject_ne_serverObject (p : Name) : projectObject p ≠ serverObject := by
  simp [projectObject, serverObject, ← String.toList_inj]

theorem instanceObject_ne_serverObject (p i : Name) : instanceObject p i ≠ serverObject := by
  unfold instanceObject
  simp [serverObject, ← String.toList_inj]

theorem instanceObject_ne_projectObject (p i q : Name) : instanceObject p i ≠ projectObject q := by
  unfold instanceObject
  simp [projectObject, ← String.toList_inj]

theorem instanceObject_injective {p q i j : Name} (h : instanceObject p i = instanceObject q j) :
    p = q ∧ i = j := by
  have hl : p.text.toList ++ '/' :: i.text.toList = q.text.toList ++ '/' :: j.text.toList := by
    unfold instanceObject at h
    simpa [← String.toList_inj] using h
  have hpre : (p.text.toList ++ '/' :: i.text.toList) <+:
      (q.text.toList ++ '/' :: j.text.toList) := by rw [hl]
  have hpq : p.text.toList = q.text.toList := Lib.eq_of_field_prefix p.noSlash q.noSlash hpre
  rw [hpq, append_cancel_left_eq, List.cons.injEq] at hl
  exact ⟨Name.ext_text (String.toList_inj.mp hpq), Name.ext_text (String.toList_inj.mp hl.2)⟩

/-! ### Which grants are made -/

section Explicit

variable {cluster : String} {decide : String → Decision} {projects : List ProjectInput}

theorem serverOf_le_baseOf :
    rank (asProject (serverOf cluster decide)) ≤ rank (baseOf cluster decide) :=
  rank_server_le_project _

/-- The server relation stands exactly when there is one and every listed project keeps at least
the cluster's relation, its instances included. -/
theorem wholeOf_eq_true : wholeOf cluster decide projects = true ↔
    serverOf cluster decide ≠ .none ∧ ∀ x ∈ projects,
      narrowedBy cluster decide (factsOf x) = false ∧
        rank (baseOf cluster decide) ≤ rank (relationOf cluster decide (factsOf x)) := by
  simp only [wholeOf, Bool.and_eq_true, Bool.not_eq_true', any_eq_false, List.mem_map,
    forall_exists_index, and_imp, forall_apply_eq_imp_iff₂, decide_eq_true_eq]
  rw [and_comm]
  refine and_congr_right fun _ => forall₂_congr fun x _ => ?_
  cases hn : narrowedBy cluster decide (factsOf x) <;> simp [perOf, hn]

inductive GrantOf (cluster : String) (decide : String → Decision) (projects : List ProjectInput) :
    Grant → Prop
  | server : wholeOf cluster decide projects = true →
      GrantOf cluster decide projects ⟨(serverOf cluster decide).text, serverObject⟩
  | project (x : ProjectInput) : x ∈ projects → narrowedBy cluster decide (factsOf x) = false →
      relationOf cluster decide (factsOf x) ≠ .none →
      (wholeOf cluster decide projects = false ∨
        rank (baseOf cluster decide) < rank (relationOf cluster decide (factsOf x))) →
      GrantOf cluster decide projects
        ⟨(relationOf cluster decide (factsOf x)).text, projectObject (factsOf x).name⟩
  | inst (x : ProjectInput) (i : Name) : x ∈ projects → i ∈ (factsOf x).instances →
      iRank (givenOf (baseOf cluster decide) (wholeOf cluster decide projects)
        (perOf cluster decide x)) < iRank (instanceRelationOf cluster decide (factsOf x).name i) →
      GrantOf cluster decide projects
        ⟨(instanceRelationOf cluster decide (factsOf x).name i).text,
          instanceObject (factsOf x).name i⟩

/-- Texts that are no relation: a User's entitlements and `can_view`. -/
def isEntitlement : Prop := relation ∈ "can_view" :: userProject

theorem instanceRankOf_entitlement {r : String} (h : isEntitlement r) : instanceRankOf r = 0 := by
  simp only [isEntitlement, userProject, mem_cons, not_mem_nil, or_false] at h
  rcases h with rfl | rfl | rfl | rfl | rfl | rfl <;> decide

theorem projectRankOf_entitlement {r : String} (h : isEntitlement r) : projectRankOf r = 0 := by
  simp only [isEntitlement, userProject, mem_cons, not_mem_nil, or_false] at h
  rcases h with rfl | rfl | rfl | rfl | rfl | rfl <;> decide

theorem grantOf_of_mem {g : Grant} (h : g ∈ explicitRelations cluster decide projects) :
    isEntitlement g.relation ∨ GrantOf cluster decide projects g := by
  simp only [explicitRelations, mem_append, mem_flatMap, List.mem_map] at h
  rcases h with h | ⟨per, ⟨x, hx, rfl⟩, h⟩
  · -- The server's.
    split_ifs at h with hw
    · rw [mem_singleton] at h
      exact .inr (h ▸ .server hw)
    · simp at h
  simp only [projectGrants, mem_append] at h
  rcases h with (h | h) | h
  · -- A project's, if no instance narrows it.
    split_ifs at h with hc
    · rw [mem_singleton] at h
      subst h
      cases hn : narrowedBy cluster decide (factsOf x)
      · simp only [perOf, hn, Bool.false_eq_true, if_false] at hc ⊢
        exact .inr (.project x hx hn hc.1 hc.2)
      · simp [perOf, hn] at hc
    · simp at h
  · -- What a user of the project needs to create instances there.
    split_ifs at h with hu
    · rcases mem_append.mp h with h | h
      · obtain ⟨r, hr, rfl⟩ := List.mem_map.mp h
        exact .inl (mem_cons_of_mem _ hr)
      · obtain ⟨o, -, rfl⟩ := List.mem_map.mp h
        exact .inl mem_cons_self
    · simp at h
  · -- An instance's, above what it has from its project.
    obtain ⟨i, hi, rfl⟩ := List.mem_map.mp h
    rw [mem_filter] at hi
    obtain ⟨n, hn, rfl⟩ := List.mem_map.mp hi.1
    exact .inr (.inst x n hx hn (of_decide_eq_true hi.2))

theorem mem_of_grantOf {g : Grant} (h : GrantOf cluster decide projects g) :
    g ∈ explicitRelations cluster decide projects := by
  cases h with
  | server hw =>
    refine mem_append_left _ ?_
    simp [hw]
  | project x hx hn hne hor =>
    refine mem_append_right _ (mem_flatMap.mpr
      ⟨perOf cluster decide x, List.mem_map.mpr ⟨x, hx, rfl⟩, ?_⟩)
    refine mem_append_left _ (mem_append_left _ ?_)
    have hrel : (perOf cluster decide x).relation = relationOf cluster decide (factsOf x) := by
      simp [perOf, hn]
    rw [hrel, if_pos ⟨hne, hor⟩]
    exact mem_singleton.mpr rfl
  | inst x i hx hi hlt =>
    refine mem_append_right _ (mem_flatMap.mpr
      ⟨perOf cluster decide x, List.mem_map.mpr ⟨x, hx, rfl⟩, ?_⟩)
    refine mem_append_right _ (List.mem_map.mpr
      ⟨(i, instanceRelationOf cluster decide (factsOf x).name i), mem_filter.mpr ⟨?_, ?_⟩, rfl⟩)
    · exact List.mem_map.mpr ⟨i, hi, rfl⟩
    · exact decide_eq_true hlt

theorem asInstance_relationOf_le {f : ProjectFacts} (h : narrowedBy cluster decide f = false)
    {i : Name} (hi : i ∈ f.instances) :
    iRank (asInstance (relationOf cluster decide f)) ≤
      iRank (instanceRelationOf cluster decide f.name i) := by
  have := any_eq_false.mp h i hi
  simpa using this

end Explicit

/-! ### The bound -/

def ListedAlike (projects : List ProjectInput) : Prop :=
  ∀ x ∈ projects, ∀ y ∈ projects,
    (factsOf x).name = (factsOf y).name → (factsOf x).instances = (factsOf y).instances

instance (projects : List ProjectInput) : Decidable (ListedAlike projects) :=
  inferInstanceAs (Decidable (∀ x ∈ projects, ∀ y ∈ projects, _ → _))

/-- **Grants never exceed permissions, per instance**: whatever the decisions, each instance listed
gets an effective Incus relation that ranks no higher than what its privileges give. -/
theorem instance_grants_le (cluster : String) (decide : String → Decision)
    (projects : List ProjectInput) (hsame : ListedAlike projects) :
    ∀ x ∈ projects, ∀ i ∈ (factsOf x).instances,
      instanceRank (explicitRelations cluster decide projects) (factsOf x).name i ≤
        iRank (instanceRelation
          ((decide (instancePath cluster (factsOf x).name.text i.text)).privileges.getD [])) := by
  intro x hx i hi
  change _ ≤ iRank (instanceRelationOf cluster decide (factsOf x).name i)
  rw [instanceRank, effectiveRank_le_iff]
  intro g hg ho
  simp only [mem_cons, not_mem_nil, or_false] at ho
  rcases grantOf_of_mem hg with he | hg
  · rw [instanceRankOf_entitlement he]
    exact Nat.zero_le _
  cases hg with
  | server hw =>
    -- The server relation stands, so this project keeps the cluster's relation and is not narrowed.
    obtain ⟨-, hall⟩ := wholeOf_eq_true.mp hw
    obtain ⟨hn, hb⟩ := hall x hx
    have hsb : rank (asProject (serverOf cluster decide)) ≤
        rank (relationOf cluster decide (factsOf x)) := serverOf_le_baseOf.trans hb
    rw [instanceRankOf_text, ← asInstance_asProject]
    exact (iRank_asInstance_mono hsb).trans (asInstance_relationOf_le hn hi)
  | project y hy hn _ _ =>
    rcases ho with ho | ho | ho
    · exact absurd ho (projectObject_ne_serverObject _)
    · have hname := projectObject_injective ho
      have hi' : i ∈ (factsOf y).instances := by rwa [hsame y hy x hx hname]
      rw [instanceRankOf_text, ← hname]
      exact asInstance_relationOf_le hn hi'
    · exact absurd ho.symm (instanceObject_ne_projectObject _ _ _)
  | inst y j hy hj _ =>
    rcases ho with ho | ho | ho
    · exact absurd ho (instanceObject_ne_serverObject _ _)
    · exact absurd ho (instanceObject_ne_projectObject _ _ _)
    · obtain ⟨hname, rfl⟩ := instanceObject_injective ho
      rw [instanceRankOf_instance_text, hname]

/-- An operator's cluster with No access on one instance of project `a`. -/
def operatorButOne (path : String) : Decision :=
  if path = "/clusters/c/projects/a/instances/theirs" then
    ⟨[.noAccess], some path, some []⟩
  else ⟨[.operator], some "/clusters/c", some RoleId.operator.privileges⟩

/-- Project `a`, with its instances `mine` and `theirs`. -/
def projectA : ProjectInput :=
  .inr ⟨nameA, [⟨"mine", by decide⟩, ⟨"theirs", by decide⟩], []⟩

/-- The narrowed instance of project `a` gets nothing. -/
theorem instance_grants_le_operatorButOne :
    ListedAlike [projectA] ∧
      instanceRank (explicitRelations "c" operatorButOne [projectA]) (factsOf projectA).name
        ⟨"theirs", by decide⟩ ≤ 0 :=
  ⟨by decide, (instance_grants_le "c" operatorButOne [projectA] (by decide) projectA
    mem_cons_self ⟨"theirs", by decide⟩ (by decide)).trans (by decide)⟩

/-- Listed a second time without its instances, project `a` gets the relation its first listing
gave up: the instance with No access is an operator's again. -/
theorem instance_grants_exceed_twice_listed :
    ¬ ∀ (cluster : String) (decide : String → Decision) (projects : List ProjectInput),
      ∀ x ∈ projects, ∀ i ∈ (factsOf x).instances,
        instanceRank (explicitRelations cluster decide projects) (factsOf x).name i ≤
          iRank (instanceRelation
            ((decide (instancePath cluster (factsOf x).name.text i.text)).privileges.getD [])) := by
  intro h
  have hle := h "c" operatorButOne [projectA, .inl ⟨"a", by decide⟩] projectA
    mem_cons_self ⟨"theirs", by decide⟩ (by decide)
  exact absurd hle (by decide)

end IncusCloud.Reconcile
