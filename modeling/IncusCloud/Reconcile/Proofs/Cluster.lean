import IncusCloud.Reconcile.Cluster
import IncusCloud.Reconcile.Proofs.Grants
import IncusCloud.Acl.Proofs.Resolve

/-!
# Grants against permissions, over the ACL

`relationsOf` hands `explicitRelations` the subject's resolutions on a snapshot. Two questions are
settled for every snapshot, subject, cluster and list of projects:

* `project_grants_le_iff`: when no project gets more than the roles that decide it give;
* `instance_grants_ge_iff`: when no instance gets less than its privileges give.

Neither holds always. A project that nothing below the cluster decides is taken to inherit the
cluster's relation, which entries that stop at the cluster do not give it
(`project_grants_exceed_nonpropagating`). And a server relation stands for the project relation
even where the roles give less on the server than on projects (`instance_grants_fall_short`).
-/

namespace IncusCloud.Reconcile

open Acl Lib List

/-! ### `explicitRelations` asks only about the listed paths -/

section Congr

variable {cluster : String} {d d' : String → Decision} {x : ProjectInput}

theorem perOf_congr (hc : d (formatPath (.cluster cluster)) = d' (formatPath (.cluster cluster)))
    (hp : d (projectPath cluster (factsOf x).name.text) =
      d' (projectPath cluster (factsOf x).name.text))
    (hi : ∀ i ∈ (factsOf x).instances, d (instancePath cluster (factsOf x).name.text i.text) =
      d' (instancePath cluster (factsOf x).name.text i.text)) :
    perOf cluster d x = perOf cluster d' x := by
  have hbase : baseOf cluster d = baseOf cluster d' := by rw [baseOf, baseOf, hc]
  have hrel : relationOf cluster d (factsOf x) = relationOf cluster d' (factsOf x) := by
    simp only [relationOf, hp, hbase]
  have hinst : ∀ i ∈ (factsOf x).instances,
      instanceRelationOf cluster d (factsOf x).name i =
        instanceRelationOf cluster d' (factsOf x).name i := by
    intro i h
    rw [instanceRelationOf, instanceRelationOf, hi i h]
  have hnar : narrowedBy cluster d (factsOf x) = narrowedBy cluster d' (factsOf x) := by
    rw [Bool.eq_iff_iff, narrowedBy, narrowedBy, any_eq_true, any_eq_true, hrel]
    refine exists_congr fun i => and_congr_right fun h => ?_
    rw [hinst i h]
  simp only [perOf, hrel, hnar, hp]
  congr 1
  exact map_congr_left fun i h => by rw [hinst i h]

theorem explicitRelations_congr {projects : List ProjectInput}
    (hc : d (formatPath (.cluster cluster)) = d' (formatPath (.cluster cluster)))
    (h : ∀ x ∈ projects, perOf cluster d x = perOf cluster d' x) :
    explicitRelations cluster d projects = explicitRelations cluster d' projects := by
  have hmap : projects.map (perOf cluster d) = projects.map (perOf cluster d') :=
    map_congr_left h
  have hserver : serverOf cluster d = serverOf cluster d' := by rw [serverOf, serverOf, hc]
  have hbase : baseOf cluster d = baseOf cluster d' := by rw [baseOf, baseOf, hc]
  have hwhole : wholeOf cluster d projects = wholeOf cluster d' projects := by
    unfold wholeOf
    rw [hmap, hserver, hbase]
  unfold explicitRelations
  rw [hmap, hserver, hbase, hwhole]

end Congr

theorem relationsOf_eq (s : Snapshot) (key : Subject) (cluster : String)
    (facts : List ProjectFacts) :
    relationsOf s key cluster facts =
      explicitRelations cluster (decisionAt s key) (facts.map .inr) := by
  have hget : ∀ path ∈ decidedPaths cluster facts,
      ((decided s key cluster facts).get path).getD ⟨[], none, none⟩ = decisionAt s key path := by
    intro path hpath
    rw [decided, OrdMap.get_ofList_map, if_pos hpath, Option.getD_some]
  have hcluster : formatPath (.cluster cluster) ∈ decidedPaths cluster facts := by
    simp [decidedPaths]
  refine explicitRelations_congr (hget _ hcluster) fun x hx => ?_
  obtain ⟨f, hf, rfl⟩ := List.mem_map.mp hx
  refine perOf_congr (hget _ hcluster) (hget _ ?_) fun i hi => hget _ ?_
  · exact mem_cons_of_mem _ (mem_flatMap.mpr ⟨f, hf, mem_cons_self⟩)
  · exact mem_cons_of_mem _ (mem_flatMap.mpr ⟨f, hf, mem_cons_of_mem _
      (List.mem_map.mpr ⟨i, hi, rfl⟩)⟩)

/-! ### Projects -/

theorem rank_onProject_le (r : RoleId) : rank ((onProject r).getD .none) ≤ 2 := by
  cases r <;> decide

theorem rank_strongest_onProject_le (roles : List RoleId) : rank (strongest onProject roles) ≤ 2 :=
  (rank_strongest_le_iff onProject roles 2).mpr (.inr fun r _ => rank_onProject_le r)

theorem asProject_of_rank_le {r : Relation} (h : rank r ≤ 2) : asProject r = r := by
  cases r <;> simp_all [rank, asProject]

theorem asProject_strongest (roles : List RoleId) :
    asProject (strongest onProject roles) = strongest onProject roles :=
  asProject_of_rank_le (rank_strongest_onProject_le roles)

section Projects

variable (cluster : String) (d : String → Decision) (projects : List ProjectInput)

def decidedRelation (p : Name) : Relation := strongest onProject (d (projectPath cluster p.text)).roles

/-- The cluster's server relation can stand for every project's: each keeps at least what the
cluster's roles give, and none of its instances gives less. -/
def ServerStands : Prop :=
  serverOf cluster d ≠ .none ∧ ∀ x ∈ projects,
    rank (baseOf cluster d) ≤ rank (relationOf cluster d (factsOf x)) ∧
      ∀ i ∈ (factsOf x).instances, iRank (asInstance (relationOf cluster d (factsOf x))) ≤
        iRank (instanceRelationOf cluster d (factsOf x).name i)

instance : Decidable (ServerStands cluster d projects) :=
  inferInstanceAs (Decidable (_ ∧ ∀ x ∈ projects, _ ∧ ∀ i ∈ (factsOf x).instances, _))

/-- What the cluster's roles give on a project nothing below the cluster decides: their server
relation when it stands, else their project relation. -/
def clusterGives : Relation :=
  if ServerStands cluster d projects then asProject (serverOf cluster d) else baseOf cluster d

variable {cluster d projects} {f : ProjectFacts}

theorem narrowedBy_eq_false : narrowedBy cluster d f = false ↔
    ∀ i ∈ f.instances, iRank (asInstance (relationOf cluster d f)) ≤
      iRank (instanceRelationOf cluster d f.name i) := by
  rw [narrowedBy, any_eq_false]
  refine forall₂_congr fun i _ => ?_
  simp

theorem serverStands_iff : ServerStands cluster d projects ↔ wholeOf cluster d projects = true := by
  rw [wholeOf_eq_true, ServerStands]
  refine and_congr_right fun _ => forall₂_congr fun x _ => ?_
  rw [narrowedBy_eq_false, and_comm]

theorem clusterGives_of_whole (h : wholeOf cluster d projects = true) :
    clusterGives cluster d projects = asProject (serverOf cluster d) :=
  if_pos (serverStands_iff.mpr h)

theorem clusterGives_of_not_whole (h : wholeOf cluster d projects = false) :
    clusterGives cluster d projects = baseOf cluster d := by
  refine if_neg fun hs => ?_
  rw [serverStands_iff.mp hs] at h
  exact Bool.noConfusion h

theorem relationOf_of_below
    (h : decidedBelow cluster (d (projectPath cluster f.name.text)) = true) :
    relationOf cluster d f = decidedRelation cluster d f.name := by
  simp [relationOf, decidedRelation, h]

theorem relationOf_of_not_below
    (h : decidedBelow cluster (d (projectPath cluster f.name.text)) = false) :
    relationOf cluster d f = baseOf cluster d := by
  simp [relationOf, h]

theorem asProject_relationOf (f : ProjectFacts) :
    asProject (relationOf cluster d f) = relationOf cluster d f := by
  cases h : decidedBelow cluster (d (projectPath cluster f.name.text))
  · rw [relationOf_of_not_below h]
    exact asProject_strongest _
  · rw [relationOf_of_below h]
    exact asProject_strongest _

theorem clusterGives_le_projectRank (hx : x ∈ projects)
    (hb : decidedBelow cluster (d (projectPath cluster (factsOf x).name.text)) = false)
    (hn : narrowedBy cluster d (factsOf x) = false) :
    rank (clusterGives cluster d projects) ≤
      projectRank (explicitRelations cluster d projects) (factsOf x).name := by
  have hrel := relationOf_of_not_below hb
  cases hw : wholeOf cluster d projects
  · rw [clusterGives_of_not_whole hw]
    by_cases hbase : baseOf cluster d = .none
    · rw [hbase]
      exact Nat.zero_le _
    -- Without a server relation the project's is its own grant.
    have hg := mem_of_grantOf (.project x hx hn (by rwa [hrel]) (.inl hw))
    rw [hrel] at hg
    have hle : projectRankOf (baseOf cluster d).text ≤ projectRank _ (factsOf x).name :=
      le_effectiveRank projectRankOf hg (by simp)
    rwa [projectRankOf_text, baseOf, asProject_strongest] at hle
  · rw [clusterGives_of_whole hw]
    have hle : projectRankOf (serverOf cluster d).text ≤ projectRank _ (factsOf x).name :=
      le_effectiveRank projectRankOf (mem_of_grantOf (.server hw)) (by simp)
    rwa [projectRankOf_text] at hle

/-- The projects get no more than the roles that decide them give exactly when the cluster's roles
give no more on those that only they reach. -/
theorem projectRank_le_iff :
    (∀ x ∈ projects, projectRank (explicitRelations cluster d projects) (factsOf x).name ≤
        rank (decidedRelation cluster d (factsOf x).name)) ↔
      ∀ x ∈ projects,
        decidedBelow cluster (d (projectPath cluster (factsOf x).name.text)) = false →
        narrowedBy cluster d (factsOf x) = false →
        rank (clusterGives cluster d projects) ≤
          rank (decidedRelation cluster d (factsOf x).name) := by
  constructor
  · intro h x hx hb hn
    exact (clusterGives_le_projectRank hx hb hn).trans (h x hx)
  intro h x hx
  rw [projectRank, effectiveRank_le_iff]
  intro g hg ho
  simp only [mem_cons, not_mem_nil, or_false] at ho
  rcases grantOf_of_mem hg with he | hg
  · -- An entitlement is no relation.
    rw [projectRankOf_entitlement he]
    exact Nat.zero_le _
  cases hg with
  | server hw =>
    -- Granted on the server, the relation reaches every listed project.
    obtain ⟨-, hall⟩ := wholeOf_eq_true.mp hw
    obtain ⟨hn, hbase⟩ := hall x hx
    rw [projectRankOf_text]
    cases hb : decidedBelow cluster (d (projectPath cluster (factsOf x).name.text))
    · have := h x hx hb hn
      rwa [clusterGives_of_whole hw] at this
    · rw [relationOf_of_below hb] at hbase
      exact serverOf_le_baseOf.trans hbase
  | project y hy hn hne hor =>
    rcases ho with ho | ho
    · exact absurd ho (projectObject_ne_serverObject _)
    have hname := projectObject_injective ho
    rw [projectRankOf_text, asProject_relationOf, ← hname]
    cases hb : decidedBelow cluster (d (projectPath cluster (factsOf y).name.text))
    · -- The project inherits: it is granted by itself only where the server's does not stand for all.
      rw [relationOf_of_not_below hb] at hor ⊢
      have hw : wholeOf cluster d projects = false := by
        rcases hor with hw | hlt
        · exact hw
        · exact absurd hlt (lt_irrefl _)
      have := h y hy hb hn
      rwa [clusterGives_of_not_whole hw] at this
    · rw [relationOf_of_below hb]
  | inst y j hy hj _ =>
    rcases ho with ho | ho
    · exact absurd ho (instanceObject_ne_serverObject _ _)
    · exact absurd ho (instanceObject_ne_projectObject _ _ _)

end Projects

/-! ### The explicit subjects -/

section Explicit

variable {db : Db} {cluster : ClusterRow} {granted listed : List Name}
  {sharedObjects : Name → List String} {x : String × Grant} {p : Name}

/-- What is granted comes of one explicit subject, which is not disabled and goes by the name
granted to. -/
theorem mem_addExplicit (hx : x ∈ addExplicit db cluster granted listed sharedObjects) :
    ∃ key ∈ explicitKeys db, key ∉ (load db).disabled ∧ incusUser db key = some x.1 ∧
      ∃ facts : List ProjectFacts,
        facts.map (·.name) = (grantableFacts db cluster granted listed).map (·.name) ∧
          x.2 ∈ explicitRelations cluster.name.text (decisionAt (load db) key) (facts.map .inr) := by
  unfold addExplicit at hx
  obtain ⟨y, hy, hgrant⟩ := mem_flatMap.mp hx
  obtain ⟨key, hkey, hname⟩ := mem_filterMap.mp hy
  split_ifs at hname with hdisabled
  obtain ⟨name, huser, rfl⟩ := Option.map_eq_some_iff.mp hname
  obtain ⟨g, hg, rfl⟩ := List.mem_map.mp hgrant
  rw [relationsOf_eq] at hg
  refine ⟨key, hkey, hdisabled, huser, _, ?_, hg⟩
  rw [map_map]
  refine map_congr_left fun f _ => ?_
  dsimp only [Function.comp]
  split_ifs
  · rfl
  · rfl

/-- A relation on a project is on one that may be granted, and no more than the roles that decide
the project or the cluster's give there. -/
theorem addExplicit_on_project (hx : x ∈ addExplicit db cluster granted listed sharedObjects)
    (ho : x.2.object = projectObject p) :
    isEntitlement x.2.relation ∨ p ∈ (grantableFacts db cluster granted listed).map (·.name) ∧
      ∃ key ∈ explicitKeys db, key ∉ (load db).disabled ∧ incusUser db key = some x.1 ∧
        projectRankOf x.2.relation ≤ max (rank (decidedRelation cluster.name.text (decisionAt (load db) key) p))
          (rank (baseOf cluster.name.text (decisionAt (load db) key))) := by
  obtain ⟨key, hkey, hdisabled, hname, facts, hfacts, hg⟩ := mem_addExplicit hx
  refine (grantOf_of_mem hg).imp_right fun hg => ?_
  generalize hgrant : x.2 = g at hg ho
  cases hg with
  | server _ => exact absurd ho.symm (projectObject_ne_serverObject _)
  | inst _ _ _ _ _ => exact absurd ho (instanceObject_ne_projectObject _ _ _)
  | project y hy _ _ _ =>
    obtain ⟨f, hf, rfl⟩ := List.mem_map.mp hy
    obtain rfl : f.name = p := projectObject_injective ho
    rw [← hfacts]
    refine ⟨mem_map_of_mem hf, key, hkey, hdisabled, hname, ?_⟩
    rw [projectRankOf_text, asProject_relationOf]
    cases hb : decidedBelow cluster.name.text (decisionAt (load db) key (projectPath cluster.name.text f.name.text))
    · rw [factsOf, relationOf_of_not_below hb]
      exact le_max_right _ _
    · rw [factsOf, relationOf_of_below hb]
      exact le_max_left _ _

end Explicit

/-- **Grants against permissions, per project**: no listed project gets a relation above what the
roles that decide its path give, exactly when the cluster's roles give no more than that on the
projects that nothing below the cluster decides and no instance narrows. -/
theorem project_grants_le_iff (s : Snapshot) (key : Subject) (cluster : String)
    (facts : List ProjectFacts) :
    (∀ f ∈ facts, projectRank (relationsOf s key cluster facts) f.name ≤
        rank (decidedRelation cluster (decisionAt s key) f.name)) ↔
      ∀ f ∈ facts,
        decidedBelow cluster (decisionAt s key (projectPath cluster f.name.text)) = false →
        (∀ i ∈ f.instances, iRank (asInstance (baseOf cluster (decisionAt s key))) ≤
          iRank (instanceRelationOf cluster (decisionAt s key) f.name i)) →
        rank (clusterGives cluster (decisionAt s key) (facts.map .inr)) ≤
          rank (decidedRelation cluster (decisionAt s key) f.name) := by
  rw [relationsOf_eq]
  have hiff := @projectRank_le_iff cluster (decisionAt s key) (facts.map .inr)
  simp only [forall_mem_map, factsOf] at hiff
  rw [hiff]
  refine forall₂_congr fun f _ => forall_congr' fun hb => ?_
  rw [narrowedBy_eq_false, relationOf_of_not_below hb]

/-! ### Entries that stop at the cluster -/

def entryOnC (id : Uuid) (role : RoleId) (propagate : Bool) : AclEntryRow where
  id := id
  path := "/clusters/c"
  kind := .user
  subjectId := userU
  role := role.text
  propagate := propagate
  createdBy := none
  parses := parsePath_clusterC

/-- `userU` is Operator on cluster `c` and only there: the entry does not propagate. -/
def operatorHere : Db where
  users := [⟨userU, "u@example.net", false⟩]
  clusters := [clusterC]
  aclEntries := [entryOnC idE1 .operator false]
  tenantMembers_keys := tenantMembers_keys_nil

/-- Nothing decides project `a` for `userU`, and the server relation of its Operator role reaches
it. -/
theorem project_grants_exceed_nonpropagating :
    ¬ ∀ (db : Db) (key : Subject) (cluster : ClusterRow) (granted listed : List Name),
      key ∉ (load db).disabled →
      ∀ f ∈ grantableFacts db cluster granted listed,
        projectRank (relationsOf (load db) key cluster.name.text
            (grantableFacts db cluster granted listed)) f.name ≤
          rank (decidedRelation cluster.name.text (decisionAt (load db) key) f.name) := by
  intro h
  have hle := h operatorHere ⟨.user, userU.text⟩ clusterC [] [⟨"a", by decide⟩] (by decide)
    ⟨⟨"a", by decide⟩, [], []⟩ (by decide)
  exact absurd hle (by decide)

/-! ### Instances -/

/-- Roles that give less on the server than on a project: Auditor, with a role that is an
operator's on projects and nothing on the server. -/
def ViewerOverOperator (roles : List RoleId) : Prop :=
  .auditor ∈ roles ∧ (.tenantAdmin ∈ roles ∨ .unrestrictedUser ∈ roles) ∧
    .administrator ∉ roles ∧ .clusterOwner ∉ roles ∧ .operator ∉ roles ∧ .noAccess ∉ roles

theorem rank_eq_one {r : Relation} : rank r = 1 ↔ r = .viewer := by
  cases r <;> decide

theorem rank_eq_two {r : Relation} : rank r = 2 ↔ r = .operator := by
  cases r <;> decide

theorem iRank_eq_three {r : InstanceRelation} : iRank r = 3 ↔ r = .operator := by
  cases r <;> decide

theorem iRank_le_three (r : InstanceRelation) : iRank r ≤ 3 := by
  cases r <;> decide

theorem viewerOverOperator_iff (roles : List RoleId) :
    ViewerOverOperator roles ↔
      strongest onServer roles = .viewer ∧ strongest onProject roles = .operator := by
  constructor
  · rintro ⟨ha, ht, hadm, hco, hop, hno⟩
    have hs1 : rank (strongest onServer roles) ≤ 1 := by
      refine (rank_strongest_le_iff onServer roles 1).mpr (.inr fun r hr => ?_)
      cases r <;> first | contradiction | decide
    have hs2 : 1 ≤ rank (strongest onServer roles) := le_rank_strongest onServer hno ha
    have hp : 2 ≤ rank (strongest onProject roles) := by
      rcases ht with ht | ht
      · exact le_rank_strongest onProject hno ht
      · exact le_rank_strongest onProject hno ht
    exact ⟨rank_eq_one.mp (by omega),
      rank_eq_two.mp (by have := rank_strongest_onProject_le roles; omega)⟩
  · rintro ⟨hs, hp⟩
    have hno : .noAccess ∉ roles := by
      intro h
      rw [strongest_of_noAccess onServer h] at hs
      exact absurd hs (by decide)
    -- A role above viewer on the server would show.
    have hweak : ∀ r ∈ roles, rank ((onServer r).getD .none) ≤ 1 := by
      intro r hr
      have := le_rank_strongest onServer hno hr
      rwa [hs] at this
    have hsome : ∀ (map : RoleId → Option Relation), strongest map roles ≠ .none →
        ∃ r ∈ roles, (map r).getD .none = strongest map roles := by
      intro map hne
      rcases strongest_eq_none_or map roles with h | ⟨-, h⟩
      · exact absurd h hne
      · exact h
    obtain ⟨r, hr, hrs⟩ := hsome onServer (by rw [hs]; decide)
    obtain ⟨t, ht, hts⟩ := hsome onProject (by rw [hp]; decide)
    rw [hs] at hrs
    rw [hp] at hts
    have hr' : r = .auditor := by
      revert hrs
      cases r <;> decide
    have ht' : t = .tenantAdmin ∨ t = .unrestrictedUser := by
      have := hweak t ht
      revert hts this
      cases t <;> decide
    have ht'' : .tenantAdmin ∈ roles ∨ .unrestrictedUser ∈ roles := by
      rcases ht' with rfl | rfl
      · exact .inl ht
      · exact .inr ht
    refine ⟨hr' ▸ hr, ht'', ?_, ?_, ?_, hno⟩ <;>
      exact fun h => absurd (hweak _ h) (by decide)

section Instances

variable {cluster : String} {d : String → Decision} {projects : List ProjectInput}

/-- The one way to fall short: the server relation stands for less than the project relation it
replaces, on every listed project, and there is an instance. -/
def FallsShort (cluster : String) (d : String → Decision) (projects : List ProjectInput) : Prop :=
  ViewerOverOperator (d (formatPath (.cluster cluster))).roles ∧
    (∀ x ∈ projects, relationOf cluster d (factsOf x) = .operator ∧
      ∀ i ∈ (factsOf x).instances, instanceRelationOf cluster d (factsOf x).name i = .operator) ∧
    ∃ x ∈ projects, (factsOf x).instances ≠ []

theorem whole_of_fallsShort (h : FallsShort cluster d projects) :
    wholeOf cluster d projects = true := by
  obtain ⟨hroles, hall, -⟩ := h
  obtain ⟨hs, hb⟩ := (viewerOverOperator_iff _).mp hroles
  refine wholeOf_eq_true.mpr ⟨by rw [serverOf, hs]; decide, fun x hx => ⟨?_, ?_⟩⟩
  · refine any_eq_false.mpr fun i hi => ?_
    rw [(hall x hx).1, (hall x hx).2 i hi]
    decide
  · rw [(hall x hx).1, baseOf, hb]

theorem instanceRank_le_of_fallsShort (h : FallsShort cluster d projects) (p i : Name) :
    instanceRank (explicitRelations cluster d projects) p i ≤ 1 := by
  have hw := whole_of_fallsShort h
  obtain ⟨hroles, hall, -⟩ := h
  obtain ⟨hs, hb⟩ := (viewerOverOperator_iff _).mp hroles
  rw [instanceRank, effectiveRank_le_iff]
  intro g hg _
  rcases grantOf_of_mem hg with he | hg
  · rw [instanceRankOf_entitlement he]
    exact Nat.zero_le _
  cases hg with
  | server _ => rw [serverOf, hs]; decide
  | project x hx _ _ hor =>
    rw [hw, (hall x hx).1, baseOf, hb] at hor
    exact absurd hor (by decide)
  | inst x j hx hj hlt =>
    -- The project's relation is taken to give operator already.
    have hrel : relationOf cluster d (factsOf x) = .operator := (hall x hx).1
    have hn := ((wholeOf_eq_true.mp hw).2 x hx).1
    have hgiven : givenOf (baseOf cluster d) (wholeOf cluster d projects) (perOf cluster d x) =
        .operator := by
      simp [givenOf, perOf, hn, hrel, asInstance]
    rw [hgiven, (hall x hx).2 j hj] at hlt
    exact absurd hlt (lt_irrefl _)

theorem le_instanceRank_of_not_fallsShort (h : ¬ FallsShort cluster d projects) (hx : x ∈ projects) {i : Name} (hi : i ∈ (factsOf x).instances) :
    iRank (instanceRelationOf cluster d (factsOf x).name i) ≤
      instanceRank (explicitRelations cluster d projects) (factsOf x).name i := by
  have hgrant : ∀ g ∈ explicitRelations cluster d projects,
      g.object ∈ [serverObject, projectObject (factsOf x).name, instanceObject (factsOf x).name i] →
      instanceRankOf g.relation ≤
        instanceRank (explicitRelations cluster d projects) (factsOf x).name i :=
    fun g hg ho => le_effectiveRank instanceRankOf hg ho
  -- An instance above what its project gives has a grant of its own.
  by_cases hlt : iRank (givenOf (baseOf cluster d) (wholeOf cluster d projects)
      (perOf cluster d x)) < iRank (instanceRelationOf cluster d (factsOf x).name i)
  · have := hgrant _ (mem_of_grantOf (.inst x i hx hi hlt)) (by simp)
    rwa [instanceRankOf_instance_text] at this
  have hle := Nat.le_of_not_lt hlt
  cases hn : narrowedBy cluster d (factsOf x) with
  | true =>
    have hz : iRank (instanceRelationOf cluster d (factsOf x).name i) ≤ 0 := by
      simpa [givenOf, perOf, hn, iRank] using hle
    exact hz.trans (Nat.zero_le _)
  | false =>
  by_cases hrel : relationOf cluster d (factsOf x) = .none
  · -- No project relation: the server's stands only if the cluster gives none either.
    cases hw : wholeOf cluster d projects with
    | false =>
      have hz : iRank (instanceRelationOf cluster d (factsOf x).name i) ≤ 0 := by
        simpa [givenOf, perOf, hn, hrel, hw, iRank, asInstance] using hle
      exact hz.trans (Nat.zero_le _)
    | true =>
      have hb := ((wholeOf_eq_true.mp hw).2 x hx).2
      rw [hrel] at hb
      have hb0 : baseOf cluster d = .none := rank_injective (Nat.le_zero.mp hb)
      have hz : iRank (instanceRelationOf cluster d (factsOf x).name i) ≤ 0 := by
        simpa [givenOf, perOf, hn, hrel, hw, hb0, iRank, asInstance] using hle
      exact hz.trans (Nat.zero_le _)
  have hgiven : givenOf (baseOf cluster d) (wholeOf cluster d projects) (perOf cluster d x) =
      asInstance (relationOf cluster d (factsOf x)) := by
    simp [givenOf, perOf, hn, hrel]
  rw [hgiven] at hle
  by_cases hor : wholeOf cluster d projects = false ∨
      rank (baseOf cluster d) < rank (relationOf cluster d (factsOf x))
  · have := hgrant _ (mem_of_grantOf (.project x hx hn hrel hor)) (by simp)
    rw [instanceRankOf_text] at this
    exact hle.trans this
  -- The server relation stands for the project's, which is the cluster's.
  push Not at hor
  obtain ⟨hw, hbase⟩ := hor
  have hw : wholeOf cluster d projects = true := by simpa using hw
  obtain ⟨hs, hall⟩ := wholeOf_eq_true.mp hw
  have heq : relationOf cluster d (factsOf x) = baseOf cluster d :=
    rank_injective (le_antisymm hbase (hall x hx).2)
  have hserver := hgrant _ (mem_of_grantOf (.server hw)) (by simp)
  rw [instanceRankOf_text] at hserver
  by_contra hcon
  apply h
  have hvb : serverOf cluster d = .viewer ∧ baseOf cluster d = .operator := by
    have hlt' : iRank (asInstance (serverOf cluster d)) < iRank (asInstance (baseOf cluster d)) := by
      rw [heq] at hle
      omega
    have hb2 : rank (baseOf cluster d) ≤ 2 := rank_strongest_onProject_le _
    revert hs hlt' hb2
    cases serverOf cluster d <;> cases baseOf cluster d <;> decide
  refine ⟨(viewerOverOperator_iff _).mpr hvb, fun y hy => ?_, x, hx, ne_nil_of_mem hi⟩
  obtain ⟨hny, hby⟩ := hall y hy
  have hop : relationOf cluster d (factsOf y) = .operator := by
    have h2 : rank (relationOf cluster d (factsOf y)) ≤ 2 := by
      rw [← asProject_relationOf]
      cases relationOf cluster d (factsOf y) <;> decide
    rw [hvb.2] at hby
    exact rank_eq_two.mp (le_antisymm h2 hby)
  refine ⟨hop, fun j hj => ?_⟩
  have h3 := asInstance_relationOf_le hny hj
  rw [hop] at h3
  exact iRank_eq_three.mp (le_antisymm (iRank_le_three _) h3)

end Instances

/-- **Grants against permissions, per instance**: each instance listed gets an effective Incus
relation that ranks at least what its privileges give, exactly when the cluster's roles do not fall
short of the project relation their server relation stands for. -/
theorem instance_grants_ge_iff (s : Snapshot) (key : Subject) (cluster : String)
    (facts : List ProjectFacts) :
    (∀ f ∈ facts, ∀ i ∈ f.instances,
        iRank (instanceRelation (s.privileges key (instancePath cluster f.name.text i.text))) ≤
          instanceRank (relationsOf s key cluster facts) f.name i) ↔
      ¬ FallsShort cluster (decisionAt s key) (facts.map .inr) := by
  rw [relationsOf_eq]
  constructor
  · intro h hf
    obtain ⟨-, hall, x, hx, hne⟩ := id hf
    obtain ⟨f, hfm, rfl⟩ := List.mem_map.mp hx
    obtain ⟨i, hi⟩ := exists_mem_of_ne_nil _ hne
    have hop : iRank (instanceRelationOf cluster (decisionAt s key) f.name i) = 3 :=
      iRank_eq_three.mpr ((hall _ hx).2 i hi)
    have hge := h f hfm i hi
    have hle := instanceRank_le_of_fallsShort hf f.name i
    have heq : iRank (instanceRelation (s.privileges key
        (instancePath cluster f.name.text i.text))) = 3 := hop
    omega
  · intro h f hf i hi
    exact le_instanceRank_of_not_fallsShort h (mem_map_of_mem hf) hi

/-- What `POST /api/v1/acl/entries` lets entries be: Unrestricted user never on `/` or a cluster,
Group owner only on cluster groups. -/
def EntryRules (db : Db) : Prop :=
  ∀ e ∈ db.aclEntries,
    (e.role = RoleId.unrestrictedUser.text → e.path ≠ "/" ∧
      ((parsePath e.path).all fun p => match p with | .cluster _ => false | _ => true) = true) ∧
    (e.role = RoleId.groupOwner.text →
      ((parsePath e.path).any fun p => match p with | .group _ _ => true | _ => false) = true)

instance (db : Db) : Decidable (EntryRules db) :=
  inferInstanceAs (Decidable (∀ e ∈ db.aclEntries, _ ∧ _))

/-- `userU` is Auditor and Tenant admin on cluster `c`, where project `a` has an instance. -/
def auditorAndTenantAdmin : Db where
  users := [⟨userU, "u@example.net", false⟩]
  clusters := [clusterC]
  aclEntries :=
    [entryOnC idE1 .auditor true, entryOnC idE2 .tenantAdmin true]
  instances := [instanceI]
  tenantMembers_keys := tenantMembers_keys_nil

/-- The server relation of Auditor stands for the operator Tenant admin is on the project: the
instance is only viewed. -/
theorem instance_grants_fall_short :
    ¬ ∀ (db : Db) (key : Subject) (cluster : ClusterRow) (granted listed : List Name),
      EntryRules db → key ∉ (load db).disabled →
      ∀ f ∈ grantableFacts db cluster granted listed, ∀ i ∈ f.instances,
        iRank (instanceRelation ((load db).privileges key
            (instancePath cluster.name.text f.name.text i.text))) ≤
          instanceRank (relationsOf (load db) key cluster.name.text
            (grantableFacts db cluster granted listed)) f.name i := by
  intro h
  have hle := h auditorAndTenantAdmin ⟨.user, userU.text⟩ clusterC [] [⟨"a", by decide⟩]
    (by decide) (by decide) ⟨⟨"a", by decide⟩, [⟨"i", by decide⟩], []⟩ (by decide)
    ⟨"i", by decide⟩ (by decide)
  exact absurd hle (by decide)

end IncusCloud.Reconcile
