import IncusCloud.Placement.Scriptlet

/-!
# Strict placement groups hold

The counts leave out the instance that is placed, so they are of the others of its group. A strict
group's instance is put where none of the others is, or where all of them are, or nowhere.
-/

namespace IncusCloud.Placement

open Lib List
open OrdMap (get_set)

variable {p : Project} {group : String} {candidates names : List String} {request : Request} {policy : Policy}

/-! ### Definitions -/

def Defines (config : Config) (group : String) (policy : Policy) (rigor : Rigor) : Prop :=
  config.get (defKey group "policy") = some policy.text ∧
    (config.get (defKey group "rigor")).getD "strict" = rigor.text

theorem defKey_ne (name : String) {field field' : String} (h : field ≠ field') :
    defKey name field ≠ defKey name field' := by
  intro heq
  have hlist := congrArg String.toList heq
  unfold defKey at hlist
  simp only [String.toList_append] at hlist
  exact h (String.toList_inj.mp (append_cancel_left hlist))

theorem defines_withPlacementGroup (config : Config) (group : Group) :
    Defines (withPlacementGroup config group) group.name group.policy group.rigor := by
  have hpolicy : defKey group.name "policy" ≠ defKey group.name "description" := defKey_ne _ (by decide)
  have hrigor : defKey group.name "rigor" ≠ defKey group.name "description" := defKey_ne _ (by decide)
  have hboth : defKey group.name "policy" ≠ defKey group.name "rigor" := defKey_ne _ (by decide)
  unfold withPlacementGroup Defines
  split_ifs
  · rw [get_set, get_set, get_set, if_neg hboth, if_pos rfl, if_pos rfl]
    exact ⟨rfl, rfl⟩
  · rw [get_set, get_set, get_set, get_set, get_set, if_neg hpolicy, if_neg hrigor,
      if_neg hboth, if_pos rfl, if_pos rfl]
    exact ⟨rfl, rfl⟩

/-! ### What is counted -/

def Other (p : Project) (group name : String) (i : Instance) : Prop :=
  i ∈ p.instances ∧ i.name ≠ name ∧ i.group = group

theorem get_groupCounts (instances : List Instance) (group name m : String) :
    ((groupCounts instances group name).get m).getD 0 =
      instances.countP fun i => i.name ≠ name ∧ i.group = group ∧ i.location = m := by
  have hfold : ∀ counts : OrdMap String ℕ,
      ((instances.foldl
        (fun counts i =>
          if i.name = name then counts
          else if i.group = group then counts.set i.location ((counts.get i.location).getD 0 + 1)
          else counts) counts).get m).getD 0 =
        (counts.get m).getD 0 + instances.countP fun i => i.name ≠ name ∧ i.group = group ∧
          i.location = m := by
    induction instances with
    | nil => exact fun _ => rfl
    | cons i is ih =>
      intro counts
      rw [foldl_cons, ih, countP_cons]
      by_cases hname : i.name = name
      · simp [hname]
      · by_cases hgroup : i.group = group
        · rw [if_neg hname, if_pos hgroup, get_set]
          by_cases hm : m = i.location
          · rw [if_pos hm, if_pos (by simp [hname, hgroup, hm]), hm, Option.getD_some]
            omega
          · rw [if_neg hm, if_neg (by simp [Ne.symm hm])]
            omega
        · simp [hname, hgroup]
  have hempty := hfold []
  rw [OrdMap.get_nil, Option.getD_none, Nat.zero_add] at hempty
  exact hempty

theorem groupCounts_pos {name m : String} :
    0 < ((groupCounts p.instances group name).get m).getD 0 ↔ ∃ i, Other p group name i ∧ i.location = m := by
  rw [get_groupCounts, countP_pos_iff]
  constructor
  · rintro ⟨i, hi, hcount⟩
    obtain ⟨hname, hgroup, hm⟩ := of_decide_eq_true hcount
    exact ⟨i, ⟨hi, hname, hgroup⟩, hm⟩
  · rintro ⟨i, ⟨hi, hname, hgroup⟩, hm⟩
    exact ⟨i, hi, decide_eq_true ⟨hname, hgroup, hm⟩⟩

theorem not_other_of_groupCounts {name : String}
    (h : (groupCounts p.instances group name).length = 0) (i : Instance) : ¬ Other p group name i := by
  intro hother
  have hpos := groupCounts_pos.mpr ⟨i, hother, rfl⟩
  rw [length_eq_zero_iff.mp h] at hpos
  exact absurd hpos (Nat.lt_irrefl 0)

/-! ### Targets -/

theorem leastLoaded_target (load : String → ℕ) {members : List String} (h : members ≠ []) :
    ∃ m ∈ members, leastLoaded load members = .target m := by
  match members, h with
  | m :: ms, _ =>
    refine ⟨_, ?_, rfl⟩
    refine List.foldlRecOn (motive := fun best => best ∈ m :: ms) ms _ mem_cons_self fun best hbest n hn => ?_
    split_ifs
    · exact mem_cons_of_mem m hn
    · exact hbest

theorem fewest_attained (f : String → ℕ) (h : names ≠ []) :
    names.filter (fun n => f n = ((names.map f).min?).getD 0) ≠ [] := by
  have hne : names.map f ≠ [] := by simpa using h
  obtain ⟨fewest, hfewest⟩ := Option.ne_none_iff_exists'.mp (mt List.min?_eq_none_iff.mp hne)
  obtain ⟨n, hn, hfn⟩ := List.mem_map.mp (List.min?_mem hfewest)
  refine ne_nil_of_mem (mem_filter.mpr ⟨hn, ?_⟩)
  rw [hfewest]
  simpa using hfn

theorem most_attained (f : String → ℕ) (h : names ≠ []) :
    names.filter (fun n => f n = ((names.map f).max?).getD 0) ≠ [] := by
  have hne : names.map f ≠ [] := by simpa using h
  obtain ⟨most, hmost⟩ := Option.ne_none_iff_exists'.mp (mt List.max?_eq_none_iff.mp hne)
  obtain ⟨n, hn, hfn⟩ := List.mem_map.mp (List.max?_mem hmost)
  refine ne_nil_of_mem (mem_filter.mpr ⟨hn, ?_⟩)
  rw [hmost]
  simpa using hfn

theorem placeSpread_cases (load : String → ℕ) (strict : Bool) (group : String)
    (counts : OrdMap String ℕ) (hnames : names ≠ []) :
    (strict = true ∧ ∃ message, placeSpread load strict group counts names = .fail message) ∨
      ∃ m, placeSpread load strict group counts names = .target m ∧
        (strict = true → (counts.get m).getD 0 = 0) := by
  obtain ⟨m, hm, htarget⟩ :=
    leastLoaded_target load (fewest_attained (fun n => (counts.get n).getD 0) hnames)
  have hfewest := of_decide_eq_true (mem_filter.mp hm).2
  unfold placeSpread
  by_cases hfail : (((names.map fun n => (counts.get n).getD 0).min?).getD 0 > 0 && strict) = true
  · rw [if_pos hfail]
    simp only [Bool.and_eq_true, decide_eq_true_eq] at hfail
    exact .inl ⟨hfail.2, _, rfl⟩
  · rw [if_neg hfail]
    refine .inr ⟨m, htarget, fun hstrict => ?_⟩
    rw [hfewest]
    simpa [hstrict] using hfail

/-- The compact policy targets a member that has some; else there are none at all, or it fails where
it is strict. -/
theorem placeCompact_cases (load : String → ℕ) (strict : Bool) (group : String)
    (counts : OrdMap String ℕ) (names : List String) :
    (∃ m, placeCompact load strict group counts names = .target m ∧ 0 < (counts.get m).getD 0) ∨
      (placeCompact load strict group counts names = .default ∧ (strict = true → counts.length = 0)) ∨
      (strict = true ∧ ∃ message, placeCompact load strict group counts names = .fail message) := by
  unfold placeCompact
  by_cases hoccupied : (names.filter fun n => (counts.get n).getD 0 > 0) ≠ []
  · rw [if_pos hoccupied]
    obtain ⟨m, hm, htarget⟩ :=
      leastLoaded_target load (most_attained (fun n => (counts.get n).getD 0) hoccupied)
    have hmem := (mem_filter.mp hm).1
    exact .inl ⟨m, htarget, of_decide_eq_true (mem_filter.mp hmem).2⟩
  · rw [if_neg hoccupied]
    by_cases hnone : counts.length = 0
    · rw [if_pos hnone]
      exact .inr (.inl ⟨rfl, fun _ => hnone⟩)
    · rw [if_neg hnone]
      by_cases hstrict : strict = true
      · rw [if_pos hstrict]
        exact .inr (.inr ⟨hstrict, _, rfl⟩)
      · rw [if_neg hstrict]
        exact .inr (.inl ⟨rfl, fun h => absurd h hstrict⟩)

/-! ### The scriptlet -/

theorem strictFor_of_fail {load : String → ℕ}
    {message : String} (h : instancePlacement load p request candidates = .fail message) :
    strictFor p.config (groupOf request.config) request.reason = true := by
  unfold instancePlacement at h
  dsimp only at h
  by_cases hdefault : groupOf request.config = "" ∨ candidates = []
  · rw [if_pos hdefault] at h
    cases h
  · rw [if_neg hdefault] at h
    rw [not_or] at hdefault
    split_ifs at h
    · obtain ⟨hstrict, -⟩ | ⟨m, htarget, -⟩ := placeSpread_cases load
        (strictFor p.config (groupOf request.config) request.reason) (groupOf request.config)
        (groupCounts p.instances (groupOf request.config) request.name) hdefault.2
      · exact hstrict
      · rw [htarget] at h
        cases h
    · obtain ⟨m, htarget, -⟩ | ⟨hnone, -⟩ | ⟨hstrict, -⟩ := placeCompact_cases load
        (strictFor p.config (groupOf request.config) request.reason) (groupOf request.config)
        (groupCounts p.instances (groupOf request.config) request.name) candidates
      · rw [htarget] at h
        cases h
      · rw [hnone] at h
        cases h
      · exact hstrict

theorem instancePlacement_defined (load : String → ℕ) {rigor : Rigor} (hname : groupOf request.config ≠ "")
    (hdefined : Defines p.config (groupOf request.config) policy rigor) (hcandidates : candidates ≠ []) :
    instancePlacement load p request candidates =
      match policy with
      | .spread =>
        placeSpread load (strictFor p.config (groupOf request.config) request.reason) (groupOf request.config)
          (groupCounts p.instances (groupOf request.config) request.name) candidates
      | .compact =>
        placeCompact load (strictFor p.config (groupOf request.config) request.reason)
          (groupOf request.config)
          (groupCounts p.instances (groupOf request.config) request.name) candidates := by
  unfold instancePlacement
  rw [if_neg (not_or.mpr ⟨hname, hcandidates⟩), hdefined.1]
  cases policy
  · rfl
  · rfl

/-! ### What holds -/

/-- What a policy asks of its group: a spread one has at most one instance per member, a compact one
is on at most one member. -/
def Held (policy : Policy) (group : String) (p : Project) : Prop :=
  ∀ i ∈ p.instances, ∀ j ∈ p.instances, i.group = group → j.group = group →
    match policy with
    | .spread => i.location = j.location → i = j
    | .compact => i.location = j.location

def Beside : Policy → String → String → Prop
  | .spread, member, member' => member ≠ member'
  | .compact, member, member' => member = member'

theorem placed_strict {load : String → ℕ} {member : String} (hname : groupOf request.config ≠ "")
    (hdefined : Defines p.config (groupOf request.config) policy .strict)
    (hreason : request.reason ≠ .evacuation)
    (hheld : Held policy (groupOf request.config) p)
    (hplaced : Placed candidates (instancePlacement load p request candidates) member) (i : Instance)
    (hi : Other p (groupOf request.config) request.name i) : Beside policy i.location member := by
  have hstrict : strictFor p.config (groupOf request.config) request.reason = true := by
    have hrigor : (p.config.get (defKey (groupOf request.config) "rigor")).getD "strict" =
      "strict" := hdefined.2
    unfold strictFor
    cases hr : request.reason with
    | new => simpa using hrigor
    | relocation => simpa using hrigor
    | evacuation => exact absurd hr hreason
    | rebalance => rfl
  have hcandidates : candidates ≠ [] := by
    intro hnone
    unfold instancePlacement at hplaced
    rw [if_pos (.inr hnone), hnone] at hplaced
    cases hplaced with
    | default h => cases h
  rw [instancePlacement_defined load hname hdefined hcandidates, hstrict] at hplaced
  cases policy with
  | spread =>
    obtain ⟨-, message, hfail⟩ | ⟨m, htarget, hfree⟩ := placeSpread_cases load true (groupOf request.config)
      (groupCounts p.instances (groupOf request.config) request.name) hcandidates
    · rw [hfail] at hplaced
      cases hplaced
    · rw [htarget] at hplaced
      cases hplaced
      intro hsame
      have hpos := groupCounts_pos.mpr ⟨i, hi, hsame⟩
      rw [hfree rfl] at hpos
      exact absurd hpos (Nat.lt_irrefl 0)
  | compact =>
    obtain ⟨m, htarget, hpos⟩ | ⟨-, hnone⟩ | ⟨-, message, hfail⟩ := placeCompact_cases load true
      (groupOf request.config) (groupCounts p.instances (groupOf request.config) request.name) candidates
    · rw [htarget] at hplaced
      cases hplaced
      obtain ⟨j, hj, hjm⟩ := groupCounts_pos.mp hpos
      rw [← hjm]
      exact hheld i hi.1 j hj.1 hi.2.2 hj.2.2
    · exact absurd hi (not_other_of_groupCounts (hnone rfl) i)
    · rw [hfail] at hplaced
      cases hplaced

/-! ### Runs -/

theorem effective_eq (i : Instance) : i.effective = i.expandedConfig := by
  unfold Instance.effective
  by_cases hexpanded : i.expandedConfig = []
  · rw [if_pos hexpanded, hexpanded, i.whole hexpanded]
  · rw [if_neg hexpanded]

theorem group_eq (i : Instance) : i.group = groupOf i.expandedConfig := by
  unfold Instance.group
  rw [effective_eq]

theorem Project.eq_of_name (p : Project) {i j : Instance} (hi : i ∈ p.instances)
    (hj : j ∈ p.instances) (h : i.name = j.name) : i = j := inj_on_of_nodup_map p.distinct hi hj h

theorem step_cases {q : Project} (h : Step p q) :
    q.config = p.config ∧
      ((∀ i ∈ q.instances, i ∈ p.instances) ∨
        ∃ load candidates request member, request.reason ≠ .evacuation ∧
          Placed candidates (instancePlacement load p request candidates) member ∧
          ∀ i ∈ q.instances, (i ∈ p.instances ∧ i.name ≠ request.name) ∨
            (i.name = request.name ∧ i.location = member ∧ i.group = groupOf request.config)) := by
  cases h with
  | create load candidates i placed config instances =>
    refine ⟨config, .inr ⟨load, candidates, _, _, by simp, placed, fun j hj => ?_⟩⟩
    have hdistinct := q.distinct
    rw [instances, map_append, map_singleton, nodup_append] at hdistinct
    rw [instances] at hj
    rcases mem_append.mp hj with hj | hj
    · left
      refine ⟨hj, ?_⟩
      exact hdistinct.2.2 _ (mem_map_of_mem hj) _ (mem_singleton_self _)
    · right
      rw [mem_singleton.mp hj]
      exact ⟨rfl, rfl, group_eq i⟩
  | move load candidates i reason member there automatic placed config instances =>
    have hreason : reason ≠ .evacuation := by
      rcases automatic with h | h
      · simp [h]
      · simp [h]
    refine ⟨config, .inr ⟨load, candidates, _, member, hreason, placed, fun j hj => ?_⟩⟩
    rw [instances] at hj
    obtain ⟨k, hk, rfl⟩ := List.mem_map.mp hj
    by_cases hname : k.name = i.name
    · rw [if_pos hname]
      right
      have hsame := p.eq_of_name hk there hname
      rw [hsame]
      exact ⟨rfl, rfl, group_eq i⟩
    · rw [if_neg hname]
      exact .inl ⟨hk, hname⟩
  | delete name config instances =>
    refine ⟨config, .inl fun i hi => ?_⟩
    rw [instances] at hi
    exact (mem_filter.mp hi).1

theorem held_step {q : Project} (hname : group ≠ "")
    (hdefined : Defines p.config group policy .strict) (hheld : Held policy group p) (h : Step p q) :
    Held policy group q := by
  obtain ⟨-, hleft | ⟨load, candidates, request, member, hreason, hplaced, hinstances⟩⟩ := step_cases h
  · exact fun i hi j hj => hheld i (hleft i hi) j (hleft j hj)
  · -- The one that is placed, against each of the others of its group.
    have hother : ∀ i ∈ p.instances, i.name ≠ request.name → i.group = group →
        groupOf request.config = group → Beside policy i.location member := by
      intro i hi hne hi' hgroup
      rw [← hgroup] at hname hdefined hheld hi'
      exact placed_strict hname hdefined hreason hheld hplaced i ⟨hi, hne, hi'⟩
    intro i hi j hj hig hjg
    rcases hinstances i hi with ⟨hip, hin⟩ | ⟨hin, hil, hir⟩
    · rcases hinstances j hj with ⟨hjp, hjn⟩ | ⟨hjn, hjl, hjr⟩
      · exact hheld i hip j hjp hig hjg
      · have happart := hother i hip hin hig (hjr.symm.trans hjg)
        rw [hjl]
        cases policy
        · exact fun h => absurd h happart
        · exact happart
    · rcases hinstances j hj with ⟨hjp, hjn⟩ | ⟨hjn, hjl, hjr⟩
      · have happart := hother j hjp hjn hjg (hir.symm.trans hig)
        rw [hil]
        cases policy
        · exact fun h => absurd h.symm happart
        · exact happart.symm
      · have hsame := q.eq_of_name hi hj (hin.trans hjn.symm)
        cases policy
        · exact fun _ => hsame
        · exact congrArg Instance.location hsame

theorem held_steps {q : Project} (hname : group ≠ "")
    (hdefined : Defines p.config group policy .strict) (hheld : Held policy group p) (h : Steps p q) :
    Held policy group q ∧ Defines q.config group policy .strict := by
  induction h with
  | refl => exact ⟨hheld, hdefined⟩
  | tail _ hstep ih =>
    refine ⟨held_step hname ih.2 ih.1 hstep, ?_⟩
    rw [(step_cases hstep).1]
    exact ih.2

/-- **Strict placement groups hold.**  For a group that is defined strict, creations, relocations,
rebalances and deletions in any order keep at most one instance per member, or the group on at most
one member. The scriptlet fails no placement for an evacuation, and none of a permissive group but
for a rebalance. -/
theorem strict_groups_hold :
    (∀ (p q : Project) (group : String) (policy : Policy), group ≠ "" →
      Defines p.config group policy .strict →
      Held policy group p → Steps p q → Held policy group q) ∧
    (∀ (load : String → ℕ) (p : Project) (request : Request) (candidates : List String),
      request.reason = .evacuation → ∀ message, instancePlacement load p request candidates ≠ .fail message) ∧
    (∀ (load : String → ℕ) (p : Project) (request : Request) (candidates : List String) (policy : Policy),
      Defines p.config (groupOf request.config) policy .permissive → request.reason ≠ .rebalance →
        ∀ message, instancePlacement load p request candidates ≠ .fail message) := by
  refine ⟨fun p q group policy hname hdefined hheld h => (held_steps hname hdefined hheld h).1, ?_, ?_⟩
  · intro load p request candidates hreason message hfail
    have hstrict := strictFor_of_fail hfail
    rw [hreason] at hstrict
    cases hstrict
  · intro load p request candidates policy hdefined hreason message hfail
    have hstrict := strictFor_of_fail hfail
    have hrigor : (p.config.get (defKey (groupOf request.config) "rigor")).getD "strict" =
      "permissive" := hdefined.2
    unfold strictFor at hstrict
    cases hr : request.reason with
    | new => simp [hr, hrigor] at hstrict
    | relocation => simp [hr, hrigor] at hstrict
    | evacuation => simp [hr] at hstrict
    | rebalance => exact hreason hr

def webGroup : Group := ⟨"web", "front ends", .spread, .strict⟩

def webOn (name member : String) : Instance where
  name := name
  location := member
  expandedConfig := [(placementGroupKey, "web")]
  config := []
  whole := by decide

def webProject (instances : List Instance) (distinct : (instances.map fun i => i.name).Nodup) : Project :=
  ⟨"prod", withPlacementGroup [] webGroup, instances, distinct⟩

/-- The second of the group goes to the other member, and the group stays spread. -/
theorem strict_groups_hold_web :
    Held .spread "web" (webProject [webOn "w1" "a", webOn "w2" "b"] (by decide)) := by
  have hplacement : instancePlacement (fun _ => 0) (webProject [webOn "w1" "a"] (by decide))
      ⟨"w2", .new, [(placementGroupKey, "web")]⟩ ["a", "b"] = .target "b" := by decide
  have hplaced : Placed ["a", "b"] (instancePlacement (fun _ => 0) (webProject [webOn "w1" "a"] (by decide))
      ⟨"w2", .new, [(placementGroupKey, "web")]⟩ ["a", "b"]) "b" := by
    rw [hplacement]
    exact .target "b"
  have hstep : Step (webProject [webOn "w1" "a"] (by decide))
      (webProject [webOn "w1" "a", webOn "w2" "b"] (by decide)) :=
    .create (fun _ => 0) ["a", "b"] (webOn "w2" "b") hplaced rfl rfl
  have hheld : Held .spread "web" (webProject [webOn "w1" "a"] (by decide)) := by
    intro i hi j hj _ _ _
    rw [mem_singleton.mp hi, mem_singleton.mp hj]
  exact strict_groups_hold.1 _ _ "web" .spread (by decide)
    (defines_withPlacementGroup [] webGroup) hheld (.single hstep)

end IncusCloud.Placement
