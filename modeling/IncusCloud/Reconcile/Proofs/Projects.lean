import IncusCloud.Reconcile.Projects

/-!
# A project is brought in line

`InLine` is what a cluster's project has to agree with. `patchFor` is empty exactly where it does
(`patchFor_eq_nil`), and what it makes of a config agrees (`Agrees.applyPatch`): each entry of it is
what the goal has at its key, and it covers every key where the two differ. So a second run of
`ensureProject` finds nothing to change.
-/

namespace IncusCloud.Reconcile

open Lib Handler List
open Option (some.inj)
open Tenants (QuotaKey quotaKeys)
open OrdMap (mem_set nodup_keys_set get_set mem_of_get isSome_get get_of_mem)
open Function (update update_self update_of_ne)

variable {want current : Config} {k v : String} {tenant : ProjectTenant} {limits : ProjectLimits}
  {clusterGroups : List GroupName} {snapshotsFull : Bool}

/-! ### The wanted config -/

theorem join_ne_empty {xs : List String} (hne : xs ≠ []) (h : ∀ x ∈ xs, x ≠ "") (sep : Char) :
    join sep xs ≠ "" := by
  obtain ⟨x, xs, rfl⟩ := exists_cons_of_ne_nil hne
  have hx : x.toList ≠ [] := by
    simpa using h x mem_cons_self
  intro hjoin
  have hnil : [sep].intercalate ((x :: xs).map String.toList) = [] := by
    have := congrArg String.toList hjoin
    simpa [join] using this
  cases xs with
  | nil => exact hx (by simpa using hnil)
  | cons y ys => simp at hnil

theorem wantedConfig_eq (tenant : ProjectTenant) (limits : ProjectLimits)
    (clusterGroups : List GroupName)
    (snapshotsFull : Bool) : ∃ x, x ≠ "" ∧
      (wantedConfig tenant limits clusterGroups snapshotsFull =
          (projectConfigFor tenant limits).set "restricted.snapshots" x ∨
        ∃ y, y ≠ "" ∧ wantedConfig tenant limits clusterGroups snapshotsFull =
          ((projectConfigFor tenant limits).set "restricted.snapshots" x).set clusterGroupsKey
            y) := by
  refine ⟨if snapshotsFull then "block" else "allow", ?_, ?_⟩
  · cases snapshotsFull <;> decide
  · by_cases hgroups : clusterGroups = []
    · exact .inl (if_pos hgroups)
    · refine .inr ⟨_, ?_, if_neg hgroups⟩
      have hperm := perm_insertionSort (fun a b => !Balancing.textLt b a)
        (clusterGroups.map (·.text))
      apply join_ne_empty
      · intro hnil
        rw [hnil] at hperm
        exact hgroups (by simpa using hperm.symm.eq_nil)
      · intro x hx
        obtain ⟨g, -, rfl⟩ := List.mem_map.mp (hperm.mem_iff.mp hx)
        exact g.ne_empty

theorem nodup_wantedConfig :
    ((wantedConfig tenant limits clusterGroups snapshotsFull).map (·.1)).Nodup := by
  have hbase : ((projectConfigFor tenant limits).map (·.1)).Nodup := OrdMap.nodup_keys_ofList _
  obtain ⟨x, -, h | ⟨y, -, h⟩⟩ := wantedConfig_eq tenant limits clusterGroups snapshotsFull
  · rw [h]
    exact nodup_keys_set hbase _ _
  · rw [h]
    exact nodup_keys_set (nodup_keys_set hbase _ _) _ _

theorem uuid_ne_empty (u : Uuid) : u.text ≠ "" := by
  intro h
  have hvalid := u.valid.1
  rw [h] at hvalid
  exact absurd hvalid (by decide)

theorem projectConfigFor_full : ∀ e ∈ projectConfigFor tenant limits, e.2 ≠ "" := by
  intro e he
  rcases mem_append.mp (OrdMap.mem_of_mem_ofList he) with he | he
  · simp only [mem_cons, not_mem_nil, or_false] at he
    rcases he with rfl | rfl | rfl | rfl | rfl | rfl | rfl | rfl | rfl | rfl
    all_goals first | decide | exact uuid_ne_empty tenant.id
  · obtain ⟨k, -, hk⟩ := List.mem_filterMap.mp he
    obtain ⟨v, -, rfl⟩ := Option.map_eq_some_iff.mp hk
    simpa using Number.text_ne_nil v

theorem wantedConfig_full : ∀ e ∈ wantedConfig tenant limits clusterGroups snapshotsFull,
    e.2 ≠ "" := by
  obtain ⟨x, hx, h | ⟨y, hy, h⟩⟩ := wantedConfig_eq tenant limits clusterGroups snapshotsFull
  · intro e he
    rw [h] at he
    rcases mem_set he with rfl | he
    · exact hx
    · exact projectConfigFor_full e he
  · intro e he
    rw [h] at he
    rcases mem_set he with rfl | he
    · exact hy
    · rcases mem_set he with rfl | he
      · exact hx
      · exact projectConfigFor_full e he

theorem projectConfigFor_tenant : (projectConfigFor tenant limits).get tenantKey =
    some tenant.id.text := by
  have hlimits : (quotaKeys.filterMap fun k => (limits k).map fun v =>
    ("limits." ++ k.text, String.ofList v.text)).filter (fun e => e.1 = tenantKey) = [] := by
    rw [filter_eq_nil_iff]
    intro e he
    obtain ⟨k, -, hk⟩ := List.mem_filterMap.mp he
    obtain ⟨v, -, rfl⟩ := Option.map_eq_some_iff.mp hk
    have hne : ∀ k : QuotaKey, "limits." ++ k.text ≠ tenantKey := by
      intro k
      cases k <;> decide
    simpa using hne k
  unfold projectConfigFor
  rw [OrdMap.get_ofList, filter_append, hlimits]
  rfl

theorem wantedConfig_tenant :
    (wantedConfig tenant limits clusterGroups snapshotsFull).get tenantKey =
      some tenant.id.text := by
  have hsnapshots : ∀ x,
    ((projectConfigFor tenant limits).set "restricted.snapshots" x).get tenantKey =
      some tenant.id.text := by
    intro x
    rw [get_set, if_neg (by decide), projectConfigFor_tenant]
  obtain ⟨x, -, h | ⟨y, -, h⟩⟩ := wantedConfig_eq tenant limits clusterGroups snapshotsFull
  · rw [h]
    exact hsnapshots x
  · rw [h, get_set, if_neg (by decide)]
    exact hsnapshots x

/-! ### The patch -/

/-- What the config of a project in line has: each wanted key that is kept in line at its value, and
none that is to be unset. -/
structure Agrees (want current : Config) : Prop where
  wanted : ∀ k v, updatable k = true → want.get k = some v → current.get k = some v
  unwanted : ∀ k, unsettable k = true → want.get k = none → current.get k = none

theorem mem_patchFor {e : String × String} :
    e ∈ patchFor want current ↔
      (e ∈ want ∧ updatable e.1 = true ∧ current.get e.1 ≠ some e.2) ∨
        (e.2 = "" ∧ e.1 ∈ current.map (·.1) ∧ unsettable e.1 = true ∧ want.get e.1 = none) := by
  unfold patchFor
  rw [mem_append, mem_filter, List.mem_map]
  simp only [Bool.and_eq_true, decide_eq_true_eq, mem_filter, Option.isNone_iff_eq_none,
    List.mem_map]
  constructor
  · rintro (h | ⟨a, ⟨ha, hk⟩, rfl⟩)
    · exact .inl h
    · exact .inr ⟨rfl, ⟨a, ha, rfl⟩, hk⟩
  · rintro (h | ⟨hv, ⟨a, ha, hk⟩, h⟩)
    · exact .inl h
    · refine .inr ⟨a, ⟨ha, ?_⟩, Prod.ext hk hv.symm⟩
      rwa [hk]

theorem patchFor_eq_nil (hwant : (want.map (·.1)).Nodup) : patchFor want current = [] ↔
    Agrees want current := by
  rw [eq_nil_iff_forall_not_mem]
  constructor
  · intro h
    constructor
    · intro k v hk hv
      by_contra hne
      exact h (k, v) (mem_patchFor.mpr (.inl ⟨mem_of_get hv, hk, hne⟩))
    · intro k hk hnone
      by_contra hne
      have hmem : k ∈ current.map (·.1) := by
        rw [← isSome_get]
        exact Option.isSome_iff_ne_none.mpr hne
      exact h (k, "") (mem_patchFor.mpr (.inr ⟨rfl, hmem, hk, hnone⟩))
  · intro h e he
    rcases mem_patchFor.mp he with ⟨hmem, hk, hne⟩ | ⟨-, hmem, hk, hnone⟩
    · exact hne (h.wanted e.1 e.2 hk (get_of_mem hwant hmem))
    · have hsome := (isSome_get current e.1).mpr hmem
      rw [h.unwanted e.1 hk hnone] at hsome
      cases hsome

theorem patchFor_value (hwant : (want.map (·.1)).Nodup) {e : String × String}
    (he : e ∈ patchFor want current) :
    e.2 = (want.get e.1).getD "" := by
  rcases mem_patchFor.mp he with ⟨hmem, -, -⟩ | ⟨hv, -, -, hnone⟩
  · rw [get_of_mem hwant hmem]
    rfl
  · rw [hv, hnone]
    rfl

theorem get_applyPatch (goal : String → String) (patch : Config)
    (hgoal : ∀ e ∈ patch, e.2 = goal e.1)
    (current : Config) (k : String) :
    (applyPatch current patch).get k =
      if k ∈ patch.map (·.1) then (if goal k = "" then none else some (goal k))
        else current.get k := by
  induction patch generalizing current with
  | nil => rfl
  | cons e patch ih =>
    have hstep : ∀ next : Config,
      next.get k = (if k = e.1 then (if goal k = "" then none else some (goal k))
        else current.get k) → (applyPatch next patch).get k =
          if k ∈ (e :: patch).map (·.1) then (if goal k = "" then none else some (goal k))
            else current.get k := by
      intro next hnext
      rw [ih (fun e he => hgoal e (mem_cons_of_mem _ he)) next, hnext]
      by_cases hk : k = e.1
      · have hmem : k ∈ (e :: patch).map (·.1) := by simp [hk]
        rw [if_pos hmem, if_pos hk, ite_self]
      · have hiff : k ∈ (e :: patch).map (·.1) ↔ k ∈ patch.map (·.1) := by simp [hk]
        rw [if_neg hk]
        by_cases hmem : k ∈ patch.map (·.1)
        · rw [if_pos hmem, if_pos (hiff.mpr hmem)]
        · rw [if_neg hmem, if_neg (mt hiff.mp hmem)]
    have he := hgoal e mem_cons_self
    unfold applyPatch at hstep ⊢
    rw [foldl_cons]
    apply hstep
    by_cases hempty : e.2 = ""
    · rw [if_pos hempty, OrdMap.get_erase]
      by_cases hk : k = e.1
      · simp [hk, ← he, hempty]
      · simp [hk]
    · rw [if_neg hempty, get_set]
      by_cases hk : k = e.1
      · simp [hk, ← he, hempty]
      · simp [hk]

theorem applyPatch_full {patch : Config} (h : ∀ e ∈ current, e.2 ≠ "") :
    ∀ e ∈ applyPatch current patch, e.2 ≠ "" := by
  unfold applyPatch
  induction patch generalizing current with
  | nil => exact h
  | cons e patch ih =>
    rw [foldl_cons]
    apply ih
    split_ifs with hempty
    · exact fun a ha => h a (mem_filter.mp ha).1
    · intro a ha
      rcases mem_set ha with rfl | ha
      · exact hempty
      · exact h a ha

theorem get_patched (hwant : (want.map (·.1)).Nodup) (k : String) :
    (applyPatch current (patchFor want current)).get k =
      if k ∈ (patchFor want current).map (·.1) then
        (if (want.get k).getD "" = "" then none else some ((want.get k).getD ""))
          else current.get k :=
  get_applyPatch (fun k => (want.get k).getD "") _ (fun _ => patchFor_value hwant) current k

theorem Agrees.patched (hwant : (want.map (·.1)).Nodup) (hfull : ∀ e ∈ want, e.2 ≠ "") :
    Agrees want (applyPatch current (patchFor want current)) := by
  constructor
  · intro k v hk hv
    have hne : v ≠ "" := hfull _ (mem_of_get hv)
    rw [get_patched hwant, hv, Option.getD_some, if_neg hne]
    split_ifs with hmem
    · rfl
    · by_contra hother
      exact hmem (List.mem_map.mpr ⟨(k, v), mem_patchFor.mpr (.inl ⟨mem_of_get hv, hk, hother⟩),
        rfl⟩)
  · intro k hk hnone
    rw [get_patched hwant, hnone]
    split_ifs with hmem hempty
    · rfl
    · exact absurd rfl hempty
    · by_contra hother
      have hkey : k ∈ current.map (·.1) := by
        rw [← isSome_get]
        exact Option.isSome_iff_ne_none.mpr hother
      exact hmem (List.mem_map.mpr ⟨(k, ""), mem_patchFor.mpr (.inr ⟨rfl, hkey, hk, hnone⟩), rfl⟩)

theorem get_patched_other (hwant : (want.map (·.1)).Nodup)
    (hk : updatable k = true → want.get k = none)
    (hunset : unsettable k = false) : (applyPatch current (patchFor want current)).get k =
      current.get k := by
  rw [get_patched hwant, if_neg]
  intro hmem
  obtain ⟨e, he, rfl⟩ := List.mem_map.mp hmem
  rcases mem_patchFor.mp he with ⟨hentry, hupdatable, -⟩ | ⟨-, -, hunset', -⟩
  · rw [get_of_mem hwant hentry] at hk
    cases hk hupdatable
  · rw [hunset] at hunset'
    cases hunset'

/-! ### Runs -/

variable {config : Config}

@[simp] theorem current_keep (h : ∀ e ∈ config, e.2 ≠ "") (description : String) :
    (Project.keep config description).current = config := by
  show config.filter _ = config
  rw [filter_eq_self]
  simpa using h

/-- What a project is left with that is brought in line: `before` is what was there. -/
structure InLine (want : Config) (before : Option Project) (after : Project) : Prop where
  agrees : Agrees want after.current
  others : ∀ p, before = some p → ∀ k, (updatable k = true → want.get k = none) →
    unsettable k = false →
    after.current.get k = p.current.get k
  description : ∀ p, before = some p → after.description.getD "" = p.description.getD ""
  created : before = none → after.current = want

def Foreign (tenant : ProjectTenant) (before : Option Project) : Prop :=
  ∃ p, before = some p ∧ p.current.get tenantKey ≠ some tenant.id.text

section

variable {name : String} {h : ProjectHost} {E : ProjectError → Unit → ProjectHost → Prop}

theorem wp_findProject {Q : Option Project → Unit → ProjectHost → Prop}
    (hQ : Q (h.projects name) () h)
    (hE : ∀ e, E e () h) : wp projectWorld (fun _ => True) Q E (findProject name) () h := by
  unfold findProject
  rw [wp_tryCatch, wp_bind]
  refine (wp_call (ProjectCall.get name) () h).mpr fun o => ?_
  show Handler.Met _ _ _ (h.answer (.get name) o)
  cases o with
  | some t =>
    obtain ⟨⟨status, message, found⟩ | message, took⟩ := t
    · have hanswer : h.answer (.get name) (some ⟨.refused status message found, took⟩) =
          (.error (.cluster status message), h) := rfl
      rw [hanswer]
      refine ⟨trivial, ?_⟩
      dsimp only
      split
      · rename_i heq
        exact absurd (ProjectError.cluster.inj heq).1 found
      · exact hE _
    · exact ⟨trivial, hE _⟩
  | none =>
    cases hp : h.projects name with
    | some p =>
      have hanswer : h.answer (.get name) none = (.ok p, h) := by
        simp [ProjectHost.answer, hp]
      rw [hp] at hQ
      rw [hanswer]
      exact ⟨trivial, hQ⟩
    | none =>
      have hanswer :
        h.answer (.get name) none = (.error (.cluster 404 "Project not found"), h) := by
        simp [ProjectHost.answer, hp]
      rw [hp] at hQ
      rw [hanswer]
      exact ⟨trivial, hQ⟩

variable {Q : Unit → Unit → ProjectHost → Prop} {p : Project} {c : ProjectCall} {o : CallFate}

theorem met_change (hQ : Q () () ⟨update h.projects name (some p), c :: h.sent⟩)
    (hE : ∀ e h', E e () h') :
    Handler.Met (fun _ => True) (fun a => Q a ()) (fun e => E e ()) (h.change c name p o) := by
  cases o with
  | some t => exact ⟨trivial, hE _ _⟩
  | none => exact ⟨trivial, hQ⟩

variable {config : Config} {description : String}

theorem wp_postProject (hp : h.projects name = none)
    (hQ : ∀ h' : ProjectHost,
      h'.projects = update h.projects name (some (.keep config description)) → Q () () h')
    (hE : ∀ e h', E e () h') :
    wp projectWorld (fun _ => True) Q E (postProject name description config) () h := by
  refine (wp_call (ProjectCall.post name description config) () h).mpr fun o => ?_
  have hanswer : h.answer (.post name description config) o =
      h.change (.post name description config) name (.keep config description) o := by
    simp [ProjectHost.answer, hp]
  show Handler.Met _ _ _ (h.answer (.post name description config) o)
  rw [hanswer]
  exact met_change (hQ _ rfl) hE

theorem wp_putProject (hp : h.projects name = some p)
    (hQ : ∀ h' : ProjectHost,
      h'.projects = update h.projects name (some (.keep config description)) → Q () () h')
    (hE : ∀ e h', E e () h') :
    wp projectWorld (fun _ => True) Q E (putProject name config description) () h := by
  refine (wp_call (ProjectCall.put name config description) () h).mpr fun o => ?_
  have hanswer : h.answer (.put name config description) o =
      h.change (.put name config description) name (.keep config description) o := by
    simp [ProjectHost.answer, hp]
  show Handler.Met _ _ _ (h.answer (.put name config description) o)
  rw [hanswer]
  exact met_change (hQ _ rfl) hE

end

section

variable (tenant limits clusterGroups snapshotsFull) (name : String) (h : ProjectHost)

theorem wp_ensureProject :
    wp projectWorld (fun _ => True)
      (fun _ _ h' => ¬ Foreign tenant (h.projects name) ∧
        (∀ n, n ≠ name → h'.projects n = h.projects n) ∧
        ∃ p, h'.projects name = some p ∧
          InLine (wantedConfig tenant limits clusterGroups snapshotsFull) (h.projects name) p)
      (fun _ _ h' => Foreign tenant (h.projects name) → h' = h)
      (ensureProject tenant limits clusterGroups snapshotsFull name) () h := by
  have hwant : ((wantedConfig tenant limits clusterGroups snapshotsFull).map (·.1)).Nodup :=
    nodup_wantedConfig
  have hfull : ∀ e ∈ wantedConfig tenant limits clusterGroups snapshotsFull, e.2 ≠ "" :=
    wantedConfig_full
  unfold ensureProject
  rw [wp_bind]
  refine wp_findProject ?_ fun e _ => rfl
  cases hp : h.projects name with
  | none =>
    have hnot : ¬ Foreign tenant none := by
      rintro ⟨p, hnone, -⟩
      cases hnone
    refine (wp_bind _ _ _ _).mpr (wp_postProject hp ?_ fun e h' hforeign => absurd hforeign hnot)
    intro h' hprojects
    refine ⟨hnot, ?_, _, (congrFun hprojects name).trans (update_self _ _ _), ?_⟩
    · intro n hn
      rw [hprojects, update_of_ne hn]
    · have hcurrent := current_keep hfull ("IncusCloud tenant " ++ tenant.slug)
      refine ⟨⟨?_, ?_⟩, (by simp), (by simp), fun _ => hcurrent⟩
      · intro k v _ hv
        rwa [hcurrent]
      · intro k _ hnone
        rwa [hcurrent]
  | some p =>
    show wp _ _ _ _ (alignProject tenant limits clusterGroups snapshotsFull name p) () h
    unfold alignProject
    dsimp only
    split_ifs with hforeign hpatch
    · exact fun _ => rfl
    · have hnot : ¬ Foreign tenant (some p) := by
        rintro ⟨q, hq, hne⟩
        obtain rfl := some.inj hq
        exact hne (not_not.mp hforeign)
      refine ⟨hnot, fun _ _ => rfl, p, hp, ?_⟩
      exact ⟨(patchFor_eq_nil hwant).mp hpatch, fun q hq k _ _ => by rw [some.inj hq],
        fun q hq => by rw [some.inj hq], (by simp)⟩
    · have hnot : ¬ Foreign tenant (some p) := by
        rintro ⟨q, hq, hne⟩
        obtain rfl := some.inj hq
        exact hne (not_not.mp hforeign)
      refine (wp_bind _ _ _ _).mpr (wp_putProject hp ?_ fun e h' hforeign => absurd hforeign hnot)
      intro h' hprojects
      refine ⟨hnot, ?_, _, (congrFun hprojects name).trans (update_self _ _ _), ?_⟩
      · intro n hn
        rw [hprojects, update_of_ne hn]
      · have hcurrent := current_keep
          (@applyPatch_full p.current
            (patchFor (wantedConfig tenant limits clusterGroups snapshotsFull) p.current) p.full)
          (p.description.getD "")
        refine ⟨?_, ?_, ?_, (by simp)⟩
        · rw [hcurrent]
          exact Agrees.patched hwant hfull
        · intro q hq k hk hunset
          obtain rfl := some.inj hq
          rw [hcurrent]
          exact get_patched_other hwant hk hunset
        · intro q hq
          obtain rfl := some.inj hq
          rfl

theorem wp_ensureProject_again {p : Project} (hp : h.projects name = some p)
    (hagrees : Agrees (wantedConfig tenant limits clusterGroups snapshotsFull) p.current) :
    wp projectWorld (fun _ => True) (fun outcome _ h' => h' = h ∧ outcome = .unchanged)
      (fun _ _ h' => h' = h)
      (ensureProject tenant limits clusterGroups snapshotsFull name) () h := by
  have hmine := hagrees.wanted tenantKey _ (by decide) wantedConfig_tenant
  unfold ensureProject
  rw [wp_bind]
  refine wp_findProject ?_ fun e => rfl
  rw [hp]
  show wp _ _ _ _ (alignProject tenant limits clusterGroups snapshotsFull name p) () h
  unfold alignProject
  rw [if_neg (not_not.mpr hmine), if_pos ((patchFor_eq_nil nodup_wantedConfig).mpr hagrees)]
  exact ⟨rfl, rfl⟩

theorem result_findProject {α : Type} (f : Option Project → Ensure α) (os : List CallFate) :
    ((findProject name >>= f) ()).result projectWorld h (none :: os) =
      (f (h.projects name) ()).result projectWorld h os := by
  cases hp : h.projects name with
  | some p =>
    have hanswer : projectWorld.answer (.get name) h none = (.ok p, h) := by
      simp [projectWorld, ProjectHost.answer, hp]
    simp only [findProject, getProject, Handler.call, bind, Handler.bind, Prog.bind, tryCatch,
      tryCatchThe,
      MonadExceptOf.tryCatch, Handler.tryCatch, Prog.result, hanswer]
    rfl
  | none =>
    have hanswer : projectWorld.answer (.get name) h none =
      (.error (.cluster 404 "Project not found"), h) := by
      simp [projectWorld, ProjectHost.answer, hp]
    simp only [findProject, getProject, Handler.call, bind, Handler.bind, Prog.bind, tryCatch,
      tryCatchThe,
      MonadExceptOf.tryCatch, Handler.tryCatch, Prog.result, hanswer]
    rfl

def ProjectHost.changed (h : ProjectHost) (c : ProjectCall) (name : String) (p : Project) :
    ProjectHost :=
  ⟨update h.projects name (some p), c :: h.sent⟩

theorem result_postProject {α : Type} {description : String} (hp : h.projects name = none)
    (f : Unit → Ensure α) (os : List CallFate) :
    ((postProject name description config >>= f) ()).result projectWorld h (none :: os) =
      (f () ()).result projectWorld
        (h.changed (.post name description config) name (.keep config description)) os := by
  have hanswer : projectWorld.answer (.post name description config) h none =
      (.ok (), h.changed (.post name description config) name (.keep config description)) := by
    simp [projectWorld, ProjectHost.answer, hp, ProjectHost.change, ProjectHost.changed]
  simp only [postProject, Handler.call, bind, Handler.bind, Prog.bind, Prog.result, hanswer]

theorem result_putProject {α : Type} {description : String} {p : Project}
    (hp : h.projects name = some p) (f : Unit → Ensure α) (os : List CallFate) :
    ((putProject name config description >>= f) ()).result projectWorld h (none :: os) =
      (f () ()).result projectWorld
        (h.changed (.put name config description) name (.keep config description)) os := by
  have hanswer : projectWorld.answer (.put name config description) h none =
      (.ok (), h.changed (.put name config description) name (.keep config description)) := by
    simp [projectWorld, ProjectHost.answer, hp, ProjectHost.change, ProjectHost.changed]
  simp only [putProject, Handler.call, bind, Handler.bind, Prog.bind, Prog.result, hanswer]

theorem ensureProject_returns (hmine : ¬ Foreign tenant (h.projects name)) :
    ∃ outcome h', (ensureProject tenant limits clusterGroups snapshotsFull name ()).result
      projectWorld h [none, none] =
      some ((.ok outcome, ()), h') := by
  unfold ensureProject
  rw [result_findProject]
  cases hp : h.projects name with
  | none => exact ⟨_, _, result_postProject name h hp _ _⟩
  | some p =>
    have htenant : p.current.get tenantKey = some tenant.id.text := by
      by_contra hne
      exact hmine ⟨p, hp, hne⟩
    dsimp only [Option.elim]
    unfold alignProject
    rw [if_neg (not_not.mpr htenant)]
    split_ifs
    · exact ⟨_, _, rfl⟩
    · exact ⟨_, _, result_putProject name h hp _ _⟩

theorem ensureProject_again {p : Project} (hp : h.projects name = some p)
    (hagrees : Agrees (wantedConfig tenant limits clusterGroups snapshotsFull) p.current) :
    (ensureProject tenant limits clusterGroups snapshotsFull name ()).result projectWorld h [none] =
      some ((.ok .unchanged, ()), h) := by
  have hmine := hagrees.wanted tenantKey _ (by decide) wantedConfig_tenant
  unfold ensureProject
  rw [result_findProject, hp]
  dsimp only [Option.elim]
  unfold alignProject
  rw [if_neg (not_not.mpr hmine), if_pos ((patchFor_eq_nil nodup_wantedConfig).mpr hagrees)]
  rfl

end

/-- `ensureProject` leaves somebody else's project alone and fails; any other it creates or brings
in line, and a second run finds it unchanged and sends nothing. -/
theorem ensureProject_exact_idempotent (tenant : ProjectTenant) (limits : ProjectLimits)
    (clusterGroups : List GroupName) (snapshotsFull : Bool) (name : String) (h : ProjectHost) :
    let ensure := ensureProject tenant limits clusterGroups snapshotsFull name ()
    (Foreign tenant (h.projects name) →
        ∀ os r h', ensure.result projectWorld h os = some ((r, ()), h') → h' = h ∧ ∃ e,
          r = .error e) ∧
      (¬ Foreign tenant (h.projects name) →
        (∃ outcome h', ensure.result projectWorld h [none, none] = some ((.ok outcome, ()), h')) ∧
          ∀ os outcome h', ensure.result projectWorld h os = some ((.ok outcome, ()), h') →
            (∀ n, n ≠ name → h'.projects n = h.projects n) ∧
              (∃ p, h'.projects name = some p ∧
                InLine (wantedConfig tenant limits clusterGroups snapshotsFull)
                  (h.projects name) p) ∧
              ensure.result projectWorld h' [none] = some ((.ok .unchanged, ()), h') ∧
              ∀ os r h'', ensure.result projectWorld h' os = some ((r, ()), h'') →
                h'' = h' ∧ ∀ again, r = .ok again → again = .unchanged) := by
  have hruns := (wp_iff_result _ _ _).mp
    (wp_ensureProject tenant limits clusterGroups snapshotsFull name h)
  constructor
  · intro hforeign os r h' hr
    have hend := hruns os r () h' hr
    cases r with
    | ok outcome => exact absurd hforeign hend.1
    | error e => exact ⟨hend hforeign, e, rfl⟩
  · intro hmine
    refine ⟨ensureProject_returns tenant limits clusterGroups snapshotsFull name h hmine, ?_⟩
    intro os outcome h' hr
    obtain ⟨-, hothers, p, hp, hline⟩ := hruns os (.ok outcome) () h' hr
    have hagain := (wp_iff_result _ _ _).mp
      (wp_ensureProject_again tenant limits clusterGroups snapshotsFull name h' hp hline.agrees)
    refine ⟨hothers, ⟨p, hp, hline⟩, ?_, ?_⟩
    · exact ensureProject_again tenant limits clusterGroups snapshotsFull name h' hp hline.agrees
    · intro os r h'' hr
      have hend := hagain os r () h'' hr
      cases r with
      | ok again => exact ⟨hend.1, fun o ho => (Except.ok.inj ho).symm.trans hend.2⟩
      | error e => exact ⟨hend, nofun⟩

end IncusCloud.Reconcile
