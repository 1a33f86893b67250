import IncusCloud.Federation.Merge
import Mathlib.Tactic.Linarith

/-!
# What merging keeps

Lists and operation lists are concatenated, and nothing is lost or doubled. A project's state is
not: `sumState` adds up `usage` and `limit`, Incus writes `Usage` and `Limit`, and of these the
first answer's that has the resource is left (`Kept.foldlM`).
-/

namespace IncusCloud.Federation

open Lib List
open Option (getD_some map_some or_none some.inj)
open OrdMap (get_set get_cons)

/-! ### States -/

structure ResourceState where
  limit : ℚ
  usage : ℚ

structure ProjectState where
  resources : OrdMap Text ResourceState
  plain : ∀ e ∈ resources, e.1 ∉ objectNames

def ResourceState.json (r : ResourceState) : Json Text :=
  .obj [("Limit".toList, .num r.limit), ("Usage".toList, .num r.usage)]

def ProjectState.json (s : ProjectState) : Json Text :=
  .obj [("resources".toList, .obj (s.resources.map fun e => (e.1, e.2.json)))]

def having (k : Text) (states : List ProjectState) : List ResourceState := states.filterMap fun s =>
    s.resources.get k

theorem get_map_snd {V W : Type} (f : V → W) (m : OrdMap Text V) (k : Text) :
    OrdMap.get (m.map fun e => (e.1, f e.2)) k = (m.get k).map f := by
  induction m with
  | nil => rfl
  | cons e m ih =>
    rw [map_cons, get_cons, get_cons, ih]
    split_ifs <;> rfl

/-- The two fields that Incus writes, with what they hold. -/
inductive Written : String → (ResourceState → ℚ) → Prop
  | usage : Written "Usage" ResourceState.usage
  | limit : Written "Limit" ResourceState.limit

def Shows (v : Json Text) (r : ResourceState) : Prop :=
  ∀ field value, Written field value → (entries (some v)).get field.toList = some (.num (value r))

theorem shows_json (r : ResourceState) : Shows r.json r := by
  intro field value h
  cases h <;> rfl

theorem Shows.set {v : Json Text} {r : ResourceState} (h : Shows v r) (usage limit : Json Text) :
    Shows (.obj (((entries (some v)).set "usage".toList usage).set "limit".toList limit)) r := by
  intro field value hwritten
  show OrdMap.get (OrdMap.set (OrdMap.set _ _ _) _ _) _ = _
  rw [get_set, get_set, if_neg (by cases hwritten <;> decide), if_neg (by cases hwritten <;> decide)]
  exact h field value hwritten

/-- Resources that show what `view` has of each, and no others. -/
structure Kept (view : Text → Option ResourceState) (resources : Obj) : Prop where
  absent : ∀ k, view k = none → resources.get k = none
  shown : ∀ k r, view k = some r → ∃ v, resources.get k = some v ∧ Shows v r

variable {view : Text → Option ResourceState} {value : ResourceState → ℚ}

theorem readField_of_kept {field : String} (hwritten : Written field value) {o resources : Obj}
    (ho : o.get "resources".toList = some (.obj resources)) (h : Kept view resources) (k : Text) :
    readField field (.obj o) k = ((view k).map value).getD 0 := by
  have hentries : entries ((entries (some (Json.obj o))).get "resources".toList) = resources := by
    show entries (o.get "resources".toList) = resources
    rw [ho]
    rfl
  unfold readField
  rw [hentries]
  cases hview : view k with
  | none =>
    rw [h.absent k hview]
    rfl
  | some r =>
    obtain ⟨v, hv, hshows⟩ := h.shown k r hview
    rw [hv, Option.bind_some, hshows field value hwritten]
    rfl

theorem kept_json (m : OrdMap Text ResourceState) : Kept m.get (m.map fun e => (e.1, e.2.json)) := by
  constructor
  · intro k hk
    rw [get_map_snd, hk]
    rfl
  · intro k r hk
    refine ⟨r.json, ?_, shows_json r⟩
    rw [get_map_snd, hk]
    rfl

theorem Kept.addResource {m : Obj} (h : Kept view m)
    {e : Text × ResourceState} (he : e.1 ∉ objectNames) :
    ∃ next, Federation.addResource m (e.1, e.2.json) = some next ∧
      Kept (fun k => (view k).or (if e.1 = k then some e.2 else none)) next := by
  unfold Federation.addResource
  cases hview : view e.1 with
  | none =>
    rw [h.absent e.1 hview, if_neg he]
    refine ⟨_, rfl, fun k hk => ?_, fun k r hk => ?_⟩
    · obtain ⟨hnone, hne⟩ := Option.or_eq_none_iff.mp hk
      have hkey : ¬ k = e.1 := by
        rintro rfl
        simp at hne
      rw [get_set, if_neg hkey]
      exact h.absent k hnone
    · by_cases hkey : k = e.1
      · subst hkey
        rw [hview, if_pos rfl] at hk
        obtain rfl := some.inj hk
        refine ⟨e.2.json, ?_, shows_json e.2⟩
        rw [get_set, if_pos rfl]
        rfl
      · rw [if_neg fun heq => hkey heq.symm, or_none] at hk
        rw [get_set, if_neg hkey]
        exact h.shown k r hk
  | some r' =>
    obtain ⟨cur, hcur, hshows⟩ := h.shown e.1 r' hview
    rw [hcur]
    refine ⟨_, rfl, fun k hk => ?_, fun k r hk => ?_⟩
    · obtain ⟨hnone, -⟩ := Option.or_eq_none_iff.mp hk
      have hkey : ¬ k = e.1 := by
        rintro rfl
        rw [hview] at hnone
        cases hnone
      rw [get_set, if_neg hkey]
      exact h.absent k hnone
    · by_cases hkey : k = e.1
      · subst hkey
        rw [hview] at hk
        obtain rfl := some.inj hk
        exact ⟨_, by rw [get_set, if_pos rfl], hshows.set _ _⟩
      · rw [if_neg fun heq => hkey heq.symm, or_none] at hk
        rw [get_set, if_neg hkey]
        exact h.shown k r hk

theorem Kept.foldlM {es : List (Text × ResourceState)} (hes : ∀ e ∈ es, e.1 ∉ objectNames) {m : Obj}
    (h : Kept view m) :
    ∃ out, (es.map fun e => (e.1, e.2.json)).foldlM Federation.addResource m = some out ∧
      Kept (fun k => (view k).or (OrdMap.get es k)) out := by
  induction es generalizing m view with
  | nil =>
    refine ⟨m, rfl, ?_⟩
    simpa using h
  | cons e es ih =>
    obtain ⟨next, hnext, hkept⟩ := h.addResource (hes e mem_cons_self)
    obtain ⟨out, hout, hlast⟩ := ih (fun e he => hes e (mem_cons_of_mem _ he)) hkept
    refine ⟨out, ?_, ?_⟩
    · rw [map_cons, foldlM_cons, hnext]
      exact hout
    · have hview : (fun k => (view k).or (OrdMap.get (e :: es) k)) =
          fun k => ((view k).or (if e.1 = k then some e.2 else none)).or (OrdMap.get es k) := by
        funext k
        rw [get_cons, Option.or_assoc]
        split_ifs <;> rfl
      rw [hview]
      exact hlast

/-! ### `sumState` -/

variable (states : List ProjectState)

theorem get_flatMap (k : Text) :
    OrdMap.get (states.flatMap (·.resources)) k = (having k states).head? := by
  induction states with
  | nil => rfl
  | cons s states ih =>
    unfold having at ih ⊢
    rw [flatMap_cons, OrdMap.get_append, ih, filterMap_cons]
    cases s.resources.get k <;> rfl

theorem sumState_spec :
    ∃ o resources : Obj, sumState (states.map (·.json)) = some (.obj o) ∧
      OrdMap.get o "resources".toList = some (.obj resources) ∧
        Kept (fun k => (having k states).head?) resources := by
  let fields : List Obj :=
    states.map fun s => [("resources".toList, Json.obj (s.resources.map fun e => (e.1, e.2.json)))]
  have hprops : (states.map (·.json)).mapM props = some fields := by
    induction states with
    | nil => rfl
    | cons s states ih =>
      rw [map_cons, mapM_cons, ih]
      rfl
  have hentries : (fields.flatMap fun s => entries (OrdMap.get s "resources".toList)) =
      (states.flatMap (·.resources)).map fun e => (e.1, e.2.json) := by
    rw [flatMap_map, map_flatMap]
    rfl
  have hplain : ∀ e ∈ states.flatMap (·.resources), e.1 ∉ objectNames := by
    intro e he
    obtain ⟨s, -, hs⟩ := mem_flatMap.mp he
    exact s.plain e hs
  have hstart : Kept (fun _ => none) [] := ⟨fun _ _ => rfl, nofun⟩
  obtain ⟨out, hout, hkept⟩ := hstart.foldlM hplain
  refine ⟨OrdMap.set (fields.headD []) "resources".toList (.obj out), out, ?_, ?_, ?_⟩
  · unfold sumState
    rw [hprops]
    show Option.bind (List.foldlM addResource [] (fields.flatMap _)) _ = _
    rw [hentries, hout]
    rfl
  · exact (get_set _ _ _ _).trans (if_pos rfl)
  · have hview : (fun k => (having k states).head?) =
        fun k => (none : Option ResourceState).or (OrdMap.get (states.flatMap (·.resources)) k) := by
      funext k
      rw [get_flatMap, Option.none_or]
    rw [hview]
    exact hkept

structure SumsUp (states : List (Json Text)) (merged : Json Text) : Prop where
  usage : ∀ k, readUsage merged k = (states.map (readUsage · k)).sum
  unlimited : ∀ k, (∃ s ∈ states, readLimit s k < 0) → readLimit merged k = -1
  limited : ∀ k, (∀ s ∈ states, 0 ≤ readLimit s k) → readLimit merged k = (states.map (readLimit · k)).sum

/-- Of each resource, the answers after the first that has it add no usage, and no limit to its own;
where one of them is negative, the first one's is -1. -/
def FirstHasAll : Prop :=
  ∀ k first later, having k states = first :: later →
    (later.map (·.usage)).sum = 0 ∧
      ((∃ r ∈ first :: later, r.limit < 0) → first.limit = -1) ∧
      ((∀ r ∈ first :: later, 0 ≤ r.limit) → (later.map (·.limit)).sum = 0)

theorem readField_json {field : String} (h : Written field value) (s : ProjectState)
    (k : Text) : readField field s.json k = ((s.resources.get k).map value).getD 0 :=
  readField_of_kept h rfl (kept_json s.resources) k

theorem sum_readField {field : String} (h : Written field value)
    (states : List ProjectState) (k : Text) :
    ((states.map (·.json)).map (readField field · k)).sum = ((having k states).map value).sum := by
  induction states with
  | nil => rfl
  | cons s states ih =>
    unfold having at ih ⊢
    rw [map_cons, map_cons, sum_cons, ih, filterMap_cons, readField_json h]
    cases s.resources.get k with
    | none => exact zero_add _
    | some r => rfl

theorem exists_negative (k : Text) :
    (∃ s ∈ states.map (·.json), readLimit s k < 0) ↔ ∃ r ∈ having k states, r.limit < 0 := by
  have hread : ∀ s : ProjectState,
    readLimit s.json k = ((s.resources.get k).map ResourceState.limit).getD 0 :=
    fun s => readField_json .limit s k
  constructor
  · rintro ⟨j, hj, hneg⟩
    obtain ⟨s, hs, rfl⟩ := List.mem_map.mp hj
    rw [hread] at hneg
    cases hget : s.resources.get k with
    | none =>
      rw [hget] at hneg
      exact absurd hneg (lt_irrefl 0)
    | some r =>
      rw [hget] at hneg
      exact ⟨r, List.mem_filterMap.mpr ⟨s, hs, hget⟩, hneg⟩
  · rintro ⟨r, hr, hneg⟩
    obtain ⟨s, hs, hget⟩ := List.mem_filterMap.mp hr
    refine ⟨s.json, mem_map_of_mem hs, ?_⟩
    rw [hread, hget]
    exact hneg

theorem forall_nonneg (k : Text) :
    (∀ s ∈ states.map (·.json), 0 ≤ readLimit s k) ↔ ∀ r ∈ having k states, 0 ≤ r.limit := by
  have hnot := not_congr (exists_negative states k)
  push Not at hnot
  exact hnot

theorem sumsUp_iff {states : List ProjectState} {o resources : Obj}
    (ho : OrdMap.get o "resources".toList = some (.obj resources))
    (hkept : Kept (fun k => (having k states).head?) resources) :
    SumsUp (states.map (·.json)) (.obj o) ↔ FirstHasAll states := by
  have husage : ∀ k, readUsage (.obj o) k = ((having k states).head?.map ResourceState.usage).getD 0 :=
    readField_of_kept .usage ho hkept
  have hlimit : ∀ k, readLimit (.obj o) k = ((having k states).head?.map ResourceState.limit).getD 0 :=
    readField_of_kept .limit ho hkept
  have husages : ∀ k, ((states.map (·.json)).map (readUsage · k)).sum =
    ((having k states).map (·.usage)).sum :=
    sum_readField .usage states
  have hlimits : ∀ k, ((states.map (·.json)).map (readLimit · k)).sum =
    ((having k states).map (·.limit)).sum :=
    sum_readField .limit states
  constructor
  · intro h k first later hk
    refine ⟨?_, ?_, ?_⟩
    · have hu := h.usage k
      rw [husage, husages, hk] at hu
      simp only [List.head?_cons, map_some, getD_some, map_cons, sum_cons] at hu
      linarith
    · intro hneg
      have hl := h.unlimited k ((exists_negative states k).mpr (hk ▸ hneg))
      rwa [hlimit, hk] at hl
    · intro hnonneg
      have hl := h.limited k ((forall_nonneg states k).mpr (hk ▸ hnonneg))
      rw [hlimit, hlimits, hk] at hl
      simp only [List.head?_cons, map_some, getD_some, map_cons, sum_cons] at hl
      linarith
  · intro h
    constructor
    · intro k
      rw [husage, husages]
      cases hk : having k states with
      | nil => rfl
      | cons first later =>
        obtain ⟨hsum, -, -⟩ := h k first later hk
        simp only [List.head?_cons, map_some, getD_some, map_cons, sum_cons, hsum, add_zero]
    · intro k hneg
      rw [exists_negative] at hneg
      rw [hlimit]
      cases hk : having k states with
      | nil =>
        rw [hk] at hneg
        obtain ⟨r, hr, -⟩ := hneg
        cases hr
      | cons first later => exact (h k first later hk).2.1 (hk ▸ hneg)
    · intro k hnonneg
      rw [forall_nonneg] at hnonneg
      rw [hlimit, hlimits]
      cases hk : having k states with
      | nil => rfl
      | cons first later =>
        have hsum := (h k first later hk).2.2 (hk ▸ hnonneg)
        simp only [List.head?_cons, map_some, getD_some, map_cons, sum_cons, hsum, add_zero]

/-! ### Lists -/

/-- A list of operations as Incus answers it; the statuses are Incus's own words. -/
structure OperationList where
  byStatus : OrdMap Text (List (Json Text))
  plain : ∀ e ∈ byStatus, e.1 ∉ objectNames

def OperationList.json (o : OperationList) : Json Text := .obj (o.byStatus.map fun e => (e.1, .arr e.2))

def OperationList.under (o : OperationList) (status : Text) : List (Json Text) :=
  (o.byStatus.filter fun e => e.1 = status).flatMap (·.2)

theorem foldlM_addOperations {es : List (Text × List (Json Text))}
    (hes : ∀ e ∈ es, e.1 ∉ objectNames) (m : Obj) :
    ∃ out, (es.map fun e => (e.1, Json.arr e.2)).foldlM addOperations m = some out ∧
      ∀ k, elements (OrdMap.get out k) =
        elements (m.get k) ++ (es.filter fun e => e.1 = k).flatMap (·.2) := by
  induction es generalizing m with
  | nil => exact ⟨m, rfl, fun k => (append_nil _).symm⟩
  | cons e es ih =>
    have hnext : addOperations m (e.1, .arr e.2) =
        some (m.set e.1 (.arr (elements (m.get e.1) ++ e.2))) := by
      unfold addOperations
      cases hget : m.get e.1 with
      | some l => rfl
      | none =>
        rw [if_neg (hes e mem_cons_self)]
        rfl
    obtain ⟨out, hout, hk⟩ :=
      ih (fun e he => hes e (mem_cons_of_mem _ he)) (m.set e.1 (.arr (elements (m.get e.1) ++ e.2)))
    refine ⟨out, ?_, fun k => ?_⟩
    · rw [map_cons, foldlM_cons, hnext]
      exact hout
    · rw [hk, get_set]
      by_cases hkey : k = e.1
      · subst hkey
        simp [elements, append_assoc]
      · have hne : ¬ e.1 = k := fun h => hkey h.symm
        simp [hkey, hne]

/-! ### `merge` -/

def metasOf (answers : List (Option Answer)) : List (Json Text) := (okAnswers answers).map Answer.metadata

structure ListPath (path : Text) : Prop where
  server : path ≠ "/1.0".toList
  cluster : path ≠ "/1.0/cluster".toList
  project : projectPath path = none

variable {path : Text} {answers : List (Option Answer)} {clusters : ℕ} {config : Option Obj}

theorem merge_of_ok (hserver : path ≠ "/1.0".toList) (hcluster : path ≠ "/1.0/cluster".toList)
    (hok : metasOf answers ≠ []) : merge path answers clusters config = mergeOk path (okAnswers answers) := by
  have hne : okAnswers answers ≠ [] := by
    rintro h
    exact hok (by rw [metasOf, h]; rfl)
  unfold merge
  rw [if_neg hserver, if_neg hcluster, if_neg hne]

theorem merge_lists (hpath : ListPath path) {lists : List (List (Json Text))} (hne : lists ≠ [])
    (hmetas : metasOf answers = lists.map .arr) :
    merge path answers clusters config = some (sync (.arr lists.flatten)) := by
  have hflat : flat (lists.map Json.arr) = lists.flatten := by
    unfold flat
    rw [flatMap_map]
    exact flatMap_id
  have hall : (lists.map Json.arr).all isArray = true := by
    rw [all_map]
    exact all_eq_true.mpr fun _ _ => rfl
  rw [merge_of_ok hpath.server hpath.cluster (by rw [hmetas]; simpa using hne)]
  unfold mergeOk
  dsimp only
  rw [show (okAnswers answers).map Answer.metadata = lists.map .arr from hmetas, hpath.project, hflat]
  rw [if_pos hall, ite_self]

theorem merge_operations (hpath : ListPath path) (hprojects : path ≠ "/1.0/projects".toList)
    {ops : List OperationList} (hne : ops ≠ []) (hmetas : metasOf answers = ops.map (·.json)) :
    ∃ out : Obj, merge path answers clusters config = some (sync (.obj out)) ∧
      ∀ status, elements (OrdMap.get out status) = ops.flatMap (·.under status) := by
  have hnone : ¬ (ops.map (·.json)).all isArray = true := by
    obtain ⟨o, ops, rfl⟩ := exists_cons_of_ne_nil hne
    simp [OperationList.json, isArray]
  have hall : isOperationLists (ops.map (·.json)) = true := by
    unfold isOperationLists
    rw [all_map, all_eq_true]
    intro o _
    show List.all (List.map _ _) _ = true
    rw [all_map]
    exact all_eq_true.mpr fun _ _ => rfl
  have hentries : ((ops.map (·.json)).flatMap fun m => entries (some m)) =
      (ops.flatMap (·.byStatus)).map fun e => (e.1, Json.arr e.2) := by
    rw [flatMap_map, map_flatMap]
    rfl
  have hplain : ∀ e ∈ ops.flatMap (·.byStatus), e.1 ∉ objectNames := by
    intro e he
    obtain ⟨o, -, ho⟩ := mem_flatMap.mp he
    exact o.plain e ho
  obtain ⟨out, hout, hunder⟩ := foldlM_addOperations hplain []
  refine ⟨out, ?_, fun status => ?_⟩
  · rw [merge_of_ok hpath.server hpath.cluster (by rw [hmetas]; simpa using hne)]
    unfold mergeOk
    rw [show (okAnswers answers).map Answer.metadata = ops.map (·.json) from hmetas,
      if_neg hprojects, hpath.project]
    rw [if_neg hnone, if_pos hall, hentries, hout]
    rfl
  · rw [hunder, List.filter_flatMap, flatMap_assoc]
    rfl

theorem merge_state {name : Text} (hpath : projectPath path = some (.state name)) {states : List ProjectState}
    (hne : states ≠ []) (hmetas : metasOf answers = states.map (·.json)) :
    ∃ merged, merge path answers clusters config = some (sync merged) ∧
      (SumsUp (states.map (·.json)) merged ↔ FirstHasAll states) := by
  have hother : ∀ other : Text, projectPath other = none → path ≠ other := by
    rintro _ hnone rfl
    rw [hnone] at hpath
    cases hpath
  obtain ⟨o, resources, hsum, ho, hkept⟩ := sumState_spec states
  refine ⟨.obj o, ?_, sumsUp_iff ho hkept⟩
  rw [merge_of_ok (hother _ (by decide)) (hother _ (by decide)) (by rw [hmetas]; simpa using hne)]
  unfold mergeOk
  rw [show (okAnswers answers).map Answer.metadata = states.map (·.json) from hmetas,
    if_neg (hother _ (by decide)), hpath]
  rw [hsum]
  rfl

/-- Lists and operation lists are merged without loss or doubling; a project's state exactly where
the first answers that have its resources already have all there is. -/
theorem merge_loses_nothing_iff (path : Text) (answers : List (Option Answer)) (clusters : ℕ)
    (config : Option Obj) :
    (∀ lists : List (List (Json Text)), ListPath path → lists ≠ [] → metasOf answers = lists.map .arr →
        merge path answers clusters config = some (sync (.arr lists.flatten))) ∧
      (∀ ops : List OperationList, ListPath path → path ≠ "/1.0/projects".toList → ops ≠ [] →
        metasOf answers = ops.map (·.json) →
          ∃ out : Obj, merge path answers clusters config = some (sync (.obj out)) ∧
            ∀ status, elements (OrdMap.get out status) = ops.flatMap (·.under status)) ∧
      ∀ (name : Text) (states : List ProjectState), projectPath path = some (.state name) →
        states ≠ [] → metasOf answers = states.map (·.json) →
          ∃ merged, merge path answers clusters config = some (sync merged) ∧
            (SumsUp (states.map (·.json)) merged ↔ FirstHasAll states) :=
  ⟨fun _ hpath hne hmetas => merge_lists hpath hne hmetas,
    fun _ hpath hprojects hne hmetas => merge_operations hpath hprojects hne hmetas,
    fun _ _ hpath hne hmetas => merge_state hpath hne hmetas⟩

def oneByte : ProjectState := ⟨[("memory".toList, ⟨-1, 1⟩)], by decide⟩

def answerOf (s : ProjectState) : Answer :=
  ⟨"lab".toList, 200, some [("type".toList, .str "sync".toList), ("metadata".toList, s.json)]⟩

/-- Of two clusters that use a byte each, the merged state has one. -/
theorem second_usage_is_lost : ∃ merged,
    merge "/1.0/projects/acme/state".toList [some (answerOf oneByte), none, some (answerOf oneByte)] 3 none =
      some (sync merged) ∧ ¬ SumsUp [oneByte.json, oneByte.json] merged := by
  have hpath : projectPath "/1.0/projects/acme/state".toList = some (.state "acme".toList) := by decide
  obtain ⟨merged, hmerged, hiff⟩ :=
    @merge_state _ [some (answerOf oneByte), none, some (answerOf oneByte)] 3 none _ hpath [oneByte,
      oneByte] (by simp) rfl
  refine ⟨merged, hmerged, fun hsums => ?_⟩
  obtain ⟨hsum, -⟩ := hiff.mp hsums "memory".toList ⟨-1, 1⟩ [⟨-1, 1⟩] rfl
  exact absurd hsum (by decide +kernel)

end IncusCloud.Federation
