import IncusCloud.Agent.Routes
import IncusCloud.Lib.Keyed

/-!
# What the calls leave as it is

Calls of Incus and of the management cluster leave the agent's own state as it is, and those that
delete nothing take nothing away.

What the table reads after each of its updates.
-/

open Option

namespace IncusCloud.Agent.ClusterRepo

open Lib

variable {t t' : ClusterRepo} {r r' : ClusterRecord} {name except : String}
    {f : ClusterRecord → ClusterRecord}
  {hf : ∀ r, (f r).name = r.name}

theorem getByName_eq_some : t.getByName name = some r ↔ r ∈ t.rows ∧ r.name = name := by
  constructor
  · intro h
    have hname := List.find?_some h
    exact ⟨List.mem_of_find?_eq_some h, by simpa using hname⟩
  · rintro ⟨hmem, hname⟩
    cases hfound : t.getByName name with
    | none =>
      have hne := List.find?_eq_none.mp hfound r hmem
      exact absurd (decide_eq_true hname) hne
    | some r' =>
      have hname' := List.find?_some hfound
      have hsame : r'.name = r.name := by simpa [hname] using hname'
      exact congrArg some (eq_of_key t.nodup (List.mem_of_find?_eq_some hfound) hmem hsame)

theorem getByName_eq_none : t.getByName name = none ↔ ∀ r ∈ t.rows, r.name ≠ name := by
  unfold getByName
  rw [List.find?_eq_none]
  simp

theorem mem_update {r : ClusterRecord} :
    r ∈ (t.update name f hf).rows ↔ ∃ r₀ ∈ t.rows, r = if r₀.name = name then f r₀ else r₀ := by
  unfold update
  simp only [List.mem_map, eq_comm]

theorem mem_setSpec {spec : ClusterSpec} :
    r ∈ (t.setSpec name spec).rows ↔ ∃ r₀ ∈ t.rows,
      r = if r₀.name = name then { r₀ with spec := spec } else r₀ := by
  unfold setSpec
  exact mem_update

theorem mem_setStatus {status : ClusterStatus} :
    r ∈ (t.setStatus name status).rows ↔
      ∃ r₀ ∈ t.rows, r = if r₀.name = name then { r₀ with status := status } else r₀ := by
  unfold setStatus
  exact mem_update

theorem getByName_update : (t.update name f hf).getByName name = (t.getByName name).map f := by
  cases hfound : t.getByName name with
  | none =>
    rw [getByName_eq_none] at hfound
    refine getByName_eq_none.mpr fun r hr => ?_
    obtain ⟨r₀, hr₀, rfl⟩ := mem_update.mp hr
    rw [if_neg (hfound r₀ hr₀)]
    exact hfound r₀ hr₀
  | some r =>
    obtain ⟨hr, hname⟩ := getByName_eq_some.mp hfound
    refine getByName_eq_some.mpr ⟨mem_update.mpr ⟨r, hr, ?_⟩, (hf r).trans hname⟩
    rw [if_pos hname]

theorem create_eq_some (h : t.create r = some t') : (∀ r' ∈ t.rows, r'.name ≠ r.name) ∧
    t'.rows = r :: t.rows := by
  unfold create at h
  split_ifs at h with hmem
  obtain rfl := some.inj h
  exact ⟨fun r' hr' hname => hmem (hname ▸ List.mem_map_of_mem hr'), rfl⟩

theorem mem_deleteByName : r ∈ (t.deleteByName name).rows ↔ r ∈ t.rows ∧ r.name ≠ name := by
  unfold deleteByName
  rw [List.mem_filter, decide_eq_true_eq]

end IncusCloud.Agent.ClusterRepo

/-! ## The calls -/

namespace IncusCloud.Agent

open Lib Handler

variable {ι : Type} [DecidableEq ι] {i : ι} {c : AgentCall} {o : AgentOutcome}
    {w w' w'' : AgentState ι}
  {project : String}

/-! ### The agent's own state -/

structure Own (w w' : AgentState ι) : Prop where
  records : w'.records = w.records
  heap : w'.heap = w.heap
  jobs : w'.jobs = w.jobs
  workloads : w'.workloads = w.workloads
  acting : w'.acting = w.acting
  createdBy : w'.createdBy = w.createdBy
  undoing : w'.undoing = w.undoing
  written : w'.written = w.written
  writtenAt : w'.writtenAt = w.writtenAt
  seen : w'.seen = w.seen

/-- A call of Incus, of the management cluster or of a workload cluster. -/
def AgentCall.external : AgentCall → Bool
  | precheck _ | reserved _ | createRecord _ _ | undo _ | getByName _ | deleteRecord _ | setError
    _ | poolConflict _ _
  | writePool _ _ _ | dropPool _ | readStatus _ | settleStatus _ _ _ _ => false
  | _ => true

def AgentCall.deletes : AgentCall → Bool
  | kubectlDeleteCluster _ | deleteAddons _ | deleteInstance _ _ | deleteImage _ _ | deleteProfile _
    _
  | removeProject _ => true
  | _ => false

variable {α : Type}

omit [DecidableEq ι] in
theorem AgentOutcome.call_cases (o : AgentOutcome) (a : α) (w w' : AgentState ι) :
    (o.call a w w').2 = w ∨ (o.call a w w').2 = w' := by
  unfold AgentOutcome.call
  cases o.error with
  | none => exact .inr rfl
  | some e =>
    dsimp only
    split_ifs
    · exact .inr rfl
    · exact .inl rfl

omit [DecidableEq ι] in
theorem AgentOutcome.call_same (o : AgentOutcome) (a : α) (w : AgentState ι) :
    (o.call a w w).2 = w := by
  unfold AgentOutcome.call
  cases o.error with
  | none => rfl
  | some e => exact ite_self w

omit [DecidableEq ι] in
theorem Own.refl (w : AgentState ι) : Own w w := ⟨rfl, rfl, rfl, rfl, rfl, rfl, rfl, rfl, rfl, rfl⟩

omit [DecidableEq ι] in
theorem Own.call {a : α} (hw : Own w w') (hw' : Own w w'') : Own w (o.call a w' w'').2 := by
  rcases o.call_cases a w' w'' with h | h
  · rw [h]
    exact hw
  · rw [h]
    exact hw'

omit [DecidableEq ι] in
theorem own_touch : Own w (w.touch i project) := by
  unfold AgentState.touch
  split
  · exact .refl w
  · exact ⟨rfl, rfl, rfl, rfl, rfl, rfl, rfl, rfl, rfl, rfl⟩

variable {f : IncusProject → IncusProject}

omit [DecidableEq ι] in
theorem own_onProject (h : Own w w') : Own w (w'.onProject project f) :=
  ⟨h.records, h.heap, h.jobs, h.workloads, h.acting, h.createdBy, h.undoing, h.written, h.writtenAt,
    h.seen⟩

theorem own_of_external (hc : c.external = true) : Own w (agentAnswer i c w o).2 := by
  have hrefl := Own.refl w
  have htouch : ∀ project, Own w (w.touch i project) := fun project => own_touch
  have hchange : ∀ project f, Own w ((w.touch i project).onProject project f) := fun project f =>
    own_onProject own_touch
  have hsame : ∀ {α : Type} (a : α), Own w (o.call a w w).2 := fun a => Own.call hrefl hrefl
  cases c with
  | postProject project config =>
    unfold agentAnswer
    dsimp only
    split_ifs
    · exact hrefl
    · exact .call hrefl ⟨rfl, rfl, rfl, rfl, rfl, rfl, rfl, rfl, rfl, rfl⟩
  | putDefaultProfile project pool network => exact .call (htouch _) (hchange _ _)
  | applySecret secret project => exact .call hrefl ⟨rfl, rfl, rfl, rfl, rfl, rfl, rfl, rfl, rfl, rfl⟩
  | putProfile project profile => exact .call hrefl (own_onProject hrefl)
  | applyManifest name => exact .call hrefl ⟨rfl, rfl, rfl, rfl, rfl, rfl, rfl, rfl, rfl, rfl⟩
  | kubectlDeleteCluster name => exact .call hrefl ⟨rfl, rfl, rfl, rfl, rfl, rfl, rfl, rfl, rfl, rfl⟩
  | deleteAddons name => exact .call (a := ()) hrefl ⟨rfl, rfl, rfl, rfl, rfl, rfl, rfl, rfl, rfl, rfl⟩
  | stopInstance project name => exact .call (htouch _) (htouch _)
  | deleteInstance project name => exact .call (htouch _) (hchange _ _)
  | deleteImage project fingerprint => exact .call (htouch _) (hchange _ _)
  | deleteProfile project profile => exact .call (htouch _) (hchange _ _)
  | removeProject project =>
    unfold agentAnswer
    dsimp only
    split
    · exact hrefl
    · split_ifs
      · have hgone : Own w { w.touch i project with projects := (w.touch i project).projects.erase project } := by
          have h : Own w (w.touch i project) := own_touch
          exact ⟨h.records, h.heap, h.jobs, h.workloads, h.acting, h.createdBy, h.undoing,
            h.written, h.writtenAt,
            h.seen⟩
        exact .call (htouch _) hgone
      · exact hrefl
  | _ => first | exact hsame _ | cases hc

/-! ### What is there -/

structure IncusProject.Within (p p' : IncusProject) : Prop where
  instances : p.instances ⊆ p'.instances
  images : p.images ⊆ p'.images
  profiles : p.profiles ⊆ p'.profiles

/-- What is made on the host stays there. -/
structure Grows (w w' : AgentState ι) : Prop where
  clusters : w.clusters ⊆ w'.clusters
  secrets : ∀ secret, (w.secrets.get secret).isSome = true → (w'.secrets.get secret).isSome = true
  projects : ∀ project p, w.projects.get project = some p → ∃ p',
    w'.projects.get project = some p' ∧ p.Within p'

theorem IncusProject.Within.refl (p : IncusProject) : p.Within p :=
  ⟨List.Subset.refl _, List.Subset.refl _, List.Subset.refl _⟩

theorem IncusProject.Within.trans {p p' p'' : IncusProject} (h : p.Within p') (h' : p'.Within p'') :
    p.Within p'' :=
  ⟨List.Subset.trans h.instances h'.instances, List.Subset.trans h.images h'.images,
    List.Subset.trans h.profiles h'.profiles⟩

omit [DecidableEq ι] in
theorem Grows.trans (h : Grows w w') (h' : Grows w' w'') : Grows w w'' := by
  refine ⟨List.Subset.trans h.clusters h'.clusters, fun secret hs =>
    h'.secrets secret (h.secrets secret hs),
    fun project p hp => ?_⟩
  obtain ⟨p', hp', hwithin⟩ := h.projects project p hp
  obtain ⟨p'', hp'', hwithin'⟩ := h'.projects project p' hp'
  exact ⟨p'', hp'', hwithin.trans hwithin'⟩

omit [DecidableEq ι] in
theorem Grows.refl (w : AgentState ι) : Grows w w :=
    ⟨List.Subset.refl _, fun _ h => h, fun _ p h => ⟨p, h, .refl p⟩⟩

omit [DecidableEq ι] in
theorem Grows.of_eq (hclusters : w'.clusters = w.clusters) (hsecrets : w'.secrets = w.secrets)
    (hprojects : w'.projects = w.projects) : Grows w w' := by
  refine ⟨by rw [hclusters]; exact List.Subset.refl _, fun secret h => ?_, fun project p h =>
    ⟨p, ?_, .refl p⟩⟩
  · rwa [hsecrets]
  · rwa [hprojects]

omit [DecidableEq ι] in
theorem Grows.call {a : α} (hw : Grows w w') (hw' : Grows w w'') : Grows w (o.call a w' w'').2 := by
  rcases o.call_cases a w' w'' with h | h
  · rw [h]
    exact hw
  · rw [h]
    exact hw'

omit [DecidableEq ι] in
theorem touch_eq : (w.touch i project).clusters = w.clusters ∧ (w.touch i project).secrets =
    w.secrets ∧
    (w.touch i project).projects = w.projects := by
  unfold AgentState.touch
  split
  · exact ⟨rfl, rfl, rfl⟩
  · exact ⟨rfl, rfl, rfl⟩

omit [DecidableEq ι] in
theorem grows_touch : Grows w (w.touch i project) := by
  have h : (w.touch i project).clusters = w.clusters ∧ (w.touch i project).secrets = w.secrets ∧
    (w.touch i project).projects = w.projects := touch_eq
  exact .of_eq h.1 h.2.1 h.2.2

omit [DecidableEq ι] in
theorem get_onProject (other : String) :
    (w.onProject project f).projects.get other =
      if other = project then (w.projects.get project).map f else w.projects.get other :=
  OrdMap.get_map_entry _ _ _ _

omit [DecidableEq ι] in
theorem grows_onProject (hf : ∀ p, IncusProject.Within p (f p)) :
    Grows w (w.onProject project f) := by
  refine ⟨List.Subset.refl _, fun _ h => h, fun other p h => ?_⟩
  rw [get_onProject]
  split_ifs with hsame
  · rw [← hsame, h]
    exact ⟨f p, rfl, hf p⟩
  · exact ⟨p, h, .refl p⟩

theorem mem_cons_erase [DecidableEq α] {l : List α} {a b : α} (h : b ∈ l) : b ∈ a :: l.erase a := by
  by_cases hab : b = a
  · rw [hab]
    exact List.mem_cons_self
  · exact List.mem_cons_of_mem _ ((List.mem_erase_of_ne hab).mpr h)

theorem grows_of_external (hc : c.external = true) (hkeep : c.deletes = false) :
    Grows w (agentAnswer i c w o).2 := by
  have hrefl := Grows.refl w
  have hsame : ∀ {α : Type} (a : α), Grows w (o.call a w w).2 := fun a => Grows.call hrefl hrefl
  cases c with
  | postProject project config =>
    unfold agentAnswer
    dsimp only
    split_ifs with hthere
    · exact hrefl
    · refine .call hrefl ⟨List.Subset.refl _, fun _ h => h, fun other p h => ⟨p, ?_, .refl p⟩⟩
      have hne : other ≠ project := by
        rintro rfl
        rw [h] at hthere
        exact hthere rfl
      dsimp only
      rw [OrdMap.get_set, if_neg hne, h]
  | putDefaultProfile project pool network =>
    have htouch : Grows w (w.touch i project) := grows_touch
    have hprofile : Grows (w.touch i project)
        ((w.touch i project).onProject project fun p =>
          { p with defaultProfile := some (pool, network) }) :=
      grows_onProject fun _ => ⟨List.Subset.refl _, List.Subset.refl _, List.Subset.refl _⟩
    exact .call htouch (htouch.trans hprofile)
  | applySecret secret project =>
    refine .call hrefl ⟨List.Subset.refl _, fun other h => ?_, fun _ p h => ⟨p, h, .refl p⟩⟩
    dsimp only
    rw [OrdMap.get_set]
    split_ifs
    · rfl
    · exact h
  | putProfile project profile =>
    exact .call hrefl (grows_onProject fun p =>
      ⟨List.Subset.refl _, List.Subset.refl _, fun _ h => mem_cons_erase h⟩)
  | applyManifest name =>
    exact .call hrefl ⟨fun _ h => mem_cons_erase h, fun _ h => h, fun _ p h => ⟨p, h, .refl p⟩⟩
  | stopInstance project name => exact .call grows_touch grows_touch
  | kubectlDeleteCluster name => cases hkeep
  | deleteAddons name => cases hkeep
  | deleteInstance project name => cases hkeep
  | deleteImage project fingerprint => cases hkeep
  | deleteProfile project profile => cases hkeep
  | removeProject project => cases hkeep
  | _ => first | exact hsame _ | cases hc

/-! ### Jobs -/

inductive JobStepped (w : AgentState ι) (x : JobStep) (k : ℕ) (j : Job) : AgentState ι → Prop
  | failed (message : String) (herror : x.error = some message) : JobStepped w x k j
      { w with
        heap := w.heap.set k (j.fail message)
        workloads :=
          if x.took then Function.update w.workloads x.cluster (j.work (w.workloads x.cluster)).1
            else w.workloads }
  | next (stage : JobStage) (herror : x.error = none)
    (hstage : (j.work (w.workloads x.cluster)).2 = some stage) :
      JobStepped w x k j
        { w with
          heap := w.heap.set k { j with stage := stage }
          workloads := Function.update w.workloads x.cluster (j.work (w.workloads x.cluster)).1 }
  | done (herror : x.error = none) (hdone : (j.work (w.workloads x.cluster)).2 = none) :
      JobStepped w x k j
        { w with
          heap := w.heap.set k { j with running := false }
          jobs := w.jobs.erase x.cluster
          workloads := Function.update w.workloads x.cluster (j.work (w.workloads x.cluster)).1 }

omit [DecidableEq ι] in
theorem jobStep_cases {x : JobStep} (h : jobStep w x = some w') : ∃ k j,
    w.jobs.get x.cluster = some k ∧
    w.heap[k]? = some j ∧ j.running = true ∧ JobStepped w x k j w' := by
  unfold jobStep at h
  split at h
  · cases h
  · rename_i k hk
    split at h
    · cases h
    · rename_i j hj
      by_cases hrunning : j.running = true
      · rw [if_pos hrunning] at h
        refine ⟨k, j, hk, hj, hrunning, ?_⟩
        dsimp only at h
        split at h
        · rename_i message herror
          obtain rfl := some.inj h
          exact .failed message herror
        · rename_i herror
          split at h
          · rename_i stage hstage
            obtain rfl := some.inj h
            exact .next stage herror hstage
          · rename_i hdone
            obtain rfl := some.inj h
            exact .done herror hdone
      · rw [if_neg hrunning] at h
        cases h

structure Beside (w w' : AgentState ι) : Prop where
  records : w'.records = w.records
  projects : w'.projects = w.projects
  touched : w'.touched = w.touched
  acting : w'.acting = w.acting
  createdBy : w'.createdBy = w.createdBy
  undoing : w'.undoing = w.undoing
  written : w'.written = w.written
  writtenAt : w'.writtenAt = w.writtenAt
  seen : w'.seen = w.seen

omit [DecidableEq ι] in
theorem grows_jobStep {x : JobStep} (h : jobStep w x = some w') : Grows w w' ∧ Beside w w' := by
  obtain ⟨k, j, -, -, -, hstepped⟩ := jobStep_cases h
  cases hstepped <;> exact ⟨.of_eq rfl rfl rfl, rfl, rfl, rfl, rfl, rfl, rfl, rfl, rfl, rfl⟩

/-! ### Requests begin -/

theorem acting_begins (w : AgentState ι) (i : ι) (cluster : String) :
    (w.begins i cluster).acting i = cluster := by
  show Function.update w.acting i cluster i = cluster
  rw [Function.update_self]

theorem seen_begins (w : AgentState ι) (i : ι) (cluster : String) :
    (w.begins i cluster).seen i = w.written := by
  show Function.update w.seen i w.written i = w.written
  rw [Function.update_self]

/-!
### Routes that are made of calls

What each call of others maintains, the parts of the routes that only make such calls maintain.
-/

variable {ι : Type} [DecidableEq ι] {i : ι} {P : Protocol ι AgentCall (AgentState ι) JobStep}
    {J : AgentState ι → Prop}
  {project name : String}

def AgentCall.on (project : String) : AgentCall → Prop
  | postProject _ _ => False
  | putDefaultProfile p _ _ | putProfile p _ | stopInstance p _ | deleteInstance p _ | deleteImage p
    _
  | deleteProfile p _ | removeProject p => p = project
  | _ => True

/-- Calls of others maintain `J`, if they create no project and change no other one. -/
def Outer (P : Protocol ι AgentCall (AgentState ι) JobStep) (i : ι) (project : String)
    (J : AgentState ι → Prop) :
    Prop :=
  ∀ c : AgentCall, c.external = true → c.on project →
    Maintains agent P i J (Handler.call c : Route c.Answer)

def Gentle (P : Protocol ι AgentCall (AgentState ι) JobStep) (i : ι) (project : String)
    (J : AgentState ι → Prop) :
    Prop :=
  ∀ c : AgentCall, c.external = true → c.on project → c.deletes = false →
    Maintains agent P i J (Handler.call c : Route c.Answer)

theorem Outer.gentle (h : Outer P i project J) : Gentle P i project J := fun c hc hon _ =>
    h c hc hon

/-! ### Deletes -/

theorem Outer.deleteInstances (h : Outer P i project J) (names : List String) :
    Maintains agent P i J (deleteInstances project names) := by
  induction names with
  | nil => exact .pure ()
  | cons name names ih =>
    have hstop : Maintains agent P i J (tryCatch (Route.stopInstance project name) fun _ =>
      pure ()) :=
      .tryCatch (h (.stopInstance project name) rfl rfl) fun _ => .pure ()
    have hdelete : Maintains agent P i J (Route.deleteInstance project name) :=
      h (.deleteInstance project name) rfl rfl
    exact .bind hstop fun _ => .bind hdelete fun _ => ih

theorem Outer.deleteImages (h : Outer P i project J) (fingerprints : List String) :
    Maintains agent P i J (deleteImages project fingerprints) := by
  induction fingerprints with
  | nil => exact .pure ()
  | cons fingerprint fingerprints ih =>
    have hdelete : Maintains agent P i J (Route.deleteImage project fingerprint) :=
      h (.deleteImage project fingerprint) rfl rfl
    exact .bind hdelete fun _ => ih

theorem Outer.deleteProfiles (h : Outer P i project J) (profiles : List String) :
    Maintains agent P i J (deleteProfiles project profiles) := by
  induction profiles with
  | nil => exact .pure ()
  | cons profile profiles ih =>
    have hdelete : Maintains agent P i J (Route.deleteProfile project profile) :=
      h (.deleteProfile project profile) rfl rfl
    exact .bind (.when _ hdelete) fun _ => ih

theorem Outer.emptyProject (h : Outer P i project J) :
    Maintains agent P i J (emptyProject project) := by
  have hinstances : Maintains agent P i J (Route.listInstances project) :=
    h (.listInstances project) rfl trivial
  have himages : Maintains agent P i J (Route.listImages project) :=
    h (.listImages project) rfl trivial
  have hprofiles : Maintains agent P i J (Route.listProfiles project) :=
    h (.listProfiles project) rfl trivial
  unfold Agent.emptyProject
  exact .bind hinstances fun names => .bind (h.deleteInstances names) fun _ =>
    .bind himages fun fingerprints => .bind (h.deleteImages fingerprints) fun _ =>
      .bind hprofiles fun profiles => h.deleteProfiles profiles

theorem Outer.deleteProject (h : Outer P i project J) :
    Maintains agent P i J (deleteProject project) := by
  have hget : Maintains agent P i J (Route.getProject project) :=
    h (.getProject project) rfl trivial
  have hremove : Maintains agent P i J (Route.removeProject project) :=
    h (.removeProject project) rfl rfl
  unfold Agent.deleteProject
  refine .bind hget fun found =>
    .when _ (.bind h.emptyProject fun _ => .tryCatch hremove fun e => ?_)
  split_ifs
  · exact .pure ()
  · exact .throw e

theorem Outer.deleteClusterCrd (h : Outer P i project J) :
    Maintains agent P i J (deleteClusterCrd name) := by
  have hdelete : Maintains agent P i J (Route.kubectlDeleteCluster name) :=
    h (.kubectlDeleteCluster name) rfl trivial
  have haddons : Maintains agent P i J (Route.deleteAddons name) :=
    h (.deleteAddons name) rfl trivial
  exact .bind hdelete fun _ => haddons

theorem maintains_deleteSteps {record : ClusterRecord}
    (hready : Maintains agent P i J Route.capnReady)
    (hcluster : Maintains agent P i J (deleteClusterCrd name))
    (hproject : ∀ project, record.project = some project →
      Maintains agent P i J (deleteProject project)) :
    Maintains agent P i J (deleteSteps name record) := by
  unfold Agent.deleteSteps
  refine .bind hready fun ready => .bind (.when _ hcluster) fun _ => ?_
  split
  · rename_i project hsome
    exact hproject project (filter_eq_some_iff.mp hsome).1
  · exact .pure ()

/-! ### Creates -/

theorem Gentle.createProject (h : Gentle P i project J) {m : ProjectMetadata}
    (hpost : Maintains agent P i J (Route.postProject project (buildProjectConfig m))) :
    Maintains agent P i J (createProject project m) := by
  have hget : Maintains agent P i J (Route.getProject project) :=
    h (.getProject project) rfl trivial rfl
  exact .bind hget fun existing => .when _ hpost

theorem Gentle.pinEndpoint (h : Gentle P i project J) {className network : String} {hasClass : Bool}
    {taken : List String} :
      Maintains agent P i J (pinEndpoint className hasClass project network taken) := by
  have hfacts : Maintains agent P i J (Route.networkFacts network) :=
    h (.networkFacts network) rfl trivial rfl
  have hprofile : Maintains agent P i J (ensureLoadBalancerProfile project) :=
    h (.putProfile project lbProfile) rfl rfl rfl
  have hclass : Maintains agent P i J (Route.patchLiveClass className) :=
    h (.patchLiveClass className) rfl trivial rfl
  unfold Agent.pinEndpoint
  refine .bind (.bind hfacts fun facts => .pure _) fun host => ?_
  cases host with
  | none => exact .pure _
  | some host => exact .bind hprofile fun _ => .bind (.when _ hclass) fun _ => .pure _

theorem Gentle.pinClusterEndpoint (h : Gentle P i project J) {manifest : Manifest}
    {network : String}
    {taken : List String} :
      Maintains agent P i J (pinClusterEndpoint manifest project network taken) := by
  unfold Agent.pinClusterEndpoint
  split_ifs
  · split
    · exact .pure _
    · exact .tryCatch h.pinEndpoint fun _ => .pure _
  · exact .pure _

theorem Gentle.createSteps {body : CreateClusterBody} (h : Gentle P i body.projectName J)
    (hpost : Maintains agent P i J
      (Route.postProject body.projectName (buildProjectConfig body.projectMetadata)))
    (hreserved : Maintains agent P i J (Route.reserved body.name)) :
    Maintains agent P i J (createSteps body) := by
  have hresources : Maintains agent P i J Route.resolveWorkloadResources :=
    h .resolveWorkloadResources rfl trivial rfl
  have hprofile : ∀ pool network, Maintains agent P i J
      (Route.ensureWorkloadProfile body.projectName pool network) := fun pool network =>
    h (.putDefaultProfile body.projectName pool network) rfl rfl rfl
  have hsecret : Maintains agent P i J
      (Route.applyIdentitySecret (secretNameFor body.name) body.projectName) :=
    h (.applySecret (secretNameFor body.name) body.projectName) rfl trivial rfl
  have hmanifest : Maintains agent P i J Route.generateCluster := h .generateCluster rfl trivial rfl
  have happly : Maintains agent P i J (Route.kubectlApply body.name) :=
    h (.applyManifest body.name) rfl trivial rfl
  unfold Agent.createSteps
  exact .bind (h.createProject hpost) fun _ => .bind hresources fun resources =>
    .bind (hprofile _ _) fun _ =>
    .bind hsecret fun _ => .bind hmanifest fun manifest => .bind hreserved fun taken =>
      .bind h.pinClusterEndpoint fun host => .bind (.assign _) fun _ => happly

theorem maintains_failure {m : Route Unit} (hm : Maintains agent P i J m) :
    Maintains agent P i J (failure m) :=
  .tryCatch (.bind hm fun _ => .pure none) fun e => .pure (some e)

end IncusCloud.Agent
