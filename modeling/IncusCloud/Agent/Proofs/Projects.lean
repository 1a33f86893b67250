import IncusCloud.Agent.Proofs.Creates

/-!
# The agent empties its own projects

Requests are handled one after another. If a create is only given a project that is not there or
carries its own metadata, and that no record names, then projects are only emptied, deleted or given
another default profile for the cluster that their metadata names (`touched_own`).
-/

namespace IncusCloud.Agent

open Lib Handler Option

variable {w w' : AgentState Unit} {l : RouteLocals} {cluster project name : String} {c : AgentCall}
    {o : AgentOutcome}
  {record : ClusterRecord} {body : CreateClusterBody}

/-- The metadata that the agent stamps on a cluster's project. -/
def owned (cluster : String) (config : OrdMap String String) : Prop :=
  config.get managedKey = some "true" ∧ config.get clusterKey = some cluster

instance (cluster : String) (config : OrdMap String String) : Decidable (owned cluster config) := by
  unfold owned
  infer_instance

structure Touch.Own (t : Touch) : Prop where
  owned : owned t.cluster t.config
  alone : t.others = []

def ownProject (_ : Unit) (c : AgentCall) (w : AgentState Unit) : Prop :=
  match c with
  | .precheck body =>
    refusal w.records body = none →
      (∀ p ∈ w.projects.get body.projectName, owned body.name p.config) ∧
        ∀ r ∈ w.records.rows, r.project ≠ some body.projectName
  | _ => True

instance (i : Unit) (c : AgentCall) (w : AgentState Unit) : Decidable (ownProject i c w) := by
  unfold ownProject
  split <;> infer_instance

/-- Requests, each of which is handled before the next one begins. -/
def inTurn : List AgentRequest → Prog AgentCall AgentCall.Answer AgentError Unit
  | [] => .ret ()
  | request :: requests => (request.route {}).bind fun _ => inTurn requests

def oneAtATime (w : AgentState Unit) (requests : List AgentRequest) :
    Procs Unit AgentCall AgentCall.Answer AgentError (AgentState Unit) Unit :=
  ⟨w, fun _ => inTurn requests⟩

/-! ### The invariant -/

structure Tidy (w : AgentState Unit) : Prop where
  owned : ∀ r ∈ w.records.rows, ∀ project, r.project = some project →
    ∀ p, w.projects.get project = some p → owned r.name p.config
  distinct : ∀ r ∈ w.records.rows, ∀ r' ∈ w.records.rows, ∀ project, r.project = some project →
    r'.project = some project → r.name = r'.name

structure ProjectInv (w : AgentState Unit) : Prop where
  tidy : Tidy w
  touched : ∀ t ∈ w.touched, t.Own

/-- The request is about the one cluster that this project is of. -/
structure Handles (cluster project : String) (w : AgentState Unit) : Prop where
  acting : w.acting () = cluster
  owned : ∀ p, w.projects.get project = some p → owned cluster p.config
  alone : ∀ r ∈ w.records.rows, r.project = some project → r.name = cluster

def handling : Protocol Unit AgentCall (AgentState Unit) JobStep where
  ok := ownProject
  okOutside _ _ := True
  inv := ProjectInv
  rely _ w w' := Beside w w'
  guar _ _ _ := True

theorem ProjectInv.beside (h : Beside w w') (hinv : ProjectInv w) : ProjectInv w' := by
  refine ⟨⟨?_, ?_⟩, ?_⟩
  · rw [h.records, h.projects]
    exact hinv.tidy.owned
  · rw [h.records]
    exact hinv.tidy.distinct
  · rw [h.touched]
    exact hinv.touched

theorem Handles.beside (h : Beside w w') (hw : Handles cluster project w) :
    Handles cluster project w' := by
  refine ⟨?_, ?_, ?_⟩
  · rw [h.acting]
    exact hw.acting
  · rw [h.projects]
    exact hw.owned
  · rw [h.records]
    exact hw.alone

/-! ### What the calls do to projects -/

def SameConfigs (w w' : AgentState Unit) : Prop :=
  ∀ other p', w'.projects.get other = some p' → ∃ p, w.projects.get other = some p ∧
    p'.config = p.config

def TouchesOnly (project : String) (w w' : AgentState Unit) : Prop :=
  ∀ t ∈ w'.touched, t ∈ w.touched ∨ ∃ p, w.projects.get project = some p ∧
    t = ⟨w.acting (), project, p.config,
      (w.records.rows.filter fun r =>
        r.project = some project && r.name ≠ w.acting ()).map (·.name)⟩

theorem SameConfigs.refl (w : AgentState Unit) : SameConfigs w w := fun _ p h => ⟨p, h, rfl⟩

theorem SameConfigs.of_eq (h : w'.projects = w.projects) : SameConfigs w w' := fun _ p hp =>
    ⟨p, h ▸ hp, rfl⟩

theorem TouchesOnly.of_eq (h : w'.touched = w.touched) : TouchesOnly project w w' := fun _ ht =>
    .inl (h ▸ ht)

theorem sameConfigs_onProject {f : IncusProject → IncusProject}
    (hf : ∀ p, (f p).config = p.config) :
    SameConfigs w (w.onProject project f) := by
  intro other p' h
  rw [get_onProject] at h
  split_ifs at h with hsame
  · obtain ⟨p, hp, rfl⟩ := map_eq_some_iff.mp h
    exact ⟨p, hsame ▸ hp, hf p⟩
  · exact ⟨p', h, rfl⟩

theorem touchesOnly_touch : TouchesOnly project w (w.touch () project) := by
  unfold TouchesOnly AgentState.touch
  split
  · exact fun t ht => .inl ht
  · rename_i p hp
    intro t ht
    rcases List.mem_cons.mp ht with rfl | ht
    · exact .inr ⟨p, hp, rfl⟩
    · exact .inl ht

theorem AgentOutcome.call_of {α : Type} {a : α} {R : AgentState Unit → Prop}
    {w w' : AgentState Unit} (hw : R w)
    (hw' : R w') : R (o.call a w w').2 := by
  rcases o.call_cases a w w' with h | h
  · rw [h]
    exact hw
  · rw [h]
    exact hw'

theorem configs_of_external (hc : c.external = true) (hon : c.on project) :
    SameConfigs w (agentAnswer () c w o).2 ∧ TouchesOnly project w (agentAnswer () c w o).2 := by
  have hrefl : SameConfigs w w ∧ TouchesOnly project w w := ⟨.refl w, .of_eq rfl⟩
  have hsame : ∀ {α : Type} (a : α), SameConfigs w (o.call a w w).2 ∧
    TouchesOnly project w (o.call a w w).2 := fun a =>
    AgentOutcome.call_of (R := fun w' => SameConfigs w w' ∧ TouchesOnly project w w') hrefl hrefl
  have htouch : SameConfigs w (w.touch () project) ∧ TouchesOnly project w (w.touch () project) :=
    ⟨.of_eq touch_eq.2.2, touchesOnly_touch⟩
  have hother : ∀ {α : Type} (a : α) (w' : AgentState Unit), w'.projects = w.projects →
    w'.touched = w.touched →
      SameConfigs w (o.call a w w').2 ∧ TouchesOnly project w (o.call a w w').2 :=
        fun a w' hprojects htouched =>
    AgentOutcome.call_of (R := fun w' => SameConfigs w w' ∧ TouchesOnly project w w') hrefl
      ⟨.of_eq hprojects, .of_eq htouched⟩
  -- A call that touches the project, and then changes something of it besides its metadata.
  have hchange : ∀ (f : IncusProject → IncusProject), (∀ p, (f p).config = p.config) →
      SameConfigs w (o.call () (w.touch () project) ((w.touch () project).onProject project f)).2 ∧
        TouchesOnly project w (o.call () (w.touch () project)
          ((w.touch () project).onProject project f)).2 := by
    intro f hf
    refine AgentOutcome.call_of (R := fun w' => SameConfigs w w' ∧ TouchesOnly project w w')
      htouch ⟨?_, htouch.2⟩
    intro other p' hp'
    obtain ⟨p, hp, hconfig⟩ := sameConfigs_onProject hf other p' hp'
    obtain ⟨p₀, hp₀, hconfig₀⟩ := htouch.1 other p hp
    exact ⟨p₀, hp₀, hconfig.trans hconfig₀⟩
  cases c with
  | postProject p config => exact hon.elim
  | putDefaultProfile p pool network =>
    obtain rfl := hon
    exact hchange (fun p => { p with defaultProfile := some (pool, network) }) fun _ => rfl
  | putProfile p profile =>
    obtain rfl := hon
    refine AgentOutcome.call_of (R := fun w' => SameConfigs w w' ∧ TouchesOnly _ w w')
      hrefl ⟨?_, .of_eq rfl⟩
    exact sameConfigs_onProject fun _ => rfl
  | stopInstance p name =>
    obtain rfl := hon
    exact AgentOutcome.call_of (R := fun w' => SameConfigs w w' ∧ TouchesOnly _ w w') htouch htouch
  | deleteInstance p name =>
    obtain rfl := hon
    exact hchange (fun p => { p with instances := p.instances.erase name }) fun _ => rfl
  | deleteImage p fingerprint =>
    obtain rfl := hon
    exact hchange (fun p => { p with images := p.images.erase fingerprint }) fun _ => rfl
  | deleteProfile p profile =>
    obtain rfl := hon
    exact hchange (fun p => { p with profiles := p.profiles.erase profile }) fun _ => rfl
  | removeProject p =>
    obtain rfl := hon
    unfold agentAnswer
    dsimp only
    split
    · exact hrefl
    · split_ifs
      · refine AgentOutcome.call_of (R := fun w' => SameConfigs w w' ∧ TouchesOnly _ w w')
          htouch ⟨?_, htouch.2⟩
        intro other p' hp'
        dsimp only at hp'
        rw [OrdMap.get_erase] at hp'
        split_ifs at hp'
        exact htouch.1 other p' hp'
      · exact hrefl
  | applySecret secret p => exact hother _ _ rfl rfl
  | applyManifest name => exact hother _ _ rfl rfl
  | kubectlDeleteCluster name => exact hother _ _ rfl rfl
  | deleteAddons name => exact hother () _ rfl rfl
  | _ => first | exact hsame _ | cases hc

/-! ### What the calls maintain -/

theorem ProjectInv.same (hinv : ProjectInv w) (hown : Own w w') (hconfigs : SameConfigs w w')
    (htouched : ∀ t ∈ w'.touched, t.Own) : ProjectInv w' := by
  refine ⟨⟨?_, ?_⟩, htouched⟩
  · rw [hown.records]
    intro r hr other hproject p' hp'
    obtain ⟨p, hp, hconfig⟩ := hconfigs other p' hp'
    rw [hconfig]
    exact hinv.tidy.owned r hr other hproject p hp
  · rw [hown.records]
    exact hinv.tidy.distinct

theorem Handles.same (hw : Handles cluster project w) (hown : Own w w')
    (hconfigs : SameConfigs w w') :
    Handles cluster project w' := by
  refine ⟨?_, fun p' hp' => ?_, ?_⟩
  · rw [hown.acting]
    exact hw.acting
  · obtain ⟨p, hp, hconfig⟩ := hconfigs project p' hp'
    rw [hconfig]
    exact hw.owned p hp
  · rw [hown.records]
    exact hw.alone

theorem Handles.touched (hw : Handles cluster project w) (hinv : ProjectInv w)
    (h : TouchesOnly project w w') :
    ∀ t ∈ w'.touched, t.Own := by
  intro t ht
  rcases h t ht with ht | ⟨p, hp, rfl⟩
  · exact hinv.touched t ht
  · refine ⟨?_, ?_⟩
    · show Agent.owned (w.acting ()) p.config
      rw [hw.acting]
      exact hw.owned p hp
    · show (w.records.rows.filter fun r =>
        r.project = some project && r.name ≠ w.acting ()).map (·.name) = []
      rw [List.map_eq_nil_iff, List.filter_eq_nil_iff]
      intro r hr hnamed
      simp only [Bool.and_eq_true, decide_eq_true_eq] at hnamed
      rw [hw.acting] at hnamed
      exact hnamed.2 (hw.alone r hr hnamed.1)

theorem outer_handling : Outer handling () project (Handles cluster project) := by
  intro c hc hon
  refine .call (fun _ _ => Handles.beside) fun w o r hw hinv _ hr => ?_
  obtain rfl := some.inj hr
  have hown : Own w (agentAnswer () c w o).2 := own_of_external hc
  obtain ⟨hconfigs, htouches⟩ := configs_of_external (w := w) (o := o) hc hon
  exact ⟨ProjectInv.same hinv hown hconfigs (hw.touched hinv htouches), trivial,
    hw.same hown hconfigs⟩

abbrev Plain {α : Type} (m : Route α) : Prop := Maintains agent handling () (fun _ => True) m

variable {c : AgentCall}

theorem plain_call (hc : ∀ w o, ProjectInv w → ProjectInv (agentAnswer () c w o).2) :
    Plain (Handler.call c : Route c.Answer) := by
  refine .call (fun _ _ _ _ => trivial) fun w o r _ hinv _ hr => ?_
  obtain rfl := some.inj hr
  exact ⟨hc w o hinv, trivial, trivial⟩

theorem plain_of_free (hc : c.external = true) (hfree : ∀ project, c.on project) :
    Plain (Handler.call c : Route c.Answer) := by
  refine plain_call fun w o hinv => ?_
  have hown : Own w (agentAnswer () c w o).2 := own_of_external hc
  obtain ⟨hconfigs, htouches⟩ := configs_of_external (w := w) (o := o) hc (hfree "")
  obtain ⟨-, htouches'⟩ := configs_of_external (w := w) (o := o) hc (hfree "default")
  refine hinv.same hown hconfigs fun t ht => ?_
  rcases htouches t ht with ht | ⟨p, -, hempty⟩
  · exact hinv.touched t ht
  · rcases htouches' t ht with ht | ⟨p', -, hdefault⟩
    · exact hinv.touched t ht
    · have hproject : "" = "default" := congrArg Touch.project (hempty.symm.trans hdefault)
      exact absurd hproject (by decide)

theorem ProjectInv.of_rows (hinv : ProjectInv w)
    (hrows : ∀ r' ∈ w'.records.rows, ∃ r ∈ w.records.rows, r'.name = r.name ∧
      r'.project = r.project)
    (hprojects : w'.projects = w.projects) (htouched : w'.touched = w.touched) : ProjectInv w' := by
  refine ⟨⟨fun r' hr' project hproject p hp => ?_, fun r' hr' s' hs' project hr'' hs'' => ?_⟩, ?_⟩
  · obtain ⟨r, hr, hname, hsame⟩ := hrows r' hr'
    rw [hprojects] at hp
    rw [hname]
    exact hinv.tidy.owned r hr project (hsame.symm.trans hproject) p hp
  · obtain ⟨r, hr, hname, hsame⟩ := hrows r' hr'
    obtain ⟨s, hs, hname', hsame'⟩ := hrows s' hs'
    rw [hname, hname']
    exact hinv.tidy.distinct r hr s hs project (hsame.symm.trans hr'') (hsame'.symm.trans hs'')
  · rw [htouched]
    exact hinv.touched

theorem beside_start (w : AgentState Unit) (cluster : String) (action : JobAction) :
    Beside w (w.start cluster action) := by
  unfold AgentState.start
  split_ifs
  · exact ⟨rfl, rfl, rfl, rfl, rfl, rfl, rfl, rfl, rfl⟩
  · exact ⟨rfl, rfl, rfl, rfl, rfl, rfl, rfl, rfl, rfl⟩

theorem beside_forgetJob (w : AgentState Unit) (cluster : String) :
    Beside w (w.forgetJob cluster) := by
  unfold AgentState.forgetJob
  split_ifs
  · exact ⟨rfl, rfl, rfl, rfl, rfl, rfl, rfl, rfl, rfl⟩
  · exact ⟨rfl, rfl, rfl, rfl, rfl, rfl, rfl, rfl, rfl⟩

theorem inv_setSpec {spec : ClusterSpec} (hinv : ProjectInv w)
    (hrecords : w'.records = w.records.setSpec name spec)
    (hprojects : w'.projects = w.projects) (htouched : w'.touched = w.touched) : ProjectInv w' := by
  refine hinv.of_rows (fun r' hr' => ?_) hprojects htouched
  rw [hrecords] at hr'
  obtain ⟨r, hr, rfl⟩ := ClusterRepo.mem_setSpec.mp hr'
  refine ⟨r, hr, ?_⟩
  split_ifs
  · exact ⟨rfl, rfl⟩
  · exact ⟨rfl, rfl⟩

theorem plain_writePool {body : MetalLBRequest} : Plain (Route.writePool name record body) := by
  refine plain_call (c := .writePool name record body) fun w o hinv => ?_
  have hinv' : ProjectInv { w with
      records := w.records.setSpec name { record.spec with metallb := some body }
      written := w.written + 1
      writtenAt := Function.update w.writtenAt name (w.written + 1) } :=
        inv_setSpec hinv rfl rfl rfl
  exact (hinv'.beside (beside_forgetJob _ name)).beside
    (beside_start _ name (.install body.addresses))

theorem plain_dropPool : Plain (Route.dropPool name) := by
  refine plain_call (c := .dropPool name) fun w o hinv => ?_
  unfold agentAnswer
  dsimp only
  split
  · exact hinv
  · rename_i r hr
    have hinv' : ProjectInv { w with records := w.records.setSpec name { r.spec with metallb := none } } :=
      inv_setSpec hinv rfl rfl rfl
    exact (hinv'.beside (beside_forgetJob _ name)).beside (beside_start _ name .remove)

theorem plain_settleStatus {job : Option ℕ} {installed : Bool} :
    Plain (Route.settleStatus name record job installed) := by
  refine plain_call (c := .settleStatus name record job installed) fun w o hinv => ?_
  unfold agentAnswer
  dsimp only
  split
  · exact hinv.beside (beside_start _ name _)
  · exact hinv

theorem plain_setError : Plain (Route.setError name) := by
  refine plain_call (c := .setError name) fun w o hinv => hinv.of_rows (fun r' hr' => ?_) rfl rfl
  obtain ⟨r, hr, rfl⟩ := ClusterRepo.mem_setStatus.mp hr'
  refine ⟨r, hr, ?_⟩
  split_ifs
  · exact ⟨rfl, rfl⟩
  · exact ⟨rfl, rfl⟩

theorem plain_deleteRecord : Plain (Route.deleteRecord name) := by
  refine plain_call (c := .deleteRecord name) fun w o hinv => ?_
  have hinv' : ProjectInv { w with records := w.records.deleteByName name } :=
    hinv.of_rows (fun r' hr' => ⟨r', (ClusterRepo.mem_deleteByName.mp hr').1, rfl, rfl⟩) rfl rfl
  exact hinv'.beside (beside_forgetJob _ name)

theorem plain_begins (hinv : ProjectInv w) (cluster : String) : ProjectInv (w.begins () cluster) :=
  ⟨⟨hinv.tidy.owned, hinv.tidy.distinct⟩, hinv.touched⟩

/-! ### Creates -/

theorem owned_buildProjectConfig (m : ProjectMetadata) :
    owned m.cluster (buildProjectConfig m) := by
  exact ⟨rfl, rfl⟩

theorem handles_postProject :
    Maintains agent handling () (Handles body.name body.projectName)
      (Route.postProject body.projectName (buildProjectConfig body.projectMetadata)) := by
  refine .call (c :=
    AgentCall.postProject body.projectName (buildProjectConfig body.projectMetadata))
    (fun _ _ => Handles.beside) fun w o r hw hinv _ hr => ?_
  obtain rfl := some.inj hr
  replace hinv : ProjectInv w := hinv
  have hstamped : owned body.name (buildProjectConfig body.projectMetadata) :=
    owned_buildProjectConfig body.projectMetadata
  unfold agentAnswer
  dsimp only
  split_ifs
  · exact ⟨hinv, trivial, hw⟩
  · refine AgentOutcome.call_of (R := fun w' => ProjectInv w' ∧ True ∧
      Handles body.name body.projectName w')
      ⟨hinv, trivial, hw⟩ ⟨⟨⟨?_, hinv.tidy.distinct⟩, hinv.touched⟩, trivial,
        ⟨hw.acting, ?_, hw.alone⟩⟩
    · intro r hr other hproject p hp
      rw [OrdMap.get_set] at hp
      split_ifs at hp with hsame
      · obtain rfl := some.inj hp
        have hname := hw.alone r hr (hsame ▸ hproject)
        rw [hname]
        exact hstamped
      · exact hinv.tidy.owned r hr other hproject p hp
    · intro p hp
      rw [OrdMap.get_set, if_pos rfl] at hp
      obtain rfl := some.inj hp
      exact hstamped

theorem handles_look (hc : ∀ w o, (agentAnswer () c w o).2 = w) :
    Maintains agent handling () (Handles cluster project) (Handler.call c : Route c.Answer) := by
  refine .call (fun _ _ => Handles.beside) fun w o r hw hinv _ hr => ?_
  obtain rfl := some.inj hr
  rw [hc]
  exact ⟨hinv, trivial, hw⟩

theorem handles_createRecord {endpointHost : Option String}
    (hw : Handles body.name body.projectName w) :
    safe agent handling () (fun _ _ _ => True) (fun _ _ _ => True)
      (Route.createRecord body endpointHost)
      l w := by
  refine safe_call (c := AgentCall.createRecord body endpointHost) (fun _ _ => Handles.beside)
    (fun w o r hw hinv _ hr => ?_) hw
  obtain rfl := some.inj hr
  replace hinv : ProjectInv w := hinv
  unfold agentAnswer
  dsimp only
  split
  · exact ⟨trivial, hinv, trivial⟩
  · rename_i t ht
    obtain ⟨-, hrows⟩ := ClusterRepo.create_eq_some ht
    have hmem : ∀ r' ∈ t.rows, r' = newRecord body endpointHost ∨ r' ∈ w.records.rows := by
      intro r' hr'
      rw [hrows] at hr'
      exact List.mem_cons.mp hr'
    have hnew : ∀ other, (newRecord body endpointHost).project = some other →
      other = body.projectName := fun other h =>
      (some.inj h).symm
    refine ⟨trivial, ⟨⟨fun r hr other hproject p hp => ?_, fun r hr s hs other hr' hs' => ?_⟩,
      hinv.touched⟩, trivial⟩
    · rcases hmem r hr with rfl | hr
      · obtain rfl := hnew other hproject
        exact hw.owned p hp
      · exact hinv.tidy.owned r hr other hproject p hp
    · rcases hmem r hr with rfl | hr
      · obtain rfl := hnew other hr'
        rcases hmem s hs with rfl | hs
        · rfl
        · exact (hw.alone s hs hs').symm
      · rcases hmem s hs with rfl | hs
        · obtain rfl := hnew other hs'
          exact hw.alone r hr hr'
        · exact hinv.tidy.distinct r hr s hs other hr' hs'

theorem handles_begin {Q : c.Answer → AgentState Unit → Prop} (cluster : String)
    (hc : ∀ w o, ∃ a, agentAnswer () c w o = (.ok a, w.begins () cluster) ∧
      (ProjectInv w → ownProject () c w → Q a (w.begins () cluster))) :
    safe agent handling () (fun a _ w => Q a w) (fun _ _ _ => True)
      (Handler.call c : Route c.Answer) l w := by
  refine safe_call (J := fun _ => True) (fun _ _ _ _ => trivial)
    (fun w o r _ hinv hok hr => ?_) trivial
  obtain rfl := some.inj hr
  obtain ⟨a, ha, hQ⟩ := hc w o
  rw [ha]
  exact ⟨trivial, plain_begins hinv cluster, hQ hinv hok⟩

theorem handles_precheck : safe agent handling ()
    (fun refused _ w => refused = none → Handles body.name body.projectName w) (fun _ _ _ => True)
    (Route.precheck body) l w := by
  refine handles_begin (c := .precheck body) body.name fun _ _ => ⟨_, rfl, fun _ hok hrefused => ?_⟩
  obtain ⟨howned, hfree⟩ := hok hrefused
  refine ⟨acting_begins _ _ _, fun p hp => howned p hp, fun r hr hproject => ?_⟩
  exact absurd hproject (hfree r hr)

theorem handles_create (hw : Handles body.name body.projectName w) :
    safe agent handling () (fun _ _ _ => True) (fun _ _ _ => True) (create body) l w := by
  have hreserved : Maintains agent handling () (Handles body.name body.projectName)
      (Route.reserved body.name) := handles_look (c := .reserved body.name) fun _ _ => rfl
  have hsteps := maintains_failure (outer_handling.gentle.createSteps handles_postProject hreserved)
  have hundo : ∀ on, Maintains agent handling () (Handles body.name body.projectName)
    (Route.undo on) := by
    intro on
    refine .call (c := AgentCall.undo on) (fun _ _ => Handles.beside) fun w o r hw hinv _ hr => ?_
    obtain rfl := some.inj hr
    replace hinv : ProjectInv w := hinv
    exact ⟨hinv.of_rows (fun r hr => ⟨r, hr, rfl, rfl⟩) rfl rfl, trivial,
      ⟨hw.acting, hw.owned, hw.alone⟩⟩
  have hrollback : Maintains agent handling () (Handles body.name body.projectName)
    (rollback body) :=
    .bind (hundo true) fun _ =>
      .bind (.tryCatch outer_handling.deleteClusterCrd fun _ => .pure ()) fun _ =>
      .bind (.tryCatch outer_handling.deleteProject fun _ => .pure ()) fun _ => hundo false
  unfold create
  rw [safe_bind]
  refine hsteps.safe hw (fun failed l w hw => ?_) fun _ _ _ _ => trivial
  cases failed with
  | some e =>
    rw [safe_bind]
    exact hrollback.safe hw (fun _ _ _ _ => trivial) fun _ _ _ _ => trivial
  | none =>
    rw [safe_bind, safe_locals, safe_bind]
    exact safe_mono (fun _ _ _ _ => trivial) (fun _ _ _ h => h) (handles_createRecord hw)

theorem handles_postCluster : safe agent handling () (fun _ _ _ => True)
    (fun _ _ _ => True) (postCluster body) l w := by
  refine safe_seq handles_precheck fun refused l w hadmitted => ?_
  cases refused with
  | some reply => trivial
  | none =>
    have hready : Maintains agent handling ()
      (Handles body.name body.projectName) Route.capnReady :=
      outer_handling .capnReady rfl trivial
    show safe agent handling () _ _ (Route.capnReady >>= _) l w
    rw [safe_bind]
    refine hready.safe (hadmitted rfl) (fun ready l w hw => ?_) fun _ _ _ _ => trivial
    cases ready with
    | true => exact handles_create hw
    | false => trivial

/-! ### Deletes -/

theorem handles_getByName : safe agent handling ()
    (fun record _ w => ∀ r, record = some r → ∀ project, r.project = some project →
      Handles name project w)
    (fun _ _ _ => True) (Route.getByName name) l w := by
  refine handles_begin (c := .getByName name) name fun _ _ =>
    ⟨_, rfl, fun hinv _ r hr project hproject => ?_⟩
  obtain ⟨hmem, hname⟩ := ClusterRepo.getByName_eq_some.mp hr
  refine ⟨acting_begins _ _ _, fun p hp => ?_, fun s hs hproject' => ?_⟩
  · rw [← hname]
    exact hinv.tidy.owned r hmem project hproject p hp
  · rw [← hname]
    exact hinv.tidy.distinct s hs r hmem project hproject' hproject

theorem handles_deleteSteps
    (hw : ∀ project, record.project = some project → Handles name project w) :
    safe agent handling () (fun _ _ _ => True) (fun _ _ _ => True)
      (failure (deleteSteps name record)) l w := by
  cases hproject : record.project with
  | none =>
    have hready : Plain Route.capnReady := plain_of_free (c := .capnReady) rfl fun _ => trivial
    have hdelete : Plain (Route.kubectlDeleteCluster name) :=
      plain_of_free (c := .kubectlDeleteCluster name) rfl fun _ => trivial
    have haddons : Plain (Route.deleteAddons name) :=
      plain_of_free (c := .deleteAddons name) rfl fun _ => trivial
    have hsteps : Plain (deleteSteps name record) := by
      refine maintains_deleteSteps hready (.bind hdelete fun _ => haddons) fun project hsome => ?_
      rw [hproject] at hsome
      cases hsome
    exact (maintains_failure hsteps).safe trivial (fun _ _ _ _ => trivial) fun _ _ _ _ => trivial
  | some project =>
    have houter : Outer handling () project (Handles name project) := outer_handling
    have hsteps : Maintains agent handling () (Handles name project) (deleteSteps name record) := by
      refine maintains_deleteSteps (houter .capnReady rfl trivial) houter.deleteClusterCrd
        fun other hsome => ?_
      rw [hproject] at hsome
      obtain rfl := some.inj hsome
      exact houter.deleteProject
    exact (maintains_failure hsteps).safe (hw project hproject)
      (fun _ _ _ _ => trivial) fun _ _ _ _ => trivial

theorem handles_deleteCluster : safe agent handling () (fun _ _ _ => True) (fun _ _ _ => True)
    (deleteCluster name) l w := by
  refine safe_seq handles_getByName fun record l w hread => ?_
  cases record with
  | none => trivial
  | some record =>
    show safe agent handling () _ _ (failure (deleteSteps name record) >>= _) l w
    refine safe_seq (handles_deleteSteps (hread record rfl)) fun failed l w _ => ?_
    cases failed with
    | some e =>
      have hplain : Plain (do
          Route.setError name
          pure (AgentReply.error 502 "failed to delete cluster" (some e.detail)) :
            Route AgentReply) :=
        .bind plain_setError fun _ => .pure _
      exact hplain.safe trivial (fun _ _ _ _ => trivial) fun _ _ _ _ => trivial
    | none =>
      have hplain : Plain (do
          Route.deleteRecord name
          pure .deleted : Route AgentReply) := .bind plain_deleteRecord fun _ => .pure _
      exact hplain.safe trivial (fun _ _ _ _ => trivial) fun _ _ _ _ => trivial

/-! ### MetalLB -/

theorem plain_getByName : Plain (Route.getByName name) :=
  plain_call (c := .getByName name) fun _ _ hinv => plain_begins hinv name

theorem plain_putMetalLB {body : MetalLBRequest} : Plain (putMetalLB name body) := by
  have hkubeconfig : Plain (Route.hasKubeconfig name) :=
    plain_of_free (c := .hasKubeconfig name) rfl fun _ => trivial
  have hconflict : Plain (Route.poolConflict body.addresses name) :=
    plain_call (c := .poolConflict body.addresses name) fun _ _ hinv => hinv
  have hnetwork : ∀ project, Plain (Route.clusterNetwork project) := fun project =>
    plain_of_free (c := .clusterNetwork project) rfl fun _ => trivial
  have hfacts : ∀ network, Plain (Route.networkFacts network) := fun network =>
    plain_of_free (c := .networkFacts network) rfl fun _ => trivial
  have hcheck : ∀ record, Plain (checkNetwork record body) := fun record =>
    .tryCatch (.bind (hnetwork _) fun network => .bind (hfacts network) fun facts => .pure _)
      fun _ => .pure _
  refine .bind plain_getByName fun record => ?_
  cases record with
  | none => exact .pure _
  | some record =>
    refine .bind hkubeconfig fun has => ?_
    cases has with
    | false => exact .pure _
    | true =>
      refine .bind hconflict fun conflict => ?_
      cases conflict with
      | some detail => exact .pure _
      | none =>
        refine .bind (hcheck record) fun outside => ?_
        cases outside with
        | some detail => exact .pure _
        | none => exact .bind plain_writePool fun _ => .pure _

theorem plain_getMetalLB : Plain (getMetalLB name) := by
  have hread : Plain (Route.readStatus name) := plain_call (c := .readStatus name) fun _ _ hinv =>
    hinv
  have hobserve : Plain (Route.observe name) := plain_of_free (c := .observe name) rfl fun _ =>
    trivial
  refine .bind hread fun found => ?_
  cases found with
  | none => exact .pure _
  | some found => exact .tryCatch (.bind hobserve fun installed => plain_settleStatus) fun e => .pure _

/-! ### Requests one after another -/

theorem handles_request {request : AgentRequest} : safe agent handling () (fun _ _ _ => True)
    (fun _ _ _ => True) request.route l w := by
  cases request with
  | post body => exact handles_postCluster
  | delete name => exact handles_deleteCluster
  | getPool name => exact plain_getMetalLB.safe trivial (fun _ _ _ _ => trivial) fun _ _ _ _ => trivial
  | putPool name body => exact plain_putMetalLB.safe trivial (fun _ _ _ _ => trivial) fun _ _ _ _ => trivial
  | deletePool name =>
    have hdelete : Plain (deleteMetalLB name) := .bind plain_dropPool fun _ => .pure _
    exact hdelete.safe trivial (fun _ _ _ _ => trivial) fun _ _ _ _ => trivial

theorem handles_inTurn (requests : List AgentRequest) (w : AgentState Unit) :
    (inTurn requests).safe agent handling () (fun _ _ => True) w := by
  induction requests generalizing w with
  | nil => trivial
  | cons request requests ih =>
    unfold inTurn
    rw [Prog.safe_bind]
    exact Prog.safe_mono (fun _ w _ => ih w) handles_request

theorem compatible_handling : Team.Compatible agent handling := by
  refine ⟨fun i j _ _ hij => absurd (Subsingleton.elim i j) hij, fun x w w' hinv _ hw' => ?_⟩
  obtain ⟨-, hbeside⟩ := grows_jobStep hw'
  exact ⟨ProjectInv.beside hbeside hinv, fun _ => hbeside⟩

/-- However requests that are handled one after another go, and whatever jobs do meanwhile: if a
create is only given a project that no record names, and that carries its own metadata if it is
there, then a project that is emptied, deleted or given another default profile carries the metadata
of the cluster that is created or deleted, and no other cluster's record names it. -/
theorem touched_own {requests : List AgentRequest} (hw : Tidy w) (hnone : w.touched = [])
    {s : Procs Unit AgentCall AgentCall.Answer AgentError (AgentState Unit) Unit}
    (hs : Run agent.step (okStep ownProject fun _ _ => True) (oneAtATime w requests) s) :
    ∀ t ∈ s.world.touched, t.Own := by
  have hinv : ProjectInv w := by
    refine ⟨hw, fun t ht => ?_⟩
    rw [hnone] at ht
    cases ht
  have hsound : Team.Sound agent handling (fun _ _ _ => True) (oneAtATime w requests) :=
    ⟨hinv, fun _ => handles_inTurn requests w⟩
  have hend : Team.Sound agent handling (fun _ _ _ => True) s :=
    Team.run_safe (P := handling) compatible_handling (fun _ _ _ _ _ _ => trivial) hsound hs
  have hinv' : ProjectInv s.world := hend.inv
  exact hinv'.touched

def webProject : IncusProject := ⟨[], ["shop"], [], [], none⟩

def withWeb : AgentState Unit :=
    { AgentState.started Unit .empty with projects := [("web", webProject)] }

theorem tidy_withWeb : Tidy withWeb := ⟨fun _ hr => (nomatch hr), fun _ hr => (nomatch hr)⟩

def labRequests : List AgentRequest := [.post ⟨"lab", "v1.31.0", none, none⟩, .delete "lab"]

/-- A create and a delete beside another project. -/
theorem lab_touches_own : ∃ s, Run agent.step (okStep ownProject fun _ _ => True)
    (oneAtATime withWeb labRequests) s ∧
    s.world.touched.length = 2 ∧ s.world.projects = [("web", webProject)] ∧ ∀ t ∈ s.world.touched,
      t.Own := by
  have hrun : ∃ s, Run agent.step (okStep ownProject fun _ _ => True)
    (oneAtATime withWeb labRequests) s ∧
      s.world.touched.length = 2 ∧ s.world.projects = [("web", webProject)] := by
    apply Run.exists_of_exec (List.replicate 21 (.call () {}))
    decide
  obtain ⟨s, hs, htouched, hprojects⟩ := hrun
  exact ⟨s, hs, htouched, hprojects, touched_own tidy_withWeb rfl hs⟩

/-- A create that is given another project and fails: the other project's instance is deleted. -/
theorem create_empties_another : ∃ s,
    Run agent.step (okStep (fun _ _ _ => True) fun _ _ => True)
        (oneAtATime withWeb [.post ⟨"lab", "v1.31.0", some "web", none⟩]) s ∧
      s.world.projects.get "web" = none ∧ ¬ ∀ t ∈ s.world.touched, t.Own := by
  have hrun : ∃ s, Run agent.step (okStep (fun _ _ _ => True) fun _ _ => True)
      (oneAtATime withWeb [.post ⟨"lab", "v1.31.0", some "web", none⟩]) s ∧
        s.world.projects.get "web" = none ∧ ∃ t ∈ s.world.touched, ¬ owned t.cluster t.config := by
    apply Run.exists_of_exec
      ([.call () {}, .call () {}, .call () {},
        .call () { error := some (.failed "no storage pool") }] ++
        List.replicate 11 (.call () {}))
    decide
  obtain ⟨s, hs, hgone, t, ht, hforeign⟩ := hrun
  exact ⟨s, hs, hgone, fun h => hforeign (h t ht).owned⟩

end IncusCloud.Agent
