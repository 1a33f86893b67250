import IncusCloud.Agent.Proofs.Calls

/-!
# MetalLB is installed as it was asked for

`PUT` and `DELETE` of a cluster's MetalLB change the record and start a job, which is dropped where
one is running. If no job of the cluster is running then, and a `GET` only installs what the record
still asks for, what is installed is what the record asks for whenever no job is running
(`installed_as_asked`).
-/

namespace IncusCloud.Agent

open Lib Handler Option
open OrdMap (get_set get_erase)

variable {ι : Type} [DecidableEq ι] {i : ι} {name : String} {w w' : AgentState ι} {l : RouteLocals}
  {j : Job} {record : ClusterRecord} {body : MetalLBRequest}

/-! ### What is asked for and what is installed -/

/-- The addresses that the cluster's record asks for; none: it asks for no MetalLB. -/
def AgentState.wanted (w : AgentState ι) (name : String) : Option (List String) :=
  (w.records.getByName name).bind wantedMetalLB

/-- MetalLB is there if it is asked for, with exactly those addresses. -/
structure Installed (c : Workload) (wanted : Option (List String)) : Prop where
  manifest : c.manifest = wanted.isSome
  pool : c.pool = wanted.map poolAddresses

instance (c : Workload) (wanted : Option (List String)) : Decidable (Installed c wanted) :=
  decidable_of_iff (c.manifest = wanted.isSome ∧ c.pool = wanted.map poolAddresses)
    ⟨fun h => ⟨h.1, h.2⟩, fun h => ⟨h.1, h.2⟩⟩

def JobAction.goal : JobAction → Option (List String)
  | install addresses => some addresses
  | remove => none

def JobStage.applied : JobStage → Bool
  | controller | speaker | pool _ => true
  | _ => false

def Job.fits (j : Job) : Prop :=
  match j.action with
  | .install _ => j.stage ≠ .delete
  | .remove => j.stage = .kubeconfig ∨ j.stage = .delete

/-- The job installs, or takes away, what was last asked for. -/
structure OnTheWay (j : Job) (c : Workload) (wanted : Option (List String)) : Prop where
  goal : j.action.goal = wanted
  fits : j.fits
  applied : j.stage.applied = true → c.manifest = true

/-- What is installed is what was asked for, or a running job is on its way there. -/
structure PoolInv (name : String) (w : AgentState ι) : Prop where
  idle : w.jobRunning name = false → Installed (w.workloads name) (w.wanted name)
  busy : ∀ j, w.job name = some j → j.running = true → OnTheWay j (w.workloads name) (w.wanted name)
  others : ∀ cluster, cluster ≠ name → w.jobs.get cluster = none

/-! ### The conditions -/

/-- A request that changes the record finds no job running, and a `GET` installs what the record
asks for. -/
def poolCurrent (_ : ι) (c : AgentCall) (w : AgentState ι) : Prop :=
  match c with
  | .writePool name _ _ => w.jobRunning name = false
  | .dropPool name => w.jobRunning name = false
  | .settleStatus name record job installed =>
    ∀ addresses ∈ missing w record job installed, w.wanted name = some addresses
  | _ => True

instance (i : ι) (c : AgentCall) (w : AgentState ι) : Decidable (poolCurrent i c w) := by
  unfold poolCurrent
  split <;> infer_instance

def notFailed (x : JobStep) (w : AgentState ι) : Prop :=
  x.error = none ∨ ∀ j ∈ w.job x.cluster, j.stage.retry.isSome = true

instance (x : JobStep) (w : AgentState ι) : Decidable (notFailed x w) := by
  unfold notFailed
  infer_instance

def AgentRequest.ofPool (name : String) : AgentRequest → Prop
  | getPool cluster => cluster = name
  | putPool cluster _ => cluster = name
  | deletePool cluster => cluster = name
  | _ => False

def Present (name : String) (w : AgentState ι) : Prop := (w.records.getByName name).isSome = true

def asking (ι : Type) (name : String) : Protocol ι AgentCall (AgentState ι) JobStep where
  ok := poolCurrent
  okOutside := notFailed
  inv := PoolInv name
  rely _ w w' := Present name w → Present name w'
  guar _ w w' := Present name w → Present name w'

/-! ### Jobs -/

omit [DecidableEq ι] in
theorem jobRunning_eq_false : w.jobRunning name = false ↔ ∀ j, w.job name = some j → j.running = false := by
  unfold AgentState.jobRunning
  cases w.job name with
  | none => simp
  | some j => simp

omit [DecidableEq ι] in
theorem job_start {action : JobAction} (hidle : w.jobRunning name = false) :
    (w.start name action).job name = some ⟨action, true, none, .kubeconfig⟩ := by
  unfold AgentState.start
  rw [hidle, if_neg Bool.false_ne_true]
  unfold AgentState.job
  dsimp only
  rw [get_set, if_pos rfl]
  exact List.getElem?_concat_length

omit [DecidableEq ι] in
theorem start_forget_eq (action : JobAction) (hidle : w.jobRunning name = false) :
    ((w.forgetJob name).start name action).job name = some ⟨action, true, none, .kubeconfig⟩ ∧
      ((w.forgetJob name).start name action).workloads = w.workloads ∧
      ((w.forgetJob name).start name action).records = w.records ∧
      ∀ cluster, cluster ≠ name → ((w.forgetJob name).start name action).jobs.get cluster =
        w.jobs.get cluster := by
  have hforget : w.forgetJob name = { w with jobs := w.jobs.erase name } := by
    unfold AgentState.forgetJob
    rw [hidle, if_neg Bool.false_ne_true]
  have hidle' : (w.forgetJob name).jobRunning name = false := by
    rw [hforget, jobRunning_eq_false]
    intro j hj
    unfold AgentState.job at hj
    dsimp only at hj
    rw [get_erase, if_pos rfl] at hj
    cases hj
  refine ⟨job_start hidle', ?_⟩
  unfold AgentState.start
  rw [hidle', if_neg Bool.false_ne_true, hforget]
  refine ⟨rfl, rfl, fun cluster hne => ?_⟩
  dsimp only
  rw [get_set, if_neg hne, get_erase, if_neg hne]

omit [DecidableEq ι] in
theorem PoolInv.of_start {action : JobAction} (hjob : w'.job name = some ⟨action, true, none, .kubeconfig⟩)
    (hgoal : action.goal = w'.wanted name)
    (hothers : ∀ cluster, cluster ≠ name → w'.jobs.get cluster = none) :
    PoolInv name w' := by
  refine ⟨fun hidle => ?_, fun j hj _ => ?_, hothers⟩
  · have hrunning := jobRunning_eq_false.mp hidle _ hjob
    cases hrunning
  · obtain rfl := some.inj (hjob.symm.trans hj)
    refine ⟨hgoal, ?_, fun h => (nomatch h)⟩
    cases action with
    | install addresses => exact fun h => (nomatch h)
    | remove => exact .inl rfl

theorem OnTheWay.work {c : Workload} {wanted : Option (List String)} (h : OnTheWay j c wanted) :
    (∀ stage, (j.work c).2 = some stage → OnTheWay { j with stage := stage } (j.work c).1 wanted) ∧
      ((j.work c).2 = none → Installed (j.work c).1 wanted) := by
  obtain ⟨action, running, error, stage⟩ := j
  obtain ⟨hgoal, hfits, happlied⟩ := h
  cases action with
  | install addresses =>
    have hwanted : wanted = some addresses := hgoal.symm
    subst hwanted
    cases stage with
    | kubeconfig =>
      refine ⟨fun stage hstage => ?_, fun h => (nomatch h)⟩
      obtain rfl := some.inj hstage
      exact ⟨rfl, fun h => (nomatch h), fun h => (nomatch h)⟩
    | manifest =>
      refine ⟨fun stage hstage => ?_, fun h => (nomatch h)⟩
      obtain rfl := some.inj hstage
      exact ⟨rfl, fun h => (nomatch h), fun _ => rfl⟩
    | controller =>
      refine ⟨fun stage hstage => ?_, fun h => (nomatch h)⟩
      obtain rfl := some.inj hstage
      exact ⟨rfl, fun h => (nomatch h), fun _ => happlied rfl⟩
    | speaker =>
      refine ⟨fun stage hstage => ?_, fun h => (nomatch h)⟩
      obtain rfl := some.inj hstage
      exact ⟨rfl, fun h => (nomatch h), fun _ => happlied rfl⟩
    | pool attempt => exact ⟨fun _ h => (nomatch h), fun _ => ⟨happlied rfl, rfl⟩⟩
    | delete => exact absurd rfl hfits
  | remove =>
    have hwanted : wanted = none := hgoal.symm
    subst hwanted
    rcases hfits with rfl | rfl
    · refine ⟨fun stage hstage => ?_, fun h => (nomatch h)⟩
      obtain rfl := some.inj hstage
      exact ⟨rfl, .inr rfl, fun h => (nomatch h)⟩
    · exact ⟨fun _ h => (nomatch h), fun _ => ⟨rfl, rfl⟩⟩

theorem OnTheWay.retry {c : Workload} {wanted : Option (List String)} (h : OnTheWay j c wanted)
    (hretry : j.stage.retry.isSome = true) (message : String) :
    OnTheWay (j.fail message) c wanted ∧ OnTheWay (j.fail message) (j.work c).1 wanted ∧
      (j.fail message).running = j.running := by
  obtain ⟨action, running, error, stage⟩ := j
  obtain ⟨hgoal, hfits, happlied⟩ := h
  cases stage with
  | pool attempt =>
    obtain ⟨next, hnext⟩ := isSome_iff_exists.mp hretry
    have hmanifest := happlied rfl
    have hfail : Job.fail ⟨action, running, error, .pool attempt⟩ message =
      ⟨action, running, error, next⟩ := by
      unfold Job.fail
      dsimp only at hnext ⊢
      rw [hnext]
    have hpool : next = .pool (attempt + 1) := by
      unfold JobStage.retry at hnext
      dsimp only at hnext
      split_ifs at hnext
      exact (some.inj hnext).symm
    rw [hfail, hpool]
    cases action with
    | install addresses =>
      exact ⟨⟨hgoal, fun h => (nomatch h), fun _ => hmanifest⟩,
        ⟨hgoal, fun h => (nomatch h), fun _ => hmanifest⟩, rfl⟩
    | remove => rcases hfits with h | h <;> cases h
  | _ => cases hretry

omit [DecidableEq ι] in
theorem PoolInv.of_job (hjob : w'.job name = some j) (hrunning : j.running = true)
    (hway : OnTheWay j (w'.workloads name) (w'.wanted name))
    (hothers : ∀ cluster, cluster ≠ name → w'.jobs.get cluster = none) : PoolInv name w' := by
  refine ⟨fun hidle => ?_, fun j' hj' _ => ?_, hothers⟩
  · have hstopped := jobRunning_eq_false.mp hidle j hjob
    rw [hrunning] at hstopped
    cases hstopped
  · obtain rfl := some.inj (hjob.symm.trans hj')
    exact hway

omit [DecidableEq ι] in
theorem inv_jobStep {x : JobStep} (hinv : PoolInv name w) (hok : notFailed x w)
    (h : jobStep w x = some w') : PoolInv name w' := by
  obtain ⟨k, j, hk, hj, hrunning, hstepped⟩ := jobStep_cases h
  -- Only this cluster has jobs.
  have hname : x.cluster = name := by
    by_contra hne
    rw [hinv.others _ hne] at hk
    cases hk
  have hlt : k < w.heap.length := (List.getElem?_eq_some_iff.mp hj).1
  have hjob : w.job name = some j := by
    unfold AgentState.job
    rw [← hname, hk]
    exact hj
  have hjob' : ∀ j', (w.jobs.get name).bind (fun n => (w.heap.set k j')[n]?) = some j' := by
    intro j'
    rw [← hname, hk]
    exact List.getElem?_set_self hlt
  have hway := hinv.busy j hjob hrunning
  obtain ⟨hnext, hdone⟩ := hway.work
  cases hstepped with
  | failed message herror =>
    have hretry : j.stage.retry.isSome = true := by
      rcases hok with hok | hok
      · rw [herror] at hok
        cases hok
      · exact hok j (hname ▸ hjob)
    obtain ⟨hkept, htook, hsame⟩ := hway.retry hretry message
    refine .of_job (hjob' _) (hsame.trans hrunning) ?_ hinv.others
    dsimp only
    split_ifs
    · rw [hname, Function.update_self]
      exact htook
    · exact hkept
  | next stage herror hstage =>
    refine .of_job (hjob' _) hrunning ?_ hinv.others
    rw [hname] at hstage
    dsimp only
    rw [hname, Function.update_self]
    exact hnext stage hstage
  | done herror hstage =>
    refine ⟨fun _ => ?_, fun j' hj' => ?_, fun cluster hne => ?_⟩
    · rw [hname] at hstage
      dsimp only
      rw [hname, Function.update_self]
      exact hdone hstage
    · unfold AgentState.job at hj'
      dsimp only at hj'
      rw [hname, get_erase, if_pos rfl] at hj'
      cases hj'
    · dsimp only
      rw [hname, get_erase, if_neg hne]
      exact hinv.others cluster hne

theorem compatible_asking : Team.Compatible agent (asking ι name) := by
  constructor
  · exact fun _ _ _ _ _ _ _ hguar => hguar
  · intro x w w' hinv hok hw'
    refine ⟨inv_jobStep hinv hok hw', fun _ hpresent => ?_⟩
    unfold Present
    rw [(grows_jobStep hw').2.records]
    exact hpresent

/-! ### Calls -/

/-- What is asked for and what is installed stay as they are. -/
structure Quiet (w w' : AgentState ι) : Prop where
  records : w'.records = w.records
  heap : w'.heap = w.heap
  jobs : w'.jobs = w.jobs
  workloads : w'.workloads = w.workloads

omit [DecidableEq ι] in
theorem Quiet.refl (w : AgentState ι) : Quiet w w := ⟨rfl, rfl, rfl, rfl⟩

omit [DecidableEq ι] in
theorem PoolInv.quiet (hw : Quiet w w') (h : PoolInv name w) : PoolInv name w' := by
  obtain ⟨hrecords, hheap, hjobs, hworkloads⟩ := hw
  have hjob : w'.job name = w.job name := by
    unfold AgentState.job
    rw [hjobs, hheap]
  have hwanted : w'.wanted name = w.wanted name := by
    unfold AgentState.wanted
    rw [hrecords]
  refine ⟨fun hidle => ?_, fun j hj hrunning => ?_, fun cluster hne => ?_⟩
  · rw [hworkloads, hwanted]
    unfold AgentState.jobRunning at hidle
    rw [hjob] at hidle
    exact h.idle hidle
  · rw [hworkloads, hwanted]
    exact h.busy j (hjob ▸ hj) hrunning
  · rw [hjobs]
    exact h.others cluster hne

variable {c : AgentCall}

theorem maintains_quiet {J : AgentState ι → Prop}
    (hJ : ∀ w w' : AgentState ι, w'.records = w.records → J w → J w')
    (hrely : ∀ w w', (asking ι name).rely i w w' → J w → J w')
    (hc : ∀ w o, Quiet w (agentAnswer i c w o).2) :
    Maintains agent (asking ι name) i J (Handler.call c : Route c.Answer) := by
  refine .call hrely fun w o r hw hinv _ hr => ?_
  obtain rfl := some.inj hr
  have hquiet := hc w o
  refine ⟨PoolInv.quiet hquiet hinv, fun hpresent => ?_, hJ _ _ hquiet.records hw⟩
  unfold Present
  rw [hquiet.records]
  exact hpresent

theorem asking_look {J : AgentState ι → Prop}
    (hJ : ∀ w w' : AgentState ι, w'.records = w.records → J w → J w')
    (hrely : ∀ w w', (asking ι name).rely i w w' → J w → J w')
    (hc : ∀ w o, (agentAnswer i c w o).2 = w) :
    Maintains agent (asking ι name) i J (Handler.call c : Route c.Answer) := by
  refine maintains_quiet hJ hrely fun w o => ?_
  rw [hc]
  exact .refl w

omit [DecidableEq ι] in
theorem inv_ask (action : JobAction) {t : ClusterRepo} {n : ℕ} {f : String → ℕ} (hinv : PoolInv name w)
    (hidle : w.jobRunning name = false) (hgoal : action.goal = (t.getByName name).bind wantedMetalLB) :
    PoolInv name
      ((({ w with records := t, written := n, writtenAt := f } : AgentState ι).forgetJob name).start name action) := by
  have hidle' : ({ w with records := t, written := n, writtenAt := f } : AgentState ι).jobRunning name = false := hidle
  obtain ⟨hjob, -, hrecords, hothers⟩ := start_forget_eq action hidle'
  refine .of_start hjob ?_ fun cluster hne => ?_
  · unfold AgentState.wanted
    rw [hrecords]
    exact hgoal
  · rw [hothers cluster hne]
    exact hinv.others cluster hne

section

variable {reply : AgentReply}

abbrev Free (i : ι) (name : String) {α : Type} (m : Route α) : Prop :=
  Maintains agent (asking ι name) i (fun _ => True) m

theorem free_look (hc : ∀ w o, (agentAnswer i c w o).2 = w) :
    Free i name (Handler.call c : Route c.Answer) :=
  asking_look (fun _ _ _ _ => trivial) (fun _ _ _ _ => trivial) hc

/-- Once a `PUT` has read its record, the record is there. -/
abbrev Holding (i : ι) (name : String) {α : Type} (m : Route α) : Prop :=
  Maintains agent (asking ι name) i (Present name) m

theorem holding_look (hc : ∀ w o, (agentAnswer i c w o).2 = w) :
    Holding i name (Handler.call c : Route c.Answer) := by
  refine asking_look (fun w w' hrecords hw => ?_) (fun _ _ hrely hw => hrely hw) hc
  unfold Present
  rw [hrecords]
  exact hw

theorem safe_getByName : safe agent (asking ι name) i
    (fun record _ w => record.isSome = true → Present name w) (fun _ _ _ => True)
    (Route.getByName name) l w := by
  refine safe_call (J := fun _ => True) (c := AgentCall.getByName name) (fun _ _ _ _ => trivial)
    (fun w o r _ hinv _ hr => ?_) trivial
  obtain rfl := some.inj hr
  have hquiet : Quiet w (w.begins i name) := ⟨rfl, rfl, rfl, rfl⟩
  exact ⟨fun h => h, PoolInv.quiet hquiet hinv, fun h => h⟩

theorem holding_checkNetwork : Holding i name (checkNetwork record body) := by
  have hnetwork : Holding i name (Route.clusterNetwork record.project) :=
    holding_look (c := .clusterNetwork record.project) fun w o => o.call_same _ w
  have hfacts : ∀ network, Holding i name (Route.networkFacts network) := fun network =>
    holding_look (c := .networkFacts network) fun w o => o.call_same _ w
  unfold checkNetwork
  exact .tryCatch (.bind hnetwork fun network => .bind (hfacts network) fun facts => .pure _) fun _ => .pure _

theorem holding_writePool : Holding i name (Route.writePool name record body) := by
  refine .call (c := AgentCall.writePool name record body)
    (fun _ _ hrely hw => hrely hw) fun w o r hw hinv hok hr => ?_
  obtain rfl := some.inj hr
  obtain ⟨r, hr⟩ := isSome_iff_exists.mp hw
  have hspec : (w.records.setSpec name { record.spec with metallb := some body }).getByName name =
      some { r with spec := { record.spec with metallb := some body } } := by
    unfold ClusterRepo.setSpec
    rw [ClusterRepo.getByName_update, hr]
    rfl
  have hinv' := inv_ask (.install body.addresses) (n := w.written + 1)
    (f := Function.update w.writtenAt name (w.written + 1)) hinv hok (by rw [hspec]; rfl)
  have hpresent : Present name (agentAnswer i (.writePool name record body) w o).2 := by
    obtain ⟨-, -, hrecords, -⟩ := start_forget_eq (.install body.addresses)
      (w := { w with
        records := w.records.setSpec name { record.spec with metallb := some body }
        written := w.written + 1
        writtenAt := Function.update w.writtenAt name (w.written + 1) }) hok
    unfold Present
    show (ClusterRepo.getByName (AgentState.start _ name (.install body.addresses)).records
      name).isSome = true
    rw [hrecords]
    exact isSome_iff_exists.mpr ⟨_, hspec⟩
  exact ⟨hinv', fun _ => hpresent, hpresent⟩

theorem holding_putPool : Holding i name (putPool name record body) := by
  have hkubeconfig : Holding i name (Route.hasKubeconfig name) :=
    holding_look (c := .hasKubeconfig name) fun w o => o.call_same _ w
  have hconflict : Holding i name (Route.poolConflict body.addresses name) :=
    holding_look (c := .poolConflict body.addresses name) fun _ _ => rfl
  unfold putPool
  refine .bind hkubeconfig fun has => ?_
  cases has with
  | false => exact .pure _
  | true =>
    refine .bind hconflict fun conflict => ?_
    cases conflict with
    | some detail => exact .pure _
    | none =>
      refine .bind holding_checkNetwork fun outside => ?_
      cases outside with
      | some detail => exact .pure _
      | none => exact .bind holding_writePool fun _ => .pure _

theorem safe_putMetalLB : safe agent (asking ι name) i (fun _ _ _ => True)
    (fun _ _ _ => True) (putMetalLB name body) l w := by
  unfold putMetalLB
  refine safe_seq safe_getByName fun record l w hw => ?_
  cases record with
  | none => trivial
  | some record => exact holding_putPool.safe (hw rfl) (fun _ _ _ _ => trivial) fun _ _ _ _ => trivial

theorem free_dropPool : Free i name (Route.dropPool name) := by
  refine .call (c := AgentCall.dropPool name) (fun _ _ _ _ => trivial) fun w o r _ hinv hok hr => ?_
  obtain rfl := some.inj hr
  show PoolInv name (agentAnswer i (.dropPool name) w o).2 ∧
    (Present name w → Present name (agentAnswer i (.dropPool name) w o).2) ∧ True
  unfold agentAnswer
  dsimp only
  split
  · exact ⟨hinv, fun h => h, trivial⟩
  · rename_i r hr
    have hspec : (w.records.setSpec name { r.spec with metallb := none }).getByName name =
        some { r with spec := { r.spec with metallb := none } } := by
      unfold ClusterRepo.setSpec
      rw [ClusterRepo.getByName_update, hr]
      rfl
    obtain ⟨-, -, hrecords, -⟩ := start_forget_eq .remove
      (w := { w with records := w.records.setSpec name { r.spec with metallb := none } }) hok
    refine ⟨inv_ask .remove (n := w.written) (f := w.writtenAt) hinv hok (by rw [hspec]; rfl),
      fun _ => ?_, trivial⟩
    unfold Present
    show (ClusterRepo.getByName (AgentState.start _ name .remove).records name).isSome = true
    rw [hrecords]
    exact isSome_iff_exists.mpr ⟨_, hspec⟩

theorem free_settleStatus {job : Option ℕ} {installed : Bool} :
    Free i name (Route.settleStatus name record job installed) := by
  refine .call (c := AgentCall.settleStatus name record job installed) (fun _ _ _ _ => trivial)
    fun w o r _ hinv hok hr => ?_
  obtain rfl := some.inj hr
  replace hinv : PoolInv name w := hinv
  show PoolInv name (agentAnswer i (.settleStatus name record job installed) w o).2 ∧
    (Present name w → Present name (agentAnswer i (.settleStatus name record job installed) w o).2) ∧ True
  unfold agentAnswer
  dsimp only
  split
  · rename_i addresses hmissing
    have hwanted := hok addresses hmissing
    show PoolInv name (w.start name (.install addresses)) ∧
      (Present name w → Present name (w.start name (.install addresses))) ∧ True
    cases hidle : w.jobRunning name with
    | true =>
      have hdropped : w.start name (.install addresses) = w := if_pos hidle
      rw [hdropped]
      exact ⟨hinv, fun h => h, trivial⟩
    | false =>
      have hstart : w.start name (.install addresses) =
          { w with
            heap := w.heap ++ [⟨.install addresses, true, none, .kubeconfig⟩]
            jobs := w.jobs.set name w.heap.length } := by
        unfold AgentState.start
        rw [hidle, if_neg Bool.false_ne_true]
      refine ⟨.of_start (job_start hidle) ?_ fun cluster hne => ?_, fun h => ?_, trivial⟩
      · rw [hstart]
        exact hwanted.symm
      · rw [hstart]
        dsimp only
        rw [get_set, if_neg hne]
        exact hinv.others cluster hne
      · rw [hstart]
        exact h
  · exact ⟨hinv, fun h => h, trivial⟩

theorem free_getMetalLB : Free i name (getMetalLB name) := by
  have hread : Free i name (Route.readStatus name) := free_look (c := .readStatus name) fun _ _ => rfl
  have hobserve : Free i name (Route.observe name) := free_look (c := .observe name) fun w o =>
    o.call_same _ w
  unfold getMetalLB
  refine .bind hread fun found => ?_
  cases found with
  | none => exact .pure _
  | some found => exact .tryCatch (.bind hobserve fun installed => free_settleStatus) fun e => .pure _

theorem safe_request {request : AgentRequest} (h : request.ofPool name) :
    safe agent (asking ι name) i (fun _ _ _ => True) (fun _ _ _ => True) request.route l w := by
  cases request with
  | post body => exact h.elim
  | delete cluster => exact h.elim
  | getPool cluster =>
    obtain rfl := h
    exact free_getMetalLB.safe trivial (fun _ _ _ _ => trivial) fun _ _ _ _ => trivial
  | putPool cluster body =>
    obtain rfl := h
    exact safe_putMetalLB
  | deletePool cluster =>
    obtain rfl := h
    have hfree : Free i cluster (deleteMetalLB cluster) := .bind free_dropPool fun there => .pure _
    exact hfree.safe trivial (fun _ _ _ _ => trivial) fun _ _ _ _ => trivial

end

/-- However requests about a cluster's MetalLB overlap with each other and with the jobs, none of
which fails: if no job is running when the record changes, and a `GET` only installs what the record
still asks for, then whenever no job is running MetalLB is installed as the record asks. -/
theorem installed_as_asked {requests : ι → AgentRequest} (hrequests : ∀ i, (requests i).ofPool name)
    (hjobs : w.jobs = []) (hw : Installed (w.workloads name) (w.wanted name))
    {s : Procs ι AgentCall AgentCall.Answer AgentError (AgentState ι)
      (Except AgentError AgentReply × RouteLocals)}
    (hs : Run agent.step (okStep poolCurrent notFailed) (allRequests w requests) s)
    (hidle : s.world.jobRunning name = false) : Installed (s.world.workloads name) (s.world.wanted name) := by
  have hnone : ∀ cluster, w.jobs.get cluster = none := by
    intro cluster
    rw [hjobs]
    rfl
  have hinv : PoolInv name w := by
    refine ⟨fun _ => hw, fun j hj => ?_, fun cluster _ => hnone cluster⟩
    unfold AgentState.job at hj
    rw [hnone] at hj
    cases hj
  have hsound : Team.Sound agent (asking ι name) (fun _ _ _ => True) (allRequests w requests) :=
    ⟨hinv, fun i => Prog.safe_mono (fun _ _ _ => trivial) (safe_request (hrequests i))⟩
  have hend : Team.Sound agent (asking ι name) (fun _ _ _ => True) s :=
    Team.run_safe (P := asking ι name) compatible_asking (fun _ _ _ _ _ _ => trivial) hsound hs
  have hinv' : PoolInv name s.world := hend.inv
  exact hinv'.idle hidle

section

def AgentState.started (ι : Type) (t : ClusterRepo) : AgentState ι where
  records := t
  heap := []
  jobs := []
  workloads _ := ⟨false, none⟩
  projects := []
  clusters := []
  secrets := []
  acting _ := ""
  touched := []
  createdBy := []
  undoing _ := false
  written := 0
  writtenAt _ := 0
  seen _ := 0

def labRecord : ClusterRecord := ⟨"lab", some "k8s-lab", .ready, ⟨none, none⟩⟩

def lab : ClusterRepo := ⟨[labRecord], List.nodup_singleton _⟩

def firstPool : MetalLBRequest := ⟨["10.0.0.200-10.0.0.220"], by decide, by decide, by decide⟩

def secondPool : MetalLBRequest := ⟨["10.0.0.230"], by decide, by decide, by decide⟩

def twoPuts : Bool → AgentRequest
  | false => .putPool "lab" firstPool
  | true => .putPool "lab" secondPool

def labStep : ProcAction Bool AgentOutcome JobStep := .outside { cluster := "lab" }

/-- One `PUT`, and its job to its end. -/
theorem one_put_is_installed : ∃ s,
    Run agent.step (okStep poolCurrent notFailed) (allRequests (.started Bool lab) twoPuts) s ∧
      s.world.wanted "lab" = some firstPool.addresses ∧ Installed (s.world.workloads "lab")
        (s.world.wanted "lab") := by
  have hrun : ∃ s, Run agent.step (okStep poolCurrent notFailed) (allRequests (.started Bool lab) twoPuts) s ∧
      s.world.wanted "lab" = some firstPool.addresses ∧ s.world.jobRunning "lab" = false := by
    apply Run.exists_of_exec (List.replicate 6 (.call false {}) ++ List.replicate 5 labStep)
    decide
  obtain ⟨s, hs, hwanted, hidle⟩ := hrun
  have hrequests : ∀ i, (twoPuts i).ofPool "lab" := fun i => by cases i <;> rfl
  exact ⟨s, hs, hwanted, installed_as_asked hrequests rfl (by decide) hs hidle⟩

/-- A second `PUT` while the first one's job is running: its own job is dropped. -/
theorem second_put_is_dropped : ∃ s,
    Run agent.step (okStep (fun _ _ _ => True) notFailed) (allRequests (.started Bool lab) twoPuts) s ∧
      s.world.jobRunning "lab" = false ∧ ¬ Installed (s.world.workloads "lab") (s.world.wanted "lab") := by
  apply Run.exists_of_exec (List.replicate 6 (.call false {}) ++ [labStep] ++
    List.replicate 6 (.call true {}) ++
    List.replicate 4 labStep)
  decide

end

end IncusCloud.Agent
