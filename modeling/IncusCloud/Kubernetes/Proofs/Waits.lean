import IncusCloud.Kubernetes.Jobs

/-!
# The parts of the programs that change nothing

Most of what the create job, the delete job and the sync worker do is to look, to wait and to talk
to Incus. Whatever such an idle call maintains, these parts maintain: `waitFor`, the wait for a
placement, the forward and the load balancer's address.
-/

namespace IncusCloud.Kubernetes

open Lib Handler Option
open Mobility (JobError)

variable {i : K8sProc} {w : Management} {o : K8sOutcome} {X : Type}
  {timeout : Looked → String} {row : K8sRow} {α : Type}

theorem reply_some {A : Management → Prop} {done : α × Management}
    {r : Except JobError α × Management} (hw : A w) (hdone : A done.2) (h : w.reply o done = some r) :
    A r.2 := by
  unfold Management.reply at h
  obtain rfl := some.inj h
  split_ifs
  · exact hdone
  · exact hw
  · exact hdone

theorem silent_some {A : Management → Prop} {a : α}
    {r : Except JobError α × Management} (hw : A w) (h : w.silent o a = some r) : A r.2 := by
  unfold Management.silent at h
  obtain rfl := some.inj h
  split_ifs
  · exact hw
  · exact hw

def K8sCall.isIdle : K8sCall → Bool
  | selectRow _ | selectTenant _ | selectPlacement _ _ | clientFor _ | progress _ _ | throwIfAborted | late
  | sleep | applyClass | applyCluster _ | selectCredentials _ _ | getSecret _ _ | findLb _
  | defaultNetwork _ | ensureForward _ _ | removeForward _ | getCluster _ | listMachines _
  | enqueueMetallb _ | selectCreates _ | deleteCluster _ | removeLeftovers _ | acquireLease | stopped
  | need _ => true
  | _ => false

theorem answer_idle {c : K8sCall} {r : Except JobError c.Answer × Management} (hc : c.isIdle)
    (h : answer i c w o = some r) : r.2 = w := by
  cases c with
  | late =>
    obtain rfl := some.inj h
    rfl
  | stopped =>
    obtain rfl := some.inj h
    rfl
  | _ =>
    first
    | exact silent_some (A := (· = w)) rfl h
    | cases hc

section Idle

variable {T : Team K8sProc K8sCall K8sCall.Answer JobError Management K8sOutcome X}
  {P : Protocol K8sProc K8sCall Management X} {J : Management → Prop} {site : K8sSite}
  (hcall : ∀ c : K8sCall, c.isIdle → Maintains T P i J (Handler.call c : Managing c.Answer))

theorem maintains_timedOut : Maintains T P i J (timedOut timeout : Managing α) :=
  Maintains.bind .locals fun _ => .throw _

theorem maintains_gone {there : Managing Bool} (hthere : Maintains T P i J there) :
    Maintains T P i J (gone there) :=
  hthere.bind fun _ => .pure _

theorem safe_load {id : String} {l : Looked} {Q : K8sRow × String × String → Looked → Management → Prop}
    {I : K8sRow → Management → Prop} (hI : ∀ row, ∀ c : K8sCall, c.isIdle →
      Maintains T P i (I row) (Handler.call c : Managing c.Answer))
    (hrow : safe T P i (fun row _ w => J w ∧ ∀ r ∈ row, I r w) (fun _ _ w => J w)
      (Managing.selectRow id) l w)
    (hJ : ∀ row w, I row w → J w) (hQ : ∀ r l w, I r.1 w → Q r l w) :
    safe T P i Q (fun _ _ w => J w) (load id) l w := by
  unfold load
  refine safe_seq hrow fun row l w hrow => ?_
  cases row with
  | none => exact hrow.1
  | some row =>
    have hw : I row w := hrow.2 row rfl
    rw [Option.elim, safe_bind]
    refine (hI row (.selectTenant row.tenantId) rfl).safe hw (fun tenant l w hw => ?_)
      (fun _ _ w hw => hJ row w hw)
    rw [safe_bind]
    refine (hI row (.selectPlacement row.tenantId row.clusterId) rfl).safe hw
      (fun placement l w hw => ?_) (fun _ _ w hw => hJ row w hw)
    split_ifs
    · exact hJ row w hw
    · cases placement with
      | none => exact hJ row w hw
      | some placement =>
        rw [Option.elim, safe_bind]
        refine (hI row (.clientFor row.clusterId) rfl).safe hw (fun name l w hw => ?_)
          (fun _ _ w hw => hJ row w hw)
        exact hQ _ _ _ hw

include hcall

theorem maintains_waitFor {check : Managing (Option α)}
    (hcheck : Maintains T P i J check) (n : ℕ) :
    Maintains T P i J (waitFor check timeout n) := by
  induction n with
  | zero => exact maintains_timedOut
  | succ n ih =>
    refine (hcall .throwIfAborted rfl).bind fun _ => hcheck.bind fun v => ?_
    cases v with
    | some a => exact .pure a
    | none =>
      refine (hcall .late rfl).bind fun passed => ?_
      split_ifs
      · exact maintains_timedOut
      · exact (hcall .sleep rfl).bind fun _ => ih

theorem safe_waitFor {check : Managing (Option α)}
    {K : Management → Prop} (hcheck : ∀ l w, J w → safe T P i
      (fun v _ w => J w ∧ (v.isSome → K w)) (fun _ _ => J) check l w)
    (n : ℕ) {l : Looked} (hw : J w) :
    safe T P i (fun _ _ w => J w ∧ K w) (fun _ _ => J) (waitFor check timeout n) l w := by
  have htimedOut (l : Looked) (w : Management) (hw : J w) : safe T P i (fun _ _ w => J w ∧ K w)
      (fun _ _ => J) (timedOut timeout : Managing α) l w := hw
  induction n generalizing l w with
  | zero => exact htimedOut l w hw
  | succ n ih =>
    unfold waitFor
    rw [safe_bind]
    refine (hcall .throwIfAborted rfl).safe hw (fun _ l w hw => ?_) (fun _ _ _ hw => hw)
    refine safe_seq (hcheck l w hw) fun v l w hv => ?_
    cases v with
    | some a => exact ⟨hv.1, hv.2 rfl⟩
    | none =>
      rw [Option.elim, safe_bind]
      refine (hcall .late rfl).safe hv.1 (fun passed l w hw => ?_) (fun _ _ _ hw => hw)
      split_ifs
      · exact htimedOut l w hw
      · rw [safe_bind]
        exact (hcall .sleep rfl).safe hw (fun _ l w hw => ih hw) (fun _ _ _ hw => hw)

theorem maintains_forwardTo : Maintains T P i J (forwardTo site row) := by
  refine (hcall (.progress _ _) rfl).bind fun _ => ?_
  refine (maintains_waitFor hcall (hcall (.findLb row.id) rfl) _).bind fun address => ?_
  refine (hcall (.progress _ _) rfl).bind fun _ => (hcall (.defaultNetwork row.id) rfl).bind fun _ => ?_
  exact hcall (.ensureForward row.id address) rfl

theorem maintains_placementNow : Maintains T P i J (placementNow row) :=
  (hcall (.selectPlacement _ _) rfl).bind fun _ => Maintains.bind (.assign _) fun _ => .pure _

theorem maintains_waitForPlacement {project cluster : String} :
    Maintains T P i J (waitForPlacement site row project cluster) := by
  refine (maintains_placementNow hcall).bind fun there => ?_
  cases there with
  | some u => exact .pure u
  | none =>
    exact (hcall (.progress _ _) rfl).bind fun _ =>
      maintains_waitFor hcall (maintains_placementNow hcall) _

theorem maintains_controlPlaneNow : Maintains T P i J (controlPlaneNow row) :=
  (hcall (.getCluster row.id) rfl).bind fun _ => Maintains.bind (.assign _) fun _ => .pure _

theorem maintains_clusterThere : Maintains T P i J (clusterThere row) :=
  (hcall (.getCluster row.id) rfl).bind fun _ => .pure _

theorem maintains_removePort : Maintains T P i J (removePort row) :=
  (hcall (.progress _ _) rfl).bind fun _ => (hcall (.defaultNetwork row.id) rfl).bind fun _ =>
    hcall (.removeForward row.id) rfl

theorem maintains_retarget : Maintains T P i J (retarget row) := by
  refine (hcall (.clientFor _) rfl).bind fun _ => (hcall (.findLb row.id) rfl).bind fun lb => ?_
  cases lb with
  | none => exact .pure ()
  | some address =>
    exact (hcall (.defaultNetwork row.id) rfl).bind fun _ => hcall (.ensureForward row.id address) rfl

end Idle

end IncusCloud.Kubernetes
