import IncusCloud.Balancing.Jobs
import IncusCloud.Balancing.Proofs.Legal

/-!
# How a rebalance ends

An instance the job stopped is started again, however the calls go (`Rebalancing.StartedAgain`).
That it runs where it was moved to, and that the inventory is refreshed, holds of the runs whose
calls are `Undisturbed`: a start whose failure is swallowed leaves a moved instance stopped, and an
error out of the loop skips the refresh.

`Frame` is what a call about one instance leaves of the others; `Going` is the invariant of the
loop.
-/

namespace IncusCloud.Balancing

open Lib Handler List
open Option (some.inj some.injEq)
open Handler (wp wp_mono Keeps Steady)
open Mobility (StateAction)
open OrdMap (get_set)

/-! ### A clean end -/

def RebalanceCall.ref : RebalanceCall → Option InstanceRef
  | setState ref _ => some ref
  | post mv _ => some mv.ref
  | waitOp mv => some mv.ref
  | _ => none

/-- It goes wrong where the job does not make up for it: a start after a move that went well, and
what ends the loop after an instance was moved. -/
def CallRecord.disturbs (r : CallRecord) (before : List CallRecord) : Bool :=
  match r.call with
  | .setState _ .start => !r.took && before.head?.any (!·.failed)
  | .readInstance _ => r.failed && before.any (·.relocated)
  | .throwIfAborted => r.failed && before.any (·.relocated)
  | _ => false

def Undisturbed : List CallRecord → Prop
  | [] => True
  | r :: before => r.disturbs before = false ∧ Undisturbed before

instance decidableUndisturbed : ∀ log : List CallRecord, Decidable (Undisturbed log)
  | [] => .isTrue trivial
  | _ :: before => @instDecidableAnd _ _ _ (decidableUndisturbed before)

theorem Undisturbed.before {later before : List CallRecord} (h : Undisturbed (later ++ before)) :
    Undisturbed before := by
  induction later with
  | nil => exact h
  | cons r later ih => exact ih h.2

namespace Rebalancing

def acts (w : Rebalancing) (ref : InstanceRef) : List CallRecord := w.log.filter fun r =>
    r.call.ref = some ref

def AskedLast (w : Rebalancing) (ref : InstanceRef) : Prop :=
  (w.acts ref).head?.map (·.call) = some (.setState ref .start)

def StartedAgain (w : Rebalancing) (ref : InstanceRef) : Prop :=
  (∃ r ∈ w.acts ref, r.took = true ∧ r.call = .setState ref .stop) → w.AskedLast ref

variable {ref : InstanceRef}

theorem AskedLast.startedAgain {w : Rebalancing} (h : w.AskedLast ref) : w.StartedAgain ref :=
  fun _ => h

def relocated (w : Rebalancing) : Bool := w.log.any (·.relocated)

def RunsOn (w : Rebalancing) (ref : InstanceRef) (member : String) : Prop :=
  ∃ h, w.instances.get ref = some h ∧ h.location = member ∧ h.state.status = .running

def Moved (w w' : Rebalancing) (moves : List MoveOutcome) : Prop :=
  (∃ o ∈ moves, o.outcome = .moved) ∨
    ∃ ref h h', w.instances.get ref = some h ∧ w'.instances.get ref = some h' ∧
    h'.location ≠ h.location

end Rebalancing

/-- A rebalance that began in `w` has ended clean in `w'`. -/
structure EndsClean (w : Rebalancing) (moves : List MoveOutcome) (w' : Rebalancing) : Prop where
  startedAgain : ∀ ref, w'.StartedAgain ref
  running : ∀ o ∈ moves, o.outcome = .moved → ∀ member, w.RunsOn o.move.ref member →
    w'.RunsOn o.move.ref o.move.target
  refreshed : w.Moved w' moves → .refreshInventory ∈ w'.log.map (·.call)

/-! ### The calls -/

section Calls

variable {N : Type} {site : RebalanceSite N} {c : RebalanceCall} {w w' : Rebalancing} {o : CallGoes}
    {r : CallRecord}

/-- What one logged call did to the instances. -/
structure Entered (c : RebalanceCall) (w w' : Rebalancing) (r : CallRecord) : Prop where
  log : w'.log = r :: w.log
  call : r.call = c
  elsewhere : ∀ ref, c.ref ≠ some ref → w'.instances.get ref = w.instances.get ref
  located : ∀ ref h', w'.instances.get ref = some h' →
    ∃ h, w.instances.get ref = some h ∧ (r.relocated = false → h'.location = h.location)
  still : c.ref = none → r.relocated = false

theorem Entered.same (hr : r.call = c) (hrel : r.relocated = false) :
    Entered c w (w.enter o r w.instances) r :=
  ⟨rfl, hr, fun _ _ => rfl, fun _ h' hget => ⟨h', hget, fun _ => rfl⟩, fun _ => hrel⟩

variable {α : Type}

theorem entered_silent (a : α) : ∃ r, Entered c w (w.silent c o a).2 r := by
  unfold Rebalancing.silent
  cases o.error with
  | none => exact ⟨_, .same rfl rfl⟩
  | some message => exact ⟨_, .same rfl rfl⟩

theorem reply_cases (a : α) (ins : OrdMap InstanceRef Hosted) (relocated : Bool) :
    (∃ failed, (w.reply c o a ins relocated).2 = w.enter o ⟨c, failed, true, relocated⟩ ins) ∨
      (w.reply c o a ins relocated).2 = w.enter o ⟨c, true, false, false⟩ w.instances := by
  unfold Rebalancing.reply
  cases o.error with
  | none => exact .inl ⟨false, rfl⟩
  | some message =>
    split_ifs
    · exact .inl ⟨true, rfl⟩
    · exact .inr rfl

theorem entered_reply {a : α} {h : Hosted} {ins : OrdMap InstanceRef Hosted}
    {relocated : Bool} (hc : c.ref = some ref) (hget : w.instances.get ref = some h)
    (helse : ∀ ref', ref' ≠ ref → ins.get ref' = w.instances.get ref')
    (hloc : ∀ h', ins.get ref = some h' → relocated = false → h'.location = h.location) :
    ∃ r, Entered c w (w.reply c o a ins relocated).2 r := by
  have hentered : ∀ r : CallRecord, r.call = c → r.relocated = relocated →
    Entered c w (w.enter o r ins) r := by
    intro r hr hrel
    refine ⟨rfl, hr, fun ref' hne => helse ref' fun heq => hne (heq ▸ hc), fun ref' h' hget' => ?_,
      fun hno => ?_⟩
    by_cases heq : ref' = ref
    · subst heq
      exact ⟨h, hget, fun hno => hloc h' hget' (hrel ▸ hno)⟩
    · exact ⟨h', (helse ref' heq).symm.trans hget', fun _ => rfl⟩
    · exact nomatch hno.symm.trans hc
  rcases reply_cases (w := w) (c := c) (o := o) a ins relocated with ⟨failed, hreply⟩ | hreply
  · rw [hreply]
    exact ⟨_, hentered _ rfl rfl⟩
  · rw [hreply]
    exact ⟨_, .same rfl rfl⟩

theorem entered_found {go : Hosted → Except RebalanceError α × Rebalancing}
    (h : ∀ x, w.instances.get ref = some x → ∃ r, Entered c w (go x).2 r) :
    ∃ r, Entered c w (w.found c o ref go).2 r := by
  unfold Rebalancing.found
  cases hget : w.instances.get ref with
  | none => exact ⟨_, .same rfl rfl⟩
  | some x => exact h x hget

theorem get_inState_of_ne {ref ref' : InstanceRef} (hne : ref' ≠ ref) (h : Hosted)
    (action : StateAction) :
    (w.inState ref h action).get ref' = w.instances.get ref' := by
  cases action with
  | start => simp [Rebalancing.inState, get_set, hne]
  | stop =>
    unfold Rebalancing.inState
    split_ifs
    · rfl
    · cases h.state.stopped with
      | none => simp [OrdMap.get_erase, hne]
      | some i => simp [get_set, hne]

theorem location_inState {h h' : Hosted} {action : StateAction}
    (hget : w.instances.get ref = some h) (hget' : (w.inState ref h action).get ref = some h') :
    h'.location = h.location := by
  cases action with
  | start =>
    simp only [Rebalancing.inState, get_set, if_true, some.injEq] at hget'
    rw [← hget']
  | stop =>
    unfold Rebalancing.inState at hget'
    dsimp only at hget'
    split_ifs at hget' with hstopped
    · rw [hget] at hget'
      rw [some.inj hget']
    · cases hs : h.state.stopped with
      | none => simp [hs, OrdMap.get_erase] at hget'
      | some i =>
        simp only [hs, get_set, if_true, some.injEq] at hget'
        rw [← hget']

theorem exists_entered (site : RebalanceSite N) (c : RebalanceCall) (w : Rebalancing)
    (o : CallGoes) :
    ∃ r, Entered c w ((rebalanceWorld site).answer c w o).2 r := by
  have hmoved : ∀ (mv : Move) (h : Hosted) (ref : InstanceRef), ref ≠ mv.ref →
      (w.moved mv h).get ref = w.instances.get ref := by
    intro mv h ref hne
    simp [Rebalancing.moved, get_set, hne]
  cases c with
  | clientFor => exact entered_silent ()
  | policyOf => exact ⟨_, .same rfl rfl⟩
  | progress stage message => exact ⟨_, .same rfl rfl⟩
  | planCluster => exact entered_silent site.planned
  | throwIfAborted =>
    show ∃ r, Entered _ w (rebalanceAnswer site .throwIfAborted w o).2 r
    unfold rebalanceAnswer
    cases w.aborted.or o.cancelled with
    | none => exact ⟨_, .same rfl rfl⟩
    | some reason => exact ⟨_, .same rfl rfl⟩
  | isAborted => exact ⟨_, .same rfl rfl⟩
  | readInstance ref => exact entered_found fun h _ => entered_silent h
  | setState ref action =>
    refine entered_found fun h hget => entered_reply rfl hget (fun ref' hne => ?_) fun h' hget' _ =>
      ?_
    · exact get_inState_of_ne hne h action
    · exact location_inState hget hget'
  | post mv live =>
    refine entered_found fun h hget => ?_
    split_ifs
    · exact ⟨_, .same rfl rfl⟩
    · exact entered_reply rfl hget (hmoved mv h) fun _ _ hno => by cases hno
  | waitOp mv =>
    exact entered_found fun h hget =>
      entered_reply rfl hget (hmoved mv h) fun _ _ hno => by cases hno
  | refreshInventory => exact ⟨_, .same rfl rfl⟩
  | setPolicy succeeded lastError => exact ⟨_, .same rfl rfl⟩

theorem keeps_call {A : Rebalancing → Prop} (h : ∀ w w' r, A w → Entered c w w' r → A w') :
    Keeps (rebalanceWorld site) A (Handler.call c : Rebalance N (c.Answer N)) :=
  .call fun w o hw =>
    have ⟨r, hr⟩ := exists_entered site c w o
    h w _ r hw hr

/-- What calls about one instance at most leave of the others, and of the log. -/
structure Frame (ref : Option InstanceRef) (w w' : Rebalancing) : Prop where
  later : ∃ later, w'.log = later ++ w.log
  acts : ∀ ref', ref ≠ some ref' → w'.acts ref' = w.acts ref'
  instances : ∀ ref', ref ≠ some ref' → w'.instances.get ref' = w.instances.get ref'

theorem Frame.refl (ref : Option InstanceRef) (w : Rebalancing) : Frame ref w w :=
  ⟨⟨[], rfl⟩, fun _ _ => rfl, fun _ _ => rfl⟩

theorem Entered.acts_eq (h : Entered c w w' r) (hne : c.ref ≠ some ref) :
    w'.acts ref = w.acts ref := by
  have hskip : ¬ r.call.ref = some ref := by rwa [h.call]
  simp [Rebalancing.acts, h.log, hskip]

variable {ref : Option InstanceRef}

theorem Frame.enter {w₀ : Rebalancing} (hw : Frame ref w₀ w) (h : Entered c w w' r)
    (hc : ∀ ref', ref ≠ some ref' → c.ref ≠ some ref') : Frame ref w₀ w' := by
  obtain ⟨later, hlog⟩ := hw.later
  refine ⟨⟨r :: later, by rw [h.log, hlog, cons_append]⟩, fun ref' hne => ?_, fun ref' hne => ?_⟩
  · exact (h.acts_eq (hc ref' hne)).trans (hw.acts ref' hne)
  · exact (h.elsewhere ref' (hc ref' hne)).trans (hw.instances ref' hne)

theorem Frame.undisturbed (h : Frame ref w w') (hcalls : Undisturbed w'.log) :
    Undisturbed w.log := by
  obtain ⟨later, hlog⟩ := h.later
  exact (hlog ▸ hcalls).before

theorem Frame.relocated (h : Frame ref w w') (hw : w.relocated = true) : w'.relocated = true := by
  obtain ⟨later, hlog⟩ := h.later
  unfold Rebalancing.relocated at hw ⊢
  rw [hlog, any_append, hw, Bool.or_true]

theorem keeps_frame {w₀ : Rebalancing} (hc : ∀ ref', ref ≠ some ref' → c.ref ≠ some ref') :
    Keeps (rebalanceWorld site) (Frame ref w₀) (Handler.call c : Rebalance N (c.Answer N)) :=
  keeps_call fun _ _ _ hw h => hw.enter h hc

end Calls

/-! ### One move -/

section Move

variable {N : Type} {site : RebalanceSite N} {mv : Move} {live restart : Bool}
    {l : List MoveOutcome}
  {w w' : Rebalancing} {h : Hosted}

theorem keeps_moveOne {A : Rebalancing → Prop}
    (hcalls : ∀ c : RebalanceCall, (∀ ref, some mv.ref ≠ some ref → c.ref ≠ some ref) →
      Keeps (rebalanceWorld site) A (Handler.call c : Rebalance N (c.Answer N)))
      (wasRunning allowRestart : Bool) :
    Keeps (rebalanceWorld site) A (moveOne mv wasRunning allowRestart) := by
  have hread : Keeps (rebalanceWorld site) A (readInstance mv.ref) := hcalls _ fun _ _ hno =>
    nomatch hno
  have hagain : Keeps (rebalanceWorld site) A (startAgain mv.ref) :=
    .tryCatch (hcalls _ fun _ hne => hne) fun _ => .pure ()
  have hcarry : ∀ live restart, Keeps (rebalanceWorld site) A (carry mv live restart) := by
    intro live restart
    refine .bind (.when _ (hcalls _ fun _ hne => hne)) fun _ => ?_
    exact .bind (hcalls _ fun _ hne => hne) fun _ => .when _ (hcalls _ fun _ hne => hne)
  refine .bind hread fun now => ?_
  cases skipReason mv wasRunning allowRestart now with
  | some detail => exact .pure _
  | none =>
    refine .bind (.tryCatch (.bind (hcarry _ _) fun _ => .pure _) fun e =>
      .bind (.when _ hagain) fun _ => .pure _) ?_
    intro failure
    cases failure with
    | some message => exact .pure _
    | none =>
      refine .bind (.when _ hagain) fun _ => .bind hread fun after => ?_
      split_ifs
      · exact .pure _
      · exact .pure _

theorem steady_moveOne (mv : Move) (wasRunning allowRestart : Bool) :
    Steady (rebalanceWorld site)
    (moveOne mv wasRunning allowRestart : Rebalance N MoveOutcome) := by
  have hagain : Steady (rebalanceWorld site) (startAgain mv.ref : Rebalance N Unit) :=
    .tryCatch (.call _) fun _ => .pure ()
  have hcarry : ∀ live restart, Steady (rebalanceWorld site)
    (carry mv live restart : Rebalance N Unit) :=
    fun live restart => .bind (.when _ (.call _)) fun _ => .bind (.call _) fun _ =>
      .when _ (.call _)
  refine .bind (.call _) fun now => ?_
  cases skipReason mv wasRunning allowRestart now with
  | some detail => exact .pure _
  | none =>
    refine .bind (.tryCatch (.bind (hcarry _ _) fun _ => .pure _) fun e =>
      .bind (.when _ hagain) fun _ => .pure _) ?_
    intro failure
    cases failure with
    | some message => exact .pure _
    | none =>
      refine .bind (.when _ hagain) fun _ => .bind (.call _) fun after => ?_
      split_ifs
      · exact .pure _
      · exact .pure _

variable {E : RebalanceError → List MoveOutcome → Rebalancing → Prop}

theorem wp_readInstance {Q : Hosted → List MoveOutcome → Rebalancing → Prop}
    (hok : ∀ o h, w.instances.get ref = some h →
    Q h l (w.enter o ⟨.readInstance ref, false, true, false⟩ w.instances))
    (hfail : ∀ o message,
      E (.failed message) l (w.enter o ⟨.readInstance ref, true, false, false⟩ w.instances)) :
    wp (rebalanceWorld site) (fun _ => True) Q E (readInstance ref) l w := by
  refine (wp_call (R := RebalanceCall.Answer N) (.readInstance ref) l w).mpr fun o => ?_
  show Handler.Met _ _ _ (w.found (.readInstance ref) o ref fun h =>
    w.silent (.readInstance ref) o h)
  unfold Rebalancing.found
  cases hget : w.instances.get ref with
  | none => exact ⟨trivial, hfail o _⟩
  | some h =>
    unfold Rebalancing.silent
    cases o.error with
    | none => exact ⟨trivial, hok o h hget⟩
    | some message => exact ⟨trivial, hfail o message⟩

/-! #### It is started again -/

theorem wp_startAgain {Q : Unit → List MoveOutcome → Rebalancing → Prop}
    (hQ : ∀ o, Q () l (rebalanceAnswer site (.setState ref .start) w o).2) :
    wp (rebalanceWorld site) (fun _ => True) Q E (startAgain ref) l w := by
  unfold startAgain
  rw [wp_tryCatch]
  refine (wp_call (R := RebalanceCall.Answer N) (.setState ref .start) l w).mpr fun o => ?_
  exact .of_forall trivial (fun _ => hQ o) fun _ => hQ o

theorem askedLast_start (site : RebalanceSite N) (ref : InstanceRef) (w : Rebalancing)
    (o : CallGoes) :
    (rebalanceAnswer site (.setState ref .start) w o).2.AskedLast ref := by
  obtain ⟨r, hr⟩ := exists_entered site (.setState ref .start) w o
  have hacts : r.call.ref = some ref := hr.call ▸ rfl
  show ((((rebalanceWorld site).answer (.setState ref .start) w o).2.log.filter _).head?).map _ = _
  rw [hr.log, filter_cons, if_pos (decide_eq_true hacts), List.head?_cons, Option.map_some, hr.call]

theorem keeps_askedLast (ref ref' : InstanceRef) :
    Keeps (rebalanceWorld site) (·.AskedLast ref') (readInstance ref : Rebalance N Hosted) :=
  keeps_call fun w w' r hw h => by
    unfold Rebalancing.AskedLast
    rw [h.acts_eq nofun]
    exact hw

def Rebalancing.NotStopped (w : Rebalancing) (ref : InstanceRef) : Prop :=
  ∀ r ∈ w.acts ref, r.call ≠ .setState ref .stop

variable {c : RebalanceCall}

theorem keeps_notStopped (hc : c ≠ .setState ref .stop) :
    Keeps (rebalanceWorld site) (·.NotStopped ref) (Handler.call c : Rebalance N (c.Answer N)) :=
  keeps_call fun w w' r hw h => by
    intro r' hr'
    unfold Rebalancing.acts at hr'
    rw [h.log, filter_cons] at hr'
    split_ifs at hr'
    · rcases mem_cons.mp hr' with rfl | hr'
      · rwa [h.call]
      · exact hw r' hr'
    · exact hw r' hr'

theorem Rebalancing.NotStopped.startedAgain (h : w.NotStopped ref) : w.StartedAgain ref :=
  fun ⟨r, hr, _, hcall⟩ => absurd hcall (h r hr)

theorem wp_moveAs_startedAgain (hfresh : w.acts mv.ref = []) :
    wp (rebalanceWorld site) (fun _ => True) (fun _ _ w' => w'.StartedAgain mv.ref)
      (fun _ _ w' => w'.StartedAgain mv.ref) (moveAs mv live restart) l w := by
  cases restart with
  | false =>
    have hkeeps :
        Keeps (rebalanceWorld site) (·.NotStopped mv.ref)
        (moveAs mv live false : Rebalance N MoveOutcome) := by
      have hcarry : Keeps (rebalanceWorld site) (·.NotStopped mv.ref)
        (carry mv live false : Rebalance N Unit) := by
        refine .bind (.pure ()) fun _ => ?_
        refine .bind (keeps_notStopped nofun) fun _ => ?_
        exact .when _ (keeps_notStopped nofun)
      refine .bind (.tryCatch (.bind hcarry fun _ => .pure _) fun e => .bind (.pure ()) fun _ =>
        .pure _) ?_
      intro failure
      cases failure with
      | some message => exact .pure _
      | none =>
        refine .bind (.pure ()) fun _ =>
          .bind (keeps_notStopped nofun) fun after => ?_
        split_ifs
        · exact .pure _
        · exact .pure _
    refine hkeeps.wp ?_ (fun _ _ _ hw => hw.startedAgain) fun _ _ _ hw => hw.startedAgain
    intro r hr
    rw [hfresh] at hr
    cases hr
  | true =>
    have hcarry : Keeps (rebalanceWorld site) (fun _ => True)
      (carry mv live true : Rebalance N Unit) :=
      .bind (.when _ (keeps_call fun _ _ _ _ _ => trivial)) fun _ =>
        .bind (keeps_call fun _ _ _ _ _ => trivial) fun _ =>
        .when _ (keeps_call fun _ _ _ _ _ => trivial)
    unfold moveAs
    rw [wp_bind, wp_tryCatch, wp_bind]
    refine hcarry.wp trivial (fun _ l' w' _ => ?_) fun e l' w' _ => ?_
    · simp only [wp_pure, wp_bind, wp_when, if_true]
      refine wp_startAgain fun o => ?_
      unfold confirm
      rw [wp_bind]
      have hasked := askedLast_start site mv.ref w' o
      refine (keeps_askedLast mv.ref mv.ref).wp hasked (fun after l'' w'' hasked => ?_)
        fun _ _ _ hasked => hasked.startedAgain
      split_ifs
      · exact hasked.startedAgain
      · exact hasked.startedAgain
    · simp only [wp_bind, wp_when, if_true]
      exact wp_startAgain fun o => (askedLast_start site mv.ref w' o).startedAgain

theorem wp_moveOne_startedAgain (hfresh : w.acts mv.ref = []) (wasRunning allowRestart : Bool) :
    wp (rebalanceWorld site) (fun _ => True) (fun _ _ w' => w'.StartedAgain mv.ref)
      (fun _ _ w' => w'.StartedAgain mv.ref) (moveOne mv wasRunning allowRestart) l w := by
  have hread : Keeps (rebalanceWorld site) (fun w => w.acts mv.ref = [])
    (readInstance mv.ref : Rebalance N Hosted) :=
    keeps_call fun _ _ _ hw h => (h.acts_eq nofun).trans hw
  have hnone : ∀ w : Rebalancing, w.acts mv.ref = [] → w.StartedAgain mv.ref := by
    rintro w hw ⟨r, hr, -⟩
    rw [hw] at hr
    cases hr
  unfold moveOne
  rw [wp_bind]
  refine hread.wp hfresh (fun now l' w' hfresh' => ?_) fun _ _ w' hfresh' => hnone w' hfresh'
  cases skipReason mv wasRunning allowRestart now with
  | some detail => exact hnone w' hfresh'
  | none => exact wp_moveAs_startedAgain hfresh'

/-! #### It runs where it was moved to -/

/-- Its move has just gone through; one that was not stopped for it is as it was. -/
structure Arrived (mv : Move) (restart : Bool) (h : Hosted) (w : Rebalancing) : Prop where
  there : ∃ h', w.instances.get mv.ref = some h' ∧ h'.location = mv.target ∧
    (restart = false → h'.state.status = h.state.status)
  last : ∃ r before, w.log = r :: before ∧ r.relocated = true ∧ r.failed = false

/-- It was moved, and where no call is disturbed it is there, and runs if it ran before. -/
structure Settled (mv : Move) (h : Hosted) (w : Rebalancing) : Prop where
  relocated : w.relocated = true
  there : Undisturbed w.log → ∃ h', w.instances.get mv.ref = some h' ∧ h'.location = mv.target ∧
    (h.state.status = .running → h'.state.status = .running)

/-- Where no call is disturbed, nothing was moved. -/
def Unmoved (w : Rebalancing) : Prop := Undisturbed w.log → w.relocated = false

theorem Settled.frame (hs : Settled mv h w) (hw : Frame ref w w') (hne : ref ≠ some mv.ref) :
    Settled mv h w' := by
  refine ⟨hw.relocated hs.relocated, fun hcalls => ?_⟩
  rw [hw.instances mv.ref hne]
  exact hs.there (hw.undisturbed hcalls)

theorem met_relocate {a : α} {o : CallGoes} {Q : α → Rebalancing → Prop}
    (hget : restart = false → w.instances.get mv.ref = some h)
    (hQ : ∀ w', Arrived mv restart h w' → Q a w') :
    Handler.Met (fun _ => True) Q (fun _ _ => True)
      (w.found c o mv.ref fun h' => w.reply c o a (w.moved mv h') true) := by
  unfold Rebalancing.found
  cases hget' : w.instances.get mv.ref with
  | none => exact ⟨trivial, trivial⟩
  | some h' =>
    unfold Rebalancing.reply
    cases o.error with
    | none =>
      refine ⟨trivial,
        hQ _ ⟨⟨{ h' with location := mv.target }, ?_, rfl, fun hno => ?_⟩, ⟨_, _, rfl, rfl, rfl⟩⟩⟩
      · exact (get_set _ _ _ _).trans (if_pos rfl)
      · rw [some.inj (hget'.symm.trans (hget hno))]
    | some message =>
      split_ifs
      · exact ⟨trivial, trivial⟩
      · exact ⟨trivial, trivial⟩

theorem wp_carry (hget : w.instances.get mv.ref = some h) :
    wp (rebalanceWorld site) (fun _ => True) (fun _ _ w' => Arrived mv restart h w')
    (fun _ _ _ => True) (carry mv live restart) l w := by
  have hpost : ∀ l w, (restart = false → w.instances.get mv.ref = some h) →
      wp (rebalanceWorld site) (fun _ => True)
        (fun operation =>
        wp (rebalanceWorld site) (fun _ => True) (fun _ _ w' => Arrived mv restart h w')
          (fun _ _ _ => True) (Handler.when operation (waitOp mv)))
        (fun _ _ _ => True) (post mv live) l w := by
    intro l w hget
    refine (wp_call (R := RebalanceCall.Answer N) (.post mv live) l w).mpr fun o => ?_
    show Handler.Met _ _ _ (rebalanceAnswer site (.post mv live) w o)
    by_cases hasync : o.error = none ∧ o.async = true
    · -- The operation is waited for.
      simp only [rebalanceAnswer, if_pos hasync]
      unfold Rebalancing.found
      cases hget' : w.instances.get mv.ref with
      | none => exact ⟨trivial, trivial⟩
      | some h' =>
        refine ⟨trivial, ?_⟩
        refine (wp_call (R := RebalanceCall.Answer N) (.waitOp mv) l _).mpr fun o' => ?_
        exact met_relocate hget fun _ harrived => harrived
    · simp only [rebalanceAnswer, if_neg hasync]
      exact met_relocate hget fun _ harrived => harrived
  unfold carry
  rw [wp_bind, wp_when]
  cases restart with
  | false => exact (wp_bind _ _ _ _).mpr (hpost l w fun _ => hget)
  | true =>
    refine (wp_call (R := RebalanceCall.Answer N) (.setState mv.ref .stop) l w).mpr fun o => ?_
    refine .of_forall trivial (fun _ => (wp_bind _ _ _ _).mpr ?_) fun _ => trivial
    exact hpost l _ nofun

theorem Arrived.start (ha : Arrived mv true h w) (site : RebalanceSite N) (o : CallGoes) :
    Settled mv h (rebalanceAnswer site (.setState mv.ref .start) w o).2 := by
  obtain ⟨⟨h', hget, hloc, -⟩, r, before, hlog, hrel, hok⟩ := ha
  have hmoved : ∀ r ins, (w.enter o r ins).relocated = true := by
    intro r ins
    simp [Rebalancing.relocated, Rebalancing.enter, hlog, hrel]
  show Settled mv h (w.found _ o mv.ref fun h => w.reply _ o () (w.inState mv.ref h .start) false).2
  simp only [Rebalancing.found, hget]
  rcases reply_cases (w := w) (c := .setState mv.ref .start) (o := o) ()
    (w.inState mv.ref h' .start) false with
    ⟨failed, hreply⟩ | hreply
  · rw [hreply]
    exact ⟨hmoved _ _, fun _ => ⟨_, (get_set _ _ _ _).trans (if_pos rfl), hloc, fun _ => rfl⟩⟩
  · rw [hreply]
    refine ⟨hmoved _ _, fun hcalls => ?_⟩
    have hno := hcalls.1
    simp [CallRecord.disturbs, hlog, hok] at hno

theorem wp_settle (ha : Arrived mv restart h w) :
    wp (rebalanceWorld site) (fun _ => True) (fun _ _ w' => Settled mv h w') E
      (Handler.when restart (startAgain mv.ref)) l w := by
  cases restart with
  | true => exact wp_startAgain fun o => ha.start site o
  | false =>
    obtain ⟨⟨h', hget, hloc, hstatus⟩, r, before, hlog, hrel, -⟩ := ha
    refine ⟨?_, fun _ => ⟨h', hget, hloc, fun hrunning => (hstatus rfl).trans hrunning⟩⟩
    simp [Rebalancing.relocated, hlog, hrel]

theorem unmoved_of_throw {o : CallGoes} {r : CallRecord} {ins : OrdMap InstanceRef Hosted}
    (hr : r.disturbs w.log = w.log.any (·.relocated)) (hrel : r.relocated = false) :
    Unmoved (w.enter o r ins) := by
  intro hcalls
  have hno := hr.symm.trans hcalls.1
  simp [Rebalancing.relocated, Rebalancing.enter, hrel, hno]

theorem wp_confirm_settled (hs : Settled mv h w) :
    wp (rebalanceWorld site) (fun _ => True)
      (fun (o : MoveOutcome) _ w' => o.move = mv ∧ (o.outcome = .moved → Settled mv h w'))
      (fun _ _ w' => Unmoved w') (confirm mv) l w := by
  unfold confirm
  rw [wp_bind]
  refine wp_readInstance (fun o after _ => ?_) fun o message => unmoved_of_throw rfl rfl
  have hsettled : Settled mv h (w.enter o ⟨.readInstance mv.ref, false, true, false⟩ w.instances) :=
    hs.frame ((Frame.refl none w).enter (.same rfl rfl) fun _ _ hno => nomatch hno) fun hno =>
    nomatch hno
  split_ifs
  · exact ⟨rfl, nofun⟩
  · exact ⟨rfl, fun _ => hsettled⟩

theorem wp_moveAs_settled (hget : w.instances.get mv.ref = some h) :
    wp (rebalanceWorld site) (fun _ => True)
      (fun (o : MoveOutcome) _ w' => o.move = mv ∧ (o.outcome = .moved → Settled mv h w'))
      (fun _ _ w' => Unmoved w') (moveAs mv live restart) l w := by
  unfold moveAs
  rw [wp_bind, wp_tryCatch, wp_bind]
  refine wp_mono (fun _ l' w' harrived => ?_) (fun e l' w' _ => ?_) (wp_carry hget)
  · simp only [wp_pure, wp_bind]
    exact wp_mono (fun _ _ _ hs => wp_confirm_settled hs) (fun _ _ _ hw => hw) (wp_settle harrived)
  · -- A move that failed is reported so.
    simp only [wp_bind]
    cases restart with
    | true => exact wp_startAgain fun o => ⟨rfl, fun hno => by cases hno⟩
    | false => exact ⟨rfl, fun hno => by cases hno⟩

theorem wp_moveOne_settled (wasRunning allowRestart : Bool) :
    wp (rebalanceWorld site) (fun _ => True)
      (fun (o : MoveOutcome) _ w' =>
        o.move = mv ∧ (o.outcome = .moved → ∃ h, w.instances.get mv.ref = some h ∧ Settled mv h w'))
      (fun _ _ w' => Unmoved w') (moveOne mv wasRunning allowRestart) l w := by
  unfold moveOne
  rw [wp_bind]
  refine wp_readInstance (fun o now hget => ?_) fun o message => unmoved_of_throw rfl rfl
  cases skipReason mv wasRunning allowRestart now with
  | some detail => exact ⟨rfl, nofun⟩
  | none =>
    refine wp_mono ?_ (fun _ _ _ hw => hw) (wp_moveAs_settled hget)
    rintro o l' w' ⟨hmove, hs⟩
    exact ⟨hmove, fun hmoved => ⟨now, hget, hs hmoved⟩⟩

end Move

/-! ### The loop -/

section Loop

variable {N : Type} {site : RebalanceSite N} {c : RebalanceCall} {r : CallRecord} {mv : Move}
    {rest : List Move}
  {l : List MoveOutcome} {w₀ w w' : Rebalancing}

/-- What a report says of the instances is so. -/
structure Reported (w₀ : Rebalancing) (l : List MoveOutcome) (w : Rebalancing) : Prop where
  startedAgain : ∀ ref, w.StartedAgain ref
  settled : ∀ o ∈ l, o.outcome = .moved → ∃ h, w₀.instances.get o.move.ref = some h ∧
    Settled o.move h w

/-- The invariant of the loop: the instances still to move are as they were at first. -/
structure Going (w₀ : Rebalancing) (rest : List Move) (l : List MoveOutcome) (w : Rebalancing) :
    Prop
    extends Reported w₀ l w where
  once : (rest.map Move.ref).Nodup
  done : ∀ o ∈ l, o.move.ref ∉ rest.map Move.ref
  fresh : ∀ ref ∈ rest.map Move.ref, w.acts ref = [] ∧ w.instances.get ref = w₀.instances.get ref
  idle : l = [] → w.relocated = false

theorem Rebalancing.StartedAgain.congr (h : w.StartedAgain ref) (hacts : w'.acts ref = w.acts ref) :
    w'.StartedAgain ref := by
  unfold Rebalancing.StartedAgain Rebalancing.AskedLast
  rw [hacts]
  exact h

theorem Reported.frame (h : Reported w₀ l w) (hw : Frame none w w') : Reported w₀ l w' := by
  refine ⟨fun ref => (h.startedAgain ref).congr (hw.acts ref nofun), fun o ho hmoved => ?_⟩
  obtain ⟨x, hget, hs⟩ := h.settled o ho hmoved
  exact ⟨x, hget, hs.frame hw nofun⟩

theorem Going.enter (h : Going w₀ rest l w) (hr : Entered c w w' r) (hc : c.ref = none) :
    Going w₀ rest l w' := by
  have hw : Frame none w w' := (Frame.refl none w).enter hr fun ref _ => by simp [hc]
  refine ⟨h.toReported.frame hw, h.once, h.done, fun ref href => ?_, fun hl => ?_⟩
  · rw [hw.acts ref nofun, hw.instances ref nofun]
    exact h.fresh ref href
  · unfold Rebalancing.relocated
    rw [hr.log, any_cons, hr.still hc, Bool.false_or]
    exact h.idle hl

theorem Going.next {o : MoveOutcome} (h : Going w₀ (mv :: rest) l w) (hw : Frame (some mv.ref) w w')
    (hasked : w'.StartedAgain mv.ref) (hmove : o.move = mv)
    (hs : o.outcome = .moved → ∃ x, w.instances.get mv.ref = some x ∧ Settled mv x w') :
    Going w₀ rest (l ++ [o]) w' := by
  have hnodup := nodup_cons.mp h.once
  have hother : ∀ ref ∈ rest.map Move.ref, some mv.ref ≠ some ref := by
    intro ref href heq
    exact hnodup.1 (some.inj heq ▸ href)
  refine ⟨⟨fun ref => ?_, fun o' ho' hmoved => ?_⟩, hnodup.2, fun o' ho' => ?_, fun ref href => ?_,
    fun hl => ?_⟩
  · by_cases heq : some mv.ref = some ref
    · exact some.inj heq ▸ hasked
    · exact (h.startedAgain ref).congr (hw.acts ref heq)
  · rcases mem_append.mp ho' with ho' | ho'
    · obtain ⟨x, hget, hsettled⟩ := h.settled o' ho' hmoved
      refine ⟨x, hget, hsettled.frame hw fun heq => h.done o' ho' ?_⟩
      exact mem_cons.mpr (.inl (some.inj heq).symm)
    · rw [mem_singleton.mp ho'] at hmoved ⊢
      obtain ⟨x, hget, hsettled⟩ := hs hmoved
      rw [hmove]
      exact ⟨x, ((h.fresh mv.ref mem_cons_self).2.symm.trans hget), hsettled⟩
  · rcases mem_append.mp ho' with ho' | ho'
    · exact fun hmem => h.done o' ho' (mem_cons_of_mem _ hmem)
    · rw [mem_singleton.mp ho', hmove]
      exact hnodup.1
  · rw [hw.acts ref (hother ref href), hw.instances ref (hother ref href)]
    exact h.fresh ref (mem_cons_of_mem _ href)
  · exact absurd hl (append_ne_nil_of_right_ne_nil l (cons_ne_nil o []))

theorem Going.thrown (h : Going w₀ (mv :: rest) l w) (hw : Frame (some mv.ref) w w')
    (hasked : w'.StartedAgain mv.ref) :
    Reported w₀ l w' := by
  refine ⟨fun ref => ?_, fun o ho hmoved => ?_⟩
  · by_cases heq : some mv.ref = some ref
    · exact some.inj heq ▸ hasked
    · exact (h.startedAgain ref).congr (hw.acts ref heq)
  · obtain ⟨x, hget, hs⟩ := h.settled o ho hmoved
    refine ⟨x, hget, hs.frame hw fun heq => h.done o ho ?_⟩
    exact mem_cons.mpr (.inl (some.inj heq).symm)

theorem wp_sure {a : c.Answer N} (hc : ∀ w o, rebalanceAnswer site c w o = w.sure c o a)
    {Q : c.Answer N → List MoveOutcome → Rebalancing → Prop}
    (hQ : ∀ o, Q a l (w.enter o ⟨c, false, true, false⟩ w.instances)) :
    wp (rebalanceWorld site)
      (fun _ => True) Q E (Handler.call c : Rebalance N (c.Answer N)) l w := by
  refine (wp_call (R := RebalanceCall.Answer N) c l w).mpr fun o => ?_
  show Handler.Met _ _ _ (rebalanceAnswer site c w o)
  rw [hc]
  exact ⟨trivial, hQ o⟩

theorem wp_throwIfAborted {Q : Unit → List MoveOutcome → Rebalancing → Prop}
    (hok : ∀ o, Q () l (w.enter o ⟨.throwIfAborted, false, true, false⟩ w.instances))
    (hfail : ∀ o reason,
      E (.aborted reason) l (w.enter o ⟨.throwIfAborted, true, false, false⟩ w.instances)) :
    wp (rebalanceWorld site) (fun _ => True) Q E throwIfAborted l w := by
  refine (wp_call (R := RebalanceCall.Answer N) .throwIfAborted l w).mpr fun o => ?_
  show Handler.Met _ _ _ (rebalanceAnswer site .throwIfAborted w o)
  unfold rebalanceAnswer
  cases w.aborted.or o.cancelled with
  | none => exact ⟨trivial, hok o⟩
  | some reason => exact ⟨trivial, hfail o reason⟩

/-- The moves are carried out one by one; if that ends early, what was reported is so, and where no
call is disturbed nothing was moved. -/
theorem wp_carryOut (planned : Planned N) (allowRestart : Bool) (rest : List Move)
    (h : Going w₀ rest l w) :
    wp (rebalanceWorld site) (fun _ => True) (fun _ l' w' => Going w₀ [] l' w')
      (fun _ l' w' => Reported w₀ l' w' ∧ Unmoved w') (carryOut planned allowRestart rest) l w := by
  induction rest generalizing l w with
  | nil => exact h
  | cons mv rest ih =>
    unfold carryOut
    rw [wp_bind]
    refine wp_throwIfAborted (fun o => ?_) fun o reason => ⟨?_, unmoved_of_throw rfl rfl⟩
    · rw [wp_bind]
      refine wp_sure (c := .progress _ _) (a := ()) (fun _ _ => rfl) fun o' => ?_
      rw [wp_bind]
      generalize hw' : Rebalancing.enter _ o' _ _ = w'
      have h' : Going w₀ (mv :: rest) l w' := by
        rw [← hw']
        exact (h.enter (.same rfl rfl) rfl).enter (.same rfl rfl) rfl
      -- What it does to its instance, to the others and to the report.
      have hfresh := (h'.fresh mv.ref mem_cons_self).1
      refine wp_mono ?_ ?_ <| wp_and (steady_moveOne mv _ _ l w') <|
        wp_and (keeps_moveOne (fun _ hc => keeps_frame hc) _ _ l w' (.refl _ w')) <|
          wp_and (wp_moveOne_startedAgain hfresh _ _) (wp_moveOne_settled _ allowRestart)
      · rintro out l'' w'' ⟨rfl, hframe, hasked, hmove, hs⟩
        rw [wp_bind]
        exact ih (h'.next hframe hasked hmove hs)
      · rintro e l'' w'' ⟨rfl, hframe, hasked, hunmoved⟩
        exact ⟨h'.thrown hframe hasked, hunmoved⟩
    · exact h.toReported.frame ((Frame.refl none w).enter (.same rfl rfl) fun _ _ hno =>
        nomatch hno)

end Loop

/-! ### The handler -/

section Handler

variable {N : Type} {site : RebalanceSite N} {c : RebalanceCall} {r : CallRecord}
    {l : List MoveOutcome}
  {w₀ w w' : Rebalancing}

/-- Nothing has been done to an instance. -/
structure Idle (w₀ w : Rebalancing) : Prop where
  instances : ∀ ref, w.instances.get ref = w₀.instances.get ref
  log : ∀ r ∈ w.log, r.call.ref = none ∧ r.relocated = false

/-- A report that is so, and an inventory that was refreshed after a move. -/
structure Clean (w₀ : Rebalancing) (l : List MoveOutcome) (w : Rebalancing) :
    Prop extends Reported w₀ l w where
  refreshed : Undisturbed w.log → w.relocated = true → .refreshInventory ∈ w.log.map (·.call)

theorem Idle.enter (h : Idle w₀ w) (hr : Entered c w w' r) (hc : c.ref = none) : Idle w₀ w' := by
  refine ⟨fun ref => (hr.elsewhere ref (by simp [hc])).trans (h.instances ref), fun r' hr' => ?_⟩
  rw [hr.log] at hr'
  rcases mem_cons.mp hr' with rfl | hr'
  · exact ⟨hr.call ▸ hc, hr.still hc⟩
  · exact h.log r' hr'

theorem Idle.unmoved (h : Idle w₀ w) : w.relocated = false := by
  unfold Rebalancing.relocated
  rw [any_eq_false]
  exact fun r hr => by simp [(h.log r hr).2]

theorem Idle.acts (h : Idle w₀ w) (ref : InstanceRef) : w.acts ref = [] :=
  filter_eq_nil_iff.mpr fun r hr => by simp [(h.log r hr).1]

theorem Idle.reported (h : Idle w₀ w) : Reported w₀ [] w := by
  refine ⟨fun ref => ?_, fun o ho => nomatch ho⟩
  rintro ⟨r, hr, -⟩
  rw [h.acts ref] at hr
  cases hr

theorem Idle.going (h : Idle w₀ w) {moves : List Move} (hmoves : (moves.map Move.ref).Nodup) :
    Going w₀ moves [] w :=
  ⟨h.reported, hmoves, fun _ ho => (nomatch ho), fun ref _ => ⟨h.acts ref, h.instances ref⟩,
    fun _ => h.unmoved⟩

theorem Idle.clean (h : Idle w₀ w) : Clean w₀ [] w :=
  ⟨h.reported, fun _ hrel => nomatch h.unmoved.symm.trans hrel⟩

theorem Clean.enter (h : Clean w₀ l w) (hr : Entered c w w' r) (hc : c.ref = none) :
    Clean w₀ l w' := by
  refine ⟨h.toReported.frame ((Frame.refl none w).enter hr fun ref _ => by simp [hc]),
    fun hcalls hrel => ?_⟩
  unfold Rebalancing.relocated at hrel
  rw [hr.log] at hcalls hrel ⊢
  rw [any_cons, hr.still hc, Bool.false_or] at hrel
  exact mem_cons_of_mem _ (h.refreshed hcalls.2 hrel)

theorem wp_entered {Q : c.Answer N → List MoveOutcome → Rebalancing → Prop}
    (hQ : ∀ w' r, Entered c w w' r → ∀ a, Q a l w')
    (hE : ∀ w' r, Entered c w w' r → ∀ e, E e l w') :
    wp (rebalanceWorld site)
      (fun _ => True) Q E (Handler.call c : Rebalance N (c.Answer N)) l w := by
  refine (wp_call (R := RebalanceCall.Answer N) c l w).mpr fun o => ?_
  obtain ⟨r, hr⟩ := exists_entered site c w o
  exact .of_forall trivial (hQ _ r hr) (hE _ r hr)

theorem wp_rebalance (hw : Idle w₀ w) :
    wp (rebalanceWorld site) (fun _ => True) (fun _ l' w' => Clean w₀ l' w')
    (fun _ l' w' => Clean w₀ l' w') rebalance [] w := by
  unfold rebalance
  rw [wp_bind]
  refine wp_entered (c := .clientFor) (fun w' r hr _ => ?_) fun w' r hr _ => (hw.enter hr rfl).clean
  have hw := hw.enter hr rfl
  rw [wp_bind]
  refine wp_entered (c := .policyOf) (fun w' r hr allowRestart => ?_) fun w' r hr _ =>
    (hw.enter hr rfl).clean
  have hw := hw.enter hr rfl
  rw [wp_bind]
  refine wp_entered (c := .progress _ _) (fun w' r hr _ => ?_) fun w' r hr _ =>
    (hw.enter hr rfl).clean
  have hw := hw.enter hr rfl
  rw [wp_bind]
  refine wp_entered (c := .planCluster) (fun w' r hr planned => ?_) fun w' r hr _ =>
    (hw.enter hr rfl).clean
  have hw := hw.enter hr rfl
  rw [wp_bind]
  refine wp_mono (fun _ moves w' hgoing => ?_) (fun e moves w' hend => ?_)
    (wp_carryOut planned allowRestart planned.plan.moves (hw.going planned.once))
  · -- It came to the end of the loop.
    rw [wp_bind, wp_locals, wp_bind, wp_when]
    have hend : ∀ w'', Clean w₀ moves w'' → wp (rebalanceWorld site) (fun _ => True)
      (fun _ l' w' => Clean w₀ l' w')
        (fun _ l' w' => Clean w₀ l' w')
        (do
          setPolicy true (clipped (failuresText moves))
          pure (⟨planned.plan.before, planned.plan.after, moves, planned.plan.notes⟩ :
            RebalanceResult N))
        moves w'' := by
      intro w'' hclean
      rw [wp_bind]
      exact wp_entered (c := .setPolicy _ _) (fun _ _ hr _ => hclean.enter hr rfl) fun _ _ hr _ =>
        hclean.enter hr rfl
    split_ifs with hmoves
    · refine wp_sure (c := .refreshInventory) (a := ()) (fun _ _ => rfl) fun o =>
        hend _ ⟨?_, fun _ _ => ?_⟩
      · exact hgoing.toReported.frame ((Frame.refl none w').enter (.same rfl rfl) fun _ _ hno =>
          nomatch hno)
      · exact mem_cons_self
    · have hnil : moves = [] := by simpa using hmoves
      exact hend w' ⟨hgoing.toReported, fun _ hrel => nomatch (hgoing.idle hnil).symm.trans hrel⟩
  · -- It ended early.
    exact ⟨hend.1, fun hcalls hrel => nomatch (hend.2 hcalls).symm.trans hrel⟩

theorem wp_rebalanceHandler (hw : Idle w₀ w) :
    wp (rebalanceWorld site) (fun _ => True) (fun _ l' w' => Clean w₀ l' w')
    (fun _ l' w' => Clean w₀ l' w') rebalanceHandler [] w := by
  unfold rebalanceHandler
  rw [wp_tryCatch]
  refine wp_mono (fun _ _ _ hclean => hclean) (fun e l' w' hclean => ?_) (wp_rebalance hw)
  rw [wp_bind]
  refine wp_entered (c := .isAborted) (fun w'' r hr aborted => ?_) fun _ _ hr _ =>
    hclean.enter hr rfl
  have hclean := hclean.enter hr rfl
  rw [wp_bind, wp_when]
  split_ifs
  · exact wp_entered (c := .setPolicy _ _) (fun _ _ hr _ => hclean.enter hr rfl) fun _ _ hr _ =>
      hclean.enter hr rfl
  · exact hclean

/-! #### Who was moved -/

def Located (w₀ w : Rebalancing) : Prop :=
  ∀ ref h', w.instances.get ref = some h' →
    ∃ h, w₀.instances.get ref = some h ∧ (w.relocated = false → h'.location = h.location)

theorem located_call (c : RebalanceCall) :
    Keeps (rebalanceWorld site) (Located w₀) (Handler.call c : Rebalance N (c.Answer N)) :=
  keeps_call fun w w' r hw hr => by
    intro ref h' hget'
    obtain ⟨h, hget, hloc⟩ := hr.located ref h' hget'
    obtain ⟨h₀, hget₀, hloc₀⟩ := hw ref h hget
    refine ⟨h₀, hget₀, fun hrel => ?_⟩
    unfold Rebalancing.relocated at hrel
    rw [hr.log, any_cons, Bool.or_eq_false_iff] at hrel
    exact (hloc hrel.1).trans (hloc₀ hrel.2)

theorem located_carryOut (planned : Planned N) (allowRestart : Bool) (rest : List Move) :
    Keeps (rebalanceWorld site) (Located w₀) (carryOut planned allowRestart rest) := by
  induction rest with
  | nil => exact .pure ()
  | cons mv rest ih =>
    refine .bind (located_call .throwIfAborted) fun _ =>
      .bind (located_call (.progress _ _)) fun _ => ?_
    exact .bind (keeps_moveOne (fun c _ => located_call c) _ _) fun o => .bind (.assign _) fun _ =>
      ih

theorem located_rebalanceHandler :
    Keeps (rebalanceWorld site) (Located w₀)
    (rebalanceHandler : Rebalance N (RebalanceResult N)) := by
  refine .tryCatch ?_ fun e => ?_
  · refine .bind (located_call .clientFor) fun _ =>
      .bind (located_call .policyOf) fun allowRestart => ?_
    refine .bind (located_call (.progress _ _)) fun _ =>
      .bind (located_call .planCluster) fun planned => ?_
    refine .bind (located_carryOut planned allowRestart _) fun _ => .bind .locals fun moves => ?_
    refine .bind (.when _ (located_call .refreshInventory)) fun _ =>
      .bind (located_call (.setPolicy _ _)) fun _ => ?_
    exact .pure _
  · refine .bind (located_call .isAborted) fun aborted => ?_
    exact .bind (.when _ (located_call (.setPolicy _ _))) fun _ => .throw e

/-! ### A rebalance ends clean -/

theorem Clean.endsClean (h : Clean w₀ l w) (hloc : Located w₀ w) (hcalls : Undisturbed w.log) :
    EndsClean w₀ l w := by
  refine ⟨h.startedAgain, fun o ho hmoved member hruns => ?_, fun hmoved => ?_⟩
  · obtain ⟨x, hget, hs⟩ := h.settled o ho hmoved
    obtain ⟨x', hget', -, hrunning⟩ := hruns
    obtain ⟨y, hgety, hlocy, hrun⟩ := hs.there hcalls
    rw [some.inj (hget.symm.trans hget')] at hrun
    exact ⟨y, hgety, hlocy, hrun hrunning⟩
  · refine h.refreshed hcalls ?_
    rcases hmoved with ⟨o, ho, hmoved⟩ | ⟨ref, x, x', hget, hget', hne⟩
    · obtain ⟨_, -, hs⟩ := h.settled o ho hmoved
      exact hs.relocated
    · by_contra hrel
      obtain ⟨y, hgety, hsame⟩ := hloc ref x' hget'
      rw [some.inj (hgety.symm.trans hget)] at hsame
      exact hne (hsame (Bool.eq_false_of_not_eq_true hrel))

def Rebalancing.before (instances : OrdMap InstanceRef Hosted) (aborted : Option String) :
    Rebalancing :=
  ⟨instances, aborted, []⟩

/-- However the calls go, every instance that was stopped is asked to start after all else; and a
run whose calls are undisturbed ends clean. -/
theorem rebalance_ends_clean (site : RebalanceSite N) (instances : OrdMap InstanceRef Hosted)
    (aborted : Option String)
    {os : List CallGoes} {ended : Except RebalanceError (RebalanceResult N)}
      {moves : List MoveOutcome}
    {w' : Rebalancing}
    (hrun : (rebalanceHandler []).result (rebalanceWorld site) (.before instances aborted) os =
      some ((ended, moves), w')) :
    (∀ ref, w'.StartedAgain ref) ∧
      (Undisturbed w'.log → EndsClean (.before instances aborted) moves w') := by
  have hidle : Idle (.before instances aborted) (.before instances aborted) :=
    ⟨fun _ => rfl, fun _ hr => nomatch hr⟩
  have hlocated : Located (.before instances aborted) (.before instances aborted) :=
    fun _ h' hget => ⟨h', hget, fun _ => rfl⟩
  have hend := (wp_iff_result _ _ _).mp (wp_and (wp_rebalanceHandler hidle)
    (located_rebalanceHandler [] (.before instances aborted) hlocated)) os ended moves w' hrun
  have hboth : Clean (.before instances aborted) moves w' ∧
    Located (.before instances aborted) w' := by
    cases ended with
    | ok a => exact hend
    | error e => exact hend
  exact ⟨hboth.1.startedAgain, hboth.1.endsClean hboth.2⟩

end Handler

def runningOnA : Hosted := ⟨"a", ⟨.container, .running, false, []⟩⟩

def clusterXY : OrdMap InstanceRef Hosted := [(("p", "x"), runningOnA), (("p", "y"), runningOnA)]

def siteXY : RebalanceSite ℕ where
  planned :=
    { plan := ⟨2, 0, [⟨"p", "x", "a", "b", .balance⟩, ⟨"p", "y", "a", "b", .balance⟩], []⟩
      running := [("p/x", true), ("p/y", true)]
      once := by decide }
  allowRestart := true

def goesWell : CallGoes := ⟨none, false, false, none⟩

def endOf (os : List CallGoes) :
    Option ((Except RebalanceError (RebalanceResult ℕ) × List MoveOutcome) × Rebalancing) :=
  (rebalanceHandler []).result (rebalanceWorld siteXY) (.before clusterXY none) os

/-- All calls go well. -/
theorem rebalance_ends_clean_twoMoves :
    ∃ ended moves w', endOf (List.replicate 20 goesWell) = some ((ended, moves), w') ∧
      EndsClean (.before clusterXY none) moves w' := by
  have hcalls : (endOf (List.replicate 20 goesWell)).any (fun x => Undisturbed x.2.log) =
    true := by decide
  cases hrun : endOf (List.replicate 20 goesWell) with
  | none => exact nomatch hrun ▸ hcalls
  | some x =>
    obtain ⟨⟨ended, moves⟩, w'⟩ := x
    rw [hrun] at hcalls
    exact ⟨ended, moves, w', rfl,
      (rebalance_ends_clean siteXY clusterXY none hrun).2 (of_decide_eq_true hcalls)⟩

def cancelledAfterMove : List CallGoes :=
  List.replicate 11 goesWell ++ [{ goesWell with cancelled := some "cancelled" }, goesWell]

def startFails : List CallGoes :=
  List.replicate 9 goesWell ++ { goesWell with error := some "timeout" } ::
  List.replicate 10 goesWell

/-- In the one nothing is refreshed; in the other the instance is reported as moved and stays
stopped. -/
theorem rebalance_does_not_end_clean :
    (∃ ended moves w', endOf cancelledAfterMove = some ((ended, moves), w') ∧
        ¬ EndsClean (.before clusterXY none) moves w') ∧
      ∃ ended moves w', endOf startFails = some ((ended, moves), w') ∧
        ¬ EndsClean (.before clusterXY none) moves w' := by
  constructor
  · have hend : (endOf cancelledAfterMove).any (fun x =>
        (∃ o ∈ x.1.2, o.outcome = .moved) ∧ .refreshInventory ∉ x.2.log.map (·.call)) =
        true := by decide
    cases hrun : endOf cancelledAfterMove with
    | none => exact nomatch hrun ▸ hend
    | some x =>
      obtain ⟨⟨ended, moves⟩, w'⟩ := x
      rw [hrun] at hend
      obtain ⟨hmoved, hrefresh⟩ := of_decide_eq_true hend
      exact ⟨ended, moves, w', rfl, fun hclean => hrefresh (hclean.refreshed (.inl hmoved))⟩
  · have hend : (endOf startFails).any (fun x =>
        (∃ o ∈ x.1.2, o.outcome = .moved ∧ o.move.ref = ("p", "x")) ∧
          (x.2.instances.get ("p", "x")).all (·.state.status = .stopped)) =
          true := by decide
    cases hrun : endOf startFails with
    | none => exact nomatch hrun ▸ hend
    | some x =>
      obtain ⟨⟨ended, moves⟩, w'⟩ := x
      rw [hrun] at hend
      obtain ⟨⟨o, ho, hmoved, href⟩, hstopped⟩ := of_decide_eq_true hend
      refine ⟨ended, moves, w', rfl, fun hclean => ?_⟩
      obtain ⟨h, hget, -, hrunning⟩ :=
        hclean.running o ho hmoved "a" ⟨runningOnA, href ▸ by decide, rfl, rfl⟩
      rw [href] at hget
      rw [hget] at hstopped
      exact nomatch (of_decide_eq_true hstopped).symm.trans hrunning

end IncusCloud.Balancing
