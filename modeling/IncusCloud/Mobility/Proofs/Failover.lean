import IncusCloud.Mobility.Failover

/-!
# Finishing a failover that failed

A failover that fails before its `PUT` takes effect leaves the replica as it was, and the next one
does it all; one that fails once the policy's row is updated has nothing left to do. One that fails
in between leaves an instance without the tag and a policy that is active, and every later failover
refuses it.
-/

namespace IncusCloud.Mobility.FailoverJob

open Lib Handler Option
open Handler (wp Met)
open List (replicate)

def Call.isPut : Call → Bool
  | put _ => true
  | _ => false

def Call.isUpdate : Call → Bool
  | updatePolicy _ _ _ => true
  | _ => false

def PutTook (log : List Entry) : Prop := ∃ e ∈ log, e.call.isPut = true ∧ e.took = true

def UpdateTook (log : List Entry) : Prop := ∃ e ∈ log, e.call.isUpdate = true ∧ e.took = true

def Served (log : List Entry) : Prop := ∀ e ∈ log, e.failed = true → e.call.onSource = true

instance (log : List Entry) : Decidable (PutTook log) :=
  inferInstanceAs (Decidable (∃ e ∈ log, e.call.isPut = true ∧ e.took = true))

instance (log : List Entry) : Decidable (UpdateTook log) :=
  inferInstanceAs (Decidable (∃ e ∈ log, e.call.isUpdate = true ∧ e.took = true))

instance (log : List Entry) : Decidable (Served log) :=
  inferInstanceAs (Decidable (∀ e ∈ log, e.failed = true → e.call.onSource = true))

def Finished (w : Sites) : Prop :=
  (∃ i, w.target = some i ∧ i.status = .running ∧ i.tag tagReplicaOf = none) ∧
    ∃ p, w.policy = some p ∧ p.state = .failedOver ∧ p.enabled = false

/-! ### Where a failover is -/

structure Fresh (p : PolicyRow) (replica : Instance) (w : Sites) : Prop where
  policy : w.policy = some p
  target : w.target = some replica
  put : ¬ PutTook w.log
  update : ¬ UpdateTook w.log

/-- The replica is promoted, and the policy not yet told. -/
structure Half (p : PolicyRow) (status : Status) (w : Sites) : Prop where
  policy : w.policy = some p
  target : ∃ i, w.target = some i ∧ i.status = status ∧ i.tag tagReplicaOf = none
  put : PutTook w.log
  update : ¬ UpdateTook w.log

structure Done (w : Sites) : Prop where
  finished : Finished w
  update : UpdateTook w.log

inductive Ended (p : PolicyRow) (replica : Instance) (w : Sites) : Prop
  | fresh (h : Fresh p replica w) (failed : ¬ Served w.log)
  | half (status : Status) (h : Half p status w) (failed : ¬ Served w.log)
  | done (h : Done w)

section Entries

variable {w : Sites} {e : Entry} {p : PolicyRow} {replica : Instance} {status : Status}

theorem putTook_enter : PutTook (w.enter e).log ↔ (e.call.isPut = true ∧ e.took = true) ∨
    PutTook w.log :=
  List.exists_mem_cons_iff _ _ _

theorem updateTook_enter : UpdateTook (w.enter e).log ↔ (e.call.isUpdate = true ∧ e.took = true) ∨
    UpdateTook w.log :=
  List.exists_mem_cons_iff _ _ _

theorem not_served_enter (hfailed : e.failed = true) (hside : e.call.onSource = false) :
    ¬ Served (w.enter e).log := by
  intro h
  have hsource := h e List.mem_cons_self hfailed
  rw [hside] at hsource
  cases hsource

theorem Fresh.enter (h : Fresh p replica w) (hput : e.call.isPut = true → e.took = false)
    (hupdate : e.call.isUpdate = true → e.took = false) : Fresh p replica (w.enter e) := by
  refine ⟨h.policy, h.target, ?_, ?_⟩
  · rw [putTook_enter]
    rintro (⟨hp, ht⟩ | hold)
    · rw [hput hp] at ht
      cases ht
    · exact h.put hold
  · rw [updateTook_enter]
    rintro (⟨hu, ht⟩ | hold)
    · rw [hupdate hu] at ht
      cases ht
    · exact h.update hold

theorem Half.enter (h : Half p status w) (hupdate : e.call.isUpdate = true → e.took = false) :
    Half p status (w.enter e) := by
  refine ⟨h.policy, h.target, putTook_enter.mpr (.inr h.put), ?_⟩
  rw [updateTook_enter]
  rintro (⟨hu, ht⟩ | hold)
  · rw [hupdate hu] at ht
    cases ht
  · exact h.update hold

theorem Done.enter (h : Done w) : Done (w.enter e) :=
    ⟨h.finished, updateTook_enter.mpr (.inr h.update)⟩

end Entries

/-! ### Calls -/

section Calls

variable {I : Sites → Prop} {l : Warnings} {w : Sites}

theorem met_reply {α : Type} {Q : α → Sites → Prop} {E : Error → Sites → Prop} {c : Call}
    {o : Outcome} {a : α}
    {w' : Sites} (hok : Q a (w'.enter ⟨c, false, true⟩))
    (hfail : ∀ message, E (.failed message) (w.enter ⟨c, true, false⟩))
    (hlate : ∀ message, E (.failed message) (w'.enter ⟨c, true, true⟩)) :
    Met (fun _ => True) Q E (w.reply c o (some (a, w'))) := by
  unfold Sites.reply
  refine ⟨trivial, ?_⟩
  cases o.error with
  | none => exact hok
  | some message =>
    split_ifs
    · exact hlate message
    · exact hfail message

theorem wp_silent {c : Call} {a : c.Answer} {Q : c.Answer → Warnings → Sites → Prop}
    {E : Error → Warnings → Sites → Prop} (hc : ∀ o, answer c w o = w.reply c o (some (a, w)))
    (hok : Q a l (w.enter ⟨c, false, true⟩))
    (hfail : ∀ message took, E (.failed message) l (w.enter ⟨c, true, took⟩)) :
    wp world (fun _ => True) Q E (Handler.call c) l w := by
  refine (wp_call c l w).mpr fun o => ?_
  show Met _ _ _ (answer c w o)
  rw [hc]
  exact met_reply hok (fun message => hfail message false) (fun message => hfail message true)

theorem wp_effect {c : Call} {a : c.Answer} {w' : Sites} {Q : c.Answer → Warnings → Sites → Prop}
    {E : Error → Warnings → Sites → Prop} (hc : ∀ o, answer c w o = w.reply c o (some (a, w')))
    (hok : Q a l (w'.enter ⟨c, false, true⟩))
    (hfail : ∀ message, E (.failed message) l (w.enter ⟨c, true, false⟩))
    (hlate : ∀ message, E (.failed message) l (w'.enter ⟨c, true, true⟩)) :
    wp world (fun _ => True) Q E (Handler.call c) l w := by
  refine (wp_call c l w).mpr fun o => ?_
  show Met _ _ _ (answer c w o)
  rw [hc]
  exact met_reply hok hfail hlate

end Calls

/-! ### A failover of a replica -/

section Replica

variable {p : PolicyRow} {replica : Instance} {l : Warnings} {w : Sites}

theorem answer_stop (w : Sites) (o : Outcome) :
    ∃ e source, (answer .stop w o).2 = Sites.enter { w with source := source } e ∧
      e.call = .stop := by
  show ∃ e source, (w.reply .stop o (w.stop.map fun w' => ((), w'))).2 = _ ∧ _
  unfold Sites.reply Sites.stop
  cases hsource : w.source with
  | none => exact ⟨_, w.source, rfl, rfl⟩
  | some i =>
    dsimp only [map_some]
    by_cases hstopped : i.status = .stopped
    · rw [if_pos hstopped]
      cases o.error with
      | none => exact ⟨_, w.source, rfl, rfl⟩
      | some message =>
        split_ifs
        · exact ⟨_, w.source, rfl, rfl⟩
        · exact ⟨_, w.source, rfl, rfl⟩
    · rw [if_neg hstopped]
      cases o.error with
      | none => exact ⟨_, i.stopped, rfl, rfl⟩
      | some message =>
        split_ifs
        · exact ⟨_, i.stopped, rfl, rfl⟩
        · exact ⟨_, w.source, rfl, rfl⟩

theorem Fresh.stop (h : Fresh p replica w) (o : Outcome) :
    Fresh p replica (answer .stop w o).2 := by
  obtain ⟨e, source, hw, he⟩ := answer_stop w o
  rw [hw]
  have hsource : Fresh p replica { w with source := source } :=
    ⟨h.policy, h.target, h.put, h.update⟩
  apply hsource.enter
  · rw [he]
    nofun
  · rw [he]
    nofun

theorem fresh_stopOriginal (h : Fresh p replica w) :
    wp world (fun _ => True) (fun _ _ => Fresh p replica)
      (fun _ _ => Ended p replica) stopOriginal l w := by
  unfold stopOriginal
  rw [wp_bind]
  refine wp_silent (c := Call.progress _) (fun _ => rfl) ?_ fun message took => ?_
  · rw [wp_tryCatch, wp_bind]
    have hprogress := h.enter (e := ⟨.progress "stopping the source", false, true⟩) nofun nofun
    refine wp_silent (c := Call.clientFor _) (fun _ => rfl) ?_ fun message took =>
      hprogress.enter nofun nofun
    have hclient := hprogress.enter (e := ⟨.clientFor .source, false, true⟩) nofun nofun
    rw [wp_bind]
    refine wp_silent (c := Call.readInstance _) (fun _ => rfl) ?_ fun message took =>
      hclient.enter nofun nofun
    have hread := hclient.enter (e := ⟨.readInstance .source, false, true⟩) nofun nofun
    rw [wp_when]
    split_ifs
    · refine (wp_call Call.stop l _).mpr fun o => ?_
      exact .of_forall trivial (fun _ => hread.stop o) fun _ => hread.stop o
    · exact hread
  · exact .fresh (h.enter nofun nofun) (not_served_enter rfl rfl)

theorem tag_promote (key : String) (replica : Instance) (i : Instance) :
    ({ i with config := promote key replica } : Instance).tag tagReplicaOf = none := by
  have hne : tagReplicaOf ≠ tagPromotedFrom := by decide
  have hjob : tagReplicaOf ≠ tagJob := by decide
  unfold Instance.tag promote
  rw [OrdMap.get_set, if_neg hne, OrdMap.get_erase, if_neg hjob, OrdMap.get_erase, if_pos rfl]

variable {Q : Unit → Warnings → Sites → Prop}

theorem wp_put {key : String} (h : Fresh p replica w)
    (hQ : ∀ w', Half p replica.status w' → Q () l w') :
    wp world (fun _ => True) Q (fun _ _ => Ended p replica) (put (promote key replica)) l w := by
  have hput : w.put (promote key replica) =
      some { w with target := some { replica with config := promote key replica } } := by
    unfold Sites.put
    rw [h.target]
    rfl
  have htook : ∀ failed, Half p replica.status
      (Sites.enter { w with target := some { replica with config := promote key replica } }
        ⟨.put (promote key replica), failed, true⟩) := by
    intro failed
    refine ⟨h.policy, ⟨_, rfl, rfl, tag_promote key replica replica⟩,
      putTook_enter.mpr (.inl ⟨rfl, rfl⟩), ?_⟩
    rw [updateTook_enter]
    rintro (⟨hu, -⟩ | hold)
    · cases hu
    · exact h.update hold
  have hanswer : ∀ o, answer (.put (promote key replica)) w o =
    w.reply (.put (promote key replica)) o
      (some ((), { w with target := some { replica with config := promote key replica } })) := by
    intro o
    show w.reply _ o ((w.put _).map _) = _
    rw [hput]
    rfl
  refine wp_effect (c := Call.put _) hanswer (hQ _ (htook false)) (fun message => ?_) fun message =>
    ?_
  · exact .fresh (h.enter (fun _ => rfl) nofun) (not_served_enter rfl rfl)
  · exact .half _ (htook true) (not_served_enter rfl rfl)

theorem wp_start {status : Status} (h : Half p status w)
    (hQ : ∀ w', Half p .running w' → Q () l w') :
    wp world (fun _ => True) Q (fun _ _ => Ended p replica) start l w := by
  obtain ⟨i, hi, -, htag⟩ := h.target
  obtain ⟨w', hstart, hw'⟩ : ∃ w', w.start = some w' ∧ Half p .running w' := by
    unfold Sites.start
    rw [hi, map_some]
    by_cases hrunning : i.status = .running
    · rw [if_pos hrunning]
      exact ⟨w, rfl, h.policy, ⟨i, hi, hrunning, htag⟩, h.put, h.update⟩
    · rw [if_neg hrunning]
      exact ⟨_, rfl, h.policy, ⟨i.started, rfl, rfl, htag⟩, h.put, h.update⟩
  have hanswer : ∀ o, answer .start w o = w.reply .start o (some ((), w')) := by
    intro o
    show w.reply _ o (w.start.map _) = _
    rw [hstart]
    rfl
  refine wp_effect (c := Call.start) hanswer (hQ _ (hw'.enter nofun))
    (fun message => ?_) fun message => ?_
  · exact .half _ (h.enter nofun) (not_served_enter rfl rfl)
  · exact .half _ (hw'.enter nofun) (not_served_enter rfl rfl)

theorem wp_update (h : Half p .running w) (hQ : ∀ w', Done w' → Q () l w') :
    wp world (fun _ => True) Q (fun _ _ => Ended p replica)
      (updatePolicy p.id .failedOver false) l w := by
  obtain ⟨i, hi, hrunning, htag⟩ := h.target
  have hpolicy : (w.update p.id .failedOver false).policy = some { p with state := .failedOver, enabled := false } := by
    show w.policy.map _ = _
    rw [h.policy, map_some, if_pos rfl]
  have htook : ∀ failed,
      Done (Sites.enter (w.update p.id .failedOver false)
        ⟨.updatePolicy p.id .failedOver false, failed, true⟩) :=
    fun failed =>
      ⟨⟨⟨i, hi, hrunning, htag⟩, ⟨_, hpolicy, rfl, rfl⟩⟩, updateTook_enter.mpr (.inl ⟨rfl, rfl⟩)⟩
  refine wp_effect (c := Call.updatePolicy _ _ _) (fun _ => rfl) (hQ _ (htook false))
    (fun message => ?_)
    fun message => .done (htook true)
  exact .half _ (h.enter (fun _ => rfl)) (not_served_enter rfl rfl)

theorem ended_promoteReplica (h : Fresh p replica w) :
    wp world (fun _ => True) (fun _ _ => Ended p replica) (fun _ _ => Ended p replica)
      (promoteReplica p replica) l
      w := by
  have hrecord : ∀ w', Half p .running w' →
      wp world (fun _ => True) (fun _ _ => Ended p replica) (fun _ _ => Ended p replica)
        (do
          updatePolicy p.id .failedOver false
          refreshInventory [p.sourceClusterId, p.targetClusterId]
          let warnings ← Handler.locals
          pure (⟨p.targetClusterId, p.targetProject, p.targetName, warnings⟩ : Result)) l w' := by
    intro w' hw'
    rw [wp_bind]
    refine wp_update hw' fun w'' hdone => ?_
    rw [wp_bind]
    refine wp_silent (c := Call.refreshInventory _) (fun _ => rfl) ?_ fun message took =>
      .done hdone.enter
    exact .done hdone.enter
  unfold promoteReplica
  rw [wp_bind]
  refine wp_silent (c := Call.progress _) (fun _ => rfl) ?_ fun message took => ?_
  · rw [wp_bind]
    refine wp_put (h.enter nofun nofun) fun w₁ hput => ?_
    rw [wp_bind]
    refine wp_silent (c := Call.progress _) (fun _ => rfl) ?_ fun message took => ?_
    · have hstarting := hput.enter (e := ⟨.progress "starting the replica", false, true⟩) nofun
      rw [wp_bind, wp_when]
      split_ifs with hstatus
      · exact wp_start hstarting hrecord
      · -- It was running when it was read.
        have hrunning : replica.status = .running := by simpa using hstatus
        rw [hrunning] at hstarting
        exact hrecord _ hstarting
    · exact .half _ (hput.enter nofun) (not_served_enter rfl rfl)
  · exact .fresh (h.enter nofun nofun) (not_served_enter rfl rfl)

theorem ended_failoverHandler {stopSource : Bool} (h : Fresh p replica w)
    (hactive : p.state = .active)
    (htag : replica.tag tagReplicaOf = some p.id) :
    wp world (fun _ => True) (fun _ _ => Ended p replica) (fun _ _ => Ended p replica)
      (failoverHandler ⟨p.id, stopSource⟩) l w := by
  have hrow : w.policy.filter (fun q => q.id = p.id) = some p := by
    rw [h.policy]
    simp
  unfold failoverHandler loadPolicy
  rw [wp_bind, wp_bind]
  refine wp_silent (c := Call.selectPolicy _) (fun _ => rfl) ?_ fun message took => ?_
  · rw [hrow]
    rw [wp_pure, wp_bind, wp_when]
    have hloaded := h.enter (e := ⟨.selectPolicy p.id, false, true⟩) nofun nofun
    rw [if_neg (by simp [hactive]), wp_bind]
    refine wp_silent (c := Call.clientFor _) (fun _ => rfl) ?_ fun message took => ?_
    · have hclient := hloaded.enter (e := ⟨.clientFor .target, false, true⟩) nofun nofun
      rw [wp_bind]
      refine wp_silent (c := Call.readInstance _) (a := some replica)
        (fun o => ?_) ?_ fun message took => ?_
      · show Sites.reply _ _ o (some (Sites.target _, _)) = _
        rw [hclient.target]
        rfl
      · have hread := hclient.enter (e := ⟨.readInstance .target, false, true⟩) nofun nofun
        have hfilter : (some replica).filter (fun i => i.tag tagReplicaOf = some p.id) =
          some replica := by
          simp [htag]
        rw [hfilter]
        rw [wp_bind, wp_when]
        split_ifs
        · exact wp_mono (fun _ _ _ hstopped => ended_promoteReplica hstopped)
            (fun _ _ _ hended => hended)
            (fresh_stopOriginal hread)
        · exact ended_promoteReplica hread
      · exact .fresh (hclient.enter nofun nofun) (not_served_enter rfl rfl)
    · exact .fresh (hloaded.enter nofun nofun) (not_served_enter rfl rfl)
  · exact .fresh (h.enter nofun nofun) (not_served_enter rfl rfl)

end Replica

/-! ### A failover without a replica -/

def Same (w w' : Sites) : Prop := w'.policy = w.policy ∧ w'.target = w.target

variable {payload : Payload}

theorem same_failoverHandler {l : Warnings} {w : Sites}
    (h : ∀ p, w.policy = some p → p.state = .active → ∀ i, w.target = some i →
      i.tag tagReplicaOf ≠ some p.id) :
    wp world (fun _ => True) (fun _ _ => Same w) (fun _ _ => Same w)
      (failoverHandler payload) l w := by
  unfold failoverHandler loadPolicy
  rw [wp_bind, wp_bind]
  refine wp_silent (c := Call.selectPolicy _) (fun _ => rfl) ?_ fun message took => ⟨rfl, rfl⟩
  cases hrow : w.policy.filter fun p => p.id = payload.policyId with
  | none => exact ⟨rfl, rfl⟩
  | some p =>
    rw [wp_pure, wp_bind, wp_when]
    have hpolicy : w.policy = some p := (filter_eq_some_iff.mp hrow).1
    split_ifs with hstate
    · exact ⟨rfl, rfl⟩
    · have hactive : p.state = .active := by simpa using hstate
      rw [wp_bind]
      refine wp_silent (c := Call.clientFor _) (fun _ => rfl) ?_ fun message took => ⟨rfl, rfl⟩
      rw [wp_bind]
      refine wp_silent (c := Call.readInstance _) (a := w.target)
        (fun _ => rfl) ?_ fun message took => ⟨rfl, rfl⟩
      have hnone : w.target.filter (fun i => i.tag tagReplicaOf = some p.id) = none := by
        rw [filter_eq_none_iff]
        intro i hi
        simpa using h p hpolicy hactive i hi
      rw [hnone]
      exact ⟨rfl, rfl⟩

/-! ### One failover after another -/

/-- A run of `failoverHandler` from `w`, which is over: its calls, how it ended, and what it left. -/
def Ran (payload : Payload) (w : Sites) (os : List Outcome) (w' : Sites) : Prop :=
  ∃ r l, (failoverHandler payload []).result world { w with log := [] } os = some ((r, l), w')

theorem Ran.of_wp {w w' : Sites} {os : List Outcome} (h : Ran payload w os w') {A : Sites → Prop}
    (hwp : wp world (fun _ => True) (fun _ _ => A) (fun _ _ => A) (failoverHandler payload)
      [] { w with log := [] }) :
    A w' := by
  obtain ⟨r, l, hrun⟩ := h
  have hend := (wp_iff_result _ _ _).mp hwp os r l w' hrun
  cases r with
  | ok _ => exact hend
  | error _ => exact hend

/-- **A failover that failed can be finished, unless it failed in between**: after a failover of an
active policy's replica, however its calls went, a second one that meets no failing call on the
target cluster or the database leaves the instance running and untagged, and the policy failed over
and disabled, exactly where the first one has not put the replica without updating the policy. -/
theorem failover_finished_iff {p : PolicyRow} {replica : Instance} {w₀ w₁ w₂ : Sites}
    (hpolicy : w₀.policy = some p)
    (hactive : p.state = .active) (hreplica : w₀.target = some replica)
    (htag : replica.tag tagReplicaOf = some p.id) {stop₁ stop₂ : Bool} {os₁ os₂ : List Outcome}
    (hfirst : Ran ⟨p.id, stop₁⟩ w₀ os₁ w₁) (hsecond : Ran ⟨p.id, stop₂⟩ w₁ os₂ w₂)
    (hserved : Served w₂.log) :
    Finished w₂ ↔ (PutTook w₁.log → UpdateTook w₁.log) := by
  have hnone : ¬ PutTook [] ∧ ¬ UpdateTook [] := ⟨by decide, by decide⟩
  have hstart : Fresh p replica { w₀ with log := [] } := ⟨hpolicy, hreplica, hnone.1, hnone.2⟩
  have hended := hfirst.of_wp (ended_failoverHandler hstart hactive htag)
  cases hended with
  | fresh h _ =>
    -- The second does it all.
    have hagain : Fresh p replica { w₁ with log := [] } := ⟨h.policy, h.target, hnone.1, hnone.2⟩
    have hended := hsecond.of_wp (ended_failoverHandler hagain hactive htag)
    have hfinished : Finished w₂ := by
      cases hended with
      | fresh _ hfailed => exact absurd hserved hfailed
      | half _ _ hfailed => exact absurd hserved hfailed
      | done h => exact h.finished
    exact ⟨fun _ hput => absurd hput h.put, fun _ => hfinished⟩
  | half status h _ =>
    -- The second refuses what is no replica any more.
    obtain ⟨i, hi, -, huntagged⟩ := h.target
    have hrefused : ∀ q, w₁.policy = some q → q.state = .active → ∀ j, w₁.target = some j →
        j.tag tagReplicaOf ≠ some q.id := by
      intro q _ _ j hj hjtag
      rw [hi] at hj
      rw [← some.inj hj, huntagged] at hjtag
      cases hjtag
    obtain ⟨hsame, -⟩ := hsecond.of_wp (same_failoverHandler hrefused)
    constructor
    · rintro ⟨-, q, hq, hstate, -⟩
      rw [hsame] at hq
      rw [← some.inj (h.policy.symm.trans hq), hactive] at hstate
      cases hstate
    · exact fun himp => absurd (himp h.put) h.update
  | done h =>
    -- The second has nothing left to do.
    obtain ⟨⟨i, hi, hrunning, huntagged⟩, q, hq, hstate, henabled⟩ := h.finished
    have hrefused : ∀ q', w₁.policy = some q' → q'.state = .active → ∀ j, w₁.target = some j →
        j.tag tagReplicaOf ≠ some q'.id := by
      intro q' hq' hactive'
      rw [← some.inj (hq.symm.trans hq'), hstate] at hactive'
      cases hactive'
    obtain ⟨hsame, hsame'⟩ := hsecond.of_wp (same_failoverHandler hrefused)
    have hfinished : Finished w₂ :=
      ⟨⟨i, hsame'.trans hi, hrunning, huntagged⟩, q, hsame.trans hq, hstate, henabled⟩
    exact ⟨fun _ _ => h.update, fun _ => hfinished⟩

def webPolicy : PolicyRow := ⟨"p", "a", "acme", "web", "b", "acme", "web-dr", .active, true⟩

def webSites : Sites where
  policy := some webPolicy
  source := none
  target := some ⟨.container, .stopped, false, [(tagReplicaOf, "p")]⟩
  log := []

def fine : Outcome := ⟨none, false⟩

def lost : Outcome := ⟨some "connection lost", false⟩

def left (payload : Payload) (w : Sites) (os : List Outcome) : Option Sites :=
  ((failoverHandler payload []).result world { w with log := [] } os).map (·.2)

theorem ran_of_left {w w' : Sites} {os : List Outcome} (h : left payload w os = some w') :
    Ran payload w os w' := by
  obtain ⟨⟨⟨r, l⟩, v⟩, hrun, rfl⟩ := map_eq_some_iff.mp h
  exact ⟨r, l, hrun⟩

/-- The `PUT` is lost; the second failover finishes. -/
theorem failover_finished_iff_web :
    ∃ w₁ w₂, Ran ⟨"p", false⟩ webSites (replicate 4 fine ++ [lost]) w₁ ∧
      Ran ⟨"p", true⟩ w₁ (replicate 12 fine) w₂ ∧ Finished w₂ := by
  have hshown : ((left ⟨"p", false⟩ webSites (replicate 4 fine ++ [lost])).bind fun w₁ =>
      (left ⟨"p", true⟩ w₁ (replicate 12 fine)).map fun w₂ =>
        (decide (PutTook w₁.log), decide (Served w₂.log))) = some (false, true) := by decide
  obtain ⟨w₁, hfirst, hrest⟩ := bind_eq_some_iff.mp hshown
  obtain ⟨w₂, hsecond, hdecided⟩ := map_eq_some_iff.mp hrest
  simp only [Prod.mk.injEq, decide_eq_true_eq, decide_eq_false_iff_not] at hdecided
  have hfinished :=
    (failover_finished_iff (p := webPolicy) (show webSites.policy = _ from rfl) rfl rfl (by decide)
    (ran_of_left hfirst) (ran_of_left hsecond) hdecided.2).mpr fun hput => absurd hput hdecided.1
  exact ⟨w₁, w₂, ran_of_left hfirst, ran_of_left hsecond, hfinished⟩

/-- The start is lost: no later failover finds a replica, and the policy stays active. -/
theorem failover_stuck :
    ∃ w₁ w₂, Ran ⟨"p", false⟩ webSites (replicate 6 fine ++ [lost]) w₁ ∧
      Ran ⟨"p", false⟩ w₁ (replicate 3 fine) w₂ ∧ Served w₂.log ∧ ¬ Finished w₂ := by
  have hshown : ((left ⟨"p", false⟩ webSites (replicate 6 fine ++ [lost])).bind fun w₁ =>
      (left ⟨"p", false⟩ w₁ (replicate 3 fine)).map fun w₂ =>
        (decide (Served w₂.log), w₂.policy.map (·.state))) = some (true, some .active) := by decide
  obtain ⟨w₁, hfirst, hrest⟩ := bind_eq_some_iff.mp hshown
  obtain ⟨w₂, hsecond, hdecided⟩ := map_eq_some_iff.mp hrest
  simp only [Prod.mk.injEq, decide_eq_true_eq] at hdecided
  refine ⟨w₁, w₂, ran_of_left hfirst, ran_of_left hsecond, hdecided.1, ?_⟩
  rintro ⟨-, p, hp, hstate, -⟩
  rw [hp, map_some, hstate] at hdecided
  cases hdecided.2

end IncusCloud.Mobility.FailoverJob
