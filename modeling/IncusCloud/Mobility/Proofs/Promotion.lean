import IncusCloud.Lib.Run
import IncusCloud.Mobility.Replication

/-!
# After a failover

A replication run reads the tag of the target once, and then transfers for a long time. A failover
takes the tag off in between, and the transfer goes on over the promoted instance. Where no
failover promotes while a run is between that read and its end, the first promotion leaves a target
without tags and no run that could still write to it, and that stays.
-/

namespace IncusCloud.Mobility

open Lib Option

variable {s s' : Replication} {i k : ℕ}

def RunPhase.engaged : RunPhase → Bool
  | checked _ => true
  | ready _ => true
  | transferring _ => true
  | transferred _ => true
  | deleting => true
  | _ => false

def FailoverPhase.past : FailoverPhase → Bool
  | starting _ => true
  | _ => false

namespace Replication

/-- No failover promotes while a replication run is between its read of the target and its end. -/
def PromotesAlone (s : Replication) (a : RepAction) : Prop :=
  match a with
  | .put _ _ => ∀ r ∈ s.runs, r.phase.engaged = false
  | _ => True

instance (s : Replication) (a : RepAction) : Decidable (PromotesAlone s a) := by
  unfold PromotesAlone
  split
  · exact inferInstance
  · exact inferInstance

/-- Neither a policy nor a job has the instance. -/
def Released (target : Option Instance) : Prop :=
  ∃ t, target = some t ∧ t.tag tagReplicaOf = none ∧ t.tag tagJob = none

/-- A promoted instance is released, and no run is about to write to it. -/
structure Safe (s : Replication) : Prop where
  overwritten : s.overwritten = false
  past : ∀ f ∈ s.failovers, f.phase.past = true → s.promoted = true
  released : s.promoted = true → Released s.target
  quiet : s.promoted = true → ∀ r ∈ s.runs, r.phase.engaged = false

theorem released_promote (t replica : Instance) (key : String) :
    Released (some { t with config := promote key replica }) := by
  refine ⟨_, rfl, ?_, ?_⟩
  · simp [Instance.tag, promote, OrdMap.get_set, OrdMap.get_erase, tagReplicaOf, tagJob,
      tagPromotedFrom]
  · simp [Instance.tag, promote, OrdMap.get_set, OrdMap.get_erase, tagJob, tagPromotedFrom]

theorem Safe.putRun (h : Safe s) (i : ℕ) (r : Replicate) (phase : RunPhase)
    (hp : s.promoted = true → phase.engaged = false) : Safe (s.putRun i r phase) := by
  refine ⟨h.overwritten, h.past, h.released, fun hpro x hx => ?_⟩
  rcases List.mem_or_eq_of_mem_set hx with hx | rfl
  · exact h.quiet hpro x hx
  · exact hp hpro

theorem Safe.putFailover (h : Safe s) (k : ℕ) (f : Failover)
    (phase : FailoverPhase) (hp : phase.past = true → s.promoted = true) :
    Safe (s.putFailover k f phase) := by
  refine ⟨h.overwritten, fun x hx hpast => ?_, h.released, h.quiet⟩
  rcases List.mem_or_eq_of_mem_set hx with hx | rfl
  · exact h.past x hx hpast
  · exact hp hpast

theorem Safe.setTarget (h : Safe s) (hp : s.promoted = false)
    (target : Option Instance) : Safe { s with target := target } :=
  ⟨h.overwritten, h.past, fun hpro => absurd (hp.symm.trans hpro) (by simp),
    fun hpro => absurd (hp.symm.trans hpro) (by simp)⟩

theorem Safe.not_promoted (h : Safe s) {i : ℕ} {r : Replicate}
    (hr : s.runs[i]? = some r) (he : r.phase.engaged = true) : s.promoted = false := by
  cases hpro : s.promoted with
  | false => rfl
  | true =>
    have hq := h.quiet hpro r (List.mem_of_getElem? hr)
    rw [he] at hq
    cases hq

theorem Safe.goOn (h : Safe s) {i : ℕ} {r : Replicate}
    (hr : s.runs[i]? = some r) (he : r.phase.engaged = true) (phase : RunPhase) :
    Safe (s.putRun i r phase) := by
  refine h.putRun i r phase fun hpro => ?_
  rw [h.not_promoted hr he] at hpro
  cases hpro

theorem Safe.afterFailure (h : Safe s) (i : ℕ) (r : Replicate) (existing : Bool) :
    Safe (s.putRun i r (afterFailure existing)) := by
  refine h.putRun i r _ fun _ => ?_
  cases existing <;> rfl

theorem Safe.read (hs : Safe s) (h : s.step (.read i) = some s') : Safe s' := by
  unfold Replication.step at h
  dsimp only at h
  split at h
  · rename_i job hr
    split at h
    · rename_i htarget
      obtain rfl := some.inj h
      refine hs.putRun i _ _ fun hpro => ?_
      obtain ⟨t, ht, -⟩ := hs.released hpro
      rw [htarget] at ht
      cases ht
    · rename_i t htarget
      split_ifs at h with htag
      · obtain rfl := some.inj h
        -- The tag is there, so nothing is promoted yet.
        refine hs.putRun i _ _ fun hpro => ?_
        obtain ⟨t', ht', hnone, -⟩ := hs.released hpro
        rw [htarget] at ht'
        obtain rfl := some.inj ht'
        rw [hnone] at htag
        cases htag
      · obtain rfl := some.inj h
        exact hs.putRun i _ _ fun _ => rfl
  · cases h

theorem Safe.accept {type : InstanceType} {config : OrdMap String String} (hs : Safe s)
    (h : s.step (.accept i type config) = some s') : Safe s' := by
  unfold Replication.step at h
  dsimp only at h
  split at h
  · rename_i job hr
    split_ifs at h
    obtain rfl := some.inj h
    exact hs.goOn hr rfl _
  · rename_i job hr
    split_ifs at h
    obtain rfl := some.inj h
    exact (hs.goOn hr rfl _).setTarget (hs.not_promoted hr rfl) _
  · cases h

theorem Safe.fail {removed : Bool} (hs : Safe s)
    (h : s.step (.fail i removed) = some s') : Safe s' := by
  unfold Replication.step at h
  dsimp only at h
  split at h
  · obtain rfl := some.inj h
    exact hs.putRun i _ _ fun _ => rfl
  · obtain rfl := some.inj h
    exact hs.afterFailure i _ _
  · obtain rfl := some.inj h
    exact hs.afterFailure i _ _
  · rename_i job refresh hr
    obtain rfl := some.inj h
    exact (hs.afterFailure i _ _).setTarget (hs.not_promoted hr rfl) _
  · obtain rfl := some.inj h
    exact hs.afterFailure i _ _
  · obtain rfl := some.inj h
    exact hs.putRun i _ _ fun _ => rfl
  · cases h

theorem Safe.readLeft (hs : Safe s) (h : s.step (.readLeft i) = some s') : Safe s' := by
  unfold Replication.step at h
  dsimp only at h
  split at h
  · split_ifs at h with hleft
    · obtain rfl := some.inj h
      refine hs.putRun i _ _ fun hpro => ?_
      obtain ⟨t, ht, -, hnone⟩ := hs.released hpro
      simp [ht, hnone] at hleft
    · obtain rfl := some.inj h
      exact hs.putRun i _ _ fun _ => rfl
  · cases h

theorem Safe.start {ok : Bool} (hs : Safe s) (h : s.step (.start k ok) = some s') : Safe s' := by
  unfold Replication.step at h
  dsimp only at h
  split at h
  · rename_i stop replica hf
    have hpro := hs.past _ (List.mem_of_getElem? hf) rfl
    split at h
    · obtain rfl := some.inj h
      exact hs.putFailover k _ _ fun _ => hpro
    · obtain ⟨t, ht, rfl⟩ := map_eq_some_iff.mp h
      obtain ⟨t', ht', hrep, hjob⟩ := hs.released hpro
      rw [ht] at ht'
      obtain rfl := some.inj ht'
      exact ⟨hs.overwritten, fun _ _ _ => rfl, fun _ => ⟨_, rfl, hrep, hjob⟩,
        fun _ => hs.quiet hpro⟩
  · cases h

theorem Safe.step {a : RepAction} (hs : Safe s) (hok : PromotesAlone s a)
    (h : s.step a = some s') : Safe s' := by
  cases a with
  | replicate job =>
    obtain rfl := some.inj h
    refine ⟨hs.overwritten, hs.past, hs.released, fun hpro r hr => ?_⟩
    rcases List.mem_append.mp hr with hr | hr
    · exact hs.quiet hpro r hr
    · rw [List.mem_singleton.mp hr]
      rfl
  | read i => exact hs.read h
  | preflight i =>
    unfold Replication.step at h
    dsimp only at h
    split at h
    · rename_i job existing hr
      obtain rfl := some.inj h
      exact hs.goOn hr rfl _
    · cases h
  | accept i type config => exact hs.accept h
  | write i =>
    unfold Replication.step at h
    dsimp only at h
    split at h
    · rename_i job refresh hr
      split_ifs at h
      obtain rfl := some.inj h
      refine ⟨?_, hs.past, hs.released, hs.quiet⟩
      have hno := hs.not_promoted hr rfl
      simp [hs.overwritten, hno]
    · cases h
  | arrive i =>
    unfold Replication.step at h
    dsimp only at h
    split at h
    · rename_i job refresh hr
      obtain rfl := some.inj h
      exact hs.goOn hr rfl _
    · cases h
  | succeed i =>
    unfold Replication.step at h
    dsimp only at h
    split at h
    · obtain rfl := some.inj h
      exact hs.putRun i _ _ fun _ => rfl
    · cases h
  | fail i removed => exact hs.fail h
  | readLeft i => exact hs.readLeft h
  | deleteLeft i took =>
    unfold Replication.step at h
    dsimp only at h
    split at h
    · rename_i job hr
      obtain rfl := some.inj h
      exact (hs.putRun i _ _ fun _ => rfl).setTarget (hs.not_promoted hr rfl) _
    · cases h
  | failover stopSource =>
    obtain rfl := some.inj h
    refine ⟨hs.overwritten, fun f hf hpast => ?_, hs.released, hs.quiet⟩
    rcases List.mem_append.mp hf with hf | hf
    · exact hs.past f hf hpast
    · rw [List.mem_singleton.mp hf] at hpast
      cases hpast
  | load k =>
    unfold Replication.step at h
    dsimp only at h
    split at h
    · obtain rfl := some.inj h
      refine hs.putFailover k _ _ fun hpast => ?_
      split_ifs at hpast <;> cases hpast
    · cases h
  | readReplica k =>
    unfold Replication.step at h
    dsimp only at h
    split at h
    · split at h
      · obtain rfl := some.inj h
        refine hs.putFailover k _ _ fun hpast => ?_
        split_ifs at hpast <;> cases hpast
      · obtain rfl := some.inj h
        exact hs.putFailover k _ _ (nomatch ·)
    · obtain rfl := some.inj h
      exact hs.putFailover k _ _ (nomatch ·)
    · cases h
  | stopSource k took =>
    unfold Replication.step at h
    dsimp only at h
    split at h
    · rename_i stop t hf
      obtain rfl := some.inj h
      have hput := hs.putFailover k ⟨stop, .stoppingSource t⟩ (.promoting t) (nomatch ·)
      exact ⟨hput.overwritten, hput.past, hput.released, hput.quiet⟩
    · cases h
  | put k ok =>
    unfold Replication.step at h
    dsimp only at h
    split at h
    · obtain rfl := some.inj h
      exact ⟨hs.overwritten, fun _ _ _ => rfl, fun _ => released_promote _ _ _, fun _ => hok⟩
    · cases h
  | start k ok => exact hs.start h
  | record k =>
    unfold Replication.step at h
    dsimp only at h
    split at h
    · rename_i stop hf
      obtain rfl := some.inj h
      have hput := hs.putFailover k ⟨stop, .recording⟩ .ended (nomatch ·)
      exact ⟨hput.overwritten, hput.past, hput.released, hput.quiet⟩
    · cases h
  | failFailover k =>
    obtain ⟨f, hf, rfl⟩ := map_eq_some_iff.mp h
    exact hs.putFailover k _ _ (nomatch ·)

def start (policy : Policy) (source target : Option Instance) : Replication :=
  ⟨policy, source, target, [], [], false, false⟩

/-- In every run in which no failover promotes while a replication run is between its read of the
target and its end, no transfer with `refresh: true` writes to a target a failover has changed. -/
theorem promoted_never_overwritten {policy : Policy} {source target : Option Instance}
    {s : Replication} (h : Run step PromotesAlone (start policy source target) s) :
    s.overwritten = false := by
  have hstart : Safe (start policy source target) := ⟨rfl, nofun, nofun, nofun⟩
  exact (h.invariant hstart fun t a u ht hok hs => ht.step hok hs).overwritten

def replica : Instance := ⟨.container, .stopped, false, [(tagReplicaOf, "p")]⟩

/-- A run refreshes the replica, a failover promotes it, and the next run leaves it alone. -/
theorem promoted_never_overwritten_refused :
    ∃ s, Run step PromotesAlone (start ⟨"p", "c/acme/web", .active, true⟩ none (some replica)) s ∧
      s.promoted = true ∧ s.runs.map (·.phase) = [.ended, .ended] ∧ s.overwritten = false := by
  have hexec : ((Run.exec step PromotesAlone
      (start ⟨"p", "c/acme/web", .active, true⟩ none (some replica))
      [.replicate "1", .read 0, .preflight 0, .accept 0 .container [], .write 0, .arrive 0,
        .succeed 0, .failover false, .load 0, .readReplica 0, .put 0 true, .start 0 true, .record 0,
        .replicate "2", .read 1]).map fun s => (s.promoted, s.runs.map (·.phase))) =
      some (true, [.ended, .ended]) := by decide
  obtain ⟨s, hs, hshown⟩ := map_eq_some_iff.mp hexec
  have hrun := Run.of_exec .refl hs
  exact ⟨s, hrun, (Prod.mk.inj hshown).1, (Prod.mk.inj hshown).2, promoted_never_overwritten hrun⟩

/-- A run has read the tag; a failover takes it off; then the run transfers. -/
theorem refresh_overwrites_promoted :
    ¬ ∀ (policy : Policy) (source target : Option Instance) (s : Replication),
      Run step (fun _ _ => True) (start policy source target) s → s.overwritten = false := by
  intro h
  have hexec : ((Run.exec step (fun _ _ => True)
      (start ⟨"p", "c/acme/web", .active, true⟩ none (some replica))
      [.replicate "1", .read 0, .failover false, .load 0, .readReplica 0, .put 0 true, .preflight 0,
        .accept 0 .container [], .write 0]).map (·.overwritten)) = some true := by decide
  obtain ⟨s, hs, hover⟩ := map_eq_some_iff.mp hexec
  have hno := h _ _ _ s (Run.of_exec .refl hs)
  rw [hover] at hno
  cases hno

end Replication

end IncusCloud.Mobility
