import IncusCloud.Lib.Slots
import IncusCloud.Leases.Leases

/-!
# A lease job acts on what the policy says

The action of a job is its tenant's when a pass selects the lease; the handler looks at the lease
again and not at the policy. `lease_job_follows_policy`: the lease it acts on has always ended, and
the action is the policy's along the runs in which, while a lease is selected or its job waits, the
lease stays with a tenant whose policy has that action.
-/

namespace IncusCloud.Leases

open Lib Acl Fleet List Option
open Function (update_self update_of_ne)

variable {s t : Leasing} {i j : ℕ} {job old : LeaseJob} {key : InstanceAt} {now : Int} {a : LeasingAction}

def LeasePass.nextHandedOut (p : LeasePass) : Option Unleased :=
  match p.phase with
  | .handingOut rest => rest.head?
  | _ => none

namespace Leasing

def pending (s : Leasing) : List (InstanceAt × LeaseAction) :=
  ((s.jobs.filter (·.waiting)).map fun j => (j.key, j.action)) ++
    s.passes.flatMap fun p => p.toQueue.map fun e => (e.key, e.action)

def Follows (s : Leasing) (tenant : Uuid) (action : LeaseAction) : Prop :=
  ∃ policy, s.policies tenant = some policy ∧ policy.action = action

instance (s : Leasing) (tenant : Uuid) (action : LeaseAction) : Decidable (s.Follows tenant action) :=
  inferInstanceAs (Decidable (∃ _, _ ∧ _))

def PendingFollows (s : Leasing) (key : InstanceAt) (tenant : Uuid) : Prop :=
  ∀ x ∈ s.pending, x.1 = key → s.Follows tenant x.2

instance (s : Leasing) (key : InstanceAt) (tenant : Uuid) : Decidable (s.PendingFollows key tenant) :=
  inferInstanceAs (Decidable (∀ x ∈ _, _))

/-- What keeps the action the policy's: while a lease is pending, its tenant's policy is not removed
and its action not changed, and the instance gets no lease of a tenant whose policy has another. -/
def ActionKept (s : Leasing) : LeasingAction → Prop
  | .setPolicy tenant policy => ∀ x ∈ s.pending, ∀ lease ∈ s.leases x.1, lease.tenantId = tenant →
      ∃ p, policy = some p ∧ p.action = x.2
  | .setLease key tenantId _ => s.PendingFollows key tenantId
  | .handOut i => ∀ p ∈ s.passes[i]?, ∀ u ∈ p.nextHandedOut, s.leases u.key = none →
      s.PendingFollows u.key u.tenantId
  | _ => True

theorem mem_pending {x : InstanceAt × LeaseAction} :
    x ∈ s.pending ↔ (∃ j ∈ s.jobs, j.waiting = true ∧ (j.key, j.action) = x) ∨
      ∃ p ∈ s.passes, ∃ e ∈ p.toQueue, (e.key, e.action) = x := by
  simp only [pending, mem_append, List.mem_map, mem_filter, mem_flatMap, and_assoc]

/-! ### What is pending has its tenant's action -/

def Agreed (s : Leasing) : Prop :=
  ∀ x ∈ s.pending, ∀ lease, s.leases x.1 = some lease → s.Follows lease.tenantId x.2

structure Quiet (s t : Leasing) : Prop where
  policies : t.policies = s.policies
  pending : t.pending ⊆ s.pending
  leases : ∀ k lease, t.leases k = some lease →
    ∃ old, s.leases k = some old ∧ old.tenantId = lease.tenantId

theorem Agreed.quiet (h : s.Agreed) (hq : Quiet s t) : t.Agreed := by
  intro x hx lease hlease
  obtain ⟨old, hold, htenant⟩ := hq.leases x.1 lease hlease
  have hfollows := h x (hq.pending hx) old hold
  rw [htenant] at hfollows
  unfold Follows at hfollows ⊢
  rw [hq.policies]
  exact hfollows

theorem setPass_pending {p : LeasePass} {phase : SchedulePhase}
    (hp : s.passes[i]? = some p)
    (hrest : ∀ e ∈ ({ p with phase := phase } : LeasePass).toQueue, e ∈ p.toQueue) :
    (s.setPass i p phase).pending ⊆ s.pending := by
  intro x hx
  rw [mem_pending] at hx ⊢
  rcases hx with hx | ⟨q, hq, e, he, rfl⟩
  · exact .inl hx
  · right
    rcases mem_or_eq_of_mem_set hq with hq | rfl
    · exact ⟨q, hq, e, he, rfl⟩
    · exact ⟨p, mem_of_getElem? hp, e, hrest e he, rfl⟩

theorem setJob_pending (hj : s.jobs[j]? = some old)
    (hjob : job.waiting = true → old.waiting = true ∧ job.key = old.key ∧ job.action = old.action) :
    (s.setJob j job).pending ⊆ s.pending := by
  intro x hx
  rw [mem_pending] at hx ⊢
  rcases hx with ⟨k, hk, hwaiting, rfl⟩ | hx
  · left
    rcases mem_or_eq_of_mem_set hk with hk | rfl
    · exact ⟨k, hk, hwaiting, rfl⟩
    · obtain ⟨hold, hkey, haction⟩ := hjob hwaiting
      exact ⟨old, mem_of_getElem? hj, hold, by rw [hkey, haction]⟩
  · exact .inr hx

theorem setLeaseRow_leases {row : Option InstanceLease}
    (hrow : ∀ lease, row = some lease →
      ∃ old, s.leases key = some old ∧ old.tenantId = lease.tenantId) :
    ∀ k lease, (s.setLeaseRow key row).leases k = some lease →
      ∃ old, s.leases k = some old ∧ old.tenantId = lease.tenantId := by
  intro k lease hlease
  by_cases hk : k = key
  · subst hk
    have hsame : (s.setLeaseRow k row).leases k = row := update_self ..
    exact hrow lease (hsame.symm.trans hlease)
  · have hother : (s.setLeaseRow key row).leases k = s.leases k := update_of_ne hk ..
    exact ⟨lease, hother.symm.trans hlease, rfl⟩

theorem same_leases : ∀ k lease, s.leases k = some lease →
    ∃ old, s.leases k = some old ∧ old.tenantId = lease.tenantId :=
  fun _ lease h => ⟨lease, h, rfl⟩

theorem onJob_cases {phase : LeaseJobPhase} {f : LeaseJob → Option Leasing}
    (h : s.onJob j phase f = some t) :
    ∃ job, s.jobs[j]? = some job ∧ job.phase = phase ∧ f job = some t := by
  unfold onJob at h
  split at h
  · rename_i job hjob
    split_ifs at h with hphase
    exact ⟨job, hjob, hphase, h⟩
  · cases h

theorem Quiet.trans {u : Leasing} (h : Quiet s t) (h' : Quiet t u) : Quiet s u := by
  refine ⟨h'.policies.trans h.policies, List.Subset.trans h'.pending h.pending, ?_⟩
  intro k lease hlease
  obtain ⟨mid, hmid, htenant⟩ := h'.leases k lease hlease
  obtain ⟨old, hold, htenant'⟩ := h.leases k mid hmid
  exact ⟨old, hold, htenant'.trans htenant⟩

theorem quiet_setLeaseRow {row : Option InstanceLease}
    (hrow : ∀ lease, row = some lease →
      ∃ old, s.leases key = some old ∧ old.tenantId = lease.tenantId) :
    Quiet s (s.setLeaseRow key row) :=
  ⟨rfl, List.Subset.refl _, setLeaseRow_leases hrow⟩

theorem mark_leases :
    ∀ k lease, (s.setLeaseRow key
        ((s.leases key).map fun lease => { lease with actedAt := some now })).leases k = some lease →
      ∃ old, s.leases k = some old ∧ old.tenantId = lease.tenantId := by
  refine setLeaseRow_leases fun lease hlease => ?_
  obtain ⟨old, hold, rfl⟩ := map_eq_some_iff.mp hlease
  exact ⟨old, hold, rfl⟩

theorem quiet_setPass {p : LeasePass} {phase : SchedulePhase}
    (hp : s.passes[i]? = some p)
    (hrest : ∀ e ∈ ({ p with phase := phase } : LeasePass).toQueue, e ∈ p.toQueue) :
    Quiet s (s.setPass i p phase) :=
  ⟨rfl, setPass_pending hp hrest, same_leases⟩

theorem quiet_updateLease (hs : s.step (.updateLease i now) = some t) : Quiet s t := by
  dsimp only [step] at hs
  obtain ⟨⟨key, policy, read⟩, -, rfl⟩ := map_eq_some_iff.mp hs
  have hquiet : Quiet s { s with extensions := s.extensions.eraseIdx i } :=
    ⟨rfl, List.Subset.refl _, same_leases⟩
  split
  · rename_i row hrow
    refine hquiet.trans (quiet_setLeaseRow ?_)
    intro lease hlease
    obtain rfl := some.inj hlease
    unfold Leases.updateLease at hrow
    split at hrow
    · rename_i old hold
      split_ifs at hrow
      obtain rfl := Except.ok.inj hrow
      exact ⟨old, hold, rfl⟩
    · cases hrow
  · exact hquiet

theorem quiet_enqueueJob {busy : Bool} (hs : s.step (.enqueueJob i busy) = some t) : Quiet s t := by
  dsimp only [step] at hs
  obtain ⟨p, hp, hs⟩ := bind_eq_some_iff.mp hs
  split at hs
  · rename_i e rest hphase
    have hqueue : p.toQueue = e :: rest := by
      unfold LeasePass.toQueue
      rw [hphase]
    have hrest : ∀ d ∈ rest, d ∈ p.toQueue := by
      intro d hd
      rw [hqueue]
      exact mem_cons_of_mem _ hd
    split_ifs at hs
    · obtain rfl := some.inj hs
      exact quiet_setPass hp hrest
    · obtain rfl := some.inj hs
      have hpass : (s.setPass i p (.marking e.key rest)).pending ⊆ s.pending :=
        setPass_pending hp hrest
      refine ⟨rfl, ?_, same_leases⟩
      intro x hx
      -- The new job takes the place of the selected lease it comes from.
      rcases mem_pending.mp hx with ⟨j, hj, hwaiting, rfl⟩ | hx
      · rcases mem_append.mp hj with hj | hj
        · exact mem_pending.mpr (.inl ⟨j, hj, hwaiting, rfl⟩)
        · obtain rfl := mem_singleton.mp hj
          refine mem_pending.mpr (.inr ⟨p, mem_of_getElem? hp, e, ?_, rfl⟩)
          rw [hqueue]
          exact mem_cons_self
      · exact hpass (mem_pending.mpr (.inr hx))
  · cases hs

theorem handlerRead_waiting : (s.handlerRead now job).waiting = false := by
  unfold handlerRead
  split
  · rfl
  · split
    · rfl
    · split_ifs
      · rfl
      · rfl

theorem handlerInstance_waiting : (s.handlerInstance job).waiting = false := by
  unfold handlerInstance
  split
  · rfl
  · rfl
  · rfl

/-! ### What a job does -/

/-- The job has read its lease and goes on, or has done something to the instance. -/
def Holding (job : LeaseJob) : Prop :=
  job.acted = true ∨ (job.waiting = false ∧ job.phase ≠ .ended)

structure Goes (old job : LeaseJob) : Prop where
  action : job.action = old.action
  seen : job.seen = old.seen
  holding : Holding job → Holding old

theorem goes_of_past {phase : LeaseJobPhase} (hphase : old.phase = phase)
    (hpast : phase ≠ .queued ∧ phase ≠ .launched ∧ phase ≠ .ended) (haction : job.action = old.action)
    (hseen : job.seen = old.seen) : Goes old job := by
  refine ⟨haction, hseen, fun _ => .inr ?_⟩
  unfold LeaseJob.waiting
  rw [hphase]
  exact ⟨by simp [hpast.1, hpast.2.1], hpast.2.2⟩

theorem goes_ended (old : LeaseJob) : Goes old { old with phase := .ended } := by
  refine ⟨rfl, rfl, ?_⟩
  rintro (hacted | ⟨-, hended⟩)
  · exact .inl hacted
  · exact absurd rfl hended

theorem goes_launched : Goes old { old with phase := .launched } := by
  refine ⟨rfl, rfl, ?_⟩
  rintro (hacted | ⟨hwaiting, -⟩)
  · exact .inl hacted
  · cases hwaiting

theorem goes_handlerInstance (hphase : old.phase = .due) : Goes old (s.handlerInstance old) := by
  unfold handlerInstance
  split
  · exact goes_of_past hphase ⟨nofun, nofun, nofun⟩ rfl rfl
  · exact goes_of_past hphase ⟨nofun, nofun, nofun⟩ rfl rfl
  · exact goes_of_past hphase ⟨nofun, nofun, nofun⟩ rfl rfl

def isJobStep : LeasingAction → Bool
  | .launch _ | .leaseOf _ _ | .readInstance _ | .stopInstance _ | .deleteInstance _ | .forgetLease _
  | .recordStop _ _ | .interrupt _ | .fail _ => true
  | _ => false

/-- What such a step leads to: one job goes on or reads its lease, and the leases there are stay
with their tenants. -/
structure JobStep (s t : Leasing) (j : ℕ) (old job : LeaseJob) : Prop where
  before : s.jobs[j]? = some old
  jobs : t.jobs = s.jobs.set j job
  passes : t.passes = s.passes
  policies : t.policies = s.policies
  leases : ∀ k lease, t.leases k = some lease →
    ∃ old, s.leases k = some old ∧ old.tenantId = lease.tenantId
  move : Goes old job ∨ old.phase = .launched ∧ ∃ now, job = s.handlerRead now old
  waiting : job.waiting = true → old.waiting = true ∧ job.key = old.key ∧ job.action = old.action

theorem step_job (hs : s.step a = some t)
    (ha : isJobStep a = true) : ∃ j old job, JobStep s t j old job := by
  cases a with
  | launch j =>
    obtain ⟨job, hjob, hphase, hs⟩ := onJob_cases hs
    obtain rfl := some.inj hs
    have hwaiting : job.waiting = true := by
      unfold LeaseJob.waiting
      rw [hphase]
      rfl
    exact ⟨j, job, _, hjob, rfl, rfl, rfl, same_leases, .inl goes_launched, fun _ => ⟨hwaiting, rfl, rfl⟩⟩
  | leaseOf j now =>
    obtain ⟨job, hjob, hphase, hs⟩ := onJob_cases hs
    obtain rfl := some.inj hs
    refine ⟨j, job, _, hjob, rfl, rfl, rfl, same_leases, .inr ⟨hphase, now, rfl⟩, fun hwaiting => ?_⟩
    rw [handlerRead_waiting] at hwaiting
    cases hwaiting
  | readInstance j =>
    obtain ⟨job, hjob, hphase, hs⟩ := onJob_cases hs
    obtain rfl := some.inj hs
    refine ⟨j, job, _, hjob, rfl, rfl, rfl, same_leases, .inl (goes_handlerInstance hphase),
      fun hwaiting => ?_⟩
    rw [handlerInstance_waiting] at hwaiting
    cases hwaiting
  | stopInstance j =>
    obtain ⟨job, hjob, hphase, hs⟩ := onJob_cases hs
    obtain rfl := some.inj hs
    have hgoes : Goes job { job with phase := .stopped, acted := true } :=
      goes_of_past hphase ⟨nofun, nofun, nofun⟩ rfl rfl
    exact ⟨j, job, _, hjob, rfl, rfl, rfl, same_leases, .inl hgoes, nofun⟩
  | deleteInstance j =>
    obtain ⟨job, hjob, hphase, hs⟩ := onJob_cases hs
    split_ifs at hs
    obtain rfl := some.inj hs
    have hgoes : Goes job { job with phase := .gone, acted := true } :=
      goes_of_past hphase ⟨nofun, nofun, nofun⟩ rfl rfl
    exact ⟨j, job, _, hjob, rfl, rfl, rfl, same_leases, .inl hgoes, nofun⟩
  | forgetLease j =>
    obtain ⟨job, hjob, -, hs⟩ := onJob_cases hs
    obtain rfl := some.inj hs
    exact ⟨j, job, _, hjob, rfl, rfl, rfl, setLeaseRow_leases nofun, .inl (goes_ended job), nofun⟩
  | recordStop j now =>
    obtain ⟨job, hjob, -, hs⟩ := onJob_cases hs
    split_ifs at hs
    obtain rfl := some.inj hs
    exact ⟨j, job, _, hjob, rfl, rfl, rfl, mark_leases, .inl (goes_ended job), nofun⟩
  | interrupt j =>
    obtain ⟨job, hjob, hs⟩ := bind_eq_some_iff.mp hs
    split_ifs at hs
    obtain rfl := some.inj hs
    have hgoes : Goes job { job with interrupted := true } := ⟨rfl, rfl, fun hholding => hholding⟩
    exact ⟨j, job, _, hjob, rfl, rfl, rfl, same_leases, .inl hgoes, fun hwaiting => ⟨hwaiting, rfl, rfl⟩⟩
  | fail j =>
    obtain ⟨job, hjob, rfl⟩ := map_eq_some_iff.mp hs
    exact ⟨j, job, _, hjob, rfl, rfl, rfl, same_leases, .inl (goes_ended job), nofun⟩
  | _ => cases ha

theorem JobStep.quiet (h : JobStep s t j old job) : Quiet s t := by
  have hpending : t.pending = (s.setJob j job).pending := by
    unfold pending setJob
    rw [h.jobs, h.passes]
  refine ⟨h.policies, ?_, h.leases⟩
  rw [hpending]
  exact setJob_pending h.before h.waiting

/-! ### Steps that keep what is pending agreed -/

theorem setLease_tenantId (tenantId : Uuid) (expiresAt : Option Int) (row : Option InstanceLease) :
    (Leases.setLease tenantId expiresAt row).tenantId = tenantId := by
  cases row with
  | none => rfl
  | some row => rfl

theorem Agreed.setLeaseRow {row : InstanceLease} (h : s.Agreed)
    (hrow : s.PendingFollows key row.tenantId) : (s.setLeaseRow key (some row)).Agreed := by
  intro x hx lease hlease
  by_cases hk : x.1 = key
  · have hsame : (s.setLeaseRow key (some row)).leases x.1 = some row := by
      rw [hk]
      exact update_self ..
    obtain rfl := some.inj (hsame.symm.trans hlease)
    exact hrow x hx hk
  · have hother : (s.setLeaseRow key (some row)).leases x.1 = s.leases x.1 :=
      update_of_ne hk ..
    exact h x hx lease (hother.symm.trans hlease)

theorem Agreed.setPolicy {tenant : Uuid} {policy : Option LeasePolicy} (h : s.Agreed)
    (hok : s.ActionKept (.setPolicy tenant policy)) (hs : s.step (.setPolicy tenant policy) = some t) :
    t.Agreed := by
  obtain rfl := some.inj hs
  intro x hx lease hlease
  by_cases htenant : lease.tenantId = tenant
  · obtain ⟨p, rfl, haction⟩ := hok x hx lease hlease htenant
    refine ⟨p, ?_, haction⟩
    rw [htenant]
    exact update_self ..
  · obtain ⟨p, hp, haction⟩ := h x hx lease hlease
    exact ⟨p, (update_of_ne htenant ..).trans hp, haction⟩

theorem Agreed.handOut (h : s.Agreed) (hok : s.ActionKept (.handOut i))
    (hs : s.step (.handOut i) = some t) : t.Agreed := by
  dsimp only [step] at hs
  obtain ⟨p, hp, hs⟩ := bind_eq_some_iff.mp hs
  split at hs
  · rename_i u rest hphase
    have hquiet : Quiet s (s.setPass i p (.handingOut rest)) := quiet_setPass hp nofun
    have hnext : p.nextHandedOut = some u := by
      unfold LeasePass.nextHandedOut
      rw [hphase]
      rfl
    split_ifs at hs with hnone
    · obtain rfl := some.inj hs
      refine (h.quiet hquiet).setLeaseRow ?_
      intro x hx hkey
      exact hok p hp u hnext hnone x (hquiet.pending hx) hkey
    · obtain rfl := some.inj hs
      exact h.quiet hquiet
  · cases hs

theorem ended_follows {e : LeaseDue} (he : e ∈ s.ended now) :
    ∃ lease, s.leases e.key = some lease ∧ s.Follows lease.tenantId e.action := by
  obtain ⟨inst, -, hinst⟩ := List.mem_filterMap.mp he
  obtain ⟨lease, hlease, hinst⟩ := bind_eq_some_iff.mp hinst
  obtain ⟨policy, hpolicy, hinst⟩ := bind_eq_some_iff.mp hinst
  obtain ⟨expiresAt, -, hinst⟩ := bind_eq_some_iff.mp hinst
  split_ifs at hinst
  obtain rfl := some.inj hinst
  exact ⟨lease, hlease, policy, hpolicy, rfl⟩

theorem Agreed.selectEnded (h : s.Agreed) (hs : s.step (.selectEnded i) = some t) : t.Agreed := by
  dsimp only [step] at hs
  obtain ⟨p, hp, hs⟩ := bind_eq_some_iff.mp hs
  split at hs
  · obtain rfl := some.inj hs
    intro x hx lease hlease
    rcases mem_pending.mp hx with hx | ⟨q, hq, e, he, rfl⟩
    · exact h x (mem_pending.mpr (.inl hx)) lease hlease
    · rcases mem_or_eq_of_mem_set hq with hq | rfl
      · exact h _ (mem_pending.mpr (.inr ⟨q, hq, e, he, rfl⟩)) lease hlease
      · obtain ⟨seen, hseen, hfollows⟩ := ended_follows he
        obtain rfl := some.inj (hseen.symm.trans hlease)
        exact hfollows
  · cases hs

def isQuiet : LeasingAction → Bool
  | .setPolicy _ _ | .setLease _ _ _ | .handOut _ | .selectEnded _ => false
  | _ => true

theorem quiet_step (hs : s.step a = some t) (ha : isQuiet a = true) : Quiet s t := by
  cases a with
  | setPolicy tenant policy => cases ha
  | setLease key tenantId expiresAt => cases ha
  | handOut i => cases ha
  | selectEnded i => cases ha
  | dropTenantLeases i =>
    obtain ⟨tenant, -, rfl⟩ := map_eq_some_iff.mp hs
    refine ⟨rfl, List.Subset.refl _, ?_⟩
    intro k lease hlease
    exact ⟨lease, (filter_eq_some_iff.mp hlease).1, rfl⟩
  | place key tenant =>
    obtain rfl := some.inj hs
    exact ⟨rfl, List.Subset.refl _, same_leases⟩
  | live key running =>
    obtain rfl := some.inj hs
    exact ⟨rfl, List.Subset.refl _, same_leases⟩
  | applySnapshot instances =>
    obtain rfl := some.inj hs
    exact ⟨rfl, List.Subset.refl _, same_leases⟩
  | readLease key policy =>
    dsimp only [step] at hs
    split at hs
    · obtain rfl := some.inj hs
      exact ⟨rfl, List.Subset.refl _, same_leases⟩
    · obtain rfl := some.inj hs
      exact ⟨rfl, List.Subset.refl _, same_leases⟩
  | updateLease i now => exact quiet_updateLease hs
  | scheduleLeases now =>
    obtain rfl := some.inj hs
    refine ⟨rfl, ?_, same_leases⟩
    intro x hx
    rcases mem_pending.mp hx with hx | ⟨p, hp, e, he, rfl⟩
    · exact mem_pending.mpr (.inl hx)
    · rcases mem_append.mp hp with hp | hp
      · exact mem_pending.mpr (.inr ⟨p, hp, e, he, rfl⟩)
      · obtain rfl := mem_singleton.mp hp
        cases he
  | enqueueJob i busy => exact quiet_enqueueJob hs
  | markActed i =>
    dsimp only [step] at hs
    obtain ⟨p, hp, hs⟩ := bind_eq_some_iff.mp hs
    split at hs
    · rename_i key rest hphase
      obtain rfl := some.inj hs
      have hquiet : Quiet s (s.setPass i p (.queueing rest)) := by
        refine quiet_setPass hp fun e he => ?_
        unfold LeasePass.toQueue
        rw [hphase]
        exact he
      exact ⟨rfl, hquiet.pending, mark_leases⟩
    · cases hs
  | abandon i =>
    dsimp only [step] at hs
    obtain ⟨p, hp, hs⟩ := bind_eq_some_iff.mp hs
    obtain rfl := some.inj hs
    exact quiet_setPass hp nofun
  | _ =>
    obtain ⟨j, old, job, hjob⟩ := step_job hs rfl
    exact hjob.quiet

theorem Agreed.step (h : s.Agreed) (hok : s.ActionKept a) (hs : s.step a = some t) : t.Agreed := by
  cases a with
  | setPolicy tenant policy => exact h.setPolicy hok hs
  | setLease key tenantId expiresAt =>
    obtain rfl := some.inj hs
    refine h.setLeaseRow ?_
    rw [setLease_tenantId]
    exact hok
  | handOut i => exact h.handOut hok hs
  | selectEnded i => exact h.selectEnded hs
  -- The others change no policy, give out no lease and select none.
  | _ => exact h.quiet (quiet_step hs rfl)

/-! ### What a job saw -/

theorem jobs_of_not_jobStep (hs : s.step a = some t)
    (ha : isJobStep a = false) : t.jobs = s.jobs ∨
      ∃ key action, t.jobs = s.jobs ++ [⟨key, action, .queued, false, none, false⟩] := by
  cases a with
  | setPolicy tenant policy =>
    obtain rfl := some.inj hs
    exact .inl rfl
  | dropTenantLeases i =>
    obtain ⟨tenant, -, rfl⟩ := map_eq_some_iff.mp hs
    exact .inl rfl
  | place key tenant =>
    obtain rfl := some.inj hs
    exact .inl rfl
  | live key running =>
    obtain rfl := some.inj hs
    exact .inl rfl
  | applySnapshot instances =>
    obtain rfl := some.inj hs
    exact .inl rfl
  | readLease key policy =>
    dsimp only [step] at hs
    split at hs
    · obtain rfl := some.inj hs
      exact .inl rfl
    · obtain rfl := some.inj hs
      exact .inl rfl
  | updateLease i now =>
    dsimp only [step] at hs
    obtain ⟨⟨key, policy, read⟩, -, rfl⟩ := map_eq_some_iff.mp hs
    split
    · exact .inl rfl
    · exact .inl rfl
  | setLease key tenantId expiresAt =>
    obtain rfl := some.inj hs
    exact .inl rfl
  | scheduleLeases now =>
    obtain rfl := some.inj hs
    exact .inl rfl
  | handOut i =>
    obtain ⟨p, -, hs⟩ := bind_eq_some_iff.mp hs
    split at hs
    · split_ifs at hs
      · obtain rfl := some.inj hs
        exact .inl rfl
      · obtain rfl := some.inj hs
        exact .inl rfl
    · cases hs
  | selectEnded i =>
    obtain ⟨p, -, hs⟩ := bind_eq_some_iff.mp hs
    split at hs
    · obtain rfl := some.inj hs
      exact .inl rfl
    · cases hs
  | enqueueJob i busy =>
    obtain ⟨p, -, hs⟩ := bind_eq_some_iff.mp hs
    split at hs
    · rename_i e rest _
      split_ifs at hs
      · obtain rfl := some.inj hs
        exact .inl rfl
      · obtain rfl := some.inj hs
        exact .inr ⟨e.key, e.action, rfl⟩
    · cases hs
  | markActed i =>
    obtain ⟨p, -, hs⟩ := bind_eq_some_iff.mp hs
    split at hs
    · obtain rfl := some.inj hs
      exact .inl rfl
    · cases hs
  | abandon i =>
    obtain ⟨p, -, hs⟩ := bind_eq_some_iff.mp hs
    obtain rfl := some.inj hs
    exact .inl rfl
  | _ => cases ha

theorem forall_jobs_step {P : LeaseJob → Prop}
    (h : ∀ job ∈ s.jobs, P job) (hs : s.step a = some t)
    (hnew : ∀ key action, P ⟨key, action, .queued, false, none, false⟩)
    (hread : ∀ job ∈ s.jobs, P job → job.phase = .launched → ∀ now, P (s.handlerRead now job))
    (hgoes : ∀ old job, P old → Goes old job → P job) : ∀ job ∈ t.jobs, P job := by
  cases ha : isJobStep a with
  | true =>
    obtain ⟨j, old, job, hjob⟩ := step_job hs ha
    have hmem := mem_of_getElem? hjob.before
    rw [hjob.jobs]
    refine forall_mem_set h ?_
    rcases hjob.move with hgo | ⟨hphase, now, rfl⟩
    · exact hgoes old job (h old hmem) hgo
    · exact hread old hmem (h old hmem) hphase now
  | false =>
    -- The jobs are as before, but for one that a pass has queued.
    rcases jobs_of_not_jobStep hs ha with heq | ⟨key, action, heq⟩
    · rw [heq]
      exact h
    · rw [heq]
      intro job hjob
      rcases mem_append.mp hjob with hjob | hjob
      · exact h job hjob
      · obtain rfl := mem_singleton.mp hjob
        exact hnew key action

theorem handlerRead_cases (s : Leasing) (now : Int) (job : LeaseJob) :
    s.handlerRead now job = { job with phase := .ended } ∨
      ∃ lease expiresAt, s.leases job.key = some lease ∧ lease.expiresAt = some expiresAt ∧
        expiresAt ≤ now ∧
        s.handlerRead now job =
          { job with phase := .due, seen := some ⟨lease, now, s.policies lease.tenantId⟩ } := by
  unfold handlerRead
  split
  · exact .inl rfl
  · rename_i lease hlease
    split
    · exact .inl rfl
    · rename_i expiresAt hexpires
      split_ifs with hnow
      · exact .inl rfl
      · exact .inr ⟨lease, expiresAt, hlease, hexpires, Int.not_lt.mp hnow, rfl⟩

def SawEnded (job : LeaseJob) : Prop :=
  ∃ seen expiresAt, job.seen = some seen ∧ seen.lease.expiresAt = some expiresAt ∧
    expiresAt ≤ seen.now

def SawPolicy (job : LeaseJob) : Prop :=
  ∃ seen policy, job.seen = some seen ∧ seen.policy = some policy ∧ policy.action = job.action

theorem sawEnded_step
    (h : ∀ job ∈ s.jobs, Holding job → SawEnded job) (hs : s.step a = some t) :
    ∀ job ∈ t.jobs, Holding job → SawEnded job := by
  refine forall_jobs_step h hs ?_ ?_ ?_
  · rintro key action (hacted | ⟨hwaiting, -⟩)
    · cases hacted
    · cases hwaiting
  · intro job _ hjob _ now hholding
    rcases handlerRead_cases s now job with heq | ⟨lease, expiresAt, -, hend, hnow, heq⟩
    · rw [heq] at hholding ⊢
      exact hjob ((goes_ended job).holding hholding)
    · rw [heq]
      exact ⟨_, expiresAt, rfl, hend, hnow⟩
  · intro old job hold hgo hholding
    obtain ⟨seen, expiresAt, hseen, hend⟩ := hold (hgo.holding hholding)
    exact ⟨seen, expiresAt, hgo.seen.trans hseen, hend⟩

theorem sawPolicy_step (hagreed : s.Agreed)
    (h : ∀ job ∈ s.jobs, Holding job → SawPolicy job) (hs : s.step a = some t) :
    ∀ job ∈ t.jobs, Holding job → SawPolicy job := by
  refine forall_jobs_step h hs ?_ ?_ ?_
  · rintro key action (hacted | ⟨hwaiting, -⟩)
    · cases hacted
    · cases hwaiting
  · intro job hmem hjob hphase now hholding
    rcases handlerRead_cases s now job with heq | ⟨lease, expiresAt, hlease, -, -, heq⟩
    · rw [heq] at hholding ⊢
      exact hjob ((goes_ended job).holding hholding)
    · have hwaiting : job.waiting = true := by
        unfold LeaseJob.waiting
        rw [hphase]
        rfl
      -- The job was pending up to this read, so its action is the policy's.
      obtain ⟨policy, hpolicy, haction⟩ :=
        hagreed _ (mem_pending.mpr (.inl ⟨job, hmem, hwaiting, rfl⟩)) lease hlease
      rw [heq]
      exact ⟨_, policy, rfl, hpolicy, haction⟩
  · intro old job hold hgo hholding
    obtain ⟨seen, policy, hseen, hpolicy, haction⟩ := hold (hgo.holding hholding)
    exact ⟨seen, policy, hgo.seen.trans hseen, hpolicy, haction.trans hgo.action.symm⟩

/-! ### Every run -/

structure Idle (s : Leasing) : Prop where
  drops : s.drops = []
  extensions : s.extensions = []
  passes : s.passes = []
  jobs : s.jobs = []

/-- A job that has stopped or deleted its instance saw, when it read the lease, one that had ended;
and where the action was kept the policy's, it also saw a policy with the action it took. -/
theorem lease_job_follows_policy (s : Leasing) (h : s.Idle) :
    (∀ t, Run Leasing.step (fun _ _ => True) s t →
      ∀ job ∈ t.jobs, job.acted = true → SawEnded job) ∧
    ∀ t, Run Leasing.step ActionKept s t →
      ∀ job ∈ t.jobs, job.acted = true → SawEnded job ∧ SawPolicy job := by
  have hstart : ∀ P : LeaseJob → Prop, ∀ job ∈ s.jobs, P job := by
    rw [h.jobs]
    exact fun _ _ hjob => nomatch hjob
  constructor
  · intro t ht job hjob hacted
    refine ht.invariant (I := fun t => ∀ job ∈ t.jobs, Holding job → SawEnded job) (hstart _) ?_ job
      hjob (.inl hacted)
    exact fun _ _ _ h _ hs => sawEnded_step h hs
  · intro t ht job hjob hacted
    have hall := ht.invariant (I := fun t => t.Agreed ∧ (∀ job ∈ t.jobs, Holding job → SawEnded job) ∧
      ∀ job ∈ t.jobs, Holding job → SawPolicy job) ⟨?_, hstart _, hstart _⟩ ?_
    · exact ⟨hall.2.1 job hjob (.inl hacted), hall.2.2 job hjob (.inl hacted)⟩
    · intro x hx
      rcases mem_pending.mp hx with ⟨j, hj, -⟩ | ⟨p, hp, -⟩
      · rw [h.jobs] at hj
        cases hj
      · rw [h.passes] at hp
        cases hp
    · rintro t a u ⟨hagreed, hended, hpolicy⟩ hok hs
      exact ⟨hagreed.step hok hs, sawEnded_step hended hs, sawPolicy_step hagreed hpolicy hs⟩

def overdue : Leasing where
  policies := fun _ => some ⟨30, .delete, 7, 2⟩
  placements := fun _ => none
  instances := [⟨(clusterC.id, ⟨instanceI.project, instanceI.name⟩), true, 5⟩]
  leases := fun _ => some ⟨userU, some 0, 0, none⟩
  living := fun _ => some true
  drops := []
  extensions := []
  passes := []
  jobs := []

instance (s : Leasing) : ∀ a : LeasingAction, Decidable (s.ActionKept a)
  | .setPolicy tenant policy => inferInstanceAs (Decidable (∀ x ∈ s.pending, ∀ lease ∈ s.leases x.1,
      lease.tenantId = tenant → ∃ p, policy = some p ∧ p.action = x.2))
  | .setLease key tenantId _ => inferInstanceAs (Decidable (s.PendingFollows key tenantId))
  | .handOut i => inferInstanceAs (Decidable (∀ p ∈ s.passes[i]?, ∀ u ∈ p.nextHandedOut,
      s.leases u.key = none → s.PendingFollows u.key u.tenantId))
  | .dropTenantLeases _ | .place _ _ | .live _ _ | .applySnapshot _ | .readLease _ _
  | .updateLease _ _ | .scheduleLeases _ | .selectEnded _ | .enqueueJob _ _ | .markActed _
  | .abandon _ | .launch _ | .leaseOf _ _ | .readInstance _ | .stopInstance _ | .deleteInstance _
  | .forgetLease _ | .recordStop _ _ | .interrupt _ | .fail _ => inferInstanceAs (Decidable True)

/-- The policy is changed in all but its action while the job waits; the job deletes the instance. -/
theorem lease_job_follows_policy_delete : ∃ t : Leasing, Run Leasing.step ActionKept overdue t ∧
    ∃ job ∈ t.jobs, job.acted = true ∧ SawEnded job ∧ SawPolicy job := by
  have hexec : ((Run.exec Leasing.step ActionKept overdue
      [.scheduleLeases 10, .selectEnded 0, .enqueueJob 0 false, .setPolicy userU (some ⟨10, .delete, 3, 0⟩),
        .launch 0, .leaseOf 0 20, .readInstance 0, .stopInstance 0, .deleteInstance 0]).map fun t =>
      t.jobs.map (·.acted)) = some [true] := by
    decide
  obtain ⟨t, ht, hshown⟩ := map_eq_some_iff.mp hexec
  have hrun := Run.of_exec .refl ht
  obtain ⟨job, hjobs, hacted⟩ := map_eq_singleton_iff.mp hshown
  have hmem : job ∈ t.jobs := by
    rw [hjobs]
    exact mem_singleton_self job
  exact ⟨t, hrun, job, hmem, hacted,
    (lease_job_follows_policy overdue ⟨rfl, rfl, rfl, rfl⟩).2 t hrun job hmem hacted⟩

/-- The policy's action becomes to stop while the job waits, and the job deletes the instance. -/
theorem stopped_policy_deletes : ¬ ∀ t : Leasing, Run Leasing.step (fun _ _ => True) overdue t →
    ∀ job ∈ t.jobs, job.acted = true → SawEnded job ∧ SawPolicy job := by
  intro h
  have hexec : ((Run.exec Leasing.step (fun _ _ => True) overdue
      [.scheduleLeases 10, .selectEnded 0, .enqueueJob 0 false, .setPolicy userU (some ⟨30, .stop, 7, 2⟩),
        .launch 0, .leaseOf 0 20, .readInstance 0, .stopInstance 0, .deleteInstance 0]).map fun t =>
      t.jobs.map fun job => (job.acted, job.action, (job.seen.bind (·.policy)).map (·.action))) =
      some [(true, .delete, some .stop)] := by
    decide
  obtain ⟨t, ht, hshown⟩ := map_eq_some_iff.mp hexec
  obtain ⟨job, hjobs, hjob⟩ := map_eq_singleton_iff.mp hshown
  have hmem : job ∈ t.jobs := by
    rw [hjobs]
    exact mem_singleton_self job
  obtain ⟨hacted, hjob⟩ := Prod.mk.inj hjob
  obtain ⟨haction, hpolicy⟩ := Prod.mk.inj hjob
  obtain ⟨-, seen, policy, hseen, hp, hsame⟩ := h t (Run.of_exec .refl ht) job hmem hacted
  rw [hseen, bind_some, hp, map_some, hsame, haction] at hpolicy
  cases hpolicy

end Leasing

end IncusCloud.Leases
