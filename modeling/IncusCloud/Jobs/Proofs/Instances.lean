import IncusCloud.Jobs.Instances
import IncusCloud.Jobs.Proofs.RunsOnce

/-!
# One running job for an instance

The unique index keeps the active jobs of one key to one, and the callers name an instance by one
key each: so no two jobs that have an instance run at once, and no two rebalances of one cluster. A
rebalance is queued under its cluster's key and not under the instances it moves, so a move and a
job of the instance exclude each other only where neither begins while the other is there
(`MeetsNone`).
-/

open List
open Option (map_eq_some_iff some.inj)

namespace IncusCloud.Jobs.Instances

open Lib (Run join join_injective)

variable {Id : Type} {q : Queue Id} {a : Jobs.Action Id} {id : Id} {w : World Id}

/-! ### What a runner's step does to the jobs -/

def taken (q : Queue Id) : Jobs.Action Id → Option Id
  | .claim i _ =>
    (q.runners[i]?).bind fun r =>
      match r.phase with
      | .chosen id => some id
      | _ => none
  | _ => none

/-- The rows stay, and each keeps its state, ends, or is the one that begins to run. -/
def Goes (q : Queue Id) (a : Jobs.Action Id) (jobs : List (JobRow Id)) : Prop :=
  ∃ g : JobRow Id → JobRow Id, jobs = q.jobs.map g ∧ (∀ j, (g j).id = j.id) ∧
    ∀ j, (g j).state = j.state ∨ (g j).state.final = true ∨
      (taken q a = some j.id ∧ j.state = .queued ∧ (g j).state = .running)

theorem goes_quiet : Goes q a q.jobs :=
  ⟨id, (map_id _).symm, fun _ => rfl, fun _ => .inl rfl⟩

variable {jobs : List (JobRow Id)}

theorem Goes.active (h : Goes q a jobs)
    {j : JobRow Id} (hj : j ∈ jobs) (hactive : j.state.final = false) :
    ∃ k ∈ q.jobs, k.id = j.id ∧ k.state.final = false := by
  obtain ⟨g, rfl, hid, hstate⟩ := h
  obtain ⟨k, hk, rfl⟩ := List.mem_map.mp hj
  refine ⟨k, hk, (hid k).symm, ?_⟩
  rcases hstate k with hs | hs | ⟨-, hqueued, -⟩
  · rw [← hs]
    exact hactive
  · rw [hs] at hactive
    exact nomatch hactive
  · rw [hqueued]
    rfl

theorem Goes.running (h : Goes q a jobs)
    {j : JobRow Id} (hj : j ∈ jobs) (hrun : j.state = .running) :
    (∃ k ∈ q.jobs, k.id = j.id ∧ k.state = .running) ∨
      taken q a = some j.id ∧ ∃ k ∈ q.jobs, k.id = j.id ∧ k.state = .queued := by
  obtain ⟨g, rfl, hid, hstate⟩ := h
  obtain ⟨k, hk, rfl⟩ := List.mem_map.mp hj
  rcases hstate k with hs | hs | ⟨htaken, hqueued, -⟩
  · exact .inl ⟨k, hk, (hid k).symm, hs ▸ hrun⟩
  · rw [hrun] at hs
    exact nomatch hs
  · exact .inr ⟨htaken.trans (by rw [hid]), k, hk, (hid k).symm, hqueued⟩

theorem Goes.queued (h : Goes q a jobs)
    {j : JobRow Id} (hj : j ∈ jobs) (hqueued : j.state = .queued) :
    ∃ k ∈ q.jobs, k.id = j.id ∧ k.state = .queued := by
  obtain ⟨g, rfl, hid, hstate⟩ := h
  obtain ⟨k, hk, rfl⟩ := List.mem_map.mp hj
  refine ⟨k, hk, (hid k).symm, ?_⟩
  rcases hstate k with hs | hs | ⟨-, -, hs⟩
  · exact hs ▸ hqueued
  · rw [hqueued] at hs
    exact nomatch hs
  · rw [hqueued] at hs
    exact nomatch hs

variable [DecidableEq Id]

theorem goes_update {p : JobRow Id → Bool}
    {f : JobRow Id → JobRow Id} (hid : ∀ j, (f j).id = j.id)
    (hf : ∀ j, (f j).state = j.state ∨ (f j).state.final = true) : Goes q a (updateJob q.jobs id p f) := by
  refine ⟨fun j => if j.id = id ∧ p j then f j else j, rfl, updateJob_id hid, fun j => ?_⟩
  dsimp only
  split_ifs
  · rcases hf j with h | h
    · exact .inl h
    · exact .inr (.inl h)
  · exact .inl rfl

theorem goes_step {q' : Queue Id} (ha : ∀ id type at_, a ≠ .enqueue id type at_)
    (h : q.step a = some q') : Goes q a q'.jobs := by
  cases a with
  | enqueue id type createdAt => exact absurd rfl (ha id type createdAt)
  | sweep i staleBefore =>
    unfold Queue.step at h
    dsimp only at h
    split at h
    · rename_i holder _ _ _ _ _ _
      have hq := some.inj h
      rw [← hq]
      refine ⟨fun j => if stale holder staleBefore j then { j with state := .failed } else j, rfl, ?_, ?_⟩
      · intro j
        dsimp only
        split_ifs <;> rfl
      · intro j
        dsimp only
        split_ifs
        · exact .inr (.inl rfl)
        · exact .inl rfl
    · cases h
  | claim i now =>
    unfold Queue.step at h
    dsimp only at h
    split at h
    · rename_i holder handlers n ms stopped id active hr
      have htaken : taken q (.claim i now) = some id := by simp [taken, hr]
      split_ifs at h
      · have hq := some.inj h
        rw [← hq]
        refine ⟨_, rfl, updateJob_id (fun _ => rfl), fun j => ?_⟩
        split_ifs with hj
        · obtain ⟨hid, hqueued⟩ := hj
          refine .inr (.inr ⟨?_, by simpa using hqueued, rfl⟩)
          rw [htaken, hid]
        · exact .inl rfl
      · have hq := some.inj h
        rw [← hq]
        exact goes_quiet
    · cases h
  | beat i id now =>
    unfold Queue.step at h
    dsimp only at h
    split at h
    · split_ifs at h
      have hq := some.inj h
      rw [← hq]
      exact goes_update (fun _ => rfl) fun _ => .inl rfl
    · cases h
  | finish i id =>
    unfold Queue.step at h
    dsimp only at h
    split at h
    · split at h
      · have hq := some.inj h
        rw [← hq]
        rename_i ending _
        refine goes_update (fun _ => rfl) fun _ => .inr ?_
        show ending.state.final = true
        cases ending <;> rfl
      · cases h
    · cases h
  | cancelStep k =>
    unfold Queue.step at h
    dsimp only at h
    split at h
    · split_ifs at h
      · have hq := some.inj h
        rw [← hq]
        exact goes_update (fun _ => rfl) fun _ => .inr rfl
      · have hq := some.inj h
        rw [← hq]
        exact goes_quiet
    · have hq := some.inj h
      rw [← hq]
      exact goes_update (fun _ => rfl) fun _ => .inl rfl
    · cases h
  | clock _ | join _ _ _ _ | cancel _ =>
    have hq := some.inj h
    rw [← hq]
    exact goes_quiet
  | fail _ | stop _ | crash _ =>
    obtain ⟨r, -, hq⟩ := map_eq_some_iff.mp h
    rw [← hq]
    exact goes_quiet
  | tick _ | beforeTick _ | loop _ | select _ | abort _ | release _ | start _ =>
    unfold Queue.step at h
    dsimp only at h
    split at h
    · have hq := some.inj h
      rw [← hq]
      exact goes_quiet
    · cases h
  | launch _ =>
    unfold Queue.step at h
    dsimp only at h
    split at h
    · split_ifs at h
      all_goals
        have hq := some.inj h
        rw [← hq]
        exact goes_quiet
    · cases h
  | handlerEnds _ _ _ | settle _ _ =>
    unfold Queue.step at h
    dsimp only at h
    split at h
    · split at h
      · have hq := some.inj h
        rw [← hq]
        exact goes_quiet
      · cases h
    · cases h

/-! ### The invariant -/

def Active (w : World Id) (id : Id) : Prop := ∃ j ∈ w.queue.jobs, j.id = id ∧ j.state.final = false

/-- What holds in every state of every run that meets `MeetsNone`. -/
structure Inv (w : World Id) : Prop where
  queue : Jobs.Inv w.queue.jobs w.queue.runners w.queue.claims w.queue.launches
  listed : ∀ r ∈ w.infos, ∃ j ∈ w.queue.jobs, j.id = r.id
  unique : ∀ r ∈ w.infos, ∀ s ∈ w.infos, r.id = s.id → r = s
  keyed : ∀ r ∈ w.infos, ∀ s ∈ w.infos, Active w r.id → Active w s.id →
    r.instanceKey.isSome = true → r.instanceKey = s.instanceKey → r.id = s.id
  own : ∀ r ∈ w.infos, ∀ x, w.holds r x = true → r.instanceKey = some (instanceKey x)
  rebalances : ∀ r ∈ w.infos, ∀ c, r.payload = .rebalance c → r.instanceKey = some (rebalanceKey c)
  known : ∀ r ∈ w.infos, ∀ i, r.payload = .replicate i → i ∈ w.policyIds
  policies : ∀ p ∈ w.policies, p.id ∈ w.policyIds ∧ ∀ s ∈ w.policies, s.id = p.id → s.source = p.source
  reads : ∀ p ∈ w.reads, p.id ∈ w.policyIds ∧ ∀ s ∈ w.policies, s.id = p.id → s.source = p.source
  loaded : ∀ l ∈ w.loaded, ∃ j ∈ w.queue.jobs, j.id = l.1
  moves : ∀ m ∈ w.moves, (∃ r ∈ w.infos, r.id = m.1 ∧ r.payload = .rebalance m.2.inst.clusterId) ∧
    ∀ j ∈ w.queue.jobs, j.id = m.1 → j.state ≠ .queued
  apart : ∀ m ∈ w.moves, w.running m.1 = true → ∀ k, w.running k = true → w.has k m.2.inst = false

theorem running_iff : w.running id = true ↔ ∃ j ∈ w.queue.jobs, j.id = id ∧ j.state = .running := by
  simp [World.running]

variable {x : InstanceRef}

theorem has_iff : w.has id x = true ↔ ∃ r ∈ w.infos, r.id = id ∧ w.holds r x = true := by
  simp [World.has]

theorem active_of_running (h : w.running id = true) : Active w id := by
  obtain ⟨j, hj, hid, hrun⟩ := running_iff.mp h
  exact ⟨j, hj, hid, by rw [hrun]; rfl⟩

theorem busy_iff {key : Option String} : w.busy key = true ↔
    key.isSome = true ∧ ∃ r ∈ w.infos, Active w r.id ∧ r.instanceKey = key := by
  simp only [World.busy, any_eq_true, Bool.and_eq_true, Bool.not_eq_true', decide_eq_true_eq]
  constructor
  · rintro ⟨j, hj, hactive, r, hr, ⟨hid, hsome⟩, hkey⟩
    exact ⟨hsome, r, hr, ⟨j, hj, hid.symm, hactive⟩, hkey⟩
  · rintro ⟨hsome, r, hr, ⟨j, hj, hid, hactive⟩, hkey⟩
    exact ⟨j, hj, hactive, r, hr, ⟨hid.symm, hsome⟩, hkey⟩

theorem holds_mono (w' : World Id) {r : JobInfo Id}
    (hpolicies : ∀ i, r.payload = .replicate i → ∀ p ∈ w'.policies, p.id = i →
      ∃ s ∈ w.policies, s.id = i ∧ s.source = p.source)
    (hloaded : ∀ l ∈ w'.loaded, l.1 = r.id →
      l ∈ w.loaded ∨ (l.2 ∈ w.policies ∧ r.payload = .replicate l.2.id))
    (h : w'.holds r x = true) : w.holds r x = true := by
  unfold World.holds at h ⊢
  cases hp : r.payload with
  | replicate i =>
    rw [hp] at h
    simp only [Bool.or_eq_true, any_eq_true, Bool.and_eq_true, decide_eq_true_eq] at h ⊢
    rcases h with ⟨p, hmem, hid, hsource⟩ | ⟨l, hmem, hid, hsource⟩
    · obtain ⟨s, hs, hsid, hss⟩ := hpolicies i hp p hmem hid
      exact .inl ⟨s, hs, hsid, hss.trans hsource⟩
    · rcases hloaded l hmem hid with hl | ⟨hl, hpl⟩
      · exact .inr ⟨l, hl, hid, hsource⟩
      · have hi : l.2.id = i := by
          rw [hp] at hpl
          exact (Payload.replicate.inj hpl).symm
        exact .inl ⟨l.2, hl, hi, hsource⟩
  | _ =>
    rw [hp] at h
    exact h

theorem has_of_has (w w' : World Id) (hinfos : w'.infos = w.infos)
    (hholds : ∀ r ∈ w.infos, ∀ x, w'.holds r x = true → w.holds r x = true) {k : Id}
    (h : w'.has k x = true) : w.has k x = true := by
  obtain ⟨r, hr, hid, hx⟩ := has_iff.mp h
  rw [hinfos] at hr
  exact has_iff.mpr ⟨r, hr, hid, hholds r hr x hx⟩

theorem inv_start : Inv (World.boot : World Id) where
  queue := Jobs.inv_boot
  listed := by simp [World.boot]
  unique := by simp [World.boot]
  keyed := by simp [World.boot]
  own := by simp [World.boot]
  rebalances := by simp [World.boot]
  known := by simp [World.boot]
  policies := by simp [World.boot]
  reads := by simp [World.boot]
  loaded := by simp [World.boot]
  moves := by simp [World.boot]
  apart := by simp [World.boot]

/-! ### A runner's step -/

/-- No job of an instance begins to run while a running rebalance moves the instance, and no
rebalance reads an instance for its move while a running job has it. -/
def MeetsNone (w : World Id) : Action Id → Prop
  | .runner a => ∀ k, taken w.queue a = some k → ∀ m ∈ w.moves, w.running m.1 = true →
      w.has k m.2.inst = false
  | .readForMove _ x => ∀ k, w.running k = true → w.has k x = false
  | _ => True

theorem Inv.runner (hi : Inv w)
    (hq : w.queue.step a = some q) (ha : ∀ id type at_, a ≠ .enqueue id type at_)
    (hok : MeetsNone w (.runner a)) : Inv { w with queue := q } := by
  have hgoes : Goes w.queue a q.jobs := goes_step ha hq
  have hactive : ∀ id, Active { w with queue := q } id → Active w id := by
    rintro id ⟨j, hj, rfl, hfinal⟩
    exact hgoes.active hj hfinal
  have hrow : ∀ j ∈ w.queue.jobs, ∃ k ∈ q.jobs, k.id = j.id := by
    intro j hj
    obtain ⟨g, hjobs, hid, -⟩ := hgoes
    exact ⟨g j, hjobs ▸ mem_map_of_mem hj, hid j⟩
  have hrunning : ∀ id, World.running { w with queue := q } id = true →
      w.running id = true ∨ taken w.queue a = some id ∧ ∃ j ∈ w.queue.jobs, j.id = id ∧ j.state = .queued := by
    intro id h
    obtain ⟨j, hj, rfl, hrun⟩ := running_iff.mp h
    rcases hgoes.running hj hrun with hr | hr
    · exact .inl (running_iff.mpr hr)
    · exact .inr hr
  refine ⟨Jobs.step_inv hi.queue hq, ?_, hi.unique, ?_, hi.own, hi.rebalances, hi.known,
    hi.policies, hi.reads, ?_, ?_, ?_⟩
  · intro r hr
    obtain ⟨j, hj, hid⟩ := hi.listed r hr
    obtain ⟨k, hk, hkid⟩ := hrow j hj
    exact ⟨k, hk, hkid.trans hid⟩
  · intro r hr s hs hra hsa
    exact hi.keyed r hr s hs (hactive _ hra) (hactive _ hsa)
  · intro l hl
    obtain ⟨j, hj, hid⟩ := hi.loaded l hl
    obtain ⟨k, hk, hkid⟩ := hrow j hj
    exact ⟨k, hk, hkid.trans hid⟩
  · intro m hm
    refine ⟨(hi.moves m hm).1, fun j hj hid hqueued => ?_⟩
    obtain ⟨k, hk, hkid, hkq⟩ := hgoes.queued hj hqueued
    exact (hi.moves m hm).2 k hk (hkid.trans hid) hkq
  · intro m hm hrun k hk
    -- The rebalance ran before: it is not queued, so the step did not make it run.
    have hmoving : w.running m.1 = true := by
      rcases hrunning m.1 hrun with h | ⟨-, j, hj, hid, hqueued⟩
      · exact h
      · exact absurd hqueued ((hi.moves m hm).2 j hj hid)
    rcases hrunning k hk with h | ⟨htaken, -⟩
    · exact hi.apart m hm hmoving k h
    · exact hok k htaken m hm hmoving

/-! ### A job is queued -/

theorem Inv.enqueueJob {w' : World Id} (hi : Inv w) {payload : Payload} {key : Option String}
    {createdAt : Int} (h : w.enqueueJob id payload key createdAt = some w')
    (hown : ∀ r : JobInfo Id, r.payload = payload → ∀ x, (∀ l ∈ w.loaded, l.1 ≠ r.id) →
      w.holds r x = true → key = some (instanceKey x))
    (hrebalance : ∀ c, payload = .rebalance c → key = some (rebalanceKey c))
    (hknown : ∀ i, payload = .replicate i → i ∈ w.policyIds) : Inv w' := by
  unfold World.enqueueJob at h
  split_ifs at h with hbusy
  · rw [← some.inj h]
    exact hi
  · obtain ⟨q, hq, hw⟩ := map_eq_some_iff.mp h
    rw [← hw]
    have hqueue : Jobs.Inv q.jobs q.runners q.claims q.launches := Jobs.step_inv hi.queue hq
    unfold Queue.step at hq
    dsimp only at hq
    split_ifs at hq with hnew
    have hjobs : q.jobs = w.queue.jobs ++ [⟨id, payload.type, .queued, none, none, false, createdAt⟩] := by
      rw [← some.inj hq]
    have hfresh : ∀ j ∈ w.queue.jobs, j.id ≠ id := by simpa using hnew
    have hmem : ∀ j ∈ w.queue.jobs, j ∈ q.jobs := by
      intro j hj
      rw [hjobs]
      exact mem_append_left _ hj
    have hcases : ∀ j ∈ q.jobs, j ∈ w.queue.jobs ∨ j.id = id ∧ j.state = .queued := by
      intro j hj
      rw [hjobs, mem_append, mem_singleton] at hj
      rcases hj with hj | hj
      · exact .inl hj
      · right
        rw [hj]
        exact ⟨rfl, rfl⟩
    have hinfos : ∀ r ∈ w.infos ++ [(⟨id, payload, key⟩ : JobInfo Id)],
        r ∈ w.infos ∧ r.id ≠ id ∨ r = ⟨id, payload, key⟩ := by
      intro r hr
      rcases mem_append.mp hr with hr | hr
      · obtain ⟨j, hj, hid⟩ := hi.listed r hr
        exact .inl ⟨hr, hid ▸ hfresh j hj⟩
      · exact .inr (mem_singleton.mp hr)
    have hactive : ∀ k ≠ id, Active { w with queue := q, infos := w.infos ++ [⟨id, payload, key⟩] } k →
        Active w k := by
      rintro k hk ⟨j, hj, rfl, hfinal⟩
      rcases hcases j hj with hj | ⟨hid, -⟩
      · exact ⟨j, hj, rfl, hfinal⟩
      · exact absurd hid hk
    have hrunning : ∀ k, World.running { w with queue := q, infos := w.infos ++ [⟨id, payload, key⟩] } k = true →
        w.running k = true := by
      intro k hk
      obtain ⟨j, hj, hid, hrun⟩ := running_iff.mp hk
      rcases hcases j hj with hj | ⟨-, hqueued⟩
      · exact running_iff.mpr ⟨j, hj, hid, hrun⟩
      · rw [hqueued] at hrun
        cases hrun
    -- The insert was not refused: no active job has the key.
    have hfree : ∀ r ∈ w.infos, Active w r.id → key.isSome = true → r.instanceKey ≠ key := by
      intro r hr hact hsome hkey
      exact hbusy (busy_iff.mpr ⟨hsome, r, hr, hact, hkey⟩)
    refine ⟨hqueue, ?_, ?_, ?_, ?_, ?_, ?_, hi.policies, hi.reads, ?_, ?_, ?_⟩
    · intro r hr
      rcases hinfos r hr with ⟨hr, -⟩ | hr
      · obtain ⟨j, hj, hid⟩ := hi.listed r hr
        exact ⟨j, hmem j hj, hid⟩
      · refine ⟨⟨id, payload.type, .queued, none, none, false, createdAt⟩, ?_, by rw [hr]⟩
        show _ ∈ q.jobs
        rw [hjobs]
        exact mem_append_right _ mem_cons_self
    · intro r hr s hs heq
      rcases hinfos r hr with ⟨hr, hrid⟩ | hr <;> rcases hinfos s hs with ⟨hs, hsid⟩ | hs
      · exact hi.unique r hr s hs heq
      · rw [hs] at heq
        exact absurd heq hrid
      · rw [hr] at heq
        exact absurd heq.symm hsid
      · rw [hr, hs]
    · intro r hr s hs hra hsa hsome hkeys
      rcases hinfos r hr with ⟨hr, hrid⟩ | hr <;> rcases hinfos s hs with ⟨hs, hsid⟩ | hs
      · exact hi.keyed r hr s hs (hactive _ hrid hra) (hactive _ hsid hsa) hsome hkeys
      · rw [hs] at hkeys
        rw [hkeys] at hsome
        exact absurd hkeys (hfree r hr (hactive _ hrid hra) hsome)
      · rw [hr] at hkeys hsome
        exact absurd hkeys.symm (hfree s hs (hactive _ hsid hsa) hsome)
      · rw [hr, hs]
    · intro r hr x hx
      rcases hinfos r hr with ⟨hr, -⟩ | hr
      · exact hi.own r hr x hx
      · rw [hr] at hx ⊢
        refine hown ⟨id, payload, key⟩ rfl x (fun l hl hid => ?_) hx
        obtain ⟨j, hj, hjid⟩ := hi.loaded l hl
        exact hfresh j hj (hjid.trans hid)
    · intro r hr c hc
      rcases hinfos r hr with ⟨hr, -⟩ | hr
      · exact hi.rebalances r hr c hc
      · rw [hr] at hc ⊢
        exact hrebalance c hc
    · intro r hr i hri
      rcases hinfos r hr with ⟨hr, -⟩ | hr
      · exact hi.known r hr i hri
      · rw [hr] at hri
        exact hknown i hri
    · intro l hl
      obtain ⟨j, hj, hid⟩ := hi.loaded l hl
      exact ⟨j, hmem j hj, hid⟩
    · intro m hm
      obtain ⟨⟨r, hr, hrid, hpayload⟩, hstarted⟩ := hi.moves m hm
      refine ⟨⟨r, mem_append_left _ hr, hrid, hpayload⟩, fun j hj hid => ?_⟩
      rcases hcases j hj with hj | ⟨hjid, -⟩
      · exact hstarted j hj hid
      · obtain ⟨k, hk, hkid⟩ := hi.listed r hr
        exact absurd (hkid.trans (hrid.trans (hid.symm.trans hjid))) (hfresh k hk)
    · intro m hm hrun k hk
      have hold := hi.apart m hm (hrunning m.1 hrun) k (hrunning k hk)
      have hkid : k ≠ id := by
        obtain ⟨j, hj, hid, -⟩ := running_iff.mp (hrunning k hk)
        exact fun h => hfresh j hj (hid.trans h)
      rw [Bool.eq_false_iff] at hold ⊢
      intro hhas
      obtain ⟨r, hr, hrid, hx⟩ := has_iff.mp hhas
      rcases hinfos r hr with ⟨hr, -⟩ | hr
      · exact hold (has_iff.mpr ⟨r, hr, hrid, hx⟩)
      · rw [hr] at hrid
        exact hkid hrid.symm

/-! ### Policies, and what the handlers do -/

theorem Inv.withPolicies (hi : Inv w) {policies : List Policy} {ids : List Uuid}
    (hids : w.policyIds ⊆ ids)
    (hold : ∀ p ∈ policies, (∃ s ∈ w.policies, s.id = p.id ∧ s.source = p.source) ∨
      (p.id ∉ w.policyIds ∧ p.id ∈ ids))
    (hsame : ∀ p ∈ policies, ∀ s ∈ policies, s.id = p.id → s.source = p.source) :
    Inv { w with policies, policyIds := ids } := by
  have hholds : ∀ r ∈ w.infos, ∀ x, World.holds { w with policies, policyIds := ids } r x = true →
      w.holds r x = true := by
    intro r hr x hx
    refine holds_mono { w with policies, policyIds := ids } ?_ (fun l hl _ => .inl hl) hx
    intro i hpayload p hp hid
    rcases hold p hp with ⟨s, hs, hsid, hsource⟩ | ⟨hnew, -⟩
    · exact ⟨s, hs, hsid.trans hid, hsource⟩
    · exact absurd (hid ▸ hi.known r hr i hpayload) hnew
  refine ⟨hi.queue, hi.listed, hi.unique, hi.keyed, ?_, hi.rebalances, ?_, ?_, ?_, hi.loaded, hi.moves, ?_⟩
  · exact fun r hr x hx => hi.own r hr x (hholds r hr x hx)
  · exact fun r hr i hpayload => hids (hi.known r hr i hpayload)
  · intro p hp
    refine ⟨?_, hsame p hp⟩
    rcases hold p hp with ⟨s, hs, hsid, -⟩ | ⟨-, hnew⟩
    · exact hsid ▸ hids (hi.policies s hs).1
    · exact hnew
  · intro p hp
    refine ⟨hids (hi.reads p hp).1, fun s hs hid => ?_⟩
    rcases hold s hs with ⟨t, ht, htid, hsource⟩ | ⟨hnew, -⟩
    · rw [← hsource]
      exact (hi.reads p hp).2 t ht (htid.trans hid)
    · exact absurd (hid ▸ (hi.reads p hp).1) hnew
  · intro m hm hrun k hk
    have hno := hi.apart m hm hrun k hk
    rw [Bool.eq_false_iff] at hno ⊢
    exact fun hhas => hno (has_of_has w { w with policies, policyIds := ids } rfl hholds hhas)

theorem Inv.createPolicy (hi : Inv w) {p : Policy} (hnew : p.id ∉ w.policyIds) :
    Inv { w with policies := w.policies ++ [p], policyIds := p.id :: w.policyIds } := by
  have hmem : ∀ s ∈ w.policies ++ [p], s ∈ w.policies ∧ s.id ≠ p.id ∨ s = p := by
    intro s hs
    rcases mem_append.mp hs with hs | hs
    · exact .inl ⟨hs, fun h => hnew (h ▸ (hi.policies s hs).1)⟩
    · exact .inr (mem_singleton.mp hs)
  refine hi.withPolicies (subset_cons_self _ _) ?_ ?_
  · intro s hs
    rcases hmem s hs with ⟨hs, -⟩ | rfl
    · exact .inl ⟨s, hs, rfl, rfl⟩
    · exact .inr ⟨hnew, mem_cons_self⟩
  · intro s hs t ht hid
    rcases hmem s hs with ⟨hs, hsp⟩ | hsp <;> rcases hmem t ht with ⟨ht, htp⟩ | htp
    · exact (hi.policies s hs).2 t ht hid
    · exact absurd (htp ▸ hid.symm) hsp
    · exact absurd (hsp ▸ hid) htp
    · rw [hsp, htp]

theorem Inv.setPolicy (hi : Inv w) (id : Uuid) (active : Bool) :
    Inv { w with policies := w.policies.map fun p => if p.id = id then { p with active } else p } := by
  have hkept : ∀ p : Policy, (if p.id = id then { p with active } else p).id = p.id ∧
      (if p.id = id then { p with active } else p).source = p.source := by
    intro p
    split_ifs <;> exact ⟨rfl, rfl⟩
  refine hi.withPolicies (List.Subset.refl _) ?_ ?_
  · intro s hs
    obtain ⟨p, hp, rfl⟩ := List.mem_map.mp hs
    exact .inl ⟨p, hp, (hkept p).1.symm, (hkept p).2.symm⟩
  · intro s hs t ht hid
    obtain ⟨p, hp, rfl⟩ := List.mem_map.mp hs
    obtain ⟨o, ho, rfl⟩ := List.mem_map.mp ht
    rw [(hkept p).1, (hkept o).1] at hid
    rw [(hkept p).2, (hkept o).2]
    exact (hi.policies p hp).2 o ho hid

theorem Inv.deletePolicy (hi : Inv w) (id : Uuid) :
    Inv { w with policies := w.policies.filter fun p => p.id ≠ id } := by
  refine hi.withPolicies (List.Subset.refl _) ?_ ?_
  · exact fun s hs => .inl ⟨s, mem_of_mem_filter hs, rfl, rfl⟩
  · intro s hs t ht hid
    exact (hi.policies s (mem_of_mem_filter hs)).2 t (mem_of_mem_filter ht) hid

theorem Inv.withReads (hi : Inv w) {reads : List Policy}
    (h : ∀ p ∈ reads, p ∈ w.reads ∨ p ∈ w.policies) : Inv { w with reads } := by
  refine ⟨hi.queue, hi.listed, hi.unique, hi.keyed, hi.own, hi.rebalances, hi.known, hi.policies,
    ?_, hi.loaded, hi.moves, hi.apart⟩
  intro p hp
  rcases h p hp with hp | hp
  · exact hi.reads p hp
  · exact hi.policies p hp

theorem isFor_iff {payload : Payload} :
    w.isFor id payload = true ↔ ∃ r ∈ w.infos, r.id = id ∧ r.payload = payload := by
  simp [World.isFor]

theorem Inv.loadPolicy (hi : Inv w) {p : Policy}
    (hfor : w.isFor id (.replicate p.id) = true) (hp : p ∈ w.policies) :
    Inv { w with loaded := (id, p) :: w.loaded } := by
  obtain ⟨s, hs, hsid, hpayload⟩ := isFor_iff.mp hfor
  have hholds : ∀ r ∈ w.infos, ∀ x, World.holds { w with loaded := (id, p) :: w.loaded } r x = true →
      w.holds r x = true := by
    intro r hr x hx
    refine holds_mono { w with loaded := (id, p) :: w.loaded } (fun i _ q hq hid => ⟨q, hq, hid, rfl⟩) ?_ hx
    intro l hl hid
    rcases mem_cons.mp hl with rfl | hl
    · have hrs : r = s := hi.unique r hr s hs (hid.symm.trans hsid.symm)
      exact .inr ⟨hp, hrs ▸ hpayload⟩
    · exact .inl hl
  refine ⟨hi.queue, hi.listed, hi.unique, hi.keyed, ?_, hi.rebalances, hi.known, hi.policies,
    hi.reads, ?_, hi.moves, ?_⟩
  · exact fun r hr x hx => hi.own r hr x (hholds r hr x hx)
  · intro l hl
    rcases mem_cons.mp hl with rfl | hl
    · exact hsid ▸ hi.listed s hs
    · exact hi.loaded l hl
  · intro m hm hrun k hk
    have hno := hi.apart m hm hrun k hk
    rw [Bool.eq_false_iff] at hno ⊢
    exact fun hhas => hno (has_of_has w { w with loaded := (id, p) :: w.loaded } rfl hholds hhas)

theorem Inv.withMoves (hi : Inv w) {moves : List (Id × MoveOne)}
    (h : ∀ m ∈ moves, (∃ o ∈ w.moves, o.1 = m.1 ∧ o.2.inst = m.2.inst) ∨
      ((∃ r ∈ w.infos, r.id = m.1 ∧ r.payload = .rebalance m.2.inst.clusterId) ∧
        (∀ j ∈ w.queue.jobs, j.id = m.1 → j.state ≠ .queued) ∧
        ∀ k, w.running k = true → w.has k m.2.inst = false)) : Inv { w with moves } := by
  refine ⟨hi.queue, hi.listed, hi.unique, hi.keyed, hi.own, hi.rebalances, hi.known, hi.policies,
    hi.reads, hi.loaded, ?_, ?_⟩
  · intro m hm
    rcases h m hm with ⟨o, ho, hid, hinst⟩ | ⟨hfor, hstarted, -⟩
    · rw [← hid, ← hinst]
      exact hi.moves o ho
    · exact ⟨hfor, hstarted⟩
  · intro m hm hrun k hk
    rcases h m hm with ⟨o, ho, hid, hinst⟩ | ⟨-, -, hno⟩
    · have := hi.apart o ho (hid.symm ▸ hrun) k hk
      rwa [hinst] at this
    · exact hno k hk

theorem not_queued_of_handles (hi : Inv w) (h : w.handles id = true) :
    ∀ j ∈ w.queue.jobs, j.id = id → j.state ≠ .queued := by
  simp only [World.handles, any_eq_true, Bool.and_eq_true, decide_eq_true_eq] at h
  obtain ⟨r, hr, e, he, rfl, -⟩ := h
  obtain ⟨i, hget⟩ := mem_iff_getElem?.mp hr
  have hclaimed : (e.1, i) ∈ w.queue.claims :=
    hi.queue.engaged i r hget e.1 (mem_append_right _ (mem_map_of_mem he))
  obtain ⟨k, hk, hkid, hstate⟩ := hi.queue.started _ hclaimed
  intro j hj hid
  have hjk : j = k := inj_on_of_nodup_map hi.queue.nodup hj hk (hid.trans hkid.symm)
  rw [hjk]
  exact hstate

/-! ### Every step -/

theorem step_keeps {w' : World Id} {a : Action Id} (hi : Inv w) (hok : MeetsNone w a)
    (h : w.step a = some w') : Inv w' := by
  cases a with
  | runner a =>
    simp only [World.step] at h
    split_ifs at h with hallows
    obtain ⟨q, hq, hw⟩ := map_eq_some_iff.mp h
    rw [← hw]
    refine hi.runner hq ?_ hok
    rintro id type at_ rfl
    exact absurd hallows (by simp [World.allows])
  | migrate id source createdAt =>
    refine hi.enqueueJob h ?_ (fun c hc => nomatch hc) (fun i hp => nomatch hp)
    intro r hpayload x _ hx
    have hsource : source = x := by simpa [World.holds, hpayload] using hx
    rw [hsource]
  | backup id inst createdAt =>
    refine hi.enqueueJob h ?_ (fun c hc => nomatch hc) (fun i hp => nomatch hp)
    intro r hpayload x _ hx
    have hinst : inst = x := by simpa [World.holds, hpayload] using hx
    rw [hinst]
  | lease id inst createdAt =>
    refine hi.enqueueJob h ?_ (fun c hc => nomatch hc) (fun i hp => nomatch hp)
    intro r hpayload x _ hx
    have hinst : inst = x := by simpa [World.holds, hpayload] using hx
    rw [hinst]
  | rebalance id clusterId createdAt =>
    refine hi.enqueueJob h ?_ ?_ (fun i hp => nomatch hp)
    · intro r hpayload x _ hx
      simp [World.holds, hpayload] at hx
    · intro c hc
      rw [Payload.rebalance.inj hc]
  | other id type key createdAt =>
    refine hi.enqueueJob h ?_ (fun c hc => nomatch hc) (fun i hp => nomatch hp)
    intro r hpayload x _ hx
    simp [World.holds, hpayload] at hx
  | createPolicy p =>
    simp only [World.step] at h
    split_ifs at h with hnew
    rw [← some.inj h]
    exact hi.createPolicy hnew
  | setPolicy id active =>
    rw [← some.inj h]
    exact hi.setPolicy id active
  | deletePolicy id =>
    rw [← some.inj h]
    exact hi.deletePolicy id
  | readPolicy p =>
    simp only [World.step] at h
    split_ifs at h with hp
    rw [← some.inj h]
    refine hi.withReads fun s hs => ?_
    rcases mem_append.mp hs with hs | hs
    · exact .inl hs
    · exact .inr (mem_singleton.mp hs ▸ hp.1)
  | runPolicy p id createdAt =>
    simp only [World.step] at h
    split_ifs at h with hp
    have hreads : Inv { w with reads := w.reads.erase p } :=
      hi.withReads fun s hs => .inl (mem_of_mem_erase hs)
    refine hreads.enqueueJob h ?_ (fun c hc => nomatch hc) ?_
    · -- What the run's policy is on is what was read, and the run has loaded nothing.
      intro r hpayload x hfresh hx
      simp only [World.holds, hpayload, Bool.or_eq_true, any_eq_true, Bool.and_eq_true,
        decide_eq_true_eq] at hx
      rcases hx with ⟨s, hs, hid, hsource⟩ | ⟨l, hl, hid, -⟩
      · rw [policyInstanceKey, ← (hi.reads p hp).2 s hs hid, hsource]
      · exact absurd hid (hfresh l hl)
    · intro i hpayload
      rw [← Payload.replicate.inj hpayload]
      exact (hi.reads p hp).1
  | loadPolicy id p =>
    simp only [World.step] at h
    split_ifs at h with hp
    rw [← some.inj h]
    exact hi.loadPolicy hp.2.1 hp.2.2
  | readForMove id inst =>
    simp only [World.step] at h
    split_ifs at h with hm
    rw [← some.inj h]
    refine hi.withMoves fun m hmem => ?_
    rcases mem_cons.mp hmem with rfl | hmem
    · exact .inr ⟨isFor_iff.mp hm.2.1, not_queued_of_handles hi hm.1, hok⟩
    · exact .inl ⟨m, hmem, rfl, rfl⟩
  | moveOn id m answer =>
    simp only [World.step] at h
    split_ifs at h with hm
    rw [← some.inj h]
    refine hi.withMoves fun o ho => .inl ?_
    rcases mem_append.mp ho with ho | ho
    · refine ⟨(id, m), hm.2, ?_⟩
      split at ho
      · rw [mem_singleton.mp ho]
        exact ⟨rfl, rfl⟩
      · exact nomatch ho
    · exact ⟨o, mem_of_mem_erase ho, rfl, rfl⟩

theorem inv_of_run (h : Run World.step MeetsNone World.boot w) : Inv w :=
  h.invariant inv_start fun _ _ _ hi hok hs => step_keeps hi hok hs

/-! ### One running job for an instance -/

def OneForEach (w : World Id) : Prop :=
  ∀ j k x, w.running j = true → w.running k = true → w.worksOn j x = true → w.worksOn k x = true → j = k

theorem oneForEach_of_inv (hi : Inv w) : OneForEach w := by
  intro j k x hj hk hjx hkx
  simp only [World.worksOn, Bool.or_eq_true] at hjx hkx
  have hmoves : ∀ i, w.movesNow i x = true → ∃ m ∈ w.moves, m.1 = i ∧ m.2.inst = x := by
    intro i h
    simpa [World.movesNow] using h
  rcases hjx with hjx | hjx <;> rcases hkx with hkx | hkx
  · -- Both have the instance: they were queued under its key.
    obtain ⟨r, hr, rfl, hrx⟩ := has_iff.mp hjx
    obtain ⟨s, hs, rfl, hsx⟩ := has_iff.mp hkx
    have hrk := hi.own r hr x hrx
    have hsk := hi.own s hs x hsx
    exact hi.keyed r hr s hs (active_of_running hj) (active_of_running hk) (by rw [hrk]; rfl)
      (hrk.trans hsk.symm)
  · obtain ⟨m, hm, rfl, rfl⟩ := hmoves k hkx
    rw [hi.apart m hm hk j hj] at hjx
    exact nomatch hjx
  · obtain ⟨m, hm, rfl, rfl⟩ := hmoves j hjx
    rw [hi.apart m hm hj k hk] at hkx
    exact nomatch hkx
  · -- Both move it: they are rebalances of its cluster.
    obtain ⟨m, hm, rfl, hmx⟩ := hmoves j hjx
    obtain ⟨o, ho, rfl, hox⟩ := hmoves k hkx
    obtain ⟨⟨r, hr, hrid, hrp⟩, -⟩ := hi.moves m hm
    obtain ⟨⟨s, hs, hsid, hsp⟩, -⟩ := hi.moves o ho
    have hrk := hi.rebalances r hr _ hrp
    have hsk := hi.rebalances s hs _ hsp
    rw [hmx] at hrk
    rw [hox] at hsk
    rw [← hrid, ← hsid]
    exact hi.keyed r hr s hs (hrid ▸ active_of_running hj) (hsid ▸ active_of_running hk) (by rw [hrk]; rfl)
      (hrk.trans hsk.symm)

/-- **One active job for an instance**: in every run in which a rebalance's move of an instance and
a running job of it never begin beside each other, no two running jobs work on the same instance. -/
theorem one_running_job_per_instance {w : World Id} (h : Run World.step MeetsNone World.boot w) :
    OneForEach w :=
  oneForEach_of_inv (inv_of_run h)

/-! ### A rebalance beside a migration -/

def migrated : InstanceRef := ⟨clusterC.id, nameA, nameI⟩

/-- A rebalance of the cluster and a migration of one of its instances, both accepted, both claimed
by one runner, and the rebalance comes to the instance. -/
def besideMove : List (Action ℕ) :=
  [.runner (.join "a" ["rebalance", "migrate"] 2 60000), .rebalance 0 clusterC.id 1, .migrate 1 migrated 2,
    .runner (.tick 0), .runner (.sweep 0 0), .runner (.beforeTick 0), .runner (.loop 0), .runner (.select 0),
    .runner (.claim 0 3), .runner (.launch 0), .runner (.loop 0), .runner (.select 0), .runner (.claim 0 4),
    .runner (.launch 0), .readForMove 0 migrated]

instance (w : World Id) (a : Action Id) : Decidable (MeetsNone w a) :=
  match a with
  | .runner a =>
    inferInstanceAs (Decidable (∀ k ∈ taken w.queue a, ∀ m ∈ w.moves, w.running m.1 = true →
      w.has k m.2.inst = false))
  | .readForMove _ x =>
    decidable_of_iff (∀ j ∈ w.queue.jobs, w.running j.id = true → w.has j.id x = false) (by
      constructor
      · intro h k hk
        obtain ⟨j, hj, rfl, -⟩ := running_iff.mp hk
        exact h j hj hk
      · intro h j _ hk
        exact h j.id hk)
  | .migrate _ _ _ | .backup _ _ _ | .lease _ _ _ | .rebalance _ _ _ | .other _ _ _ _ | .createPolicy _
  | .setPolicy _ _ | .deletePolicy _ | .readPolicy _ | .runPolicy _ _ _ | .loadPolicy _ _ | .moveOn _ _ _ =>
    isTrue trivial

def migrationAlone : List (Action ℕ) :=
  [.runner (.join "a" ["rebalance", "migrate"] 2 60000), .migrate 1 migrated 2, .runner (.tick 0),
    .runner (.sweep 0 0), .runner (.beforeTick 0), .runner (.loop 0), .runner (.select 0), .runner (.claim 0 3),
    .runner (.launch 0)]

theorem one_running_job_per_instance_alone :
    ∃ w : World ℕ, w.running 1 = true ∧ w.worksOn 1 migrated = true ∧ OneForEach w := by
  obtain ⟨w, hrun, hw⟩ : ∃ w : World ℕ, Run World.step MeetsNone World.boot w ∧
      (w.running 1 = true ∧ w.worksOn 1 migrated = true) :=
    Run.exists_of_exec migrationAlone (by decide)
  exact ⟨w, hw.1, hw.2, one_running_job_per_instance hrun⟩

/-- A rebalance moves an instance whose migration runs. -/
theorem rebalance_beside_migration :
    ¬ ∀ w : World ℕ, Run World.step (fun _ _ => True) World.boot w → OneForEach w := by
  intro h
  obtain ⟨w, hrun, hw⟩ : ∃ w : World ℕ, Run World.step (fun _ _ => True) World.boot w ∧
      (w.running 0 = true ∧ w.running 1 = true ∧ w.worksOn 0 migrated = true ∧
        w.worksOn 1 migrated = true) :=
    Run.exists_of_exec besideMove (by decide)
  exact absurd (h w hrun 0 1 migrated hw.1 hw.2.1 hw.2.2.1 hw.2.2.2) (by decide)

end IncusCloud.Jobs.Instances
