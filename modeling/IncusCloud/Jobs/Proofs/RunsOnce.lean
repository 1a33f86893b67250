import IncusCloud.Jobs.Runner
import IncusCloud.Lib.Run
import IncusCloud.Lib.Slots
import Mathlib.Order.Nat

/-!
# A job runs once, and its end is final

The claim of a job is conditional on its being queued, and no statement queues a job again: so a job
is claimed once, and launched once. A tick launches only while there is room, and nothing but its
own tick adds to a runner's handlers.

`finish` is not conditional: it writes the outcome whatever the state is by then. The end of a job
is final in every run in which no tick fails a job as interrupted that a runner still works on.
-/

open List
open Option (map_eq_some_iff some.inj)

namespace IncusCloud.Jobs

open Lib (Run getElem?_set_cases)
open Prod (mk.inj)

variable {Id : Type} {i : ℕ} {r r' : Runner Id} {id : Id} {q q' : Queue Id} {a : Action Id}

def TickPhase.claims : TickPhase Id → List Id
  | claimed id => [id]
  | _ => []

def TickPhase.admits : TickPhase Id → ℕ
  | selecting => 1
  | chosen _ => 1
  | claimed _ => 1
  | _ => 0

def Runner.engaged (r : Runner Id) : List Id := r.phase.claims ++ r.active.map (·.1)

def Runner.working (r : Runner Id) : List Id :=
  r.phase.claims ++ (r.active.filter fun e => e.2 ≠ .finished).map (·.1)

/-! ### Claims and launches -/

structure Inv (jobs : List (JobRow Id)) (runners : List (Runner Id)) (claims : List (Id × ℕ))
    (launches : List Id) : Prop where
  nodup : (jobs.map (·.id)).Nodup
  claimed : (claims.map (·.1)).Nodup
  started : ∀ c ∈ claims, ∃ j ∈ jobs, j.id = c.1 ∧ j.state ≠ .queued
  engaged : ∀ (i : ℕ) (r : Runner Id), runners[i]? = some r → ∀ id ∈ r.engaged, (id, i) ∈ claims
  apart : ∀ (i : ℕ) (r : Runner Id), runners[i]? = some r →
    ∀ id ∈ r.phase.claims, id ∉ r.active.map (·.1)
  once : launches.Nodup
  launched : ∀ id ∈ launches, ∃ i, (id, i) ∈ claims ∧
    ∀ r : Runner Id, runners[i]? = some r → id ∉ r.phase.claims
  room : ∀ (i : ℕ) (r : Runner Id), runners[i]? = some r →
    r.active.length + r.phase.admits ≤ r.concurrency

variable {jobs : List (JobRow Id)} {runners : List (Runner Id)} {claims : List (Id × ℕ)}
  {launches : List Id}

theorem Inv.put (hi : Inv jobs runners claims launches)
    (hr : runners[i]? = some r) (hclaims : r'.phase.claims ⊆ r.phase.claims)
    (hactive : r'.active.map (·.1) ⊆ r.active.map (·.1))
    (hroom : r'.active.length + r'.phase.admits ≤ r'.concurrency) :
    Inv jobs (runners.set i r') claims launches := by
  refine ⟨hi.nodup, hi.claimed, hi.started, ?_, ?_, hi.once, ?_, ?_⟩
  · intro k s hs id hid
    rcases getElem?_set_cases hs with ⟨rfl, rfl⟩ | ⟨-, hs⟩
    · refine hi.engaged k r hr id ?_
      rcases mem_append.mp hid with hid | hid
      · exact mem_append_left _ (hclaims hid)
      · exact mem_append_right _ (hactive hid)
    · exact hi.engaged k s hs id hid
  · intro k s hs id hid
    rcases getElem?_set_cases hs with ⟨rfl, rfl⟩ | ⟨-, hs⟩
    · exact fun h => hi.apart k r hr id (hclaims hid) (hactive h)
    · exact hi.apart k s hs id hid
  · intro id hid
    obtain ⟨k, hk, hnot⟩ := hi.launched id hid
    refine ⟨k, hk, fun s hs => ?_⟩
    rcases getElem?_set_cases hs with ⟨rfl, rfl⟩ | ⟨-, hs⟩
    · exact fun h => hnot r hr (hclaims h)
    · exact hnot s hs
  · intro k s hs
    rcases getElem?_set_cases hs with ⟨rfl, rfl⟩ | ⟨-, hs⟩
    · exact hroom
    · exact hi.room k s hs

theorem Inv.write (hi : Inv jobs runners claims launches) (g : JobRow Id → JobRow Id)
    (hid : ∀ j, (g j).id = j.id) (hq : ∀ j, j.state ≠ .queued → (g j).state ≠ .queued) :
    Inv (jobs.map g) runners claims launches := by
  refine ⟨?_, hi.claimed, ?_, hi.engaged, hi.apart, hi.once, hi.launched, hi.room⟩
  · rw [map_map, show (·.id) ∘ g = (·.id) from funext hid]
    exact hi.nodup
  · intro c hc
    obtain ⟨j, hj, hjid, hjq⟩ := hi.started c hc
    exact ⟨g j, mem_map_of_mem hj, (hid j).trans hjid, hq j hjq⟩

theorem Inv.enqueue (hi : Inv jobs runners claims launches) {j : JobRow Id}
    (hnew : ∀ k ∈ jobs, k.id ≠ j.id) : Inv (jobs ++ [j]) runners claims launches := by
  refine ⟨?_, hi.claimed, ?_, hi.engaged, hi.apart, hi.once, hi.launched, hi.room⟩
  · rw [map_append, nodup_append]
    refine ⟨hi.nodup, by simp, ?_⟩
    rintro a ha b hb rfl
    obtain ⟨k, hk, rfl⟩ := List.mem_map.mp ha
    exact hnew k hk (by simpa using hb)
  · intro c hc
    obtain ⟨k, hk, h⟩ := hi.started c hc
    exact ⟨k, mem_append_left _ hk, h⟩

theorem Inv.join (hi : Inv jobs runners claims launches)
    (hphase : r.phase = .idle) (hactive : r.active = []) :
    Inv jobs (runners ++ [r]) claims launches := by
  have hget : ∀ (k : ℕ) (s : Runner Id), (runners ++ [r])[k]? = some s → runners[k]? = some s ∨ s = r := by
    intro k s hs
    rw [List.getElem?_append] at hs
    split_ifs at hs
    · exact .inl hs
    · exact .inr (mem_singleton.mp (mem_of_getElem? hs))
  refine ⟨hi.nodup, hi.claimed, hi.started, ?_, ?_, hi.once, ?_, ?_⟩
  · intro k s hs id hid
    rcases hget k s hs with hs | rfl
    · exact hi.engaged k s hs id hid
    · simp [Runner.engaged, hphase, hactive, TickPhase.claims] at hid
  · intro k s hs id hid
    rcases hget k s hs with hs | rfl
    · exact hi.apart k s hs id hid
    · simp [hphase, TickPhase.claims] at hid
  · intro id hid
    obtain ⟨k, hk, hnot⟩ := hi.launched id hid
    refine ⟨k, hk, fun s hs => ?_⟩
    rcases hget k s hs with hs | rfl
    · exact hnot s hs
    · simp [hphase, TickPhase.claims]
  · intro k s hs
    rcases hget k s hs with hs | rfl
    · exact hi.room k s hs
    · simp [hphase, hactive, TickPhase.admits]

theorem Inv.claim (hi : Inv jobs runners claims launches)
    (hr : runners[i]? = some r) (hnew : id ∉ claims.map (·.1))
    (hj : ∃ j ∈ jobs, j.id = id ∧ j.state ≠ .queued) (hphase : r'.phase = .claimed id)
    (hactive : r'.active = r.active) (hroom : r.active.length + 1 ≤ r'.concurrency) :
    Inv jobs (runners.set i r') ((id, i) :: claims) launches := by
  have hnot : id ∉ r.active.map (·.1) := fun h =>
    hnew (List.mem_map.mpr ⟨_, hi.engaged i r hr id (mem_append_right _ h), rfl⟩)
  refine ⟨hi.nodup, nodup_cons.mpr ⟨hnew, hi.claimed⟩, ?_, ?_, ?_, hi.once, ?_, ?_⟩
  · intro c hc
    rcases mem_cons.mp hc with rfl | hc
    · exact hj
    · exact hi.started c hc
  · intro k s hs id' hid'
    rcases getElem?_set_cases hs with ⟨rfl, rfl⟩ | ⟨-, hs⟩
    · rw [Runner.engaged, hphase, hactive] at hid'
      rcases mem_append.mp hid' with hid' | hid'
      · rw [mem_singleton.mp hid']
        exact mem_cons_self
      · exact mem_cons_of_mem _ (hi.engaged k r hr id' (mem_append_right _ hid'))
    · exact mem_cons_of_mem _ (hi.engaged k s hs id' hid')
  · intro k s hs id' hid'
    rcases getElem?_set_cases hs with ⟨rfl, rfl⟩ | ⟨-, hs⟩
    · rw [hphase] at hid'
      rw [mem_singleton.mp hid', hactive]
      exact hnot
    · exact hi.apart k s hs id' hid'
  · intro id' hid'
    obtain ⟨k, hk, hclaims⟩ := hi.launched id' hid'
    refine ⟨k, mem_cons_of_mem _ hk, fun s hs => ?_⟩
    rcases getElem?_set_cases hs with ⟨rfl, rfl⟩ | ⟨-, hs⟩
    · rw [hphase]
      -- What was launched was claimed before, so it is another job.
      intro h
      rw [mem_singleton.mp h] at hk
      exact hnew (List.mem_map.mpr ⟨_, hk, rfl⟩)
    · exact hclaims s hs
  · intro k s hs
    rcases getElem?_set_cases hs with ⟨rfl, rfl⟩ | ⟨-, hs⟩
    · rw [hphase, hactive]
      exact hroom
    · exact hi.room k s hs

theorem Inv.not_launched (hi : Inv jobs runners claims launches)
    (hr : runners[i]? = some r) (hid : id ∈ r.phase.claims) : id ∉ launches := by
  intro h
  obtain ⟨k, hk, hnot⟩ := hi.launched id h
  have hi' := hi.engaged i r hr id (mem_append_left _ hid)
  obtain rfl : k = i := congrArg Prod.snd (inj_on_of_nodup_map hi.claimed hk hi' rfl)
  exact hnot r hr hid

theorem Inv.launch (hi : Inv jobs runners claims launches)
    {p : HandlerPhase} {launches' : List Id} (hr : runners[i]? = some r)
    (hphase : r.phase = .claimed id) (hphase' : r'.phase = .looping)
    (hactive : r'.active = r.active ++ [(id, p)]) (hroom : r'.concurrency = r.concurrency)
    (hl : launches' = launches ∨ launches' = id :: launches) :
    Inv jobs (runners.set i r') claims launches' := by
  have hin : id ∈ r.phase.claims := by
    rw [hphase]
    exact mem_singleton_self id
  have hmem : ∀ x ∈ launches', x = id ∨ x ∈ launches := by
    rcases hl with rfl | rfl
    · exact fun x hx => .inr hx
    · exact fun x hx => mem_cons.mp hx
  refine ⟨hi.nodup, hi.claimed, hi.started, ?_, ?_, ?_, ?_, ?_⟩
  · intro k s hs x hx
    rcases getElem?_set_cases hs with ⟨rfl, rfl⟩ | ⟨-, hs⟩
    · refine hi.engaged k r hr x ?_
      rw [Runner.engaged, hphase', hactive, map_append] at hx
      rw [Runner.engaged, hphase]
      simp only [TickPhase.claims, map_cons, map_nil, mem_append,
        mem_singleton, not_mem_nil, false_or] at hx ⊢
      exact hx.symm
    · exact hi.engaged k s hs x hx
  · intro k s hs x hx
    rcases getElem?_set_cases hs with ⟨rfl, rfl⟩ | ⟨-, hs⟩
    · simp [hphase', TickPhase.claims] at hx
    · exact hi.apart k s hs x hx
  · rcases hl with rfl | rfl
    · exact hi.once
    · exact nodup_cons.mpr ⟨hi.not_launched hr hin, hi.once⟩
  · intro x hx
    obtain ⟨k, hk, hnot⟩ : ∃ k, (x, k) ∈ claims ∧
        ∀ s : Runner Id, runners[k]? = some s → k ≠ i → x ∉ s.phase.claims := by
      rcases hmem x hx with rfl | hx
      · refine ⟨i, hi.engaged i r hr x (mem_append_left _ hin), fun s _ h => absurd rfl h⟩
      · obtain ⟨k, hk, hnot⟩ := hi.launched x hx
        exact ⟨k, hk, fun s hs _ => hnot s hs⟩
    refine ⟨k, hk, fun s hs => ?_⟩
    rcases getElem?_set_cases hs with ⟨rfl, rfl⟩ | ⟨hne, hs⟩
    · simp [hphase', TickPhase.claims]
    · exact hnot s hs hne
  · intro k s hs
    rcases getElem?_set_cases hs with ⟨rfl, rfl⟩ | ⟨-, hs⟩
    · have := hi.room k r hr
      rw [hphase] at this
      rw [hphase', hactive, length_append, hroom]
      exact this
    · exact hi.room k s hs

/-! ### What a step does -/

structure Lets (r r' : Runner Id) : Prop where
  claims : r'.phase.claims ⊆ r.phase.claims
  active : r'.active.map (·.1) ⊆ r.active.map (·.1)
  working : r'.working ⊆ r.working
  room : r.active.length + r.phase.admits ≤ r.concurrency →
    r'.active.length + r'.phase.admits ≤ r'.concurrency

/-- The step is a tick that fails job `j` as interrupted. -/
def swept (q : Queue Id) (a : Action Id) (j : JobRow Id) : Bool :=
  match a with
  | .sweep i staleBefore => q.runners[i]?.any fun r => stale r.holder staleBefore j
  | _ => false

theorem running_of_swept {j : JobRow Id} (h : swept q a j = true) : j.state = .running := by
  cases a with
  | sweep i staleBefore =>
    obtain ⟨r, -, h⟩ := (Option.any_eq_true _ _).mp h
    simp only [stale, Bool.and_eq_true, decide_eq_true_eq] at h
    exact h.1.1
  | _ => cases h

inductive Effect (q : Queue Id) (a : Action Id) : List (JobRow Id) → List (Runner Id) →
    List (Id × ℕ) → List Id → Prop
  | quiet : Effect q a q.jobs q.runners q.claims q.launches
  | enqueue (j : JobRow Id) (hnew : ∀ k ∈ q.jobs, k.id ≠ j.id) :
    Effect q a (q.jobs ++ [j]) q.runners q.claims q.launches
  | join (r : Runner Id) (hphase : r.phase = .idle) (hactive : r.active = []) :
    Effect q a q.jobs (q.runners ++ [r]) q.claims q.launches
  | cancel (g : JobRow Id → JobRow Id) (hid : ∀ j, (g j).id = j.id)
    (hstate : ∀ j, (g j).state = j.state ∨ (j.state = .queued ∧ (g j).state = .cancelled)) :
    Effect q a (q.jobs.map g) q.runners q.claims q.launches
  /-- A runner goes on; it may write jobs that it sweeps, or the end of one it works on. -/
  | goes (i : ℕ) (r r' : Runner Id) (g : JobRow Id → JobRow Id) (hr : q.runners[i]? = some r)
    (hlets : Lets r r') (hid : ∀ j, (g j).id = j.id)
    (hstate : ∀ j, (g j).state = j.state ∨ ((g j).state = .failed ∧ swept q a j = true) ∨
      (j.id ∈ r.working ∧ j.id ∉ r'.working ∧ (g j).state.final = true)) :
    Effect q a (q.jobs.map g) (q.runners.set i r') q.claims q.launches
  | claim (i : ℕ) (r r' : Runner Id) (id : Id) (g : JobRow Id → JobRow Id)
    (hr : q.runners[i]? = some r) (hphase : r'.phase = .claimed id)
    (hactive : r'.active = r.active)
    (hroom : r.active.length + r.phase.admits ≤ r.concurrency →
      r.active.length + 1 ≤ r'.concurrency)
    (hj : ∃ j ∈ q.jobs, j.id = id ∧ j.state = .queued) (hid : ∀ j, (g j).id = j.id)
    (hstate : ∀ j, (g j).state = j.state ∨ (j.state = .queued ∧ (g j).state = .running))
    (hg : ∀ j, j.id = id → j.state = .queued → (g j).state = .running) :
    Effect q a (q.jobs.map g) (q.runners.set i r') ((id, i) :: q.claims) q.launches
  | launch (i : ℕ) (r r' : Runner Id) (id : Id) (p : HandlerPhase) (launches : List Id)
    (hr : q.runners[i]? = some r) (hphase : r.phase = .claimed id)
    (hphase' : r'.phase = .looping) (hactive : r'.active = r.active ++ [(id, p)])
    (hroom : r'.concurrency = r.concurrency)
    (hl : launches = q.launches ∨ launches = id :: q.launches) :
    Effect q a q.jobs (q.runners.set i r') q.claims launches

theorem Effect.moves
    (hr : q.runners[i]? = some r) (hlets : Lets r r') :
    Effect q a q.jobs (q.runners.set i r') q.claims q.launches := by
  have h : Effect q a (q.jobs.map id) (q.runners.set i r') q.claims q.launches :=
    .goes i r r' id hr hlets (fun _ => rfl) fun _ => .inl rfl
  rwa [map_id] at h

theorem lets_phase {holder : String} {handlers : List String} {n : ℕ} {ms : Int}
    {stopped stopped' : Bool} {phase phase' : TickPhase Id} {active : List (Id × HandlerPhase)}
    (hc : phase'.claims = []) (ha : phase'.admits ≤ phase.admits ∨ active.length < n) :
    Lets ⟨holder, handlers, n, ms, stopped, phase, active⟩
      ⟨holder, handlers, n, ms, stopped', phase', active⟩ := by
  refine ⟨by simp [hc], fun _ h => h, ?_, ?_⟩
  · rw [Runner.working, Runner.working, hc, nil_append]
    exact subset_append_right _ _
  · intro hroom
    have h1 : phase'.admits ≤ 1 := by cases phase' <;> simp [TickPhase.admits]
    rcases ha with ha | ha
    · exact le_trans (Nat.add_le_add_left ha _) hroom
    · exact le_trans (Nat.add_le_add_left h1 _) ha

theorem lets_handlers {g : Id × HandlerPhase → Id × HandlerPhase}
    (hid : ∀ e, (g e).1 = e.1) (hf : ∀ e, e.2 = .finished → (g e).2 = .finished) :
    Lets r { r with active := r.active.map g } := by
  have hids : (r.active.map g).map (·.1) = r.active.map (·.1) := by
    rw [map_map]
    exact map_congr_left fun e _ => hid e
  refine ⟨fun _ h => h, hids ▸ fun _ h => h, ?_, fun h => by simpa using h⟩
  intro x hx
  rcases mem_append.mp hx with hx | hx
  · exact mem_append_left _ hx
  · refine mem_append_right _ ?_
    obtain ⟨e', he', rfl⟩ := List.mem_map.mp hx
    obtain ⟨he', hne⟩ := mem_filter.mp he'
    obtain ⟨e, he, rfl⟩ := List.mem_map.mp he'
    refine List.mem_map.mpr ⟨e, mem_filter.mpr ⟨he, ?_⟩, (hid e).symm⟩
    have hne : (g e).2 ≠ .finished := by simpa using hne
    simpa using fun h => hne (hf e h)

theorem lets_filter (r : Runner Id) (p : Id × HandlerPhase → Bool) :
    Lets r { r with active := r.active.filter p } := by
  have hsub : (r.active.filter p).Sublist r.active := filter_sublist
  refine ⟨fun _ h => h, (hsub.map _).subset, ?_, ?_⟩
  · intro x hx
    rcases mem_append.mp hx with hx | hx
    · exact mem_append_left _ hx
    · exact mem_append_right _ (((hsub.filter _).map _).subset hx)
  · intro h
    exact le_trans (Nat.add_le_add_right hsub.length_le _) h

theorem not_claimed_of_queued (hi : Inv jobs runners claims launches) {j : JobRow Id}
    (hj : j ∈ jobs) (hq : j.state = .queued) : j.id ∉ claims.map (·.1) := by
  intro h
  obtain ⟨c, hc, hid⟩ := List.mem_map.mp h
  obtain ⟨k, hk, hkid, hkq⟩ := hi.started c hc
  obtain rfl : k = j := inj_on_of_nodup_map hi.nodup hk hj (hkid.trans hid)
  exact hkq hq

theorem inv_boot : Inv (Queue.boot : Queue Id).jobs (Queue.boot : Queue Id).runners
    (Queue.boot : Queue Id).claims (Queue.boot : Queue Id).launches := by
  refine ⟨nodup_nil, nodup_nil, ?_, ?_, ?_, nodup_nil, ?_, ?_⟩ <;>
    simp [Queue.boot]

section Step

variable [DecidableEq Id]

theorem updateJob_id {p : JobRow Id → Bool} {f : JobRow Id → JobRow Id}
    (hf : ∀ j, (f j).id = j.id) (j : JobRow Id) : (if j.id = id ∧ p j then f j else j).id = j.id := by
  split_ifs
  · exact hf j
  · rfl

theorem hits_iff {jobs : List (JobRow Id)} {p : JobRow Id → Bool} :
    hits jobs id p = true ↔ ∃ j ∈ jobs, j.id = id ∧ p j = true := by
  simp [hits]

theorem lets_setHandler {p p' : HandlerPhase} (he : (id, p) ∈ r.active)
    (hp : p ≠ .finished) : Lets r { r with active := setHandler r.active id p' } := by
  have hids : (setHandler r.active id p').map (·.1) = r.active.map (·.1) := by
    rw [setHandler, map_map]
    refine map_congr_left fun e _ => ?_
    show (if e.1 = id then (id, p') else e).1 = e.1
    split_ifs with h
    · exact h.symm
    · rfl
  refine ⟨fun _ h => h, hids ▸ fun _ h => h, ?_, fun h => by simpa [setHandler] using h⟩
  intro x hx
  rcases mem_append.mp hx with hx | hx
  · exact mem_append_left _ hx
  · refine mem_append_right _ ?_
    obtain ⟨e', he', rfl⟩ := List.mem_map.mp hx
    obtain ⟨he', hne⟩ := mem_filter.mp he'
    obtain ⟨e, hmem, rfl⟩ := List.mem_map.mp he'
    split_ifs at hne ⊢ with h
    · exact List.mem_map.mpr ⟨_, mem_filter.mpr ⟨he, by simpa using hp⟩, rfl⟩
    · exact List.mem_map.mpr ⟨e, mem_filter.mpr ⟨hmem, hne⟩, rfl⟩

theorem effect_finish
    {ending : Ending} (hi : Inv q.jobs q.runners q.claims q.launches)
    (hr : q.runners[i]? = some r)
    (he : r.active.find? (fun e => e.1 = id) = some (id, .finishing ending)) :
    Effect q a
      (updateJob q.jobs id (fun _ => true) fun j => { j with state := ending.state })
      (q.runners.set i { r with active := setHandler r.active id .finished }) q.claims
      q.launches := by
  have hmem := mem_of_find?_eq_some he
  refine .goes i r _ _ hr (lets_setHandler hmem (nomatch ·)) (updateJob_id fun _ => rfl) ?_
  intro j
  split_ifs with h
  · obtain ⟨rfl, -⟩ := h
    refine .inr (.inr ⟨?_, ?_, by cases ending <;> rfl⟩)
    · refine mem_append_right _ (List.mem_map.mpr ⟨_, mem_filter.mpr ⟨hmem, ?_⟩, rfl⟩)
      simp
    · intro hw
      rcases mem_append.mp hw with hw | hw
      · exact hi.apart i r hr j.id hw (List.mem_map.mpr ⟨_, hmem, rfl⟩)
      · obtain ⟨e', he', hid⟩ := List.mem_map.mp hw
        obtain ⟨he', hne⟩ := mem_filter.mp he'
        obtain ⟨e, -, rfl⟩ := List.mem_map.mp he'
        split_ifs at hid hne with heq
        · simp at hne
        · exact heq hid
  · exact .inl rfl

theorem effect_sweep {staleBefore : ℤ} (h : q.step (.sweep i staleBefore) = some q') :
    Effect q (.sweep i staleBefore) q'.jobs q'.runners q'.claims q'.launches := by
  unfold Queue.step at h
  dsimp only at h
  split at h
  · rename_i holder handlers n ms stopped active hr
    obtain rfl := some.inj h
    refine .goes i _ _ _ hr (lets_phase rfl (.inl le_rfl)) (fun j => ?_) fun j => ?_
    · split_ifs <;> rfl
    · split_ifs with hst
      · refine .inr (.inl ⟨rfl, ?_⟩)
        rw [swept, hr]
        exact hst
      · exact .inl rfl
  · cases h

theorem effect_loop (h : q.step (.loop i) = some q') :
    Effect q (.loop i) q'.jobs q'.runners q'.claims q'.launches := by
  unfold Queue.step at h
  dsimp only at h
  split at h
  · rename_i holder handlers n ms stopped active hr
    obtain rfl := some.inj h
    refine .moves hr (lets_phase ?_ ?_)
    · split_ifs <;> rfl
    · split_ifs with hroom
      · simp only [Bool.and_eq_true, decide_eq_true_eq] at hroom
        exact .inr hroom.2
      · exact .inl le_rfl
  · cases h

theorem effect_claim {now : ℤ} (h : q.step (.claim i now) = some q') :
    Effect q (.claim i now) q'.jobs q'.runners q'.claims q'.launches := by
  unfold Queue.step at h
  dsimp only at h
  split at h
  · rename_i holder handlers n ms stopped id active hr
    split_ifs at h with hhit
    · obtain rfl := some.inj h
      obtain ⟨j, hj, hid, hq⟩ := hits_iff.mp hhit
      refine .claim i _ _ id _ hr rfl rfl (fun h => h) ⟨j, hj, hid, by simpa using hq⟩
        (updateJob_id fun _ => rfl) (fun k => ?_) fun k hk hkq => ?_
      · split_ifs with hk
        · exact .inr ⟨by simpa using hk.2, rfl⟩
        · exact .inl rfl
      · rw [if_pos ⟨hk, by simpa using hkq⟩]
    · obtain rfl := some.inj h
      exact .moves hr (lets_phase rfl (.inl (Nat.zero_le _)))
  · cases h

theorem effect_launch (h : q.step (.launch i) = some q') :
    Effect q (.launch i) q'.jobs q'.runners q'.claims q'.launches := by
  unfold Queue.step at h
  dsimp only at h
  split at h
  · rename_i holder handlers n ms stopped id active hr
    split_ifs at h
    · obtain rfl := some.inj h
      exact .launch i _ _ id _ _ hr rfl rfl rfl rfl (.inr rfl)
    · obtain rfl := some.inj h
      exact .launch i _ _ id _ _ hr rfl rfl rfl rfl (.inl rfl)
  · cases h

theorem effect_beat {now : ℤ} (h : q.step (.beat i id now) = some q') :
    Effect q (.beat i id now) q'.jobs q'.runners q'.claims q'.launches := by
  unfold Queue.step at h
  dsimp only at h
  split at h
  · rename_i r hr
    split_ifs at h
    obtain rfl := some.inj h
    refine .goes i r _ _ hr (lets_handlers (fun e => ?_) fun e hf => ?_)
      (updateJob_id fun _ => rfl) fun j => .inl ?_
    · split_ifs with he
      · exact he.1.symm
      · rfl
    · split_ifs with he
      · rw [hf] at he
        simp at he
      · exact hf
    · split_ifs <;> rfl
  · cases h

theorem effect_handlerEnds {ok : Bool} (h : q.step (.handlerEnds i id ok) = some q') :
    Effect q (.handlerEnds i id ok) q'.jobs q'.runners q'.claims q'.launches := by
  unfold Queue.step at h
  dsimp only at h
  split at h
  · rename_i r hr
    split at h
    · rename_i id' aborted he
      obtain rfl := some.inj h
      have hid : id' = id := by simpa using List.find?_some he
      obtain rfl := hid
      exact .moves hr (lets_setHandler (mem_of_find?_eq_some he) (nomatch ·))
    · cases h
  · cases h

theorem effect_abort (h : q.step (.abort i) = some q') :
    Effect q (.abort i) q'.jobs q'.runners q'.claims q'.launches := by
  unfold Queue.step at h
  dsimp only at h
  split at h
  · rename_i hr
    obtain rfl := some.inj h
    refine .moves hr (lets_handlers (fun e => ?_) fun e hf => ?_)
    · split_ifs <;> rfl
    · rw [if_neg (by simp [hf])]
      exact hf
  · cases h

theorem step_effect
    (hi : Inv q.jobs q.runners q.claims q.launches) (h : q.step a = some q') :
    Effect q a q'.jobs q'.runners q'.claims q'.launches := by
  cases a with
  | clock now =>
    obtain rfl := some.inj h
    exact .quiet
  | enqueue id type createdAt =>
    unfold Queue.step at h
    dsimp only at h
    split_ifs at h with hnew
    obtain rfl := some.inj h
    exact .enqueue _ (by simpa using hnew)
  | join holder handlers concurrency leaseMs =>
    obtain rfl := some.inj h
    exact .join _ rfl rfl
  | tick i =>
    unfold Queue.step at h
    dsimp only at h
    split at h
    · rename_i hr
      obtain rfl := some.inj h
      refine .moves hr (lets_phase ?_ (.inl ?_))
      · split_ifs <;> rfl
      · split_ifs <;> exact le_rfl
    · cases h
  | sweep i staleBefore => exact effect_sweep h
  | beforeTick i =>
    unfold Queue.step at h
    dsimp only at h
    split at h
    · rename_i hr
      obtain rfl := some.inj h
      exact .moves hr (lets_phase rfl (.inl le_rfl))
    · cases h
  | loop i => exact effect_loop h
  | select i =>
    unfold Queue.step at h
    dsimp only at h
    split at h
    · rename_i hr
      obtain rfl := some.inj h
      refine .moves hr (lets_phase ?_ (.inl ?_))
      · cases next q.jobs <;> rfl
      · cases next q.jobs <;> simp [TickPhase.admits]
    · cases h
  | claim i now => exact effect_claim h
  | launch i => exact effect_launch h
  | fail i =>
    obtain ⟨r, hr, rfl⟩ := map_eq_some_iff.mp h
    exact .moves hr (lets_phase rfl (.inl (Nat.zero_le _)))
  | beat i id now => exact effect_beat h
  | handlerEnds i id ok => exact effect_handlerEnds h
  | finish i id =>
    unfold Queue.step at h
    dsimp only at h
    split at h
    · rename_i r hr
      split at h
      · rename_i id' ending he
        obtain rfl := some.inj h
        have hid : id' = id := by simpa using List.find?_some he
        obtain rfl := hid
        exact effect_finish hi hr he
      · cases h
    · cases h
  | settle i id =>
    unfold Queue.step at h
    dsimp only at h
    split at h
    · rename_i r hr
      split at h
      · obtain rfl := some.inj h
        exact .moves hr (lets_filter r _)
      · cases h
    · cases h
  | stop i =>
    obtain ⟨r, hr, rfl⟩ := map_eq_some_iff.mp h
    exact .moves hr ⟨fun _ h => h, fun _ h => h, fun _ h => h, fun h => h⟩
  | abort i => exact effect_abort h
  | release i =>
    unfold Queue.step at h
    dsimp only at h
    split at h
    · obtain rfl := some.inj h
      exact .quiet
    · cases h
  | start i =>
    unfold Queue.step at h
    dsimp only at h
    split at h
    · rename_i hr
      obtain rfl := some.inj h
      exact .moves hr (lets_phase rfl (.inl le_rfl))
    · cases h
  | crash i =>
    obtain ⟨r, hr, rfl⟩ := map_eq_some_iff.mp h
    refine .moves hr ⟨?_, ?_, ?_, ?_⟩ <;> simp [TickPhase.claims, Runner.working, TickPhase.admits]
  | cancel id =>
    obtain rfl := some.inj h
    exact .quiet
  | cancelStep k =>
    unfold Queue.step at h
    dsimp only at h
    split at h
    · split_ifs at h
      · obtain rfl := some.inj h
        refine .cancel _ (updateJob_id fun _ => rfl) fun j => ?_
        split_ifs with hj
        · exact .inr ⟨by simpa using hj.2, rfl⟩
        · exact .inl rfl
      · obtain rfl := some.inj h
        exact .quiet
    · obtain rfl := some.inj h
      refine .cancel _ (updateJob_id fun _ => rfl) fun j => .inl ?_
      split_ifs <;> rfl
    · cases h

theorem step_inv
    (hi : Inv q.jobs q.runners q.claims q.launches) (h : q.step a = some q') :
    Inv q'.jobs q'.runners q'.claims q'.launches := by
  have he := step_effect hi h
  generalize q'.jobs = jobs', q'.runners = runners', q'.claims = claims',
    q'.launches = launches' at he ⊢
  cases he with
  | quiet => exact hi
  | enqueue j hnew => exact hi.enqueue hnew
  | join r hphase hactive => exact hi.join hphase hactive
  | cancel g hid hstate =>
    refine hi.write g hid fun j hq => ?_
    rcases hstate j with h | ⟨h, -⟩
    · rwa [h]
    · exact absurd h hq
  | goes i r r' g hr hlets hid hstate =>
    refine (hi.put hr hlets.claims hlets.active (hlets.room (hi.room i r hr))).write g hid
      fun j hq => ?_
    rcases hstate j with h | ⟨h, -⟩ | ⟨-, -, h⟩
    · rwa [h]
    · rw [h]
      exact (nomatch ·)
    · intro hg
      rw [hg] at h
      cases h
  | claim i r r' id g hr hphase hactive hroom hj hid hstate hg =>
    obtain ⟨j, hj, rfl, hq⟩ := hj
    have hw := hi.write g hid fun k hk => by
      rcases hstate k with h | ⟨h, -⟩
      · rwa [h]
      · exact absurd h hk
    refine hw.claim hr (not_claimed_of_queued hi hj hq) ⟨g j, mem_map_of_mem hj, hid j, ?_⟩
      hphase hactive (hroom (hi.room i r hr))
    rw [hg j rfl hq]
    exact (nomatch ·)
  | launch i r r' id p launches hr hphase hphase' hactive hroom hl =>
    exact hi.launch hr hphase hphase' hactive hroom hl

/-! ### Ends -/

def Owned (jobs : List (JobRow Id)) (runners : List (Runner Id)) : Prop :=
  ∀ (i : ℕ) (r : Runner Id), runners[i]? = some r →
    ∀ id ∈ r.working, ∀ j ∈ jobs, j.id = id → j.state = .running

def SweepsOnlyAbandoned (q : Queue Id) (a : Action Id) : Prop :=
  ∀ j ∈ q.jobs, swept q a j = true → ∀ r ∈ q.runners, j.id ∉ r.working

theorem step_owned
    (hi : Inv q.jobs q.runners q.claims q.launches) (ho : Owned q.jobs q.runners)
    (hok : SweepsOnlyAbandoned q a) (h : q.step a = some q') : Owned q'.jobs q'.runners := by
  have he := step_effect hi h
  have hclaim : ∀ (k : ℕ) (s : Runner Id), q.runners[k]? = some s → ∀ id ∈ s.working,
      (id, k) ∈ q.claims := by
    intro k s hs id hid
    refine hi.engaged k s hs id ?_
    rcases mem_append.mp hid with hid | hid
    · exact mem_append_left _ hid
    · exact mem_append_right _ ((filter_sublist.map _).subset hid)
  generalize q'.jobs = jobs', q'.runners = runners', q'.claims = claims',
    q'.launches = launches' at he ⊢
  cases he with
  | quiet => exact ho
  | enqueue j hnew =>
    intro k s hs id hid x hx hxid
    rcases mem_append.mp hx with hx | hx
    · exact ho k s hs id hid x hx hxid
    · -- The new job has been claimed by nobody.
      obtain ⟨y, hy, hyid, -⟩ := hi.started _ (hclaim k s hs id hid)
      rw [mem_singleton.mp hx] at hxid
      exact absurd (hyid.trans hxid.symm) (hnew y hy)
  | join r hphase hactive =>
    intro k s hs id hid
    rw [List.getElem?_append] at hs
    split_ifs at hs
    · exact ho k s hs id hid
    · rw [mem_singleton.mp (mem_of_getElem? hs)] at hid
      simp [Runner.working, hphase, hactive, TickPhase.claims] at hid
  | cancel g hid hstate =>
    intro k s hs id hin x hx hxid
    obtain ⟨y, hy, rfl⟩ := List.mem_map.mp hx
    have hrun := ho k s hs id hin y hy ((hid y).symm.trans hxid)
    rcases hstate y with h | ⟨h, -⟩
    · rwa [h]
    · rw [h] at hrun
      cases hrun
  | goes i r r' g hr hlets hid hstate =>
    intro k s hs id hin x hx hxid
    obtain ⟨y, hy, rfl⟩ := List.mem_map.mp hx
    have hyid : y.id = id := (hid y).symm.trans hxid
    -- Runner `k` worked on it before.
    obtain ⟨s', hs', hin', hkeep⟩ : ∃ s' : Runner Id, q.runners[k]? = some s' ∧ id ∈ s'.working ∧
        (k = i → id ∈ r'.working) := by
      rcases getElem?_set_cases hs with ⟨rfl, rfl⟩ | ⟨hne, hs⟩
      · exact ⟨r, hr, hlets.working hin, fun _ => hin⟩
      · exact ⟨s, hs, hin, fun h => absurd h hne⟩
    rcases hstate y with h | ⟨-, h⟩ | ⟨hwork, hnot, -⟩
    · rw [h]
      exact ho k s' hs' id hin' y hy hyid
    · rw [← hyid] at hin'
      exact absurd hin' (hok y hy h s' (mem_of_getElem? hs'))
    · -- Runner `i` has just ended it, and only one runner claimed it.
      have hk := hclaim k s' hs' id hin'
      have hi' := hclaim i r hr id (hyid ▸ hwork)
      have hki : k = i := congrArg Prod.snd (inj_on_of_nodup_map hi.claimed hk hi' rfl)
      exact absurd (hyid ▸ hkeep hki) hnot
  | claim i r r' id g hr hphase hactive hroom hj hid hstate hg =>
    obtain ⟨j, hj, rfl, hq⟩ := hj
    intro k s hs id' hin x hx hxid
    obtain ⟨y, hy, rfl⟩ := List.mem_map.mp hx
    have hyid : y.id = id' := (hid y).symm.trans hxid
    by_cases hnew : id' = j.id
    · obtain rfl : y = j := inj_on_of_nodup_map hi.nodup hy hj (hyid.trans hnew)
      exact hg y rfl hq
    · obtain ⟨s', hs', hin'⟩ : ∃ s' : Runner Id, q.runners[k]? = some s' ∧ id' ∈ s'.working := by
        rcases getElem?_set_cases hs with ⟨rfl, rfl⟩ | ⟨-, hs⟩
        · rw [Runner.working, hphase, hactive] at hin
          rcases mem_append.mp hin with hin | hin
          · exact absurd (mem_singleton.mp hin) hnew
          · exact ⟨r, hr, mem_append_right _ hin⟩
        · exact ⟨s, hs, hin⟩
      have hrun := ho k s' hs' id' hin' y hy hyid
      rcases hstate y with h | ⟨h, -⟩
      · rwa [h]
      · rw [h] at hrun
        cases hrun
  | launch i r r' id p launches hr hphase hphase' hactive hroom hl =>
    intro k s hs id' hin x hx hxid
    rcases getElem?_set_cases hs with ⟨rfl, rfl⟩ | ⟨-, hs⟩
    · refine ho k r hr id' ?_ x hx hxid
      rw [Runner.working, hphase', hactive, filter_append, map_append] at hin
      rw [Runner.working, hphase]
      rcases mem_append.mp hin with hin | hin
      · cases hin
      · rcases mem_append.mp hin with hin | hin
        · exact mem_append_right _ hin
        · refine mem_append_left _ ?_
          obtain ⟨e, he, rfl⟩ := List.mem_map.mp hin
          rw [mem_singleton.mp (mem_of_mem_filter he)]
          exact mem_singleton_self id
    · exact ho k s hs id' hin x hx hxid

def Ended (q : Queue Id) (id : Id) (state : JobState) : Prop :=
  state.final = true ∧ ∃ j ∈ q.jobs, j.id = id ∧ j.state = state

theorem step_ended {state : JobState}
    (hi : Inv q.jobs q.runners q.claims q.launches) (ho : Owned q.jobs q.runners)
    (h : q.step a = some q') (hend : Ended q id state) : Ended q' id state := by
  obtain ⟨hfinal, j, hj, hid, hstate⟩ := hend
  refine ⟨hfinal, ?_⟩
  have he := step_effect hi h
  have hne : j.state ≠ .queued ∧ j.state ≠ .running := by
    rw [hstate]
    cases state <;> simp [JobState.final] at hfinal ⊢
  generalize q'.jobs = jobs', q'.runners = runners', q'.claims = claims',
    q'.launches = launches' at he ⊢
  cases he with
  | quiet => exact ⟨j, hj, hid, hstate⟩
  | enqueue k hnew => exact ⟨j, mem_append_left _ hj, hid, hstate⟩
  | join r hphase hactive => exact ⟨j, hj, hid, hstate⟩
  | cancel g hg hs =>
    refine ⟨g j, mem_map_of_mem hj, (hg j).trans hid, ?_⟩
    rcases hs j with h | ⟨h, -⟩
    · exact h.trans hstate
    · exact absurd h hne.1
  | goes i r r' g hr hlets hg hs =>
    refine ⟨g j, mem_map_of_mem hj, (hg j).trans hid, ?_⟩
    rcases hs j with h | ⟨-, h⟩ | ⟨hwork, -, -⟩
    · exact h.trans hstate
    · exact absurd (running_of_swept h) hne.2
    · exact absurd (ho i r hr j.id hwork j hj rfl) hne.2
  | claim i r r' id' g hr hphase hactive hroom hk hg hs hrun =>
    refine ⟨g j, mem_map_of_mem hj, (hg j).trans hid, ?_⟩
    rcases hs j with h | ⟨h, -⟩
    · exact h.trans hstate
    · exact absurd h hne.1
  | launch i r r' id' p launches hr hphase hphase' hactive hroom hl => exact ⟨j, hj, hid, hstate⟩

theorem inv_of_run (h : Run Queue.step (fun _ _ => True) Queue.boot q) :
    Inv q.jobs q.runners q.claims q.launches :=
  h.invariant inv_boot fun _ _ _ ht _ hs => step_inv ht hs

theorem inv_owned_of_run (h : Run Queue.step SweepsOnlyAbandoned Queue.boot q) :
    Inv q.jobs q.runners q.claims q.launches ∧ Owned q.jobs q.runners := by
  have hboot : Owned (Queue.boot : Queue Id).jobs (Queue.boot : Queue Id).runners := by
    simp [Owned, Queue.boot]
  refine h.invariant (I := fun t => Inv t.jobs t.runners t.claims t.launches ∧
    Owned t.jobs t.runners) ⟨inv_boot, hboot⟩ ?_
  rintro t a u ⟨hi, ho⟩ hok hs
  exact ⟨step_inv hi hs, step_owned hi ho hok hs⟩

/-- In every run each job's handler is launched at most once and no runner has more handlers than
its concurrency; and in every run in which no tick fails a job as interrupted that a runner still
works on, a job that has ended keeps the state it ended in. -/
theorem job_runs_once_and_ends :
    (∀ q : Queue Id, Run Queue.step (fun _ _ => True) Queue.boot q →
      q.launches.Nodup ∧ ∀ r ∈ q.runners, r.active.length ≤ r.concurrency) ∧
    ∀ q q' : Queue Id, Run Queue.step SweepsOnlyAbandoned Queue.boot q →
      Run Queue.step SweepsOnlyAbandoned q q' →
      ∀ id state, Ended q id state → Ended q' id state := by
  constructor
  · intro q h
    have hi := inv_of_run h
    refine ⟨hi.once, fun r hr => ?_⟩
    obtain ⟨i, hi'⟩ := mem_iff_getElem?.mp hr
    exact le_trans (Nat.le_add_right _ _) (hi.room i r hi')
  · intro q q' h h' id state hend
    have hq := inv_owned_of_run h
    have hq' : (Inv q'.jobs q'.runners q'.claims q'.launches ∧ Owned q'.jobs q'.runners) ∧
        Ended q' id state := by
      refine h'.invariant (I := fun t => (Inv t.jobs t.runners t.claims t.launches ∧
        Owned t.jobs t.runners) ∧ Ended t id state) ⟨hq, hend⟩ ?_
      rintro t a u ⟨⟨hi, ho⟩, he⟩ hok hs
      exact ⟨⟨step_inv hi hs, step_owned hi ho hok hs⟩, step_ended hi ho hs he⟩
    exact hq'.2

end Step

instance (q : Queue ℕ) (a : Action ℕ) : Decidable (SweepsOnlyAbandoned q a) :=
  inferInstanceAs (Decidable (∀ j ∈ q.jobs, swept q a j = true → ∀ r ∈ q.runners, j.id ∉ r.working))

def launched : List (Action ℕ) :=
  [.enqueue 0 "create" 0, .join "a" ["create"] 1 60000, .join "b" ["create"] 1 60000, .tick 0,
    .sweep 0 0, .beforeTick 0, .loop 0, .select 0, .claim 0 0, .launch 0]

/-- The runner is gone before the other one fails its job: that end stays. -/
theorem job_runs_once_and_ends_crashed :
    ∃ q : Queue ℕ, Run Queue.step SweepsOnlyAbandoned Queue.boot q ∧
      q.launches = [0] ∧ Ended q 0 .failed ∧
      ∀ q', Run Queue.step SweepsOnlyAbandoned q q' → Ended q' 0 .failed := by
  have hexec : ((Run.exec Queue.step SweepsOnlyAbandoned Queue.boot
      (launched ++ [.crash 0, .clock 180001, .tick 1, .sweep 1 1])).map fun q =>
      (q.launches, q.jobs.map fun j => (j.id, j.state))) = some ([0], [(0, .failed)]) := by
    decide
  obtain ⟨q, hq, hshown⟩ := map_eq_some_iff.mp hexec
  obtain ⟨hlaunches, hjobs⟩ := mk.inj hshown
  have hrun := Run.of_exec .refl hq
  have hend : Ended q 0 .failed := by
    obtain ⟨j, hj, hfields⟩ := List.mem_map.mp (hjobs ▸ mem_singleton_self _)
    exact ⟨rfl, j, hj, (mk.inj hfields).1, (mk.inj hfields).2⟩
  exact ⟨q, hrun, hlaunches, hend,
    fun q' hq' => job_runs_once_and_ends.2 q q' hrun hq' 0 .failed hend⟩

/-- The other runner fails a job whose handler still runs; then the handler ends and its outcome is
written over that. -/
theorem interrupted_job_succeeds :
    ¬ ∀ q q' : Queue ℕ, Run Queue.step (fun _ _ => True) Queue.boot q →
      Run Queue.step (fun _ _ => True) q q' →
      ∀ id state, Ended q id state → Ended q' id state := by
  intro h
  have hexec : ((Run.exec Queue.step (fun _ _ => True) Queue.boot
      (launched ++ [.clock 180001, .tick 1, .sweep 1 1])).map fun q =>
        (q.jobs.map fun j => (j.id, j.state),
          (Run.exec Queue.step (fun _ _ => True) q [.handlerEnds 0 0 true, .finish 0 0]).map
            fun q' => q'.jobs.map fun j => (j.id, j.state))) =
      some ([(0, .failed)], some [(0, .succeeded)]) := by
    decide
  obtain ⟨q, hq, hshown⟩ := map_eq_some_iff.mp hexec
  obtain ⟨hjobs, hlater⟩ := mk.inj hshown
  obtain ⟨q', hq', hjobs'⟩ := map_eq_some_iff.mp hlater
  obtain ⟨j, hj, hfields⟩ := List.mem_map.mp (hjobs ▸ mem_singleton_self _)
  obtain ⟨-, j', hj', -, hstate⟩ := h q q' (Run.of_exec .refl hq) (Run.of_exec .refl hq') 0 .failed
    ⟨rfl, j, hj, (mk.inj hfields).1, (mk.inj hfields).2⟩
  have hmem : (j'.id, j'.state) ∈ [(0, JobState.succeeded)] :=
    hjobs' ▸ mem_map_of_mem hj'
  rw [(mk.inj (mem_singleton.mp hmem)).2] at hstate
  cases hstate

/-! ### Whose hands a job is in -/

variable [DecidableEq Id]

/-- In every run a job is in the hands of one runner at most, and no longer queued; and in every run
in which no tick fails a job as interrupted that a runner still works on, the jobs that are worked
on are running. -/
theorem job_is_in_one_hand :
    (∀ q : Queue Id, Run Queue.step (fun _ _ => True) Queue.boot q →
      ∀ (i : ℕ) (r : Runner Id), q.runners[i]? = some r → ∀ id ∈ r.engaged,
        (∀ (k : ℕ) (r' : Runner Id), q.runners[k]? = some r' → id ∈ r'.engaged → k = i) ∧
          ∃ j ∈ q.jobs, j.id = id ∧ j.state ≠ .queued) ∧
    ∀ q : Queue Id, Run Queue.step SweepsOnlyAbandoned Queue.boot q →
      ∀ r ∈ q.runners, ∀ id ∈ r.working, ∃ j ∈ q.jobs, j.id = id ∧ j.state = .running := by
  constructor
  · intro q h i r hr id hid
    have hi := inv_of_run h
    have hclaim := hi.engaged i r hr id hid
    refine ⟨fun k r' hr' hid' => ?_, hi.started _ hclaim⟩
    exact (mk.inj (inj_on_of_nodup_map hi.claimed (hi.engaged k r' hr' id hid') hclaim rfl)).2
  · intro q h r hr id hid
    have hq := inv_owned_of_run h
    obtain ⟨i, hi⟩ := mem_iff_getElem?.mp hr
    have hclaim : id ∈ r.engaged := by
      rcases mem_append.mp hid with hid | hid
      · exact mem_append_left _ hid
      · exact mem_append_right _ ((filter_sublist.map _).subset hid)
    obtain ⟨j, hj, rfl, -⟩ := hq.1.started _ (hq.1.engaged i r hi id hclaim)
    exact ⟨j, hj, rfl, hq.2 i r hi j.id hid j hj rfl⟩

theorem job_is_in_one_hand_launched :
    ∃ q : Queue ℕ, Run Queue.step SweepsOnlyAbandoned Queue.boot q ∧
      ∃ r ∈ q.runners, 0 ∈ r.working ∧ ∃ j ∈ q.jobs, j.id = 0 ∧ j.state = .running := by
  have hexec : ((Run.exec Queue.step SweepsOnlyAbandoned Queue.boot launched).map fun q =>
      q.runners.map (·.working)) = some [[0], []] := by
    decide
  obtain ⟨q, hq, hworking⟩ := map_eq_some_iff.mp hexec
  have hrun := Run.of_exec .refl hq
  have hmem : [0] ∈ q.runners.map (·.working) := hworking ▸ mem_cons_self
  obtain ⟨r, hr, hr'⟩ := List.mem_map.mp hmem
  have hid : 0 ∈ r.working := hr' ▸ mem_singleton_self 0
  exact ⟨q, hrun, r, hr, hid, job_is_in_one_hand.2 q hrun r hr 0 hid⟩

end IncusCloud.Jobs
