import IncusCloud.Api.Process
import IncusCloud.Lib.Run

/-!
# A change made here, and the checks after it

A request drops the snapshot, commits and returns. A check that starts later waits for the load it
finds in `snap`, or for a newer one, so all turns on when the load in `snap` began. A load that
begins between the drop and the commit has not read the change, and it stays.
-/

open List Option

namespace IncusCloud.Acl

variable {c c' : Cache} {j k : ℕ} {clock : Int} {rest : List Op} {o : Op} {e : Event} {p : Pending} {st' : Process}

def CheckPhase.load? : CheckPhase → Option Load
  | awaiting l => some l
  | loading l => some l
  | decided l => some l
  | failed => none

namespace Cache

/-- What one thing the process does may do to its `Acl`: `snap` stays, is dropped or is a load that
begins now, and a check keeps its load or gets one that begins now. -/
structure Moves (tick : ℕ) (c c' : Cache) : Prop where
  snap : c'.snap = c.snap ∨ c'.snap = none ∨ ∃ l, c'.snap = some l ∧ l.began = tick
  checks : ∀ k' ∈ c'.checks,
    (∃ k ∈ c.checks, k'.start = k.start ∧
      ∀ l, k'.phase.load? = some l → k.phase.load? = some l ∨ l.began = tick) ∨
    (k'.start = tick ∧ ∀ l, k'.phase.load? = some l → c.snap = some l ∨ l.began = tick)

theorem moves_of_checks_eq {tick : ℕ} (hchecks : c'.checks = c.checks)
    (hsnap : c'.snap = c.snap ∨ c'.snap = none) : c.Moves tick c' := by
  refine ⟨hsnap.imp_right .inl, fun k hk => .inl ⟨k, ?_, rfl, fun l hl => .inl hl⟩⟩
  rwa [hchecks] at hk

theorem moves_invalidate (tick : ℕ) (c : Cache) : c.Moves tick c.invalidate :=
  moves_of_checks_eq rfl (.inr rfl)

theorem moves_settle {tick i : ℕ} {ok : Bool} (h : c.settle i ok = some c') : c.Moves tick c' := by
  unfold settle at h
  split at h
  · obtain rfl := some.inj h
    refine moves_of_checks_eq rfl ?_
    show (if ok = false ∧ c.snap = _ then none else c.snap) = c.snap ∨ _
    split_ifs
    · exact .inr rfl
    · exact .inl rfl
  · cases h

theorem checks_append {tick : ℕ} {phase : CheckPhase}
    (hload : ∀ l, phase.load? = some l → c.snap = some l ∨ l.began = tick) :
    ∀ k' ∈ c.checks ++ [⟨tick, phase⟩],
      (∃ k ∈ c.checks, k'.start = k.start ∧
        ∀ l, k'.phase.load? = some l → k.phase.load? = some l ∨ l.began = tick) ∨
      (k'.start = tick ∧ ∀ l, k'.phase.load? = some l → c.snap = some l ∨ l.began = tick) := by
  intro k' hk'
  rcases mem_append.mp hk' with hk' | hk'
  · exact .inl ⟨k', hk', rfl, fun l hl => .inl hl⟩
  · rw [mem_singleton.mp hk']
    exact .inr ⟨rfl, hload⟩

theorem moves_check (tick : ℕ) (clock : Int) (c : Cache) : c.Moves tick (c.check tick clock) := by
  unfold check
  split
  · rename_i l hl
    refine ⟨.inl rfl, checks_append fun l' hl' => .inl ?_⟩
    rw [hl]
    exact hl'
  · refine ⟨.inr (.inr ⟨_, rfl, rfl⟩), checks_append fun l' hl' => .inr ?_⟩
    rw [← some.inj hl']

theorem checks_set {tick : ℕ} {start : ℕ} {phase : CheckPhase}
    (hk : c.checks[k]? = some ⟨start, phase⟩) (phase' : CheckPhase)
    (hload : ∀ l, phase'.load? = some l → phase.load? = some l ∨ l.began = tick) :
    ∀ k' ∈ c.checks.set k ⟨start, phase'⟩, ∃ k ∈ c.checks, k'.start = k.start ∧
      ∀ l, k'.phase.load? = some l → k.phase.load? = some l ∨ l.began = tick := by
  intro k' hk'
  rcases mem_or_eq_of_mem_set hk' with h | rfl
  · exact ⟨k', h, rfl, fun l hl => .inl hl⟩
  · exact ⟨_, mem_of_getElem? hk, rfl, hload⟩

theorem moves_resume {tick : ℕ} (h : c.resume tick clock k = some c') : c.Moves tick c' := by
  unfold resume at h
  split at h
  · rename_i start l hk
    split_ifs at h
    · obtain rfl := some.inj h
      exact ⟨.inl rfl, fun k' hk' => .inl (checks_set hk (.decided l) (fun l hl => .inl hl) k' hk')⟩
    · obtain rfl := some.inj h
      refine ⟨.inr (.inr ⟨_, rfl, rfl⟩),
        fun k' hk' => .inl (checks_set hk _ (fun l hl => ?_) k' hk')⟩
      exact .inr (congrArg Load.began (some.inj hl)).symm
  · rename_i start l hk
    split at h
    · cases h
    · obtain rfl := some.inj h
      exact ⟨.inl rfl, fun k' hk' => .inl (checks_set hk (.decided l) (fun l hl => .inl hl) k' hk')⟩
    · obtain rfl := some.inj h
      exact ⟨.inl rfl, fun k' hk' => .inl (checks_set hk .failed (fun l hl => nomatch hl) k' hk')⟩
  · cases h

theorem resume_snap {tick : ℕ}
    (h : c.resume tick clock k = some c') (hno : c.reloads clock k = false) : c'.snap = c.snap := by
  unfold resume at h
  unfold reloads at hno
  split at h
  · rename_i start l hk
    rw [hk] at hno
    split_ifs at h with _ hu
    · obtain rfl := some.inj h
      rfl
    · simp [hu] at hno
  · split at h
    · cases h
    · obtain rfl := some.inj h
      rfl
    · obtain rfl := some.inj h
      rfl
  · cases h

theorem check_snap {tick : ℕ} (hno : c.snap.isNone = false) :
    (c.check tick clock).snap = c.snap := by
  unfold check
  split
  · rfl
  · rename_i h
    rw [h] at hno
    cases hno

theorem settle_snap {i : ℕ} {ok : Bool} (h : c.settle i ok = some c')
    (hsnap : c.snap = none) : c'.snap = none := by
  unfold settle at h
  split at h
  · obtain rfl := some.inj h
    show (if _ then none else c.snap) = none
    rw [hsnap, ite_self]
  · cases h

end Cache

end IncusCloud.Acl

namespace IncusCloud.Api

open Acl
open Lib (Run)

/-! ### The order within a request -/

theorem Route.ops_eq (r : Route) (h : r.changes = true) :
    ∃ pre post, r.ops = pre ++ .write :: .commit :: post ∧ .commit ∉ pre ∧ .commit ∉ post := by
  cases r with
  | setMember => exact ⟨[.statement], [.requestReconcile], rfl, by decide, by decide⟩
  | deleteMember => exact ⟨[.statement], [.requestReconcile], rfl, by decide, by decide⟩
  | deleteUser =>
    exact ⟨[.statement, .revokeSubject], [.requestReconcile], rfl, by decide, by decide⟩
  | patchUser body role =>
    obtain ⟨r, hr⟩ := isSome_iff_exists.mp h
    refine ⟨patchStatements body ++ .statement :: r.toList.map fun _ => .statement,
      if body.disabled.isSome || body.platformRole.isSome then [.requestReconcile] else [], ?_, ?_, ?_⟩
    · simp [ops, hr, transaction]
    · unfold patchStatements
      split_ifs <;> simp
    · split_ifs <;> simp

theorem eq_write_of_suffix {pre post : List Op} (hpre : .commit ∉ pre)
    (hpost : .commit ∉ post) (h : o :: .commit :: rest <:+ pre ++ .write :: .commit :: post) :
    o = .write := by
  have hin : ∀ l, o :: .commit :: rest <:+ l → .commit ∈ l.tail := by
    intro l ⟨t, ht⟩
    rw [← ht]
    cases t with
    | nil => exact mem_cons_self
    | cons x t => simp
  induction pre with
  | nil =>
    rcases suffix_cons_iff.mp h with h | h
    · exact (List.cons.inj h).1
    · exact absurd (hin _ h) hpost
  | cons x pre ih =>
    rw [mem_cons, not_or] at hpre
    rcases suffix_cons_iff.mp h with h | h
    · -- Then `commit` would be the second of the list.
      have htail := (List.cons.inj h).2
      cases pre with
      | nil => cases (List.cons.inj htail).1
      | cons y pre =>
        exact absurd (mem_cons.mpr (.inl (List.cons.inj htail).1)) hpre.2
    · exact ih hpre.2 h

theorem Route.ops_head (r : Route) (h : r.changes = true) : r.ops.head? ≠ some .commit := by
  obtain ⟨pre, post, heq, hpre, -⟩ := r.ops_eq h
  rw [heq]
  cases pre with
  | nil => exact nofun
  | cons x pre =>
    intro hx
    exact hpre (mem_cons.mpr (.inl (some.inj hx).symm))

namespace Process

/-! ### What one event does -/

/-- What becomes of a request, `snap` being what the event leaves. -/
inductive Goes (tick : ℕ) (snap : Option Load) (p : Pending) : Pending → Prop
  | stay : Goes tick snap p p
  | await {o : Op} {rest : List Op} (htodo : p.todo = o :: rest) (hno : o ≠ .commit)
      (hwrite : o = .write → snap = none) : Goes tick snap p { p with todo := rest }
  | commit {rest : List Op} (htodo : p.todo = .commit :: rest) :
      Goes tick snap p { p with todo := rest, committed := some tick }
  | fail : Goes tick snap p { p with todo := [] }
  | reply (htodo : p.todo = []) : Goes tick snap p { p with returned := some tick }

/-- What an event does to the process. -/
structure Next (st : Process) (e : Event) (st' : Process) : Prop where
  tick : st'.tick = st.tick + 1
  acl : st.acl.Moves st.tick st'.acl
  quiet : st.begins e = false → st.acl.snap = none → st'.acl.snap = none
  pending : ∀ p' ∈ st'.pending,
    (∃ p ∈ st.pending, Goes st.tick st'.acl.snap p p') ∨ ∃ r, p' = ⟨r, Route.ops r, none, none⟩

variable {st : Process}

theorem next_withAcl (hmoves : st.acl.Moves st.tick c)
    (hquiet : st.begins e = false → st.acl.snap = none → c.snap = none) :
    Next st e (st.withAcl c) :=
  ⟨rfl, hmoves, hquiet, fun p hp => .inl ⟨p, hp, .stay⟩⟩

theorem pending_set {p' : Pending} {snap : Option Load}
    (hp : st.pending[j]? = some p) (hgoes : Goes st.tick snap p p') :
    ∀ q ∈ st.pending.set j p', ∃ p ∈ st.pending, Goes st.tick snap p q := by
  intro q hq
  rcases mem_or_eq_of_mem_set hq with h | rfl
  · exact ⟨q, h, .stay⟩
  · exact ⟨p, mem_of_getElem? hp, hgoes⟩

theorem next_withPending {p' : Pending}
    (hp : st.pending[j]? = some p) (hgoes : Goes st.tick st.acl.snap p p') :
    Next st e (st.withPending j p') :=
  ⟨rfl, Cache.moves_of_checks_eq rfl (.inl rfl), fun _ h => h,
    fun q hq => .inl (pending_set hp hgoes q hq)⟩

theorem next_advance (hp : st.pending[j]? = some p)
    (htodo : p.todo ≠ []) : Next st (.advance j) (st.advance j p) := by
  unfold advance
  split
  · rename_i h
    exact absurd h htodo
  · rename_i rest h
    exact ⟨rfl, Cache.moves_invalidate _ _, fun _ _ => rfl,
      fun q hq => .inl (pending_set hp (.await h (by decide) fun _ => rfl) q hq)⟩
  · rename_i rest h
    exact next_withPending hp (.commit h)
  · rename_i o rest hwrite hcommit h
    exact next_withPending hp (.await h hcommit fun ho => absurd ho hwrite)

theorem next_spec (h : st.next e = some st') : Next st e st' := by
  cases e with
  | check =>
    obtain rfl := some.inj h
    refine next_withAcl (Cache.moves_check _ _ _) fun hno hsnap => ?_
    rw [Cache.check_snap hno]
    exact hsnap
  | resume k =>
    obtain ⟨c, hc, rfl⟩ := map_eq_some_iff.mp h
    refine next_withAcl (Cache.moves_resume hc) fun hno hsnap => ?_
    rw [Cache.resume_snap hc hno]
    exact hsnap
  | settle i ok =>
    obtain ⟨c, hc, rfl⟩ := map_eq_some_iff.mp h
    exact next_withAcl (Cache.moves_settle hc) fun _ hsnap => Cache.settle_snap hc hsnap
  | invalidate =>
    obtain rfl := some.inj h
    exact next_withAcl (Cache.moves_invalidate _ _) fun _ _ => rfl
  | clock now =>
    obtain rfl := some.inj h
    exact ⟨rfl, Cache.moves_of_checks_eq rfl (.inl rfl), fun _ h => h,
      fun p hp => .inl ⟨p, hp, .stay⟩⟩
  | request r =>
    -- Its transaction has not begun: no snapshot is dropped yet.
    obtain rfl := some.inj h
    refine ⟨rfl, Cache.moves_of_checks_eq rfl (.inl rfl), fun _ h => h, fun p hp => ?_⟩
    rcases mem_append.mp hp with hp | hp
    · exact .inl ⟨p, hp, .stay⟩
    · exact .inr ⟨r, mem_singleton.mp hp⟩
  | advance j =>
    simp only [next] at h
    split at h
    · rename_i p hp
      split_ifs at h with htodo
      obtain rfl := some.inj h
      exact next_advance hp htodo
    · cases h
  | fail j =>
    simp only [next] at h
    split at h
    · rename_i p hp
      split_ifs at h
      obtain rfl := some.inj h
      exact next_withPending hp .fail
    · cases h
  | reply j =>
    simp only [next] at h
    split at h
    · rename_i p hp
      split_ifs at h with hdone
      obtain rfl := some.inj h
      exact next_withPending hp (.reply hdone.1)
    · cases h

/-! ### The invariant -/

/-- What holds of a request in every state reached. -/
structure Sound (st : Process) (p : Pending) : Prop where
  todo : p.todo <:+ p.route.ops
  past : ∀ c, p.committed = some c → c < st.tick
  returned : ∀ r, p.returned = some r → p.todo = []
  dropped : p.opened = true → st.acl.snap = none
  snap : p.route.changes = true → ∀ c l, p.committed = some c → st.acl.snap = some l → c < l.began
  checks : p.route.changes = true → ∀ c r, p.committed = some c → p.returned = some r →
    ∀ k ∈ st.acl.checks, r < k.start → ∀ l, k.phase.load? = some l → c < l.began

structure Inv (st : Process) : Prop where
  started : ∀ k ∈ st.acl.checks, k.start < st.tick
  sound : ∀ p ∈ st.pending, Sound st p

theorem Sound.moves (h : Sound st p)
    (hnext : Next st e st') (hok : p.opened = true → st.begins e = false) : Sound st' p := by
  refine ⟨h.todo, fun c hc => ?_, h.returned, fun ho => ?_, fun hch c l hc hl => ?_,
    fun hch c r hc hr k' hk' hstart l hl => ?_⟩
  · have := h.past c hc
    rw [hnext.tick]
    omega
  · exact hnext.quiet (hok ho) (h.dropped ho)
  · rcases hnext.acl.snap with hs | hs | ⟨l', hs, hbegan⟩
    · exact h.snap hch c l hc (hs ▸ hl)
    · rw [hs] at hl
      cases hl
    · obtain rfl := some.inj (hs.symm.trans hl)
      have := h.past c hc
      omega
  · -- A check keeps its load, or gets one that begins now, after the commit.
    have hpast := h.past c hc
    rcases hnext.acl.checks k' hk' with ⟨k, hk, hks, hload⟩ | ⟨_, hload⟩
    · rcases hload l hl with hl | hl
      · exact h.checks hch c r hc hr k hk (hks ▸ hstart) l hl
      · omega
    · rcases hload l hl with hl | hl
      · -- It starts on what `snap` holds.
        exact h.snap hch c l hc hl
      · omega

theorem Sound.not_returned (h : Sound st p)
    (htodo : p.todo = o :: rest) (r : ℕ) : p.returned ≠ some r := by
  intro hr
  have hnil := h.returned r hr
  rw [htodo] at hnil
  cases hnil

theorem Sound.write_of_opened
    (h : Sound st p) (htodo : p.todo = o :: rest) (hch : p.route.changes = true)
    (hhead : rest.head? = some .commit) : o = .write := by
  have hsuffix := h.todo
  obtain ⟨rest', rfl⟩ := List.head?_eq_some_iff.mp hhead
  obtain ⟨pre, post, hops, hpre, hpost⟩ := p.route.ops_eq hch
  rw [htodo, hops] at hsuffix
  exact eq_write_of_suffix hpre hpost hsuffix

theorem Sound.goes {tick : ℕ} {p' : Pending} (h : Sound st p)
    (htick : st.tick = tick + 1) (hstarted : ∀ k ∈ st.acl.checks, k.start < st.tick)
    (hgoes : Goes tick st.acl.snap p p') : Sound st p' := by
  have htail : ∀ {o rest}, p.todo = o :: rest → rest <:+ p.route.ops := fun {o rest} htodo =>
    (suffix_cons o rest).trans (htodo ▸ h.todo)
  cases hgoes with
  | stay => exact h
  | await htodo hno hwrite =>
    refine ⟨htail htodo, h.past, fun r hr => absurd hr (h.not_returned htodo r), fun ho => ?_,
      h.snap, h.checks⟩
    obtain ⟨hch, hhead⟩ := Bool.and_eq_true_iff.mp ho
    exact hwrite (h.write_of_opened htodo hch (of_decide_eq_true hhead))
  | commit htodo =>
    refine ⟨htail htodo, fun c hc => ?_, fun r hr => absurd hr (h.not_returned htodo r),
      fun ho => ?_, fun hch c l hc hl => ?_,
      fun hch c r hc hr => absurd hr (h.not_returned htodo r)⟩
    · obtain rfl := some.inj hc
      omega
    · -- A second commit would need a `write` before it.
      obtain ⟨hch, hhead⟩ := Bool.and_eq_true_iff.mp ho
      cases h.write_of_opened htodo hch (of_decide_eq_true hhead)
    · -- Nothing is in `snap` when it commits.
      have hopened : p.opened = true := by
        unfold Pending.opened
        rw [htodo, show p.route.changes = true from hch]
        rfl
      rw [h.dropped hopened] at hl
      cases hl
  | fail =>
    exact ⟨nil_suffix, h.past, fun _ _ => rfl, fun ho => by simp [Pending.opened] at ho,
      h.snap, h.checks⟩
  | reply htodo =>
    refine ⟨h.todo, h.past, fun _ _ => htodo, h.dropped, h.snap,
      fun hch c r hc hr k hk hstart l hl => ?_⟩
    -- Every check so far has started before it returns.
    obtain rfl := some.inj hr
    have := hstarted k hk
    omega

theorem sound_request (st : Process) (r : Route) : Sound st ⟨r, r.ops, none, none⟩ := by
  refine ⟨suffix_refl _, fun c hc => (nomatch hc), fun c hc => (nomatch hc), fun ho => ?_,
    fun _ c l hc => (nomatch hc), fun _ c l hc => (nomatch hc)⟩
  obtain ⟨hch, hhead⟩ := Bool.and_eq_true_iff.mp ho
  exact absurd (of_decide_eq_true hhead) (r.ops_head hch)

/-- The event does not begin a load while a change is between its drop and its commit. -/
def Settled (st : Process) (e : Event) : Prop :=
  st.begins e = true → ∀ p ∈ st.pending, p.opened = false

instance (st : Process) (e : Event) : Decidable (st.Settled e) :=
  inferInstanceAs (Decidable (_ → _))

theorem inv_boot (ttlMs clock : Int) : Inv (boot ttlMs clock) :=
  ⟨fun _ hk => (nomatch hk), fun _ hp => (nomatch hp)⟩

theorem Inv.next (h : Inv st) (hok : st.Settled e) (hstep : st.next e = some st') : Inv st' := by
  have hnext := next_spec hstep
  have hstarted : ∀ k ∈ st'.acl.checks, k.start < st'.tick := by
    intro k' hk'
    rw [hnext.tick]
    rcases hnext.acl.checks k' hk' with ⟨k, hk, hks, -⟩ | ⟨hks, -⟩
    · have := h.started k hk
      omega
    · omega
  refine ⟨hstarted, fun p' hp' => ?_⟩
  rcases hnext.pending p' hp' with ⟨p, hp, hgoes⟩ | ⟨r, rfl⟩
  · have hquiet : p.opened = true → st.begins e = false := by
      intro ho
      by_contra hb
      have := hok (by simpa using hb) p hp
      rw [ho] at this
      cases this
    exact ((h.sound p hp).moves hnext hquiet).goes hnext.tick hstarted hgoes
  · exact sound_request st' r

/-! ### Checks after the change -/

def SeenAtOnce (st : Process) : Prop :=
  ∀ p ∈ st.pending, p.route.changes = true → ∀ c ∈ p.committed, ∀ r ∈ p.returned,
    ∀ k ∈ st.acl.checks, r < k.start → ∀ l, k.phase = .decided l → c < l.began

/-- In a run in which no load begins while a change is between its drop and its commit, a change is
seen by every check that starts after it has returned. -/
theorem change_seen_at_once {ttlMs clock : Int} {st : Process}
    (h : Run next Settled (boot ttlMs clock) st) : st.SeenAtOnce := by
  have hinv : Inv st := h.invariant (inv_boot ttlMs clock) fun _ _ _ hi hok hs => hi.next hok hs
  intro p hp hch c hc r hr k hk hstart l hl
  refine (hinv.sound p hp).checks hch c r hc hr k hk hstart l ?_
  rw [hl]
  rfl

/-- What a run of events shows: of each request whether it changes permissions, when it committed
and returned; and the checks. -/
def shown (st : Process) : List (Bool × Option ℕ × Option ℕ) × List Check :=
  (st.pending.map fun p => (p.route.changes, p.committed, p.returned), st.acl.checks)

/-- A member is set between two checks: the second waits for a load of its own. -/
theorem change_seen_at_once_setMember :
    ∃ st, Run next Settled (boot 2000 0) st ∧
      st.shown = ([(true, some 6, some 8)], [⟨0, .decided ⟨0, 0⟩⟩, ⟨9, .decided ⟨9, 0⟩⟩]) ∧
      st.SeenAtOnce := by
  have hexec : ((Run.exec next Settled (boot 2000 0)
      [.check, .settle 0 true, .resume 0, .request .setMember, .advance 0, .advance 0, .advance 0,
        .advance 0, .reply 0, .check, .settle 1 true, .resume 1]).map shown) =
      some ([(true, some 6, some 8)], [⟨0, .decided ⟨0, 0⟩⟩, ⟨9, .decided ⟨9, 0⟩⟩]) := by decide
  obtain ⟨st, hst, hshown⟩ := map_eq_some_iff.mp hexec
  have hrun := Run.of_exec .refl hst
  exact ⟨st, hrun, hshown, change_seen_at_once hrun⟩

/-- A check between the drop and the commit puts a load into `snap` that has not read the change,
and a check after the request has returned is decided on it. -/
theorem change_missed_by_load_before_commit :
    ¬ ∀ (ttlMs clock : Int) (st : Process), Run next (fun _ _ => True) (boot ttlMs clock) st →
      st.SeenAtOnce := by
  intro h
  have hexec : ((Run.exec next (fun _ _ => True) (boot 2000 0)
      [.request .setMember, .advance 0, .advance 0, .check, .settle 0 true, .advance 0, .advance 0,
        .reply 0, .check, .resume 1]).map shown) =
      some ([(true, some 5, some 7)], [⟨3, .loading ⟨3, 0⟩⟩, ⟨8, .decided ⟨3, 0⟩⟩]) := by decide
  obtain ⟨st, hst, hshown⟩ := map_eq_some_iff.mp hexec
  have hseen := h 2000 0 st (Run.of_exec .refl hst)
  obtain ⟨hpending, hchecks⟩ := Prod.mk.inj hshown
  obtain ⟨p, hp, hfields⟩ := List.mem_map.mp (hpending ▸ mem_singleton_self _)
  obtain ⟨hch, hcommitted, hreturned⟩ : p.route.changes = true ∧ p.committed = some 5 ∧
      p.returned = some 7 := by simpa using hfields
  have hcheck : (⟨8, .decided ⟨3, 0⟩⟩ : Check) ∈ st.acl.checks := by
    rw [hchecks]
    decide
  have := hseen p hp hch 5 hcommitted 7 hreturned _ hcheck (by decide) ⟨3, 0⟩ rfl
  exact absurd this (by decide)

end Process

end IncusCloud.Api
