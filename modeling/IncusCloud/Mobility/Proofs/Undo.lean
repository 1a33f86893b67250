import IncusCloud.Mobility.Proofs.Migration

/-!
# A failed move undoes itself

A move of a running instance that fails before it commits, and whose rollback's own calls to Incus
succeed, leaves the source running and no copy of its own. Two things get in the way, and nothing
else: a stop of the source that fails after it took effect, which the handler does not remember, and
a rollback whose first `progress` write fails while there is something to undo.

`Going` is what holds of the clusters, the log and the handler's flags up to the commit; `Back` is
what holds of them in the rollback.
-/

namespace IncusCloud.Mobility

open Lib Handler Migration List
open Option (some.inj)

variable {c : Call} {w' : Clusters} {failed took : Bool}

/-! ### What a run did -/

section

variable (p : MigratePayload) (job : JobRef) (w : Clusters)

def Undone : Prop :=
  (∃ i, w.get p.source = some i ∧ i.status = .running) ∧
    ∀ q i, w.get q = some i → i.tag tagJob ≠ some job.id

def Stopped : Prop := ⟨.setState p.source .stop, false, true⟩ ∈ w.log

def StopLost : Prop := ⟨.setState p.source .stop, true, true⟩ ∈ w.log

def CopyLeft : Prop :=
  ∃ e ∈ w.log, e.took = true ∧ ∃ s t request live transport,
    e.call = .transfer s t request live transport

def isRollingBack (e : Entry) : Bool := e.call = .progress "rolling back"

/-- The rollback's first call, a `progress` write, failed. -/
def RollbackCut : Prop := ∃ e ∈ w.log, isRollingBack e = true ∧ e.failed = true

def rollbackCalls (log : List Entry) : List Entry :=
  if log.any isRollingBack then log.takeWhile (!isRollingBack ·) else []

def RollbackServed : Prop :=
  ∀ e ∈ rollbackCalls w.log, e.call.isIncus = true → e.failed = false

end

section

variable {site : Site} {p : MigratePayload} {job : JobRef} {i₀ : Instance} {l : Flags} {w : Clusters}

/-- The call neither stops the source, nor copies it, nor rolls back. -/
structure Plain (p : MigratePayload) (e : Entry) : Prop where
  stop : e.took = true → e.call ≠ .setState p.source .stop
  transfer : e.took = true → ∀ s t request live transport,
    e.call ≠ .transfer s t request live transport
  rollingBack : isRollingBack e = false

theorem plain_failed (hc : c ≠ .progress "rolling back") : Plain p ⟨c, true, false⟩ where
  stop h := nomatch h
  transfer h := nomatch h
  rollingBack := decide_eq_false hc

section Entering

variable {e : Entry} (he : Plain p e)

include he

theorem stopped_enter : Stopped p { w with log := e :: w.log } ↔ Stopped p w := by
  refine ⟨fun h => ?_, mem_cons_of_mem _⟩
  rcases mem_cons.mp h with rfl | h
  · exact absurd rfl (he.stop rfl)
  · exact h

theorem stopLost_enter : StopLost p { w with log := e :: w.log } ↔ StopLost p w := by
  refine ⟨fun h => ?_, mem_cons_of_mem _⟩
  rcases mem_cons.mp h with rfl | h
  · exact absurd rfl (he.stop rfl)
  · exact h

theorem copyLeft_enter : CopyLeft { w with log := e :: w.log } ↔ CopyLeft w := by
  constructor
  · rintro ⟨e', he', ht, s, t, request, live, transport, hcall⟩
    rcases mem_cons.mp he' with rfl | he'
    · exact absurd hcall (he.transfer ht _ _ _ _ _)
    · exact ⟨e', he', ht, s, t, request, live, transport, hcall⟩
  · rintro ⟨e', he', ht⟩
    exact ⟨e', mem_cons_of_mem _ he', ht⟩

theorem rollbackCut_enter : RollbackCut { w with log := e :: w.log } ↔ RollbackCut w := by
  constructor
  · rintro ⟨e', he', hr, hf⟩
    rcases mem_cons.mp he' with rfl | he'
    · rw [he.rollingBack] at hr
      cases hr
    · exact ⟨e', he', hr, hf⟩
  · rintro ⟨e', he', h⟩
    exact ⟨e', mem_cons_of_mem _ he', h⟩

theorem any_isRollingBack_enter : (e :: w.log).any isRollingBack = w.log.any isRollingBack := by
  rw [any_cons, he.rollingBack, Bool.false_or]

theorem rollbackServed_enter :
    RollbackServed { w with log := e :: w.log } ↔
      (w.log.any isRollingBack = true → e.call.isIncus = true → e.failed = false) ∧
        RollbackServed w := by
  unfold RollbackServed rollbackCalls
  rw [any_isRollingBack_enter he, takeWhile_cons, he.rollingBack]
  cases w.log.any isRollingBack
  · simp
  · simp

end Entering

/-! ### Up to the commit, and in the rollback -/

structure Tracked (p : MigratePayload) (job : JobRef) (i₀ : Instance) (l : Flags) (w : Clusters) :
    Prop where
  uncommitted : l.committed = false
  flag : l.stoppedSource = true ↔ Stopped p w
  once : Stopped p w → ¬ StopLost p w
  untaken : ¬ Stopped p w → ¬ StopLost p w → w.get p.source = some i₀
  others : ∀ q i, q ≠ p.target → w.get q = some i → i.tag tagJob ≠ some job.id
  lasting : ∀ j, w.get p.target = some j → j.tag tagJob = some job.id → j.ephemeral = false

def Halted (p : MigratePayload) (w : Clusters) : Prop :=
  Stopped p w ∨ StopLost p w → ∀ i, w.get p.source = some i → i.status ≠ .running

/-- The move goes on: nothing has been rolled back. -/
structure Going (p : MigratePayload) (job : JobRef) (i₀ : Instance) (l : Flags) (w : Clusters) :
    Prop extends Tracked p job i₀ l w where
  halted : Halted p w
  copy : OwnCopy p job w ↔ CopyLeft w
  quiet : w.log.any isRollingBack = false

/-- The move is being rolled back. -/
structure Back (p : MigratePayload) (job : JobRef) (i₀ : Instance) (l : Flags) (w : Clusters) :
    Prop extends Tracked p job i₀ l w where
  halted : Halted p w
  rolling : w.log.any isRollingBack = true
  uncut : ¬ RollbackCut w

def Settled (p : MigratePayload) (job : JobRef) (l : Flags) (w : Clusters) : Prop :=
  l.committed = false → RollbackServed w →
    (Undone p job w ↔ ¬ StopLost p w ∧ (RollbackCut w → ¬ Stopped p w ∧ ¬ CopyLeft w))

section Appearing

variable (hne : p.source ≠ p.target) {i : Instance}

include hne in
theorem Tracked.appear (h : Tracked p job i₀ l w) (htag : i.tag tagJob ≠ some job.id) :
    Tracked p job i₀ l (w.put p.target i) := by
  refine ⟨h.uncommitted, h.flag, h.once, fun hs hl => ?_, fun q j hq hj => ?_, fun j hj hjt => ?_⟩
  · rw [Clusters.get_put, if_neg hne]
    exact h.untaken hs hl
  · rw [Clusters.get_put, if_neg hq] at hj
    exact h.others q j hq hj
  · rw [Clusters.get_put, if_pos rfl] at hj
    obtain rfl := some.inj hj
    exact absurd hjt htag

include hne in
theorem Halted.appear (h : Halted p w) : Halted p (w.put p.target i) := by
  intro hs j hj
  rw [Clusters.get_put, if_neg hne] at hj
  exact h hs j hj

theorem ownCopy_appear (hfree : w.get p.target = none) (htag : i.tag tagJob ≠ some job.id) :
    OwnCopy p job (w.put p.target i) ↔ OwnCopy p job w := by
  constructor
  · rintro ⟨j, hj, hjt⟩
    rw [Clusters.get_put, if_pos rfl] at hj
    obtain rfl := some.inj hj
    exact absurd hjt htag
  · rintro ⟨j, hj, -⟩
    rw [hfree] at hj
    cases hj

end Appearing

section Entering

variable {e : Entry} (he : Plain p e)

include he

theorem Tracked.enter (h : Tracked p job i₀ l w) :
    Tracked p job i₀ l { w with log := e :: w.log } := by
  refine ⟨h.uncommitted, h.flag.trans (stopped_enter he).symm, fun hs hl => ?_, fun hs hl => ?_,
    h.others, h.lasting⟩
  · exact h.once ((stopped_enter he).mp hs) ((stopLost_enter he).mp hl)
  · exact h.untaken (fun h => hs ((stopped_enter he).mpr h)) fun h => hl ((stopLost_enter he).mpr h)

theorem Halted.enter (h : Halted p w) : Halted p { w with log := e :: w.log } := fun hs =>
  h (hs.imp (stopped_enter he).mp (stopLost_enter he).mp)

theorem Going.enter (h : Going p job i₀ l w) : Going p job i₀ l { w with log := e :: w.log } :=
  ⟨h.toTracked.enter he, h.halted.enter he, h.copy.trans (copyLeft_enter he).symm,
    (any_isRollingBack_enter he).trans h.quiet⟩

theorem Back.enter (h : Back p job i₀ l w) : Back p job i₀ l { w with log := e :: w.log } :=
  ⟨h.toTracked.enter he, h.halted.enter he, (any_isRollingBack_enter he).trans h.rolling,
    fun hcut => h.uncut ((rollbackCut_enter he).mp hcut)⟩

end Entering

def PlainCall (p : MigratePayload) (c : Call) : Prop := ∀ failed took, Plain p ⟨c, failed, took⟩

theorem Going.appear {i : Instance} (h : Going p job i₀ l w) (hne : p.source ≠ p.target)
    (hfree : w.get p.target = none) (htag : i.tag tagJob ≠ some job.id) :
    Going p job i₀ l (w.put p.target i) :=
  ⟨h.toTracked.appear hne htag, h.halted.appear hne, (ownCopy_appear hfree htag).trans h.copy,
    h.quiet⟩

theorem kept_going (hne : p.source ≠ p.target) (hc : PlainCall p c) :
    Kept p job c (Going p job i₀ l) where
  appear _ _ hfree htag h := h.appear hne hfree htag
  enter _ failed took h := h.enter (hc failed took)

theorem spared_going (hne : p.source ≠ p.target) (hc : c ≠ .progress "rolling back") :
    Spared p job c (Going p job i₀ l) where
  appear _ _ hfree htag h := h.appear hne hfree htag
  fail _ h := h.enter (plain_failed hc)

theorem plainCall_of (hstop : c ≠ .setState p.source .stop)
    (htransfer : ∀ s t request live transport, c ≠ .transfer s t request live transport)
    (hback : c ≠ .progress "rolling back") : PlainCall p c := fun _ _ =>
  ⟨fun _ => hstop, fun _ => htransfer, decide_eq_false hback⟩

theorem plainCall_progress {stage : String} (h : stage ≠ "rolling back") :
    PlainCall p (.progress stage) :=
  plainCall_of nofun nofun fun heq => h (Call.progress.inj heq)

/-! ### The body of the `try` -/

theorem stop_source_cases (hi₀ : w.get p.source = some i₀)
    (hrunning : i₀.status = .running) (hw : w.setState p.source .stop = some w') :
    w'.log = w.log ∧ (∀ q, q ≠ p.source → w'.get q = w.get q) ∧
      ∀ i, w'.get p.source = some i → i.status = .stopped ∧ i.config = i₀.config := by
  obtain ⟨i, hi, ⟨hstatus, -⟩ | ⟨hact, -⟩ | ⟨-, j, hj, rfl⟩ | ⟨-, -, rfl⟩⟩ := setState_cases hw
  · obtain rfl : i₀ = i := some.inj (hi₀.symm.trans hi)
    rw [hrunning] at hstatus
    cases hstatus
  · cases hact
  · obtain rfl : i₀ = i := some.inj (hi₀.symm.trans hi)
    refine ⟨rfl, fun q hq => ?_, fun k hk => ?_⟩
    · rw [Clusters.get_touch, Clusters.get_put, if_neg hq]
    · rw [Clusters.get_touch, Clusters.get_put, if_pos rfl] at hk
      obtain rfl := some.inj hk
      unfold Instance.stopped at hj
      split_ifs at hj
      obtain rfl := some.inj hj
      exact ⟨rfl, rfl⟩
  · refine ⟨rfl, fun q hq => ?_, fun k hk => ?_⟩
    · rw [Clusters.get_touch, Clusters.get_remove, if_neg hq]
    · rw [Clusters.get_touch, Clusters.get_remove, if_pos rfl] at hk
      cases hk

theorem Going.stop_source {l' : Flags}
    (h : Going p job i₀ l w) (hne : p.source ≠ p.target) (hstopped : ¬ Stopped p w)
    (hlost : ¬ StopLost p w) (hrunning : i₀.status = .running) (hl' : l'.committed = false)
    (hflag : l'.stoppedSource = !failed) (hw : w.setState p.source .stop = some w') :
    Going p job i₀ l' { w' with log := ⟨.setState p.source .stop, failed, true⟩ :: w.log } := by
  have hi₀ := h.untaken hstopped hlost
  obtain ⟨-, hget, hsource⟩ := stop_source_cases hi₀ hrunning hw
  have htarget : w'.get p.target = w.get p.target := hget p.target hne.symm
  have hmem : ∀ b, (⟨.setState p.source .stop, b, true⟩ : Entry) ∈
      (⟨.setState p.source .stop, failed, true⟩ : Entry) :: w.log ↔ b = failed := by
    intro b
    refine ⟨fun hb => ?_, fun hb => by rw [hb]; exact mem_cons_self⟩
    rcases mem_cons.mp hb with hb | hb
    · exact congrArg Entry.failed hb
    · cases b
      · exact absurd hb hstopped
      · exact absurd hb hlost
  refine ⟨⟨hl', ?_, fun hs hl => ?_, fun hs hl => ?_, fun q i hq hi => ?_, fun j hj => ?_⟩,
    fun _ i hi => ?_, ?_, ?_⟩
  · rw [hflag]
    refine Iff.trans ?_ (hmem false).symm
    cases failed <;> decide
  · have hs := (hmem false).mp hs
    have hl := (hmem true).mp hl
    rw [← hs] at hl
    cases hl
  · cases failed
    · exact absurd ((hmem false).mpr rfl) hs
    · exact absurd ((hmem true).mpr rfl) hl
  · by_cases hqs : q = p.source
    · rw [hqs] at hi
      have hconfig := (hsource i hi).2
      have hold := h.others p.source i₀ hne hi₀
      unfold Instance.tag at hold ⊢
      rwa [hconfig]
    · exact h.others q i hq ((hget q hqs).symm.trans hi)
  · exact h.lasting j (htarget.symm.trans hj)
  · rw [(hsource i hi).1]
    decide
  · have hcopy : CopyLeft { w' with log := ⟨.setState p.source .stop, failed, true⟩ :: w.log } ↔
        CopyLeft w := by
      constructor
      · rintro ⟨e, he, ht, s, t, request, live, transport, hcall⟩
        rcases mem_cons.mp he with rfl | he
        · cases hcall
        · exact ⟨e, he, ht, s, t, request, live, transport, hcall⟩
      · rintro ⟨e, he, ht⟩
        exact ⟨e, mem_cons_of_mem _ he, ht⟩
    refine Iff.trans ?_ (h.copy.trans hcopy.symm)
    unfold OwnCopy
    rw [← htarget]
    rfl
  · rw [any_cons, h.quiet]
    rfl

/-- `m` ends in `Q`; where it throws before the commit, what `Going` says holds. -/
abbrev Goes {α : Type} (site : Site) (p : MigratePayload) (job : JobRef) (i₀ : Instance)
    (Q : α → Flags → Clusters → Prop) (m : Migration α) (l : Flags) (w : Clusters) : Prop :=
  wp (world site p job) (fun _ => True) Q
    (fun _ l w => l.committed = false → Going p job i₀ l w) m l w

variable (hne : p.source ≠ p.target)

include hne

variable {Q : Unit → Flags → Clusters → Prop} {source : SourceInstance}

theorem goes_stopSource
    (hrunning : i₀.status = .running) (h : Going p job i₀ l w) (hstopped : ¬ Stopped p w)
    (hlost : ¬ StopLost p w) (hQ : ∀ l' w', Going p job i₀ l' w' → Q () l' w') :
    Goes site p job i₀ Q (stopSource p source) l w := by
  have hfresh : Kept p job (.progress "stopping the source") fun w =>
      Going p job i₀ l w ∧ ¬ Stopped p w ∧ ¬ StopLost p w :=
    have hc : PlainCall p (.progress "stopping the source") := plainCall_progress (by decide)
    { appear := fun _ _ hfree htag h => ⟨h.1.appear hne hfree htag, h.2⟩
      enter := fun _ failed took h =>
        ⟨h.1.enter (hc failed took), fun hs => h.2.1 ((stopped_enter (hc failed took)).mp hs),
          fun hl => h.2.2 ((stopLost_enter (hc failed took)).mp hl)⟩ }
  have hspared : Spared p job (.setState p.source .stop) fun w =>
      Going p job i₀ l w ∧ ¬ Stopped p w ∧ ¬ StopLost p w :=
    have hc : Plain p ⟨.setState p.source .stop, true, false⟩ := plain_failed nofun
    { appear := fun _ _ hfree htag h => ⟨h.1.appear hne hfree htag, h.2⟩
      fail := fun _ h =>
        ⟨h.1.enter hc, fun hs => h.2.1 ((stopped_enter hc).mp hs),
          fun hl => h.2.2 ((stopLost_enter hc).mp hl)⟩ }
  unfold Goes stopSource
  rw [wp_when]
  split_ifs
  · rw [wp_bind]
    refine wp_progress hfresh (fun w hw => ⟨trivial, fun _ => hw.1⟩) (fun w hw => ?_)
      ⟨h, hstopped, hlost⟩
    rw [wp_bind]
    refine wp_setState hspared (fun w hw => ⟨trivial, fun _ => hw.1⟩) (fun w w' hw hset => ?_)
      (fun w w' hw hset => ?_) hw
    · have hflag : l.stoppedSource = false :=
        Bool.eq_false_iff.mpr fun hf => hw.2.1 (hw.1.flag.mp hf)
      exact ⟨trivial, fun hl => hw.1.stop_source hne hw.2.1 hw.2.2 hrunning hl hflag hset⟩
    · refine ⟨trivial, ?_⟩
      rw [wp_assign]
      exact hQ _ _ (hw.1.stop_source hne hw.2.1 hw.2.2 hrunning hw.1.uncommitted rfl hset)
  · exact hQ l w h

omit hne in
theorem tag_receive (request : TargetRequest) (left : Left) :
    Instance.tag ⟨left.type, left.status, false, (tagged p job request).config ++ left.config⟩
      tagJob = some job.id := by
  have hset : OrdMap.get (tagged p job request).config tagJob = some job.id := by
    unfold tagged
    rw [OrdMap.get_set, if_neg (by decide), OrdMap.get_set, if_pos rfl]
  unfold Instance.tag
  rw [OrdMap.get_append, hset]
  rfl

theorem Going.receive {request : TargetRequest} {left : Left} {transferred live : Bool}
    {transport : Transport} {log : List Entry} (h : Going p job i₀ l w)
    (hlog : log = ⟨.transfer p.source p.target (tagged p job request) live transport, failed, true⟩ ::
      w.log) :
    Going p job i₀ l
      { w.receive p.target (tagged p job request) left with
        transferred := transferred, log := log } := by
  subst hlog
  have hmem : ∀ b, (⟨.setState p.source .stop, b, true⟩ : Entry) ∈
      (⟨.transfer p.source p.target (tagged p job request) live transport, failed, true⟩ : Entry) ::
        w.log ↔ ⟨.setState p.source .stop, b, true⟩ ∈ w.log := by
    intro b
    refine ⟨fun hb => ?_, mem_cons_of_mem _⟩
    rcases mem_cons.mp hb with hb | hb
    · cases hb
    · exact hb
  have hget : ∀ q, q ≠ p.target → (w.receive p.target (tagged p job request) left).get q =
      w.get q := fun q hq => by
    rw [Clusters.receive, Clusters.get_put, if_neg hq]
  have htarget : (w.receive p.target (tagged p job request) left).get p.target =
      some ⟨left.type, left.status, false, (tagged p job request).config ++ left.config⟩ := by
    rw [Clusters.receive, Clusters.get_put, if_pos rfl]
  refine ⟨⟨h.uncommitted, h.flag.trans (hmem false).symm, fun hs hl => ?_, fun hs hl => ?_,
    fun q i hq hi => ?_, fun j hj _ => ?_⟩, fun hs i hi => ?_, ?_, ?_⟩
  · exact h.once ((hmem false).mp hs) ((hmem true).mp hl)
  · refine (hget p.source hne).trans ?_
    exact h.untaken (fun h => hs ((hmem false).mpr h)) fun h => hl ((hmem true).mpr h)
  · exact h.others q i hq ((hget q hq).symm.trans hi)
  · obtain rfl := some.inj (htarget.symm.trans hj)
    rfl
  · exact h.halted (hs.imp (hmem false).mp (hmem true).mp) i ((hget p.source hne).symm.trans hi)
  · refine ⟨fun _ => ?_, fun _ => ⟨_, htarget, tag_receive request left⟩⟩
    exact ⟨_, mem_cons_self, rfl, _, _, _, _, _, rfl⟩
  · rw [any_cons, h.quiet]
    rfl

omit hne in
theorem Tracked.of_target (h : Tracked p job i₀ l w) (hne : p.source ≠ p.target)
    (hlog : w'.log = w.log) (hget : ∀ q, q ≠ p.target → w'.get q = w.get q)
    (hlasting : ∀ j, w'.get p.target = some j → j.tag tagJob = some job.id → j.ephemeral = false) :
    Tracked p job i₀ l w' := by
  refine ⟨h.uncommitted, ?_, ?_, ?_, fun q i hq hi => ?_, hlasting⟩
  · unfold Stopped
    rw [hlog]
    exact h.flag
  · unfold Stopped StopLost
    rw [hlog]
    exact h.once
  · unfold Stopped StopLost
    rw [hlog, hget p.source hne]
    exact h.untaken
  · exact h.others q i hq ((hget q hq).symm.trans hi)

omit hne in
theorem Halted.of_target (h : Halted p w) (hne : p.source ≠ p.target)
    (hlog : w'.log = w.log) (hget : ∀ q, q ≠ p.target → w'.get q = w.get q) : Halted p w' := by
  unfold Halted Stopped StopLost
  rw [hlog, hget p.source hne]
  exact h

omit hne in
theorem setState_target_cases {action : StateAction}
    (hw : w.setState p.target action = some w') :
    w'.log = w.log ∧ (∀ q, q ≠ p.target → w'.get q = w.get q) ∧
      ∃ i, w.get p.target = some i ∧ ∀ j, w'.get p.target = some j →
        j.config = i.config ∧ j.ephemeral = i.ephemeral := by
  obtain ⟨i, hi, ⟨-, rfl⟩ | ⟨-, rfl⟩ | ⟨-, j, hj, rfl⟩ | ⟨-, -, rfl⟩⟩ := setState_cases hw
  · refine ⟨rfl, fun _ _ => rfl, i, hi, fun j hj => ?_⟩
    obtain rfl := some.inj (hi.symm.trans hj)
    exact ⟨rfl, rfl⟩
  · refine ⟨rfl, fun q hq => by rw [Clusters.get_put, if_neg hq], i, hi, fun j hj => ?_⟩
    rw [Clusters.get_put, if_pos rfl] at hj
    obtain rfl := some.inj hj
    exact ⟨rfl, rfl⟩
  · refine ⟨rfl, fun q hq => ?_, i, hi, fun k hk => ?_⟩
    · rw [Clusters.get_touch, Clusters.get_put, if_neg hq]
    · rw [Clusters.get_touch, Clusters.get_put, if_pos rfl] at hk
      obtain rfl := some.inj hk
      unfold Instance.stopped at hj
      split_ifs at hj
      obtain rfl := some.inj hj
      exact ⟨rfl, rfl⟩
  · refine ⟨rfl, fun q hq => ?_, i, hi, fun k hk => ?_⟩
    · rw [Clusters.get_touch, Clusters.get_remove, if_neg hq]
    · rw [Clusters.get_touch, Clusters.get_remove, if_pos rfl] at hk
      cases hk

theorem Tracked.setState_target {action : StateAction} (h : Tracked p job i₀ l w)
    (hw : w.setState p.target action = some w') : Tracked p job i₀ l w' := by
  obtain ⟨hlog, hget, i, hi, hsame⟩ := setState_target_cases hw
  refine h.of_target hne hlog hget fun j hj htag => ?_
  obtain ⟨hconfig, heph⟩ := hsame j hj
  unfold Instance.tag at htag
  rw [hconfig] at htag
  exact heph.trans (h.lasting i hi htag)

theorem Going.start_target (h : Going p job i₀ l w)
    (hw : w.setState p.target .start = some w') : Going p job i₀ l w' := by
  obtain ⟨hlog, hget, i, hi, hsame⟩ := setState_target_cases hw
  have hsome : ∃ j, w'.get p.target = some j := by
    obtain ⟨k, hk, ⟨-, rfl⟩ | ⟨-, rfl⟩ | ⟨hact, -⟩ | ⟨hact, -⟩⟩ := setState_cases hw
    · exact ⟨k, hk⟩
    · exact ⟨k.started, by rw [Clusters.get_put, if_pos rfl]⟩
    · cases hact
    · cases hact
  have hcopy : OwnCopy p job w' ↔ OwnCopy p job w := by
    obtain ⟨j, hj⟩ := hsome
    have hconfig := (hsame j hj).1
    unfold OwnCopy Instance.tag
    rw [hi, hj]
    simp only [Option.some.injEq, exists_eq_left', hconfig]
  refine ⟨h.toTracked.setState_target hne hw, h.halted.of_target hne hlog hget, ?_, ?_⟩
  · unfold CopyLeft
    rw [hlog]
    exact hcopy.trans h.copy
  · rw [hlog]
    exact h.quiet

omit hne in
theorem Going.verify {q : Place} (h : Going p job i₀ l w) :
    Going p job i₀ l (w.verify q p.target) := by
  unfold Clusters.verify
  split_ifs
  · exact ⟨⟨h.uncommitted, h.flag, h.once, h.untaken, h.others, h.lasting⟩, h.halted, h.copy,
      h.quiet⟩
  · exact h

omit hne in
theorem Going.owed (h : Going p job i₀ l w) : True ∧ (l.committed = false → Going p job i₀ l w) :=
  ⟨trivial, fun _ => h⟩

theorem goes_startCopy {copy : Option Instance} (h : Going p job i₀ l w)
    (hQ : ∀ w', Going p job i₀ l w' → Q () l w') :
    Goes site p job i₀ Q (startCopy p source copy) l w := by
  unfold Goes startCopy
  rw [wp_when]
  split_ifs
  · rw [wp_bind]
    refine wp_progress (kept_going hne (plainCall_progress (by decide))) (fun _ hw => hw.owed)
      (fun w hw => ?_) h
    have hplain : PlainCall p (.setState p.target .start) := plainCall_of (by simp) nofun nofun
    refine wp_setState (spared_going hne nofun) (fun _ hw => hw.owed) (fun w w' hw hset => ?_)
      (fun w w' hw hset => ?_) hw
    · have hlog := (setState_target_cases hset).1
      rw [← hlog]
      exact ((hw.start_target hne hset).enter (hplain true true)).owed
    · have hlog := (setState_target_cases hset).1
      rw [← hlog]
      exact ⟨trivial, hQ _ ((hw.start_target hne hset).enter (hplain false true))⟩
  · exact hQ w h

omit hne in
theorem steady_afterCommit :
    Handler.Steady (world site p job)
      (do
        progress "deleting the source"
        let left ← readInstance p.source
        Handler.when (left.any fun i => i.status ≠ .stopped) (setState p.source .stop)
        delete p.source : Migration Unit) := by
  refine .bind (.call (Call.progress _)) fun _ => ?_
  refine .bind (.call (Call.readInstance _)) fun left => ?_
  exact .bind (.when _ (.call (Call.setState _ _))) fun _ => .call (Call.delete _)

omit hne in
theorem steady_handOwner : Handler.Steady (world site p job) (handOwner p job) := by
  unfold handOwner
  cases p.mode with
  | move => exact .call (Call.carryOwner _ _)
  | copy =>
    cases job.actor with
    | some actor => exact .call (Call.recordOwner _ _)
    | none => exact .pure ()

omit hne in
theorem steady_handLease (lease : Option String) :
    Handler.Steady (world site p job) (handLease p lease) := by
  cases lease with
  | some lease => exact .call (Call.putLease _ _)
  | none => exact .pure ()

theorem goes_deleteSource (hmode : p.mode = .move)
    (h : Going p job i₀ l w) (hQ : ∀ l' w', l'.committed = true → Q () l' w') :
    Goes site p job i₀ Q (deleteSource p) l w := by
  unfold Goes deleteSource
  rw [wp_when, if_pos (decide_eq_true hmode), wp_bind]
  refine wp_unit (c := Call.throwIfAborted) () (fun _ _ => rfl)
    (kept_going hne (plainCall_of nofun nofun nofun)) (fun _ hw => hw.owed) (fun w hw => ?_) h
  rw [wp_bind, wp_assign]
  exact steady_afterCommit.wp (fun _ w => hQ _ w rfl) fun _ _ hl => nomatch hl

/-- The body of the `try`: where it throws before the commit, what `Going` says holds; it only ends
without throwing once it has committed. -/
theorem goes_migrate {request : TargetRequest} (hmode : p.mode = .move)
    (hrunning : i₀.status = .running) (h : Going p job i₀ l w) (hstopped : ¬ Stopped p w)
    (hlost : ¬ StopLost p w) :
    Goes site p job i₀ (fun _ l _ => l.committed = true)
      (migrate p job source (tagged p job request)) l w := by
  unfold Goes migrate
  rw [wp_bind]
  refine goes_stopSource hne hrunning h hstopped hlost fun l w h => ?_
  rw [wp_bind]
  refine wp_progress (kept_going hne (plainCall_progress (by decide))) (fun _ hw => hw.owed)
    (fun w hw => ?_) h
  rw [wp_bind]
  refine wp_transfer (spared_going hne nofun) (fun _ hw => hw.owed)
    (fun w left hw _ log hlog => (hw.receive hne hlog).owed)
    (fun w left how hw _ log hlog => ⟨trivial, ?_⟩) hw
  rw [wp_bind]
  refine wp_progress (kept_going hne (plainCall_progress (by decide))) (fun _ hw => hw.owed)
    (fun w hw => ?_) (hw.receive hne hlog)
  rw [wp_bind]
  have hplain : PlainCall p (.readInstance p.target) := plainCall_of nofun nofun nofun
  refine wp_readInstance (kept_going hne hplain) (fun _ hw => hw.owed)
    (fun w hw => ⟨trivial, ?_⟩) hw
  have hlog : (w.verify p.target p.target).log = w.log := by
    unfold Clusters.verify
    split_ifs <;> rfl
  rw [← hlog, wp_bind, wp_when]
  have hw := (hw.verify (q := p.target)).enter (hplain false true)
  split_ifs
  · rw [wp_throw]
    exact fun _ => hw
  · rw [wp_bind]
    refine goes_startCopy hne hw fun w hw => ?_
    rw [wp_bind, readLease, if_pos hmode]
    refine wp_unit (c := Call.leaseOf p.source) (site.lease p.source) (fun _ _ => rfl)
      (kept_going hne (plainCall_of nofun nofun nofun)) (fun _ hw => hw.owed) (fun w hw => ?_) hw
    rw [wp_bind]
    refine goes_deleteSource hne hmode hw fun l w hl => ?_
    have hthrow : ∀ w, l.committed = false → Going p job i₀ l w := fun w hf => by
      rw [hl] at hf
      cases hf
    rw [wp_bind]
    refine steady_handOwner.wp (fun _ w => ?_) fun _ w => hthrow w
    rw [wp_bind]
    exact (steady_handLease _).wp (fun _ _ => hl) fun _ w => hthrow w

/-! ### The rollback -/

omit hne in
theorem Going.settled_of_cut (h : Going p job i₀ l w)
    (hrunning : i₀.status = .running) (hfailed : failed = true) :
    Settled p job l { w with log := ⟨.progress "rolling back", failed, took⟩ :: w.log } := by
  intro _ _
  have hmem : ∀ b, (⟨.setState p.source .stop, b, true⟩ : Entry) ∈
      (⟨.progress "rolling back", failed, took⟩ : Entry) :: w.log ↔
        ⟨.setState p.source .stop, b, true⟩ ∈ w.log := by
    intro b
    refine ⟨fun hb => ?_, mem_cons_of_mem _⟩
    rcases mem_cons.mp hb with hb | hb
    · cases hb
    · exact hb
  have hcopy : CopyLeft { w with log := ⟨.progress "rolling back", failed, took⟩ :: w.log } ↔
      CopyLeft w := by
    constructor
    · rintro ⟨e, he, ht, s, t, request, live, transport, hcall⟩
      rcases mem_cons.mp he with rfl | he
      · cases hcall
      · exact ⟨e, he, ht, s, t, request, live, transport, hcall⟩
    · rintro ⟨e, he, ht⟩
      exact ⟨e, mem_cons_of_mem _ he, ht⟩
  have hcut : RollbackCut { w with log := ⟨.progress "rolling back", failed, took⟩ :: w.log } :=
    ⟨_, mem_cons_self, rfl, hfailed⟩
  constructor
  · rintro ⟨⟨i, hi, hirun⟩, htags⟩
    refine ⟨fun hl => ?_, fun _ => ⟨fun hs => ?_, fun hleft => ?_⟩⟩
    · exact h.halted (.inr ((hmem true).mp hl)) i hi hirun
    · exact h.halted (.inl ((hmem false).mp hs)) i hi hirun
    · obtain ⟨j, hj, hjt⟩ := h.copy.mpr (hcopy.mp hleft)
      exact htags p.target j hj hjt
  · rintro ⟨hl, hrest⟩
    obtain ⟨hs, hleft⟩ := hrest hcut
    have hsource := h.untaken (fun h => hs ((hmem false).mpr h)) fun h => hl ((hmem true).mpr h)
    refine ⟨⟨i₀, hsource, hrunning⟩, fun q i hi htag => ?_⟩
    by_cases hq : q = p.target
    · rw [hq] at hi
      exact hleft (hcopy.mpr (h.copy.mp ⟨i, hi, htag⟩))
    · exact h.others q i hq hi htag

omit hne in
theorem Going.back (h : Going p job i₀ l w) :
    Back p job i₀ l { w with log := ⟨.progress "rolling back", false, took⟩ :: w.log } := by
  have hmem : ∀ b, (⟨.setState p.source .stop, b, true⟩ : Entry) ∈
      (⟨.progress "rolling back", false, took⟩ : Entry) :: w.log ↔
        ⟨.setState p.source .stop, b, true⟩ ∈ w.log := by
    intro b
    refine ⟨fun hb => ?_, mem_cons_of_mem _⟩
    rcases mem_cons.mp hb with hb | hb
    · cases hb
    · exact hb
  refine ⟨⟨h.uncommitted, h.flag.trans (hmem false).symm, fun hs hl => ?_, fun hs hl => ?_,
    h.others, h.lasting⟩, fun hs => ?_, ?_, ?_⟩
  · exact h.once ((hmem false).mp hs) ((hmem true).mp hl)
  · exact h.untaken (fun h => hs ((hmem false).mpr h)) fun h => hl ((hmem true).mpr h)
  · exact h.halted (hs.imp (hmem false).mp (hmem true).mp)
  · rfl
  · rintro ⟨e, he, hr, hf⟩
    rcases mem_cons.mp he with rfl | he
    · cases hf
    · have hnone := any_eq_false.mp h.quiet e he
      exact hnone hr

/-- Rolled back so far that no copy of the move is left. -/
structure Cleared (p : MigratePayload) (job : JobRef) (i₀ : Instance) (l : Flags) (w : Clusters) :
    Prop extends Back p job i₀ l w where
  gone : RollbackServed w → ¬ OwnCopy p job w

theorem Back.appear {i : Instance} (h : Back p job i₀ l w) (htag : i.tag tagJob ≠ some job.id) :
    Back p job i₀ l (w.put p.target i) :=
  ⟨h.toTracked.appear hne htag, h.halted.appear hne, h.rolling, h.uncut⟩

omit hne in
theorem not_served (h : w.log.any isRollingBack = true)
    (hc : PlainCall p c) (hincus : c.isIncus = true) :
    ¬ RollbackServed { w' with log := ⟨c, true, took⟩ :: w.log } := by
  intro hserved
  have hfalse := ((rollbackServed_enter (w := w) (hc true took)).mp hserved).1 h hincus
  cases hfalse

omit hne in
theorem Back.cleared_of_failed (h : Back p job i₀ l w)
    (hc : PlainCall p c) (hincus : c.isIncus = true) :
    Cleared p job i₀ l { w with log := ⟨c, true, took⟩ :: w.log } :=
  ⟨h.enter (hc true took), fun hserved => absurd hserved (not_served h.rolling hc hincus)⟩

omit hne in
theorem Cleared.enter {e : Entry} (h : Cleared p job i₀ l w) (he : Plain p e) :
    Cleared p job i₀ l { w with log := e :: w.log } :=
  ⟨h.toBack.enter he, fun hserved => h.gone ((rollbackServed_enter he).mp hserved).2⟩

omit hne in
theorem Back.of_target (h : Back p job i₀ l w) (hne : p.source ≠ p.target)
    (hlog : w'.log = w.log) (hget : ∀ q, q ≠ p.target → w'.get q = w.get q)
    (hlasting : ∀ j, w'.get p.target = some j → j.tag tagJob = some job.id → j.ephemeral = false) :
    Back p job i₀ l w' := by
  refine ⟨h.toTracked.of_target hne hlog hget hlasting, h.halted.of_target hne hlog hget, ?_, ?_⟩
  · rw [hlog]
    exact h.rolling
  · unfold RollbackCut
    rw [hlog]
    exact h.uncut

theorem Back.stop_target (h : Back p job i₀ l w)
    (hw : w.setState p.target .stop = some w') : Back p job i₀ l w' := by
  obtain ⟨hlog, hget, -⟩ := setState_target_cases hw
  exact h.of_target hne hlog hget (h.toTracked.setState_target hne hw).lasting

theorem Back.delete_target (h : Back p job i₀ l w)
    (hw : w.delete p.target = some w') :
    w'.log = w.log ∧ Back p job i₀ l w' ∧ ¬ OwnCopy p job w' := by
  obtain ⟨i, -, -, rfl⟩ := delete_cases hw
  have hgone : ((w.remove p.target).touch p.target true i).get p.target = none := by
    rw [Clusters.get_touch, Clusters.get_remove, if_pos rfl]
  refine ⟨rfl, h.of_target hne rfl (fun q hq => ?_) fun j hj => ?_, ?_⟩
  · rw [Clusters.get_touch, Clusters.get_remove, if_neg hq]
  · rw [hgone] at hj
    cases hj
  · rintro ⟨j, hj, -⟩
    rw [hgone] at hj
    cases hj

theorem cleared_delete {E : JobError → Flags → Clusters → Prop}
    (hQ : ∀ w', Cleared p job i₀ l w' → Q () l w') (h : Back p job i₀ l w) :
    wp (world site p job) (fun _ => True) Q E (orIgnore (delete p.target)) l w := by
  have hplain : PlainCall p (.delete p.target) := plainCall_of nofun nofun nofun
  refine wp_orIgnore_delete (J := Back p job i₀ l) (fun w i _ htag hw => hw.appear hne htag)
    (fun w hw => ⟨trivial, hQ _ (hw.cleared_of_failed hplain rfl)⟩) ?_ h
  intro w w' failed hw hdel
  obtain ⟨hlog, hback, hgone⟩ := hw.delete_target hne hdel
  have hcleared : Cleared p job i₀ l w' := ⟨hback, fun _ => hgone⟩
  rw [← hlog]
  exact ⟨trivial, hQ _ (hcleared.enter (hplain failed true))⟩

theorem cleared_removeCopy {copy : Option Instance}
    {E : JobError → Flags → Clusters → Prop} (h : Back p job i₀ l w)
    (hcopy : copy = w.get p.target ∨ ¬ RollbackServed w)
    (hQ : ∀ w', Cleared p job i₀ l w' → Q () l w') :
    wp (world site p job) (fun _ => True) Q E (removeCopy p job copy) l w := by
  have hstay : (∀ j, copy = some j → j.tag tagJob ≠ some job.id) → Cleared p job i₀ l w := by
    refine fun hforeign => ⟨h, fun hserved => ?_⟩
    rintro ⟨j, hj, hjt⟩
    rcases hcopy with hcopy | hnot
    · exact hforeign j (hcopy.trans hj) hjt
    · exact hnot hserved
  cases copy with
  | none => exact hQ w (hstay fun _ hj => nomatch hj)
  | some j =>
    unfold removeCopy
    rw [wp_when]
    split_ifs with htag
    · rw [wp_bind, wp_when]
      split_ifs
      · have hplain : PlainCall p (.setState p.target .stop) :=
          plainCall_of (fun heq => hne (Call.setState.inj heq).1.symm) nofun nofun
        refine wp_orIgnore_setState (J := Back p job i₀ l) (fun w i _ htag hw => hw.appear hne htag)
          (fun w hw => ⟨trivial, cleared_delete hne hQ (hw.enter (hplain true false))⟩) ?_ h
        intro w w' failed hw hset
        rw [← (setState_target_cases hset).1]
        exact ⟨trivial, cleared_delete hne hQ ((hw.stop_target hne hset).enter (hplain failed true))⟩
      · exact cleared_delete hne hQ h
    · refine hQ w (hstay fun k hk hkt => htag ?_)
      obtain rfl := some.inj hk
      exact decide_eq_true hkt

omit hne in
theorem Cleared.settled (h : Cleared p job i₀ l w) (hrunning : i₀.status = .running)
    (hflag : l.stoppedSource = false) : Settled p job l w := by
  intro _ hserved
  have hs : ¬ Stopped p w := fun hs => by
    rw [h.flag.mpr hs] at hflag
    cases hflag
  constructor
  · rintro ⟨⟨i, hi, hirun⟩, -⟩
    exact ⟨fun hl => h.halted (.inr hl) i hi hirun, fun hcut => absurd hcut h.uncut⟩
  · rintro ⟨hl, -⟩
    refine ⟨⟨i₀, h.untaken hs hl, hrunning⟩, fun q i hi htag => ?_⟩
    by_cases hq : q = p.target
    · rw [hq] at hi
      exact h.gone hserved ⟨i, hi, htag⟩
    · exact h.others q i hq hi htag

theorem Cleared.settled_start (h : Cleared p job i₀ l w)
    (hflag : l.stoppedSource = true) (hw : w.setState p.source .start = some w') :
    Settled p job l { w' with log := ⟨.setState p.source .start, false, true⟩ :: w.log } := by
  have hcall : PlainCall p (.setState p.source .start) := plainCall_of (by simp) nofun nofun
  have hplain := hcall false true
  have hfacts : w'.log = w.log ∧ (∀ q, q ≠ p.source → w'.get q = w.get q) ∧
      ∃ i j, w.get p.source = some i ∧ w'.get p.source = some j ∧ j.status = .running ∧
        j.config = i.config := by
    obtain ⟨i, hi, ⟨hstatus, rfl⟩ | ⟨-, rfl⟩ | ⟨hact, -⟩ | ⟨hact, -⟩⟩ := setState_cases hw
    · exact ⟨rfl, fun _ _ => rfl, i, i, hi, hi, hstatus, rfl⟩
    · refine ⟨rfl, fun q hq => by rw [Clusters.get_put, if_neg hq], i, i.started, hi, ?_, rfl, rfl⟩
      rw [Clusters.get_put, if_pos rfl]
    · cases hact
    · cases hact
  obtain ⟨hlog, hget, i, j, hi, hj, hjrun, hconfig⟩ := hfacts
  intro _ hserved
  have hgone : ¬ OwnCopy p job w := by
    refine h.gone ((rollbackServed_enter (w := w) hplain).mp ?_).2
    exact hserved
  constructor
  · intro _
    refine ⟨fun hl => ?_, fun hcut => ?_⟩
    · exact h.once (h.flag.mp hflag) ((stopLost_enter (w := w) hplain).mp hl)
    · exact absurd ((rollbackCut_enter (w := w) hplain).mp hcut) h.uncut
  · intro _
    refine ⟨⟨j, hj, hjrun⟩, fun q k hk htag => ?_⟩
    by_cases hqs : q = p.source
    · rw [hqs] at hk
      obtain rfl := some.inj (hj.symm.trans hk)
      have hold := h.others p.source i hne hi
      unfold Instance.tag at hold htag
      rw [hconfig] at htag
      exact hold htag
    · have hk : w.get q = some k := (hget q hqs).symm.trans hk
      by_cases hqt : q = p.target
      · rw [hqt] at hk
        exact hgone ⟨k, hk, htag⟩
      · exact h.others q k hqt hk htag

theorem settles_restart (hrunning : i₀.status = .running) (h : Cleared p job i₀ l w) :
    wp (world site p job) (fun _ => True) (fun _ => Settled p job) (fun _ => Settled p job)
      (do
        let l ← Handler.locals
        Handler.when l.stoppedSource (orIgnore (setState p.source .start))) l w := by
  rw [wp_bind, wp_locals, wp_when]
  split_ifs with hflag
  · -- Where the start fails, the rollback was not served either.
    have hplain : PlainCall p (.setState p.source .start) := plainCall_of (by simp) nofun nofun
    have hunserved : ∀ (w w' : Clusters) (took : Bool), Cleared p job i₀ l w →
        Settled p job l { w' with log := ⟨.setState p.source .start, true, took⟩ :: w.log } :=
      fun _ _ _ hw _ hserved => absurd hserved (not_served hw.rolling hplain rfl)
    refine wp_orIgnore_setState (J := Cleared p job i₀ l) (fun w i hfree htag hw => ?_)
      (fun w hw => ⟨trivial, hunserved w w false hw⟩) ?_ h
    · exact ⟨hw.toBack.appear hne htag, fun hserved =>
        fun hcopy => hw.gone hserved ((ownCopy_appear hfree htag).mp hcopy)⟩
    · intro w w' failed hw hset
      cases failed with
      | true => exact ⟨trivial, hunserved w w' true hw⟩
      | false => exact ⟨trivial, hw.settled_start hne hflag hset⟩
  · exact h.settled hrunning (Bool.eq_false_iff.mpr hflag)

theorem settles_rollBack (hrunning : i₀.status = .running) (h : Going p job i₀ l w) :
    wp (world site p job) (fun _ => True) (fun _ => Settled p job)
      (fun _ => Settled p job) (rollBack p job) l w := by
  unfold rollBack
  rw [wp_bind]
  -- Where this first write fails, the rollback is cut, and nothing is owed.
  refine wp_step (c := Call.progress "rolling back") (J := Going p job i₀ l)
    (fun w _ => some ((), w)) (fun _ _ => rfl) (fun w i hfree htag hw => hw.appear hne hfree htag)
    (fun w hw => ⟨trivial, hw.settled_of_cut hrunning rfl⟩) ?_ ?_ h
  · rintro w o a w' hw hdone -
    obtain ⟨-, rfl⟩ := Prod.mk.inj (some.inj hdone)
    exact ⟨trivial, hw.settled_of_cut hrunning rfl⟩
  · rintro w o a w' hw hdone -
    obtain ⟨-, rfl⟩ := Prod.mk.inj (some.inj hdone)
    have hplain : PlainCall p (.readInstance p.target) := plainCall_of nofun nofun nofun
    refine ⟨trivial, ?_⟩
    rw [wp_bind]
    unfold orNone
    rw [wp_tryCatch]
    -- A read that fails goes on without the copy: the rollback was not served.
    refine wp_step (c := Call.readInstance p.target) (J := Back p job i₀ l)
      (fun w o => some (w.get p.target, if o.fails then w else w.verify p.target p.target))
      (fun _ _ => rfl) (fun w i _ htag hw => hw.appear hne htag) (fun w hw => ⟨trivial, ?_⟩) ?_ ?_
      hw.back
    · rw [wp_pure, wp_bind]
      exact cleared_removeCopy hne (hw.enter (hplain true false))
        (.inr (not_served hw.rolling hplain rfl)) fun _ => settles_restart hne hrunning
    · rintro w o a w' hw hdone ho
      obtain ⟨-, rfl⟩ := Prod.mk.inj (some.inj hdone)
      rw [ho, if_pos rfl, wp_pure, wp_bind]
      exact ⟨trivial, cleared_removeCopy hne (hw.enter (hplain true true))
        (.inr (not_served hw.rolling hplain rfl)) fun _ => settles_restart hne hrunning⟩
    · rintro w o a w' hw hdone ho
      obtain ⟨rfl, rfl⟩ := Prod.mk.inj (some.inj hdone)
      have hverify : Back p job i₀ l (w.verify p.target p.target) ∧
          (w.verify p.target p.target).log = w.log ∧
          (w.verify p.target p.target).get p.target = w.get p.target := by
        unfold Clusters.verify
        split_ifs
        · exact ⟨hw.of_target hne rfl (fun _ _ => rfl) hw.lasting, rfl, rfl⟩
        · exact ⟨hw, rfl, rfl⟩
      obtain ⟨hback, hlog, hget⟩ := hverify
      rw [ho, wp_bind]
      refine ⟨trivial, cleared_removeCopy hne ?_ (.inl hget.symm) fun _ => settles_restart hne hrunning⟩
      rw [← hlog]
      exact hback.enter (hplain false true)

/-! ### The whole handler -/

omit hne in
theorem Settled.enter (h : Settled p job l w) (hc : PlainCall p c) :
    Settled p job l { w with log := ⟨c, failed, took⟩ :: w.log } := by
  intro hl hserved
  have he := hc failed took
  rw [stopLost_enter he, rollbackCut_enter he, stopped_enter he, copyLeft_enter he]
  exact h hl ((rollbackServed_enter he).mp hserved).2

theorem Settled.appear {i : Instance} (h : Settled p job l w) (hfree : w.get p.target = none)
    (htag : i.tag tagJob ≠ some job.id) : Settled p job l (w.put p.target i) := by
  intro hl hserved
  refine Iff.trans ?_ (h hl hserved)
  refine and_congr ?_ ⟨fun hall q j hj => ?_, fun hall q j hj => ?_⟩
  · rw [Clusters.get_put, if_neg hne]
  · refine hall q j ?_
    rw [Clusters.get_put, if_neg fun hq => ?_]
    · exact hj
    · rw [hq, hfree] at hj
      cases hj
  · rw [Clusters.get_put] at hj
    split_ifs at hj with hq
    · obtain rfl := some.inj hj
      exact htag
    · exact hall q j hj

theorem kept_settled (ids : List String) :
    Kept p job (.refreshInventory ids) (Settled p job l) where
  appear _ _ hfree htag h := h.appear hne hfree htag
  enter _ _ _ h := h.enter (plainCall_of nofun nofun nofun)

omit hne

variable {instances : OrdMap Place Instance}

/-- The move has only looked. -/
structure Early (p : MigratePayload) (job : JobRef) (i₀ : Instance)
    (instances : OrdMap Place Instance) (w : Clusters) : Prop extends Untouched p i₀ instances w where
  untagged : ∀ q i, w.get q = some i → i.tag tagJob ≠ some job.id
  plain : ∀ e ∈ w.log, Plain p e

theorem Early.enter {e : Entry} (h : Early p job i₀ instances w) (he : Plain p e) :
    Early p job i₀ instances { w with log := e :: w.log } :=
  ⟨⟨h.source, h.touched, h.target⟩, h.untagged, forall_mem_cons.mpr ⟨he, h.plain⟩⟩

theorem kept_early (hc : PlainCall p c) : Kept p job c (Early p job i₀ instances) where
  appear w i hfree htag h := by
    refine ⟨h.toUntouched.put_target hfree i, fun q j hj => ?_, h.plain⟩
    rw [Clusters.get_put] at hj
    split_ifs at hj
    · obtain rfl := some.inj hj
      exact htag
    · exact h.untagged q j hj
  enter _ failed took h := h.enter (hc failed took)

theorem Early.not_stopped (h : Early p job i₀ instances w) : ¬ Stopped p w := fun hs =>
  (h.plain _ hs).stop rfl rfl

theorem Early.not_stopLost (h : Early p job i₀ instances w) : ¬ StopLost p w := fun hl =>
  (h.plain _ hl).stop rfl rfl

theorem Early.not_copyLeft (h : Early p job i₀ instances w) : ¬ CopyLeft w := by
  rintro ⟨e, he, ht, s, t, request, live, transport, hcall⟩
  exact (h.plain e he).transfer ht _ _ _ _ _ hcall

theorem Early.settled (h : Early p job i₀ instances w) (hrunning : i₀.status = .running) :
    Settled p job l w := by
  intro _ _
  refine ⟨fun _ => ⟨h.not_stopLost, fun _ => ⟨h.not_stopped, h.not_copyLeft⟩⟩, fun _ => ?_⟩
  exact ⟨⟨i₀, h.source, hrunning⟩, h.untagged⟩

theorem Early.going (h : Early p job i₀ instances w) (hfree : w.get p.target = none) :
    Going p job i₀ ⟨false, false⟩ w := by
  refine ⟨⟨rfl, ?_, fun hs => absurd hs h.not_stopped, fun _ _ => h.source,
    fun q i _ => h.untagged q i, fun j hj => ?_⟩, fun hs => ?_, ?_, ?_⟩
  · exact ⟨(nomatch ·), fun hs => absurd hs h.not_stopped⟩
  · rw [hfree] at hj
    cases hj
  · exact absurd hs (not_or.mpr ⟨h.not_stopped, h.not_stopLost⟩)
  · refine ⟨?_, fun hleft => absurd hleft h.not_copyLeft⟩
    rintro ⟨j, hj, -⟩
    rw [hfree] at hj
    cases hj
  · rw [any_eq_false]
    intro e he
    rw [(h.plain e he).rollingBack]
    exact Bool.false_ne_true

theorem settles_migrateHandler {parse : String → Option BootState} (hmode : p.mode = .move)
    (hi₀ : instances.get p.source = some i₀) (hrunning : i₀.status = .running)
    (huntagged : ∀ q i, instances.get q = some i → i.tag tagJob ≠ some job.id) :
    wp (world site p job) (fun _ => True) (fun _ => Settled p job)
      (fun _ => Settled p job) (migrateHandler p job parse) ⟨false, false⟩ (.start instances) := by
  have hstart : Early p job i₀ instances (.start instances) :=
    ⟨⟨hi₀, rfl, .inl rfl⟩, huntagged, nofun⟩
  have hfail : ∀ w, Early p job i₀ instances w → True ∧ Settled p job ⟨false, false⟩ w :=
    fun w hw => ⟨trivial, hw.settled hrunning⟩
  have hplain : ∀ {c : Call}, (∀ q, c ≠ .setState q .stop) →
      (∀ s t request live transport, c ≠ .transfer s t request live transport) →
      c ≠ .progress "rolling back" → Kept p job c (Early p job i₀ instances) :=
    fun hs ht hr => kept_early (plainCall_of (hs _) ht hr)
  unfold migrateHandler
  rw [wp_bind]
  refine wp_unit (c := Call.clientFor _) () (fun _ _ => rfl) (hplain nofun nofun nofun) hfail
    (fun w hw => ?_) hstart
  rw [wp_bind]
  refine wp_unit (c := Call.clientFor _) () (fun _ _ => rfl) (hplain nofun nofun nofun) hfail
    (fun w hw => ?_) hw
  rw [wp_bind]
  refine wp_progress (kept_early (plainCall_progress (by decide))) hfail (fun w hw => ?_) hw
  rw [wp_bind]
  refine wp_sourceFacts (hplain nofun nofun nofun) hfail (fun w s hw hs => ?_) hw
  rw [wp_bind]
  obtain ⟨hs, -⟩ := sourceFacts_eq hi₀ hw.toUntouched hs
  have hfacts : PlainCall p (.sourceFacts p.source) := plainCall_of nofun nofun nofun
  have htargets : PlainCall p (.targetFacts p.targetClusterId p.targetProject) :=
    plainCall_of nofun nofun nofun
  refine wp_silent (c := Call.targetFacts _ _) (·.targetFacts site _ _) (fun _ _ => rfl)
    (kept_early htargets) hfail (fun w hw => ?_) (hw.enter (hfacts false true))
  rw [wp_bind, wp_when]
  split_ifs with hok
  · rw [wp_throw]
    exact (hw.enter (htargets false true)).settled hrunning
  · rw [Bool.not_eq_true, Bool.not_eq_false'] at hok
    obtain ⟨hfree, hne, -⟩ := hw.toUntouched.of_ok hs hok
    have hw := hw.enter (htargets false true)
    have hrefresh : ∀ {Q : Unit → Flags → Clusters → Prop} {l w}, Settled p job l w →
        (∀ w', Settled p job l w' → Q () l w') →
        wp (world site p job) (fun _ => True) Q (fun _ => Settled p job)
          (refreshInventory [p.sourceClusterId, p.targetClusterId]) l w :=
      fun h hQ => wp_unit (c := Call.refreshInventory _) () (fun _ _ => rfl) (kept_settled hne _)
        (fun w hw => ⟨trivial, hw⟩) hQ h
    rw [wp_bind, wp_andFinally, wp_tryCatch]
    refine wp_mono (fun t l w hl => ?_) (fun e l w hgoing => ?_)
      (goes_migrate hne hmode hrunning (hw.going hfree) hw.not_stopped hw.not_stopLost)
    · refine hrefresh (fun hf => ?_) fun w' hw' => hw'
      rw [hl] at hf
      cases hf
    · rw [wp_bind, wp_locals, wp_bind, wp_when]
      split_ifs with hl
      · have hl : l.committed = false := by simpa using hl
        exact wp_mono (fun _ _ _ h => hrefresh h fun _ h => h)
          (fun _ _ _ h => hrefresh h fun _ h => h) (settles_rollBack hne hrunning (hgoing hl))
      · refine hrefresh (fun hf => ?_) fun w' hw' => hw'
        rw [hf] at hl
        exact absurd rfl hl

/-- A move of a running instance that did not commit, and whose rollback's calls to Incus succeeded,
is undone exactly where the stop of the source did not fail after it took effect, and the rollback's
first `progress` write did not fail while the source was stopped or a copy made. -/
theorem failed_move_undone (site : Site) (parse : String → Option BootState) (p : MigratePayload)
    (job : JobRef) (instances : OrdMap Place Instance) (i₀ : Instance) (hmode : p.mode = .move)
    (hi₀ : instances.get p.source = some i₀) (hrunning : i₀.status = .running)
    (huntagged : ∀ q i, instances.get q = some i → i.tag tagJob ≠ some job.id)
    (os : List Outcome) (r : Except JobError MigrateResult) (l : Flags) (w : Clusters)
    (hrun : (migrateHandler p job parse ⟨false, false⟩).result (world site p job)
      (.start instances) os = some ((r, l), w))
    (hfailed : l.committed = false) (hserved : RollbackServed w) :
    Undone p job w ↔ ¬ StopLost p w ∧ (RollbackCut w → ¬ Stopped p w ∧ ¬ CopyLeft w) := by
  have hsettled := (wp_iff_result _ _ _).mp
    (settles_migrateHandler hmode hi₀ hrunning huntagged) os r l w hrun
  cases r with
  | ok _ => exact hsettled hfailed hserved
  | error _ => exact hsettled hfailed hserved

end

/-! ### Moves that fail -/

instance (w : Clusters) : Decidable (RollbackServed w) :=
  inferInstanceAs (Decidable (∀ e ∈ rollbackCalls w.log, e.call.isIncus = true → e.failed = false))

instance (p : MigratePayload) (w : Clusters) : Decidable (StopLost p w) :=
  inferInstanceAs (Decidable (_ ∈ w.log))

instance (w : Clusters) : Decidable (RollbackCut w) :=
  inferInstanceAs (Decidable (∃ e ∈ w.log, isRollingBack e = true ∧ e.failed = true))

def late : Outcome := { fine with fails := true, took := true }

/-- How the move of `web` ends, when its calls go so. -/
def moved (os : List Outcome) : Option ((Except JobError MigrateResult × Flags) × Clusters) :=
  (migrateHandler moveWeb ⟨"j", none⟩ (fun _ => none) ⟨false, false⟩).result
    (world twoClusters moveWeb ⟨"j", none⟩) (.start [(moveWeb.source, web false)]) os

theorem web_untagged (q : Place) (i : Instance)
    (h : OrdMap.get [(moveWeb.source, web false)] q = some i) : i.tag tagJob ≠ some "j" := by
  rw [OrdMap.get_cons] at h
  split_ifs at h
  · obtain rfl := some.inj h
    decide
  · cases h

/-- The transfer fails and leaves a copy behind: the copy is deleted and the source started. -/
theorem failed_move_undone_transfer :
    ∃ r l w, moved (List.replicate 8 fine ++ late :: List.replicate 5 fine) = some ((r, l), w) ∧
      l.committed = false ∧ RollbackServed w ∧ CopyLeft w ∧ Undone moveWeb ⟨"j", none⟩ w := by
  have hend : (moved (List.replicate 8 fine ++ late :: List.replicate 5 fine)).map
      (fun e => (e.1.2.committed, decide (RollbackServed e.2), decide (StopLost moveWeb e.2),
        decide (RollbackCut e.2), e.2.log.any fun e => e.took && match e.call with
          | .transfer _ _ _ _ _ => true
          | _ => false)) = some (false, true, false, false, true) := by decide
  obtain ⟨⟨⟨r, l⟩, w⟩, hrun, hshown⟩ := Option.map_eq_some_iff.mp hend
  simp only [Prod.mk.injEq, decide_eq_true_eq, decide_eq_false_iff_not] at hshown
  obtain ⟨hl, hserved, hlost, hcut, hleft⟩ := hshown
  refine ⟨r, l, w, hrun, hl, hserved, ?_, (failed_move_undone twoClusters (fun _ => none) moveWeb
    ⟨"j", none⟩ [(moveWeb.source, web false)] (web false) rfl (by decide) rfl web_untagged _ r l w
    hrun hl hserved).mpr ⟨hlost, fun h => absurd h hcut⟩⟩
  obtain ⟨e, he, hcall⟩ := any_eq_true.mp hleft
  obtain ⟨htook, hcall⟩ := Bool.and_eq_true_iff.mp hcall
  refine ⟨e, he, htook, ?_⟩
  split at hcall
  · exact ⟨_, _, _, _, _, ‹_›⟩
  · cases hcall

/-- The stop of the source fails after it took effect: nothing starts the source again. -/
theorem lost_stop_not_undone :
    ∃ os r l w, moved os = some ((r, l), w) ∧ l.committed = false ∧ RollbackServed w ∧
      ¬ Undone moveWeb ⟨"j", none⟩ w := by
  have hend : (moved (List.replicate 6 fine ++ late :: List.replicate 3 fine)).map
      (fun e => (e.1.2.committed, decide (RollbackServed e.2),
        (e.2.get moveWeb.source).map (·.status))) = some (false, true, some .stopped) := by decide
  obtain ⟨⟨⟨r, l⟩, w⟩, hrun, hshown⟩ := Option.map_eq_some_iff.mp hend
  simp only [Prod.mk.injEq, decide_eq_true_eq] at hshown
  obtain ⟨hl, hserved, hstatus⟩ := hshown
  refine ⟨_, r, l, w, hrun, hl, hserved, ?_⟩
  rintro ⟨⟨i, hi, hrunning⟩, -⟩
  rw [hi, Option.map_some, hrunning] at hstatus
  cases hstatus

end IncusCloud.Mobility
