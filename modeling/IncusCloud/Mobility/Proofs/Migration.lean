import IncusCloud.Mobility.Proofs.Calls

/-!
# A migration does not lose the instance

After every call of every run either the source is there, or a copy of its type is and was read back
after a successful transfer; the source is deleted by a move only, after that read; and of what is
under the target's name only this job's own copy is stopped or deleted.

Until the handler commits, the source is kept (`SourceKept`); from there on the copy is
(`CopyKept`). A stop keeps the source unless it is ephemeral, so that is what the result depends on.
-/

namespace IncusCloud.Mobility

open Lib Handler Migration List Option

variable {action : StateAction} {w' : Clusters} {source : SourceInstance}

def Clusters.start (instances : OrdMap Place Instance) : Clusters := ⟨instances, [], [], false, none⟩

/-- What a migration of `i₀` owes, after each of its calls. -/
structure Unlost (p : MigratePayload) (job : JobRef) (i₀ : Instance) (w : Clusters) : Prop where
  present : (w.get p.source).isSome ∨
    ∃ j, w.get p.target = some j ∧ j.type = i₀.type ∧ w.verified = some i₀.type
  deleted : ∀ t ∈ w.touched, t.place = p.source → t.deleted = true →
    p.mode = .move ∧ w.verified = some i₀.type
  own : ∀ t ∈ w.touched, t.place = p.target → t.before.tag tagJob = some job.id

section

variable {site : Site} {p : MigratePayload} {job : JobRef} {i₀ : Instance} {l : Flags} {w : Clusters}

/-- The source is there, and of the target only the own copy was touched. -/
structure SourceKept (p : MigratePayload) (job : JobRef) (i₀ : Instance) (w : Clusters) : Prop where
  source : ∃ i, w.get p.source = some i ∧ i.type = i₀.type ∧ i.ephemeral = i₀.ephemeral
  notDeleted : ∀ t ∈ w.touched, t.place = p.source → t.deleted = false
  own : ∀ t ∈ w.touched, t.place = p.target → t.before.tag tagJob = some job.id
  /-- A transfer makes no ephemeral instance, so a stop does not free the name. -/
  lasting : ∀ j, w.get p.target = some j → j.tag tagJob = some job.id → j.ephemeral = false

/-- The verified copy is there. -/
structure CopyKept (p : MigratePayload) (job : JobRef) (i₀ : Instance) (w : Clusters) : Prop where
  copy : ∃ j, w.get p.target = some j ∧ j.type = i₀.type
  verified : w.verified = some i₀.type
  own : ∀ t ∈ w.touched, t.place = p.target → t.before.tag tagJob = some job.id

def KeptAt (p : MigratePayload) (job : JobRef) (i₀ : Instance) (l : Flags) (w : Clusters) : Prop :=
  if l.committed then p.mode = .move ∧ CopyKept p job i₀ w else SourceKept p job i₀ w

theorem SourceKept.unlost (h : SourceKept p job i₀ w) : Unlost p job i₀ w := by
  obtain ⟨i, hi, -⟩ := h.source
  refine ⟨.inl (by rw [hi]; rfl), fun t ht hp hd => ?_, h.own⟩
  rw [h.notDeleted t ht hp] at hd
  cases hd

theorem CopyKept.unlost (h : CopyKept p job i₀ w) (hmode : p.mode = .move) : Unlost p job i₀ w := by
  obtain ⟨j, hj, htype⟩ := h.copy
  exact ⟨.inr ⟨j, hj, htype, h.verified⟩, fun _ _ _ _ => ⟨hmode, h.verified⟩, h.own⟩

theorem KeptAt.unlost (h : KeptAt p job i₀ l w) : Unlost p job i₀ w := by
  unfold KeptAt at h
  split_ifs at h with hl
  · exact h.2.unlost h.1
  · exact h.unlost

/-! ### What outlives a call without effect -/

variable (hne : p.source ≠ p.target)

include hne

theorem SourceKept.put_target (i : Instance) (h : SourceKept p job i₀ w)
    (hi : i.tag tagJob = some job.id → i.ephemeral = false) :
    SourceKept p job i₀ (w.put p.target i) := by
  obtain ⟨i', hi', ht⟩ := h.source
  refine ⟨⟨i', ?_, ht⟩, h.notDeleted, h.own, fun j hj => ?_⟩
  · rw [Clusters.get_put, if_neg hne, hi']
  · rw [Clusters.get_put, if_pos rfl] at hj
    rwa [← some.inj hj]

theorem kept_sourceKept (c : Call) : Kept p job c (SourceKept p job i₀) where
  appear _ i _ htag h := h.put_target hne i fun hi => absurd hi htag
  enter _ _ _ h := ⟨h.source, h.notDeleted, h.own, h.lasting⟩

theorem kept_transferred (c : Call) :
    Kept p job c fun w => SourceKept p job i₀ w ∧ w.transferred = true where
  appear w i hfree htag h := ⟨(kept_sourceKept hne c).appear w i hfree htag h.1, h.2⟩
  enter w failed took h := ⟨(kept_sourceKept hne c).enter w failed took h.1, h.2⟩

omit hne

theorem kept_copyKept (c : Call) : Kept p job c (CopyKept p job i₀) where
  appear w i hfree _ h := by
    obtain ⟨j, hj, -⟩ := h.copy
    rw [hfree] at hj
    cases hj
  enter _ _ _ h := ⟨h.copy, h.verified, h.own⟩

include hne

theorem kept_both (c : Call) :
    Kept p job c fun w => SourceKept p job i₀ w ∧ CopyKept p job i₀ w where
  appear w i hfree htag h :=
    ⟨(kept_sourceKept hne c).appear w i hfree htag h.1, (kept_copyKept c).appear w i hfree htag h.2⟩
  enter w failed took h :=
    ⟨(kept_sourceKept hne c).enter w failed took h.1, (kept_copyKept c).enter w failed took h.2⟩

theorem kept_keptAt (c : Call) : Kept p job c (KeptAt p job i₀ l) := by
  unfold KeptAt
  split_ifs with hl
  · exact ⟨fun w i hfree htag h => ⟨h.1, (kept_copyKept c).appear w i hfree htag h.2⟩,
      fun w failed took h => ⟨h.1, (kept_copyKept c).enter w failed took h.2⟩⟩
  · exact kept_sourceKept hne c

/-! ### What a call with an effect keeps -/

omit hne

def StateAction.status : StateAction → Status
  | .start => .running
  | .stop => .stopped

theorem setState_cases {q : Place}
    (h : w.setState q action = some w') :
    ∃ i, w.get q = some i ∧
      ((i.status = action.status ∧ w' = w) ∨ (action = .start ∧ w' = w.put q i.started) ∨
        (action = .stop ∧ ∃ j, i.stopped = some j ∧ w' = (w.put q j).touch q false i) ∨
        (action = .stop ∧ i.stopped = none ∧ w' = (w.remove q).touch q false i)) := by
  obtain ⟨i, hi, rfl⟩ := map_eq_some_iff.mp h
  refine ⟨i, hi, ?_⟩
  cases action with
  | start =>
    dsimp only
    split_ifs with hs
    · exact .inl ⟨hs, rfl⟩
    · exact .inr (.inl ⟨rfl, rfl⟩)
  | stop =>
    dsimp only
    split_ifs with hs
    · exact .inl ⟨hs, rfl⟩
    · cases hj : i.stopped with
      | some j => exact .inr (.inr (.inl ⟨rfl, j, rfl, rfl⟩))
      | none => exact .inr (.inr (.inr ⟨rfl, rfl, rfl⟩))

theorem stopped_of_not_ephemeral {i : Instance} (h : i.ephemeral = false) :
    i.stopped = some { i with status := .stopped } := by
  rw [Instance.stopped, h]
  rfl

theorem SourceKept.stop_source (h : SourceKept p job i₀ w) (hne : p.source ≠ p.target)
    (heph : i₀.ephemeral = false) (hw : w.setState p.source .stop = some w') :
    SourceKept p job i₀ w' := by
  obtain ⟨i', hi', htype, heph'⟩ := h.source
  obtain ⟨i, hi, ⟨-, rfl⟩ | ⟨hact, -⟩ | ⟨-, j, hj, rfl⟩ | ⟨-, hnone, -⟩⟩ := setState_cases hw
  · exact h
  · cases hact
  · obtain rfl : i' = i := some.inj (hi'.symm.trans hi)
    rw [stopped_of_not_ephemeral (heph'.trans heph)] at hj
    obtain rfl := some.inj hj
    refine ⟨⟨{ i' with status := .stopped }, ?_, htype, heph'⟩, ?_, ?_, fun t ht => ?_⟩
    · rw [Clusters.get_touch, Clusters.get_put, if_pos rfl]
    · intro t ht hp
      rcases mem_cons.mp ht with rfl | ht
      · rfl
      · exact h.notDeleted t ht hp
    · intro t ht hp
      rcases mem_cons.mp ht with rfl | ht
      · exact absurd hp hne
      · exact h.own t ht hp
    · rw [Clusters.get_touch, Clusters.get_put, if_neg hne.symm] at ht
      exact h.lasting t ht
  · obtain rfl : i' = i := some.inj (hi'.symm.trans hi)
    rw [stopped_of_not_ephemeral (heph'.trans heph)] at hnone
    cases hnone

/-- What is done under the target's name does not change the source; of this job's own copy anything
may be stopped or deleted. -/
theorem SourceKept.of_target (h : SourceKept p job i₀ w) (hne : p.source ≠ p.target)
    (hget : w'.get p.source = w.get p.source)
    (htouched : ∀ t ∈ w'.touched,
      t ∈ w.touched ∨ (t.place = p.target ∧ t.before.tag tagJob = some job.id))
    (hlasting : ∀ j, w'.get p.target = some j → j.tag tagJob = some job.id → j.ephemeral = false) :
    SourceKept p job i₀ w' := by
  refine ⟨by rw [hget]; exact h.source, fun t ht hp => ?_, fun t ht hp => ?_, hlasting⟩
  · rcases htouched t ht with ht | ht
    · exact h.notDeleted t ht hp
    · exact absurd (hp.symm.trans ht.1) hne
  · rcases htouched t ht with ht | ht
    · exact h.own t ht hp
    · exact ht.2

theorem SourceKept.setState_own {j : Instance}
    (h : SourceKept p job i₀ w) (hne : p.source ≠ p.target) (hj : w.get p.target = some j)
    (htag : j.tag tagJob = some job.id) (hw : w.setState p.target action = some w') :
    SourceKept p job i₀ w' ∧ ∃ j', w'.get p.target = some j' ∧ j'.tag tagJob = some job.id := by
  have heph := h.lasting j hj htag
  obtain ⟨i, hi, ⟨-, rfl⟩ | ⟨-, rfl⟩ | ⟨-, j', hj', rfl⟩ | ⟨-, hnone, -⟩⟩ := setState_cases hw
  · exact ⟨h, j, hj, htag⟩
  · obtain rfl : j = i := some.inj (hj.symm.trans hi)
    exact ⟨h.put_target hne _ fun _ => heph, j.started, by rw [Clusters.get_put, if_pos rfl], htag⟩
  · obtain rfl : j = i := some.inj (hj.symm.trans hi)
    rw [stopped_of_not_ephemeral heph] at hj'
    obtain rfl := some.inj hj'
    have hget : ((w.put p.target { j with status := .stopped }).touch p.target false j).get p.target =
        some { j with status := .stopped } := by
      rw [Clusters.get_touch, Clusters.get_put, if_pos rfl]
    refine ⟨h.of_target hne ?_ (fun t ht => ?_) fun k hk _ => ?_, _, hget, htag⟩
    · rw [Clusters.get_touch, Clusters.get_put, if_neg hne]
    · rcases mem_cons.mp ht with rfl | ht
      · exact .inr ⟨rfl, htag⟩
      · exact .inl ht
    · rw [hget] at hk
      obtain rfl := some.inj hk
      exact heph
  · obtain rfl : j = i := some.inj (hj.symm.trans hi)
    rw [stopped_of_not_ephemeral heph] at hnone
    cases hnone

theorem SourceKept.start_target (h : SourceKept p job i₀ w)
    (hne : p.source ≠ p.target) (hw : w.setState p.target .start = some w') :
    SourceKept p job i₀ w' := by
  obtain ⟨i, hi, ⟨-, rfl⟩ | ⟨-, rfl⟩ | ⟨hact, -⟩ | ⟨hact, -⟩⟩ := setState_cases hw
  · exact h
  · exact h.put_target hne _ (h.lasting i hi)
  · cases hact
  · cases hact

theorem SourceKept.start_source (h : SourceKept p job i₀ w)
    (hne : p.source ≠ p.target) (hw : w.setState p.source .start = some w') :
    SourceKept p job i₀ w' := by
  obtain ⟨i', hi', hsame⟩ := h.source
  obtain ⟨i, hi, ⟨-, rfl⟩ | ⟨-, rfl⟩ | ⟨hact, -⟩ | ⟨hact, -⟩⟩ := setState_cases hw
  · exact h
  · obtain rfl : i' = i := some.inj (hi'.symm.trans hi)
    refine ⟨⟨i'.started, by rw [Clusters.get_put, if_pos rfl], hsame⟩, h.notDeleted, h.own, ?_⟩
    intro j hj
    rw [Clusters.get_put, if_neg hne.symm] at hj
    exact h.lasting j hj
  · cases hact
  · cases hact

theorem delete_cases {q : Place} (h : w.delete q = some w') :
    ∃ i, w.get q = some i ∧ i.status ≠ .running ∧ w' = (w.remove q).touch q true i := by
  obtain ⟨i, hi, h⟩ := bind_eq_some_iff.mp h
  split_ifs at h with hs
  exact ⟨i, hi, hs, (some.inj h).symm⟩

theorem SourceKept.delete_target (h : SourceKept p job i₀ w)
    {j : Instance} (hne : p.source ≠ p.target) (hj : w.get p.target = some j)
    (htag : j.tag tagJob = some job.id) (hw : w.delete p.target = some w') :
    SourceKept p job i₀ w' := by
  obtain ⟨i, hi, -, rfl⟩ := delete_cases hw
  obtain rfl : j = i := some.inj (hj.symm.trans hi)
  refine h.of_target hne ?_ (fun t ht => ?_) fun k hk => ?_
  · rw [Clusters.get_touch, Clusters.get_remove, if_neg hne]
  · rcases mem_cons.mp ht with rfl | ht
    · exact .inr ⟨rfl, htag⟩
    · exact .inl ht
  · rw [Clusters.get_touch, Clusters.get_remove, if_pos rfl] at hk
    cases hk

theorem CopyKept.of_source (h : CopyKept p job i₀ w) (hne : p.source ≠ p.target)
    (hget : w'.get p.target = w.get p.target) (hver : w'.verified = w.verified)
    (htouched : ∀ t ∈ w'.touched, t ∈ w.touched ∨ t.place = p.source) : CopyKept p job i₀ w' := by
  refine ⟨by rw [hget]; exact h.copy, by rw [hver]; exact h.verified, fun t ht hp => ?_⟩
  rcases htouched t ht with ht | ht
  · exact h.own t ht hp
  · exact absurd (ht.symm.trans hp) hne

theorem CopyKept.setState_source (h : CopyKept p job i₀ w)
    (hne : p.source ≠ p.target) (hw : w.setState p.source action = some w') :
    CopyKept p job i₀ w' := by
  obtain ⟨i, hi, ⟨-, rfl⟩ | ⟨-, rfl⟩ | ⟨-, j, -, rfl⟩ | ⟨-, -, rfl⟩⟩ := setState_cases hw
  · exact h
  · refine h.of_source hne ?_ rfl fun t ht => .inl ht
    rw [Clusters.get_put, if_neg hne.symm]
  · refine h.of_source hne ?_ rfl fun t ht => ?_
    · rw [Clusters.get_touch, Clusters.get_put, if_neg hne.symm]
    · rcases mem_cons.mp ht with rfl | ht
      · exact .inr rfl
      · exact .inl ht
  · refine h.of_source hne ?_ rfl fun t ht => ?_
    · rw [Clusters.get_touch, Clusters.get_remove, if_neg hne.symm]
    · rcases mem_cons.mp ht with rfl | ht
      · exact .inr rfl
      · exact .inl ht

theorem CopyKept.delete_source (h : CopyKept p job i₀ w) (hne : p.source ≠ p.target)
    (hw : w.delete p.source = some w') : CopyKept p job i₀ w' := by
  obtain ⟨i, -, -, rfl⟩ := delete_cases hw
  refine h.of_source hne ?_ rfl fun t ht => ?_
  · rw [Clusters.get_touch, Clusters.get_remove, if_neg hne.symm]
  · rcases mem_cons.mp ht with rfl | ht
    · exact .inr rfl
    · exact .inl ht

theorem CopyKept.start_target (h : CopyKept p job i₀ w)
    (hw : w.setState p.target .start = some w') : CopyKept p job i₀ w' := by
  obtain ⟨j, hj, htype⟩ := h.copy
  obtain ⟨i, hi, ⟨-, rfl⟩ | ⟨-, rfl⟩ | ⟨hact, -⟩ | ⟨hact, -⟩⟩ := setState_cases hw
  · exact h
  · obtain rfl : j = i := some.inj (hj.symm.trans hi)
    refine ⟨⟨j.started, ?_, htype⟩, h.verified, h.own⟩
    rw [Clusters.get_put, if_pos rfl]
  · cases hact
  · cases hact

end

/-! ### The parts of the handler -/

section

variable {site : Site} {p : MigratePayload} {job : JobRef} {i₀ : Instance} {l : Flags}
  {w : Clusters} {J : Clusters → Prop}

/-- `m` owes nothing after any of its calls, keeps what is kept where it throws, and ends in `Q`. -/
abbrev Keeps {α : Type} (site : Site) (p : MigratePayload) (job : JobRef) (i₀ : Instance)
    (Q : α → Flags → Clusters → Prop) (m : Migration α) (l : Flags) (w : Clusters) : Prop :=
  wp (world site p job) (Unlost p job i₀) Q (fun _ => KeptAt p job i₀) m l w

theorem KeptAt.fails (h : KeptAt p job i₀ l w) : Unlost p job i₀ w ∧ KeptAt p job i₀ l w :=
  ⟨h.unlost, h⟩

theorem SourceKept.at (h : SourceKept p job i₀ w) (hl : l.committed = false) :
    KeptAt p job i₀ l w := by
  rw [KeptAt, hl]
  exact h

theorem CopyKept.at (h : CopyKept p job i₀ w) (hmode : p.mode = .move) (hl : l.committed = true) :
    KeptAt p job i₀ l w := by
  rw [KeptAt, hl]
  exact ⟨hmode, h⟩

theorem SourceKept.logged (h : SourceKept p job i₀ w) (log : List Entry) :
    SourceKept p job i₀ { w with log := log } := ⟨h.source, h.notDeleted, h.own, h.lasting⟩

theorem CopyKept.logged (h : CopyKept p job i₀ w) (log : List Entry) :
    CopyKept p job i₀ { w with log := log } := ⟨h.copy, h.verified, h.own⟩

variable (hne : p.source ≠ p.target)

include hne

variable {Q : Unit → Flags → Clusters → Prop}

theorem keeps_stopSource
    (heph : restarts p source = true → i₀.ephemeral = false) (hl : l.committed = false)
    (h : SourceKept p job i₀ w)
    (hQ : ∀ l' w', l'.committed = false → SourceKept p job i₀ w' → Q () l' w') :
    Keeps site p job i₀ Q (stopSource p source) l w := by
  unfold Keeps stopSource
  rw [wp_when]
  split_ifs with hr
  · rw [wp_bind]
    refine wp_progress (kept_sourceKept hne _) (fun w hw => (hw.at hl).fails) (fun w hw => ?_) h
    rw [wp_bind]
    refine wp_setState (kept_sourceKept hne _).spared (fun w hw => (hw.at hl).fails)
      (fun w w' hw hstop => ?_) (fun w w' hw hstop => ?_) hw
    · exact ((hw.stop_source hne (heph hr) hstop).logged _ |>.at hl).fails
    · have hkept := (hw.stop_source hne (heph hr) hstop).logged
        (⟨.setState p.source .stop, false, true⟩ :: w.log)
      exact ⟨hkept.unlost, hQ _ _ hl hkept⟩
  · exact hQ _ _ hl h

theorem keeps_readCopy {Q : Option Instance → Flags → Clusters → Prop} (hl : l.committed = false)
    (h : SourceKept p job i₀ w ∧ w.transferred = true)
    (hQ : ∀ copy w', SourceKept p job i₀ w' →
      (copy.map (·.type) = some i₀.type → CopyKept p job i₀ w') → Q copy l w') :
    Keeps site p job i₀ Q (readInstance p.target) l w := by
  refine wp_readInstance (kept_transferred hne _) (fun w hw => (hw.1.at hl).fails)
    (fun w hw => ?_) h
  have hverify : w.verify p.target p.target =
      { w with verified := (w.get p.target).map (·.type) } := by
    rw [Clusters.verify, if_pos ⟨rfl, hw.2⟩]
  rw [hverify]
  have hsource : SourceKept p job i₀
      { w with
        verified := (w.get p.target).map (·.type)
        log := ⟨.readInstance p.target, false, true⟩ :: w.log } :=
    ⟨hw.1.source, hw.1.notDeleted, hw.1.own, hw.1.lasting⟩
  refine ⟨hsource.unlost, hQ _ _ hsource fun htype => ⟨?_, htype, hw.1.own⟩⟩
  exact map_eq_some_iff.mp htype

theorem keeps_startCopy {copy : Option Instance} (hl : l.committed = false)
    (h : SourceKept p job i₀ w ∧ CopyKept p job i₀ w)
    (hQ : ∀ w', SourceKept p job i₀ w' ∧ CopyKept p job i₀ w' → Q () l w') :
    Keeps site p job i₀ Q (startCopy p source copy) l w := by
  have hstart : ∀ w w', SourceKept p job i₀ w ∧ CopyKept p job i₀ w →
      w.setState p.target .start = some w' → SourceKept p job i₀ w' ∧ CopyKept p job i₀ w' := by
    intro w w' hw hset
    exact ⟨hw.1.start_target hne hset, hw.2.start_target hset⟩
  unfold Keeps startCopy
  rw [wp_when]
  split_ifs
  · rw [wp_bind]
    refine wp_progress (kept_both hne _) (fun w hw => (hw.1.at hl).fails) (fun w hw => ?_) h
    refine wp_setState (kept_both hne _).spared (fun w hw => (hw.1.at hl).fails)
      (fun w w' hw hset => ?_) (fun w w' hw hset => ?_) hw
    · exact ((hstart w w' hw hset).1.logged _ |>.at hl).fails
    · have hnext := hstart w w' hw hset
      exact ⟨(hnext.1.logged _).unlost, hQ _ ⟨hnext.1.logged _, hnext.2.logged _⟩⟩
  · exact hQ _ h

theorem keeps_readLease {Q : Option String → Flags → Clusters → Prop} (hl : l.committed = false)
    (h : SourceKept p job i₀ w ∧ CopyKept p job i₀ w)
    (hQ : ∀ lease w', SourceKept p job i₀ w' ∧ CopyKept p job i₀ w' → Q lease l w') :
    Keeps site p job i₀ Q (readLease p) l w := by
  unfold Keeps readLease
  split_ifs
  · refine wp_unit (c := Call.leaseOf p.source) (site.lease p.source) (fun _ _ => rfl)
      (kept_both hne _) (fun w hw => (hw.1.at hl).fails) (fun w hw => hQ _ w hw) h
  · exact hQ none w h

theorem keeps_deleteSource (hl : l.committed = false)
    (h : SourceKept p job i₀ w ∧ CopyKept p job i₀ w)
    (hQ : ∀ l' w', KeptAt p job i₀ l' w' → Q () l' w') :
    Keeps site p job i₀ Q (deleteSource p) l w := by
  unfold Keeps deleteSource
  rw [wp_when]
  split_ifs with hmode
  · have hmode := of_decide_eq_true hmode
    have hat : ∀ w, CopyKept p job i₀ w → KeptAt p job i₀ ⟨l.stoppedSource, true⟩ w :=
      fun w hw => hw.at hmode rfl
    have hread : ∀ w : Clusters, w.verify p.source p.target = w := fun w => by
      rw [Clusters.verify, if_neg fun hq => hne hq.1]
    rw [wp_bind]
    refine wp_unit (c := Call.throwIfAborted) () (fun _ _ => rfl) (kept_both hne _)
      (fun w hw => (hw.1.at hl).fails) (fun w hw => ?_) h
    rw [wp_bind, wp_assign, wp_bind]
    refine wp_progress (kept_copyKept _) (fun w hw => (hat w hw).fails) (fun w hw => ?_) hw.2
    rw [wp_bind]
    refine wp_readInstance (kept_copyKept _) (fun w hw => (hat w hw).fails) (fun w hw => ?_) hw
    rw [hread]
    refine ⟨(hat _ (hw.logged _)).unlost, ?_⟩
    rw [wp_bind, wp_when]
    have hdelete : ∀ w, CopyKept p job i₀ w →
        Keeps site p job i₀ Q (delete p.source) ⟨l.stoppedSource, true⟩ w := fun w hw =>
      wp_delete (kept_copyKept _).spared (fun w hw => (hat w hw).fails)
        (fun w w' hw hdel => (hat _ ((hw.delete_source hne hdel).logged _)).fails)
        (fun w w' hw hdel =>
          have hnext := hat _ ((hw.delete_source hne hdel).logged _)
          ⟨hnext.unlost, hQ _ _ hnext⟩)
        hw
    split_ifs
    · exact wp_setState (kept_copyKept _).spared (fun w hw => (hat w hw).fails)
        (fun w w' hw hset => (hat _ ((hw.setState_source hne hset).logged _)).fails)
        (fun w w' hw hset =>
          have hnext := (hw.setState_source hne hset).logged _
          ⟨(hat _ hnext).unlost, hdelete _ hnext⟩)
        (hw.logged _)
    · exact hdelete _ (hw.logged _)
  · exact hQ _ _ (h.1.at hl)

theorem keeps_handOwner (h : KeptAt p job i₀ l w)
    (hQ : ∀ w', KeptAt p job i₀ l w' → Q () l w') :
    Keeps site p job i₀ Q (handOwner p job) l w := by
  unfold Keeps handOwner
  cases p.mode with
  | move =>
    exact wp_unit (c := Call.carryOwner p.source p.target) () (fun _ _ => rfl) (kept_keptAt hne _)
      (fun w hw => hw.fails) hQ h
  | copy =>
    cases job.actor with
    | some actor =>
      exact wp_unit (c := Call.recordOwner p.target actor) () (fun _ _ => rfl) (kept_keptAt hne _)
        (fun w hw => hw.fails) hQ h
    | none => exact hQ w h

theorem keeps_handLease {lease : Option String}
    (h : KeptAt p job i₀ l w) (hQ : ∀ w', KeptAt p job i₀ l w' → Q () l w') :
    Keeps site p job i₀ Q (handLease p lease) l w := by
  cases lease with
  | some lease =>
    exact wp_unit (c := Call.putLease p.target lease) () (fun _ _ => rfl) (kept_keptAt hne _)
      (fun w hw => hw.fails) hQ h
  | none => exact hQ w h

theorem keeps_migrate {request : TargetRequest}
    (heph : restarts p source = true → i₀.ephemeral = false) (htype : source.type = i₀.type)
    (hl : l.committed = false) (h : SourceKept p job i₀ w) :
    Keeps site p job i₀ (fun _ => KeptAt p job i₀) (migrate p job source request) l w := by
  unfold Keeps migrate
  rw [wp_bind]
  refine keeps_stopSource hne heph hl h fun l w hl h => ?_
  rw [wp_bind]
  refine wp_progress (kept_sourceKept hne _) (fun w hw => (hw.at hl).fails) (fun w hw => ?_) h
  rw [wp_bind]
  refine wp_transfer (kept_sourceKept hne _).spared (fun w hw => (hw.at hl).fails)
    (fun w left hw _ log _ => ?_) (fun w left how hw _ log _ => ?_) hw
  · have hleft := hw.put_target hne ⟨left.type, left.status, false, request.config ++ left.config⟩
      fun _ => rfl
    have hkept : SourceKept p job i₀
        { w.receive p.target request left with transferred := false, log := log } :=
      ⟨hleft.source, hleft.notDeleted, hleft.own, hleft.lasting⟩
    exact (hkept.at hl).fails
  · have hleft := hw.put_target hne ⟨left.type, left.status, false, request.config ++ left.config⟩
      fun _ => rfl
    have hkept : SourceKept p job i₀
        { w.receive p.target request left with transferred := true, log := log } :=
      ⟨hleft.source, hleft.notDeleted, hleft.own, hleft.lasting⟩
    refine ⟨hkept.unlost, ?_⟩
    rw [wp_bind]
    refine wp_progress (kept_transferred hne _) (fun w hw => (hw.1.at hl).fails) (fun w hw => ?_)
      ⟨hkept, rfl⟩
    rw [wp_bind]
    refine keeps_readCopy hne hl hw fun copy w hsource hcopy => ?_
    rw [wp_bind, wp_when]
    split_ifs with hmissing
    · exact hsource.at hl
    · have hsame : copy.map (·.type) = some source.type := by simpa using hmissing
      rw [htype] at hsame
      rw [wp_bind]
      refine keeps_startCopy hne hl ⟨hsource, hcopy hsame⟩ fun w hw => ?_
      rw [wp_bind]
      refine keeps_readLease hne hl hw fun lease w hw => ?_
      rw [wp_bind]
      refine keeps_deleteSource hne hl hw fun l w hw => ?_
      rw [wp_bind]
      refine keeps_handOwner hne hw fun w hw => ?_
      rw [wp_bind]
      exact keeps_handLease hne hw fun w hw => hw

/-! ### The rollback -/

def OwnCopy (p : MigratePayload) (job : JobRef) (w : Clusters) : Prop :=
  ∃ j, w.get p.target = some j ∧ j.tag tagJob = some job.id

omit hne in
theorem kept_ownCopy (c : Call) :
    Kept p job c fun w => SourceKept p job i₀ w ∧ OwnCopy p job w where
  appear w i hfree _ h := by
    obtain ⟨j, hj, -⟩ := h.2
    rw [hfree] at hj
    cases hj
  enter _ _ _ h := ⟨h.1.logged _, h.2⟩

variable {E : JobError → Flags → Clusters → Prop}

theorem keeps_deleteCopy
    (hQ : ∀ w', SourceKept p job i₀ w' → Q () l w')
    (h : SourceKept p job i₀ w ∧ OwnCopy p job w) :
    wp (world site p job) (Unlost p job i₀) Q E (orIgnore (delete p.target)) l w := by
  refine wp_orIgnore_delete (J := fun w => SourceKept p job i₀ w ∧ OwnCopy p job w)
    (kept_ownCopy (.delete p.target)).spared.appear (fun w hw => ?_) (fun w w' failed hw hdel => ?_) h
  · have hnext := hw.1.logged (⟨.delete p.target, true, false⟩ :: w.log)
    exact ⟨hnext.unlost, hQ _ hnext⟩
  · obtain ⟨k, hk, hkt⟩ := hw.2
    have hnext := (hw.1.delete_target hne hk hkt hdel).logged
      (⟨.delete p.target, failed, true⟩ :: w.log)
    exact ⟨hnext.unlost, hQ _ hnext⟩

theorem keeps_removeCopy {copy : Option Instance} (h : SourceKept p job i₀ w)
    (hcopy : ∀ j, copy = some j → w.get p.target = some j)
    (hQ : ∀ w', SourceKept p job i₀ w' → Q () l w') :
    wp (world site p job) (Unlost p job i₀) Q E (removeCopy p job copy) l w := by
  cases copy with
  | none => exact hQ w h
  | some j =>
    unfold removeCopy
    simp only
    rw [wp_when]
    split_ifs with htag
    · have hown : SourceKept p job i₀ w ∧ OwnCopy p job w :=
        ⟨h, j, hcopy j rfl, of_decide_eq_true htag⟩
      rw [wp_bind, wp_when]
      split_ifs
      · refine wp_orIgnore_setState (J := fun w => SourceKept p job i₀ w ∧ OwnCopy p job w)
          (kept_ownCopy (.setState p.target .stop)).spared.appear (fun w hw => ?_)
          (fun w w' failed hw hset => ?_) hown
        · have hnext := hw.1.logged (⟨.setState p.target .stop, true, false⟩ :: w.log)
          exact ⟨hnext.unlost, keeps_deleteCopy hne hQ ⟨hnext, hw.2⟩⟩
        · obtain ⟨k, hk, hkt⟩ := hw.2
          have hnext := hw.1.setState_own hne hk hkt hset
          exact ⟨(hnext.1.logged _).unlost, keeps_deleteCopy hne hQ ⟨hnext.1.logged _, hnext.2⟩⟩
      · exact keeps_deleteCopy hne hQ hown
    · exact hQ w h

theorem keeps_restart
    (hQ : ∀ w', SourceKept p job i₀ w' → Q () l w') (h : SourceKept p job i₀ w) :
    Keeps site p job i₀ Q
      (do
        let l ← Handler.locals
        Handler.when l.stoppedSource (orIgnore (setState p.source .start))) l w := by
  rw [Keeps, wp_bind, wp_locals, wp_when]
  split_ifs
  · refine wp_orIgnore_setState (kept_sourceKept hne (.setState p.source .start)).spared.appear
      (fun w hw => ?_) (fun w w' failed hw hset => ?_) h
    · have hnext := hw.logged (⟨.setState p.source .start, true, false⟩ :: w.log)
      exact ⟨hnext.unlost, hQ _ hnext⟩
    · have hnext := (hw.start_source hne hset).logged
        (⟨.setState p.source .start, failed, true⟩ :: w.log)
      exact ⟨hnext.unlost, hQ _ hnext⟩
  · exact hQ w h

theorem keeps_rollBack (hl : l.committed = false)
    (h : SourceKept p job i₀ w) (hQ : ∀ w', SourceKept p job i₀ w' → Q () l w') :
    Keeps site p job i₀ Q (rollBack p job) l w := by
  unfold Keeps rollBack
  rw [wp_bind]
  refine wp_progress (kept_sourceKept hne _) (fun w hw => (hw.at hl).fails) (fun w hw => ?_) h
  rw [wp_bind]
  unfold orNone
  rw [wp_tryCatch]
  refine wp_readInstance (kept_sourceKept hne _) (fun w hw => ⟨hw.unlost, ?_⟩) (fun w hw => ?_) hw
  · rw [wp_pure, wp_bind]
    exact keeps_removeCopy hne hw (fun j hj => nomatch hj) fun _ => keeps_restart hne hQ
  · have hnext : SourceKept p job i₀
        { w.verify p.target p.target with log := ⟨.readInstance p.target, false, true⟩ :: w.log } := by
      unfold Clusters.verify
      split_ifs <;> exact ⟨hw.source, hw.notDeleted, hw.own, hw.lasting⟩
    refine ⟨hnext.unlost, ?_⟩
    rw [wp_bind]
    refine keeps_removeCopy hne hnext (fun j hj => ?_) fun _ => keeps_restart hne hQ
    unfold Clusters.verify
    split_ifs <;> exact hj

theorem keeps_afterPreflight {request : TargetRequest}
    {Q : Transport → Flags → Clusters → Prop}
    (heph : restarts p source = true → i₀.ephemeral = false) (htype : source.type = i₀.type)
    (hl : l.committed = false) (h : SourceKept p job i₀ w)
    (hQ : ∀ t l w, KeptAt p job i₀ l w → Q t l w) :
    Keeps site p job i₀ Q
      (Handler.andFinally
        (tryCatch (migrate p job source request) fun e => do
          let l ← Handler.locals
          Handler.when (!l.committed) (rollBack p job)
          throw e)
        (refreshInventory [p.sourceClusterId, p.targetClusterId])) l w := by
  have hrefresh : ∀ {Q : Unit → Flags → Clusters → Prop} {l w}, KeptAt p job i₀ l w →
      (∀ w', KeptAt p job i₀ l w' → Q () l w') →
      Keeps site p job i₀ Q (refreshInventory [p.sourceClusterId, p.targetClusterId]) l w :=
    fun h hQ => wp_unit (c := Call.refreshInventory _) () (fun _ _ => rfl) (kept_keptAt hne _)
      (fun w hw => hw.fails) hQ h
  rw [Keeps, wp_andFinally, wp_tryCatch]
  refine wp_mono (fun t l w hw => ?_) (fun e l w hw => ?_)
    (keeps_migrate hne heph htype hl h)
  · exact hrefresh hw fun w' => hQ t l w'
  · rw [wp_bind, wp_locals, wp_bind, wp_when]
    split_ifs with hl'
    · have hl' : l.committed = false := by simpa using hl'
      rw [KeptAt, hl'] at hw
      refine wp_mono (fun _ _ _ h => h) (fun e l w hw => hrefresh hw fun w hw => hw)
        (keeps_rollBack hne hl' hw fun w hw => ?_)
      exact hrefresh (hw.at hl') fun w hw => hw
    · exact hrefresh hw fun w hw => hw

omit hne

/-! ### Up to pre-flight -/

theorem problems_device (i : PreflightInput) (g : Gathered) (name : String) (d : Config)
    (h : (g.device i name d).problems = []) : g.problems = [] := by
  have hproblem : ∀ text, (g.problem text).problems ≠ [] := fun text => by
    simp [Gathered.problem]
  unfold Gathered.device at h
  simp only at h
  repeat' split at h
  all_goals first
    | exact h
    | exact absurd h (hproblem _)

theorem problems_foldl (i : PreflightInput) (root : Option String) (ds : List (String × Config))
    (g : Gathered)
    (h : (ds.foldl (fun g e => if root = some e.1 then g else g.device i e.1 e.2) g).problems = []) :
    g.problems = [] := by
  induction ds generalizing g with
  | nil => exact h
  | cons e ds ih =>
    have hnext := ih _ h
    dsimp only at hnext
    split_ifs at hnext
    · exact hnext
    · exact problems_device i g e.1 e.2 hnext

variable {parse : String → Option BootState}

theorem free_of_preflight_ok {i : PreflightInput}
    (h : (preflight parse i).ok = true) :
    i.target.projectExists = true ∧ i.targetName ∉ i.target.instanceNames := by
  have hnil : (preflight parse i).problems = [] := by
    simpa [Preflight.ok] using h
  unfold preflight at hnil
  simp only [append_eq_nil_iff] at hnil
  have hstart := problems_foldl i _ _ _ hnil.1
  simp only [append_eq_nil_iff, ite_eq_left_iff, ite_eq_right_iff, cons_ne_nil, imp_false,
    Bool.not_eq_true, Bool.not_eq_false, contains_iff_mem] at hstart
  exact ⟨hstart.1.1.1.1, hstart.1.1.1.2⟩

variable {instances : OrdMap Place Instance}

/-- Nothing is done yet: at most someone else's instance has appeared under the target's name. -/
structure Untouched (p : MigratePayload) (i₀ : Instance) (instances : OrdMap Place Instance)
    (w : Clusters) : Prop where
  source : w.get p.source = some i₀
  touched : w.touched = []
  target : w.instances = instances ∨ (w.get p.target).isSome

theorem Untouched.put_target (h : Untouched p i₀ instances w) (hfree : w.get p.target = none)
    (i : Instance) : Untouched p i₀ instances (w.put p.target i) := by
  have hne : p.source ≠ p.target := by
    intro heq
    rw [← heq, h.source] at hfree
    cases hfree
  refine ⟨?_, h.touched, .inr ?_⟩
  · rw [Clusters.get_put, if_neg hne, h.source]
  · rw [Clusters.get_put, if_pos rfl]
    rfl

theorem kept_untouched (c : Call) : Kept p job c (Untouched p i₀ instances) where
  appear _ i hfree _ h := h.put_target hfree i
  enter _ _ _ h := ⟨h.source, h.touched, h.target⟩

theorem Untouched.unlost (h : Untouched p i₀ instances w) : Unlost p job i₀ w := by
  refine ⟨.inl (by rw [h.source]; rfl), fun t ht => ?_, fun t ht => ?_⟩
  · rw [h.touched] at ht
    cases ht
  · rw [h.touched] at ht
    cases ht

theorem Untouched.sourceKept (h : Untouched p i₀ instances w) (hfree : w.get p.target = none) :
    SourceKept p job i₀ w := by
  refine ⟨⟨i₀, h.source, rfl, rfl⟩, fun t ht => ?_, fun t ht => ?_, fun j hj => ?_⟩
  · rw [h.touched] at ht
    cases ht
  · rw [h.touched] at ht
    cases ht
  · rw [hfree] at hj
    cases hj

variable (site p instances) in
/-- What pre-flight says of the fleet as the job finds it. -/
def preflightOf (parse : String → Option BootState) : Option (SourceInstance × Preflight) :=
  ((Clusters.start instances).sourceFacts site p.source).map fun s =>
    (s, preflight parse ⟨s,
      (Clusters.start instances).targetFacts site p.targetClusterId p.targetProject, p.targetName,
      p.mode, p.live, p.pool⟩)

variable (site p instances) in
/-- The job gets as far as stopping its source, and that is ephemeral. -/
def stopsEphemeral (parse : String → Option BootState) (i₀ : Instance) : Bool :=
  i₀.ephemeral && (preflightOf site p instances parse).any fun c => c.2.ok && restarts p c.1

theorem sourceFacts_eq {s : SourceInstance} (hi₀ : instances.get p.source = some i₀)
    (h : Untouched p i₀ instances w) (hs : w.sourceFacts site p.source = some s) :
    (Clusters.start instances).sourceFacts site p.source = some s ∧ s.type = i₀.type ∧
      s.status = i₀.status := by
  unfold Clusters.sourceFacts at hs ⊢
  rw [h.source] at hs
  obtain rfl := some.inj hs
  have hget : (Clusters.start instances).get p.source = some i₀ := hi₀
  rw [hget]
  exact ⟨rfl, rfl, rfl⟩

/-- Where pre-flight passes, nothing has appeared: the name is free, and it has passed on the fleet
as the job found it. -/
theorem Untouched.of_ok {s : SourceInstance}
    (h : Untouched p i₀ instances w)
    (hs : (Clusters.start instances).sourceFacts site p.source = some s)
    (hok : (preflight parse ⟨s, w.targetFacts site p.targetClusterId p.targetProject, p.targetName,
      p.mode, p.live, p.pool⟩).ok = true) :
    w.get p.target = none ∧ p.source ≠ p.target ∧
      ∃ c, preflightOf site p instances parse = some (s, c) ∧ c.ok = true := by
  obtain ⟨hproject, hname⟩ := free_of_preflight_ok hok
  have hfree : w.get p.target = none := by
    refine Clusters.get_eq_none_of_not_mem_names ?_
    unfold Clusters.targetFacts at hproject hname
    cases hf : site.project p.targetClusterId p.targetProject with
    | none =>
      rw [hf] at hproject
      cases hproject
    | some f =>
      rw [hf] at hname
      exact hname
  have hsame : w.instances = instances := by
    rcases h.target with hsame | hsome
    · exact hsame
    · rw [hfree] at hsome
      cases hsome
  refine ⟨hfree, ?_, _, by rw [preflightOf, hs]; rfl, ?_⟩
  · intro heq
    rw [← heq, h.source] at hfree
    cases hfree
  · have hfacts : (Clusters.start instances).targetFacts site p.targetClusterId p.targetProject =
        w.targetFacts site p.targetClusterId p.targetProject := by
      unfold Clusters.targetFacts Clusters.names Clusters.start
      rw [hsame]
    rw [hfacts]
    exact hok

theorem keeps_migrateHandler
    (hi₀ : instances.get p.source = some i₀)
    (hstop : stopsEphemeral site p instances parse i₀ = false) :
    wp (world site p job) (Unlost p job i₀) (fun _ _ _ => True) (fun _ _ _ => True)
      (migrateHandler p job parse) ⟨false, false⟩ (.start instances) := by
  have hstart : Untouched p i₀ instances (.start instances) := ⟨hi₀, rfl, .inl rfl⟩
  have hfail : ∀ w, Untouched p i₀ instances w → Unlost p job i₀ w ∧ True :=
    fun w hw => ⟨hw.unlost, trivial⟩
  unfold migrateHandler
  rw [wp_bind]
  refine wp_unit (c := Call.clientFor _) () (fun _ _ => rfl) (kept_untouched _) hfail
    (fun w hw => ?_) hstart
  rw [wp_bind]
  refine wp_unit (c := Call.clientFor _) () (fun _ _ => rfl) (kept_untouched _) hfail
    (fun w hw => ?_) hw
  rw [wp_bind]
  refine wp_progress (kept_untouched _) hfail (fun w hw => ?_) hw
  rw [wp_bind]
  refine wp_sourceFacts (kept_untouched _) hfail (fun w s hw hs => ?_) hw
  rw [wp_bind]
  obtain ⟨hs, htype, -⟩ := sourceFacts_eq hi₀ hw hs
  refine wp_silent (c := Call.targetFacts _ _) (·.targetFacts site _ _) (fun _ _ => rfl)
    (kept_untouched _) hfail (fun w hw => ?_) ⟨hw.source, hw.touched, hw.target⟩
  rw [wp_bind, wp_when]
  split_ifs with hok
  · trivial
  · rw [Bool.not_eq_true, Bool.not_eq_false'] at hok
    obtain ⟨hfree, hne, c, hc, hcok⟩ := hw.of_ok hs hok
    have heph : restarts p s = true → i₀.ephemeral = false := by
      intro hr
      rw [stopsEphemeral, hc, any_some, hcok, hr, Bool.and_self, Bool.and_true] at hstop
      exact hstop
    rw [wp_bind]
    refine wp_mono (fun _ _ _ h => h) (fun _ _ _ _ => trivial)
      (keeps_afterPreflight hne heph htype rfl ?_ fun _ _ _ _ => trivial)
    exact (hw.sourceKept hfree).logged _

/-! ### The result -/

def fine : Outcome := ⟨false, false, none, ⟨.container, .stopped, []⟩, .direct⟩

structure Unchanged (instances : OrdMap Place Instance) (w : Clusters) : Prop where
  instances : w.instances = instances
  verified : w.verified = none

theorem wp_of_answer {I : Clusters → Prop} {c : Call} {Q : c.Answer → Flags → Clusters → Prop}
    {a : c.Answer} (hans : answer site p job c w fine = (.ok a, w'))
    (h : wp (world site p job) I Q E (Handler.call c) l w) : I w' ∧ Q a l w' := by
  have hfine := (wp_call c l w).mp h fine
  have hanswer : (world site p job).answer c w fine = (.ok a, w') := hans
  rw [hanswer] at hfine
  exact hfine

theorem wp_of_fine {I : Clusters → Prop} {c : Call} (a : Clusters → c.Answer)
    {Q : c.Answer → Flags → Clusters → Prop}
    (hc : ∀ w, answer site p job c w fine = w.silent c fine (a w)) (hw : Unchanged instances w)
    (h : wp (world site p job) I Q E (Handler.call c) l w) :
    ∃ w', Unchanged instances w' ∧ Q (a w) l w' :=
  ⟨{ w with log := ⟨c, false, true⟩ :: w.log }, ⟨hw.instances, hw.verified⟩,
    (wp_of_answer (hc w) h).2⟩

theorem lost_of_stopsEphemeral
    {Q : MigrateResult → Flags → Clusters → Prop}
    (hi₀ : instances.get p.source = some i₀)
    (hstop : stopsEphemeral site p instances parse i₀ = true) :
    ¬ wp (world site p job) (Unlost p job i₀) Q E (migrateHandler p job parse)
      ⟨false, false⟩ (.start instances) := by
  intro h
  rw [stopsEphemeral, Bool.and_eq_true] at hstop
  obtain ⟨heph, hany⟩ := hstop
  obtain ⟨⟨s, c⟩, hpre, hc⟩ := (Option.any_eq_true _ _).mp hany
  obtain ⟨hok, hr⟩ := Bool.and_eq_true_iff.mp hc
  obtain ⟨s', hs, hpair⟩ := map_eq_some_iff.mp hpre
  obtain ⟨rfl, rfl⟩ := Prod.mk.inj hpair
  have hget : ∀ w, Unchanged instances w → w.get p.source = some i₀ := fun w hw => by
    rw [Clusters.get, hw.instances, hi₀]
  have hfacts : ∀ w, Unchanged instances w → w.sourceFacts site p.source = some s' := fun w hw => by
    unfold Clusters.sourceFacts at hs ⊢
    rwa [hget w hw, ← hget (.start instances) ⟨rfl, rfl⟩]
  have hrunning : i₀.status = .running := by
    have hstatus : s'.status = .running := (of_decide_eq_true hr).2.1
    have hstart : Untouched p i₀ instances (.start instances) := ⟨hi₀, rfl, .inl rfl⟩
    rwa [(sourceFacts_eq hi₀ hstart hs).2.2] at hstatus
  -- The calls up to the stop, each fine.
  unfold migrateHandler at h
  rw [wp_bind] at h
  obtain ⟨w, hw, h⟩ := wp_of_fine (c := Call.clientFor _) (fun _ => ()) (fun _ => rfl) ⟨rfl, rfl⟩ h
  rw [wp_bind] at h
  obtain ⟨w, hw, h⟩ := wp_of_fine (c := Call.clientFor _) (fun _ => ()) (fun _ => rfl) hw h
  rw [wp_bind] at h
  obtain ⟨w, hw, h⟩ := wp_of_fine (c := Call.progress _) (fun _ => ()) (fun _ => rfl) hw h
  rw [wp_bind] at h
  have hread : answer site p job (.sourceFacts p.source) w fine =
      (.ok s', { w with log := ⟨.sourceFacts p.source, false, true⟩ :: w.log }) := by
    show Clusters.reply _ _ _ ((Clusters.sourceFacts site w p.source).map _) = _
    rw [hfacts w hw]
    rfl
  have h := (wp_of_answer hread h).2
  have hw : Unchanged instances { w with log := ⟨.sourceFacts p.source, false, true⟩ :: w.log } :=
    ⟨hw.instances, hw.verified⟩
  have htarget : Clusters.targetFacts site
      { w with log := ⟨.sourceFacts p.source, false, true⟩ :: w.log } p.targetClusterId
      p.targetProject = (Clusters.start instances).targetFacts site p.targetClusterId
        p.targetProject := by
    rw [hw.instances]
    rfl
  rw [wp_bind] at h
  obtain ⟨w, hw, h⟩ := wp_of_fine (c := Call.targetFacts _ _) (·.targetFacts site _ _)
    (fun _ => rfl) hw h
  rw [htarget] at h
  rw [wp_bind, wp_when, if_neg (by rw [hok]; decide), wp_bind,
    wp_andFinally, wp_tryCatch, migrate, wp_bind, stopSource,
    wp_when, if_pos hr, wp_bind] at h
  obtain ⟨w, hw, h⟩ := wp_of_fine (c := Call.progress _) (fun _ => ()) (fun _ => rfl) hw h
  rw [wp_bind] at h
  have hgone : i₀.stopped = none := by
    rw [Instance.stopped, if_pos heph]
  have hset : answer site p job (.setState p.source .stop) w fine =
      (.ok (), { (w.remove p.source).touch p.source false i₀ with
        log := ⟨.setState p.source .stop, false, true⟩ :: w.log }) := by
    show Clusters.reply _ _ _ ((Clusters.setState w p.source .stop).map _) = _
    have hne : i₀.status ≠ .stopped := by rw [hrunning]; decide
    unfold Clusters.setState
    rw [hget w hw]
    simp only [map_some, if_neg hne, hgone]
    rfl
  obtain ⟨hlost, -⟩ := wp_of_answer hset h
  rcases hlost.present with hsource | ⟨j, -, -, hverified⟩
  · have hnone : ((w.remove p.source).touch p.source false i₀).get p.source = none := by
      rw [Clusters.get_touch, Clusters.get_remove, if_pos rfl]
    rw [Clusters.get] at hsource hnone
    rw [hnone] at hsource
    cases hsource
  · have hnone : w.verified = none := hw.verified
    rw [Clusters.touch, Clusters.remove] at hverified
    rw [hnone] at hverified
    cases hverified

/-- However the calls of a migration go, after each of them the instance is not lost and nothing
that is not the job's own is touched: exactly where the job does not stop an ephemeral source. -/
theorem migration_never_loses (site : Site) (parse : String → Option BootState) (p : MigratePayload)
    (job : JobRef) (instances : OrdMap Place Instance) (i₀ : Instance)
    (hi₀ : instances.get p.source = some i₀) :
    (∀ os, ∀ w ∈ (migrateHandler p job parse ⟨false, false⟩).visited (world site p job)
        (.start instances) os, Unlost p job i₀ w) ↔
      stopsEphemeral site p instances parse i₀ = false := by
  rw [← wp_iff_visited]
  constructor
  · intro h
    by_contra hstop
    exact lost_of_stopsEphemeral hi₀ (by simpa using hstop) h
  · exact keeps_migrateHandler hi₀

end

/-! ### Two clusters -/

/-- Two clusters with one pool each, and nothing on the instances that pre-flight minds. -/
def twoClusters : Site where
  details _ := ⟨"x86_64", none, [], [], [], 0⟩
  server _ := ⟨["x86_64"], ["default"], []⟩
  project _ _ := some ⟨[], [], [], false⟩
  lease _ := none

def moveWeb : MigratePayload :=
  ⟨"a", "acme", "web", "b", "acme", "web", .move, false, none, .auto⟩

def web (ephemeral : Bool) : Instance := ⟨.container, .running, ephemeral, []⟩

theorem migration_never_loses_web :
    OrdMap.get [(moveWeb.source, web false)] moveWeb.source = some (web false) ∧
      ∀ os, ∀ w ∈ (migrateHandler moveWeb ⟨"j", none⟩ (fun _ => none) ⟨false, false⟩).visited
        (world twoClusters moveWeb ⟨"j", none⟩) (.start [(moveWeb.source, web false)]) os,
        Unlost moveWeb ⟨"j", none⟩ (web false) w :=
  ⟨by decide, (migration_never_loses twoClusters (fun _ => none) moveWeb ⟨"j", none⟩
    [(moveWeb.source, web false)] (web false) (by decide)).mpr (by decide)⟩

/-- An ephemeral container is gone with its stop, before anything is transferred. -/
theorem move_loses_ephemeral :
    ∃ os, ∃ w ∈ (migrateHandler moveWeb ⟨"j", none⟩ (fun _ => none) ⟨false, false⟩).visited
      (world twoClusters moveWeb ⟨"j", none⟩) (.start [(moveWeb.source, web true)]) os,
      ¬ Unlost moveWeb ⟨"j", none⟩ (web true) w := by
  have hrun : ((migrateHandler moveWeb ⟨"j", none⟩ (fun _ => none) ⟨false, false⟩).visited
      (world twoClusters moveWeb ⟨"j", none⟩) (.start [(moveWeb.source, web true)])
      (List.replicate 7 fine)).getLast?.map
        (fun w => (w.get moveWeb.source, w.get moveWeb.target)) = some (none, none) := by decide
  obtain ⟨w, hw, hshown⟩ := map_eq_some_iff.mp hrun
  obtain ⟨hsource, htarget⟩ := Prod.mk.inj hshown
  refine ⟨List.replicate 7 fine, w, mem_of_getLast? hw, fun h => ?_⟩
  rcases h.present with hsome | ⟨j, hj, -⟩
  · rw [hsource] at hsome
    cases hsome
  · rw [htarget] at hj
    cases hj

end IncusCloud.Mobility
