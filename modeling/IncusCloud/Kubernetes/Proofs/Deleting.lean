import IncusCloud.Kubernetes.Proofs.Waits

/-!
# A workload cluster that is being deleted

Every write of a row's status, in any interleaving of the create and delete jobs, the sync worker
and the requests. As long as no delete of the row is accepted between a create job's start, or a
tick's look at the rows, and their writes of its status, a row that is `deleting` stays so until it
is gone.

A create job and a tick know `Clear`: when they last looked no delete of the row had been accepted.
-/

namespace IncusCloud.Kubernetes

open Lib Handler List Option
open Mobility (JobError)
open Function (update_self update_of_ne)

variable {i : K8sProc} {w w' : Management} {o : K8sOutcome} {id : String}
  {row : K8sRow} {cluster tenant : String}

/-- A row is deleting exactly where a delete of it was accepted. -/
structure RowsInv (w : Management) : Prop where
  rows_used : ∀ r ∈ w.rows, r.id ∈ w.used
  deletes_used : ∀ id, w.deletes id ≠ 0 → id ∈ w.used
  status : ∀ r ∈ w.rows, (r.status = .deleting ↔ w.deletes r.id ≠ 0)
  queued : ∀ j ∈ w.jobs, j.type = .create → j.state = .queued → w.deletes j.k8sId = 0
  deleteJobs : ∀ j ∈ w.jobs, j.type = .delete → w.deletes j.k8sId ≠ 0

def lookIsCurrent (i : K8sProc) (id : String) (w : Management) : Prop :=
  (w.rows.any fun r => r.id = id) → w.seenAt i id = w.deletes id

def writesCurrent (i : K8sProc) (c : K8sCall) (w : Management) : Prop :=
  match c with
  | .setStatus id _ _ => lookIsCurrent i id w
  | .saveSync id (some _) _ _ => lookIsCurrent i id w
  | _ => True

instance (i : K8sProc) (id : String) (w : Management) : Decidable (lookIsCurrent i id w) := by
  unfold lookIsCurrent
  infer_instance

instance (i : K8sProc) (c : K8sCall) (w : Management) : Decidable (writesCurrent i c w) := by
  unfold writesCurrent
  split <;> infer_instance

def MoreDeletes (w w' : Management) : Prop := ∀ id, w.deletes id ≤ w'.deletes id

structure KeepsLook (i : K8sProc) (w w' : Management) : Prop where
  deletes : MoreDeletes w w'
  seenAt : w'.seenAt i = w.seenAt i

structure OwnLook (i : K8sProc) (w w' : Management) : Prop where
  deletes : MoreDeletes w w'
  seenAt : ∀ j, j ≠ i → w'.seenAt j = w.seenAt j

def marking : Protocol K8sProc K8sCall Management K8sEvent where
  ok := writesCurrent
  okOutside _ _ := True
  inv := RowsInv
  rely := KeepsLook
  guar := OwnLook

/-! ### What one call does -/

structure Steady (w w' : Management) : Prop where
  deletes : MoreDeletes w w'
  seenAt : w'.seenAt = w.seenAt

theorem Steady.refl (w : Management) : Steady w w := ⟨fun _ => Nat.le_refl _, rfl⟩

theorem Steady.own (h : Steady w w') (i : K8sProc) : OwnLook i w w' :=
  ⟨h.deletes, fun j _ => congrFun h.seenAt j⟩

theorem Steady.keeps (h : Steady w w') (i : K8sProc) : KeepsLook i w w' :=
  ⟨h.deletes, congrFun h.seenAt i⟩

variable {f : K8sRow → K8sRow}

theorem RowsInv.update (h : RowsInv w) (hid : ∀ r, (f r).id = r.id)
    (hstatus : ∀ r ∈ w.rows, r.id = id → ((f r).status = .deleting ↔ w.deletes id ≠ 0)) :
    RowsInv (w.update id f) := by
  have hrow : ∀ r ∈ (w.update id f).rows, ∃ r' ∈ w.rows,
      r.id = r'.id ∧ (r.status = .deleting ↔ w.deletes r'.id ≠ 0) := by
    intro r hr
    obtain ⟨r', hr', rfl⟩ := List.mem_map.mp hr
    refine ⟨r', hr', ?_⟩
    split_ifs with hthis
    · refine ⟨hid r', ?_⟩
      rw [hthis]
      exact hstatus r' hr' hthis
    · exact ⟨rfl, h.status r' hr'⟩
  refine ⟨fun r hr => ?_, h.deletes_used, fun r hr => ?_, h.queued, h.deleteJobs⟩
  · obtain ⟨r', hr', hsame, -⟩ := hrow r hr
    rw [hsame]
    exact h.rows_used r' hr'
  · obtain ⟨r', hr', hsame, hiff⟩ := hrow r hr
    rw [hsame]
    exact hiff

theorem RowsInv.updateJobs {p : K8sJob → Bool} {f : K8sJob → K8sJob} (h : RowsInv w)
    (htype : ∀ j, (f j).type = j.type) (hrow : ∀ j, (f j).k8sId = j.k8sId)
    (hstate : ∀ j, (f j).state = .queued → j.state = .queued) : RowsInv (w.updateJobs p f) := by
  have hjob : ∀ j ∈ (w.updateJobs p f).jobs, ∃ j' ∈ w.jobs,
      j.type = j'.type ∧ j.k8sId = j'.k8sId ∧ (j.state = .queued → j'.state = .queued) := by
    intro j hj
    obtain ⟨j', hj', rfl⟩ := List.mem_map.mp hj
    refine ⟨j', hj', ?_⟩
    split_ifs
    · exact ⟨htype j', hrow j', hstate j'⟩
    · exact ⟨rfl, rfl, fun h => h⟩
  refine ⟨h.rows_used, h.deletes_used, h.status, fun j hj hcreate hqueued => ?_, fun j hj hdelete => ?_⟩
  · obtain ⟨j', hj', htype, hrow, hstate⟩ := hjob j hj
    show w.deletes j.k8sId = 0
    rw [hrow]
    exact h.queued j' hj' (htype.symm.trans hcreate) (hstate hqueued)
  · obtain ⟨j', hj', htype, hrow, -⟩ := hjob j hj
    show w.deletes j.k8sId ≠ 0
    rw [hrow]
    exact h.deleteJobs j' hj' (htype.symm.trans hdelete)

theorem RowsInv.congr (h : RowsInv w) (hrows : w'.rows = w.rows) (hjobs : w'.jobs = w.jobs)
    (hused : w'.used = w.used) (hdeletes : w'.deletes = w.deletes) : RowsInv w' := by
  refine ⟨?_, ?_, ?_, ?_, ?_⟩
  · rw [hrows, hused]
    exact h.rows_used
  · rw [hdeletes, hused]
    exact h.deletes_used
  · rw [hrows, hdeletes]
    exact h.status
  · rw [hjobs, hdeletes]
    exact h.queued
  · rw [hjobs, hdeletes]
    exact h.deleteJobs

theorem RowsInv.acceptDelete {drawn : String} (h : RowsInv w) :
    RowsInv (w.acceptDelete row drawn) := by
  have hcount (x : String) : (w.acceptDelete row drawn).deletes x ≠ 0 ↔ x = row.id ∨ w.deletes x ≠ 0 := by
    show Function.update w.deletes row.id (w.deletes row.id + 1) x ≠ 0 ↔ _
    by_cases hx : x = row.id
    · rw [hx, update_self]
      simp
    · rw [update_of_ne hx]
      simp [hx]
  -- Each job is one of before, a queued create of the row cancelled, or the new one.
  have hjob : ∀ j ∈ (w.acceptDelete row drawn).jobs, j = ⟨drawn, .delete, row.tenantId, row.clusterId, row.id, .queued, false⟩ ∨
      ∃ j' ∈ w.jobs, j.type = j'.type ∧ j.k8sId = j'.k8sId ∧
        (j.type = .create → j.state = .queued → j'.state = .queued ∧ j'.k8sId ≠ row.id) := by
    intro j hj
    rcases mem_append.mp hj with hj | hj
    · obtain ⟨j₁, hj₁, rfl⟩ := List.mem_map.mp hj
      obtain ⟨j', hj', rfl⟩ := List.mem_map.mp hj₁
      refine .inr ⟨j', hj', ?_⟩
      by_cases hmine : j'.type = .create ∧ j'.k8sId = row.id
      · by_cases hq : j'.state = .queued
        · simp [hmine.1, hmine.2, hq]
        · by_cases hr : j'.state = .running
          · simp [hmine.1, hmine.2, hr]
          · simp [hmine.1, hmine.2, hq, hr]
      · have h1 : ¬ (j'.type = .create ∧ j'.state = .queued ∧ j'.k8sId = row.id) :=
          fun hc => hmine ⟨hc.1, hc.2.2⟩
        have h2 : ¬ (j'.type = .create ∧ j'.state = .running ∧ j'.k8sId = row.id) :=
          fun hc => hmine ⟨hc.1, hc.2.2⟩
        simp only [h1, h2, decide_false, Bool.false_eq_true, if_false]
        exact ⟨trivial, trivial, fun hcreate hq => ⟨hq, fun hid => hmine ⟨hcreate, hid⟩⟩⟩
    · exact .inl (mem_singleton.mp hj)
  refine ⟨fun r hr => ?_, fun x hx => ?_, fun r hr => ?_, fun j hj hcreate hq => ?_, fun j hj hdel => ?_⟩
  · obtain ⟨r', hr', rfl⟩ := List.mem_map.mp hr
    refine mem_cons_of_mem _ ?_
    split_ifs
    · exact h.rows_used r' hr'
    · exact h.rows_used r' hr'
  · rcases (hcount x).mp hx with rfl | hx
    · exact mem_cons_self
    · exact mem_cons_of_mem _ (h.deletes_used x hx)
  · rw [hcount]
    obtain ⟨r', hr', rfl⟩ := List.mem_map.mp hr
    split_ifs with hthis
    · exact iff_of_true rfl (.inl hthis)
    · rw [h.status r' hr']
      simp [hthis]
  · rcases hjob j hj with rfl | ⟨j', hj', htype, hrow, hstate⟩
    · cases hcreate
    · obtain ⟨hq', hne⟩ := hstate hcreate hq
      by_contra hcounted
      rcases (hcount j.k8sId).mp hcounted with hid | hcounted
      · exact hne (hrow.symm.trans hid)
      · rw [hrow] at hcounted
        exact hcounted (h.queued j' hj' (htype.symm.trans hcreate) hq')
  · rw [hcount]
    rcases hjob j hj with rfl | ⟨j', hj', htype, hrow, -⟩
    · exact .inl rfl
    · rw [hrow]
      exact .inr (h.deleteJobs j' hj' (htype.symm.trans hdel))

theorem steady_acceptDelete {drawn : String} : Steady w (w.acceptDelete row drawn) := by
  refine ⟨fun x => ?_, rfl⟩
  show w.deletes x ≤ Function.update w.deletes row.id (w.deletes row.id + 1) x
  by_cases hx : x = row.id
  · rw [hx, update_self]
    omega
  · rw [update_of_ne hx]

/-- A call that neither looks at the rows nor writes a status by id alone. -/
def K8sCall.isPlain : K8sCall → Bool
  | claim _ | setStatus _ _ _ | setDeleting _ | selectSynced | saveSync _ (some _) _ _ => false
  | _ => true

def Kept (w w' : Management) : Prop := RowsInv w' ∧ Steady w w'

theorem Kept.refl (h : RowsInv w) : Kept w w := ⟨h, Steady.refl w⟩

theorem kept_same (h : RowsInv w) (hrows : w'.rows = w.rows) (hjobs : w'.jobs = w.jobs)
    (hused : w'.used = w.used) (hdeletes : w'.deletes = w.deletes) (hseen : w'.seenAt = w.seenAt) :
    Kept w w' := by
  refine ⟨h.congr hrows hjobs hused hdeletes, ⟨fun id => ?_, hseen⟩⟩
  rw [hdeletes]

theorem kept_update (h : RowsInv w) (hid : ∀ r, (f r).id = r.id)
    (hstatus : ∀ r ∈ w.rows, r.id = id → ((f r).status = .deleting ↔ w.deletes id ≠ 0)) :
    Kept w (w.update id f) :=
  ⟨h.update hid hstatus, ⟨fun _ => Nat.le_refl _, rfl⟩⟩

theorem kept_updateJobs {p : K8sJob → Bool} {f : K8sJob → K8sJob} (h : RowsInv w)
    (htype : ∀ j, (f j).type = j.type) (hrow : ∀ j, (f j).k8sId = j.k8sId)
    (hstate : ∀ j, (f j).state = .queued → j.state = .queued) : Kept w (w.updateJobs p f) :=
  ⟨h.updateJobs htype hrow hstate, ⟨fun _ => Nat.le_refl _, rfl⟩⟩

theorem kept_deleteRow (h : RowsInv w) : Kept w { w with rows := w.rows.filter (·.id ≠ id) } := by
  refine ⟨⟨fun r hr => ?_, h.deletes_used, fun r hr => ?_, h.queued, h.deleteJobs⟩,
    ⟨fun _ => Nat.le_refl _, rfl⟩⟩
  · exact h.rows_used r (mem_of_mem_filter hr)
  · exact h.status r (mem_of_mem_filter hr)

theorem kept_release (h : RowsInv w) : Kept w (w.rolledBack i tenant cluster) := by
  unfold Management.rolledBack
  split_ifs
  · exact kept_same h rfl rfl rfl rfl rfl
  · exact Kept.refl h

theorem kept_patch {body : PatchBody} (h : RowsInv w) :
    Kept w (w.update id (Management.patched body)) := by
  refine kept_update h (fun _ => rfl) fun r hr hid => ?_
  have hsame := h.status r hr
  rwa [hid] at hsame

theorem kept_setError {message : String} (h : RowsInv w) :
    Kept w (w.update id fun r =>
      if r.status = .deleting then r else { r with status := .error, statusMessage := message }) := by
  refine kept_update h (fun r => ?_) fun r hr hid => ?_
  · split_ifs <;> rfl
  · have hsame := h.status r hr
    rw [hid] at hsame
    split_ifs with hdel
    · exact hsame
    · exact iff_of_false (by simp) fun hne => hdel (hsame.mpr hne)

theorem kept_saveSync {nodes nodesReady : ℕ} (h : RowsInv w) :
    Kept w (w.update id fun r =>
      { r with
        status := ((none : Option (K8sStatus × String)).map (·.1)).getD r.status
        statusMessage := ((none : Option (K8sStatus × String)).map (·.2)).getD r.statusMessage
        nodes := nodes
        nodesReady := nodesReady }) := by
  refine kept_update h (fun _ => rfl) fun r hr hid => ?_
  have hsame := h.status r hr
  rwa [hid] at hsame

theorem answer_kept {c : K8sCall} {r : Except JobError c.Answer × Management} (hc : c.isPlain)
    (hinv : RowsInv w) (h : answer i c w o = some r) : Kept w r.2 := by
  have hsame : Kept w w := Kept.refl hinv
  cases c with
  | claim job => cases hc
  | setStatus id status message => cases hc
  | setDeleting id => cases hc
  | selectSynced => cases hc
  | saveSync id status nodes nodesReady =>
    cases status with
    | some status => cases hc
    | none => exact reply_some (A := Kept w) hsame (kept_saveSync hinv) h
  | succeed job =>
    refine reply_some (A := Kept w) hsame ?_ h
    exact kept_updateJobs hinv (fun _ => rfl) (fun _ => rfl) fun _ h => (nomatch h)
  | fail job =>
    refine reply_some (A := Kept w) hsame ?_ h
    refine kept_updateJobs hinv (fun _ => rfl) (fun _ => rfl) fun j hq => ?_
    dsimp only at hq
    split_ifs at hq
  | setError id message => exact reply_some (A := Kept w) hsame (kept_setError hinv) h
  | deleteRow id => exact reply_some (A := Kept w) hsame (kept_deleteRow hinv) h
  | patchTx id body =>
    unfold answer at h
    dsimp only at h
    split at h
    · obtain rfl := some.inj h
      exact hsame
    · split at h
      · obtain rfl := some.inj h
        exact hsame
      · exact reply_some (A := Kept w) hsame (kept_patch hinv) h
  | deleteTx row =>
    unfold answer at h
    dsimp only at h
    split_ifs at h
    · obtain rfl := some.inj h
      exact hsame
    · exact reply_some (A := Kept w) hsame ⟨hinv.acceptDelete, steady_acceptDelete⟩ h
  | lock tenant cluster =>
    unfold answer at h
    dsimp only at h
    split_ifs at h
    · obtain rfl := some.inj h
      exact hsame
    · split at h
      · cases h
      · obtain rfl := some.inj h
        exact kept_same hinv rfl rfl rfl rfl rfl
  | rollback tenant cluster =>
    obtain rfl := some.inj h
    exact kept_release hinv
  | applySecret tenant cluster fingerprint =>
    unfold answer at h
    dsimp only at h
    split_ifs at h
    · exact reply_some (A := Kept w) hsame (kept_same hinv rfl rfl rfl rfl rfl) h
    · obtain rfl := some.inj h
      exact hsame
  | selectLeft tenant =>
    refine reply_some (A := Kept w) hsame ?_ h
    dsimp only
    split_ifs
    · exact hsame
    · exact kept_same hinv rfl rfl rfl rfl rfl
  | late =>
    obtain rfl := some.inj h
    exact hsame
  | stopped =>
    obtain rfl := some.inj h
    exact hsame
  -- The other calls leave the rows and the jobs alone.
  | _ =>
    first
    | exact silent_some (A := Kept w) hsame h
    | exact reply_some (A := Kept w) hsame (kept_same hinv rfl rfl rfl rfl rfl) h

/-! ### What a program knows -/

/-- No delete of the row had been accepted when the program last looked. -/
def Clear (i : K8sProc) (id : String) (w : Management) : Prop := w.seenAt i id = 0

def Accepted (id : String) (w : Management) : Prop := w.deletes id ≠ 0

theorem Clear.kept (h : Clear i id w) (hw : KeepsLook i w w') : Clear i id w' := by
  unfold Clear
  rw [hw.seenAt]
  exact h

theorem Accepted.kept (h : Accepted id w) (hw : KeepsLook i w w') : Accepted id w' := by
  have hmore := hw.deletes id
  unfold Accepted at h ⊢
  omega

theorem compatible_marking : Team.Compatible management marking := by
  constructor
  · rintro i j w w' hij - - h
    exact ⟨h.deletes, h.seenAt j (Ne.symm hij)⟩
  · rintro x w w' hinv - hw'
    replace hinv : RowsInv w := hinv
    have hkept : Kept w w' := by
      cases x with
      | interrupt job =>
        obtain rfl := some.inj hw'
        exact kept_updateJobs hinv (fun _ => rfl) (fun _ => rfl) fun _ h => (nomatch h)
      | post row job =>
        replace hw' : (if row.id ∈ w.used ∨ w.jobs.any fun j => j.id = job then none
          else some (w.posted row job)) = some w' := hw'
        split_ifs at hw' with hnew
        obtain rfl := some.inj hw'
        have hfresh : row.id ∉ w.used := fun h => hnew (.inl h)
        have hnone : w.deletes row.id = 0 := by
          by_contra hcounted
          exact hfresh (hinv.deletes_used row.id hcounted)
        refine ⟨⟨fun r hr => ?_, fun x hx => ?_, fun r hr => ?_, fun j hj hcreate hq => ?_,
          fun j hj hdel => ?_⟩, ⟨fun _ => Nat.le_refl _, rfl⟩⟩
        · rcases mem_append.mp hr with hr | hr
          · exact mem_cons_of_mem _ (hinv.rows_used r hr)
          · rw [mem_singleton.mp hr]
            exact mem_cons_self
        · exact mem_cons_of_mem _ (hinv.deletes_used x hx)
        · rcases mem_append.mp hr with hr | hr
          · exact hinv.status r hr
          · rw [mem_singleton.mp hr]
            exact iff_of_false K8sStatus.noConfusion fun hne => hne hnone
        · rcases mem_append.mp hj with hj | hj
          · exact hinv.queued j hj hcreate hq
          · rw [mem_singleton.mp hj]
            exact hnone
        · rcases mem_append.mp hj with hj | hj
          · exact hinv.deleteJobs j hj hdel
          · rw [mem_singleton.mp hj] at hdel
            cases hdel
    exact ⟨hkept.1, fun j => hkept.2.keeps j⟩

section Programs

variable {J : Management → Prop} {l : Looked} {site : K8sSite}

theorem maintains_plain {c : K8sCall} (hJ : ∀ w w', KeepsLook i w w' → J w → J w')
    (hc : c.isPlain) : Maintains management marking i J (Handler.call c : Managing c.Answer) := by
  refine .call hJ fun w o r hw hinv _ hr => ?_
  have hkept : Kept w r.2 := answer_kept hc hinv hr
  exact ⟨hkept.1, hkept.2.own i, hJ w r.2 (hkept.2.keeps i) hw⟩

theorem isPlain_of_isIdle {c : K8sCall} (hc : c.isIdle) : c.isPlain := by
  cases c with
  | saveSync id status nodes nodesReady => cases hc
  | _ => first | rfl | cases hc

theorem maintains_idle (hJ : ∀ w w', KeepsLook i w w' → J w → J w') (c : K8sCall) (hc : c.isIdle) :
    Maintains management marking i J (Handler.call c : Managing c.Answer) :=
  maintains_plain hJ (isPlain_of_isIdle hc)

section Plain

variable (hJ : ∀ w w', KeepsLook i w w' → J w → J w')
include hJ

theorem maintains_locked {α : Type} {fn : Managing α}
    (hfn : Maintains management marking i J fn) :
    Maintains management marking i J (locked tenant cluster fn) := by
  refine (maintains_plain hJ rfl).bind fun _ => .tryCatch ?_ fun e => ?_
  · exact hfn.bind fun r => (maintains_plain hJ rfl).bind fun _ => .pure r
  · exact (maintains_plain hJ rfl).bind fun _ => .throw e

theorem maintains_ensureCredentials :
    Maintains management marking i J (ensureCredentials tenant cluster) := by
  refine maintains_locked hJ ((maintains_plain hJ rfl).bind fun row => ?_)
  refine Maintains.bind ?_ fun there => .when _ ?_
  · cases row with
    | none => exact .pure false
    | some old => exact maintains_plain hJ rfl
  · refine Maintains.bind ?_ fun _ => (maintains_plain hJ rfl).bind fun fingerprint => ?_
    · cases row with
      | none => exact .pure ()
      | some old => exact (maintains_plain hJ rfl).bind fun _ => maintains_plain hJ rfl
    · refine Maintains.bind ?_ fun _ => maintains_plain hJ rfl
      refine .tryCatch (maintains_plain hJ rfl) fun e => ?_
      exact (maintains_plain hJ rfl).bind fun _ => .throw e

theorem maintains_revokeUnlessUsed {except : String} :
    Maintains management marking i J (revokeUnlessUsed tenant cluster except) := by
  refine maintains_locked hJ ((maintains_plain hJ rfl).bind fun others => .when _ ?_)
  refine (maintains_plain hJ rfl).bind fun row => Maintains.bind ?_ fun _ => ?_
  · cases row with
    | none => exact .pure ()
    | some old => exact maintains_plain hJ rfl
  · exact (maintains_plain hJ rfl).bind fun _ => maintains_plain hJ rfl

theorem maintains_deleteOwned {project : String} :
    Maintains management marking i J (deleteOwned site row project cluster) := by
  have hidle := maintains_idle hJ
  refine (maintains_waitFor hidle (maintains_gone (maintains_plain hJ rfl)) _).bind fun _ => ?_
  refine (maintains_plain hJ rfl).bind fun _ => (maintains_plain hJ rfl).bind fun _ => ?_
  refine (maintains_waitFor hidle (maintains_gone (maintains_clusterThere hidle)) _).bind fun _ => ?_
  refine (maintains_plain hJ rfl).bind fun _ => (maintains_plain hJ rfl).bind fun _ => ?_
  refine Maintains.bind (.when _ (maintains_removePort hidle)) fun _ => (maintains_plain hJ rfl).bind fun _ => ?_
  refine (maintains_revokeUnlessUsed hJ).bind fun _ => (maintains_plain hJ rfl).bind fun _ => ?_
  exact (maintains_plain hJ rfl).bind fun left => .when _ (maintains_plain hJ rfl)

theorem safe_loadRow {Q : K8sRow × String × String → Looked → Management → Prop}
    (hQ : ∀ r l w, r.1.id = id → J w → Q r l w) (hw : J w) :
    safe management marking i Q (fun _ _ w => J w) (load id) l w := by
  refine safe_load (I := fun row w => row.id = id ∧ J w) (fun row c hc => ?_) ?_ (fun _ _ h => h.2)
    fun r l w h => hQ r l w h.1 h.2
  · exact maintains_idle (fun w w' hk h => ⟨h.1, hJ w w' hk h.2⟩) c hc
  · refine safe_call (c := K8sCall.selectRow id) hJ (fun w o r hw hinv _ hr => ?_) hw
    have hfound : ∀ x ∈ w.row id, x.id = id := by
      intro x hx
      have hthis := List.find?_some (show w.rows.find? (·.id = id) = some x from hx)
      simpa using hthis
    have hsame : OwnLook i w w := (Steady.refl w).own i
    replace hr : some (if o.fails then (.error .failed, w) else (.ok (w.row id), w)) = some r := hr
    obtain rfl := some.inj hr
    split_ifs
    · exact ⟨hsame, hinv, hw⟩
    · exact ⟨hsame, hinv, hw, fun x hx => ⟨hfound x hx, hw⟩⟩

end Plain

theorem kept_write (hinv : RowsInv w) (hid : ∀ r, (f r).id = r.id)
    (hstatus : ∀ r, (f r).status ≠ .deleting) (hclear : Clear i id w)
    (hok : lookIsCurrent i id w) : Kept w (w.update id f) := by
  refine kept_update hinv hid fun r hr hrid => iff_of_false (hstatus r) fun hne => hne ?_
  have hthere : (w.rows.any fun r => r.id = id) = true :=
    any_eq_true.mpr ⟨r, hr, decide_eq_true hrid⟩
  rw [← hok hthere]
  exact hclear

theorem maintains_setStatus {status : K8sStatus} {message : Option String}
    (hJ : ∀ w w', KeepsLook i w w' → J w → J w') (hclear : ∀ w, J w → Clear i id w)
    (hstatus : status ≠ .deleting) :
    Maintains management marking i J (Managing.setStatus id status message) := by
  refine .call (c := K8sCall.setStatus id status message) hJ fun w o r hw hinv hok hr => ?_
  have hdone : Kept w (w.update id fun r =>
      { r with status := status, statusMessage := message.getD r.statusMessage }) :=
    kept_write hinv (fun _ => rfl) (fun _ => hstatus) (hclear w hw) hok
  have hkept : Kept w r.2 := reply_some (A := Kept w) (Kept.refl hinv) hdone hr
  exact ⟨hkept.1, hkept.2.own i, hJ w r.2 (hkept.2.keeps i) hw⟩

theorem maintains_createCluster {project : String} (hid : row.id = id) :
    Maintains management marking i (Clear i id) (createCluster site row project cluster) := by
  have hJ : ∀ w w', KeepsLook i w w' → Clear i id w → Clear i id w' := fun _ _ hw h => h.kept hw
  have hset (status : K8sStatus) (message : Option String) (hstatus : status ≠ .deleting) :
      Maintains management marking i (Clear i id) (Managing.setStatus row.id status message) := by
    rw [hid]
    exact maintains_setStatus hJ (fun _ h => h) hstatus
  refine (maintains_waitForPlacement (maintains_idle hJ)).bind fun _ => (maintains_plain hJ rfl).bind fun _ => ?_
  refine (maintains_plain hJ rfl).bind fun _ => (maintains_plain hJ rfl).bind fun _ => ?_
  refine (maintains_plain hJ rfl).bind fun _ => (maintains_ensureCredentials hJ).bind fun _ => ?_
  refine (maintains_plain hJ rfl).bind fun _ => (maintains_plain hJ rfl).bind fun _ => ?_
  refine (hset .provisioning none K8sStatus.noConfusion).bind fun _ => ?_
  refine Maintains.bind (.when _ (maintains_forwardTo (maintains_idle hJ))) fun _ => ?_
  refine (maintains_plain hJ rfl).bind fun _ => ?_
  refine (maintains_waitFor (maintains_idle hJ) (maintains_controlPlaneNow (maintains_idle hJ)) _).bind fun _ => ?_
  exact (hset .ready (some "") K8sStatus.noConfusion).bind fun _ => .when _ (maintains_plain hJ rfl)

theorem safe_k8sCreateHandler (hw : Clear i id w) :
    safe management marking i (fun _ _ _ => True) (fun _ _ _ => True)
      (k8sCreateHandler site id) l w := by
  have hJ : ∀ w w', KeepsLook i w w' → Clear i id w → Clear i id w' := fun _ _ hw h => h.kept hw
  unfold k8sCreateHandler
  rw [safe_bind]
  have hload : safe management marking i
      (fun r _ w => r.1.id = id ∧ Clear i id w) (fun _ _ w => Clear i id w) (load id) l w :=
    safe_loadRow hJ (fun _ _ _ hid hw => ⟨hid, hw⟩) hw
  refine safe_mono (fun r l w hr => ?_) (fun _ _ _ _ => trivial) hload
  obtain ⟨row, project, cluster⟩ := r
  obtain ⟨hid, hw⟩ := hr
  dsimp only at hid ⊢
  rw [safe_tryCatch]
  refine (maintains_createCluster hid).safe hw (fun _ _ _ _ => trivial) fun e l w hw => ?_
  rw [safe_bind]
  exact (maintains_plain hJ (c := .setError row.id _) rfl).safe hw (fun _ _ _ _ => trivial)
    (fun _ _ _ _ => trivial)

theorem safe_k8sDeleteHandler (hw : Accepted id w) :
    safe management marking i (fun _ _ _ => True) (fun _ _ _ => True)
      (k8sDeleteHandler site id) l w := by
  have hJ : ∀ w w', KeepsLook i w w' → Accepted id w → Accepted id w' := fun _ _ hw h => h.kept hw
  unfold k8sDeleteHandler
  rw [safe_bind]
  have hload : safe management marking i
      (fun r _ w => r.1.id = id ∧ Accepted id w) (fun _ _ w => Accepted id w) (load id) l w :=
    safe_loadRow hJ (fun _ _ _ hid hw => ⟨hid, hw⟩) hw
  refine safe_mono (fun r l w hr => ?_) (fun _ _ _ _ => trivial) hload
  obtain ⟨row, project, cluster⟩ := r
  obtain ⟨hid, hw⟩ := hr
  dsimp only at hid ⊢
  rw [safe_bind]
  -- The row was marked when the delete was accepted.
  have hmark : Maintains management marking i (Accepted id) (Managing.setDeleting row.id) := by
    refine .call (c := K8sCall.setDeleting row.id) hJ fun w o r hw hinv _ hr => ?_
    have hdone : Kept w (w.update row.id fun r => { r with status := .deleting }) := by
      refine kept_update hinv (fun _ => rfl) fun r _ _ => iff_of_true rfl ?_
      rw [hid]
      exact hw
    have hkept : Kept w r.2 := reply_some (A := Kept w) (Kept.refl hinv) hdone hr
    exact ⟨hkept.1, hkept.2.own i, hJ w r.2 (hkept.2.keeps i) hw⟩
  refine hmark.safe hw (fun _ l w hw => ?_) (fun _ _ _ _ => trivial)
  exact (maintains_deleteOwned hJ).safe hw (fun _ _ _ _ => trivial) (fun _ _ _ _ => trivial)

def Taken (i : K8sProc) (job : K8sJobType × String) (w : Management) : Prop :=
  match job.1 with
  | .create => Clear i job.2 w
  | .delete => Accepted job.2 w

theorem Kept.look (h : Kept w w') (i : K8sProc) : OwnLook i w (w'.look i) := by
  refine ⟨h.2.deletes, fun j hj => ?_⟩
  show Function.update w'.seenAt i w'.deletes j = w.seenAt j
  rw [update_of_ne hj, h.2.seenAt]

theorem rowsInv_look (h : RowsInv w) : RowsInv (w.look i) := h.congr rfl rfl rfl rfl

theorem safe_claim {job : String} :
    safe management marking i (fun r _ w => Taken i r w) (fun _ _ _ => True)
      (Managing.claim job) l w := by
  refine safe_call (c := K8sCall.claim job) (J := fun _ => True) (fun _ _ _ _ => trivial)
    (fun w o r _ hinv _ hr => ?_) trivial
  replace hinv : RowsInv w := hinv
  obtain ⟨j, hj, rfl⟩ := map_eq_some_iff.mp hr
  have hmem : j ∈ w.jobs := mem_of_find?_eq_some hj
  have hfound := List.find?_some hj
  have hqueued : j.state = .queued := (of_decide_eq_true hfound).2
  have htaken : Kept w (w.updateJobs (·.id = job) fun j => { j with state := .running }) :=
    kept_updateJobs hinv (fun _ => rfl) (fun _ => rfl) fun _ h => (nomatch h)
  refine ⟨htaken.look i, rowsInv_look htaken.1, ?_⟩
  show Taken i (j.type, j.k8sId) _
  unfold Taken
  cases htype : j.type with
  | create =>
    show Function.update w.seenAt i w.deletes i j.k8sId = 0
    rw [update_self]
    exact hinv.queued j hmem htype hqueued
  | delete => exact hinv.deleteJobs j hmem htype

theorem safe_runJob {job : String} :
    safe management marking i (fun _ _ _ => True) (fun _ _ _ => True) (runJob site job) l w := by
  have hany {c : K8sCall} (hc : c.isPlain) :
      Maintains management marking i (fun _ => True) (Handler.call c : Managing c.Answer) :=
    maintains_plain (fun _ _ _ _ => trivial) hc
  have hfail (e : JobError) (l : Looked) (w : Management) (_ : True) :
      safe management marking i (fun _ _ _ => True) (fun _ _ _ => True) (Managing.fail job) l w :=
    (hany (c := .fail job) rfl).safe trivial (fun _ _ _ h => h) (fun _ _ _ h => h)
  unfold runJob
  refine safe_seq safe_claim fun r l w hw => ?_
  rw [safe_tryCatch, safe_bind]
  have hran : safe management marking i (fun _ _ _ => True) (fun _ _ _ => True)
      (handlerOf site r) l w := by
    unfold handlerOf
    unfold Taken at hw
    cases hr : r.1 with
    | create =>
      rw [hr] at hw
      exact safe_k8sCreateHandler hw
    | delete =>
      rw [hr] at hw
      exact safe_k8sDeleteHandler hw
  refine safe_mono (fun _ l w _ => ?_) (fun e l w h => hfail e l w h) hran
  exact (hany (c := .succeed job) rfl).safe trivial (fun _ _ _ h => h) (fun e l w h => hfail e l w h)

/-! ### The sync worker and the requests -/

def ClearAll (i : K8sProc) (rows : List K8sRow) (w : Management) : Prop :=
  ∀ r ∈ rows, owned.contains r.status → Clear i r.id w

theorem maintains_saveSync {cluster : Option ControlPlane} {nodes nodesReady : ℕ}
    (hJ : ∀ w w', KeepsLook i w w' → J w → J w')
    (hclear : ∀ w, J w → owned.contains row.status → Clear i row.id w) :
    Maintains management marking i J (Managing.saveSync row.id
      (if owned.contains row.status then some (assess row cluster nodesReady) else none) nodes
      nodesReady) := by
  split_ifs with howned
  · refine .call (c := K8sCall.saveSync row.id (some (assess row cluster nodesReady)) nodes nodesReady) hJ
      fun w o r hw hinv hok hr => ?_
    have hdone : Kept w (w.update row.id fun r =>
        { r with
          status := (assess row cluster nodesReady).1
          statusMessage := (assess row cluster nodesReady).2
          nodes := nodes
          nodesReady := nodesReady }) :=
      kept_write hinv (fun _ => rfl) (fun _ => assess_ne_deleting row cluster nodesReady)
        (hclear w hw howned) hok
    have hkept : Kept w r.2 := reply_some (A := Kept w) (Kept.refl hinv) hdone hr
    exact ⟨hkept.1, hkept.2.own i, hJ w r.2 (hkept.2.keeps i) hw⟩
  · exact maintains_plain (c := K8sCall.saveSync row.id none nodes nodesReady) hJ rfl

theorem maintains_syncRow (hJ : ∀ w w', KeepsLook i w w' → J w → J w')
    (hclear : ∀ w, J w → owned.contains row.status → Clear i row.id w) :
    Maintains management marking i J (syncRow row) := by
  refine (maintains_plain hJ rfl).bind fun cluster => (maintains_plain hJ rfl).bind fun machines => ?_
  exact (maintains_saveSync hJ hclear).bind fun _ => .when _ (maintains_retarget (maintains_idle hJ))

theorem maintains_syncRows {all rows : List K8sRow} (hrows : ∀ r ∈ rows, r ∈ all) :
    Maintains management marking i (ClearAll i all) (syncRows rows) := by
  have hJ : ∀ w w', KeepsLook i w w' → ClearAll i all w → ClearAll i all w' :=
    fun _ _ hw h r hr howned => (h r hr howned).kept hw
  induction rows with
  | nil => exact .pure ()
  | cons row rest ih =>
    refine (maintains_plain hJ rfl).bind fun stop => ?_
    split_ifs
    · exact .pure ()
    · refine Maintains.bind (.tryCatch ?_ fun _ => .pure ()) fun _ => ?_
      · exact maintains_syncRow hJ fun w hw howned => hw row (hrows row mem_cons_self) howned
      · exact ih fun r hr => hrows r (mem_cons_of_mem _ hr)

theorem safe_tick : safe management marking i (fun _ _ _ => True) (fun _ _ _ => True) tick l w := by
  have hlease : Maintains management marking i (fun _ => True) Managing.acquireLease :=
    maintains_plain (fun _ _ _ _ => trivial) rfl
  unfold tick
  rw [safe_bind]
  refine hlease.safe trivial (fun held l w _ => ?_) (fun _ _ _ h => h)
  rw [safe_when]
  split_ifs
  · rw [safe_bind]
    refine safe_call (c := K8sCall.selectSynced) (J := fun _ => True) (fun _ _ _ _ => trivial)
      (fun w o r _ hinv _ hr => ?_) trivial
    replace hinv : RowsInv w := hinv
    -- What was read was not `deleting`, so no delete of it had been accepted.
    have hread : ClearAll i (w.rows.filter fun r => (.provisioning :: owned).contains r.status)
        (w.look i) := by
      intro x hx howned
      have hne : x.status ≠ .deleting := by
        intro hdel
        rw [hdel] at howned
        cases howned
      show Function.update w.seenAt i w.deletes i x.id = 0
      rw [update_self]
      by_contra hcounted
      exact hne ((hinv.status x (mem_of_mem_filter hx)).mpr hcounted)
    have hrest := (maintains_syncRows (i := i) (fun r hr => hr)).safe (l := l) hread
      (fun _ _ _ _ => trivial) (fun _ _ _ _ => trivial)
      (Q := fun _ _ _ => True) (E := fun _ _ _ => True)
    have hfail : OwnLook i w w := ⟨fun _ => Nat.le_refl _, fun _ _ => rfl⟩
    obtain rfl := some.inj hr
    split_ifs
    · exact ⟨(Kept.refl hinv).look i, rowsInv_look hinv, trivial⟩
    · exact ⟨hfail, hinv, trivial⟩
    · exact ⟨(Kept.refl hinv).look i, rowsInv_look hinv, hrest⟩

theorem safe_program {requests : K8sRequests} :
    safe management marking i (fun _ _ _ => True) (fun _ _ _ => True)
      (program site requests i) l w := by
  have hany {c : K8sCall} (hc : c.isPlain) :
      Maintains management marking i (fun _ => True) (Handler.call c : Managing c.Answer) :=
    maintains_plain (fun _ _ _ _ => trivial) hc
  have hdone {m : Managing Unit} (hm : Maintains management marking i (fun _ => True) m) :
      safe management marking i (fun _ _ _ => True) (fun _ _ _ => True) m l w :=
    hm.safe trivial (fun _ _ _ h => h) (fun _ _ _ h => h)
  unfold program
  split
  · exact safe_runJob
  · exact safe_tick
  · rename_i n
    refine hdone ((hany rfl).bind fun row => ?_)
    cases row with
    | none => exact .throw _
    | some row => exact (hany rfl).bind fun _ => (hany rfl).bind fun _ => .pure ()
  · rename_i n
    refine hdone ((hany rfl).bind fun row => ?_)
    cases row with
    | none => exact .throw _
    | some row => exact (hany rfl).bind fun _ => hany rfl

end Programs

/-! ### Every run -/

theorem rowsInv_empty : RowsInv Management.empty :=
  ⟨fun _ hr => (nomatch hr), fun _ h => absurd rfl h, fun _ hr => (nomatch hr),
    fun _ hj => (nomatch hj), fun _ hj => (nomatch hj)⟩

/-- Once a row is `deleting` it stays so until it is gone, if no delete of it is accepted between a
create job's start, or a tick's look at the rows, and their writes of its status. -/
theorem deleting_until_gone {site : K8sSite} {requests : K8sRequests}
    {s t : Procs K8sProc K8sCall K8sCall.Answer JobError Management (Except JobError Unit × Looked)}
    (hs : Run management.step (okStep writesCurrent fun _ _ => True) (allPrograms site requests) s)
    (ht : Run management.step (okStep writesCurrent fun _ _ => True) s t) {id : String}
    (hdel : ∃ r ∈ s.world.rows, r.id = id ∧ r.status = .deleting) :
    ∀ r ∈ t.world.rows, r.id = id → r.status = .deleting := by
  have hsound : Team.Sound management marking (fun _ _ _ => True) s := by
    have hstart : Team.Sound management marking (fun _ _ _ => True) (allPrograms site requests) := by
      refine ⟨rowsInv_empty, fun i => ?_⟩
      have hsafe : safe management marking i (fun _ _ _ => True) (fun _ _ _ => True)
          (program site requests i) ⟨none, ""⟩ Management.empty := safe_program
      exact Prog.safe_mono (fun _ _ _ => trivial) hsafe
    exact Team.run_safe (P := marking) compatible_marking (fun _ _ _ _ _ _ => trivial) hstart hs
  have haccepted : Accepted id s.world := by
    obtain ⟨r, hr, rfl, hstatus⟩ := hdel
    exact (hsound.inv.status r hr).mp hstatus
  -- Deletes count up, and a row whose delete was accepted is `deleting`.
  have hkept : Team.Sound management marking (fun _ _ _ => True) t ∧ Accepted id t.world := by
    refine ht.invariant (I := fun t => Team.Sound management marking (fun _ _ _ => True) t ∧
      Accepted id t.world) ⟨hsound, haccepted⟩ ?_
    rintro t a u ⟨hsound, haccepted⟩ hok hstep
    cases a with
    | call i o =>
      have hnext := Team.Sound.call (P := marking) hsound compatible_marking (fun _ _ _ _ _ _ => trivial)
        hok hstep
      have hmore : t.world.deletes id ≤ u.world.deletes id := hnext.2.deletes id
      refine ⟨hnext.1, ?_⟩
      unfold Accepted at haccepted ⊢
      omega
    | outside x =>
      refine ⟨hsound.outside (P := marking) compatible_marking (fun _ _ _ _ _ _ => trivial) trivial
        hstep, ?_⟩
      obtain ⟨v, hv, rfl⟩ := map_eq_some_iff.mp hstep
      have hrely := (compatible_marking.outside x t.world v hsound.inv trivial hv).2 (.tick 0)
      exact haccepted.kept hrely
  intro r hr hid
  refine (hkept.1.inv.status r hr).mpr ?_
  rw [hid]
  exact hkept.2

/-! ### A cluster that is deleted while it is created -/

def smallCluster : K8sRow :=
  { id := "k1", tenantId := "acme", clusterId := "lab", name := "demo", version := "v1.34.0"
    controlPlanes := 1, workers := 0, spec := ⟨"c2-m2", "c2-m2", .address "192.0.2.7", none⟩
    endpointHost := "192.0.2.7", endpointPort := 6443, lbMember := "", status := .creating
    statusMessage := "", nodes := 0, nodesReady := 0 }

def oneLook : K8sSite := ⟨1⟩

def deleteIt : K8sRequests := ⟨fun _ => ("k1", ⟨none, none, none⟩), fun _ => "k1"⟩

/-- The request is made of three calls; the delete job it enqueues is `j2`. -/
def deleteCalls : List (ProcAction K8sProc K8sOutcome K8sEvent) :=
  [.call (.delete 0) {}, .call (.delete 0) {}, .call (.delete 0) { drawn := "j2" }]

def rowView (s : Procs K8sProc K8sCall K8sCall.Answer JobError Management
    (Except JobError Unit × Looked)) : List (String × K8sStatus) :=
  s.world.rows.map fun r => (r.id, r.status)

theorem exists_row_of_view {s : Procs K8sProc K8sCall K8sCall.Answer JobError Management
    (Except JobError Unit × Looked)} {id : String} {status : K8sStatus}
    (h : rowView s = [(id, status)]) : ∃ r ∈ s.world.rows, r.id = id ∧ r.status = status := by
  have hmem : (id, status) ∈ rowView s := by
    rw [h]
    exact mem_cons_self
  obtain ⟨r, hr, hview⟩ := List.mem_map.mp hmem
  exact ⟨r, hr, congrArg Prod.fst hview, congrArg Prod.snd hview⟩

/-- A cluster that was created is deleted: its row is `deleting` while the delete job runs. -/
theorem ready_cluster_stays_deleting :
    ∃ s t, Run management.step (okStep writesCurrent fun _ _ => True) (allPrograms oneLook deleteIt) s ∧
      Run management.step (okStep writesCurrent fun _ _ => True) s t ∧
      rowView s = [("k1", .deleting)] ∧ rowView t = [("k1", .deleting)] ∧
      ∀ r ∈ t.world.rows, r.id = "k1" → r.status = .deleting := by
  have hexec : ((Run.exec management.step (okStep writesCurrent fun _ _ => True)
      (allPrograms oneLook deleteIt) ([.outside (.post smallCluster "j1")] ++
        List.replicate 24 (.call (.job "j1") { cluster := some ⟨true, ""⟩ }) ++ deleteCalls)).map fun s =>
        (rowView s, (Run.exec management.step (okStep writesCurrent fun _ _ => True) s
          (List.replicate 22 (.call (.job "j2") {}))).map rowView)) =
      some ([("k1", .deleting)], some [("k1", .deleting)]) := by
    decide
  obtain ⟨s, hs, hview⟩ := map_eq_some_iff.mp hexec
  obtain ⟨hrow, hthen⟩ := Prod.mk.inj hview
  obtain ⟨t, ht, hend⟩ := map_eq_some_iff.mp hthen
  have hrun := Run.of_exec .refl hs
  have hrun' := Run.of_exec .refl ht
  exact ⟨s, t, hrun, hrun', hrow, hend, deleting_until_gone hrun hrun' (exists_row_of_view hrow)⟩

/-- The delete is accepted after the create has sent its Cluster: the create then marks the row
`provisioning`. -/
theorem deleting_becomes_provisioning :
    ∃ s t, Run management.step (okStep (fun _ _ _ => True) fun _ _ => True)
        (allPrograms oneLook deleteIt) s ∧
      Run management.step (okStep (fun _ _ _ => True) fun _ _ => True) s t ∧
      (∃ r ∈ s.world.rows, r.id = "k1" ∧ r.status = .deleting) ∧
      ¬ ∀ r ∈ t.world.rows, r.id = "k1" → r.status = .deleting := by
  have hexec : ((Run.exec management.step (okStep (fun _ _ _ => True) fun _ _ => True)
      (allPrograms oneLook deleteIt) ([.outside (.post smallCluster "j1")] ++
        List.replicate 18 (.call (.job "j1") {}) ++ deleteCalls)).map fun s =>
        (rowView s, (Run.exec management.step (okStep (fun _ _ _ => True) fun _ _ => True) s
          [.call (.job "j1") {}]).map rowView)) =
      some ([("k1", .deleting)], some [("k1", .provisioning)]) := by
    decide
  obtain ⟨s, hs, hview⟩ := map_eq_some_iff.mp hexec
  obtain ⟨hrow, hthen⟩ := Prod.mk.inj hview
  obtain ⟨t, ht, hend⟩ := map_eq_some_iff.mp hthen
  refine ⟨s, t, Run.of_exec .refl hs, Run.of_exec .refl ht, exists_row_of_view hrow, fun hall => ?_⟩
  obtain ⟨r, hr, hid, hstatus⟩ := exists_row_of_view hend
  have hdel := hall r hr hid
  rw [hstatus] at hdel
  cases hdel

end IncusCloud.Kubernetes
