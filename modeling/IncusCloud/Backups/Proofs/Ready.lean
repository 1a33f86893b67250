import IncusCloud.Backups.Backup

/-!
# A backup that says ready

However the calls of a run fail, its row says ready without its object in the target exactly when
the row was marked ready, the object was deleted after that, and the row was not marked failed: the
object goes in the `catch`, and whether the row is then corrected is one more call of the database.

`Consistent` is what every call keeps: the row's state and the object are what the history says.
-/

namespace IncusCloud.Backups

open Lib Handler List
open Mobility (JobError)

variable {site : BackupSite} {id : String} {target : TargetRow} {v : Vault}
  {v' : Vault} {c : BackupCall}

def Stored (site : BackupSite) (id : String) (target : TargetRow) (v : Vault) : Prop :=
  (target.id, site.keyOf id target) ∈ v.objects

instance : Decidable (Stored site id target v) := by unfold Stored; infer_instance

def ReadyIsThere (v : Vault) (id : String) : Prop :=
  ∀ r ∈ v.rows, r.id = id → r.state = .ready → (r.targetId, r.objectKey) ∈ v.objects

/-- The row was marked ready, then the object was deleted, and the row was not marked failed. -/
def Lost (h : RunHistory) : Prop := h.marked ∧ h.gone ∧ h.unmarked = false

def NoRow (v : Vault) (id : String) : Prop := ∀ r ∈ v.rows, r.id ≠ id

/-- The run's row is the newest one, in state `state`. -/
def HasRow (site : BackupSite) (id : String) (target : TargetRow) (v : Vault)
    (state : BackupState) : Prop :=
  ∃ pre own, v.rows = pre ++ [own] ∧ own.id = id ∧ own.targetId = target.id ∧
    own.objectKey = site.keyOf id target ∧ own.state = state ∧ ∀ r ∈ pre, r.id ≠ id

/-- Nothing of the run is there yet. -/
structure Untouched (v : Vault) (id : String) : Prop where
  noRow : NoRow v id
  marked : (v.history id).marked = false
  gone : (v.history id).gone = false
  unmarked : (v.history id).unmarked = false

/-- The row is there, and nothing has been said of it since. -/
structure Making (site : BackupSite) (id : String) (target : TargetRow) (v : Vault) : Prop where
  row : HasRow site id target v .creating
  marked : (v.history id).marked = false
  gone : (v.history id).gone = false
  unmarked : (v.history id).unmarked = false

/-- The row is as the history of the run tells. -/
structure Consistent (site : BackupSite) (id : String) (target : TargetRow) (v : Vault) : Prop where
  row : (NoRow v id ∧ (v.history id).marked = false) ∨
    ∃ state, HasRow site id target v state ∧
      (state = .ready ↔ (v.history id).marked = true ∧ (v.history id).unmarked = false)
  stored : (v.history id).marked = true → (Stored site id target v ↔ (v.history id).gone = false)
  gone : (v.history id).marked = false → (v.history id).gone = false

theorem Untouched.consistent (h : Untouched v id) : Consistent site id target v := by
  refine ⟨.inl ⟨h.noRow, h.marked⟩, fun hm => ?_, fun _ => h.gone⟩
  rw [h.marked] at hm
  cases hm

theorem Making.consistent (h : Making site id target v) : Consistent site id target v := by
  refine ⟨.inr ⟨.creating, h.row, ?_⟩, fun hm => ?_, fun _ => h.gone⟩
  · simp [h.marked]
  · rw [h.marked] at hm
    cases hm

theorem Consistent.readyIsThere_iff (h : Consistent site id target v) :
    ReadyIsThere v id ↔ ¬ Lost (v.history id) := by
  rcases h.row with ⟨hnone, hmarked⟩ | ⟨state, ⟨pre, own, hrows, hid, htarget, hkey, hstate, hpre⟩, hiff⟩
  · -- Without a row there is nothing to say, and nothing was marked.
    refine iff_of_true (fun r hr hrid => absurd hrid (hnone r hr)) fun hlost => ?_
    rw [Lost, hmarked] at hlost
    cases hlost.1
  · have hown : ReadyIsThere v id ↔ (state = .ready → Stored site id target v) := by
      constructor
      · intro hready hs
        have hmem : own ∈ v.rows := by
          rw [hrows]
          exact mem_append_right _ mem_cons_self
        have hthere := hready own hmem hid (hstate.trans hs)
        rwa [htarget, hkey] at hthere
      · intro hready r hr hrid hrstate
        rw [hrows] at hr
        rcases mem_append.mp hr with hr | hr
        · exact absurd hrid (hpre r hr)
        · obtain rfl := mem_singleton.mp hr
          rw [htarget, hkey]
          exact hready (hstate.symm.trans hrstate)
    rw [hown, hiff, Lost]
    have hstored := h.stored
    cases hm : (v.history id).marked with
    | false => simp
    | true =>
      rw [hstored hm]
      cases (v.history id).unmarked <;> cases (v.history id).gone <;> simp

/-! ### What one call does -/

theorem HasRow.of_rows {state : BackupState} (h : HasRow site id target v state)
    (hrows : v'.rows = v.rows) : HasRow site id target v' state := by
  unfold HasRow
  rw [hrows]
  exact h

variable {o : BackupOutcome} {A : Vault → Prop} {α : Type}

theorem reply_kept {done : α × Vault} (hv : A v) (hdone : A done.2) : A (v.reply o done).2 := by
  unfold Vault.reply
  split_ifs
  · exact hdone
  · exact hv
  · exact hdone

theorem silent_kept {a : α} (hv : A v) : A (v.silent o a).2 := by
  unfold Vault.silent
  split_ifs
  · exact hv
  · exact hv

structure Quiet (id : String) (v v' : Vault) : Prop where
  rows : v'.rows = v.rows
  marked : (v'.history id).marked = (v.history id).marked
  gone : (v'.history id).gone = (v.history id).gone
  unmarked : (v'.history id).unmarked = (v.history id).unmarked

theorem Quiet.refl (id : String) (v : Vault) : Quiet id v v := ⟨rfl, rfl, rfl, rfl⟩

theorem Untouched.quiet (h : Untouched v id) (hq : Quiet id v v') : Untouched v' id := by
  refine ⟨?_, hq.marked.trans h.marked, hq.gone.trans h.gone, hq.unmarked.trans h.unmarked⟩
  unfold NoRow
  rw [hq.rows]
  exact h.noRow

theorem Making.quiet (h : Making site id target v) (hq : Quiet id v v') :
    Making site id target v' :=
  ⟨h.row.of_rows hq.rows, hq.marked.trans h.marked, hq.gone.trans h.gone,
    hq.unmarked.trans h.unmarked⟩

theorem quiet_drop {t key : String} {own : Bool} (h : (v.history id).marked = false) :
    Quiet id v (v.drop t key id own) := by
  refine ⟨rfl, ?_, ?_, ?_⟩
  all_goals simp [Vault.drop, Vault.note, h]

theorem quiet_landed {t key : String} : Quiet id v (v.landed id t key o) := by
  unfold Vault.landed
  split_ifs
  · exact ⟨rfl, rfl, rfl, rfl⟩
  · exact Quiet.refl id v

theorem quiet_countedAt {n : ℕ} : Quiet id v (v.note id fun h => { h with countedAt := n }) := by
  refine ⟨rfl, ?_, ?_, ?_⟩
  all_goals simp [Vault.note]

def BackupCall.isQuiet : BackupCall → Bool
  | insertRow _ | markReady _ _ | markFailed _ | deleteRow _ => false
  | _ => true

theorem answer_quiet (hc : c.isQuiet)
    (hm : (v.history id).marked = false) : Quiet id v (answer site id c v o).2 := by
  have hsame := Quiet.refl id v
  cases c with
  | countBackups t => exact reply_kept (A := Quiet id v) hsame quiet_countedAt
  | makeBackup direct name =>
    refine reply_kept (A := Quiet id v) hsame ?_
    split_ifs
    · exact ⟨rfl, rfl, rfl, rfl⟩
    · exact hsame
  | stat t key => exact silent_kept (A := Quiet id v) quiet_landed
  | put t key => exact reply_kept (A := Quiet id v) hsame ⟨rfl, rfl, rfl, rfl⟩
  | deleteObject t key => exact reply_kept (A := Quiet id v) hsame (quiet_drop hm)
  | aborted => exact hsame
  | insertRow row => cases hc
  | markReady size transport => cases hc
  | markFailed error => cases hc
  | deleteRow r => cases hc
  | _ => exact silent_kept (A := Quiet id v) hsame

theorem Making.answer (h : Making site id target v) (hc : c.isQuiet)
    (o : BackupOutcome) : Making site id target (answer site id c v o).2 :=
  h.quiet (answer_quiet hc h.marked)

theorem own_iff (htarget : site.target (site.run id).payload.targetId = some target)
    (t key : String) : ((site.target (site.run id).payload.targetId).any fun x =>
      decide (x.id = t ∧ site.keyOf id x = key)) =
      decide ((target.id, site.keyOf id target) = (t, key)) := by
  rw [htarget]
  simp [Prod.ext_iff]

theorem consistent_drop (h : Consistent site id target v) (t key : String) :
    Consistent site id target
      (v.drop t key id (decide ((target.id, site.keyOf id target) = (t, key)))) := by
  have hhistory : (v.drop t key id (decide ((target.id, site.keyOf id target) = (t, key)))).history id =
      { v.history id with
        gone := (v.history id).gone || ((v.history id).marked &&
          decide ((target.id, site.keyOf id target) = (t, key))) } :=
    Function.update_self _ _ _
  refine ⟨?_, ?_, ?_⟩
  · rw [hhistory]
    rcases h.row with ⟨hnone, hmarked⟩ | ⟨state, hrow, hiff⟩
    · exact .inl ⟨hnone, hmarked⟩
    · exact .inr ⟨state, hrow.of_rows rfl, hiff⟩
  · rw [hhistory]
    intro hm
    have hstored := h.stored hm
    have hthere : Stored site id target
        (v.drop t key id (decide ((target.id, site.keyOf id target) = (t, key)))) ↔
        Stored site id target v ∧ (target.id, site.keyOf id target) ≠ (t, key) := by
      unfold Stored Vault.drop Vault.note
      rw [mem_filter, decide_eq_true_eq]
    rw [hthere, hstored]
    dsimp only at hm ⊢
    rw [hm]
    simp
  · rw [hhistory]
    intro hm
    dsimp only at hm ⊢
    rw [hm, h.gone hm]
    rfl

theorem HasRow.update {state : BackupState} {f : BackupRow → BackupRow}
    (hid : ∀ r, (f r).id = r.id) (htarget : ∀ r, (f r).targetId = r.targetId)
    (hkey : ∀ r, (f r).objectKey = r.objectKey) (hstate : ∀ r, (f r).state = state)
    {old : BackupState} (h : HasRow site id target v old) :
    HasRow site id target (v.update id f) state := by
  obtain ⟨pre, own, hrows, howni, hownt, hownk, -, hpre⟩ := h
  have hsame : pre.map (fun r => if r.id = id then f r else r) = pre := by
    refine (map_congr_left fun r hr => ?_).trans (map_id pre)
    exact if_neg (hpre r hr)
  refine ⟨pre, f own, ?_, (hid own).trans howni, (htarget own).trans hownt, (hkey own).trans hownk,
    hstate own, hpre⟩
  unfold Vault.update
  rw [hrows, map_append, hsame, map_singleton, if_pos howni]

theorem NoRow.update {f : BackupRow → BackupRow} (h : NoRow v id) : NoRow (v.update id f) id := by
  intro r hr
  obtain ⟨r', hr', rfl⟩ := List.mem_map.mp hr
  have hne := h r' hr'
  rwa [if_neg hne]

theorem consistent_markFailed (h : Consistent site id target v) (error : String) :
    Consistent site id target ((v.update id fun r => { r with state := .failed, error := error }).note id
      fun x => { x with unmarked := true }) := by
  have hhistory : ((v.update id fun r => { r with state := .failed, error := error }).note id
      fun x => { x with unmarked := true }).history id =
      { v.history id with unmarked := true } := Function.update_self _ _ _
  refine ⟨?_, ?_, ?_⟩
  · rw [hhistory]
    rcases h.row with ⟨hnone, hmarked⟩ | ⟨state, hrow, -⟩
    · exact .inl ⟨hnone.update, hmarked⟩
    · refine .inr ⟨.failed, hrow.update (fun _ => rfl) (fun _ => rfl) (fun _ => rfl) fun _ => rfl, ?_⟩
      simp
  · rw [hhistory]
    exact h.stored
  · rw [hhistory]
    exact h.gone

theorem not_mem_extra {pre : List BackupRow} {own : BackupRow} {policy : String} {keep : ℕ}
    (hrows : v.rows = pre ++ [own]) (hpre : ∀ r ∈ pre, r.id ≠ id) (hkeep : 1 ≤ keep) :
    ∀ r ∈ v.extra policy keep, r.id ≠ id := by
  intro r hr
  unfold Vault.extra at hr
  rw [hrows, filter_append, reverse_append] at hr
  have hold : ∀ r ∈ (pre.filter fun r => r.policyId = some policy ∧ r.state = .ready).reverse,
      r.id ≠ id := fun r hr => hpre r (mem_of_mem_filter (mem_reverse.mp hr))
  by_cases hown : own.policyId = some policy ∧ own.state = .ready
  · rw [filter_cons_of_pos (by simpa using hown), filter_nil, reverse_singleton,
      singleton_append, ← Nat.sub_add_cancel hkeep, drop_succ_cons] at hr
    exact hold r (mem_of_mem_drop hr)
  · rw [filter_cons_of_neg (by simpa using hown), filter_nil, reverse_nil, nil_append] at hr
    exact hold r (mem_of_mem_drop hr)

theorem consistent_deleteRow {r : String} (hr : r ≠ id) (h : Consistent site id target v) :
    Consistent site id target { v with rows := v.rows.filter (·.id ≠ r) } := by
  refine ⟨?_, h.stored, h.gone⟩
  rcases h.row with ⟨hnone, hmarked⟩ | ⟨state, ⟨pre, own, hrows, howni, hrest, hkey, hs, hpre⟩, hiff⟩
  · exact .inl ⟨fun x hx => hnone x (mem_of_mem_filter hx), hmarked⟩
  · refine .inr ⟨state, ⟨pre.filter (·.id ≠ r), own, ?_, howni, hrest, hkey, hs, ?_⟩, hiff⟩
    · show v.rows.filter (·.id ≠ r) = _
      have hne : own.id ≠ r := by
        rw [howni]
        exact Ne.symm hr
      rw [hrows, filter_append, filter_cons_of_pos (by simpa using hne), filter_nil]
    · exact fun x hx => hpre x (mem_of_mem_filter hx)

/-! ### The run -/

section Run

variable {l : BackupFlags}

theorem wp_answer {Q : c.Answer → BackupFlags → Vault → Prop}
    {E : JobError → BackupFlags → Vault → Prop}
    (h : ∀ o, Handler.Met (fun _ => True) (fun a => Q a l) (fun e => E e l) (answer site id c v o)) :
    wp (backupWorld site id) (fun _ => True) Q E (Handler.call c) l v :=
  (wp_call c l v).mpr h

theorem met_silent {Q : α → Vault → Prop} {E : JobError → Vault → Prop} {a : α}
    (hfail : E .failed v) (hok : Q a v) : Handler.Met (fun _ => True) Q E (v.silent o a) := by
  unfold Vault.silent
  split_ifs
  · exact ⟨trivial, hfail⟩
  · exact ⟨trivial, hok⟩

theorem met_reply {Q : α → Vault → Prop} {E : JobError → Vault → Prop}
    {done : α × Vault} (hfail : E .failed v) (hlate : E .failed done.2)
    (hok : Q done.1 done.2) : Handler.Met (fun _ => True) Q E (v.reply o done) := by
  unfold Vault.reply
  split_ifs
  · exact ⟨trivial, hlate⟩
  · exact ⟨trivial, hfail⟩
  · exact ⟨trivial, hok⟩

theorem keeps_untouched (hc : c.isQuiet) :
    Handler.Keeps (backupWorld site id) (fun v => Untouched v id)
      (Handler.call c : Backup c.Answer) :=
  .call fun _ _ h => h.quiet (answer_quiet hc h.marked)

theorem keeps_making (hc : c.isQuiet) :
    Handler.Keeps (backupWorld site id) (Making site id target) (Handler.call c : Backup c.Answer) :=
  .call fun _ o h => h.answer hc o

theorem keeps_orIgnore {m : Backup Unit}
    (hm : Handler.Keeps (backupWorld site id) A m) :
    Handler.Keeps (backupWorld site id) A (Backup.orIgnore m) :=
  hm.tryCatch fun _ => .pure ()

theorem keeps_refuseOver (msg : List String) :
    Handler.Keeps (backupWorld site id) A (refuseOver msg) :=
  .when _ (.throw _)

theorem keeps_checkQuota :
    Handler.Keeps (backupWorld site id) (fun v => Untouched v id) (checkQuota site id) := by
  unfold checkQuota
  split
  · exact .pure ()
  · refine (keeps_untouched rfl).bind fun q => ?_
    refine Handler.Keeps.bind ?_ fun _ => .when _ ?_
    · exact .when _ ((keeps_untouched rfl).bind fun r => keeps_refuseOver _)
    · refine (keeps_untouched rfl).bind fun q => .when _ ?_
      exact (keeps_untouched rfl).bind fun used => keeps_refuseOver _

theorem stored_of_found {size : ℕ} (h : (v.found target.id (site.keyOf id target) size).isSome) :
    Stored site id target v := by
  unfold Vault.found at h
  split_ifs at h with hthere
  · exact hthere
  · cases h

variable {v : Vault}

theorem wp_appeared (n : ℕ) (hv : Making site id target v) :
    wp (backupWorld site id) (fun _ => True)
      (fun _ _ v => Making site id target v ∧ Stored site id target v)
      (fun _ _ v => Making site id target v) (appeared site id target n) l v := by
  induction n generalizing l v with
  | zero => exact hv
  | succ n ih =>
    unfold appeared
    rw [wp_bind]
    refine (keeps_making (c := .throwIfAborted) rfl).wp hv (fun _ l v hv => ?_) (fun _ _ _ hv => hv)
    rw [wp_bind]
    refine wp_answer (c := .stat target.id (site.keyOf id target)) fun o => ?_
    have hlanded : Making site id target (v.landed id target.id (site.keyOf id target) o) :=
      hv.quiet quiet_landed
    have hnext (found : Option ℕ)
        (hfound : found.isSome → Stored site id target (v.landed id target.id (site.keyOf id target) o)) :
        wp (backupWorld site id) (fun _ => True)
          (fun _ _ v => Making site id target v ∧ Stored site id target v)
          (fun _ _ v => Making site id target v) (found.elim (appeared site id target n) pure) l
          (v.landed id target.id (site.keyOf id target) o) := by
      cases found with
      | none => exact ih hlanded
      | some size => exact ⟨hlanded, hfound rfl⟩
    exact met_silent hlanded (hnext _ stored_of_found)

theorem wp_relay (streaming : Bool) (hv : Making site id target v) :
    wp (backupWorld site id) (fun _ => True)
      (fun _ _ v => Making site id target v ∧ Stored site id target v)
      (fun _ _ v => Making site id target v) (relay site id target streaming) l v := by
  unfold relay
  rw [wp_bind]
  have hmade : Handler.Keeps (backupWorld site id) (Making site id target)
      (makeLocal site id streaming) := by
    unfold makeLocal
    split_ifs
    · exact keeps_making rfl
    · exact (keeps_making rfl).bind fun _ => (keeps_making rfl).bind fun _ => keeps_making rfl
  refine hmade.wp hv (fun _ l v hv => ?_) (fun _ _ _ hv => hv)
  rw [wp_bind]
  refine (keeps_making (c := .download streaming) rfl).wp hv (fun _ l v hv => ?_) (fun _ _ _ hv => hv)
  -- A put that returned is durable.
  refine wp_answer (c := .put target.id (site.keyOf id target)) fun o => ?_
  have hput : Making site id target
      { v with objects := (target.id, site.keyOf id target) :: v.objects } :=
    hv.quiet ⟨rfl, rfl, rfl, rfl⟩
  exact met_reply hv hput ⟨hput, mem_cons_self⟩

theorem wp_giveUpDirect (e : JobError) (hv : Making site id target v) :
    wp (backupWorld site id) (fun _ => True)
      (fun uploaded _ v => Making site id target v ∧ (uploaded.isSome → Stored site id target v))
      (fun _ _ v => Making site id target v)
      (do
        let stopped ← Backup.aborted
        giveUpDirect site id target e stopped) l v := by
  rw [wp_bind]
  refine (keeps_making (c := .aborted) rfl).wp hv (fun stopped l v hv => ?_) (fun _ _ _ hv => hv)
  unfold giveUpDirect
  split_ifs
  · exact hv
  · rw [wp_bind]
    have hdelete : Handler.Keeps (backupWorld site id) (Making site id target)
        (Backup.orIgnore (Backup.deleteObject target.id (site.keyOf id target))) :=
      keeps_orIgnore (keeps_making rfl)
    refine hdelete.wp hv (fun _ l v hv => ?_) (fun _ _ _ hv => hv)
    rw [wp_bind]
    have hdrop : Handler.Keeps (backupWorld site id) (Making site id target)
        (Backup.orIgnore (Backup.dropLocal (localName site id))) :=
      keeps_orIgnore (keeps_making rfl)
    refine hdrop.wp hv (fun _ l v hv => ?_) (fun _ _ _ hv => hv)
    rw [wp_bind]
    refine (keeps_making (c := .progress "relaying") rfl).wp hv (fun _ l v hv => ?_)
      (fun _ _ _ hv => hv)
    exact ⟨hv, nofun⟩

theorem wp_direct (hv : Making site id target v) :
    wp (backupWorld site id) (fun _ => True)
      (fun uploaded _ v => Making site id target v ∧ (uploaded.isSome → Stored site id target v))
      (fun _ _ v => Making site id target v) (direct site id target) l v := by
  have hcaught (e : JobError) (l : BackupFlags) (v : Vault) (hv : Making site id target v) :
      wp (backupWorld site id) (fun _ => True)
        (fun uploaded _ v => Making site id target v ∧ (uploaded.isSome → Stored site id target v))
        (fun _ _ v => Making site id target v)
        (do
          let stopped ← Backup.aborted
          giveUpDirect site id target e stopped) l v :=
    wp_giveUpDirect e hv
  unfold direct
  rw [wp_tryCatch, wp_bind]
  refine (keeps_making (c := .progress "backing up and uploading") rfl).wp hv (fun _ l v hv => ?_) hcaught
  rw [wp_bind]
  refine (keeps_making (c := .makeBackup true "") rfl).wp hv (fun _ l v hv => ?_) hcaught
  rw [wp_bind]
  refine wp_mono (fun size l v hv => ?_) hcaught (wp_appeared _ hv)
  exact ⟨hv.1, fun _ => hv.2⟩

theorem wp_transfer (extensions : List String) (hv : Making site id target v) :
    wp (backupWorld site id) (fun _ => True)
      (fun _ _ v => Making site id target v ∧ Stored site id target v)
      (fun _ _ v => Making site id target v) (transfer site id target extensions) l v := by
  have hdirect : wp (backupWorld site id) (fun _ => True)
      (fun uploaded _ v => Making site id target v ∧ (uploaded.isSome → Stored site id target v))
      (fun _ _ v => Making site id target v) (tryDirect site id target extensions) l v := by
    unfold tryDirect
    split_ifs
    · exact wp_direct hv
    · exact ⟨hv, nofun⟩
  unfold transfer
  rw [wp_bind, wp_when]
  split_ifs
  · exact hv
  · rw [wp_bind]
    refine wp_mono (fun uploaded l v hv => ?_) (fun _ _ _ hv => hv) hdirect
    cases uploaded with
    | none =>
      show wp _ _ _ _ (relay site id target _ >>= fun size => pure (size, "relay")) l v
      rw [wp_bind]
      exact wp_relay _ hv.1
    | some size => exact ⟨hv.1, hv.2 rfl⟩

theorem keeps_silent
    (h : ∀ v o, ∃ a : c.Answer, answer site id c v o = v.silent o a) :
    Handler.Keeps (backupWorld site id) A (Handler.call c : Backup c.Answer) := by
  refine .call fun v o hv => ?_
  obtain ⟨a, ha⟩ := h v o
  show A (answer site id c v o).2
  rw [ha]
  exact silent_kept hv

section Marked

variable (htarget : site.target (site.run id).payload.targetId = some target)
include htarget

theorem keeps_deleteObject (t key : String) :
    Handler.Keeps (backupWorld site id) (Consistent site id target) (Backup.deleteObject t key) := by
  refine .call (c := BackupCall.deleteObject t key) fun v o hv => reply_kept hv ?_
  rw [own_iff htarget]
  exact consistent_drop hv t key

theorem keeps_pruneRows {rows : List BackupRow} (hrows : ∀ r ∈ rows, r.id ≠ id) :
    Handler.Keeps (backupWorld site id) (Consistent site id target) (pruneRows rows) := by
  induction rows with
  | nil => exact .pure _
  | cons b rest ih =>
    have hrow : Handler.Keeps (backupWorld site id) (Consistent site id target)
        (Backup.deleteRow b.id) :=
      .call (c := BackupCall.deleteRow b.id) fun v o hv =>
        reply_kept hv (consistent_deleteRow (hrows b mem_cons_self) hv)
    refine Handler.Keeps.bind (.tryCatch ?_ fun _ => .pure _) fun failed => ?_
    · exact (keeps_deleteObject htarget _ _).bind fun _ => hrow.bind fun _ => .pure none
    · exact (ih fun r hr => hrows r (mem_cons_of_mem b hr)).bind fun _ => .pure _

theorem keeps_pruneBackups (policy : PolicyRow) :
    Handler.Keeps (backupWorld site id) (Consistent site id target) (pruneBackups policy) := by
  intro l v hv
  unfold pruneBackups
  rw [wp_bind]
  refine wp_answer (c := .selectExtra policy.id policy.keep) fun o => met_silent hv ?_
  refine keeps_pruneRows htarget ?_ l v hv
  rcases hv.row with ⟨hnone, -⟩ | ⟨state, ⟨pre, own, hrows, -, -, -, -, hpre⟩, -⟩
  · intro r hr
    refine hnone r ?_
    exact mem_of_mem_filter (mem_reverse.mp (mem_of_mem_drop hr))
  · exact not_mem_extra hrows hpre policy.keep_pos

theorem keeps_applyRetention :
    Handler.Keeps (backupWorld site id) (Consistent site id target) (applyRetention site id) := by
  unfold applyRetention
  split
  · exact .pure _
  · refine (keeps_silent fun v o => ⟨_, rfl⟩).bind fun policy => ?_
    refine Handler.Keeps.bind ?_ fun r => ?_
    · cases policy with
      | none => exact .pure _
      | some policy => exact keeps_pruneBackups htarget policy
    · exact (keeps_silent fun v o => ⟨_, rfl⟩).bind fun _ => .pure _

theorem keeps_cleanUp (e : JobError) :
    Handler.Keeps (backupWorld site id) (Consistent site id target) (cleanUp site id target e) := by
  refine (keeps_orIgnore (keeps_deleteObject htarget _ _)).bind fun _ => ?_
  refine Handler.Keeps.bind .locals fun l => ?_
  refine Handler.Keeps.bind (.when _ ?_) fun _ => .when _ (keeps_silent fun v o => ⟨_, rfl⟩)
  refine .call (c := BackupCall.markFailed _) fun v o hv => ?_
  exact reply_kept (A := Consistent site id target) hv (consistent_markFailed hv _)

omit htarget in
theorem wp_markReady (size : ℕ) (transport : String) (hv : Making site id target v)
    (hstored : Stored site id target v) :
    wp (backupWorld site id) (fun _ => True) (fun _ _ v => Consistent site id target v)
      (fun _ _ v => Consistent site id target v) (Backup.markReady size transport) l v := by
  have hmarked : Consistent site id target ((v.update id fun r =>
      { r with state := .ready, sizeBytes := some size, transport := transport }).note id fun h =>
        { h with marked := true }) := by
    have hhistory : ((v.update id fun r =>
        { r with state := .ready, sizeBytes := some size, transport := transport }).note id fun h =>
          { h with marked := true }).history id = { v.history id with marked := true } :=
      Function.update_self _ _ _
    refine ⟨.inr ⟨.ready, ?_, ?_⟩, fun _ => ?_, fun hm => ?_⟩
    · exact hv.row.update (fun _ => rfl) (fun _ => rfl) (fun _ => rfl) fun _ => rfl
    · rw [hhistory]
      exact iff_of_true rfl ⟨rfl, hv.unmarked⟩
    · rw [hhistory]
      exact iff_of_true hstored hv.gone
    · rw [hhistory] at hm
      cases hm
  exact wp_answer (c := .markReady size transport) fun o =>
    met_reply hv.consistent hmarked hmarked

omit htarget in
theorem making_insertRow (hv : Untouched v id) (instanceType : String)
    (inserts : String → ℕ) :
    Making site id target
      { v with rows := v.rows ++ [newRow site id target instanceType], inserts := inserts } :=
  ⟨⟨v.rows, newRow site id target instanceType, rfl, rfl, rfl, rfl, rfl, hv.noRow⟩, hv.marked,
    hv.gone, hv.unmarked⟩

theorem wp_makeAndStore (hv : Untouched v id) :
    wp (backupWorld site id) (fun _ => True) (fun _ _ v => Consistent site id target v)
      (fun _ _ v => Consistent site id target v) (makeAndStore site id target) l v := by
  unfold makeAndStore
  rw [wp_bind]
  refine (keeps_untouched (c := .readInstance _ _) rfl).wp hv (fun inst l v hv => ?_)
    (fun _ _ _ hv => hv.consistent)
  rw [wp_bind]
  cases inst with
  | none => exact hv.consistent
  | some instanceType =>
    rw [Option.elim, wp_pure, wp_bind]
    refine wp_answer (c := .insertRow (newRow site id target instanceType)) fun o => ?_
    unfold answer
    dsimp only
    split_ifs
    · exact ⟨trivial, hv.consistent⟩
    · have hmade (inserts : String → ℕ) : Making site id target
          { v with rows := v.rows ++ [newRow site id target instanceType], inserts := inserts } :=
        making_insertRow hv instanceType inserts
      refine met_reply hv.consistent (hmade _).consistent ?_
      rw [wp_bind, wp_assign, wp_bind]
      refine (keeps_making (c := .server) rfl).wp (hmade _) (fun extensions l v hv => ?_)
        (fun _ _ _ hv => hv.consistent)
      rw [wp_bind]
      refine wp_mono (fun r l v hv => ?_) (fun _ _ _ hv => hv.consistent)
        (wp_transfer extensions hv)
      obtain ⟨size, transport⟩ := r
      rw [wp_bind]
      refine wp_mono (fun _ l v hv => ?_) (fun _ _ _ hv => hv)
        (wp_markReady size transport hv.1 hv.2)
      rw [wp_bind]
      exact (keeps_applyRetention htarget).wp hv (fun _ _ _ hv => hv) (fun _ _ _ hv => hv)

theorem wp_backUp (hv : Untouched v id) :
    wp (backupWorld site id) (fun _ => True) (fun _ _ v => Consistent site id target v)
      (fun _ _ v => Consistent site id target v) (backUp site id target) l v := by
  have hdrop : Handler.Keeps (backupWorld site id) (Consistent site id target)
      (Backup.orIgnore (Backup.dropLocal (localName site id))) :=
    keeps_orIgnore (keeps_silent fun v o => ⟨_, rfl⟩)
  unfold backUp
  rw [wp_bind, wp_when]
  split_ifs
  · exact hv.consistent
  · rw [wp_bind]
    refine keeps_checkQuota.wp hv (fun _ l v hv => ?_) (fun _ _ _ hv => hv.consistent)
    rw [wp_bind]
    refine (keeps_untouched (c := .clientFor _) rfl).wp hv (fun _ l v hv => ?_)
      (fun _ _ _ hv => hv.consistent)
    rw [wp_andFinally, wp_tryCatch]
    -- However the body ends, what follows keeps the row and the object consistent.
    refine wp_mono (fun _ l v hv => hdrop.wp hv (fun _ _ _ hv => hv) (fun _ _ _ hv => hv))
      (fun e l v hv => ?_) (wp_makeAndStore htarget hv)
    rw [wp_bind]
    exact (keeps_cleanUp htarget e).wp hv
      (fun _ l v hv => hdrop.wp hv (fun _ _ _ hv => hv) (fun _ _ _ hv => hv))
      (fun _ l v hv => hdrop.wp hv (fun _ _ _ hv => hv) (fun _ _ _ hv => hv))

end Marked

theorem wp_backupHandler (hv : Untouched v id) :
    wp (backupWorld site id) (fun _ => True)
      (fun _ _ v => ReadyIsThere v id ↔ ¬ Lost (v.history id))
      (fun _ _ v => ReadyIsThere v id ↔ ¬ Lost (v.history id)) (backupHandler site id) l v := by
  have hdone {target : TargetRow} (v : Vault) (h : Consistent site id target v) :
      ReadyIsThere v id ↔ ¬ Lost (v.history id) := h.readyIsThere_iff
  have hstart (v : Vault) (h : Untouched v id) : ReadyIsThere v id ↔ ¬ Lost (v.history id) := by
    refine iff_of_true (fun r hr hrid => absurd hrid (h.noRow r hr)) fun hlost => ?_
    rw [Lost, h.marked] at hlost
    cases hlost.1
  unfold backupHandler
  rw [wp_bind]
  refine wp_answer (c := .selectTarget (site.run id).payload.targetId) fun o =>
    met_silent (hstart v hv) ?_
  cases htarget : site.target (site.run id).payload.targetId with
  | none => exact hstart v hv
  | some target =>
    exact wp_mono (fun _ _ v h => hdone v h) (fun _ _ v h => hdone v h) (wp_backUp htarget hv)

end Run

/-- For every run and every pattern of failures: a row that says ready names an object that is
there, unless the row was marked ready, the object deleted after that and the row not marked failed. -/
theorem ready_is_there_iff {site : BackupSite} {id : String} {v : Vault} (hv : Untouched v id)
    {os : List BackupOutcome} {r : Except JobError BackupResult} {l : BackupFlags} {w : Vault}
    (hres : (backupHandler site id ⟨false⟩).result (backupWorld site id) v os = some ((r, l), w)) :
    ReadyIsThere w id ↔ ¬ Lost (w.history id) := by
  have hwp : wp (backupWorld site id) (fun _ => True)
      (fun _ _ v => ReadyIsThere v id ↔ ¬ Lost (v.history id))
      (fun _ _ v => ReadyIsThere v id ↔ ¬ Lost (v.history id)) (backupHandler site id) ⟨false⟩ v :=
    wp_backupHandler hv
  have hend := (wp_iff_result _ _ _).mp hwp os r l w hres
  cases r with
  | ok a => exact hend
  | error e => exact hend

/-! ### One scheduled backup -/

/-- A scheduled backup of `web` to one target, relayed. -/
def nightly : BackupRun :=
  { jobId := "7b1e52c4-6a0d", tenantId := none, actorType := .system, actorId := "backups"
    payload := ⟨"lab", "acme", "web", "s3", false, .relay, some "policy"⟩
    stamp := "20261001T020000Z", polls := 0 }

def s3 : TargetRow := ⟨"s3", "offsite", "https://s3.example", "", "bucket", "", true⟩

def nightlySite : BackupSite :=
  { isUrl := fun _ => true, target := fun t => if t = "s3" then some s3 else none
    quotas := fun _ => ⟨none, none⟩, run := fun _ => nightly }

def emptyVault : Vault :=
  ⟨[], [], fun _ => false, fun _ => 0, fun _ => ⟨0, false, false, false⟩⟩

theorem untouched_emptyVault (id : String) : Untouched emptyVault id :=
  ⟨fun _ hr => (nomatch hr), rfl, rfl, rfl⟩

def well : BackupOutcome :=
  ⟨false, false, true, false, ⟨none, none, none, none⟩, some "container", [], none, 10⟩

def fails : BackupOutcome := { well with fails := true }

structure VaultView where
  states : List BackupState
  objects : List (String × String)
  deriving DecidableEq

def viewOf (v : Vault) : VaultView := ⟨v.rows.map (·.state), v.objects⟩

/-- Nothing fails: the row says ready, and the object is there. -/
theorem nightly_backup_is_there :
    ∃ r l w, (backupHandler nightlySite "0a1b2c3d" ⟨false⟩).result
        (backupWorld nightlySite "0a1b2c3d") emptyVault (List.replicate 16 well) = some ((r, l), w) ∧
      viewOf w = ⟨[.ready], [("s3", "acme/web/20261001T020000Z-0a1b2c3d.tar.gz")]⟩ ∧
      (ReadyIsThere w "0a1b2c3d" ↔ ¬ Lost (w.history "0a1b2c3d")) := by
  have hview : ((backupHandler nightlySite "0a1b2c3d" ⟨false⟩).result
      (backupWorld nightlySite "0a1b2c3d") emptyVault (List.replicate 16 well)).map (viewOf ·.2) =
      some ⟨[.ready], [("s3", "acme/web/20261001T020000Z-0a1b2c3d.tar.gz")]⟩ := by
    decide
  obtain ⟨⟨⟨r, l⟩, w⟩, hres, hw⟩ := Option.map_eq_some_iff.mp hview
  exact ⟨r, l, w, hres, hw, ready_is_there_iff (untouched_emptyVault _) hres⟩

/-- The row is marked ready, then the policy cannot be read: the object is deleted, and the row
stays ready because it cannot be marked failed either. -/
theorem ready_without_object :
    ∃ r l w, (backupHandler nightlySite "0a1b2c3d" ⟨false⟩).result
        (backupWorld nightlySite "0a1b2c3d") emptyVault
        (List.replicate 11 well ++ [fails, well, fails, well]) = some ((r, l), w) ∧
      viewOf w = ⟨[.ready], []⟩ ∧ ¬ ReadyIsThere w "0a1b2c3d" := by
  have hview : ((backupHandler nightlySite "0a1b2c3d" ⟨false⟩).result
      (backupWorld nightlySite "0a1b2c3d") emptyVault
      (List.replicate 11 well ++ [fails, well, fails, well])).map
        (fun e => (viewOf e.2, e.2.rows.all (·.id = "0a1b2c3d"))) = some (⟨[.ready], []⟩, true) := by
    decide
  obtain ⟨⟨⟨r, l⟩, w⟩, hres, hw⟩ := Option.map_eq_some_iff.mp hview
  obtain ⟨hstates, hids⟩ := Prod.mk.inj hw
  refine ⟨r, l, w, hres, hstates, fun hready => ?_⟩
  have hrows : w.rows.map (·.state) = [.ready] := congrArg VaultView.states hstates
  have hobjects : w.objects = [] := congrArg VaultView.objects hstates
  obtain ⟨row, hrow⟩ : ∃ row, w.rows = [row] := by
    refine length_eq_one_iff.mp ?_
    rw [← length_map (f := (·.state)), hrows]
    rfl
  have hid : row.id = "0a1b2c3d" := by simpa [hrow] using hids
  have hstate : row.state = .ready := by simpa [hrow] using hrows
  have hthere := hready row (by rw [hrow]; exact mem_cons_self) hid hstate
  rw [hobjects] at hthere
  cases hthere

end IncusCloud.Backups
