import IncusCloud.Backups.Proofs.Ready

/-!
# The tenant's backup count

Runs of one tenant at the same time: each counts the tenant's backups, and inserts its row some
calls later. As long as no other run of the tenant inserts its row in between, the count never
passes the quota once it was within it.

A run that has counted knows `Room`: there is room for its row, unless a row was inserted since.
Others leave that alone, because inserts count up and nothing else adds to the count.
-/

namespace IncusCloud.Backups

open Lib Handler List Option
open Mobility (JobError)

variable {site : BackupSite} {tenant : String} {q : ℕ} {i : String} {v v' : Vault}
  {c : BackupCall} {l : BackupFlags}

def liveCount (tenant : String) (v : Vault) : ℕ := (v.live tenant).length

def countIsCurrent (tenant : String) (i : String) (c : BackupCall) (v : Vault) : Prop :=
  match c with
  | .insertRow row => row.tenantId = some tenant → (v.history i).countedAt = v.inserts tenant
  | _ => True

instance (i : String) (c : BackupCall) (v : Vault) : Decidable (countIsCurrent tenant i c v) := by
  cases c <;> unfold countIsCurrent <;> infer_instance

structure Grows (tenant : String) (v v' : Vault) : Prop where
  inserts : v.inserts tenant ≤ v'.inserts tenant
  count : v'.inserts tenant = v.inserts tenant → liveCount tenant v' ≤ liveCount tenant v

/-- What a run leaves room for: its row is nobody else's. -/
structure SparesRow (tenant : String) (i : String) (v v' : Vault) : Prop extends Grows tenant v v' where
  rows : ∀ r ∈ v'.rows, r.id = i → r ∈ v.rows
  history : v'.history i = v.history i

/-- A run changes its own row only, and the tenant's count stays within the quota. -/
structure OwnRow (tenant : String) (q : ℕ) (i : String) (v v' : Vault) : Prop
    extends Grows tenant v v' where
  rows : ∀ r ∈ v'.rows, r.id ≠ i → r ∈ v.rows
  history : ∀ j, j ≠ i → v'.history j = v.history j
  within : liveCount tenant v ≤ q → liveCount tenant v' ≤ q

def counting (tenant : String) (q : ℕ) : Protocol String BackupCall Vault String where
  ok := countIsCurrent tenant
  okOutside _ _ := True
  inv _ := True
  rely := SparesRow tenant
  guar := OwnRow tenant q

/-! ### The count -/

theorem liveCount_eq : liveCount tenant v =
    v.rows.countP fun r => r.tenantId = some tenant ∧ r.state ≠ .failed := by
  unfold liveCount Vault.live
  rw [countP_eq_length_filter]

theorem liveCount_filter {p : BackupRow → Bool} :
    liveCount tenant { v with rows := v.rows.filter p } ≤ liveCount tenant v := by
  rw [liveCount_eq, liveCount_eq]
  exact List.Sublist.countP_le filter_sublist

variable {f : BackupRow → BackupRow}

theorem liveCount_update
    (hf : ∀ r ∈ v.rows, r.id = i → (f r).tenantId = r.tenantId ∧
      ((f r).state ≠ .failed → r.state ≠ .failed)) :
    liveCount tenant (v.update i f) ≤ liveCount tenant v := by
  rw [liveCount_eq, liveCount_eq]
  unfold Vault.update
  rw [countP_map]
  refine countP_mono_left fun r hr hlive => ?_
  simp only [Function.comp_apply, decide_eq_true_eq] at hlive ⊢
  split_ifs at hlive with hid
  · obtain ⟨htenant, hstate⟩ := hf r hr hid
    rw [htenant] at hlive
    exact ⟨hlive.1, hstate hlive.2⟩
  · exact hlive

theorem liveCount_append {row : BackupRow} {inserts : String → ℕ} :
    liveCount tenant { v with rows := v.rows ++ [row], inserts := inserts } ≤
      liveCount tenant v + if row.tenantId = some tenant then 1 else 0 := by
  rw [liveCount_eq, liveCount_eq, countP_append, countP_singleton]
  split_ifs with h1 h2
  · exact Nat.le_refl _
  · simp only [decide_eq_true_eq] at h1
    exact absurd h1.1 h2
  · omega
  · omega

/-! ### What one call does -/

theorem Grows.refl (tenant : String) (v : Vault) : Grows tenant v v :=
  ⟨Nat.le_refl _, fun _ => Nat.le_refl _⟩

theorem OwnRow.refl (tenant : String) (q : ℕ) (i : String) (v : Vault) : OwnRow tenant q i v v :=
  ⟨Grows.refl tenant v, fun _ hr _ => hr, fun _ _ => rfl, fun h => h⟩

theorem ownRow_of_le (hinserts : v'.inserts = v.inserts)
    (hcount : liveCount tenant v' ≤ liveCount tenant v)
    (hrows : ∀ r ∈ v'.rows, r.id ≠ i → r ∈ v.rows) (hhistory : ∀ j, j ≠ i → v'.history j = v.history j) :
    OwnRow tenant q i v v' :=
  ⟨⟨by rw [hinserts], fun _ => hcount⟩, hrows, hhistory, fun h => hcount.trans h⟩

theorem history_note {f : RunHistory → RunHistory} {j : String} (hj : j ≠ i) :
    (v.note i f).history j = v.history j := Function.update_of_ne hj _ _

theorem mem_update (hf : ∀ r, (f r).id = r.id) {r : BackupRow}
    (hr : r ∈ (v.update i f).rows) (hid : r.id ≠ i) : r ∈ v.rows := by
  obtain ⟨r', hr', rfl⟩ := List.mem_map.mp hr
  split_ifs at hid ⊢ with h
  · rw [hf] at hid
    exact absurd h hid
  · exact hr'

def BackupCall.addsNone : BackupCall → Bool
  | insertRow _ | markReady _ _ => false
  | _ => true

variable {o : BackupOutcome}

theorem reply_ownRow {α : Type} {done : α × Vault}
    (h : OwnRow tenant q i v done.2) : OwnRow tenant q i v (v.reply o done).2 := by
  unfold Vault.reply
  split_ifs
  · exact h
  · exact OwnRow.refl tenant q i v
  · exact h

theorem silent_ownRow {α : Type} {a : α} : OwnRow tenant q i v (v.silent o a).2 := by
  unfold Vault.silent
  split_ifs
  · exact OwnRow.refl tenant q i v
  · exact OwnRow.refl tenant q i v

theorem note_ownRow {f : RunHistory → RunHistory} : OwnRow tenant q i v (v.note i f) :=
  ownRow_of_le rfl (Nat.le_refl _) (fun _ hr _ => hr) fun _ hj => history_note hj

theorem drop_ownRow {t key : String} {own : Bool} : OwnRow tenant q i v (v.drop t key i own) :=
  ownRow_of_le rfl (Nat.le_refl _) (fun _ hr _ => hr) fun _ hj => Function.update_of_ne hj _ _

theorem update_ownRow {g : RunHistory → RunHistory}
    (hid : ∀ r, (f r).id = r.id) (htenant : ∀ r, (f r).tenantId = r.tenantId)
    (hstate : ∀ r ∈ v.rows, r.id = i → (f r).state ≠ .failed → r.state ≠ .failed) :
    OwnRow tenant q i v ((v.update i f).note i g) := by
  refine ownRow_of_le rfl ?_ (fun r hr hne => ?_) fun _ hj => history_note hj
  · have h : liveCount tenant (v.update i f) ≤ liveCount tenant v :=
      liveCount_update fun r hr hid => ⟨htenant r, hstate r hr hid⟩
    exact h
  · exact mem_update (f := f) hid hr hne

theorem deleteRow_ownRow {r : String} :
    OwnRow tenant q i v { v with rows := v.rows.filter (·.id ≠ r) } :=
  ownRow_of_le rfl liveCount_filter (fun _ hr _ => mem_of_mem_filter hr) fun _ _ => rfl

theorem landed_ownRow {t key : String} : OwnRow tenant q i v (v.landed i t key o) := by
  unfold Vault.landed
  split_ifs
  · exact ownRow_of_le rfl (Nat.le_refl _) (fun _ hr _ => hr) fun _ _ => rfl
  · exact OwnRow.refl tenant q i v

theorem answer_ownRow (hc : c.addsNone) : OwnRow tenant q i v (answer site i c v o).2 := by
  cases c with
  | countBackups t =>
    have hnoted : OwnRow tenant q i v (v.note i fun h => { h with countedAt := v.inserts t }) :=
      note_ownRow
    exact reply_ownRow hnoted
  | makeBackup direct name =>
    refine reply_ownRow ?_
    split_ifs
    · exact ownRow_of_le rfl (Nat.le_refl _) (fun _ hr _ => hr) fun _ _ => rfl
    · exact OwnRow.refl tenant q i v
  | stat t key =>
    have hlanded : OwnRow tenant q i v (v.landed i t key o) := landed_ownRow
    show OwnRow tenant q i v ((v.landed i t key o).silent o _).2
    unfold Vault.silent
    split_ifs
    · exact hlanded
    · exact hlanded
  | put t key =>
    exact reply_ownRow (ownRow_of_le rfl (Nat.le_refl _) (fun _ hr _ => hr) fun _ _ => rfl)
  | deleteObject t key => exact reply_ownRow drop_ownRow
  | deleteRow r => exact reply_ownRow deleteRow_ownRow
  | markFailed error =>
    have hfailed : OwnRow tenant q i v ((v.update i fun r =>
        { r with state := .failed, error := error }).note i fun h => { h with unmarked := true }) :=
      update_ownRow (fun _ => rfl) (fun _ => rfl) fun _ _ _ h => absurd rfl h
    exact reply_ownRow hfailed
  | aborted => exact OwnRow.refl tenant q i v
  | insertRow row => cases hc
  | markReady size transport => cases hc
  | _ => exact silent_ownRow

/-! ### What a run knows -/

def Room (site : BackupSite) (tenant : String) (q : ℕ) (i : String) (v : Vault) : Prop :=
  (site.run i).tenantId = some tenant →
    (v.history i).countedAt ≤ v.inserts tenant ∧
      (v.inserts tenant = (v.history i).countedAt → liveCount tenant v + 1 ≤ q)

def Alive (i : String) (v : Vault) : Prop := ∀ r ∈ v.rows, r.id = i → r.state ≠ .failed

theorem Room.spared (h : Room site tenant q i v) (hv : SparesRow tenant i v v') :
    Room site tenant q i v' := by
  intro htenant
  obtain ⟨hbefore, hroom⟩ := h htenant
  have hinserts := hv.inserts
  rw [hv.history]
  refine ⟨by omega, fun hnow => ?_⟩
  -- Nothing was inserted since, so the count has not grown.
  have hsame : v'.inserts tenant = v.inserts tenant := by omega
  have hcount := hv.count hsame
  have hone := hroom (by omega)
  omega

theorem Alive.spared (h : Alive i v) (hv : SparesRow tenant i v v') : Alive i v' :=
  fun r hr hid => h r (hv.rows r hr hid) hid

theorem compatible_counting : Team.Compatible (backupTeam site) (counting tenant q) := by
  constructor
  · rintro i j v v' hij - - h
    refine ⟨h.toGrows, fun r hr hid => h.rows r hr ?_, h.history j (Ne.symm hij)⟩
    rw [hid]
    exact Ne.symm hij
  · rintro r v v' - - hv'
    obtain rfl := some.inj hv'
    refine ⟨trivial, fun j => ?_⟩
    have hgone : OwnRow tenant q j v { v with rows := v.rows.filter (·.id ≠ r) } := deleteRow_ownRow
    exact ⟨hgone.toGrows, fun _ hr _ => mem_of_mem_filter hr, rfl⟩

/-! ### The run -/

section Run

variable {J : Vault → Prop} {target : TargetRow}

theorem answer_rows (hc : c.isQuiet) : (answer site i c v o).2.rows = v.rows := by
  cases c with
  | countBackups t => exact reply_kept (A := fun v' => v'.rows = v.rows) rfl rfl
  | makeBackup direct name =>
    refine reply_kept (A := fun v' => v'.rows = v.rows) rfl ?_
    split_ifs
    · rfl
    · rfl
  | stat t key =>
    have hlanded : (v.landed i t key o).rows = v.rows := (quiet_landed).rows
    exact silent_kept (A := fun v' => v'.rows = v.rows) hlanded
  | put t key => exact reply_kept (A := fun v' => v'.rows = v.rows) rfl rfl
  | deleteObject t key => exact reply_kept (A := fun v' => v'.rows = v.rows) rfl rfl
  | aborted => rfl
  | insertRow row => cases hc
  | markReady size transport => cases hc
  | markFailed error => cases hc
  | deleteRow r => cases hc
  | _ => exact silent_kept (A := fun v' => v'.rows = v.rows) rfl

theorem addsNone_of_isQuiet (hc : c.isQuiet) : c.addsNone := by
  cases c with
  | insertRow row => cases hc
  | markReady size transport => cases hc
  | _ => rfl

theorem maintains_any (hc : c.addsNone) :
    Maintains (backupTeam site) (counting tenant q) i (fun _ => True)
      (Handler.call c : Backup c.Answer) := by
  refine .call (fun _ _ _ _ => trivial) fun v o r _ _ _ hr => ?_
  obtain rfl := some.inj hr
  exact ⟨trivial, answer_ownRow hc, trivial⟩

theorem maintains_alive (hc : c.isQuiet) :
    Maintains (backupTeam site) (counting tenant q) i (Alive i)
      (Handler.call c : Backup c.Answer) := by
  refine .call (fun _ _ hv h => h.spared hv) fun v o r hv _ _ hr => ?_
  obtain rfl := some.inj hr
  refine ⟨trivial, answer_ownRow (addsNone_of_isQuiet hc), ?_⟩
  unfold Alive
  rw [answer_rows hc]
  exact hv

theorem maintains_room
    (h : ∀ v o, ∃ a : c.Answer, answer site i c v o = v.silent o a) :
    Maintains (backupTeam site) (counting tenant q) i (Room site tenant q i)
      (Handler.call c : Backup c.Answer) := by
  refine .call (fun _ _ hv h => h.spared hv) fun v o r hv _ _ hr => ?_
  obtain rfl := some.inj hr
  obtain ⟨a, ha⟩ := h v o
  rw [ha]
  exact ⟨trivial, silent_ownRow, silent_kept hv⟩

theorem maintains_orIgnore {m : Backup Unit}
    (hm : Maintains (backupTeam site) (counting tenant q) i J m) :
    Maintains (backupTeam site) (counting tenant q) i J (Backup.orIgnore m) :=
  hm.tryCatch fun _ => .pure ()

theorem maintains_refuseOver (msg : List String) :
    Maintains (backupTeam site) (counting tenant q) i J (refuseOver msg) :=
  .when _ (.throw _)

theorem safe_answer {Q : c.Answer → BackupFlags → Vault → Prop}
    (hJ : ∀ v v', SparesRow tenant i v v' → J v → J v')
    (h : ∀ v o, J v → countIsCurrent tenant i c v →
      OwnRow tenant q i v (answer site i c v o).2 ∧
        Handler.Met (fun _ => True) (fun a => Q a l) (fun _ _ => True) (answer site i c v o))
    (hv : J v) :
    safe (backupTeam site) (counting tenant q) i Q (fun _ _ _ => True) (Handler.call c) l v := by
  refine safe_call hJ (fun v o r hv _ hok hr => ?_) hv
  obtain rfl := some.inj hr
  exact h v o hv hok

theorem room_of_problems {quotas : BackupQuotas} (hq : quotas.backups = some q) {r : ℕ × ℕ}
    (h : backupProblems quotas r = []) : r.1 + 1 ≤ q := by
  unfold backupProblems at h
  rw [hq] at h
  have hfirst := (append_eq_nil_iff.mp h).1
  dsimp only at hfirst
  split_ifs at hfirst with hover
  omega

theorem safe_needBackupQuota {quotas : BackupQuotas} (hq : quotas.backups = some q) :
    safe (backupTeam site) (counting tenant q) i (fun _ _ v => Room site tenant q i v)
      (fun _ _ _ => True) (needBackupQuota tenant quotas) l v := by
  unfold needBackupQuota
  rw [safe_when, hq, if_pos (by simp), safe_bind]
  refine safe_answer (c := BackupCall.countBackups tenant) (J := fun _ => True)
    (fun _ _ _ _ => trivial) (fun v o _ _ => ⟨answer_ownRow rfl, ?_⟩) trivial
  refine met_reply (v := v) (o := o) trivial trivial ?_
  unfold refuseOver
  rw [safe_when]
  split_ifs with hmsg
  · exact trivial
  · have hroom := room_of_problems hq (by simpa using hmsg)
    intro _
    have hcounted : ((v.note i fun h => { h with countedAt := v.inserts tenant }).history i).countedAt =
        v.inserts tenant := by
      unfold Vault.note
      dsimp only
      rw [Function.update_self]
    rw [hcounted]
    exact ⟨Nat.le_refl _, fun _ => hroom⟩

theorem safe_checkQuota (hq : (site.quotas tenant).backups = some q) :
    safe (backupTeam site) (counting tenant q) i (fun _ _ v => Room site tenant q i v)
      (fun _ _ _ => True) (checkQuota site i) l v := by
  have hany {c : BackupCall} (hc : c.addsNone) :
      Maintains (backupTeam site) (counting tenant q) i (fun _ => True)
        (Handler.call c : Backup c.Answer) := maintains_any hc
  unfold checkQuota
  cases htenant : (site.run i).tenantId with
  | none =>
    intro h
    rw [htenant] at h
    cases h
  | some t =>
    by_cases ht : t = tenant
    · subst ht
      rw [safe_bind]
      refine safe_answer (c := BackupCall.selectQuotas t) (J := fun _ => True)
        (fun _ _ _ _ => trivial) (fun v o _ _ => ⟨answer_ownRow rfl, ?_⟩) trivial
      refine met_silent (v := v) (o := o) trivial ?_
      refine safe_seq (safe_needBackupQuota hq) fun _ l v hv => ?_
      have hshare : Maintains (backupTeam site) (counting t q) i (Room site t q i)
          (Handler.when ((site.run i).actorType = .user && (site.run i).actorId ≠ "")
            (needUserQuota t (site.run i).actorId)) := by
        refine .when _ ((maintains_room fun v o => ⟨_, rfl⟩).bind fun quotas => .when _ ?_)
        exact (maintains_room fun v o => ⟨_, rfl⟩).bind fun used => maintains_refuseOver _
      exact hshare.safe hv (fun _ _ _ h => h) (fun _ _ _ _ => trivial)
    · -- The run of another tenant has nothing to show.
      have hall : Maintains (backupTeam site) (counting tenant q) i (fun _ => True) (do
          let quotas ← Backup.selectQuotas t
          needBackupQuota t quotas
          Handler.when ((site.run i).actorType = .user && (site.run i).actorId ≠ "")
            (needUserQuota t (site.run i).actorId)) := by
        refine (hany rfl).bind fun quotas => Maintains.bind ?_ fun _ => .when _ ?_
        · exact .when _ ((hany rfl).bind fun r => maintains_refuseOver _)
        · refine (hany rfl).bind fun quotas => .when _ ?_
          exact (hany rfl).bind fun used => maintains_refuseOver _
      refine hall.safe trivial (fun _ _ v _ h => ?_) (fun _ _ _ _ => trivial)
      rw [htenant] at h
      exact absurd (some.inj h) ht

theorem maintains_appeared (n : ℕ) :
    Maintains (backupTeam site) (counting tenant q) i (Alive i) (appeared site i target n) := by
  induction n with
  | zero => exact .throw _
  | succ n ih =>
    refine (maintains_alive rfl).bind fun _ => (maintains_alive rfl).bind fun found => ?_
    cases found with
    | none => exact ih
    | some size => exact .pure size

theorem maintains_relay (streaming : Bool) :
    Maintains (backupTeam site) (counting tenant q) i (Alive i)
      (relay site i target streaming) := by
  have hmade : Maintains (backupTeam site) (counting tenant q) i (Alive i)
      (makeLocal site i streaming) := by
    unfold makeLocal
    split_ifs
    · exact maintains_alive rfl
    · exact (maintains_alive rfl).bind fun _ => (maintains_alive rfl).bind fun _ => maintains_alive rfl
  exact hmade.bind fun _ => (maintains_alive rfl).bind fun _ => maintains_alive rfl

theorem maintains_direct :
    Maintains (backupTeam site) (counting tenant q) i (Alive i) (direct site i target) := by
  refine .tryCatch ?_ fun e => (maintains_alive rfl).bind fun stopped => ?_
  · refine (maintains_alive rfl).bind fun _ => (maintains_alive rfl).bind fun _ => ?_
    exact (maintains_appeared _).bind fun size => .pure _
  · unfold giveUpDirect
    split_ifs
    · exact .throw e
    · refine (maintains_orIgnore (maintains_alive rfl)).bind fun _ => ?_
      refine (maintains_orIgnore (maintains_alive rfl)).bind fun _ => ?_
      exact (maintains_alive rfl).bind fun _ => .pure _

theorem maintains_transfer (extensions : List String) :
    Maintains (backupTeam site) (counting tenant q) i (Alive i)
      (transfer site i target extensions) := by
  refine Maintains.bind (.when _ (.throw _)) fun _ => ?_
  refine Maintains.bind ?_ fun uploaded => ?_
  · unfold tryDirect
    split_ifs
    · exact maintains_direct
    · exact .pure _
  · cases uploaded with
    | none => exact (maintains_relay _).bind fun size => .pure _
    | some size => exact .pure _

theorem maintains_pruneRows (rows : List BackupRow) :
    Maintains (backupTeam site) (counting tenant q) i (fun _ => True) (pruneRows rows) := by
  induction rows with
  | nil => exact .pure _
  | cons b rest ih =>
    refine Maintains.bind (.tryCatch ?_ fun _ => .pure _) fun failed => ?_
    · exact (maintains_any rfl).bind fun _ => (maintains_any rfl).bind fun _ => .pure none
    · exact ih.bind fun _ => .pure _

theorem maintains_applyRetention :
    Maintains (backupTeam site) (counting tenant q) i (fun _ => True) (applyRetention site i) := by
  unfold applyRetention
  split
  · exact .pure _
  · refine (maintains_any rfl).bind fun policy => Maintains.bind ?_ fun r => ?_
    · cases policy with
      | none => exact .pure _
      | some policy => exact (maintains_any rfl).bind fun extra => maintains_pruneRows extra
    · exact (maintains_any rfl).bind fun _ => .pure _

theorem maintains_cleanUp (e : JobError) :
    Maintains (backupTeam site) (counting tenant q) i (fun _ => True)
      (cleanUp site i target e) := by
  refine (maintains_orIgnore (maintains_any rfl)).bind fun _ => ?_
  refine Maintains.bind .locals fun l => ?_
  exact Maintains.bind (.when _ (maintains_any rfl)) fun _ => .when _ (maintains_any rfl)

theorem insertRow_ownRow {row : BackupRow} {inserts : String → ℕ} (hid : row.id = i)
    (hmine : row.tenantId = some tenant → inserts tenant = v.inserts tenant + 1)
    (hother : row.tenantId ≠ some tenant → inserts tenant = v.inserts tenant)
    (hroom : row.tenantId = some tenant → liveCount tenant v + 1 ≤ q) :
    OwnRow tenant q i v { v with rows := v.rows ++ [row], inserts := inserts } := by
  have hcount : liveCount tenant { v with rows := v.rows ++ [row], inserts := inserts } ≤
      liveCount tenant v + if row.tenantId = some tenant then 1 else 0 := liveCount_append
  refine ⟨⟨?_, fun h => ?_⟩, fun r hr hne => ?_, fun _ _ => rfl, fun h => ?_⟩
  · show v.inserts tenant ≤ inserts tenant
    by_cases ht : row.tenantId = some tenant
    · rw [hmine ht]
      omega
    · rw [hother ht]
  · replace h : inserts tenant = v.inserts tenant := h
    by_cases ht : row.tenantId = some tenant
    · have hnext := hmine ht
      omega
    · rw [if_neg ht] at hcount
      omega
  · rcases mem_append.mp hr with hr | hr
    · exact hr
    · rw [mem_singleton.mp hr] at hne
      exact absurd hid hne
  · by_cases ht : row.tenantId = some tenant
    · have hone := hroom ht
      rw [if_pos ht] at hcount
      omega
    · rw [if_neg ht] at hcount
      omega

theorem safe_insertRow (instanceType : String) {Q : Unit → BackupFlags → Vault → Prop}
    (hQ : ∀ v, Alive i v → Q () l v) (hv : Room site tenant q i v) :
    safe (backupTeam site) (counting tenant q) i Q (fun _ _ _ => True)
      (Backup.insertRow (newRow site i target instanceType)) l v := by
  refine safe_answer (c := BackupCall.insertRow (newRow site i target instanceType))
    (fun _ _ hv h => Room.spared h hv) (fun v o hv hok => ?_) hv
  unfold answer
  dsimp only
  split_ifs with hthere
  · exact ⟨OwnRow.refl tenant q i v, trivial, trivial⟩
  · have hroom : (site.run i).tenantId = some tenant → liveCount tenant v + 1 ≤ q := by
      intro htenant
      exact (hv htenant).2 (hok htenant).symm
    refine ⟨reply_ownRow ?_, met_reply (v := v) (o := o) trivial trivial (hQ _ ?_)⟩
    · refine insertRow_ownRow rfl (fun ht => ?_) (fun ht => ?_) hroom
      · rw [ht]
        exact Function.update_self _ _ _
      · cases hrow : (newRow site i target instanceType).tenantId with
        | none => rfl
        | some t =>
          refine Function.update_of_ne (fun heq => ht ?_) _ _
          rw [hrow, heq]
    · -- No row had the run's id, and its own was just made.
      intro r hr hid
      rcases mem_append.mp hr with hr | hr
      · refine absurd ?_ hthere
        exact any_eq_true.mpr ⟨r, hr, decide_eq_true hid⟩
      · rw [mem_singleton.mp hr]
        exact BackupState.noConfusion

theorem safe_markReady (size : ℕ) (transport : String) (hv : Alive i v) :
    safe (backupTeam site) (counting tenant q) i (fun _ _ _ => True) (fun _ _ _ => True)
      (Backup.markReady size transport) l v := by
  refine safe_answer (c := BackupCall.markReady size transport) (fun _ _ hv h => Alive.spared h hv)
    (fun v o hv _ => ?_) hv
  have hready : OwnRow tenant q i v ((v.update i fun r =>
      { r with state := .ready, sizeBytes := some size, transport := transport }).note i fun h =>
        { h with marked := true }) :=
    update_ownRow (fun _ => rfl) (fun _ => rfl) fun r hr hid _ => hv r hr hid
  exact ⟨reply_ownRow hready, met_reply (v := v) (o := o) trivial trivial trivial⟩

theorem safe_makeAndStore (hv : Room site tenant q i v) :
    safe (backupTeam site) (counting tenant q) i (fun _ _ _ => True) (fun _ _ _ => True)
      (makeAndStore site i target) l v := by
  unfold makeAndStore
  rw [safe_bind]
  have hread : Maintains (backupTeam site) (counting tenant q) i (Room site tenant q i)
      (Backup.readInstance (site.run i).payload.project (site.run i).payload.instanceName) :=
    maintains_room fun v o => ⟨_, rfl⟩
  refine hread.safe hv (fun inst l v hv => ?_) (fun _ _ _ _ => trivial)
  rw [safe_bind]
  cases inst with
  | none => exact trivial
  | some instanceType =>
    rw [Option.elim, safe_pure, safe_bind]
    refine safe_insertRow instanceType (fun v hv => ?_) hv
    rw [safe_bind, safe_assign, safe_bind]
    refine (maintains_alive (c := .server) rfl).safe hv (fun extensions l v hv => ?_)
      (fun _ _ _ _ => trivial)
    rw [safe_bind]
    refine (maintains_transfer extensions).safe hv (fun r l v hv => ?_) (fun _ _ _ _ => trivial)
    obtain ⟨size, transport⟩ := r
    refine safe_seq (safe_markReady size transport hv) fun _ l v _ => ?_
    rw [safe_bind]
    exact maintains_applyRetention.safe trivial (fun _ _ _ h => h) (fun _ _ _ _ => trivial)

theorem safe_backupHandler (hq : (site.quotas tenant).backups = some q) :
    safe (backupTeam site) (counting tenant q) i (fun _ _ _ => True) (fun _ _ _ => True)
      (backupHandler site i) l v := by
  have hdrop : Maintains (backupTeam site) (counting tenant q) i (fun _ => True)
      (Backup.orIgnore (Backup.dropLocal (localName site i))) :=
    maintains_orIgnore (maintains_any rfl)
  unfold backupHandler
  rw [safe_bind]
  refine (maintains_any (c := .selectTarget _) rfl).safe trivial (fun target l v _ => ?_)
    (fun _ _ _ h => h)
  cases target with
  | none => exact trivial
  | some target =>
    show safe _ _ _ _ _ (backUp site i target) l v
    unfold backUp
    rw [safe_bind, safe_when]
    split_ifs
    · exact trivial
    · refine safe_seq (safe_checkQuota hq) fun _ l v hv => ?_
      rw [safe_bind]
      have hclient : Maintains (backupTeam site) (counting tenant q) i (Room site tenant q i)
          (Backup.clientFor (site.run i).payload.clusterId) := maintains_room fun v o => ⟨_, rfl⟩
      refine hclient.safe hv (fun _ l v hv => ?_) (fun _ _ _ _ => trivial)
      rw [safe_andFinally, safe_tryCatch]
      refine safe_mono
        (fun _ l v _ => hdrop.safe trivial (fun _ _ _ h => h) (fun _ _ _ h => h))
        (fun e l v _ => ?_) (safe_makeAndStore hv)
      rw [safe_bind]
      exact (maintains_cleanUp e).safe trivial
        (fun _ l v _ => hdrop.safe trivial (fun _ _ _ h => h) (fun _ _ _ h => h))
        (fun _ l v _ => hdrop.safe trivial (fun _ _ _ h => h) (fun _ _ _ h => h))

end Run

/-! ### Every run -/

def allRuns (site : BackupSite) (v : Vault) :
    Procs String BackupCall BackupCall.Answer JobError Vault
      (Except JobError BackupResult × BackupFlags) :=
  ⟨v, fun i => backupHandler site i ⟨false⟩⟩

theorem sound_allRuns (hq : (site.quotas tenant).backups = some q) (v : Vault) :
    Team.Sound (backupTeam site) (counting tenant q) (fun _ _ _ => True) (allRuns site v) := by
  refine ⟨trivial, fun i => ?_⟩
  have hsafe : safe (backupTeam site) (counting tenant q) i (fun _ _ _ => True)
      (fun _ _ _ => True) (backupHandler site i) ⟨false⟩ v := safe_backupHandler hq
  exact Prog.safe_mono (fun _ _ _ => trivial) hsafe

/-- Once a tenant's backups are within its quota they stay so, if no other run of the tenant inserts
its row between a run's count and its insert. -/
theorem backup_count_within_quota {site : BackupSite} {tenant : String} {q : ℕ}
    (hq : (site.quotas tenant).backups = some q) {v : Vault}
    {s t : Procs String BackupCall BackupCall.Answer JobError Vault
      (Except JobError BackupResult × BackupFlags)}
    (hs : Run (backupTeam site).step (okStep (countIsCurrent tenant) fun _ _ => True)
      (allRuns site v) s)
    (ht : Run (backupTeam site).step (okStep (countIsCurrent tenant) fun _ _ => True) s t)
    (hwithin : liveCount tenant s.world ≤ q) : liveCount tenant t.world ≤ q := by
  have hsound : Team.Sound (backupTeam site) (counting tenant q) (fun _ _ _ => True) s :=
    Team.run_safe (P := counting tenant q) compatible_counting (fun _ _ _ _ _ _ => trivial)
      (sound_allRuns hq v) hs
  -- From there on every step keeps the programs safe, and the count within the quota.
  have hkept : Team.Sound (backupTeam site) (counting tenant q) (fun _ _ _ => True) t ∧
      liveCount tenant t.world ≤ q := by
    refine ht.invariant (I := fun t => Team.Sound (backupTeam site) (counting tenant q)
      (fun _ _ _ => True) t ∧ liveCount tenant t.world ≤ q) ⟨hsound, hwithin⟩ ?_
    rintro t a u ⟨hsound, hwithin⟩ hok hstep
    cases a with
    | call i o =>
      have hnext := Team.Sound.call (P := counting tenant q) hsound compatible_counting
        (fun _ _ _ _ _ _ => trivial) hok hstep
      exact ⟨hnext.1, hnext.2.within hwithin⟩
    | outside r =>
      refine ⟨hsound.outside (P := counting tenant q) compatible_counting (fun _ _ _ _ _ _ => trivial)
        trivial hstep, ?_⟩
      obtain rfl := some.inj hstep
      have hgone : liveCount tenant { t.world with rows := t.world.rows.filter (·.id ≠ r) } ≤
          liveCount tenant t.world := liveCount_filter
      exact hgone.trans hwithin
  exact hkept.2

/-! ### Two backups of one tenant -/

def twoBackups : BackupSite :=
  { isUrl := fun _ => true, target := fun t => if t = "s3" then some s3 else none
    quotas := fun _ => ⟨some 1, none⟩
    run := fun _ =>
      { jobId := "7b1e52c4-6a0d", tenantId := some "acme", actorType := .system, actorId := "backups"
        payload := ⟨"lab", "acme", "web", "s3", false, .relay, none⟩
        stamp := "20261001T020000Z", polls := 0 } }

/-- The first run counts and inserts its row; then the second counts, and ends. -/
theorem second_backup_is_refused :
    ∃ s t, Run (backupTeam twoBackups).step (okStep (countIsCurrent "acme") fun _ _ => True)
        (allRuns twoBackups emptyVault) s ∧
      Run (backupTeam twoBackups).step (okStep (countIsCurrent "acme") fun _ _ => True) s t ∧
      liveCount "acme" s.world = 1 ∧ (t.progs "2").returned.isSome ∧ liveCount "acme" t.world ≤ 1 := by
  have hexec : ((Run.exec (backupTeam twoBackups).step (okStep (countIsCurrent "acme") fun _ _ => True)
      (allRuns twoBackups emptyVault) (List.replicate 6 (.call "1" well))).map fun s =>
        (liveCount "acme" s.world, (Run.exec (backupTeam twoBackups).step
          (okStep (countIsCurrent "acme") fun _ _ => True) s (List.replicate 3 (.call "2" well))).map
          fun t => (t.progs "2").returned.isSome)) = some (1, some true) := by
    decide
  obtain ⟨s, hs, hview⟩ := map_eq_some_iff.mp hexec
  obtain ⟨hone, hthen⟩ := Prod.mk.inj hview
  obtain ⟨t, ht, hret⟩ := map_eq_some_iff.mp hthen
  have hrun := Run.of_exec .refl hs
  have hrun' := Run.of_exec .refl ht
  exact ⟨s, t, hrun, hrun', hone, hret, backup_count_within_quota rfl hrun hrun' (Nat.le_of_eq hone)⟩

/-- Both count before either inserts: two backups where one is allowed. -/
theorem two_backups_where_one_is_allowed :
    ∃ t, Run (backupTeam twoBackups).step (okStep (fun _ _ _ => True) fun _ _ => True)
        (allRuns twoBackups emptyVault) t ∧
      liveCount "acme" emptyVault ≤ 1 ∧ ¬ liveCount "acme" t.world ≤ 1 := by
  have hexec : ((Run.exec (backupTeam twoBackups).step (okStep (fun _ _ _ => True) fun _ _ => True)
      (allRuns twoBackups emptyVault) (List.replicate 5 (.call "1" well) ++
        List.replicate 5 (.call "2" well) ++ [.call "1" well, .call "2" well])).map fun s =>
        liveCount "acme" s.world) = some 2 := by
    decide
  obtain ⟨t, ht, hcount⟩ := map_eq_some_iff.mp hexec
  refine ⟨t, Run.of_exec .refl ht, by decide, ?_⟩
  rw [hcount]
  decide

end IncusCloud.Backups
