import IncusCloud.Backups.Backup

/-!
# Retention keeps the newest backups

`pruneBackups` on any table. `deletions` says which outcome each call of its loop gets; what the
loop has done is read off it (`PrunedBy`), one row after the other. A deletion that fails may still
have taken effect: the row is then gone and not counted, and `retention_keeps_the_newest_iff` says
that this and a shared object are all that goes wrong.
-/

namespace IncusCloud.Backups

open Lib Handler List
open Mobility (JobError)

def objectOf (b : BackupRow) : String × String := (b.targetId, b.objectKey)

abbrev Logbook := Vault × List (Entry BackupCall)

/-- The row's deletion was asked for right after its object's had returned. -/
def DeletedIn (b : BackupRow) (log : List (Entry BackupCall)) : Prop :=
  ∃ before ok after, log =
    before ++ (.deleteObject b.targetId b.objectKey, true) :: (.deleteRow b.id, ok) :: after

variable {b : BackupRow}

theorem DeletedIn.append_right {log : List (Entry BackupCall)} (h : DeletedIn b log)
    (more : List (Entry BackupCall)) : DeletedIn b (log ++ more) := by
  obtain ⟨before, ok, after, rfl⟩ := h
  exact ⟨before, ok, after ++ more, by simp⟩

theorem DeletedIn.append_left {log : List (Entry BackupCall)} (h : DeletedIn b log)
    (more : List (Entry BackupCall)) : DeletedIn b (more ++ log) := by
  obtain ⟨before, ok, after, rfl⟩ := h
  exact ⟨more ++ before, ok, after, by simp⟩

/-! ### What the outcomes do -/

/-- The call took effect, whether or not it returned. -/
def BackupOutcome.tookEffect (o : BackupOutcome) : Bool := !o.fails || o.took

/-- How the deletions for one row go; its own is asked for when its object's has returned. -/
structure Deletion where
  row : BackupRow
  object : BackupOutcome
  own : Option BackupOutcome

namespace Deletion

def gone (d : Deletion) : Bool := d.own.any (·.tookEffect)

def counted (d : Deletion) : Bool := d.own.any fun o => !o.fails

/-- The row's deletion took effect and failed. -/
def uncounted (d : Deletion) : Bool := d.own.any fun o => o.fails && o.took

theorem gone_eq (d : Deletion) :
    (if d.gone then 1 else 0) = (if d.counted then 1 else 0) + if d.uncounted then 1 else 0 := by
  unfold gone counted uncounted BackupOutcome.tookEffect
  cases d.own with
  | none => rfl
  | some o => cases hf : o.fails <;> cases ht : o.took <;> simp [hf, ht]

end Deletion

/-- The deletions of the loop, when its calls go as `os` says. -/
def deletions : List BackupRow → List BackupOutcome → List Deletion
  | b :: rest, o :: os =>
    if o.fails then ⟨b, o, none⟩ :: deletions rest os
    else ⟨b, o, os.head?⟩ :: deletions rest os.tail
  | _, _ => []

def goneRows (ds : List Deletion) : List BackupRow := (ds.filter (·.gone)).map (·.row)

def goneObjects (ds : List Deletion) : List (String × String) :=
  (ds.filter (·.object.tookEffect)).map fun d => objectOf d.row

@[simp]
theorem goneRows_append (ds ds' : List Deletion) :
    goneRows (ds ++ ds') = goneRows ds ++ goneRows ds' := by
  simp [goneRows]

@[simp]
theorem goneObjects_append (ds ds' : List Deletion) :
    goneObjects (ds ++ ds') = goneObjects ds ++ goneObjects ds' := by
  simp [goneObjects]

theorem goneRows_sublist (ds : List Deletion) : (goneRows ds).Sublist (ds.map (·.row)) :=
  filter_sublist.map _

/-- A row that went was counted, or its deletion failed late. -/
theorem countP_gone (ds : List Deletion) :
    (goneRows ds).length = ds.countP (·.counted) + ds.countP (·.uncounted) := by
  unfold goneRows
  rw [length_map, ← countP_eq_length_filter]
  induction ds with
  | nil => rfl
  | cons d ds ih =>
    rw [countP_cons, countP_cons, countP_cons, ih, d.gone_eq]
    omega

/-- What the deletions `ds` have done. -/
structure PrunedBy (ds : List Deletion) (s s' : Logbook) : Prop where
  rows_eq : s'.1.rows = s.1.rows.filter fun r => r.id ∉ (goneRows ds).map (·.id)
  objects : ∀ x, x ∈ s'.1.objects ↔ x ∈ s.1.objects ∧ x ∉ goneObjects ds
  log : ∃ added, s'.2 = s.2 ++ added ∧ (∀ b ∈ goneRows ds, DeletedIn b added) ∧
    ((∀ e ∈ added, e.2 = true) → ∀ d ∈ ds, d.gone = true)

theorem PrunedBy.refl (s : Logbook) : PrunedBy [] s s := by
  refine ⟨?_, fun x => ?_, [], (append_nil _).symm, fun b hb => ?_, fun _ d hd => ?_⟩
  · simp [goneRows]
  · simp [goneObjects]
  · exact absurd hb not_mem_nil
  · exact absurd hd not_mem_nil

theorem PrunedBy.trans {ds ds' : List Deletion} {s s' s'' : Logbook} (h : PrunedBy ds s s')
    (h' : PrunedBy ds' s' s'') : PrunedBy (ds ++ ds') s s'' := by
  obtain ⟨added, hlog, hdeleted, hall⟩ := h.log
  obtain ⟨added', hlog', hdeleted', hall'⟩ := h'.log
  refine ⟨?_, fun x => ?_, added ++ added', ?_, fun b hb => ?_, fun hok d hd => ?_⟩
  · rw [h'.rows_eq, h.rows_eq, filter_filter]
    apply filter_congr
    intro r _
    rw [goneRows_append, map_append]
    by_cases h1 : r.id ∈ (goneRows ds).map (·.id) <;> simp [h1, mem_append]
  · rw [h'.objects, h.objects, goneObjects_append, mem_append, not_or, and_assoc]
  · rw [hlog', hlog, append_assoc]
  · rw [goneRows_append] at hb
    rcases mem_append.mp hb with hb | hb
    · exact (hdeleted b hb).append_right added'
    · exact (hdeleted' b hb).append_left added
  · rcases mem_append.mp hd with hd | hd
    · exact hall (fun e he => hok e (mem_append_left _ he)) d hd
    · exact hall' (fun e he => hok e (mem_append_right _ he)) d hd

section

variable {site : BackupSite} {id : String} {l l' : BackupFlags} {s s' : Logbook}
  {r : Except JobError (ℕ × List String)} {os : List BackupOutcome}

variable {o : BackupOutcome}

theorem logged_reply {c : BackupCall} {done : c.Answer × Vault}
    (hc : answer site id c s.1 o = s.1.reply o done) :
    (backupWorld site id).logged.answer c s o =
      (if o.fails then .error .failed else .ok done.1, if o.tookEffect then done.2 else s.1,
      s.2 ++ [(c, !o.fails)]) := by
  have hanswer : (backupWorld site id).answer c s.1 o = s.1.reply o done := hc
  unfold World.logged
  dsimp only
  rw [hanswer]
  unfold Vault.reply BackupOutcome.tookEffect
  cases o.fails <;> cases o.took <;> rfl

variable {v : Vault}

theorem mem_objects_left {made : Option BackupOutcome} {own : Bool}
    {x : String × String} :
    x ∈ (if o.tookEffect then v.drop b.targetId b.objectKey id own else v).objects ↔
      x ∈ v.objects ∧ x ∉ goneObjects [⟨b, o, made⟩] := by
  unfold goneObjects
  cases ho : o.tookEffect with
  | false => simp [ho]
  | true =>
    rw [filter_cons_of_pos (by exact ho)]
    exact mem_filter.trans (and_congr_right fun _ => by simp [objectOf])

/-- The object's deletion failed: its row's is not asked for. -/
theorem prunedBy_object {own : Bool} :
    PrunedBy [⟨b, o, none⟩] s
      (if o.tookEffect then s.1.drop b.targetId b.objectKey id own else s.1,
        s.2 ++ [(.deleteObject b.targetId b.objectKey, false)]) := by
  refine ⟨?_, fun x => mem_objects_left, _, rfl, fun _ hb => absurd hb not_mem_nil, fun hok => ?_⟩
  · cases o.tookEffect <;> simp [goneRows, Deletion.gone, Vault.drop, Vault.note]
  · exact absurd (hok _ (mem_singleton_self _)) (by simp)

/-- The object's deletion returned, and the row's went as `made` says. -/
theorem prunedBy_row {own : Bool} (made : BackupOutcome)
    (hv : v = if o.tookEffect then s.1.drop b.targetId b.objectKey id own else s.1) :
    PrunedBy [⟨b, o, some made⟩] s
      (if made.tookEffect then { v with rows := v.rows.filter (·.id ≠ b.id) } else v,
        s.2 ++ [(.deleteObject b.targetId b.objectKey, true)] ++
        [(.deleteRow b.id, !made.fails)]) := by
  have hrows : v.rows = s.1.rows := by
    rw [hv]
    split <;> rfl
  refine ⟨?_, fun x => ?_, _, append_assoc _ _ _, fun b' hb => ?_, fun hok d hd => ?_⟩
  · cases hmade : made.tookEffect <;> simp [goneRows, Deletion.gone, hmade, hrows]
  · have hobjects :
      (if made.tookEffect then { v with rows := v.rows.filter (·.id ≠ b.id) } else v).objects =
        v.objects := by split <;> rfl
    rw [hobjects, hv]
    exact mem_objects_left
  · obtain rfl := mem_singleton.mp ((goneRows_sublist _).subset hb)
    exact ⟨[], _, [], rfl⟩
  · obtain rfl := mem_singleton.mp hd
    have hmade := hok (.deleteRow b.id, !made.fails) (by simp)
    simp only [Bool.not_eq_true'] at hmade
    simp [Deletion.gone, BackupOutcome.tookEffect, hmade]

def sumUp (failed : Option String) (p : ℕ × List String) : ℕ × List String :=
  failed.elim (p.1 + 1, p.2) fun e => (p.1, e :: p.2)

/-- The loop goes on, and counts the row when nothing failed. -/
def goOn (rest : List BackupRow) (failed : Option String) : Backup (ℕ × List String) := do
  let (pruned, errors) ← pruneRows rest
  pure (failed.elim (pruned + 1, errors) fun e => (pruned, e :: errors))

theorem pruneRows_cons (b : BackupRow) (rest : List BackupRow) (l : BackupFlags) :
    pruneRows (b :: rest) l =
      .call (BackupCall.deleteObject b.targetId b.objectKey) fun
        | .error e => goOn rest (some (b.objectKey ++ ": " ++ messageOf e)) l
        | .ok _ => .call (BackupCall.deleteRow b.id) fun
          | .error e => goOn rest (some (b.objectKey ++ ": " ++ messageOf e)) l
          | .ok _ => goOn rest none l := by
  refine congrArg (Prog.call _) (funext fun r => ?_)
  cases r with
  | error e => rfl
  | ok _ =>
    refine congrArg (Prog.call _) (funext fun r => ?_)
    cases r <;> rfl

theorem result_goOn {rest : List BackupRow} {failed : Option String}
    {env : World BackupCall _ JobError Logbook _}
    (hrun : (goOn rest failed l).result env s os = some ((r, l'), s')) :
    ∃ r₀, (pruneRows rest l).result env s os = some ((r₀, l'), s') ∧
      r = r₀.map (sumUp failed) := by
  have hmap : (goOn rest failed l).result env s os =
    ((pruneRows rest l).result env s os).map fun x =>
      ((x.1.1.map (sumUp failed), x.1.2), x.2) := result_map (fun _ => rfl) (pruneRows rest) l s os
  rw [hmap] at hrun
  simp only [Option.map_eq_some_iff, Prod.mk.injEq] at hrun
  obtain ⟨⟨⟨r₀, l₀⟩, s₀⟩, hrun, ⟨rfl, rfl⟩, rfl⟩ := hrun
  exact ⟨r₀, hrun, rfl⟩

theorem result_pruneRows (rows : List BackupRow)
    (hrun : (pruneRows rows l).result (backupWorld site id).logged s os = some ((r, l'), s')) :
    ∃ pruned errors, r = .ok (pruned, errors) ∧ pruned = (deletions rows os).countP (·.counted) ∧
      (deletions rows os).map (·.row) = rows ∧ PrunedBy (deletions rows os) s s' := by
  induction rows generalizing l s os r with
  | nil =>
    obtain ⟨hr, rfl⟩ := Prod.mk.inj (Option.some.inj hrun)
    obtain ⟨rfl, -⟩ := Prod.mk.inj hr
    exact ⟨0, [], rfl, rfl, rfl, PrunedBy.refl _⟩
  | cons b rest ih =>
    cases os with
    | nil => cases hrun
    | cons o os =>
      obtain ⟨own, hown⟩ : ∃ own, answer site id (.deleteObject b.targetId b.objectKey) s.1 o =
          s.1.reply o ((), s.1.drop b.targetId b.objectKey id own) := ⟨_, rfl⟩
      unfold deletions
      rw [pruneRows_cons, Prog.result, logged_reply hown] at hrun
      cases hf : o.fails with
      | true =>
        rw [hf] at hrun
        obtain ⟨r₀, hrest, rfl⟩ := result_goOn hrun
        obtain ⟨pruned, errors, rfl, hcount, hrows, hpruned⟩ := ih hrest
        refine ⟨_, _, rfl, hcount, congrArg (b :: ·) hrows, prunedBy_object.trans hpruned⟩
      | false =>
        rw [hf] at hrun
        cases os with
        | nil => cases hrun
        | cons made os =>
          generalize hv : (if o.tookEffect then s.1.drop b.targetId b.objectKey id own else s.1) =
            v at hrun
          have hrow : answer site id (.deleteRow b.id) v made =
              v.reply made ((), { v with rows := v.rows.filter (·.id ≠ b.id) }) := rfl
          have hrun : Prog.result _ (Prog.call (BackupCall.deleteRow b.id) _) (v, _)
            (made :: os) = _ := hrun
          rw [Prog.result, logged_reply hrow] at hrun
          have hone := prunedBy_row made hv.symm
          cases hmade : made.fails with
          | true =>
            rw [hmade] at hrun hone
            obtain ⟨r₀, hrest, rfl⟩ := result_goOn hrun
            obtain ⟨pruned, errors, rfl, hcount, hrows, hpruned⟩ := ih hrest
            refine ⟨_, _, rfl, ?_, congrArg (b :: ·) hrows, hone.trans hpruned⟩
            show pruned = countP _ (_ :: _)
            rw [countP_cons_of_neg (by simp [Deletion.counted, hmade]), hcount]
            rfl
          | false =>
            rw [hmade] at hrun hone
            obtain ⟨r₀, hrest, rfl⟩ := result_goOn hrun
            obtain ⟨pruned, errors, rfl, hcount, hrows, hpruned⟩ := ih hrest
            refine ⟨_, _, rfl, ?_, congrArg (b :: ·) hrows, hone.trans hpruned⟩
            show pruned + 1 = countP _ (_ :: _)
            rw [countP_cons_of_pos (by simp [Deletion.counted, hmade]), hcount]
            rfl

end

/-! ### The rows that may go -/

def newestFirst (v : Vault) (policy : String) : List BackupRow :=
  (v.rows.filter fun r => r.policyId = some policy ∧ r.state = .ready).reverse

theorem mem_newestFirst {policy : String} :
    b ∈ newestFirst v policy ↔ b ∈ v.rows ∧ b.policyId = some policy ∧ b.state = .ready := by
  simp [newestFirst]

/-- A table of backups: the rows are told apart by their ids and by when they were made. -/
structure Table (createdAt : BackupRow → ℕ) (v : Vault) : Prop where
  ids : (v.rows.map (·.id)).Nodup
  made : v.rows.Pairwise fun a b => createdAt a < createdAt b

def newerThan (createdAt : BackupRow → ℕ) (v : Vault) (policy : String) (b : BackupRow) :
    List BackupRow :=
  (newestFirst v policy).filter fun r => createdAt b < createdAt r

/-- What retention is to leave alone: what is not ready, what is another policy's or none's, and the
newest ones. -/
structure Spared (createdAt : BackupRow → ℕ) (v : Vault) (policy : PolicyRow) (b : BackupRow) :
    Prop where
  mem : b ∈ v.rows
  why : b.state ≠ .ready ∨ b.policyId ≠ some policy.id ∨
    (newerThan createdAt v policy.id b).length < policy.keep

section

variable {createdAt : BackupRow → ℕ} {v : Vault} {policy : String} {keep : ℕ} {b : BackupRow}

theorem extra_eq : v.extra policy keep = (newestFirst v policy).drop keep := rfl

theorem mem_rows_of_extra (hb : b ∈ v.extra policy keep) : b ∈ v.rows :=
  (mem_newestFirst.mp (mem_of_mem_drop hb)).1

theorem newer_of_extra (h : Table createdAt v) (hb : b ∈ v.extra policy keep) :
    keep ≤ (newerThan createdAt v policy b).length := by
  have hfalls : (newestFirst v policy).Pairwise fun a b => createdAt b < createdAt a :=
    pairwise_reverse.mpr (h.made.sublist filter_sublist)
  have hsplit := take_append_drop keep (newestFirst v policy)
  rw [← hsplit, pairwise_append] at hfalls
  have hlong : keep < (newestFirst v policy).length := by
    by_contra hshort
    rw [extra_eq, drop_eq_nil_of_le (Nat.le_of_not_lt hshort)] at hb
    cases hb
  have hnewer : ((newestFirst v policy).take keep).filter (fun r => createdAt b < createdAt r) =
      (newestFirst v policy).take keep := by
    rw [filter_eq_self]
    intro r hr
    exact decide_eq_true (hfalls.2.2 r hr b hb)
  calc keep = ((newestFirst v policy).take keep).length := by
        rw [length_take]
        omega
    _ = (((newestFirst v policy).take keep).filter fun r =>
      createdAt b < createdAt r).length := by rw [hnewer]
    _ ≤ _ := ((take_sublist keep _).filter _).length_le

theorem Spared.not_mem_extra {policy : PolicyRow} (h : Table createdAt v)
    (hb : Spared createdAt v policy b) :
    b ∉ v.extra policy.id policy.keep := by
  intro hmem
  obtain ⟨-, hpolicy, hready⟩ := mem_newestFirst.mp (mem_of_mem_drop hmem)
  have hnewer := newer_of_extra h hmem
  rcases hb.why with hstate | hother | hnew
  · exact hstate hready
  · exact hother hpolicy
  · omega

/-! ### What is left -/

variable {s s' : Logbook} {ds : List Deletion}

theorem mem_rows_of_gone (hd : ds.map (·.row) = v.extra policy keep) (hb : b ∈ goneRows ds) :
    b ∈ v.rows :=
  mem_rows_of_extra (hd ▸ (goneRows_sublist ds).subset hb)

theorem PrunedBy.row_left (h : PrunedBy ds s s') (hd : ds.map (·.row) = v.extra policy keep)
    (hs : s.1 = v)
    (ht : Table createdAt v) (hb : b ∈ v.rows) (hnot : b ∉ v.extra policy keep) :
      b ∈ s'.1.rows := by
  rw [h.rows_eq, hs, mem_filter]
  refine ⟨hb, decide_eq_true ?_⟩
  intro hgone
  obtain ⟨g, hg, hid⟩ := List.mem_map.mp hgone
  rw [inj_on_of_nodup_map ht.ids (mem_rows_of_gone hd hg) hb hid] at hg
  exact hnot (hd ▸ (goneRows_sublist ds).subset hg)

theorem PrunedBy.of_removed (h : PrunedBy ds s s') (hd : ds.map (·.row) = v.extra policy keep)
    (hs : s.1 = v)
    (ht : Table createdAt v) (hb : b ∈ v.rows) (hnot : b ∉ s'.1.rows) : b ∈ goneRows ds := by
  rw [h.rows_eq, hs, mem_filter, not_and] at hnot
  have hid := hnot hb
  rw [decide_eq_true_eq, not_not] at hid
  obtain ⟨g, hg, hid⟩ := List.mem_map.mp hid
  rwa [← inj_on_of_nodup_map ht.ids (mem_rows_of_gone hd hg) hb hid]

theorem PrunedBy.count (h : PrunedBy ds s s') (hd : ds.map (·.row) = v.extra policy keep)
    (hs : s.1 = v)
    (ht : Table createdAt v) : (goneRows ds).length + s'.1.rows.length = v.rows.length := by
  have hsub : (goneRows ds).Sublist (newestFirst v policy) :=
    (hd ▸ goneRows_sublist ds).trans (drop_sublist _ _)
  have hnodup : (goneRows ds).Nodup := by
    refine List.Nodup.sublist hsub ?_
    exact nodup_reverse.mpr (ht.ids.of_map.filter _)
  have hperm : (v.rows.filter fun r => r.id ∈ (goneRows ds).map (·.id)).Perm (goneRows ds) := by
    rw [perm_ext_iff_of_nodup (ht.ids.of_map.filter _) hnodup]
    intro r
    rw [mem_filter, decide_eq_true_eq]
    constructor
    · rintro ⟨hr, hid⟩
      obtain ⟨g, hg, hid⟩ := List.mem_map.mp hid
      rwa [← inj_on_of_nodup_map ht.ids (mem_newestFirst.mp (hsub.subset hg)).1 hr hid]
    · intro hr
      exact ⟨(mem_newestFirst.mp (hsub.subset hr)).1, mem_map_of_mem hr⟩
  have hsplit := length_eq_length_filter_add (l := v.rows) fun r => r.id ∈ (goneRows ds).map (·.id)
  rw [hperm.length_eq] at hsplit
  rw [h.rows_eq, hs, hsplit]
  simp only [decide_not]

theorem PrunedBy.newest (h : PrunedBy ds s s') (hall : goneRows ds = v.extra policy keep)
    (hs : s.1 = v)
    (ht : Table createdAt v) : newestFirst s'.1 policy = (newestFirst v policy).take keep := by
  have hfilter : newestFirst s'.1 policy =
      (newestFirst v policy).filter fun r => r.id ∉ (v.extra policy keep).map (·.id) := by
    unfold newestFirst
    rw [h.rows_eq, hall, hs, filter_filter, filter_reverse, filter_filter]
    simp only [Bool.and_comm]
  have hids : ((newestFirst v policy).map (·.id)).Nodup := by
    unfold newestFirst
    rw [map_reverse, nodup_reverse]
    exact ht.ids.sublist (filter_sublist.map _)
  have hsplit := take_append_drop keep (newestFirst v policy)
  rw [← hsplit, map_append, nodup_append] at hids
  rw [hfilter]
  conv_lhs => rw [← hsplit, filter_append]
  have htake : ((newestFirst v policy).take keep).filter (fun r =>
    r.id ∉ (v.extra policy keep).map (·.id)) = (newestFirst v policy).take keep := by
    rw [filter_eq_self]
    intro r hr
    refine decide_eq_true fun hmem => ?_
    exact hids.2.2 _ (mem_map_of_mem hr) _ hmem rfl
  have hdrop : ((newestFirst v policy).drop keep).filter (fun r =>
    r.id ∉ (v.extra policy keep).map (·.id)) = [] := by
    rw [filter_eq_nil_iff]
    intro r hr
    simpa using ⟨r, hr, rfl⟩
  rw [htake, hdrop, append_nil]

end

/-! ### `pruneBackups` -/

/-- The deletions `pruneBackups` asks for; none when its select fails. -/
def prunings (v : Vault) (policy : PolicyRow) : List BackupOutcome → List Deletion
  | [] => []
  | o :: os => if o.fails then [] else deletions (v.extra policy.id policy.keep) os

theorem result_pruneBackups {site : BackupSite} {id : String} {policy : PolicyRow}
    {l l' : BackupFlags}
    {os : List BackupOutcome} {r : Except JobError (ℕ × List String)} {s' : Logbook}
    (hrun : (pruneBackups policy l).result (backupWorld site id).logged (v, []) os =
      some ((r, l'), s')) :
    (∃ e, r = .error e ∧ prunings v policy os = [] ∧
      s' = (v, [(.selectExtra policy.id policy.keep, false)])) ∨
      ∃ pruned errors, r = .ok (pruned, errors) ∧
        pruned = (prunings v policy os).countP (·.counted) ∧
        (prunings v policy os).map (·.row) = v.extra policy.id policy.keep ∧
        PrunedBy (prunings v policy os) (v, [(.selectExtra policy.id policy.keep, true)]) s' := by
  cases os with
  | nil => cases hrun
  | cons o os =>
    have hanswer : (backupWorld site id).answer (.selectExtra policy.id policy.keep) v o =
      v.silent o (v.extra policy.id policy.keep) := rfl
    have hrun : Prog.result _ (Prog.call (BackupCall.selectExtra policy.id policy.keep) _) (v, [])
      (o :: os) = _ := hrun
    unfold Prog.result World.logged at hrun
    dsimp only at hrun
    rw [hanswer] at hrun
    unfold Vault.silent at hrun
    have hp : prunings v policy (o :: os) =
        if o.fails then [] else deletions (v.extra policy.id policy.keep) os := rfl
    rw [hp]
    cases hf : o.fails with
    | true =>
      rw [hf] at hrun
      obtain ⟨hr, rfl⟩ := Prod.mk.inj (Option.some.inj hrun)
      exact .inl ⟨_, (Prod.mk.inj hr).1.symm, rfl, rfl⟩
    | false =>
      rw [hf] at hrun
      exact .inr (result_pruneRows _ hrun)

/-- What `pruneBackups` is to do to a table, however its deletions go: the newest backups, those
that are not ready and those of others keep their row and their object, a row goes only after its
object's deletion returned, the count is of the rows that went, and where nothing failed the newest
ones are left. -/
def RetentionHolds (createdAt : BackupRow → ℕ) (policy : PolicyRow) (v v' : Vault)
    (log : List (Entry BackupCall))
    (r : Except JobError (ℕ × List String)) : Prop :=
  (∀ b, Spared createdAt v policy b → b ∈ v'.rows ∧
    (objectOf b ∈ v.objects → objectOf b ∈ v'.objects)) ∧
    (∀ b ∈ v.rows, b ∉ v'.rows → DeletedIn b log) ∧
    (∀ pruned errors, r = .ok (pruned, errors) → pruned + v'.rows.length = v.rows.length) ∧
    ((∀ e ∈ log, e.2 = true) → newestFirst v' policy.id =
      (newestFirst v policy.id).take policy.keep)

/-- No row's deletion fails after it took effect, and no object that goes is one that a spared row
names too. -/
structure NothingLost (createdAt : BackupRow → ℕ) (policy : PolicyRow) (v : Vault)
    (os : List BackupOutcome) :
    Prop where
  counted : ∀ d ∈ prunings v policy os, d.uncounted = false
  apart : ∀ d ∈ prunings v policy os, d.object.tookEffect = true → ∀ b,
    Spared createdAt v policy b →
    objectOf b ∈ v.objects → objectOf b ≠ objectOf d.row

/-- What the loop has done keeps the law exactly when nothing is lost. -/
theorem PrunedBy.retention_iff {createdAt : BackupRow → ℕ} {policy : PolicyRow} {v v' : Vault}
    {os : List BackupOutcome} {start log : List (Entry BackupCall)} {pruned : ℕ}
    {errors : List String}
    (ht : Table createdAt v)
      (hd : (prunings v policy os).map (·.row) = v.extra policy.id policy.keep)
    (hcounted : pruned = (prunings v policy os).countP (·.counted))
    (h : PrunedBy (prunings v policy os) (v, start) (v', log)) :
    RetentionHolds createdAt policy v v' log (.ok (pruned, errors)) ↔
      NothingLost createdAt policy v os := by
  have hcount := h.count hd rfl ht
  rw [countP_gone, ← hcounted] at hcount
  obtain ⟨added, hlog, hdeleted, hall⟩ := h.log
  have hlog : log = start ++ added := hlog
  constructor
  · rintro ⟨hspared, -, hpruned, -⟩
    have hzero : (prunings v policy os).countP (·.uncounted) = 0 := by
      have hpruned := hpruned pruned errors rfl
      have hcount : _ + v'.rows.length = _ := hcount
      omega
    refine ⟨fun d hmem => Bool.eq_false_iff.mpr (countP_eq_zero.mp hzero d hmem),
      fun d hmem htook b hb hobject => ?_⟩
    have hleft := ((h.objects _).mp ((hspared b hb).2 hobject)).2
    intro heq
    exact hleft (List.mem_map.mpr ⟨d, mem_filter.mpr ⟨hmem, htook⟩, heq.symm⟩)
  · rintro ⟨hnone, hapart⟩
    refine ⟨fun b hb => ⟨?_, fun hobject => ?_⟩, fun b hb hnot => ?_, fun pruned' errors' heq => ?_,
      fun hok => ?_⟩
    · exact h.row_left hd rfl ht hb.mem (hb.not_mem_extra ht)
    · refine (h.objects _).mpr ⟨hobject, fun hgone => ?_⟩
      obtain ⟨d, hmem, heq⟩ := List.mem_map.mp hgone
      rw [mem_filter] at hmem
      exact hapart d hmem.1 hmem.2 b hb hobject heq.symm
    · rw [hlog]
      exact (hdeleted b (h.of_removed hd rfl ht hb hnot)).append_left _
    · obtain ⟨rfl, -⟩ := Prod.mk.inj (Except.ok.inj heq)
      have hzero : (prunings v policy os).countP (·.uncounted) = 0 :=
        countP_eq_zero.mpr fun d hmem => Bool.eq_false_iff.mp (hnone d hmem)
      have hcount : _ + v'.rows.length = _ := hcount
      omega
    · have hgone := hall fun e he => hok e (by rw [hlog]; exact mem_append_right _ he)
      refine h.newest ?_ rfl ht
      rw [goneRows, filter_eq_self.mpr hgone, hd]

/-- Retention keeps the law exactly where no answer of a row's deletion is lost, and no object that
goes is shared with a row to be spared. -/
theorem retention_keeps_the_newest_iff (site : BackupSite) (id : String) (createdAt : BackupRow → ℕ)
    (policy : PolicyRow) (v : Vault) (ht : Table createdAt v) (l : BackupFlags)
    (os : List BackupOutcome)
    (r : Except JobError (ℕ × List String)) (l' : BackupFlags) (v' : Vault)
      (log : List (Entry BackupCall))
    (hrun : (pruneBackups policy l).result (backupWorld site id).logged (v, []) os =
      some ((r, l'), (v', log))) :
    RetentionHolds createdAt policy v v' log r ↔ NothingLost createdAt policy v os := by
  rcases result_pruneBackups hrun with ⟨e, rfl, hnone, heq⟩ | ⟨pruned, errors, rfl, hcounted, hd, h⟩
  · obtain ⟨rfl, rfl⟩ := Prod.mk.inj heq
    refine iff_of_true ⟨fun b hb => ⟨hb.mem, fun hobject => hobject⟩, fun b hb hnot =>
      absurd hb hnot, nofun, ?_⟩ ?_
    · exact fun hok => absurd (hok _ (mem_singleton_self _)) (by simp)
    · constructor <;> simp [hnone]
  · exact h.retention_iff ht hd hcounted

def backupOfPolicy (id key : String) : BackupRow :=
  { id := id, tenantId := none, policyId := some "nightly", targetId := "s3", objectKey := key, clusterId := "lab"
    project := "acme", instanceName := "web", instanceType := "container", instanceOnly := false, jobId := id
    createdBy := "system:backups", state := .ready, sizeBytes := some 1, transport := "relay", error := "" }

def twoOfPolicy : Vault :=
  { rows := [backupOfPolicy "1" "one", backupOfPolicy "2" "two"], objects :=
  [("s3", "one"), ("s3", "two")]
    uploading := fun _ => false, inserts := fun _ => 0, history := fun _ => ⟨0, false, false, false⟩ }

def keepOne : PolicyRow := ⟨"nightly", 1, Nat.le_refl 1⟩

def madeInOrder (b : BackupRow) : ℕ := if b.id = "1" then 1 else 2

def anySite : BackupSite :=
  { isUrl := fun _ => true, target := fun _ => none, quotas := fun _ => ⟨none, none⟩
    run := fun _ => ⟨"", none, .system, "", ⟨"", "", "", "", false, .auto, none⟩, "", 0⟩ }

def goesWell : BackupOutcome :=
  { fails := false, took := true, lands := false, aborted := false, userQuotas := ⟨none, none, none, none⟩
    instanceType := none, extensions := [], policy := none, size := 0 }

theorem tableInOrder : Table madeInOrder twoOfPolicy := ⟨by decide, by decide⟩

theorem nothingLost_goesWell :
    NothingLost madeInOrder keepOne twoOfPolicy [goesWell, goesWell, goesWell] := by
  refine ⟨by decide, fun d hd _ b hb _ => ?_⟩
  obtain rfl := mem_singleton.mp hd
  have hnot := hb.not_mem_extra tableInOrder
  have hcases : b = backupOfPolicy "1" "one" ∨ b = backupOfPolicy "2" "two" := by
    simpa [twoOfPolicy] using hb.mem
  rcases hcases with rfl | rfl
  · exact absurd (by decide) hnot
  · decide

theorem retention_keeps_the_newest_twoOfPolicy :
    ∃ r v' log,
    (pruneBackups keepOne ⟨false⟩).result (backupWorld anySite "1").logged (twoOfPolicy, [])
        [goesWell, goesWell, goesWell] = some ((r, ⟨false⟩), (v', log)) ∧
      RetentionHolds madeInOrder keepOne twoOfPolicy v' log r ∧ v'.rows.map (·.id) = ["2"] := by
  refine ⟨_, _, _, rfl, ?_, by decide⟩
  exact (retention_keeps_the_newest_iff anySite "1" madeInOrder keepOne twoOfPolicy tableInOrder
    ⟨false⟩
    [goesWell, goesWell, goesWell] _ _ _ _ rfl).mpr nothingLost_goesWell

/-- The row's deletion took effect and its answer was lost: the row is gone, and nothing was pruned. -/
theorem lost_answer_is_not_counted :
    ∃ v' log, (pruneBackups keepOne ⟨false⟩).result (backupWorld anySite "1").logged (twoOfPolicy,
    [])
        [goesWell, goesWell, { goesWell with fails := true }] =
          some ((.ok (0, ["one: failed"]), ⟨false⟩), (v', log)) ∧
      v'.rows.map (·.id) = ["2"] ∧
      ¬ RetentionHolds madeInOrder keepOne twoOfPolicy v' log (.ok (0, ["one: failed"])) := by
  refine ⟨_, _, rfl, by decide, fun h => ?_⟩
  exact absurd (h.2.2.1 0 _ rfl) (by decide)

end IncusCloud.Backups
