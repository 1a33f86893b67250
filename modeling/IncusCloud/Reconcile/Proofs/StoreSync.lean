import IncusCloud.Lib.Run
import IncusCloud.Reconcile.Proofs.Diff
import Mathlib.Data.List.Dedup

/-!
# A completed pass leaves what it desired

After every pass that completes, the managed tuples of the store are the desired ones of that pass,
whether it scanned the store or read the record. That rests on the record agreeing with the store
where a pass reads it, which a pass that was cut off between its write and its record undoes; so the
passes of a run must not read the record then, and a write that returns must have been applied.
-/

namespace IncusCloud.Reconcile

open Lib Option

/-! ### Runs -/

def Agree (ts us : List Tuple) : Prop := ∀ t, isManaged t = true → (t ∈ ts ↔ t ∈ us)

namespace GrantSync

def PhaseOk (s : GrantSync) : SyncPhase → Prop
  | .idle => True
  | .selected fgaStoreId _ => fgaStoreId = s.fgaStoreId
  | .opened _ _ => s.fgaStoreId = some s.storeId
  | .gathered desired _ => s.fgaStoreId = some s.storeId ∧ Own desired
  | .diffed desired writes deletes _ =>
    s.fgaStoreId = some s.storeId ∧ Own desired ∧ Own writes ∧
      ∀ t, isManaged t = true → (t ∈ desired ↔ t ∈ writes ∨ (t ∈ s.store ∧ t ∉ deletes))
  | .written desired _ => s.fgaStoreId = some s.storeId ∧ Own desired ∧ Agree desired s.store

structure Consistent (s : GrantSync) : Prop where
  store : ∀ t ∈ s.store, isManaged t = true → t.Barless
  grants : Own s.grants
  opened : ∀ id, s.fgaStoreId = some id → id ≤ s.storeId
  /-- The record of the store that is open agrees with it, unless something is not recorded yet. -/
  agree : s.dirty = false → s.fgaStoreId = some s.storeId → Agree s.grants s.store
  phase : s.PhaseOk s.phase
  running : s.phase ≠ .idle → s.completed = none
  completed : ∀ desired, s.completed = some desired → Agree s.store desired

def recorded (s : GrantSync) : SyncAction → Bool
  | .diff =>
    match s.phase with
    | .gathered _ scan => scan || !s.dirty
    | _ => true
  | .write applied removed returns =>
    match s.phase with
    | .diffed _ writes deletes _ => returns → writes ⊆ applied ∧ deletes ⊆ removed
    | _ => true
  | _ => true

theorem Consistent.current {s : GrantSync} (h : s.Consistent) {scan : Bool}
    (hstore : s.fgaStoreId = some s.storeId) (hread : (scan || !s.dirty) = true) :
    Own (if scan then s.store.filter isManaged else s.grants) ∧
      Agree (if scan then s.store.filter isManaged else s.grants) s.store := by
  cases scan
  · have hclean : s.dirty = false := by simpa using hread
    exact ⟨h.grants, h.agree hclean hstore⟩
  · constructor
    · intro t ht
      obtain ⟨hmem, hm⟩ := List.mem_filter.mp ht
      exact ⟨hm, h.store t hmem hm⟩
    · intro t hm
      exact ⟨fun ht => (List.mem_filter.mp ht).1, fun ht => List.mem_filter.mpr ⟨ht, hm⟩⟩

theorem Consistent.applied {s : GrantSync} (h : s.Consistent) {applied removed writes : List Tuple}
    (hwrites : Own writes) (happlied : applied ⊆ writes) :
    ∀ t ∈ s.store.filter (· ∉ removed) ++ applied, isManaged t = true → t.Barless := by
  intro t ht hm
  rcases List.mem_append.mp ht with ht | ht
  · exact h.store t (List.mem_filter.mp ht).1 hm
  · exact (hwrites t (happlied ht)).2

theorem PhaseOk.of_agree {s : GrantSync} {store : List Tuple} (hagree : Agree s.store store)
    {p : SyncPhase} (h : s.PhaseOk p) : PhaseOk { s with store := store } p := by
  cases p with
  | idle => trivial
  | selected fgaStoreId scannedAt => exact h
  | opened newStore scannedAt => exact h
  | gathered desired scan => exact h
  | diffed desired writes deletes scan =>
    obtain ⟨hstore, hdesired, hwrites, hdiff⟩ := h
    refine ⟨hstore, hdesired, hwrites, fun t hm => ?_⟩
    rw [hdiff t hm, hagree t hm]
  | written desired scan =>
    obtain ⟨hstore, hdesired, hsame⟩ := h
    exact ⟨hstore, hdesired, fun t hm => (hsame t hm).trans (hagree t hm)⟩

theorem agree_incus (store tuples : List Tuple) :
    Agree store (store.filter isManaged ++ tuples.filter fun t => !isManaged t) := by
  intro t hm
  simp only [List.mem_append, List.mem_filter, hm, Bool.not_true, and_true, Bool.false_eq_true,
    and_false, or_false]

theorem agree_applied {store desired writes deletes applied removed : List Tuple}
    (hdiff : ∀ t, isManaged t = true → (t ∈ desired ↔ t ∈ writes ∨ (t ∈ store ∧ t ∉ deletes)))
    (happlied : applied ⊆ writes) (hremoved : removed ⊆ deletes)
    (hall : writes ⊆ applied) (hgone : deletes ⊆ removed) :
    Agree desired (store.filter (· ∉ removed) ++ applied) := by
  intro t hm
  have hw : t ∈ applied ↔ t ∈ writes := ⟨(happlied ·), (hall ·)⟩
  have hd : t ∈ removed ↔ t ∈ deletes := ⟨(hremoved ·), (hgone ·)⟩
  rw [hdiff t hm, List.mem_append, List.mem_filter, hw, decide_eq_true_iff, hd]
  exact or_comm

section

variable {sha : String → Hex} {s t : GrantSync}

theorem Consistent.openStore (h : s.Consistent) (hs : s.step sha .openStore = some t) :
    t.Consistent := by
  have hphase := h.phase
  unfold GrantSync.step at hs
  dsimp only at hs
  split at hs
  case h_2 => cases hs
  case h_1 fgaStoreId scannedAt hp =>
  rw [hp] at hphase
  have hrow : fgaStoreId = s.fgaStoreId := hphase
  have hnone : s.completed = none := h.running (by rw [hp]; exact nofun)
  split_ifs at hs with hsame
  · obtain rfl := some.inj hs
    exact ⟨h.store, h.grants, h.opened, h.agree, hrow.symm.trans hsame, fun _ => hnone, h.completed⟩
  · obtain rfl := some.inj hs
    refine ⟨h.store, nofun, fun id hid => ?_, (nomatch ·), rfl, fun _ => hnone, h.completed⟩
    exact le_of_eq (some.inj hid).symm

theorem Consistent.diff (h : s.Consistent) (hok : s.recorded .diff = true)
    (hs : s.step sha .diff = some t) : t.Consistent := by
  have hphase := h.phase
  unfold GrantSync.step at hs
  dsimp only at hs
  simp only [recorded] at hok
  split at hs
  case h_2 => cases hs
  case h_1 desired scan hp =>
  rw [hp] at hphase hok
  obtain ⟨hstore, hdesired⟩ := hphase
  obtain ⟨hown, hagree⟩ := h.current hstore hok
  have hd : ∀ t ∈ desired, t.Barless := fun t ht => (hdesired t ht).2
  have hc := fun t ht => (hown t ht).2
  have hnone : s.completed = none := h.running (by rw [hp]; simp)
  obtain rfl := some.inj hs
  refine ⟨h.store, h.grants, h.opened, h.agree, ⟨hstore, hdesired, fun t ht => ?_, fun t hm => ?_⟩,
    fun _ => hnone, h.completed⟩
  · exact hdesired t ((mem_writes hd hc t).mp ht).1
  · rw [mem_writes hd hc, mem_deletes hd hc, ← hagree t hm]
    tauto

theorem Consistent.write (h : s.Consistent) {applied removed : List Tuple} {returns : Bool}
    (hok : s.recorded (.write applied removed returns) = true)
    (hs : s.step sha (.write applied removed returns) = some t) : t.Consistent := by
  have hphase := h.phase
  unfold GrantSync.step at hs
  dsimp only at hs
  simp only [recorded] at hok
  split at hs
  case h_2 => cases hs
  case h_1 desired writes deletes scan hp =>
  rw [hp] at hphase hok
  obtain ⟨hstore, hdesired, hwrites, hdiff⟩ := hphase
  have hnone : s.completed = none := h.running (by rw [hp]; simp)
  have hsame : writes = [] ∧ deletes = [] → Agree desired s.store := by
    intro hnothing t hm
    rw [hdiff t hm, hnothing.1, hnothing.2]
    simp
  have hcompleted : ∀ d, s.completed = some d →
      Agree (s.store.filter (· ∉ removed) ++ applied) d := fun d hd => by
    rw [hnone] at hd
    cases hd
  split_ifs at hs with hnothing hscan hpart hreturns
  · obtain rfl := some.inj hs
    exact ⟨h.store, h.grants, h.opened, h.agree, ⟨hstore, hdesired, hsame hnothing⟩, fun _ => hnone,
      h.completed⟩
  · obtain rfl := some.inj hs
    refine ⟨h.store, h.grants, h.opened, h.agree, trivial, fun hidle => absurd rfl hidle,
      fun d hd t hm => ?_⟩
    obtain rfl := some.inj hd
    exact (hsame hnothing t hm).symm
  · have hfull : writes ⊆ applied ∧ deletes ⊆ removed := of_decide_eq_true hok hreturns
    obtain rfl := some.inj hs
    exact ⟨h.applied hwrites hpart.1, h.grants, h.opened, (by intro h; cases h),
      ⟨hstore, hdesired, agree_applied hdiff hpart.1 hpart.2 hfull.1 hfull.2⟩, fun _ => hnone,
      hcompleted⟩
  · obtain rfl := some.inj hs
    exact ⟨h.applied hwrites hpart.1, h.grants, h.opened, (by intro h; cases h), trivial,
      fun _ => hnone, hcompleted⟩

theorem Consistent.record (h : s.Consistent) {now : Int} {returns : Bool}
    (hs : s.step sha (.record now returns) = some t) : t.Consistent := by
  have hphase := h.phase
  unfold GrantSync.step at hs
  dsimp only at hs
  split at hs
  case h_2 => cases hs
  case h_1 desired scan hp =>
  rw [hp] at hphase
  obtain ⟨hstore, hdesired, hsame⟩ := hphase
  obtain rfl := some.inj hs
  refine ⟨h.store, fun t ht => hdesired t (List.mem_dedup.mp ht), h.opened, fun _ _ t hm => ?_,
    trivial, fun hidle => absurd rfl hidle, fun d hd t hm => ?_⟩
  · rw [List.mem_dedup]
    exact hsame t hm
  · cases returns with
    | false => cases hd
    | true =>
      obtain rfl := some.inj hd
      exact (hsame t hm).symm

theorem Consistent.replace (h : s.Consistent) {tuples : List Tuple}
    (hs : s.step sha (.replace tuples) = some t) : t.Consistent := by
  unfold GrantSync.step at hs
  dsimp only at hs
  split at hs
  case h_2 => cases hs
  case h_1 hp =>
  split_ifs at hs with hown
  obtain rfl := some.inj hs
  refine ⟨hown, h.grants, fun id hid => ?_, fun _ hid => ?_, ?_, fun _ => rfl, nofun⟩
  · exact Nat.le_succ_of_le (h.opened id hid)
  · exact absurd (h.opened _ hid) (Nat.not_succ_le_self _)
  · rw [hp]
    trivial

theorem Consistent.step {a : SyncAction} (h : s.Consistent) (hok : s.recorded a = true)
    (hs : s.step sha a = some t) : t.Consistent := by
  cases a with
  | begin =>
    unfold GrantSync.step at hs
    dsimp only at hs
    split at hs
    case h_2 => cases hs
    case h_1 hp =>
    obtain rfl := some.inj hs
    exact ⟨h.store, h.grants, h.opened, h.agree, rfl, fun _ => rfl, nofun⟩
  | openStore => exact h.openStore hs
  | gather facts now =>
    have hphase := h.phase
    unfold GrantSync.step at hs
    dsimp only at hs
    split at hs
    case h_2 => cases hs
    case h_1 newStore scannedAt hp =>
    rw [hp] at hphase
    have hnone : s.completed = none := h.running (by rw [hp]; exact nofun)
    obtain rfl := some.inj hs
    exact ⟨h.store, h.grants, h.opened, h.agree, ⟨hphase, own_desiredGrants sha facts⟩,
      fun _ => hnone, h.completed⟩
  | diff => exact h.diff hok hs
  | write applied removed returns => exact h.write hok hs
  | record now returns => exact h.record hs
  | stop =>
    obtain rfl := some.inj hs
    exact ⟨h.store, h.grants, h.opened, h.agree, trivial, fun _ => rfl, nofun⟩
  | incus tuples =>
    have hagree := agree_incus s.store tuples
    obtain rfl := some.inj hs
    refine ⟨fun t ht hm => h.store t ((hagree t hm).mpr ht) hm, h.grants, h.opened,
      fun hclean hid t hm => (h.agree hclean hid t hm).trans (hagree t hm),
      h.phase.of_agree hagree, h.running, fun d hd t hm => ?_⟩
    exact (hagree t hm).symm.trans (h.completed d hd t hm)
  | replace tuples => exact h.replace hs

end

/-- After a pass that completes, the managed tuples of the store are the desired ones of that pass,
in every run whose passes read the record only while everything written is recorded, and whose
writes that return were applied. -/
theorem completed_pass_reaches_desired {sha : String → Hex} {s : GrantSync}
    (h : Run (step sha) (fun s a => s.recorded a = true) enrolled s) {desired : List Tuple}
    (hdone : s.completed = some desired) (t : Tuple) (hm : isManaged t = true) :
    t ∈ s.store ↔ t ∈ desired := by
  have hinv : s.Consistent := h.invariant
    ⟨nofun, nofun, nofun, fun _ => nofun, trivial, fun _ => rfl, nofun⟩
    fun _ _ _ hc hok hs => hc.step hok hs
  exact hinv.completed desired hdone t hm

def platformFacts (members : List (String × String))
    (hmembers : ∀ m ∈ members, '|' ∉ m.1.toList) : GrantFacts :=
  ⟨[], [], members, [], noFacts.members_barless, hmembers, noFacts.acl_barless⟩

def noSha (_ : String) : Hex := noHex

def noMembers : GrantFacts := platformFacts [] noFacts.platform_barless

def oneAdmin : GrantFacts := platformFacts [("u1", "admin")] (by decide)

def firstPass : List SyncAction :=
  [.begin, .openStore, .gather noMembers 0, .diff, .write (desiredGrants noSha noMembers) [] true,
    .record 0 true]

/-- The next pass finds a new administrator, reads the record and writes the membership. -/
theorem completed_pass_reaches_desired_admin :
    ∃ s, Run (step noSha) (fun s a => s.recorded a = true) enrolled s ∧
      s.completed = some (desiredGrants noSha oneAdmin) ∧
      ∀ t, isManaged t = true → (t ∈ s.store ↔ t ∈ desiredGrants noSha oneAdmin) := by
  have hexec : ((Run.exec (step noSha) (fun s a => s.recorded a = true) enrolled
      (firstPass ++ [.begin, .openStore, .gather oneAdmin 1, .diff,
        .write [membership "u1" (platformGroup "admin")] [] true, .record 1 true])).map
        (·.completed)) = some (some (desiredGrants noSha oneAdmin)) := by
    decide
  obtain ⟨s, hs, hdone⟩ := map_eq_some_iff.mp hexec
  have hrun := Run.of_exec .refl hs
  exact ⟨s, hrun, hdone, completed_pass_reaches_desired hrun hdone⟩

/-- A pass that grants an administrator is cut off before its record; the next one, with the
administrator gone again, reads the record, finds nothing to do and completes. -/
theorem unrecorded_grant_stays :
    ¬ ∀ s, Run (step noSha) (fun _ _ => True) enrolled s → ∀ desired, s.completed = some desired →
      ∀ t, isManaged t = true → (t ∈ s.store ↔ t ∈ desired) := by
  intro h
  have hexec : ((Run.exec (step noSha) (fun _ _ => True) enrolled
      (firstPass ++ [.begin, .openStore, .gather oneAdmin 1, .diff,
        .write [membership "u1" (platformGroup "admin")] [] true, .stop,
        .begin, .openStore, .gather noMembers 2, .diff, .write [] [] true])).map
        fun s => (s.completed, decide (membership "u1" (platformGroup "admin") ∈ s.store))) =
      some (some (desiredGrants noSha noMembers), true) := by
    decide
  obtain ⟨s, hs, hshown⟩ := map_eq_some_iff.mp hexec
  obtain ⟨hdone, hstray⟩ := Prod.mk.inj hshown
  have hiff := h s (Run.of_exec .refl hs) _ hdone (membership "u1" (platformGroup "admin"))
    (isManaged_membership "u1" "platform-admin")
  have hnot : membership "u1" (platformGroup "admin") ∉ desiredGrants noSha noMembers := by
    decide
  exact hnot (hiff.mp (of_decide_eq_true hstray))

end GrantSync

end IncusCloud.Reconcile
