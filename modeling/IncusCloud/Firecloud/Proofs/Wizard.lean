import IncusCloud.Firecloud.Wizard

/-!
# What the disk questions leave behind

The rows of a table stand for disks of their systems, or for loop files. What is chosen for the
local pool is planned, and taken off the tables that follow (`wp_askLocalPool`).
-/

namespace IncusCloud.Firecloud

open Lib Handler List
open Function (update update_of_ne update_self)
open Handler (wp)
open String (toList_append)

variable {site : Site} {l : Asking} {w : Asked} {state : OrdMap String SystemInformation} {m path : String}
  {disk : Disk} {row : Row} {rows : List Row} {n : ℕ} {selected : OrdMap String String}

/-! ### Paths and loop specs -/

theorem head_formatDiskPath (disk : Disk) : (formatDiskPath disk).toList.head? = some '/' := by
  unfold formatDiskPath
  split_ifs
  · rw [toList_append]
    rfl
  · rw [toList_append]
    rfl
  · rw [toList_append]
    rfl

theorem formatDiskPath_ne_empty (disk : Disk) : formatDiskPath disk ≠ "" := by
  intro h
  have hhead := head_formatDiskPath disk
  rw [h] at hhead
  cases hhead

theorem head_of_isPrefix {s : List Char} (h : ('l' :: s).isPrefixOf path.toList = true) :
    path.toList.head? = some 'l' := by
  obtain ⟨rest, hrest⟩ := isPrefixOf_iff_prefix.mp h
  rw [← hrest]
  rfl

theorem localLoopSize_formatDiskPath (disk : Disk) : localLoopSize (formatDiskPath disk) = none := by
  refine if_neg fun h => ?_
  have hhead := head_of_isPrefix (s := "oop:".toList) h
  rw [head_formatDiskPath] at hhead
  cases hhead

theorem localLoopSize_localLoopSpec (n : ℕ) : (localLoopSize (localLoopSpec n)).isSome = true := by
  have hprefix : "loop:".toList.isPrefixOf (localLoopSpec n).toList = true := by
    unfold localLoopSpec
    rw [toList_append]
    exact isPrefixOf_iff_prefix.mpr (prefix_append _ _)
  unfold localLoopSize
  rw [if_pos hprefix]
  rfl

theorem localLoopSize_of_isLoopSpec (h : isLoopSpec path = true) : localLoopSize path = none := by
  refine if_neg fun h' => ?_
  obtain ⟨rest, hrest⟩ := isPrefixOf_iff_prefix.mp h
  obtain ⟨rest', hrest'⟩ := isPrefixOf_iff_prefix.mp h'
  have hsame := hrest.trans hrest'.symm
  have hfifth : (',' : Char) = ':' := by
    have hdrop := congrArg (fun s => (s.drop 4).head?) hsame
    exact Option.some.inj hdrop
  exact absurd hfifth (by decide)

theorem head_localLoopSpec (n : ℕ) : (localLoopSpec n).toList.head? = some 'l' := by
  unfold localLoopSpec
  rw [toList_append]
  rfl

theorem head_cephLoopSpec (n : ℕ) : (cephLoopSpec n).toList.head? = some 'l' := by
  unfold cephLoopSpec
  rw [toList_append]
  rfl

/-! ### Disks and rows -/

def IsDisk (state : OrdMap String SystemInformation) (m : String) (disk : Disk) : Prop :=
  ∃ e ∈ state, e.1 = m ∧ ∃ d ∈ e.2.availableDisks, d.2 = disk

def IsLoop (disk : Disk) : Prop := ∃ n, disk = loopDisk (localLoopSpec n) ∨ disk = loopDisk (cephLoopSpec n)

theorem head_of_isLoop (h : IsLoop disk) : (devicePath disk).toList.head? = some 'l' := by
  obtain ⟨n, rfl | rfl⟩ := h
  · exact head_localLoopSpec n
  · exact head_cephLoopSpec n

theorem devicePath_of_device (h : disk.type ≠ diskTypeLoop) :
    devicePath disk = formatDiskPath disk := if_neg h

theorem mem_rowsOf {disks : OrdMap String (OrdMap String Disk)} :
    row ∈ rowsOf disks ↔ ∃ e ∈ disks, ∃ d ∈ e.2, row = ⟨e.1, d.2.type, devicePath d.2⟩ := by
  unfold rowsOf
  rw [mem_flatMap]
  refine exists_congr fun e => and_congr_right fun _ => ?_
  rw [List.mem_map]
  exact exists_congr fun d => and_congr_right fun _ => eq_comm

theorem mem_pickRows {picks : List ℕ} (h : row ∈ pickRows rows picks) : row ∈ rows := by
  have hmem := (perm_insertionSort (fun a b : Row => a.location ≤ b.location) _).mem_iff.mp h
  obtain ⟨i, -, hi⟩ := List.mem_filterMap.mp hmem
  exact mem_of_getElem? hi

theorem mem_deviceRows : row ∈ deviceRows rows ↔ row ∈ rows ∧ row.type ≠ diskTypeLoop := by
  unfold deviceRows
  rw [mem_filter, decide_eq_true_eq]

def Row.at? (rows : List Row) (m path : String) : Prop := ∃ row ∈ rows, row.location = m ∧ row.path = path

/-! ### Calls -/

section

variable {c : WizardCall} {Q : c.Answer → Asking → Asked → Prop} {E : WizardError → Asking → Asked → Prop}

theorem wp_plain (hc : ∀ w o, ((wizardAnswer site c w o).2 = w))
    (hQ : ∀ a, Q a l w) (hE : ∀ e, E e l w) :
    wp (operator site) (fun _ => True) Q E (Handler.call c) l w := by
  refine (wp_call c l w).mpr fun o => .of_forall trivial (fun a => ?_) fun e => ?_
  · rw [show ((operator site).answer c w o).2 = w from hc w o]
    exact hQ a
  · rw [show ((operator site).answer c w o).2 = w from hc w o]
    exact hE e

end

theorem wp_hasExtension {extension : String} {Q : Bool → Asking → Asked → Prop}
    {E : WizardError → Asking → Asked → Prop} (hQ : Q (site.extensions extension) l w) (hE : ∀ e, E e l w) :
    wp (operator site) (fun _ => True) Q E (Wizard.hasExtension extension) l w := by
  refine (wp_call (WizardCall.hasExtension extension) l w).mpr fun o => ?_
  have hmet : Handler.Met (fun _ => True) (fun a => Q a l) (fun e => E e l)
      (o.answer (site.extensions extension) w) := by
    refine ⟨trivial, ?_⟩
    unfold Reply.answer
    cases o.error with
    | none => exact hQ
    | some e => exact hE e
  exact hmet

section

variable {Q : List Row → Asking → Asked → Prop} {E : WizardError → Asking → Asked → Prop} {pool : Pool}

theorem wp_select
    (hQ : ∀ picks, Q (pickRows rows picks) l
      { w with chosen := update w.chosen pool (pickRows rows picks) })
    (hE : ∀ e, E e l { w with chosen := update w.chosen pool [] }) :
    wp (operator site) (fun _ => True) Q E (Wizard.select pool rows) l w := by
  refine (wp_call (WizardCall.select pool rows) l w).mpr fun o => ?_
  have hmet : Handler.Met (fun _ => True) (fun a => Q a l) (fun e => E e l) (o.selected pool rows w) := by
    refine ⟨trivial, ?_⟩
    unfold Reply.selected
    cases o.error with
    | none => exact hQ o.picks
    | some e => exact hE e
  exact hmet

theorem wp_selectWipe
    (hQ : ∀ picks, Q (pickRows rows picks) l
      { w with wiped := update w.wiped pool (pickRows rows picks) })
    (hE : ∀ e, E e l { w with chosen := update w.chosen pool [] }) :
    wp (operator site) (fun _ => True) Q E (Wizard.selectWipe pool rows) l w := by
  refine (wp_call (WizardCall.selectWipe pool rows) l w).mpr fun o => ?_
  have hmet : Handler.Met (fun _ => True) (fun a => Q a l) (fun e => E e l) (o.wipes pool rows w) := by
    refine ⟨trivial, ?_⟩
    unfold Reply.wipes
    cases o.error with
    | none => exact hQ o.picks
    | some e => exact hE e
  exact hmet

/-- Asking again, from what holds before each try: what holds after a try that succeeds, and after
one that fails when the operator does not want another. -/
theorem wp_askRetry {J F D : Asking → Asked → Prop} {E : WizardError → Asking → Asked → Prop}
    {pool : Pool} {f : Wizard Unit} {tries : ℕ}
    (hf : ∀ l w, J l w → wp (operator site) (fun _ => True) (fun _ => D) (fun _ => F) f l w)
    (hagain : ∀ l w, F l w → J l w)
    (hgone : ∀ l w, F l w → D l (if pool = .localPool then
      { w with chosen := update w.chosen .localPool [] } else w))
    (hE : ∀ e l w, E e l w) (hl : J l w) :
    wp (operator site) (fun _ => True) (fun _ => D) E (askRetry pool f tries) l w := by
  induction tries generalizing l w with
  | zero => exact hE _ _ _
  | succ tries ih =>
    unfold askRetry
    rw [wp_tryCatch]
    refine wp_mono (fun _ _ _ h => h) (fun e l w hfailed => ?_) (hf l w hl)
    split_ifs
    · exact hE _ _ _
    · rw [wp_bind]
      refine (wp_call (WizardCall.retry pool) l w).mpr fun o => ?_
      have hmet : Handler.Met (fun _ => True) (fun again => wp (operator site) (fun _ => True) (fun _ => D) E
          (Handler.when again (askRetry pool f tries)) l) (fun e => E e l) (o.retries pool w) := by
        refine ⟨trivial, ?_⟩
        unfold Reply.retries
        cases o.error with
        | some e => exact hE _ _ _
        | none =>
          dsimp only
          rw [wp_when]
          cases o.yes with
          | true => exact ih (by simpa using hagain l w hfailed)
          | false =>
            have hdone := hgone l w hfailed
            simpa using hdone
      exact hmet

end

/-! ### The local pool -/

theorem oneEach_spec (h : oneEach rows = .ok selected) (m path : String) :
    selected.get m = some path ↔ Row.at? rows m path := by
  suffices hgen : ∀ acc : OrdMap String String, rows.foldlM (fun selected row =>
      if (selected.get row.location).isSome then
        (.error (.input ("Failed to add local storage pool: Selected more than one disk for target peer \"" ++
          row.location ++ "\"")) : Except WizardError (OrdMap String String))
      else .ok (selected.set row.location row.path)) acc = .ok selected →
      (selected.get m = some path ↔ acc.get m = some path ∨ Row.at? rows m path) by
    rw [hgen [] h]
    exact ⟨fun h => h.resolve_left fun h => (nomatch h), .inr⟩
  clear h
  induction rows with
  | nil =>
    intro acc h
    obtain rfl := Except.ok.inj h
    exact ⟨.inl, fun h => h.resolve_right fun ⟨_, hrow, _⟩ => (nomatch hrow)⟩
  | cons row rows ih =>
    intro acc h
    rw [foldlM_cons] at h
    by_cases hthere : (acc.get row.location).isSome = true
    · rw [if_pos hthere] at h
      cases h
    · rw [if_neg hthere] at h
      rw [ih _ h, OrdMap.get_set]
      have hnone : acc.get row.location = none := Option.not_isSome_iff_eq_none.mp hthere
      constructor
      · rintro (hset | ⟨row', hrow', hat⟩)
        · split_ifs at hset with hm
          · exact .inr ⟨row, mem_cons_self, hm.symm, Option.some.inj hset⟩
          · exact .inl hset
        · exact .inr ⟨row', mem_cons_of_mem _ hrow', hat⟩
      · rintro (hacc | ⟨row', hrow', hat⟩)
        · have hm : ¬ m = row.location := by
            intro hm
            rw [hm, hnone] at hacc
            cases hacc
          rw [if_neg hm]
          exact .inl hacc
        · rcases mem_cons.mp hrow' with rfl | hrow'
          · rw [if_pos hat.1.symm, hat.2]
            exact .inl rfl
          · exact .inr ⟨row', hrow', hat⟩

structure Offering (state : OrdMap String SystemInformation) (luns : List Disk)
    (names : List String) (c : InitConfig) : Prop where
  systems : c.systems = names.map fun name => (name, .empty)
  luns : c.sharedLUNs = luns
  keys : c.state.map (·.1) = state.map (·.1)
  disks : ∀ e ∈ c.state, ∀ d ∈ e.2.availableDisks,
    (∃ n, d.2 = loopDisk (localLoopSpec n)) ∨ d.2.type ≠ diskTypeLoop ∧ IsDisk state e.1 d.2

structure LocalRows (state : OrdMap String SystemInformation) (rows : List Row) : Prop where
  loop : ∀ row ∈ rows, row.type = diskTypeLoop → (localLoopSize row.path).isSome = true
  device : ∀ row ∈ rows, row.type ≠ diskTypeLoop → ∃ disk, IsDisk state row.location disk ∧
    row.path = formatDiskPath disk

def plannedDisk (site : Site) (selected : OrdMap String String) (m : String) : List (String × Bool) :=
  match selected.get m with
  | none => []
  | some path =>
    if (localLoopSize path).isSome then [] else [(path, site.extensions "storage_pool_source_wipe")]

structure LocalSettled (state : OrdMap String SystemInformation) (luns : List Disk) (names : List String)
    (selected : OrdMap String String) (c : InitConfig) (w : Asked) : Prop where
  names : c.systems.map (·.1) = names
  luns : c.sharedLUNs = luns
  keys : c.state.map (·.1) = state.map (·.1)
  rows : LocalRows state (w.chosen .localPool)
  chosen : ∀ m path, selected.get m = some path ↔ Row.at? (w.chosen .localPool) m path
  left : ∀ e ∈ c.state, ∀ d ∈ e.2.availableDisks, IsLoop d.2 ∨ d.2.type ≠ diskTypeLoop ∧
    IsDisk state e.1 d.2 ∧ selected.get e.1 ≠ some (formatDiskPath d.2)

structure LocalDone (site : Site) (state : OrdMap String SystemInformation) (luns : List Disk)
    (names : List String) (selected : OrdMap String String) (c : InitConfig) (w : Asked) : Prop
    extends LocalSettled state luns names selected c w where
  systems : ∀ e ∈ c.systems, e.2.localDisks = plannedDisk site selected e.1 ∧
    e.2.microCephDisks = [] ∧ e.2.lvmDisks = []

/-! ### Planning the local pool -/

section

variable {p : LocalPlan} {system : InitSystem}

theorem wipesTarget_selected {wipeable : Bool} {toWipe : OrdMap String String} (hpath : path ≠ "")
    (hselected : selected.get m = some path) (hwipe : wipeable = true → toWipe = selected) :
    wipesTarget wipeable toWipe m = wipeable := by
  unfold wipesTarget
  cases wipeable with
  | false => rfl
  | true =>
    rw [hwipe rfl, hselected]
    exact decide_eq_true hpath

theorem localDisks_localPlan (hasked : ∀ path, p.selected.get m = some path → m ∈ p.askSystems)
    (hwipeable : p.wipeable = site.extensions "storage_pool_source_wipe")
    (hwipe : p.wipeable = true → p.toWipe = p.selected)
    (hpath : ∀ path, p.selected.get m = some path → path ≠ "") :
    (p.system m .empty).localDisks = plannedDisk site p.selected m := by
  unfold plannedDisk LocalPlan.system
  rw [← hwipeable]
  by_cases hm : m ∈ p.askSystems
  · rw [if_pos hm]
    cases hselected : p.selected.get m with
    | none =>
      by_cases hjoin : p.useJoinConfig = true
      · rw [if_pos hjoin]
        simp only [localJoinConfig, hselected]
        rfl
      · rw [if_neg hjoin]
        simp only [localTargetConfig, hselected]
        rfl
    | some path =>
      have hwiped := wipesTarget_selected (hpath path hselected) hselected hwipe
      by_cases hjoin : p.useJoinConfig = true
      · rw [if_pos hjoin]
        simp only [localJoinConfig, hselected, hwiped]
        cases localLoopSize path with
        | some size => rfl
        | none =>
          cases p.wipeable with
          | true => rfl
          | false => rfl
      · rw [if_neg hjoin]
        simp only [localTargetConfig, hselected, hwiped]
        cases localLoopSize path with
        | some size => rfl
        | none =>
          cases p.wipeable with
          | true => rfl
          | false => rfl
  · rw [if_neg hm]
    cases hselected : p.selected.get m with
    | none => rfl
    | some path => exact absurd (hasked path hselected) hm

theorem localPlan_other : (p.system m .empty).microCephDisks = [] ∧ (p.system m .empty).lvmDisks = [] := by
  have htarget : (localTargetConfig p.wipeable p.selected p.toWipe m).filter
      (fun pool : StoragePoolsPost => pool.driver = "lvmcluster") = [] := by
    unfold localTargetConfig
    cases p.selected.get m with
    | none => rfl
    | some path =>
      dsimp only
      cases localLoopSize path with
      | none => rfl
      | some size => rfl
  unfold LocalPlan.system
  by_cases hm : m ∈ p.askSystems
  · rw [if_pos hm]
    by_cases hjoin : p.useJoinConfig = true
    · rw [if_pos hjoin]
      exact ⟨rfl, rfl⟩
    · rw [if_neg hjoin]
      refine ⟨rfl, ?_⟩
      show (([] ++ localTargetConfig p.wipeable p.selected p.toWipe m).filter
        fun pool : StoragePoolsPost => pool.driver = "lvmcluster").filterMap _ = []
      rw [nil_append, htarget]
      rfl
  · rw [if_neg hm]
    exact ⟨rfl, rfl⟩

end

/-! ### Asking for the local pool's disks -/

def Unasked (w : Asked) : Prop := w.chosen .remotePool = [] ∧ w.wiped .remotePool = []

theorem remotePool_ne : Pool.remotePool ≠ Pool.localPool := by decide

theorem Unasked.select (h : Unasked w) (rows : List Row) :
    Unasked { w with chosen := update w.chosen .localPool rows } :=
  ⟨(update_of_ne remotePool_ne rows w.chosen).trans h.1, h.2⟩

theorem Unasked.wipe (h : Unasked w) (rows : List Row) :
    Unasked { w with wiped := update w.wiped .localPool rows } :=
  ⟨h.1, (update_of_ne remotePool_ne rows w.wiped).trans h.2⟩

theorem LocalRows.mono {rows' : List Row} (h : LocalRows state rows)
    (hsub : ∀ row ∈ rows', row ∈ rows) : LocalRows state rows' :=
  ⟨fun row hrow => h.loop row (hsub row hrow), fun row hrow => h.device row (hsub row hrow)⟩

/-- What the operator chose for the local pool stands in `selectedDisks`. -/
structure LocalChosen (state : OrdMap String SystemInformation) (askSystems : List String)
    (selected : OrdMap String String) (w : Asked) : Prop where
  rows : LocalRows state (w.chosen .localPool)
  chosen : ∀ m path, selected.get m = some path ↔ Row.at? (w.chosen .localPool) m path
  asked : ∀ row ∈ w.chosen .localPool, row.location ∈ askSystems

theorem localChosen_nil {askSystems : List String} (h : w.chosen .localPool = []) :
    LocalChosen state askSystems [] w := by
  refine ⟨⟨?_, ?_⟩, fun m path => ⟨fun h => (nomatch h), ?_⟩, ?_⟩
  · rw [h]
    exact fun _ hrow => (nomatch hrow)
  · rw [h]
    exact fun _ hrow => (nomatch hrow)
  · rintro ⟨row, hrow, -⟩
    rw [h] at hrow
    cases hrow
  · rw [h]
    exact fun _ hrow => (nomatch hrow)

section

variable {luns : List Disk} {names askSystems : List String} {wipeable : Bool}

theorem wp_selectLocal (hrows : LocalRows state rows) (hasked : ∀ row ∈ rows, row.location ∈ askSystems)
    (hconfig : Offering state luns names l.config) (hselected : l.selectedDisks = []) (hw : Unasked w) :
    wp (operator site) (fun _ => True)
      (fun _ l w => Offering state luns names l.config ∧
        LocalChosen state askSystems l.selectedDisks w ∧ Unasked w)
      (fun _ l w => Offering state luns names l.config ∧ l.selectedDisks = [] ∧ Unasked w)
      (selectLocal rows askSystems wipeable) l w := by
  unfold selectLocal
  rw [wp_bind]
  refine wp_select (fun picks => ?_) fun e => ⟨hconfig, hselected, hw.select []⟩
  have hpicked : ∀ row ∈ pickRows rows picks, row ∈ rows := fun row hrow => mem_pickRows hrow
  generalize pickRows rows picks = answers at hpicked
  have hw' := hw.select answers
  have hchosen : update w.chosen .localPool answers .localPool = answers := update_self _ _ _
  split_ifs with hnone
  · exact ⟨hconfig, hselected, hw'⟩
  · rw [wp_bind]
    cases heach : oneEach answers with
    | error e => exact ⟨hconfig, hselected, hw'⟩
    | ok selected =>
      show wp _ _ _ _ (if _ then _ else _) l _
      split_ifs
      · exact ⟨hconfig, hselected, hw'⟩
      · have hdone : ∀ wiped, Unasked ⟨update w.chosen .localPool answers, wiped⟩ →
            Offering state luns names l.config ∧
              LocalChosen state askSystems selected ⟨update w.chosen .localPool answers, wiped⟩ ∧
              Unasked ⟨update w.chosen .localPool answers, wiped⟩ := by
          refine fun wiped hun => ⟨hconfig, ⟨?_, fun m path => ?_, ?_⟩, hun⟩
          · show LocalRows state (update w.chosen .localPool answers .localPool)
            rw [hchosen]
            exact hrows.mono hpicked
          · show _ ↔ Row.at? (update w.chosen .localPool answers .localPool) m path
            rw [hchosen]
            exact oneEach_spec heach m path
          · show ∀ row ∈ update w.chosen .localPool answers .localPool, _
            rw [hchosen]
            exact fun row hrow => hasked row (hpicked row hrow)
        rw [wp_bind, wp_when]
        split_ifs
        · rw [wp_bind]
          refine wp_selectWipe (fun picks => ?_) fun e => ⟨hconfig, hselected, ?_⟩
          · exact hdone _ (hw'.wipe _)
          · exact hw'.select []
        · exact hdone _ hw'

theorem mem_withLocalLoop {disks : OrdMap String Disk} {d : String × Disk}
    (h : d ∈ withLocalLoop n disks) : d.2 = loopDisk (localLoopSpec n) ∨ d ∈ disks := by
  unfold withLocalLoop at h
  split_ifs at h
  · rcases OrdMap.mem_set h with rfl | h
    · exact .inl rfl
    · exact .inr h
  · exact .inr h

variable {c : InitConfig}

theorem offering_shareLocalLoops (h : Offering state luns names c) :
    Offering state luns names { c with state := shareLocalLoops askSystems n c.state } := by
  refine ⟨h.systems, h.luns, ?_, fun e he d hd => ?_⟩
  · rw [← h.keys]
    show (c.state.map _).map _ = _
    rw [map_map]
    refine map_congr_left fun e _ => ?_
    show (if _ then _ else _ : String × SystemInformation).1 = e.1
    split_ifs
    · rfl
    · rfl
  · obtain ⟨e₀, he₀, rfl⟩ := List.mem_map.mp he
    split_ifs at hd with hasked
    · rw [if_pos hasked]
      rcases mem_withLocalLoop hd with hloop | hd
      · exact .inl ⟨n, hloop⟩
      · exact h.disks e₀ he₀ d hd
    · rw [if_neg hasked]
      exact h.disks e₀ he₀ d hd

theorem localRows_localDisks (askSystems : List String) (n : ℕ)
    (h : Offering state luns names c) :
    LocalRows state (rowsOf (localDisks c.state askSystems n)) ∧
      ∀ row ∈ rowsOf (localDisks c.state askSystems n), row.location ∈ askSystems := by
  have hrow : ∀ row ∈ rowsOf (localDisks c.state askSystems n), row.location ∈ askSystems ∧ ∃ disk,
      row.type = disk.type ∧ row.path = devicePath disk ∧
        ((∃ n, disk = loopDisk (localLoopSpec n)) ∨ disk.type ≠ diskTypeLoop ∧
          IsDisk state row.location disk) := by
    intro row hrow
    obtain ⟨e, he, d, hd, rfl⟩ := mem_rowsOf.mp hrow
    obtain ⟨e₀, he₀, rfl⟩ := List.mem_map.mp (mem_filter.mp he).1
    obtain ⟨he₀, hasked⟩ := mem_filter.mp he₀
    refine ⟨of_decide_eq_true hasked, d.2, rfl, rfl, ?_⟩
    rcases mem_withLocalLoop hd with hloop | hd
    · exact .inl ⟨n, hloop⟩
    · exact h.disks e₀ he₀ d hd
  refine ⟨⟨fun row hmem htype => ?_, fun row hmem htype => ?_⟩, fun row hmem => (hrow row hmem).1⟩
  · obtain ⟨-, disk, hsame, hpath, ⟨k, rfl⟩ | ⟨hdevice, -⟩⟩ := hrow row hmem
    · rw [hpath]
      exact localLoopSize_localLoopSpec k
    · exact absurd (hsame.symm.trans htype) hdevice
  · obtain ⟨-, disk, hsame, hpath, ⟨k, rfl⟩ | ⟨hdevice, hdisk⟩⟩ := hrow row hmem
    · exact absurd hsame htype
    · exact ⟨disk, hdisk, hpath.trans (devicePath_of_device hdevice)⟩

theorem LocalRows.path_ne_empty (h : LocalRows state rows) (hrow : row ∈ rows) : row.path ≠ "" := by
  intro hempty
  by_cases htype : row.type = diskTypeLoop
  · have hloop := h.loop row hrow htype
    rw [hempty] at hloop
    cases hloop
  · obtain ⟨disk, -, hpath⟩ := h.device row hrow htype
    exact formatDiskPath_ne_empty disk (hpath.symm.trans hempty)

theorem localDone_unplanned (hconfig : Offering state luns names c)
    (hchosen : LocalChosen state askSystems [] w) : LocalDone site state luns names [] c w := by
  refine ⟨⟨?_, hconfig.luns, hconfig.keys, hchosen.rows, hchosen.chosen, fun e he d hd => ?_⟩, fun e he => ?_⟩
  · rw [hconfig.systems, map_map]
    exact map_id _
  · rcases hconfig.disks e he d hd with ⟨k, hloop⟩ | ⟨hdevice, hdisk⟩
    · exact .inl ⟨k, .inl hloop⟩
    · exact .inr ⟨hdevice, hdisk, fun hpath => (nomatch hpath)⟩
  · rw [hconfig.systems] at he
    obtain ⟨name, -, rfl⟩ := List.mem_map.mp he
    exact ⟨rfl, rfl, rfl⟩

theorem localDone_planned {p : LocalPlan} (hconfig : Offering state luns names c)
    (hchosen : LocalChosen state p.askSystems p.selected w)
    (hwipeable : p.wipeable = site.extensions "storage_pool_source_wipe")
    (hwipe : p.wipeable = true → p.toWipe = p.selected) :
      LocalDone site state luns names p.selected (p.apply c) w := by
  have hasked : ∀ m path, p.selected.get m = some path → m ∈ p.askSystems := by
    intro m path hm
    obtain ⟨row, hrow, rfl, -⟩ := (hchosen.chosen m path).mp hm
    exact hchosen.asked row hrow
  have hpath : ∀ m path, p.selected.get m = some path → path ≠ "" := by
    intro m path hm
    obtain ⟨row, hrow, -, rfl⟩ := (hchosen.chosen m path).mp hm
    exact hchosen.rows.path_ne_empty hrow
  refine ⟨⟨?_, hconfig.luns, ?_, hchosen.rows, hchosen.chosen, fun e he d hd => ?_⟩, fun e he => ?_⟩
  · show (c.systems.map _).map _ = names
    rw [hconfig.systems, map_map, map_map]
    exact map_id _
  · show (c.state.map _).map _ = _
    rw [map_map]
    exact hconfig.keys
  · obtain ⟨e₀, he₀, rfl⟩ := List.mem_map.mp he
    replace hd : d ∈ (p.left e₀.1 e₀.2).availableDisks := hd
    unfold LocalPlan.left at hd
    by_cases hm : e₀.1 ∈ p.askSystems
    · rw [if_pos hm] at hd
      cases hselected : p.selected.get e₀.1 with
      | none =>
        simp only [hselected] at hd
        cases hd
      | some path =>
        simp only [hselected] at hd
        obtain ⟨hd, hother⟩ := mem_filter.mp hd
        rcases mem_withLocalLoop hd with hloop | hd
        · exact .inl ⟨p.loopGiB, .inl hloop⟩
        · rcases hconfig.disks e₀ he₀ d hd with ⟨k, hloop⟩ | ⟨hdevice, hdisk⟩
          · exact .inl ⟨k, .inl hloop⟩
          · refine .inr ⟨hdevice, hdisk, fun hsame => ?_⟩
            exact of_decide_eq_true hother (Option.some.inj hsame).symm
    · rw [if_neg hm] at hd
      rcases hconfig.disks e₀ he₀ d hd with ⟨k, hloop⟩ | ⟨hdevice, hdisk⟩
      · exact .inl ⟨k, .inl hloop⟩
      · exact .inr ⟨hdevice, hdisk, fun hsame => hm (hasked e₀.1 _ hsame)⟩
  · obtain ⟨e₀, he₀, rfl⟩ := List.mem_map.mp he
    rw [hconfig.systems] at he₀
    obtain ⟨name, -, rfl⟩ := List.mem_map.mp he₀
    exact ⟨localDisks_localPlan (hasked name) hwipeable hwipe (hpath name), localPlan_other⟩

theorem wp_askLocalPool {tries : ℕ} (hconfig : Offering state luns names l.config) (hw : Unasked w)
    (hfirst : w.chosen .localPool = []) :
    wp (operator site) (fun _ => True)
      (fun _ l w => ∃ selected, LocalDone site state luns names selected l.config w ∧ Unasked w)
        (fun _ _ _ => True)
      (askLocalPool site tries) l w := by
  have hnothing : LocalChosen state [] [] w := localChosen_nil hfirst
  have hskip : ∀ {l : Asking}, Offering state luns names l.config →
      ∃ selected, LocalDone site state luns names selected l.config w ∧ Unasked w := fun hconfig =>
    ⟨[], localDone_unplanned hconfig hnothing, hw⟩
  unfold askLocalPool
  rw [wp_bind, wp_locals]
  cases hasked : askedLocal l.config.state with
  | none => exact hskip hconfig
  | some asked =>
    obtain ⟨useJoinConfig, askSystems⟩ := asked
    dsimp only
    split_ifs
    · exact hskip hconfig
    · rw [wp_bind]
      refine wp_plain (c := .askBool _) (fun _ _ => rfl) (fun wants => ?_) fun _ => trivial
      split_ifs
      · exact hskip hconfig
      · rw [wp_bind]
        refine wp_plain (c := .askLoopSize _) (fun _ _ => rfl) (fun loopGiB => ?_) fun _ => trivial
        rw [wp_bind, wp_assign]
        have hshared : Offering state luns names
            { l.config with state := shareLocalLoops askSystems loopGiB l.config.state } :=
          offering_shareLocalLoops hconfig
        obtain ⟨hrows, hlocations⟩ := localRows_localDisks askSystems loopGiB hconfig
        split_ifs
        · exact hskip hshared
        · rw [wp_bind]
          refine wp_hasExtension ?_ fun _ => trivial
          rw [wp_bind, wp_assign, wp_bind]
          refine wp_mono (fun _ l w hdone => ?_) (fun _ _ _ _ => trivial)
            (wp_askRetry (J := fun l w => Offering state luns names l.config ∧
              l.selectedDisks = [] ∧ Unasked w)
              (fun l w h => wp_selectLocal hrows hlocations h.1 h.2.1 h.2.2) (fun l w h => h)
                (fun l w h => ?_)
              (fun _ _ _ => trivial) (E := fun _ _ _ => True) ⟨hshared, rfl, hw⟩)
          · obtain ⟨hconfig, hchosen, hw⟩ := hdone
            rw [wp_bind, wp_locals, wp_when]
            by_cases hnone : l.selectedDisks = []
            · rw [if_neg (by simp [hnone])]
              rw [hnone] at hchosen
              exact ⟨[], localDone_unplanned hconfig hchosen, hw⟩
            · rw [if_pos (decide_eq_true hnone)]
              exact ⟨l.selectedDisks,
                localDone_planned (p := ⟨site.name, askSystems, useJoinConfig, _, loopGiB,
                l.selectedDisks, _⟩) hconfig hchosen rfl fun hwipeable => if_pos hwipeable, hw⟩
          · obtain ⟨hconfig, hselected, hw⟩ := h
            rw [if_pos rfl]
            refine ⟨hconfig, ?_, hw.select []⟩
            have hgone : update w.chosen .localPool [] .localPool = [] := update_self _ _ _
            rw [hselected]
            exact localChosen_nil hgone

end

end IncusCloud.Firecloud
