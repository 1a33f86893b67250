import IncusCloud.Firecloud.SelectableTable
import Mathlib.Data.Finset.Sort
import Mathlib.Data.List.Range

/-!
# The selection follows the rows

The table of indexes does what the rows that carry their marks do, as long as no row is removed from
under a marked one.

Whatever happens, the displayed rows are the filtered ones, each under its index in the whole table,
the cursor is in the viewport, and no row is drawn that is not there.
-/

open List
open Option (bind_eq_some_iff some.inj bind_eq_bind bind_some)

namespace IncusCloud.Firecloud

open Lib
open List (getElem?_eq_getElem getElem?_map mem_map getElem?_modify)

namespace SelectableTable

/-! ### The displayed rows -/

variable {s t : SelectableTable} {header : List Bytes} {filter : Bytes} {rows : List (List Bytes)}
  {msg : TableMsg} {index : ℤ} {row : List Bytes}

theorem mem_matching {i : ℕ} :
    (row, i) ∈ matching filter rows ↔ rows[i]? = some row ∧ rowMatches filter row := by
  simp [matching, mem_zipIdx_iff_getElem?]

theorem matching_nil (rows : List (List Bytes)) : matching [] rows = rows.zipIdx := by
  simp [matching, rowMatches]

theorem matching_append (row : List Bytes) :
    matching filter (rows ++ [row]) =
      matching filter rows ++ if rowMatches filter row then [(row, rows.length)] else [] := by
  unfold matching
  rw [zipIdx_append, filter_append]
  congr 1
  simp [filter_cons]

theorem mapM_eq_some {α β : Type*} {f : α → Option β} {g : α → β} {l : List α}
    (h : ∀ a ∈ l, f a = some (g a)) : l.mapM f = some (l.map g) := by
  induction l with
  | nil => rfl
  | cons a l ih =>
    have ha := h a mem_cons_self
    have hl := ih fun b hb => h b (mem_cons_of_mem a hb)
    simp [mapM_cons, ha, hl]

theorem mapM_getElem? {α : Type*} [Inhabited α] (l : List α) :
    (List.range l.length).mapM (fun i => l[i]?) = some l := by
  have hget : ∀ i ∈ List.range l.length, l[i]? = some (l.getD i default) := by
    intro i hi
    have hlt := mem_range.mp hi
    simp [getD_eq_getElem?_getD, getElem?_eq_getElem hlt]
  rw [mapM_eq_some hget]
  congr 1
  apply ext_getElem
  · simp
  · intro i hi hi'
    simp [getD_eq_getElem?_getD, getElem?_eq_getElem hi']

/-- The cursor is in the viewport, and on a displayed row unless none is displayed. -/
structure InView (s : SelectableTable) : Prop where
  lower : s.startIndex ≤ s.currentRow
  upper : s.currentRow ≤ s.startIndex + s.size - 1
  cursor : s.currentRow < s.formatRows.length ∨ s.formatRows = []

structure Drawn (s : SelectableTable) : Prop where
  size : s.size = defaultTableSize
  format : s.formatRows = (matching s.filter s.rawRows).map (·.1)
  map : s.filterMap = (matching s.filter s.rawRows).map (·.2)
  lower : s.startIndex ≤ s.currentRow
  upper : s.currentRow < s.startIndex + s.size
  cursor : s.currentRow < s.formatRows.length ∨ s.currentRow = 0

theorem Drawn.inView (h : Drawn s) : InView s := by
  have hupper := h.upper
  refine ⟨h.lower, by omega, ?_⟩
  rcases h.cursor with hcursor | hcursor
  · exact .inl hcursor
  · by_cases hnil : s.formatRows = []
    · exact .inr hnil
    · have hpos := length_pos_of_ne_nil hnil
      exact .inl (by omega)

theorem Drawn.length (h : Drawn s) : s.formatRows.length = s.filterMap.length := by
  rw [h.format, h.map, length_map, length_map]

theorem Drawn.displayed (h : Drawn s) {i : ℕ} (hi : s.formatRows[i]? = some row) :
    s.filterMap[i]? = some (s.rawIndex i) ∧ s.rawRows[s.rawIndex i]? = some row ∧
      rowMatches s.filter row := by
  rw [h.format, getElem?_map] at hi
  obtain ⟨⟨cells, k⟩, hk, rfl⟩ := Option.map_eq_some_iff.mp hi
  have hmap : s.filterMap[i]? = some k := by
    rw [h.map, getElem?_map, hk]
    rfl
  have hraw : s.rawIndex i = k := by simp [rawIndex, hmap]
  rw [hraw]
  exact ⟨hmap, mem_matching.mp (mem_of_getElem? hk)⟩

theorem Drawn.view (h : Drawn s) : ∃ rows, s.view = some rows := by
  unfold SelectableTable.view
  split_ifs
  · have hstyle : ∀ i ∈ List.range s.formatRows.length,
      s.rowStyle i = some (s.formatRows.getD i []) := by
      intro i hi
      have hget := getElem?_eq_getElem (mem_range.mp hi)
      have hraw := (h.displayed hget).2.1
      simp only [rowStyle, hget, hraw, bind_eq_bind, bind_some, getD_eq_getElem?_getD,
        Option.getD_some]
      exact mapM_getElem? _
    rw [mapM_eq_some hstyle]
    exact ⟨_, rfl⟩
  · exact ⟨[], rfl⟩

/-! ### Every message keeps the view drawn -/

theorem drawn_filterRows (hsize : s.size = defaultTableSize) (updatePos : Bool)
    (hpos : updatePos = true ∨ (s.startIndex ≤ s.currentRow ∧ s.currentRow < s.startIndex + s.size ∧
      (s.currentRow < (matching s.filter s.rawRows).length ∨ s.currentRow = 0))) :
    Drawn (s.filterRows updatePos) := by
  refine ⟨hsize, rfl, rfl, ?_, ?_, ?_⟩
  all_goals
    rcases hpos with hpos | ⟨hlower, hupper, hcursor⟩
    · simp [filterRows, hpos, hsize, defaultTableSize]
    · cases updatePos <;> simp_all [filterRows, defaultTableSize]

theorem drawn_init (hsize : s.size = defaultTableSize) : Drawn s.init := by
  refine ⟨hsize, ?_, ?_, le_rfl, ?_, .inr rfl⟩
  · simp [init, matching_nil]
  · simp [init, matching_nil, zipIdx_map_snd, range_eq_range']
  · simp [init, hsize, defaultTableSize]

theorem Drawn.insert (h : Drawn s) (row : List Bytes) : Drawn (s.handleInsertEvent row) := by
  refine drawn_filterRows (s := { s with rawRows := s.rawRows ++ [row] })
    h.size false (.inr ⟨h.lower, h.upper, ?_⟩)
  have hcursor := h.cursor
  rw [h.format, length_map] at hcursor
  show s.currentRow < (matching s.filter (s.rawRows ++ [row])).length ∨ s.currentRow = 0
  rw [matching_append, length_append]
  omega

theorem handleKeyEvent_up (s : SelectableTable) :
    s.handleKeyEvent .up =
      if 0 < s.currentRow then
        { s with
          currentRow := s.currentRow - 1
          startIndex := if s.currentRow - 1 < s.startIndex then s.startIndex - 1 else s.startIndex }
      else s := rfl

theorem handleKeyEvent_down (s : SelectableTable) :
    s.handleKeyEvent .down =
      if s.currentRow + 1 < s.formatRows.length then
        { s with
          currentRow := s.currentRow + 1
          startIndex := if s.startIndex + s.size ≤ s.currentRow + 1 then s.startIndex +
            1 else s.startIndex }
      else s := rfl

theorem handleKeyEvent_space (s : SelectableTable) :
    s.handleKeyEvent .space =
      if !s.rowDisabled s.currentRow && decide (0 < s.formatRows.length) then
        if s.rowActive s.currentRow then { s with activeRows := s.activeRows.erase (s.rawIndex s.currentRow : ℤ) }
        else { s with activeRows := insert (s.rawIndex s.currentRow : ℤ) s.activeRows }
      else s := rfl

theorem Drawn.key (h : Drawn s) (key : TableKey) : Drawn (s.handleKeyEvent key) := by
  have hlower := h.lower
  have hupper := h.upper
  have hcursor := h.cursor
  have hsize : s.size = 10 := h.size
  cases key with
  | esc | ctrlC | enter | left | other => exact ⟨h.size, h.format, h.map, hlower, hupper, hcursor⟩
  | right => exact ⟨h.size, h.format, h.map, hlower, hupper, hcursor⟩
  | backspace => exact drawn_filterRows (s := { s with filter := s.filter.dropLast }) h.size true (.inl rfl)
  | delete => exact drawn_filterRows (s := { s with filter := s.filter.drop 1 }) h.size true (.inl rfl)
  | runes runes =>
    exact drawn_filterRows (s :=
      { s with filter := s.filter ++ runes.flatMap String.utf8EncodeChar }) h.size true
      (.inl rfl)
  | up =>
    rw [handleKeyEvent_up]
    by_cases hpos : 0 < s.currentRow
    · rw [if_pos hpos]
      refine ⟨h.size, h.format, h.map, ?_, ?_, ?_⟩
      · show (if s.currentRow - 1 < s.startIndex then s.startIndex - 1 else s.startIndex) ≤
          s.currentRow - 1
        split_ifs <;> omega
      · show s.currentRow - 1 <
          (if s.currentRow - 1 < s.startIndex then s.startIndex - 1 else s.startIndex) + s.size
        split_ifs <;> omega
      · show s.currentRow - 1 < s.formatRows.length ∨ s.currentRow - 1 = 0
        omega
    · rw [if_neg hpos]
      exact h
  | down =>
    rw [handleKeyEvent_down]
    by_cases hpos : s.currentRow + 1 < s.formatRows.length
    · rw [if_pos hpos]
      refine ⟨h.size, h.format, h.map, ?_, ?_, .inl hpos⟩
      · show (if s.startIndex + s.size ≤ s.currentRow + 1 then s.startIndex + 1 else s.startIndex) ≤
          s.currentRow + 1
        split_ifs <;> omega
      · show s.currentRow + 1 <
          (if s.startIndex + s.size ≤ s.currentRow + 1 then s.startIndex + 1 else s.startIndex) +
            s.size
        split_ifs <;> omega
    · rw [if_neg hpos]
      exact h
  | space =>
    rw [handleKeyEvent_space]
    split_ifs
    · exact ⟨h.size, h.format, h.map, hlower, hupper, hcursor⟩
    · exact ⟨h.size, h.format, h.map, hlower, hupper, hcursor⟩
    · exact h

theorem Drawn.update (h : Drawn s) (ht : s.update msg = some t) : Drawn t := by
  cases msg with
  | windowSize width =>
    obtain rfl := some.inj ht
    exact ⟨h.size, h.format, h.map, h.lower, h.upper, h.cursor⟩
  | key key =>
    obtain rfl := some.inj ht
    exact h.key key
  | insert row =>
    obtain rfl := some.inj ht
    exact h.insert row
  | remove index =>
    unfold update handleRemoveEvent at ht
    split_ifs at ht
    obtain rfl := some.inj ht
    exact drawn_filterRows (s := s.removeRow index) h.size true (.inl rfl)
  | disable index =>
    obtain rfl := some.inj ht
    exact ⟨h.size, h.format, h.map, h.lower, h.upper, h.cursor⟩
  | enable index =>
    obtain rfl := some.inj ht
    exact ⟨h.size, h.format, h.map, h.lower, h.upper, h.cursor⟩
  | error message =>
    obtain rfl := some.inj ht
    exact ⟨h.size, h.format, h.map, h.lower, h.upper, h.cursor⟩

theorem Drawn.step_eq (h : Drawn s) (ht : s.update msg = some t) : s.step msg = some t := by
  obtain ⟨rows, hview⟩ := (h.update ht).view
  unfold SelectableTable.step
  rw [ht]
  simp [hview]

end SelectableTable

/-! ### The selection -/

namespace SelectableTable

variable {s t : SelectableTable} {header : List Bytes} {filter : Bytes} {rows : List (List Bytes)}

/-! ### The marks follow the rows -/

def marked (s : SelectableTable) : MarkedTable where
  rows := s.rawRows.zipIdx.map fun e => ⟨e.1, (e.2 : ℤ) ∈ s.activeRows, (e.2 : ℤ) ∈ s.disabledRows⟩
  filter := s.filter
  cursor := s.currentRow

theorem marked_rows (s : SelectableTable) (i : ℕ) :
    s.marked.rows[i]? =
      s.rawRows[i]?.map fun row =>
        ⟨row, ((i : ℕ) : ℤ) ∈ s.activeRows, ((i : ℕ) : ℤ) ∈ s.disabledRows⟩ := by
  unfold marked
  rw [getElem?_map, List.getElem?_zipIdx, Option.map_map, Nat.zero_add]
  rfl

theorem marked_cells (s : SelectableTable) : s.marked.rows.map (·.cells) = s.rawRows := by
  apply ext_getElem?
  intro i
  rw [getElem?_map, marked_rows, Option.map_map]
  exact Option.map_id'

theorem Drawn.shown (h : Drawn s) : s.marked.shown = s.filterMap := by
  unfold MarkedTable.shown
  rw [marked_cells]
  exact h.map.symm

def Tracked (s : SelectableTable) : Prop := ∀ index, index ∈ s.activeRows ∨ index ∈ s.disabledRows →
    s.HasRow index

/-- A message that does not take a row from under a marked one: nothing above a removed row is
selected or disabled, only rows of the table are disabled, and a new row is no longer than the
header. -/
def Clean (s : SelectableTable) : TableMsg → Prop
  | .remove index => s.HasRow index ∧ ∀ other ∈ s.activeRows ∪ s.disabledRows, other ≤ index
  | .disable index => s.HasRow index
  | .insert row => row.length ≤ s.header.length
  | _ => True

instance (s : SelectableTable) (msg : TableMsg) : Decidable (s.Clean msg) := by
  cases msg <;> unfold Clean <;> infer_instance

structure Follows (s : SelectableTable) (t : MarkedTable) : Prop where
  drawn : Drawn s
  marked : s.marked = t
  tracked : Tracked s
  fits : ∀ row ∈ s.rawRows, row.length ≤ s.header.length

theorem follows_init (hsize : s.size = defaultTableSize)
    (hfits : ∀ row ∈ s.rawRows, row.length ≤ s.header.length) :
    Follows s.init (.fresh s.rawRows) := by
  refine ⟨drawn_init hsize, ?_, ?_, hfits⟩
  · unfold SelectableTable.marked MarkedTable.fresh
    simp only [init, MarkedTable.mk.injEq, and_true]
    apply ext_getElem?
    intro i
    simp [List.getElem?_zipIdx]
    rfl
  · intro index hindex
    simp [init] at hindex

theorem marked_eq {rows : List MarkedRow} {filter : Bytes} {cursor : ℕ}
    (hrows : ∀ i : ℕ, s.marked.rows[i]? = rows[i]?)
    (hfilter : s.filter = filter) (hcursor : s.currentRow = cursor) :
      s.marked = ⟨rows, filter, cursor⟩ := by
  have heq : s.marked.rows = rows := ext_getElem? hrows
  rw [← heq, ← hfilter, ← hcursor]
  rfl

theorem Drawn.mem_filterMap (h : Drawn s) {i : ℕ} :
    i ∈ s.filterMap ↔ ∃ row, s.rawRows[i]? = some row ∧ rowMatches s.filter row := by
  rw [h.map, mem_map]
  constructor
  · rintro ⟨⟨row, k⟩, hk, rfl⟩
    exact ⟨row, mem_matching.mp hk⟩
  · rintro ⟨row, hrow⟩
    exact ⟨(row, i), mem_matching.mpr hrow, rfl⟩

theorem mem_selectAll {indexes : List ℕ} {disabled : ℕ → Bool} {raw : ℕ → ℕ} {active : Finset ℤ} :
    index ∈ indexes.foldl (fun active i => if disabled i then active else insert (raw i : ℤ) active)
      active ↔
      index ∈ active ∨ ∃ i ∈ indexes, disabled i = false ∧ (raw i : ℤ) = index := by
  induction indexes generalizing active with
  | nil => simp
  | cons i indexes ih =>
    rw [foldl_cons, ih]
    by_cases hi : disabled i
    · simp [hi]
    · simp only [Bool.not_eq_true] at hi
      simp only [hi, Bool.false_eq_true, if_false, Finset.mem_insert, exists_mem_cons_iff, true_and]
      rw [eq_comm, or_assoc, or_left_comm]

theorem Drawn.mem_right (h : Drawn s) {i : ℕ} :
    (i : ℤ) ∈ (s.handleKeyEvent .right).activeRows ↔
      (i : ℤ) ∈ s.activeRows ∨ (i ∈ s.filterMap ∧ (i : ℤ) ∉ s.disabledRows) := by
  refine mem_selectAll.trans (or_congr_right ?_)
  have hlength := h.length
  constructor
  · rintro ⟨k, hk, hdisabled, hraw⟩
    have hi : s.rawIndex k = i := by exact_mod_cast hraw
    have hget := (h.displayed (getElem?_eq_getElem (mem_range.mp hk))).1
    rw [rowDisabled, hi, decide_eq_false_iff_not] at hdisabled
    rw [hi] at hget
    exact ⟨mem_of_getElem? hget, hdisabled⟩
  · rintro ⟨hmem, hdisabled⟩
    obtain ⟨k, hk, hget⟩ := mem_iff_getElem.mp hmem
    have hraw : s.rawIndex k =
      i := by simp [rawIndex, getD_eq_getElem?_getD, getElem?_eq_getElem hk, hget]
    refine ⟨k, mem_range.mpr (by omega), ?_, by rw [hraw]⟩
    rw [rowDisabled, hraw, decide_eq_false_iff_not]
    exact hdisabled

theorem Drawn.marked_right (h : Drawn s) : (s.handleKeyEvent .right).marked =
    s.marked.press .right := by
  refine marked_eq (fun i => ?_) rfl rfl
  rw [marked_rows, getElem?_map, marked_rows, Option.map_map]
  show s.rawRows[i]?.map _ = s.rawRows[i]?.map _
  rcases hi : s.rawRows[i]? with _ | row
  · rfl
  · have hmem : i ∈ s.filterMap ↔ rowMatches s.filter row = true := by simp [h.mem_filterMap, hi]
    have hright := h.mem_right (i := i)
    have hdisabled : (s.handleKeyEvent .right).disabledRows = s.disabledRows := rfl
    have hfilter : s.marked.filter = s.filter := rfl
    by_cases hrow : rowMatches s.filter row
    · simp [MarkedRow.select, hright, hmem, hdisabled, hfilter, hrow]
    · simp [hright, hmem, hdisabled, hfilter, hrow]

theorem Drawn.marked_space (h : Drawn s) : (s.handleKeyEvent .space).marked =
    s.marked.press .space := by
  have hlength := h.length
  rw [handleKeyEvent_space]
  by_cases hpos : 0 < s.formatRows.length
  · have hcursor : s.currentRow < s.formatRows.length := by
      rcases h.cursor with hcursor | hcursor <;> omega
    obtain ⟨hget, hraw, -⟩ := h.displayed (getElem?_eq_getElem hcursor)
    have hshown : s.marked.shown[s.marked.cursor]? = some (s.rawIndex s.currentRow) := by
      rw [h.shown]
      exact hget
    have hpress : s.marked.press .space =
        { s.marked with rows := s.marked.rows.modify (s.rawIndex s.currentRow) .toggle } := by
      unfold MarkedTable.press
      rw [hshown]
    rw [hpress]
    generalize hk : s.rawIndex s.currentRow = k at hraw
    simp only [rowDisabled, rowActive, hk, hpos, decide_true, Bool.and_true]
    by_cases hdisabled : (k : ℤ) ∈ s.disabledRows
    · have htoggle : s.marked.rows.modify k .toggle = s.marked.rows := by
        apply ext_getElem?
        intro i
        rw [getElem?_modify, marked_rows]
        split_ifs with hi
        · subst hi
          simp [hraw, MarkedRow.toggle, hdisabled]
        · simp
      simp [hdisabled, htoggle]
    · split_ifs with hnot hactive
      · refine marked_eq (fun i => ?_) rfl rfl
        rw [getElem?_modify, marked_rows, marked_rows]
        by_cases hi : k = i
        · subst hi
          simp_all [MarkedRow.toggle]
        · have hne : (i : ℤ) ≠ (k : ℤ) := by omega
          simp [hi, hne]
      · refine marked_eq (fun i => ?_) rfl rfl
        rw [getElem?_modify, marked_rows, marked_rows]
        by_cases hi : k = i
        · subst hi
          simp_all [MarkedRow.toggle]
        · have hne : (i : ℤ) ≠ (k : ℤ) := by omega
          simp [hi, hne]
      · simp [hdisabled] at hnot
  · have hempty : s.marked.shown[s.marked.cursor]? = none := by
      rw [h.shown, List.getElem?_eq_none_iff]
      omega
    have hpress : s.marked.press .space = s.marked := by
      unfold MarkedTable.press
      rw [hempty]
    rw [hpress]
    simp [hpos]

theorem marked_unselect (hactive : t.activeRows = ∅) (hraw : t.rawRows = s.rawRows)
    (hdisabled : t.disabledRows = s.disabledRows) (hfilter : t.filter = s.filter)
    (hcursor : t.currentRow = s.currentRow) :
    t.marked = { s.marked with rows := s.marked.rows.map .unselect } := by
  refine marked_eq (fun i => ?_) hfilter hcursor
  rw [marked_rows, getElem?_map, marked_rows, Option.map_map, hraw, hactive, hdisabled]
  rfl

theorem Drawn.marked_key (h : Drawn s) (key : TableKey) : (s.handleKeyEvent key).marked =
    s.marked.press key := by
  have hlength := h.length
  cases key with
  | esc | ctrlC | left | other => exact marked_unselect rfl rfl rfl rfl rfl
  | up =>
    rw [handleKeyEvent_up]
    show _ = { s.marked with cursor := s.currentRow - 1 }
    by_cases hpos : 0 < s.currentRow
    · rw [if_pos hpos]
      rfl
    · have hzero : s.currentRow - 1 = s.currentRow := by omega
      rw [if_neg hpos, hzero]
      rfl
  | down =>
    have hshown : s.marked.shown.length = s.formatRows.length := by rw [h.shown, hlength]
    rw [handleKeyEvent_down]
    show _ = if s.currentRow +
      1 < s.marked.shown.length then { s.marked with cursor := s.currentRow + 1 } else s.marked
    rw [hshown]
    split_ifs <;> rfl
  | right => exact h.marked_right
  | space => exact h.marked_space
  | _ => rfl

theorem marked_insert (h : Tracked s) (row : List Bytes) :
    (s.handleInsertEvent row).marked = s.marked.handle (.insert row) := by
  refine marked_eq (fun i => ?_) rfl rfl
  have hlength : s.marked.rows.length = s.rawRows.length := by simp [marked]
  have hnew : ∀ index : ℤ, index ∈ s.activeRows ∨ index ∈ s.disabledRows →
    index ≠ (s.rawRows.length : ℤ) := by
    intro index hindex heq
    exact absurd (h index hindex).2 (by omega)
  rw [marked_rows]
  show (s.rawRows ++ [row])[i]?.map _ = _
  rcases lt_trichotomy i s.rawRows.length with hi | hi | hi
  · rw [List.getElem?_append_left hi, List.getElem?_append_left (by omega), marked_rows]
    rfl
  · have hactive : (s.rawRows.length : ℤ) ∉ s.activeRows := fun hmem => hnew _ (.inl hmem) rfl
    have hdisabled : (s.rawRows.length : ℤ) ∉ s.disabledRows := fun hmem => hnew _ (.inr hmem) rfl
    subst hi
    simp [hlength, handleInsertEvent, filterRows, hactive, hdisabled]
  · rw [List.getElem?_eq_none (by simp; omega), List.getElem?_eq_none (by simp [hlength]; omega)]
    rfl

theorem marked_change {f : MarkedRow → MarkedRow} (hraw : t.rawRows = s.rawRows)
    (hfilter : t.filter = s.filter) (hcursor : t.currentRow = s.currentRow)
    (hrow : ∀ row, f ⟨row, index ∈ s.activeRows, index ∈ s.disabledRows⟩ =
      ⟨row, index ∈ t.activeRows, index ∈ t.disabledRows⟩)
    (hrest : ∀ other, other ≠ index →
      (other ∈ t.activeRows ↔ other ∈ s.activeRows) ∧
        (other ∈ t.disabledRows ↔ other ∈ s.disabledRows)) :
    t.marked = s.marked.change index f := by
  unfold MarkedTable.change
  split_ifs with hpos
  · refine marked_eq (fun i => ?_) hfilter hcursor
    rw [getElem?_modify, marked_rows, marked_rows, hraw]
    by_cases hi : index.toNat = i
    · have hindex : ((i : ℕ) : ℤ) = index := by omega
      rcases hrowi : s.rawRows[i]? with _ | row
      · rfl
      · simp [hi, hindex, hrow]
    · have hindex : ((i : ℕ) : ℤ) ≠ index := by omega
      simp [hi, hrest _ hindex]
  · refine marked_eq (fun i => ?_) hfilter hcursor
    have hindex : ((i : ℕ) : ℤ) ≠ index := by omega
    show _ = s.marked.rows[i]?
    rw [marked_rows, marked_rows, hraw]
    simp [hrest _ hindex]

theorem map_filter_zipIdx {α : Type*} (l : List α) (k n : ℕ) :
    ((l.zipIdx n).filter fun e => (e.2 : ℤ) ≠ ((n + k : ℕ) : ℤ)).map (·.1) = l.eraseIdx k := by
  induction l generalizing k n with
  | nil => simp
  | cons a l ih =>
    rw [zipIdx_cons]
    cases k with
    | zero =>
      have hall : (l.zipIdx (n + 1)).filter (fun e => (e.2 : ℤ) ≠ ((n + 0 : ℕ) : ℤ)) =
        l.zipIdx (n + 1) := by
        refine filter_eq_self.mpr fun e he => ?_
        have hle := le_snd_of_mem_zipIdx he
        simp only [ne_eq, decide_eq_true_eq]
        omega
      rw [filter_cons_of_neg (by simp), hall, zipIdx_map_fst, eraseIdx_zero, tail_cons]
    | succ k =>
      have hk : ((n + (k + 1) : ℕ) : ℤ) = ((n + 1 + k : ℕ) : ℤ) := by omega
      rw [filter_cons_of_pos (by simp; omega), map_cons, hk, ih k (n + 1), eraseIdx_cons_succ]

theorem removeRow_eq (hindex : s.HasRow index) :
    s.removeRow index =
      { s with
        rawRows := s.rawRows.eraseIdx index.toNat
        activeRows := s.activeRows.erase index
        disabledRows := s.disabledRows.erase index } := by
  have hraw := map_filter_zipIdx s.rawRows index.toNat 0
  have hcast : ((0 + index.toNat : ℕ) : ℤ) = index := by
    have hpos := hindex.1
    omega
  rw [hcast] at hraw
  unfold removeRow
  rw [hraw, if_pos hindex, if_pos hindex]

theorem marked_remove (hindex : s.HasRow index)
    (htop : ∀ other ∈ s.activeRows ∪ s.disabledRows, other ≤ index) :
    ((s.removeRow index).filterRows true).marked = s.marked.handle (.remove index) := by
  obtain ⟨k, rfl⟩ := Int.eq_ofNat_of_zero_le hindex.1
  have hremove := removeRow_eq hindex
  rw [Int.toNat_natCast] at hremove
  have habove : ∀ i : ℕ, k < i → (i : ℤ) ∉ s.activeRows ∧ (i : ℤ) ∉ s.disabledRows := by
    intro i hi
    constructor
    · intro hmem
      have hle := htop i (Finset.mem_union_left _ hmem)
      omega
    · intro hmem
      have hle := htop i (Finset.mem_union_right _ hmem)
      omega
  have hhandle : s.marked.handle (.remove k) = { s.marked with rows := s.marked.rows.eraseIdx k, cursor := 0 } := by
    simp [MarkedTable.handle]
  rw [hhandle]
  refine marked_eq (fun i => ?_) rfl rfl
  rw [marked_rows, List.getElem?_eraseIdx, marked_rows, marked_rows, hremove]
  simp only [filterRows, List.getElem?_eraseIdx, Finset.mem_erase]
  split_ifs with hi
  · have hne : (i : ℤ) ≠ (k : ℤ) := by omega
    simp [hne]
  · have hnext := habove (i + 1) (by omega)
    push_cast at hnext
    by_cases hik : i = k
    · subst hik
      simp [hnext.1, hnext.2]
    · have hhere := habove i (by omega)
      simp [hnext.1, hnext.2, hhere.1, hhere.2]

theorem Drawn.marked_update (h : Drawn s) (htracked : Tracked s) (hclean : s.Clean msg)
    (ht : s.update msg = some t) : t.marked = s.marked.handle msg := by
  cases msg with
  | windowSize width | error message =>
    obtain rfl := some.inj ht
    rfl
  | key key =>
    obtain rfl := some.inj ht
    exact h.marked_key key
  | insert row =>
    obtain rfl := some.inj ht
    exact marked_insert htracked row
  | remove index =>
    unfold SelectableTable.update handleRemoveEvent at ht
    split_ifs at ht
    obtain rfl := some.inj ht
    exact marked_remove hclean.1 hclean.2
  | disable index =>
    obtain rfl := some.inj ht
    refine marked_change rfl rfl rfl (fun row => ?_) fun other hother => ?_
    · simp [handleDisableEvent, MarkedRow.disable]
    · simp [handleDisableEvent, hother]
  | enable index =>
    obtain rfl := some.inj ht
    refine marked_change rfl rfl rfl (fun row => ?_) fun other hother => ?_
    · simp [handleEnableEvent, MarkedRow.enable]
      rfl
    · simp [handleEnableEvent, hother]

theorem Tracked.key (h : Tracked s) (hdrawn : Drawn s) (key : TableKey) :
    Tracked (s.handleKeyEvent key) := by
  have hrow : ∀ i, i ∈ s.filterMap → s.HasRow i := by
    intro i hi
    obtain ⟨row, hget, -⟩ := hdrawn.mem_filterMap.mp hi
    have hlt := (List.getElem?_eq_some_iff.mp hget).1
    exact ⟨by omega, by omega⟩
  intro index hindex
  cases key with
  | esc | ctrlC | left | other => exact h index (.inr (by simpa [handleKeyEvent] using hindex))
  | enter | backspace | delete | runes => exact h index hindex
  | up =>
    rw [handleKeyEvent_up] at hindex ⊢
    split_ifs at hindex ⊢ <;> exact h index hindex
  | down =>
    rw [handleKeyEvent_down] at hindex ⊢
    split_ifs at hindex ⊢ <;> exact h index hindex
  | right =>
    rcases hindex with hactive | hdisabled
    · rcases mem_selectAll.mp hactive with hmem | ⟨i, hi, -, hraw⟩
      · exact h index (.inl hmem)
      · have hget := (hdrawn.displayed (getElem?_eq_getElem (mem_range.mp hi))).1
        rw [← hraw]
        exact hrow _ (mem_of_getElem? hget)
    · exact h index (.inr hdisabled)
  | space =>
    rw [handleKeyEvent_space] at hindex ⊢
    by_cases hpos : 0 < s.formatRows.length
    · have hcursor : s.currentRow < s.formatRows.length := by
        rcases hdrawn.cursor with hcursor | hcursor <;> omega
      have hget := (hdrawn.displayed (getElem?_eq_getElem hcursor)).1
      have hhere := hrow _ (mem_of_getElem? hget)
      split_ifs at hindex ⊢
      · rcases hindex with hmem | hmem
        · exact h index (.inl (Finset.mem_of_mem_erase hmem))
        · exact h index (.inr hmem)
      · rcases hindex with hmem | hmem
        · rcases Finset.mem_insert.mp hmem with rfl | hmem
          · exact hhere
          · exact h index (.inl hmem)
        · exact h index (.inr hmem)
      · exact h index hindex
    · simp only [hpos, decide_false, Bool.and_false, Bool.false_eq_true, if_false] at hindex ⊢
      exact h index hindex

theorem key_frame (s : SelectableTable) (key : TableKey) :
    (s.handleKeyEvent key).header = s.header ∧ (s.handleKeyEvent key).rawRows = s.rawRows ∧
      (s.err = none → (s.handleKeyEvent key).err = none) := by
  cases key with
  | esc | ctrlC | enter | left | right | backspace | delete | runes => exact ⟨rfl, rfl, id⟩
  | other => exact ⟨rfl, rfl, fun herr => by simp [handleKeyEvent, herr]⟩
  | up =>
    rw [handleKeyEvent_up]
    split_ifs <;> exact ⟨rfl, rfl, id⟩
  | down =>
    rw [handleKeyEvent_down]
    split_ifs <;> exact ⟨rfl, rfl, id⟩
  | space =>
    rw [handleKeyEvent_space]
    split_ifs <;> exact ⟨rfl, rfl, id⟩

variable {m : MarkedTable}

theorem Follows.update (h : Follows s m) (hclean : s.Clean msg)
    (ht : s.update msg = some t) : Follows t (m.handle msg) := by
  have hmarked := h.drawn.marked_update h.tracked hclean ht
  rw [h.marked] at hmarked
  refine ⟨h.drawn.update ht, hmarked, ?_, ?_⟩
  · cases msg with
    | windowSize width | error message =>
      obtain rfl := some.inj ht
      exact h.tracked
    | key key =>
      obtain rfl := some.inj ht
      exact h.tracked.key h.drawn key
    | insert row =>
      obtain rfl := some.inj ht
      intro index hindex
      have hrow := h.tracked index hindex
      have hlength : (s.handleInsertEvent row).rawRows.length = s.rawRows.length + 1 := by
        simp [handleInsertEvent, filterRows]
      have hlt := hrow.2
      exact ⟨hrow.1, by omega⟩
    | remove index =>
      unfold SelectableTable.update handleRemoveEvent at ht
      split_ifs at ht
      obtain rfl := some.inj ht
      intro other hother
      rw [removeRow_eq hclean.1] at hother ⊢
      have hmem : other ≠ index ∧ (other ∈ s.activeRows ∨ other ∈ s.disabledRows) := by
        rcases hother with hother | hother
        · exact ⟨Finset.ne_of_mem_erase hother, .inl (Finset.mem_of_mem_erase hother)⟩
        · exact ⟨Finset.ne_of_mem_erase hother, .inr (Finset.mem_of_mem_erase hother)⟩
      have hle := hclean.2 other (Finset.mem_union.mpr hmem.2)
      have hpos := (h.tracked other hmem.2).1
      obtain ⟨hindex, hlt⟩ := hclean.1
      have hlength : (s.rawRows.eraseIdx index.toNat).length = s.rawRows.length - 1 :=
        length_eraseIdx_of_lt (by omega)
      refine ⟨hpos, ?_⟩
      show other < ((s.rawRows.eraseIdx index.toNat).length : ℤ)
      have hne := hmem.1
      omega
    | disable index =>
      obtain rfl := some.inj ht
      intro other hother
      rcases hother with hmem | hmem
      · exact h.tracked other (.inl (Finset.mem_of_mem_erase hmem))
      · rcases Finset.mem_insert.mp hmem with rfl | hmem
        · exact hclean
        · exact h.tracked other (.inr hmem)
    | enable index =>
      obtain rfl := some.inj ht
      intro other hother
      rcases hother with hmem | hmem
      · exact h.tracked other (.inl hmem)
      · exact h.tracked other (.inr (Finset.mem_of_mem_erase hmem))
  · cases msg with
    | windowSize width | error message | disable index | enable index =>
      obtain rfl := some.inj ht
      exact h.fits
    | key key =>
      obtain rfl := some.inj ht
      have hframe := key_frame s key
      rw [hframe.1, hframe.2.1]
      exact h.fits
    | insert row =>
      obtain rfl := some.inj ht
      intro row' hrow'
      rcases mem_append.mp hrow' with hmem | hmem
      · exact h.fits row' hmem
      · rw [mem_singleton.mp hmem]
        exact hclean
    | remove index =>
      unfold SelectableTable.update handleRemoveEvent at ht
      split_ifs at ht
      obtain rfl := some.inj ht
      intro row hrow
      obtain ⟨e, he, rfl⟩ := List.mem_map.mp hrow
      exact h.fits _ (fst_mem_of_mem_zipIdx (mem_of_mem_filter he))

/-! ### Runs -/

def Listed (msg : TableMsg) : Prop := ∀ message, msg ≠ .error message

def CleanRun : SelectableTable → List TableMsg → Prop
  | _, [] => True
  | s, msg :: msgs => s.Clean msg ∧ ∀ t ∈ s.step msg, t.CleanRun msgs

instance decidableCleanRun : (s : SelectableTable) → (msgs : List TableMsg) →
    Decidable (s.CleanRun msgs)
  | _, [] => inferInstanceAs (Decidable True)
  | s, msg :: msgs =>
    have : ∀ t : SelectableTable, Decidable (t.CleanRun msgs) := fun t => decidableCleanRun t msgs
    inferInstanceAs (Decidable (s.Clean msg ∧ ∀ t ∈ s.step msg, t.CleanRun msgs))

theorem update_of_clean (hclean : s.Clean msg) : ∃ t, s.update msg = some t := by
  cases msg with
  | windowSize | key | insert | disable | enable | error => exact ⟨_, rfl⟩
  | remove index =>
    have hrows : s.rawRows ≠ [] := by
      intro hnil
      obtain ⟨hpos, hlt⟩ := hclean.1
      rw [hnil, length_nil] at hlt
      omega
    exact ⟨_, if_neg hrows⟩

theorem update_frame (hlisted : Listed msg) (ht : s.update msg = some t) :
    t.header = s.header ∧ (s.err = none → t.err = none) := by
  cases msg with
  | windowSize | insert | disable | enable =>
    obtain rfl := some.inj ht
    exact ⟨rfl, id⟩
  | key key =>
    obtain rfl := some.inj ht
    have hframe := key_frame s key
    exact ⟨hframe.1, hframe.2.2⟩
  | remove index =>
    unfold update handleRemoveEvent at ht
    split_ifs at ht
    obtain rfl := some.inj ht
    exact ⟨rfl, id⟩
  | error message => exact absurd rfl (hlisted message)

theorem Drawn.run (h : Drawn s) {msgs : List TableMsg} (ht : msgs.foldlM step s = some t) :
    Drawn t := by
  induction msgs generalizing s with
  | nil =>
    obtain rfl := some.inj ht
    exact h
  | cons msg msgs ih =>
    obtain ⟨u, hu, ht⟩ := bind_eq_some_iff.mp ht
    have hupdate : s.update msg = some u := by
      unfold SelectableTable.step at hu
      obtain ⟨v, hv, hu⟩ := bind_eq_some_iff.mp hu
      obtain ⟨rows, -, hu⟩ := bind_eq_some_iff.mp hu
      rw [hv]
      exact hu
    exact ih (h.update hupdate) ht

theorem Follows.run (h : Follows s m) {msgs : List TableMsg} (hlisted : ∀ msg ∈ msgs, Listed msg)
    (hclean : s.CleanRun msgs) :
    ∃ t, msgs.foldlM step s = some t ∧ Follows t (msgs.foldl .handle m) ∧ t.header = s.header ∧
      (s.err = none → t.err = none) := by
  induction msgs generalizing s m with
  | nil => exact ⟨s, rfl, h, rfl, id⟩
  | cons msg msgs ih =>
    obtain ⟨u, hu⟩ := update_of_clean hclean.1
    have hstep := h.drawn.step_eq hu
    have hframe := update_frame (hlisted msg mem_cons_self) hu
    have hrest : u.CleanRun msgs := hclean.2 u hstep
    obtain ⟨t, hrun, hfollows, hheader, herr⟩ :=
      ih (h.update hclean.1 hu) (fun msg' hmsg' => hlisted msg' (mem_cons_of_mem _ hmsg')) hrest
    refine ⟨t, ?_, hfollows, hheader.trans hframe.1, fun hnone => herr (hframe.2 hnone)⟩
    rw [foldlM_cons, hstep]
    exact hrun

/-! ### What is returned -/

theorem rowMap_from (header row : List Bytes) (n : ℕ) (acc : OrdMap Bytes Bytes)
    (h : n + row.length ≤ header.length) :
    (row.zipIdx n).foldlM (fun rowMap e => header[e.2]?.map fun name => OrdMap.set rowMap name e.1)
      acc =
      some (((header.drop n).zip row).foldl (fun rowMap e => OrdMap.set rowMap e.1 e.2) acc) := by
  induction row generalizing n acc with
  | nil => simp
  | cons col row ih =>
    rw [length_cons] at h
    have hn : n < header.length := by omega
    rw [zipIdx_cons, foldlM_cons, getElem?_eq_getElem hn, drop_eq_getElem_cons hn]
    exact ih (n + 1) _ (by omega)

theorem rowMap_eq (h : row.length ≤ header.length) :
    rowMap header row = some (OrdMap.ofList (header.zip row)) :=
  rowMap_from header row 0 [] (by omega)

def Enumerates (range : Finset ℤ → List ℤ) : Prop := ∀ keys, (range keys).Nodup ∧ ∀ key,
    key ∈ range keys ↔ key ∈ keys

def picked (s : SelectableTable) : List (List Bytes × ℕ) :=
  s.rawRows.zipIdx.filter fun e =>
    decide ((e.2 : ℤ) ∈ s.activeRows) && !decide ((e.2 : ℤ) ∈ s.disabledRows)

theorem chosen_marked (s : SelectableTable) : s.marked.chosen = s.picked.map (·.1) := by
  unfold MarkedTable.chosen picked marked
  rw [filter_map, map_map]
  rfl

theorem nodup_picked (s : SelectableTable) : (s.picked.map fun e => (e.2 : ℤ)).Nodup := by
  have hall : (s.rawRows.zipIdx.map (·.2)).Nodup := by
    rw [zipIdx_map_snd]
    exact nodup_range'
  have hpicked : (s.picked.map (·.2)).Nodup := (filter_sublist.map _).nodup hall
  have hcast := hpicked.map (f := fun i : ℕ => (i : ℤ)) fun _ _ heq => Int.ofNat_inj.mp heq
  rw [map_map] at hcast
  exact hcast

theorem mem_picked (h : Tracked s) :
    index ∈ s.picked.map (fun e => (e.2 : ℤ)) ↔ index ∈ s.activeRows ∧ index ∉ s.disabledRows := by
  rw [mem_map]
  constructor
  · rintro ⟨e, he, rfl⟩
    simpa using (mem_filter.mp he).2
  · rintro ⟨hactive, hdisabled⟩
    obtain ⟨hpos, hlt⟩ := h index (.inl hactive)
    have hcast : ((index.toNat : ℕ) : ℤ) = index := by omega
    refine ⟨(s.rawRows[index.toNat], index.toNat), mem_filter.mpr ⟨?_, ?_⟩, hcast⟩
    · exact mem_zipIdx_iff_getElem?.mpr (getElem?_eq_getElem _)
    · simp [hcast, hactive, hdisabled]

theorem Follows.resultMap (h : Follows s m) {range : Finset ℤ → List ℤ}
    (hrange : Enumerates range) :
    ∃ rows, s.resultMap (range s.activeRows) = some rows ∧
      rows.Perm (m.chosen.map fun row => OrdMap.ofList (s.header.zip row)) := by
  obtain ⟨hnodup, hmem⟩ := hrange s.activeRows
  have hrow : ∀ index ∈ (range s.activeRows).filter fun i => i ∉ s.disabledRows,
      (if s.HasRow index then rowMap s.header (s.rawRows.getD index.toNat []) else none) =
        some (OrdMap.ofList (s.header.zip (s.rawRows.getD index.toNat []))) := by
    intro index hindex
    have hhas := h.tracked index (.inl ((hmem index).mp (mem_of_mem_filter hindex)))
    have hlt : index.toNat < s.rawRows.length := by
      obtain ⟨hpos, hlt⟩ := hhas
      omega
    have hget : s.rawRows.getD index.toNat [] = s.rawRows[index.toNat] := by
      simp [getD_eq_getElem?_getD, getElem?_eq_getElem hlt]
    rw [if_pos hhas]
    refine rowMap_eq (h.fits _ ?_)
    rw [hget]
    exact getElem_mem hlt
  have hindexes : ((range s.activeRows).filter fun i =>
    i ∉ s.disabledRows).Perm (s.picked.map fun e => (e.2 : ℤ)) := by
    refine (perm_ext_iff_of_nodup (hnodup.filter _) (nodup_picked s)).mpr fun index => ?_
    rw [mem_picked h.tracked, mem_filter, hmem, decide_eq_true_eq]
  refine ⟨_, mapM_eq_some hrow, (hindexes.map _).trans (List.Perm.of_eq ?_)⟩
  rw [← h.marked, chosen_marked, map_map, map_map]
  refine map_congr_left fun e he => ?_
  have hget := mem_zipIdx_iff_getElem?.mp (mem_of_mem_filter he)
  simp [getD_eq_getElem?_getD, hget]

theorem sortRows_perm (hheader : header ≠ []) (maps : List (OrdMap Bytes Bytes)) :
    ∃ sorted, sortRows header maps = some sorted ∧ sorted.Perm maps := by
  unfold sortRows
  split_ifs
  · exact ⟨maps, rfl, .refl maps⟩
  · obtain ⟨first, rest, rfl⟩ := exists_cons_of_ne_nil hheader
    exact ⟨_, rfl, mergeSort_perm _ _⟩

theorem Follows.answer (h : Follows s m) {range : Finset ℤ → List ℤ} (hrange : Enumerates range)
    (herr : s.err = none) (hheader : s.header ≠ []) :
    ∃ answer, s.answer range = some (.ok answer) ∧
      answer.Perm (m.chosen.map fun row => OrdMap.ofList (s.header.zip row)) := by
  obtain ⟨maps, hmaps, hperm⟩ := h.resultMap hrange
  obtain ⟨sorted, hsorted, hsortedPerm⟩ := sortRows_perm hheader maps
  refine ⟨sorted, ?_, hsortedPerm.trans hperm⟩
  unfold SelectableTable.answer
  rw [herr]
  simp [hmaps, hsorted]

/-! ### The selection follows the rows -/

variable {newRows : Option (List (List Bytes))} {msgs : List TableMsg} {range : Finset ℤ → List ℤ}

theorem opened_size : ((newSelectableTable header rows).opened newRows).size = defaultTableSize :=
    rfl

/-- In every state of every run the cursor is in view; and where no row was removed from under a
marked one, `Render` returns the rows that the operator selected. -/
theorem selection_follows_rows (hrange : Enumerates range) :
    (∀ t, ((newSelectableTable header rows).opened newRows).program msgs = some t → InView t) ∧
    ((∀ msg ∈ msgs, Listed msg) → header ≠ [] →
      (∀ row ∈ newRows.getD rows, row.length ≤ header.length) →
      ((newSelectableTable header rows).opened newRows).init.CleanRun msgs →
      ∃ answer, (newSelectableTable header rows).render false newRows (msgs ++ [.key .enter])
        range = some (.ok answer) ∧
        answer.Perm ((msgs.foldl MarkedTable.handle (.fresh (newRows.getD rows))).chosen.map
          fun row =>
          OrdMap.ofList (header.zip row))) := by
  constructor
  · intro t ht
    obtain ⟨shown, -, ht⟩ := bind_eq_some_iff.mp ht
    exact ((drawn_init opened_size).run ht).inView
  · intro hlisted hheader hfits hrun
    have hstart :=
      follows_init (s := (newSelectableTable header rows).opened newRows) opened_size hfits
    obtain ⟨t, hrun, hfollows, ht, herr⟩ := hstart.run hlisted hrun
    have henter : t.update (.key .enter) = some { t with active := false } := rfl
    have hclean : t.Clean (.key .enter) := trivial
    have hleft := hfollows.update hclean henter
    have hprogram :
      ((newSelectableTable header rows).opened newRows).program (msgs ++ [.key .enter]) =
        some { t with active := false } := by
      obtain ⟨shown, hshown⟩ := hstart.drawn.view
      unfold program
      rw [hshown, foldlM_append, hrun]
      simp [hfollows.drawn.step_eq henter]
    obtain ⟨answer, hanswer, hperm⟩ := hleft.answer hrange (herr rfl) (by rw [ht]; exact hheader)
    rw [ht] at hperm
    refine ⟨answer, ?_, hperm⟩
    unfold render
    rw [hprogram]
    exact hanswer

/-! ### What takes the table down -/

theorem update_eq_none : s.update msg = none ↔ (∃ index, msg = .remove index) ∧ s.rawRows = [] := by
  cases msg with
  | remove index => simp [update, handleRemoveEvent]
  | _ => simp [update]

theorem Drawn.step_eq_none (h : Drawn s) : s.step msg = none ↔ (∃ index, msg = .remove index) ∧
    s.rawRows = [] := by
  rw [← update_eq_none]
  cases hupdate : s.update msg with
  | none => simp [step, hupdate]
  | some t => simp [h.step_eq hupdate]

theorem Drawn.run_eq_none (h : Drawn s) :
    msgs.foldlM step s = none ↔ ∃ before index after t, msgs = before ++ .remove index :: after ∧
      before.foldlM step s = some t ∧ t.rawRows = [] := by
  induction msgs generalizing s with
  | nil => simp [pure]
  | cons msg msgs ih =>
    rw [foldlM_cons, bind_eq_bind]
    constructor
    · intro hnone
      cases hstep : s.step msg with
      | none =>
        obtain ⟨⟨index, rfl⟩, hrows⟩ := h.step_eq_none.mp hstep
        exact ⟨[], index, msgs, s, rfl, rfl, hrows⟩
      | some u =>
        rw [hstep, bind_some,
          ih (h.run (show [msg].foldlM step s = some u by simpa using hstep))] at hnone
        obtain ⟨before, index, after, t, rfl, ht, hrows⟩ := hnone
        refine ⟨msg :: before, index, after, t, rfl, ?_, hrows⟩
        rw [foldlM_cons, hstep]
        exact ht
    · rintro ⟨before, index, after, t, hmsgs, ht, hrows⟩
      cases before with
      | nil =>
        obtain ⟨rfl, rfl⟩ := cons.inj hmsgs
        obtain rfl := some.inj ht
        rw [h.step_eq_none.mpr ⟨⟨index, rfl⟩, hrows⟩]
        rfl
      | cons first before =>
        obtain ⟨rfl, rfl⟩ := cons.inj hmsgs
        rw [foldlM_cons, bind_eq_bind] at ht
        obtain ⟨u, hu, ht⟩ := bind_eq_some_iff.mp ht
        rw [hu, bind_some, ih (h.run (show [msg].foldlM step s = some u by simpa using hu))]
        exact ⟨before, index, after, t, rfl, ht, hrows⟩

/-- Whatever is sent, one thing alone takes the table down: that a row is to be removed from a table
without rows. -/
theorem program_eq_none_iff :
    ((newSelectableTable header rows).opened newRows).program msgs = none ↔
      ∃ before index after t, msgs = before ++ .remove index :: after ∧
        ((newSelectableTable header rows).opened newRows).program before = some t ∧
          t.rawRows = [] := by
  obtain ⟨drawn, hview⟩ := (drawn_init (@opened_size header rows newRows)).view
  have hprogram : ∀ msgs, ((newSelectableTable header rows).opened newRows).program msgs =
      msgs.foldlM step ((newSelectableTable header rows).opened newRows).init := by
    intro msgs
    unfold program
    rw [hview]
    rfl
  simp only [hprogram]
  exact (drawn_init opened_size).run_eq_none

/-! ### Three letters -/

def letterRow (letter : Char) : List Bytes := [[letter.toUInt8]]

def letterRows : List (List Bytes) := [letterRow 'a', letterRow 'b', letterRow 'c']

def letters : SelectableTable := newSelectableTable (letterRow 'n') letterRows

def ascending (keys : Finset ℤ) : List ℤ := keys.sort (· ≤ ·)

theorem enumerates_ascending : Enumerates ascending :=
  fun keys => ⟨Finset.sort_nodup keys _, fun _ => Finset.mem_sort _⟩

/-- `b` is selected, and `c` below it is removed. -/
theorem removed_below :
    ∃ answer, letters.render false none ([.key .down, .key .space, .remove 2] ++ [.key .enter])
      ascending = some (.ok answer) ∧
      answer = [OrdMap.ofList ((letterRow 'n').zip (letterRow 'b'))] := by
  have hlisted : ∀ msg ∈ [.key .down, .key .space, .remove 2], Listed msg := by simp [Listed]
  have hfits : ∀ row ∈ (none : Option (List (List Bytes))).getD letterRows,
    row.length ≤ (letterRow 'n').length := by
    decide
  have hclean :
    (letters.opened none).init.CleanRun [.key .down, .key .space, .remove 2] := by decide
  obtain ⟨answer, hanswer, hperm⟩ :=
    (selection_follows_rows enumerates_ascending).2 hlisted (cons_ne_nil _ _) hfits hclean
  refine ⟨answer, hanswer, perm_singleton.mp (hperm.trans (.of_eq ?_))⟩
  decide

/-- `c` is selected and `a` is removed: the index of `c` is out of range. `b` is selected and `a`
is removed: `c` is returned. -/
theorem removed_above :
    letters.render false none [.key .down, .key .down, .key .space, .remove 0,
      .key .enter] ascending = none ∧
    letters.render false none [.key .down, .key .space, .remove 0, .key .enter] ascending =
      some (.ok [OrdMap.ofList ((letterRow 'n').zip (letterRow 'c'))]) ∧
    ([.key .down, .key .space, .remove 0].foldl MarkedTable.handle (.fresh letterRows)).chosen =
    [letterRow 'b'] := by
  decide +kernel

end SelectableTable

end IncusCloud.Firecloud
