import IncusCloud.Lib.OrdMap
import Mathlib.Data.Finset.Basic
import Mathlib.Data.Int.Basic

/-!
# The selectable table

`cmd/tui/selectable_table.go`: the rows, the filtered view of them with its own index map, the
cursor and its viewport, and the selected and disabled rows, kept as indexes of the whole table. A
Go string is its bytes; styles and the texts around the rows are left out. `none` is an index out
of range.
-/

namespace IncusCloud.Firecloud

open Lib

abbrev Bytes := List UInt8

/-! ### Messages -/

/-- The keys that `handleKeyEvent` tells apart. -/
inductive TableKey
  | esc | ctrlC | enter | up | down | left | right | space | backspace | delete
  | runes (runes : List Char)
  | other

inductive TableMsg
  | windowSize (width : ℤ)
  | key (key : TableKey)
  | insert (row : List Bytes)
  | remove (index : ℤ)
  | disable (index : ℤ)
  | enable (index : ℤ)
  | error (message : String)

/-! ### The table -/

def defaultTableSize : ℕ := 10

/-- The keys of `filterMap` are the indexes of `formatRows`: the map is the list of its values, and
a missing key reads as 0. `activeRows` and `disabledRows` are the keys of the maps, whose values
are all `true`. -/
structure SelectableTable where
  size : ℕ
  header : List Bytes
  rawRows : List (List Bytes)
  formatRows : List (List Bytes)
  filterMap : List ℕ
  currentRow : ℕ
  startIndex : ℕ
  activeRows : Finset ℤ
  disabledRows : Finset ℤ
  filter : Bytes
  active : Bool
  err : Option String
  windowWidth : ℤ

def newSelectableTable (header : List Bytes) (rows : List (List Bytes)) : SelectableTable where
  size := defaultTableSize
  header := header
  rawRows := rows
  formatRows := []
  filterMap := []
  currentRow := 0
  startIndex := 0
  activeRows := ∅
  disabledRows := ∅
  filter := []
  active := false
  err := none
  windowWidth := 0

namespace SelectableTable

/-- `strings.Contains` of a column. -/
def containsFilter (filter col : Bytes) : Bool := filter <:+: col

def rowMatches (filter : Bytes) (row : List Bytes) : Bool := filter.isEmpty || row.any (containsFilter filter)

def matching (filter : Bytes) (rows : List (List Bytes)) : List (List Bytes × ℕ) :=
  rows.zipIdx.filter fun e => rowMatches filter e.1

variable (s : SelectableTable)

/-- `s.filterMap[row]`. -/
def rawIndex (row : ℕ) : ℕ := s.filterMap.getD row 0

def filterRows (updatePos : Bool) : SelectableTable :=
  { s with
    formatRows := (matching s.filter s.rawRows).map (·.1)
    filterMap := (matching s.filter s.rawRows).map (·.2)
    currentRow := if updatePos then 0 else s.currentRow
    startIndex := if updatePos then 0 else s.startIndex }

def init : SelectableTable :=
  { s with
    activeRows := ∅
    disabledRows := ∅
    formatRows := s.rawRows
    filterMap := List.range s.rawRows.length
    currentRow := 0
    startIndex := 0
    filter := [] }

/-! ### Events -/

def HasRow (index : ℤ) : Prop := 0 ≤ index ∧ index < s.rawRows.length

instance (s : SelectableTable) (index : ℤ) : Decidable (s.HasRow index) := by
  unfold HasRow
  infer_instance

/-- The table without a row, the other indexes of the marked rows as they were. -/
def removeRow (remove : ℤ) : SelectableTable :=
  { s with
    rawRows := (s.rawRows.zipIdx.filter fun e => (e.2 : ℤ) ≠ remove).map (·.1)
    activeRows := if s.HasRow remove then s.activeRows.erase remove else s.activeRows
    disabledRows := if s.HasRow remove then s.disabledRows.erase remove else s.disabledRows }

/-- The capacity of the new rows is one less than the number of rows, and cannot be negative. -/
def handleRemoveEvent (remove : ℤ) : Option SelectableTable :=
  if s.rawRows = [] then none else some ((s.removeRow remove).filterRows true)

def handleInsertEvent (insert : List Bytes) : SelectableTable :=
  { s with rawRows := s.rawRows ++ [insert] }.filterRows false

def handleDisableEvent (disable : ℤ) : SelectableTable :=
  { s with activeRows := s.activeRows.erase disable, disabledRows := insert disable s.disabledRows }

def handleEnableEvent (enable : ℤ) : SelectableTable :=
  { s with disabledRows := s.disabledRows.erase enable }

/-- `s.disabledRows[s.filterMap[row]]`. -/
def rowDisabled (row : ℕ) : Bool := ((s.rawIndex row : ℕ) : ℤ) ∈ s.disabledRows

/-- `s.activeRows[s.filterMap[row]]`. -/
def rowActive (row : ℕ) : Bool := ((s.rawIndex row : ℕ) : ℤ) ∈ s.activeRows

def handleKeyEvent : TableKey → SelectableTable
  | .esc | .ctrlC => { s with activeRows := ∅, active := false }
  | .enter => { s with active := false }
  | .up =>
    if 0 < s.currentRow then
      { s with
        currentRow := s.currentRow - 1
        startIndex := if s.currentRow - 1 < s.startIndex then s.startIndex - 1 else s.startIndex }
    else s
  | .down =>
    if s.currentRow + 1 < s.formatRows.length then
      { s with
        currentRow := s.currentRow + 1
        startIndex := if s.startIndex + s.size ≤ s.currentRow + 1 then s.startIndex + 1 else s.startIndex }
    else s
  | .left => { s with activeRows := ∅ }
  | .right =>
    { s with
      activeRows := (List.range s.formatRows.length).foldl
        (fun active i => if s.rowDisabled i then active else insert (s.rawIndex i : ℤ) active) s.activeRows }
  | .space =>
    if !s.rowDisabled s.currentRow && 0 < s.formatRows.length then
      if s.rowActive s.currentRow then { s with activeRows := s.activeRows.erase (s.rawIndex s.currentRow : ℤ) }
      else { s with activeRows := insert (s.rawIndex s.currentRow : ℤ) s.activeRows }
    else s
  | .backspace => { s with filter := s.filter.dropLast }.filterRows true
  | .delete => { s with filter := s.filter.drop 1 }.filterRows true
  | .runes runes => { s with filter := s.filter ++ runes.flatMap String.utf8EncodeChar }.filterRows true
  | .other =>
    { s with activeRows := ∅, active := false, err := if s.err.isSome then some "Input cancelled" else none }

def update : TableMsg → Option SelectableTable
  | .windowSize width => some { s with windowWidth := width }
  | .key key => some (s.handleKeyEvent key)
  | .insert row => some (s.handleInsertEvent row)
  | .remove index => s.handleRemoveEvent index
  | .enable index => some (s.handleEnableEvent index)
  | .disable index => some (s.handleDisableEvent index)
  | .error message => some { s with err := some message }

/-! ### Drawing -/

def rowStyle (row : ℕ) : Option (List Bytes) := do
  let format ← s.formatRows[row]?
  let raw ← s.rawRows[s.rawIndex row]?
  (List.range format.length).mapM fun col => raw[col]?

def view : Option (List (List Bytes)) :=
  if s.active then
    ((List.range s.formatRows.length).mapM s.rowStyle).map fun rows => (rows.drop s.startIndex).take s.size
  else some []

/-! ### Rendering -/

def step (msg : TableMsg) : Option SelectableTable := do
  let updated ← s.update msg
  let _ ← updated.view
  pure updated

/-- `s.program.Run`, with the messages it receives. -/
def program (msgs : List TableMsg) : Option SelectableTable := do
  let _ ← s.init.view
  msgs.foldlM step s.init

def rowMap (header row : List Bytes) : Option (OrdMap Bytes Bytes) :=
  row.zipIdx.foldlM (fun rowMap e => header[e.2]?.map fun name => rowMap.set name e.1) []

/-- The selected rows, in the order in which `range` gives the indexes. -/
def resultMap (range : List ℤ) : Option (List (OrdMap Bytes Bytes)) :=
  (range.filter fun i => i ∉ s.disabledRows).mapM fun i =>
    if s.HasRow i then rowMap s.header (s.rawRows.getD i.toNat []) else none

/-- `sort.SliceStable` by the first column, whose name is looked up when two rows are compared. -/
def sortRows (header : List Bytes) (rows : List (OrdMap Bytes Bytes)) : Option (List (OrdMap Bytes Bytes)) :=
  if rows.length ≤ 1 then some rows
  else header[0]?.map fun first =>
    rows.mergeSort fun a b => ¬ (b.get first).getD [] < (a.get first).getD []

/-- The table as `Render` starts it. -/
def opened (newRows : Option (List (List Bytes))) : SelectableTable :=
  { s with active := true, rawRows := newRows.getD s.rawRows }

/-- What `Render` may come to other than an index out of range: rows, or an error. -/
abbrev Answer := Except String (List (OrdMap Bytes Bytes))

def answer (table : SelectableTable) (range : Finset ℤ → List ℤ) : Option Answer :=
  match table.err with
  | some err => some (.error err)
  | none => do
    let rows ← table.resultMap (range table.activeRows)
    let sorted ← sortRows table.header rows
    pure (.ok sorted)

/-- Renders the table until the operator leaves it. `handlerActive` says that the handler's table
is active, `range` is the order in which Go ranges over a map's keys. -/
def render (handlerActive : Bool) (newRows : Option (List (List Bytes)))
    (msgs : List TableMsg) (range : Finset ℤ → List ℤ) : Option Answer :=
  if s.active || handlerActive then some (.error "Cannot render table while another is already active")
  else do
    let table ← (s.opened newRows).program msgs
    table.answer range

end SelectableTable

/-!
### Rows that carry their marks

What the keys and events of the selectable table are for, said of rows that carry their own marks: a
row that moves takes its marks along.
-/

structure MarkedRow where
  cells : List Bytes
  selected : Bool
  disabled : Bool

namespace MarkedRow

variable (row : MarkedRow)

def unselect : MarkedRow := { row with selected := false }

def select : MarkedRow := { row with selected := row.selected || !row.disabled }

def toggle : MarkedRow :=
  if row.disabled then row else { row with selected := !row.selected }

def disable : MarkedRow := { row with selected := false, disabled := true }

def enable : MarkedRow := { row with disabled := false }

end MarkedRow

structure MarkedTable where
  rows : List MarkedRow
  filter : Bytes
  cursor : ℕ

namespace MarkedTable

variable (t : MarkedTable)

def shown : List ℕ :=
  (SelectableTable.matching t.filter (t.rows.map (·.cells))).map (·.2)

def change (index : ℤ) (f : MarkedRow → MarkedRow) : MarkedTable :=
  if 0 ≤ index then { t with rows := t.rows.modify index.toNat f } else t

/-- Another filter, which brings the cursor back to the top. -/
def refilter (filter : Bytes) : MarkedTable := { t with filter := filter, cursor := 0 }

/-- What a key is for: `space` and `right` select of what is displayed at that moment. -/
def press : TableKey → MarkedTable
  | .esc | .ctrlC | .left | .other => { t with rows := t.rows.map .unselect }
  | .enter => t
  | .up => { t with cursor := t.cursor - 1 }
  | .down => if t.cursor + 1 < t.shown.length then { t with cursor := t.cursor + 1 } else t
  | .right =>
    { t with rows := t.rows.map fun row => if SelectableTable.rowMatches t.filter row.cells then row.select else row }
  | .space =>
    match t.shown[t.cursor]? with
    | some index => { t with rows := t.rows.modify index .toggle }
    | none => t
  | .backspace => t.refilter t.filter.dropLast
  | .delete => t.refilter (t.filter.drop 1)
  | .runes runes => t.refilter (t.filter ++ runes.flatMap String.utf8EncodeChar)

def handle : TableMsg → MarkedTable
  | .windowSize _ | .error _ => t
  | .key key => t.press key
  | .insert row => { t with rows := t.rows ++ [⟨row, false, false⟩] }
  | .remove index => { t with rows := if 0 ≤ index then t.rows.eraseIdx index.toNat else t.rows, cursor := 0 }
  | .disable index => t.change index .disable
  | .enable index => t.change index .enable

def fresh (rows : List (List Bytes)) : MarkedTable := ⟨rows.map fun row => ⟨row, false, false⟩, [], 0⟩

def chosen : List (List Bytes) :=
  (t.rows.filter fun row => row.selected && !row.disabled).map (·.cells)

end MarkedTable

end IncusCloud.Firecloud
