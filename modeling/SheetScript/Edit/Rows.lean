import SheetScript.Filter.Mask
import SheetScript.State
import SheetScript.Table.Pattern

/-!
# Edits of rows

  Keeping the rows that pass a filter list, sorting rows by a column, and turning
  a row into the headers.
-/

namespace SheetScript

/-- Keeps the rows in which a column passes a filter list. -/
structure FilterRows where
  sheet : Nat
  column : ColumnId
  operator : BoolOperator
  filters : List FilterOrGroup
  deriving Repr, Inhabited

/-- The footprint of code that rewrites a sheet by one of its columns. -/
def Footprint.rewriting (sheet : SheetId) (id : ColumnId) : Footprint :=
  (({} : Footprint).read sheet (.ofList [id])).write sheet .all

namespace FilterRows

/-- The code of a filter. -/
def block (sheet after : Sheet) (id : ColumnId) (header : Header) (mask : String) : Block :=
  { displayName := "Filtered"
    description := "Filtered " ++ header ++ " in " ++ sheet.name
    statements := [sheet.name ++ " = " ++ sheet.name ++ "[" ++ mask ++ "]"]
    footprint := .rewriting sheet.id id
    outputs := [after.blockOutput]
    keep := false }

/-- The column whose cells are tested: the only one that the header stands for in an expression.
  The filters have to suit it. -/
def tested (e : FilterRows) (f : Frame) (header : Header) : Except Fault Column := do
  match ← f.namedAs header header with
  | [c] =>
    match Predicate.ofFilters header c.dtype e.operator e.filters with
    | .ok _ => pure c
    | .error _ => throw (.ofTable .compute)
  | _ => throw (.ofTable .compute)

/-- Runs the edit; a list that asks nothing changes nothing. -/
def run (e : FilterRows) (s : State) : Except Fault Change := do
  let sheet ← s.sheet e.sheet
  let header ← sheet.header e.column
  let column ← sheet.column e.column
  match ← Predicate.ofFilters header column.dtype e.operator e.filters with
  | none => pure (.none s)
  | some p =>
    let rows := p.rows (← e.tested sheet.frame header)
    let after := sheet.withData (sheet.frame.pickRows rows) sheet.columns
    let target := sheet.name ++ "[" ++ Literal.text header ++ "]"
    let mask ← Mask.ofFilters target column.dtype e.operator e.filters
    pure (.onSheet s e.sheet after
      (mask.toList.map fun m => .block (block sheet after e.column header m)))

end FilterRows

/-- The order of sorted rows. -/
inductive SortOrder where
  | ascending
  | descending
  /-- The rows stay as they are. -/
  | unsorted
  deriving DecidableEq, Repr, Inhabited

namespace SortOrder

/-- Every order. -/
def all : List SortOrder := [.ascending, .descending, .unsorted]

/-- The name of an order. -/
def name : SortOrder → String
  | .ascending => "ascending"
  | .descending => "descending"
  | .unsorted => "none"

end SortOrder

/-- Sorts the rows by a column. -/
structure SortRows where
  sheet : Nat
  column : ColumnId
  order : SortOrder
  deriving DecidableEq, Repr, Inhabited

namespace SortRows

/-- The code of sorting. -/
def block (sheet after : Sheet) (id : ColumnId) (header : Header) (descending : Bool) : Block :=
  { displayName := "Sorted"
    description := "Sorted " ++ header ++ " in " ++ sheet.name ++ " in "
      ++ (if descending then "descending" else "ascending") ++ " order"
    statements :=
      [sheet.name ++ " = " ++ sheet.name ++ ".sort_values(by=" ++ Literal.text header
        ++ (if descending then ", ascending=False, na_position='last')"
            else ", ascending=True, na_position='first')")]
    footprint := .rewriting sheet.id id
    outputs := [after.blockOutput]
    keep := false }

/-- Sorts a sheet: missing cells come first, or last when descending. -/
def sorted (e : SortRows) (s : State) (sheet : Sheet) (descending : Bool) :
    Except Fault Change := do
  let header ← sheet.header e.column
  let frame ← sheet.frame.sort header descending (if descending then .last else .first)
  let after := sheet.withData frame sheet.columns
  pure (.onSheet s e.sheet after [.block (block sheet after e.column header descending)])

/-- Runs the edit. -/
def run (e : SortRows) (s : State) : Except Fault Change := do
  let sheet ← s.sheet e.sheet
  let _ ← sheet.header e.column
  match e.order with
  | .unsorted => pure (.none s)
  | .ascending => e.sorted s sheet false
  | .descending => e.sorted s sheet true

end SortRows

/-- Turns the values of a row into the headers and drops the row. -/
structure PromoteRow where
  sheet : Nat
  row : Nat
  deriving DecidableEq, Repr, Inhabited

namespace PromoteRow

/-- The header that a cell of a column becomes. -/
def header (row : Nat) (c : Column) : Except Fault Header :=
  if c.dtype = .duration then .error (.ofTable .invalidOperation)
  else .ok (((c.cells[row]?.getD .missing).text? c.dtype).getD "nan")

/-- The first text that a list holds twice. -/
def repeated? : List Header → List Header → Option Header
  | _, [] => none
  | seen, h :: rest => if h ∈ seen then some h else repeated? (seen ++ [h]) rest

/-- The columns under new headers, each with its id. -/
def columns (m : ColumnIds) (ids : List ColumnId) (headers : List Header) : ColumnIds :=
  (ids.zip headers).foldl (fun m e => m.insertWithId e.1 e.2)
    (ids.foldl (fun m id => (m.remove id).2) m)

/-- The code of the edit. -/
def block (sheet after : Sheet) (row : Nat) : Block :=
  let df := sheet.name
  let r := Decimal.natText row
  { displayName := "Promoted row to header"
    description := "Promoted " ++ r ++ " to header in " ++ df
    statements :=
      [df ++ ".columns = " ++ df ++ ".iloc[" ++ r ++ "].astype(str)",
       df ++ ".drop(" ++ df ++ ".index[" ++ r ++ "], axis=0, inplace=True)"]
    footprint := (({} : Footprint).read sheet.id .all).write sheet.id .all
    outputs := [after.blockOutput]
    keep := false }

/-- Runs the edit. -/
def run (e : PromoteRow) (s : State) : Except Fault Change := do
  let sheet ← s.sheet e.sheet
  let row := Decimal.natText e.row
  if sheet.frame.height ≤ e.row then
    throw (.invalidParams ("row " ++ row ++ " does not exist in " ++ sheet.name))
  else
    let headers ← sheet.frame.columns.mapM (header e.row)
    match repeated? [] headers with
    | some h =>
      throw (.execution .duplicateValue ("row " ++ row ++ " repeats the header " ++ h))
    | none =>
      let frame ← (sheet.frame.removeRow e.row).withHeaders headers
      let after := sheet.withData frame (columns sheet.columns sheet.columnIds headers)
      pure (.onSheet s e.sheet after [.block (block sheet after e.row)])

end PromoteRow

end SheetScript
