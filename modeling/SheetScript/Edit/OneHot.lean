import SheetScript.State
import SheetScript.Table.Aggregation
import SheetScript.Table.Pattern

/-!
# One-hot encoding

  A column is accompanied by a column of zeros and ones for each of its values,
  which marks the rows that hold the value.  The new columns stand right after
  the old one, in the order of the values.
-/

namespace SheetScript

/-- Encodes a column. -/
structure OneHot where
  sheet : Nat
  column : ColumnId
  deriving DecidableEq, Repr, Inhabited

namespace OneHot

/-- The different values of a column as texts, in order. -/
def values (c : Column) : List String :=
  let present := c.cells.filter fun x => !x.isMissing
  let ordered := (Aggregation.distinct present).mergeSort fun a b => Cell.compareValue a b != .gt
  ordered.filterMap fun x => x.text? c.dtype

/-- The column in a table of its own, by what its header stands for in an expression there. -/
def alone (c : Column) : Except Fault Column := do
  (← (Frame.mk [c] c.cells.length).selectNamed [c.header]).column c.header

/-- The column that marks the rows with a value. -/
def marks (c : Column) (value : String) : Column :=
  ⟨value, .uint8, c.cells.map fun x =>
    .int (if x.text? c.dtype = some value then 1 else 0)⟩

/-- The columns that mark the rows with each of some values, of what a header stands for in an
  expression. -/
def dummies (f : Frame) (header : Header) (names : List String) : Except Fault (List Column) := do
  let columns ← f.namedAs header header
  pure (names.flatMap fun v => columns.map fun c => marks c v)

/-- The frame with columns of marks behind the others, put in order. -/
def encoded (f : Frame) (header : Header) (names : List String) (split : Nat) :
    Except Fault Frame := do
  let wide ← f.withColumns (← dummies f header names)
  wide.selectNamed (f.headers.take split ++ names ++ f.headers.drop split)

/-- The code of the edit. -/
def block (sheet after : Sheet) (header : Header) (split : Nat) (ids : List ColumnId) : Block :=
  let df := sheet.name
  let i := Decimal.natText split
  { displayName := "One hot encoded"
    description := "One hot encoded " ++ header ++ " in " ++ df
    statements :=
      ["tmp_df = pd.get_dummies(" ++ df ++ "[" ++ Literal.text header ++ "], dtype='uint8')",
       "tmp_df.columns = tmp_df.columns.astype(str)",
       df ++ " = pd.concat([" ++ df ++ ".iloc[:, :" ++ i ++ "], tmp_df, " ++ df ++ ".iloc[:, " ++ i
         ++ ":]], axis=1)"]
    footprint := (({} : Footprint).read sheet.id .all).write sheet.id (.ofList ids)
    outputs := [after.blockOutput]
    keep := false }

/-- Columns with some names are added one after the other: their ids, and all columns then. -/
def register (m : ColumnIds) (names : List String) : List ColumnId × ColumnIds :=
  names.foldl (fun acc v =>
    let (id, m) := acc.2.insert v
    (acc.1 ++ [id], m)) ([], m)

/-- The sheet with its encoded frame, in which the columns with some names are new. -/
def change (e : OneHot) (s : State) (sheet : Sheet) (header : Header) (split : Nat)
    (names : List String) (frame : Frame) : Change :=
  let (ids, columns) := register sheet.columns names
  let after := sheet.withData frame columns
  .onSheet s e.sheet after [.block (block sheet after header split ids)]

/-- Runs the edit; no value may be a header already. -/
def run (e : OneHot) (s : State) : Except Fault Change := do
  let sheet ← s.sheet e.sheet
  let header ← sheet.header e.column
  let position ← sheet.columnIndex e.column
  let column ← sheet.column e.column
  if column.dtype = .duration then throw (.ofTable .invalidOperation)
  else
    let names := values (← alone column)
    let taken := names.filter fun v => (sheet.columns.id? v).isSome
    if !taken.isEmpty then
      throw (.execution .duplicateValue
        ("Column headers " ++ ", ".intercalate taken ++ " already exist"))
    else
      let split := position + 1
      pure (e.change s sheet header split names (← encoded sheet.frame header names split))

end OneHot

end SheetScript
