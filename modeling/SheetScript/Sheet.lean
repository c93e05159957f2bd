import SheetScript.Chunk.Basic
import SheetScript.Format.Basic

/-!
# Sheets

  A sheet is a frame together with what lasts when its data changes: its id, its
  variable name, the ids of its columns, the formulas they were given, and its
  format.
-/

namespace SheetScript

/-- A table with everything known about it. -/
structure Sheet where
  id : SheetId
  name : String
  frame : Frame
  columns : ColumnIds
  /-- The formulas of the columns that have one. -/
  formulas : Dictionary ColumnId String := []
  format : SheetFormat := {}
  deriving Repr, Inhabited

namespace Sheet

/-- A new sheet, whose column ids follow its headers. -/
def ofFrame (id : SheetId) (name : String) (f : Frame) : Sheet :=
  { id, name, frame := f, columns := ColumnIds.ofHeaders f.headers }

/-- The headers from left to right. -/
def headers (s : Sheet) : List Header := s.frame.headers

/-- The column ids from left to right. -/
def columnIds (s : Sheet) : List ColumnId := s.headers.filterMap s.columns.id?

/-- The header of a column. -/
def header (s : Sheet) (id : ColumnId) : Except Fault Header :=
  match s.columns.header? id with
  | some h => .ok h
  | none =>
    .error (.invalidParams
      ("column '" ++ id.text ++ "' does not exist in dataframe " ++ s.name))

/-- The headers of some columns, in the order given. -/
def headersFor (s : Sheet) (ids : List ColumnId) : Except Fault (List Header) :=
  ids.mapM s.header

/-- The position of a column. -/
def columnIndex (s : Sheet) (id : ColumnId) : Except Fault Nat := do
  let h ← s.header id
  match s.frame.index? h with
  | some i => pure i
  | none => throw (.invalidParams ("column '" ++ h ++ "' has no data"))

/-- The data of a column. -/
def column (s : Sheet) (id : ColumnId) : Except Fault Column := do s.frame.column (← s.header id)

/-- The type of a column. -/
def dtype (s : Sheet) (id : ColumnId) : Except Fault DType := do
  pure (← s.column id).dtype

/-- The formula of a column, empty if it has none. -/
def formula (s : Sheet) (id : ColumnId) : String := (Dictionary.get? s.formulas id).getD ""

/-- The sheet with other data; formulas stay with the columns that are left. -/
def withData (s : Sheet) (f : Frame) (columns : ColumnIds) : Sheet :=
  { s with
    frame := f
    columns := columns
    formulas := s.formulas.filter fun e => columns.contains e.1 }

/-- The variable that holds the sheet. -/
def target (s : Sheet) : Target := ⟨s.id, s.name⟩

/-- Headers of the sheet with their ids, from left to right. -/
def idsWithHeaders (s : Sheet) : List (ColumnId × Header) :=
  s.headers.filterMap fun h => (s.columns.id? h).map fun id => (id, h)

/-- The sheet as a block leaves it. -/
def blockOutput (s : Sheet) : BlockOutput := ⟨s.id, s.name, s.idsWithHeaders⟩

end Sheet

end SheetScript
