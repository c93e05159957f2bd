import SheetScript.ColumnIds
import SheetScript.Fault
import SheetScript.Table.Cell

/-!
# Frames

  A frame is a list of columns of one height.  A frame may have a height and no
  columns: dropping every column keeps the height.
-/

namespace SheetScript

/-- A column: its header, its type and its cells from top to bottom. -/
structure Column where
  header : Header
  dtype : DType
  cells : List Cell
  deriving DecidableEq, Repr, Inhabited

/-- A table. -/
structure Frame where
  columns : List Column := []
  height : Nat := 0
  deriving DecidableEq, Repr, Inhabited

namespace Frame

/-- The headers from left to right. -/
def headers (f : Frame) : List Header := f.columns.map Column.header

/-- The number of columns. -/
def width (f : Frame) : Nat := f.columns.length

/-- The column with a header. -/
def column? (f : Frame) (header : Header) : Option Column :=
  f.columns.find? fun c => c.header = header

/-- The column with a header, or the complaint that there is none. -/
def column (f : Frame) (header : Header) : Except Fault Column :=
  match f.column? header with
  | some c => .ok c
  | none => .error (.ofTable .columnNotFound)

/-- The position of a header. -/
def index? (f : Frame) (header : Header) : Option Nat :=
  f.columns.findIdx? fun c => c.header = header

/-- The frame of columns of one length; a frame without columns has no rows. -/
def ofColumns? (columns : List Column) : Option Frame :=
  let height := (columns.head?.map fun c => c.cells.length).getD 0
  if columns.all (fun c => c.cells.length == height)
      && (columns.map Column.header).eraseDups.length == columns.length then
    some ⟨columns, height⟩
  else none

/-- The frame with a column in place of the one with its header, or at the right
  end when there is none. -/
def withColumn (f : Frame) (c : Column) : Frame :=
  if c.header ∈ f.headers then
    { f with columns := f.columns.map fun d => if d.header = c.header then c else d }
  else { f with columns := f.columns ++ [c] }

/-- The frame with columns inserted before position `i`; no header may be there
  twice. -/
def insertColumns (f : Frame) (i : Nat) (cs : List Column) : Except Fault Frame :=
  let columns := f.columns.take i ++ cs ++ f.columns.drop i
  if (columns.map Column.header).eraseDups.length = columns.length then .ok { f with columns }
  else .error (.ofTable .duplicate)

/-- The frame of the named columns in the given order. -/
def select (f : Frame) (headers : List Header) : Except Fault Frame := do
  let columns ← headers.mapM f.column
  if headers.eraseDups.length == headers.length then pure { f with columns }
  else throw (.ofTable .duplicate)

/-- The frame without the named columns. -/
def drop (f : Frame) (headers : List Header) : Frame :=
  { f with columns := f.columns.filter fun c => c.header ∉ headers }

/-- The frame with its headers replaced from left to right. -/
def withHeaders (f : Frame) (headers : List Header) : Except Fault Frame :=
  if headers.length != f.columns.length then .error (.ofTable .shape)
  else if headers.eraseDups.length != headers.length then .error (.ofTable .duplicate)
  else .ok { f with columns := (f.columns.zip headers).map fun p => { p.1 with header := p.2 } }

/-- The cells of a column in the given rows. -/
def Column.pick (c : Column) (rows : List Nat) : Column :=
  let cells := c.cells.toArray
  { c with cells := rows.map fun i => cells[i]?.getD .missing }

/-- The frame of the given rows, in the given order. -/
def pickRows (f : Frame) (rows : List Nat) : Frame :=
  ⟨f.columns.map fun c => Column.pick c rows, rows.length⟩

/-- The rows of the frame's column values at the given headers. -/
def keyRows (columns : List Column) (height : Nat) : List (List Cell) :=
  let arrays := columns.map fun c => c.cells.toArray
  (List.range height).map fun i => arrays.map fun a => a[i]?.getD .missing

/-- The frame sorted by one column; equal cells keep their order. -/
def sort (f : Frame) (header : Header) (descending : Bool) (place : Cell.MissingPlace) :
    Except Fault Frame := do
  let c ← f.column header
  pure (f.pickRows (sortedRows descending place (c.cells.map fun x => [x])))

/-- The frame without one row. -/
def removeRow (f : Frame) (row : Nat) : Frame :=
  ⟨f.columns.map fun c => { c with cells := c.cells.eraseIdx row }, f.height - 1⟩

end Frame

end SheetScript
