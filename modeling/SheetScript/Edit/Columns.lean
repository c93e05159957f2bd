import SheetScript.Formula.Evaluation
import SheetScript.Formula.Parser
import SheetScript.Formula.Reference
import SheetScript.State

/-!
# Edits of columns

  Adding, deleting, renaming and moving columns, and filling a column with the
  values of a formula.
-/

namespace SheetScript

/-- Adds a column of zeros. -/
structure AddColumn where
  sheet : Nat
  header : Header
  /-- The position of the new column; a negative one stands for the right end. -/
  position : Int
  deriving DecidableEq, Repr, Inhabited

namespace AddColumn

/-- Where the column goes in a frame of some width. -/
def place (e : AddColumn) (width : Nat) : Nat :=
  if e.position < 0 then width else min e.position.toNat width

/-- Runs the edit. -/
def run (e : AddColumn) (s : State) : Except Fault Change := do
  let sheet ← s.sheet e.sheet
  if (sheet.columns.id? e.header).isSome then throw (.headerTaken e.header sheet)
  else
    let index := e.place sheet.frame.width
    let zeros : Column := ⟨e.header, .int64, List.replicate sheet.frame.height (.int 0)⟩
    let (id, columns) := sheet.columns.insert e.header
    let frame ← sheet.frame.insertColumns index [zeros]
    let after := sheet.withData frame columns
    pure (.onSheet s e.sheet after [.addColumn sheet.target id e.header index none []])

end AddColumn

/-- Deletes columns. -/
structure DeleteColumns where
  sheet : Nat
  columns : List ColumnId
  deriving DecidableEq, Repr, Inhabited

namespace DeleteColumns

/-- Runs the edit. -/
def run (e : DeleteColumns) (s : State) : Except Fault Change := do
  if e.columns.isEmpty then throw (.invalidParams "no columns to delete")
  else
    let sheet ← s.sheet e.sheet
    let ids := e.columns.eraseDups
    let headers ← sheet.headersFor ids
    let columns := ids.foldl (fun m id => (m.remove id).2) sheet.columns
    let after := sheet.withData (sheet.frame.drop headers) columns
    let format :=
      { after.format with numbers := after.format.numbers.filter fun n => n.1 ∉ ids }
    pure (.onSheet s e.sheet { after with format := format }
      [.deleteColumns sheet.target ids headers])

end DeleteColumns

/-- Gives a column another header; its id stays. -/
structure RenameColumn where
  sheet : Nat
  column : ColumnId
  header : Header
  deriving DecidableEq, Repr, Inhabited

namespace RenameColumn

/-- The sheet after a column was renamed; formulas follow the new header. -/
def after (sheet : Sheet) (id : ColumnId) (old new : Header) : Except Fault Sheet := do
  let frame ← sheet.frame.withHeaders (sheet.headers.map fun h => if h = old then new else h)
  let next := sheet.withData frame (sheet.columns.rename id new).2
  pure { next with
    formulas := next.formulas.map fun f => (f.1, Formula.renameReferences f.2 old new) }

/-- Runs the edit. -/
def run (e : RenameColumn) (s : State) : Except Fault Change := do
  let sheet ← s.sheet e.sheet
  let old ← sheet.header e.column
  if old = e.header then pure (.none s)
  else if e.header = "" then throw (.invalidParams "column headers cannot be empty")
  else if (sheet.columns.id? e.header).isSome then throw (.headerTaken e.header sheet)
  else
    pure (.onSheet s e.sheet (← after sheet e.column old e.header)
      [.renameColumn sheet.target e.column old e.header])

end RenameColumn

/-- Moves a column. -/
structure MoveColumn where
  sheet : Nat
  column : ColumnId
  /-- The new position; past the right end is the right end. -/
  position : Nat
  deriving DecidableEq, Repr, Inhabited

namespace MoveColumn

/-- A list with the item at one position moved to another. -/
def moved (items : List Header) (source target : Nat) : List Header :=
  match items[source]? with
  | some h => (items.eraseIdx source).insertIdx target h
  | none => items

/-- The code of a move. -/
def block (sheet after : Sheet) (id : ColumnId) (header : Header) (target : Nat) : Block :=
  let df := sheet.name
  let text := Literal.text header
  { displayName := "Reordered column"
    description := "Reordered column " ++ header ++ " in " ++ df
    statements :=
      [df ++ "_columns = [col for col in " ++ df ++ ".columns if col != " ++ text ++ "]",
       df ++ "_columns.insert(" ++ Decimal.natText target ++ ", " ++ text ++ ")",
       df ++ " = " ++ df ++ "[" ++ df ++ "_columns]"]
    footprint := (({} : Footprint).read sheet.id (.ofList [id])).write sheet.id .all
    outputs := [after.blockOutput]
    keep := false }

/-- Runs the edit. -/
def run (e : MoveColumn) (s : State) : Except Fault Change := do
  let sheet ← s.sheet e.sheet
  let source ← sheet.columnIndex e.column
  let target := min e.position (sheet.frame.width - 1)
  if source = target then pure (.none s)
  else
    let frame ← sheet.frame.select (moved sheet.headers source target)
    let after := sheet.withData frame sheet.columns
    let header ← sheet.header e.column
    pure (.onSheet s e.sheet after [.block (block sheet after e.column header target)])

end MoveColumn

/-- Fills a column with the values of a formula. -/
structure SetFormula where
  sheet : Nat
  column : ColumnId
  formula : String
  /-- What the user saw before; it is kept and has no effect. -/
  before : Option String := none
  deriving DecidableEq, Repr, Inhabited

namespace SetFormula

/-- Runs the edit. -/
def run (e : SetFormula) (s : State) : Except Fault Change := do
  let sheet ← s.sheet e.sheet
  let header ← sheet.header e.column
  match Formula.parse e.formula sheet.headers with
  | .error complaint => throw complaint.toFault
  | .ok f =>
    let frame ← sheet.frame.withColumns (← f.evalColumns sheet.frame header)
    let next := sheet.withData frame sheet.columns
    let after := { next with formulas := Dictionary.insert next.formulas e.column e.formula }
    let reads := f.dependencies.filterMap sheet.columns.id?
    pure (.onSheet s e.sheet after
      [.setFormula sheet.target e.column header (f.code sheet.name) reads])

end SetFormula

end SheetScript
