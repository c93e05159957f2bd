import SheetScript.Sheet
import SheetScript.Symbolic.Machine

/-!
# States

  A state is the ordered list of sheets after some steps, with the charts that
  hang on them.  Ids of sheets are never used twice.
-/

namespace SheetScript

/-- A chart of a sheet. -/
structure Chart where
  sheet : SheetId
  kind : String
  code : String
  deriving DecidableEq, Repr, Inhabited

/-- All sheets after some steps. -/
structure State where
  sheets : List Sheet := []
  charts : Dictionary String Chart := []
  /-- The number of the next sheet. -/
  nextId : Nat := 0
  deriving Repr, Inhabited

namespace State

/-- The names of the sheets in order. -/
def names (s : State) : List String := s.sheets.map Sheet.name

/-- The fault of an index without a sheet. -/
def noSheet (index : Nat) : Fault :=
  .invalidParams ("sheet index " ++ Decimal.natText index ++ " does not exist")

/-- The sheet at an index. -/
def sheet (s : State) (index : Nat) : Except Fault Sheet :=
  match s.sheets[index]? with
  | some sheet => .ok sheet
  | none => .error (noSheet index)

/-- The index of a sheet. -/
def indexOf? (s : State) (id : SheetId) : Option Nat := s.sheets.findIdx? fun t => t.id = id

/-- The sheet of an id. -/
def sheetOf? (s : State) (id : SheetId) : Option Sheet := s.sheets.find? fun t => t.id = id

/-- A new sheet, which is not yet in the list. -/
def mint (s : State) (name : String) (f : Frame) : Sheet × State :=
  (Sheet.ofFrame ⟨s.nextId⟩ name f, { s with nextId := s.nextId + 1 })

/-- The state with a sheet at the end. -/
def push (s : State) (sheet : Sheet) : State := { s with sheets := s.sheets ++ [sheet] }

/-- The state with a new sheet at the end. -/
def add (s : State) (name : String) (f : Frame) : State :=
  let (sheet, s) := s.mint name f
  s.push sheet

/-- The state with the sheet at an index replaced. -/
def replace (s : State) (index : Nat) (sheet : Sheet) : State :=
  { s with sheets := s.sheets.set index sheet }

/-- The state without the sheet at an index and its charts. -/
def remove (s : State) (index : Nat) : Except Fault State := do
  let sheet ← s.sheet index
  pure { s with
    sheets := s.sheets.eraseIdx index
    charts := s.charts.filter fun e => e.2.sheet ≠ sheet.id }

/-- A text as the name of a variable that no sheet has. -/
def uniqueName (s : State) (base : String) : String :=
  Naming.firstFree s.names (Naming.variableName base)

/-- The state of some named tables. -/
def ofInputs (inputs : List (String × Frame)) : Except Fault State :=
  inputs.foldlM
    (fun s input =>
      if !Naming.isVariableName input.1 then
        .error (.invalidParams ("'" ++ input.1 ++ "' is not a valid dataframe name"))
      else if input.1 ∈ s.names then
        .error (.invalidParams ("dataframe name '" ++ input.1 ++ "' is passed twice"))
      else .ok (s.add input.1 input.2))
    {}

/-- The formulas of a sheet by column, empty for a column without one. -/
def formulas (s : State) (index : Nat) : Except Fault (Dictionary ColumnId String) := do
  let sheet ← s.sheet index
  pure (Dictionary.ofList (sheet.columnIds.map fun id => (id, sheet.formula id)))

/-- The sheets as a script finds them. -/
def inputLayout (s : State) : Symbolic.InputLayout :=
  Dictionary.ofList (s.sheets.map fun sheet =>
    (sheet.id, ⟨sheet.name, sheet.columnIds.zip sheet.headers⟩))

end State

/-!
## Changes

  What an accepted edit amounts to: the state that it leaves, and the code that
  does the same to the variables of the script.
-/

/-- The outcome of an edit. -/
structure Change where
  state : State
  code : List ChunkBody
  deriving Repr, Inhabited

namespace Change

/-- An edit that changes nothing and needs no code. -/
def none (s : State) : Change := ⟨s, []⟩

/-- A sheet replaced, with the code for it. -/
def onSheet (s : State) (index : Nat) (after : Sheet) (code : List ChunkBody) : Change :=
  ⟨s.replace index after, code⟩

end Change

namespace Fault

/-- The complaint that a header is in use. -/
def headerTaken (header : Header) (sheet : Sheet) : Fault :=
  .execution .duplicateValue ("Column header " ++ header ++ " already exists in " ++ sheet.name)

end Fault

end SheetScript
