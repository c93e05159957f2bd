import SheetScript.Json.Value
import SheetScript.State

/-!
# Edits of sheets

  Copying, deleting and renaming sheets, and setting the format of a sheet.

  A chart is a piece of code that shows a sheet.  It changes no data and is no
  part of the script.
-/

namespace SheetScript

/-- Copies a sheet with its ids, formulas and format. -/
structure DuplicateSheet where
  sheet : Nat
  deriving DecidableEq, Repr, Inhabited

/-- Runs the edit. -/
def DuplicateSheet.run (e : DuplicateSheet) (s : State) : Except Fault Change := do
  let source ← s.sheet e.sheet
  let (fresh, next) := s.mint (s.uniqueName (source.name ++ "_copy")) source.frame
  let copy := { source with id := fresh.id, name := fresh.name }
  pure ⟨next.push copy, [.duplicateSheet source.target copy.target]⟩

/-- Deletes a sheet; later sheets move up. -/
structure DeleteSheet where
  sheet : Nat
  deriving DecidableEq, Repr, Inhabited

/-- Runs the edit. -/
def DeleteSheet.run (e : DeleteSheet) (s : State) : Except Fault Change := do
  let sheet ← s.sheet e.sheet
  pure ⟨← s.remove e.sheet, [.deleteSheet sheet.target]⟩

/-- Gives a sheet another name. -/
structure RenameSheet where
  sheet : Nat
  /-- The name as the user wrote it. -/
  name : String
  deriving DecidableEq, Repr, Inhabited

/-- Runs the edit; what cannot name a variable is rewritten first. -/
def RenameSheet.run (e : RenameSheet) (s : State) : Except Fault Change := do
  let sheet ← s.sheet e.sheet
  let name := Naming.variableName e.name
  if name = sheet.name then pure (.none s)
  else if name ∈ s.names then
    throw (.execution .duplicateValue ("a dataframe named " ++ name ++ " already exists"))
  else
    pure (.onSheet s e.sheet { sheet with name := name } [.renameSheet sheet.id sheet.name name])

/-- Sets the format of a sheet, which needs no code before the end of the
  script. -/
structure FormatSheet where
  sheet : Nat
  format : SheetFormat
  deriving Repr, Inhabited

namespace FormatSheet

/-- The columns that a format speaks of. -/
def columns (f : SheetFormat) : List ColumnId :=
  Dictionary.keys f.numbers ++ f.conditional.flatMap ConditionalFormat.columns

/-- Runs the edit; every column of the format has to exist. -/
def run (e : FormatSheet) (s : State) : Except Fault Change := do
  let sheet ← s.sheet e.sheet
  let _ ← sheet.headersFor (columns e.format)
  pure (.onSheet s e.sheet { sheet with format := e.format } [])

end FormatSheet

/-! ### Charts -/

/-- The kinds of charts. -/
inductive ChartKind where
  | bar
  | line
  | scatter
  | histogram
  | box
  | violin
  | strip
  | ecdf
  | densityHeatmap
  | densityContour
  | pie
  deriving DecidableEq, Repr, Inhabited

namespace ChartKind

/-- Every kind. -/
def all : List ChartKind :=
  [.bar, .line, .scatter, .histogram, .box, .violin, .strip, .ecdf, .densityHeatmap,
   .densityContour, .pie]

/-- The name of a kind. -/
def name : ChartKind → String
  | .bar => "bar"
  | .line => "line"
  | .scatter => "scatter"
  | .histogram => "histogram"
  | .box => "box"
  | .violin => "violin"
  | .strip => "strip"
  | .ecdf => "ecdf"
  | .densityHeatmap => "density heatmap"
  | .densityContour => "density contour"
  | .pie => "pie"

/-- The function that draws a chart. -/
def function : ChartKind → String
  | .densityHeatmap => "density_heatmap"
  | .densityContour => "density_contour"
  | k => k.name

end ChartKind

/-- Draws a chart of a sheet. -/
structure DrawChart where
  /-- The name of the chart. -/
  key : String
  /-- Only the first rows of a long sheet are drawn. -/
  shortens : Bool := false
  kind : ChartKind
  sheet : Nat
  x : List ColumnId := []
  y : List ColumnId := []
  color : Option ColumnId := none
  /-- What a front end knows about the look; its title is used. -/
  styling : Json := .null
  /-- Kept for front ends. -/
  rendering : Json := .null
  deriving Repr, Inhabited

namespace DrawChart

/-- The number of rows that a shortened chart draws. -/
def rowLimit : Nat := 1000

/-- The argument of an axis, if it has columns. -/
def axis (name : String) (sheet : Sheet) (ids : List ColumnId) : Except Fault (List String) := do
  pure (match ← sheet.headersFor ids with
    | [] => []
    | [h] => [name ++ "=" ++ Literal.text h]
    | hs => [name ++ "=" ++ Literal.list hs])

/-- The title of the chart. -/
def title? (e : DrawChart) : Option String :=
  ((e.styling.field? "title").bind fun t => t.field? "title").bind Json.string?

/-- The code of the chart. -/
def code (e : DrawChart) (sheet : Sheet) : Except Fault String := do
  let isCut := e.shortens && rowLimit < sheet.frame.height
  let source := if isCut then sheet.name ++ "_filtered" else sheet.name
  let cut :=
    if isCut then
      [source ++ " = " ++ sheet.name ++ ".head(" ++ Decimal.natText rowLimit ++ ")"]
    else []
  let x ← axis "x" sheet e.x
  let y ← axis "y" sheet e.y
  let color ← e.color.toList.mapM fun id => do
    pure ("color=" ++ Literal.text (← sheet.header id))
  let call := "fig = px." ++ e.kind.function ++ "("
    ++ ", ".intercalate (source :: (x ++ y ++ color)) ++ ")"
  let title := e.title?.toList.map fun t =>
    "fig.update_layout(title=" ++ Literal.text t ++ ")"
  pure ("\n".intercalate
    ("import plotly.express as px" :: (cut ++ [call] ++ title ++ ["fig.show()"])))

/-- Runs the edit. -/
def run (e : DrawChart) (s : State) : Except Fault Change := do
  let sheet ← s.sheet e.sheet
  let chart : Chart := ⟨sheet.id, e.kind.function, ← e.code sheet⟩
  pure ⟨{ s with charts := Dictionary.insert s.charts e.key chart }, []⟩

end DrawChart

end SheetScript
