import SheetScript.Edit.Columns
import SheetScript.Edit.Files
import SheetScript.Edit.LegacyHeaders
import SheetScript.Edit.Merge
import SheetScript.Edit.OneHot
import SheetScript.Edit.Pivot
import SheetScript.Edit.Retype
import SheetScript.Edit.Rows
import SheetScript.Edit.Sheets

/-!
# Edits

  Everything a user can do to the sheets, with one function that runs it: on
  success an edit yields a new state and the code that does the same.
-/

namespace SheetScript

/-- The kinds of edits. -/
inductive EditKind where
  | importFiles
  | addColumn
  | deleteColumns
  | renameColumn
  | moveColumn
  | setFormula
  | changeType
  | filterRows
  | sortRows
  | pivot
  | merge
  | oneHot
  | promoteRow
  | duplicateSheet
  | deleteSheet
  | renameSheet
  | formatSheet
  | drawChart
  | exportSheets
  | restrictHeaders
  deriving DecidableEq, Repr, Inhabited

namespace EditKind

/-- Every kind. -/
def all : List EditKind :=
  [.importFiles, .addColumn, .deleteColumns, .renameColumn, .moveColumn, .setFormula, .changeType,
   .filterRows, .sortRows, .pivot, .merge, .oneHot, .promoteRow, .duplicateSheet, .deleteSheet,
   .renameSheet, .formatSheet, .drawChart, .exportSheets, .restrictHeaders]

/-- The name of a kind. -/
def name : EditKind → String
  | .importFiles => "simple_import"
  | .addColumn => "add_column"
  | .deleteColumns => "delete_column"
  | .renameColumn => "rename_column"
  | .moveColumn => "reorder_column"
  | .setFormula => "set_column_formula"
  | .changeType => "change_column_dtype"
  | .filterRows => "filter_column"
  | .sortRows => "sort"
  | .pivot => "pivot"
  | .merge => "merge"
  | .oneHot => "one_hot_encoding"
  | .promoteRow => "promote_row_to_header"
  | .duplicateSheet => "dataframe_duplicate"
  | .deleteSheet => "dataframe_delete"
  | .renameSheet => "dataframe_rename"
  | .formatSheet => "set_dataframe_format"
  | .drawChart => "graph"
  | .exportSheets => "export_to_file"
  | .restrictHeaders => "bulk_old_rename"

/-- The kind of a name. -/
def ofName? (s : String) : Option EditKind := all.find? fun k => k.name == s

/-- The version of the parameters of a kind. -/
def version : EditKind → Nat
  | .pivot => 6
  | .filterRows | .merge | .drawChart => 4
  | .deleteColumns => 3
  | .importFiles | .addColumn | .renameColumn | .moveColumn | .setFormula | .changeType
  | .sortRows => 2
  | .oneHot | .promoteRow | .duplicateSheet | .deleteSheet | .renameSheet | .formatSheet
  | .exportSheets | .restrictHeaders => 1

/-- Whether edits of a kind bring data in from outside. -/
def isImport (k : EditKind) : Bool := k = .importFiles

end EditKind

/-- An edit. -/
inductive Edit where
  | importFiles (e : ImportFiles)
  | addColumn (e : AddColumn)
  | deleteColumns (e : DeleteColumns)
  | renameColumn (e : RenameColumn)
  | moveColumn (e : MoveColumn)
  | setFormula (e : SetFormula)
  | changeType (e : ChangeType)
  | filterRows (e : FilterRows)
  | sortRows (e : SortRows)
  | pivot (e : Pivot)
  | merge (e : Merge)
  | oneHot (e : OneHot)
  | promoteRow (e : PromoteRow)
  | duplicateSheet (e : DuplicateSheet)
  | deleteSheet (e : DeleteSheet)
  | renameSheet (e : RenameSheet)
  | formatSheet (e : FormatSheet)
  | drawChart (e : DrawChart)
  | exportSheets (e : ExportSheets)
  | restrictHeaders (e : RestrictHeaders)
  deriving Repr, Inhabited

namespace Edit

/-- The kind of an edit. -/
def kind : Edit → EditKind
  | .importFiles _ => .importFiles
  | .addColumn _ => .addColumn
  | .deleteColumns _ => .deleteColumns
  | .renameColumn _ => .renameColumn
  | .moveColumn _ => .moveColumn
  | .setFormula _ => .setFormula
  | .changeType _ => .changeType
  | .filterRows _ => .filterRows
  | .sortRows _ => .sortRows
  | .pivot _ => .pivot
  | .merge _ => .merge
  | .oneHot _ => .oneHot
  | .promoteRow _ => .promoteRow
  | .duplicateSheet _ => .duplicateSheet
  | .deleteSheet _ => .deleteSheet
  | .renameSheet _ => .renameSheet
  | .formatSheet _ => .formatSheet
  | .drawChart _ => .drawChart
  | .exportSheets _ => .exportSheets
  | .restrictHeaders _ => .restrictHeaders

/-- The indexes of the sheets that an edit is declared to write. -/
def editedSheets : Edit → List Nat
  | .addColumn e => [e.sheet]
  | .deleteColumns e => [e.sheet]
  | .renameColumn e => [e.sheet]
  | .moveColumn e => [e.sheet]
  | .setFormula e => [e.sheet]
  | .changeType e => [e.sheet]
  | .filterRows e => [e.sheet]
  | .sortRows e => [e.sheet]
  | .oneHot e => [e.sheet]
  | .promoteRow e => [e.sheet]
  | .deleteSheet e => [e.sheet]
  | .renameSheet e => [e.sheet]
  | .formatSheet e => [e.sheet]
  | .pivot e => e.destination.toList
  | .importFiles _ | .merge _ | .duplicateSheet _ | .drawChart _ | .exportSheets _
  | .restrictHeaders _ => []

/-- The outcome of an edit on a state; `d` holds the files that imports read. -/
def change (d : Disk) (s : State) : Edit → Except Fault Change
  | .importFiles e => e.run d s
  | .addColumn e => e.run s
  | .deleteColumns e => e.run s
  | .renameColumn e => e.run s
  | .moveColumn e => e.run s
  | .setFormula e => e.run s
  | .changeType e => e.run s
  | .filterRows e => e.run s
  | .sortRows e => e.run s
  | .pivot e => e.run s
  | .merge e => e.run s
  | .oneHot e => e.run s
  | .promoteRow e => e.run s
  | .duplicateSheet e => e.run s
  | .deleteSheet e => e.run s
  | .renameSheet e => e.run s
  | .formatSheet e => e.run s
  | .drawChart e => e.run s
  | .exportSheets e => (e.run d s).1
  | .restrictHeaders e => e.run s

/-- The disk after an edit was run, also if it was refused. -/
def diskAfter (d : Disk) (s : State) : Edit → Disk
  | .exportSheets e => (e.run d s).2
  | _ => d

end Edit

end SheetScript
