import SheetScript.Csv
import SheetScript.Disk
import SheetScript.State
import SheetScript.Workbook.Code
import SheetScript.Workbook.Plan

/-!
# Edits that read and write files

  An import makes a sheet of each of some files with comma-separated values.  An
  export writes sheets to files of that kind, or together into one workbook; it
  leaves the sheets as they are, and its code always stays in the script.
-/

namespace SheetScript

/-- The frame of a file with comma-separated values.  A path is that of one file:
  stars and brackets in it are characters of the name. -/
def Csv.load (d : Disk) (path : String) : Except Fault Frame :=
  let result :=
    match d.content? path with
    | some (.text s) => Csv.read s
    | some .workbook => .error .compute
    | none => .error .file
  match result with
  | .ok f => .ok f
  | .error e => .error ((Fault.ofTable e).inContext ("Failed to read CSV " ++ path))

/-- Imports files. -/
structure ImportFiles where
  files : List String
  /-- Column ids follow the restricted headers of old analyses. -/
  legacyIds : Bool := false
  deriving DecidableEq, Repr, Inhabited

namespace ImportFiles

/-- The name that a file gives to its sheet. -/
def baseName (path : String) : String := (Path.stem? path).getD path

/-- Ids as old analyses had them. -/
def legacyColumns (headers : List Header) : ColumnIds :=
  headers.foldl (fun m h => m.insertWithId ⟨Naming.legacyHeader h⟩ h) {}

/-- Adds the sheet of one file. -/
def addFile (e : ImportFiles) (d : Disk) (acc : State × List Sheet) (path : String) :
    Except Fault (State × List Sheet) := do
  let (s, sheets) := acc
  let f ← Csv.load d path
  let (fresh, next) := s.mint (s.uniqueName (baseName path)) f
  let sheet := if e.legacyIds then { fresh with columns := legacyColumns f.headers } else fresh
  pure (next.push sheet, sheets ++ [sheet])

/-- The code of an import. -/
def block (e : ImportFiles) (sheets : List Sheet) : Block :=
  { displayName := "Imported"
    description := "Imported " ++ ", ".intercalate (sheets.map Sheet.name)
    statements := (e.files.zip sheets).map fun p =>
      p.2.name ++ " = pd.read_csv(" ++ Literal.path p.1 ++ ")"
    footprint := sheets.foldl (fun f sheet => f.create sheet.id) {}
    outputs := sheets.map Sheet.blockOutput
    keep := false }

/-- Runs the edit. -/
def run (e : ImportFiles) (d : Disk) (s : State) : Except Fault Change := do
  if e.files.isEmpty then throw (.invalidParams "no files to import")
  else
    let (next, sheets) ← e.files.foldlM (e.addFile d) (s, [])
    pure ⟨next, [.block (e.block sheets)]⟩

end ImportFiles

/-- The kinds of files that an export writes. -/
inductive ExportKind where
  | csv
  | workbook
  deriving DecidableEq, Repr, Inhabited

namespace ExportKind

/-- Every kind. -/
def all : List ExportKind := [.csv, .workbook]

/-- The name of a kind. -/
def name : ExportKind → String
  | .csv => "csv"
  | .workbook => "excel"

/-- The usual extension of files of a kind. -/
def fileExtension : ExportKind → String
  | .csv => "csv"
  | .workbook => "xlsx"

end ExportKind

/-- Exports sheets. -/
structure ExportSheets where
  kind : ExportKind
  sheets : List Nat
  /-- The path as the user wrote it. -/
  path : String
  /-- A workbook carries the formats of the sheets. -/
  withFormats : Bool := false
  deriving DecidableEq, Repr, Inhabited

namespace ExportSheets

/-- The path with an extension. -/
def basePath (e : ExportSheets) : String :=
  if (Path.extension? e.path).isSome then e.path
  else Path.withExtension e.path e.kind.fileExtension

/-- The files that are written: one workbook, or a file for each sheet, which has
  the index of the sheet in its name if there are several. -/
def paths (e : ExportSheets) : List String :=
  let base := e.basePath
  if e.kind = .workbook || e.sheets.length ≤ 1 then [base]
  else
    let stem := (Path.stem? base).getD ""
    let extension := (Path.extension? base).getD "csv"
    e.sheets.map fun i =>
      Path.withFileName base (stem ++ "_" ++ Decimal.natText i ++ "." ++ extension)

/-! ### Writing -/

/-- Makes the directory of a file and writes what `content` yields.  The
  directory stays also if there is nothing to write. -/
def writeFile (d : Disk) (path : String) (content : Except Fault FileContent) :
    Except Fault Unit × Disk :=
  let directory := Path.parent path
  match if directory == "" then some d else d.makeDirectory? directory with
  | none => (.error (.io ("no directory " ++ directory)), d)
  | some d =>
    match content with
    | .error f => (.error f, d)
    | .ok c =>
      match d.write? path c with
      | some d => (.ok (), d)
      | none =>
        (.error ((Fault.io ("no file " ++ path)).inContext
          ("Failed to move export into " ++ path)), d)

/-- What is written for a sheet. -/
def csvContent (sheet : Sheet) : Except Fault FileContent :=
  match Csv.write sheet.frame with
  | .ok s => .ok (.text s)
  | .error e => .error ((Fault.ofTable e).inContext "Failed to write CSV file")

/-- Writes sheets to files until one cannot be written. -/
def writeAll (d : Disk) : List (Sheet × String) → Except Fault Unit × Disk
  | [] => (.ok (), d)
  | (sheet, path) :: rest =>
    match writeFile d path (csvContent sheet) with
    | (.ok (), d) => writeAll d rest
    | failed => failed

/-- Sheets with the names of their tabs. -/
def tabs (sheets : List Sheet) : List (Sheet × String) :=
  sheets.zip (Workbook.tabNames (sheets.map Sheet.name))

/-- The plans of the tabs, if formats are carried along. -/
def plans (e : ExportSheets) (sheets : List Sheet) : Except Fault (List Workbook.Plan) :=
  if e.withFormats then (tabs sheets).mapM fun t => Workbook.plan t.2 t.1 else .ok []

/-- The workbook of some sheets, whose colors have to be readable and whose tabs
  have to differ. -/
def workbookContent (sheets : List Sheet) (plans : List Workbook.Plan) :
    Except Fault FileContent := do
  plans.forM Workbook.checkPlan
  if Workbook.differByLetters ((tabs sheets).map fun t => t.2) then pure .workbook
  else throw (.execution .connectionFailure "two tabs have the same name")

/-- Writes the files of an export. -/
def write (e : ExportSheets) (d : Disk) (sheets : List Sheet) : Except Fault Unit × Disk :=
  match e.kind with
  | .csv => writeAll d (sheets.zip e.paths)
  | .workbook =>
    match e.plans sheets with
    | .error f => (.error f, d)
    | .ok plans =>
      writeFile d e.basePath (workbookContent sheets plans)

/-! ### The edit -/

/-- The statements of an export. -/
def statements (e : ExportSheets) (sheets : List Sheet) : Except Fault (List String) :=
  match e.kind with
  | .csv =>
    .ok ((sheets.zip e.paths).map fun p =>
      p.1.name ++ ".to_csv(" ++ Literal.path p.2 ++ ", index=False)")
  | .workbook => do
    let opening := "with pd.ExcelWriter(" ++ Literal.path e.basePath
      ++ ", engine=\"openpyxl\") as writer:"
    let writing := (tabs sheets).map fun t =>
      "    " ++ t.1.name ++ ".to_excel(writer, sheet_name=" ++ Json.quoted t.2 ++ ", index=False)"
    let formatting ←
      if e.withFormats then
        (tabs sheets).mapM fun t => Workbook.formattingCall t.2 t.1.name t.1
      else pure []
    pure (opening :: (writing ++ formatting.filterMap id))

/-- The code of an export. -/
def block (e : ExportSheets) (sheets : List Sheet) : Except Fault Block := do
  pure
    { displayName := "Exported"
      description := "Exported " ++ ", ".intercalate (sheets.map Sheet.name) ++ " to " ++ e.path
      statements := ← e.statements sheets
      footprint := sheets.foldl (fun f sheet => f.read sheet.id .all) {}
      outputs := []
      keep := true }

/-- Whether there is something to write, and where. -/
def sheetsOf (e : ExportSheets) (s : State) : Except Fault (List Sheet) := do
  if e.sheets.isEmpty then throw (.invalidParams "no sheets to export")
  else if Text.trimList e.path.toList = [] then
    throw (.invalidParams "export needs a file name")
  else e.sheets.mapM s.sheet

/-- Runs the edit.  What was written stays on the disk also after a fault. -/
def run (e : ExportSheets) (d : Disk) (s : State) : Except Fault Change × Disk :=
  match e.sheetsOf s with
  | .error f => (.error f, d)
  | .ok sheets =>
    match e.write d sheets with
    | (.error f, d) => (.error f, d)
    | (.ok (), d) => ((e.block sheets).map fun b => ⟨s, [.block b]⟩, d)

end ExportSheets

end SheetScript
