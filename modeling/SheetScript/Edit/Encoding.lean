import SheetScript.Edit.Basic
import SheetScript.Format.Encoding

/-!
# Edits in JSON

  The parameters of an edit are a record, whose fields depend on the kind of the
  edit.  Fields that may be left out are written only when they say something.
-/

namespace SheetScript

namespace Json

/-- A column id. -/
def columnId? (j : Json) : Option ColumnId := j.string?.map ColumnId.mk

/-- A list of column ids. -/
def columnIds? (j : Json) : Option (List ColumnId) := listOf? columnId? j

/-- A pair of column ids. -/
def columnPair? : Json → Option (ColumnId × ColumnId)
  | .array [.string a, .string b] => some (⟨a⟩, ⟨b⟩)
  | _ => none

/-- One of some values, by its name. -/
def named? {α : Type} (values : List α) (name : α → String) (j : Json) : Option α :=
  j.variant?.bind fun s => values.find? fun a => name a == s

/-- A column id. -/
def ofColumnId (id : ColumnId) : Json := .string id.text

/-- A list of column ids. -/
def ofColumnIds (ids : List ColumnId) : Json := .array (ids.map ofColumnId)

/-- A field that is written when it is true. -/
def fieldIfTrue (name : String) (b : Bool) : List (String × Json) :=
  if b then [(name, .bool true)] else []

end Json

/-- A kind of values by one of its names. -/
def ValueKind.ofJson? (j : Json) : Option ValueKind := j.variant?.bind ValueKind.ofName?

namespace ImportFiles

/-- Reads the parameters of an import. -/
def ofJson? (j : Json) : Option ImportFiles := do
  let r ← j.record? ["file_names", "use_deprecated_id_algorithm"]
  pure ⟨← r.need "file_names" Json.texts?,
    ← r.orElse "use_deprecated_id_algorithm" false Json.bool?⟩

/-- Writes the parameters. -/
def fields (e : ImportFiles) : List (String × Json) :=
  ("file_names", .ofTexts e.files) :: Json.fieldIfTrue "use_deprecated_id_algorithm" e.legacyIds

end ImportFiles

namespace AddColumn

/-- Reads the parameters. -/
def ofJson? (j : Json) : Option AddColumn := do
  let r ← j.record? ["sheet_index", "column_header", "column_header_index"]
  pure ⟨← r.need "sheet_index" Json.index?, ← r.need "column_header" Json.string?,
    ← r.need "column_header_index" Json.int64?⟩

/-- Writes the parameters. -/
def fields (e : AddColumn) : List (String × Json) :=
  [("sheet_index", .ofNat e.sheet), ("column_header", .string e.header),
   ("column_header_index", .int e.position)]

end AddColumn

namespace DeleteColumns

/-- Reads the parameters. -/
def ofJson? (j : Json) : Option DeleteColumns := do
  let r ← j.record? ["sheet_index", "column_ids"]
  pure ⟨← r.need "sheet_index" Json.index?, ← r.need "column_ids" Json.columnIds?⟩

/-- Writes the parameters. -/
def fields (e : DeleteColumns) : List (String × Json) :=
  [("sheet_index", .ofNat e.sheet), ("column_ids", .ofColumnIds e.columns)]

end DeleteColumns

namespace RenameColumn

/-- Reads the parameters. -/
def ofJson? (j : Json) : Option RenameColumn := do
  let r ← j.record? ["sheet_index", "column_id", "new_column_header"]
  pure ⟨← r.need "sheet_index" Json.index?, ← r.need "column_id" Json.columnId?,
    ← r.need "new_column_header" Json.string?⟩

/-- Writes the parameters. -/
def fields (e : RenameColumn) : List (String × Json) :=
  [("sheet_index", .ofNat e.sheet), ("column_id", .ofColumnId e.column),
   ("new_column_header", .string e.header)]

end RenameColumn

namespace MoveColumn

/-- Reads the parameters. -/
def ofJson? (j : Json) : Option MoveColumn := do
  let r ← j.record? ["sheet_index", "column_id", "new_column_index"]
  pure ⟨← r.need "sheet_index" Json.index?, ← r.need "column_id" Json.columnId?,
    ← r.need "new_column_index" Json.index?⟩

/-- Writes the parameters. -/
def fields (e : MoveColumn) : List (String × Json) :=
  [("sheet_index", .ofNat e.sheet), ("column_id", .ofColumnId e.column),
   ("new_column_index", .ofNat e.position)]

end MoveColumn

namespace SetFormula

/-- Reads the parameters. -/
def ofJson? (j : Json) : Option SetFormula := do
  let r ← j.record? ["sheet_index", "column_id", "new_formula", "old_formula"]
  pure ⟨← r.need "sheet_index" Json.index?, ← r.need "column_id" Json.columnId?,
    ← r.need "new_formula" Json.string?, ← r.optional "old_formula" Json.string?⟩

/-- Writes the parameters. -/
def fields (e : SetFormula) : List (String × Json) :=
  [("sheet_index", .ofNat e.sheet), ("column_id", .ofColumnId e.column),
   ("new_formula", .string e.formula)] ++ Json.fieldIfSome "old_formula" (e.before.map .string)

end SetFormula

namespace ChangeType

/-- Reads the parameters. -/
def ofJson? (j : Json) : Option ChangeType := do
  let r ← j.record? ["sheet_index", "column_id", "old_dtype", "new_dtype"]
  pure ⟨← r.need "sheet_index" Json.index?, ← r.need "column_id" Json.columnId?,
    ← r.need "old_dtype" ValueKind.ofJson?, ← r.need "new_dtype" ValueKind.ofJson?⟩

/-- Writes the parameters. -/
def fields (e : ChangeType) : List (String × Json) :=
  [("sheet_index", .ofNat e.sheet), ("column_id", .ofColumnId e.column),
   ("old_dtype", .string e.before.name), ("new_dtype", .string e.kind.name)]

end ChangeType

namespace FilterRows

/-- Reads the parameters. -/
def ofJson? (j : Json) : Option FilterRows := do
  let r ← j.record? ["sheet_index", "column_id", "operator", "filters"]
  pure ⟨← r.need "sheet_index" Json.index?, ← r.need "column_id" Json.columnId?,
    ← r.need "operator" BoolOperator.ofJson?,
    ← r.need "filters" (Json.listOf? FilterOrGroup.ofJson?)⟩

/-- Writes the parameters. -/
def fields (e : FilterRows) : List (String × Json) :=
  [("sheet_index", .ofNat e.sheet), ("column_id", .ofColumnId e.column),
   ("operator", e.operator.toJson), ("filters", .array (e.filters.map FilterOrGroup.toJson))]

end FilterRows

namespace SortRows

/-- Reads the parameters. -/
def ofJson? (j : Json) : Option SortRows := do
  let r ← j.record? ["sheet_index", "column_id", "sort_direction"]
  pure ⟨← r.need "sheet_index" Json.index?, ← r.need "column_id" Json.columnId?,
    ← r.need "sort_direction" (Json.named? SortOrder.all SortOrder.name)⟩

/-- Writes the parameters. -/
def fields (e : SortRows) : List (String × Json) :=
  [("sheet_index", .ofNat e.sheet), ("column_id", .ofColumnId e.column),
   ("sort_direction", .string e.order.name)]

end SortRows

namespace Pivot

/-- Reads the aggregations by value column. -/
def values? (j : Json) : Option (Dictionary ColumnId (List Aggregation)) :=
  (Json.dictionaryOf? (Json.listOf? (Json.named? Aggregation.all Aggregation.name)) j).map
    fun d => d.map fun v => (⟨v.1⟩, v.2)

/-- Reads the parameters. -/
def ofJson? (j : Json) : Option Pivot := do
  let r ← j.record?
    ["sheet_index", "pivot_rows_column_ids", "pivot_columns_column_ids", "values_column_ids_map",
     "flatten_column_headers", "destination_sheet_index", "use_deprecated_id_algorithm"]
  pure
    { sheet := ← r.need "sheet_index" Json.index?
      rows := ← r.need "pivot_rows_column_ids" Json.columnIds?
      columns := ← r.orElse "pivot_columns_column_ids" [] Json.columnIds?
      values := ← r.need "values_column_ids_map" values?
      flattens := ← r.orElse "flatten_column_headers" true Json.bool?
      destination := ← r.optional "destination_sheet_index" Json.index?
      underscores := ← r.orElse "use_deprecated_id_algorithm" false Json.bool? }

/-- Writes the parameters. -/
def fields (e : Pivot) : List (String × Json) :=
  [("sheet_index", .ofNat e.sheet), ("pivot_rows_column_ids", .ofColumnIds e.rows),
   ("pivot_columns_column_ids", .ofColumnIds e.columns),
   ("values_column_ids_map", .object (e.values.map fun v =>
      (v.1.text, .ofTexts (v.2.map Aggregation.name)))),
   ("flatten_column_headers", .bool e.flattens)]
    ++ Json.fieldIfSome "destination_sheet_index" (e.destination.map .ofNat)
    ++ Json.fieldIfTrue "use_deprecated_id_algorithm" e.underscores

end Pivot

namespace Merge

/-- Reads the parameters. -/
def ofJson? (j : Json) : Option Merge := do
  let r ← j.record?
    ["how", "sheet_index_one", "sheet_index_two", "merge_key_column_ids",
     "selected_column_ids_one", "selected_column_ids_two"]
  pure
    { kind := ← r.need "how" (Json.named? MergeKind.all MergeKind.name)
      left := ← r.need "sheet_index_one" Json.index?
      right := ← r.need "sheet_index_two" Json.index?
      keys := ← r.need "merge_key_column_ids" (Json.listOf? Json.columnPair?)
      leftColumns := ← r.need "selected_column_ids_one" Json.columnIds?
      rightColumns := ← r.need "selected_column_ids_two" Json.columnIds? }

/-- Writes the parameters. -/
def fields (e : Merge) : List (String × Json) :=
  [("how", .string e.kind.name), ("sheet_index_one", .ofNat e.left),
   ("sheet_index_two", .ofNat e.right),
   ("merge_key_column_ids", .array (e.keys.map fun k => .ofColumnIds [k.1, k.2])),
   ("selected_column_ids_one", .ofColumnIds e.leftColumns),
   ("selected_column_ids_two", .ofColumnIds e.rightColumns)]

end Merge

namespace OneHot

/-- Reads the parameters. -/
def ofJson? (j : Json) : Option OneHot := do
  let r ← j.record? ["sheet_index", "column_id"]
  pure ⟨← r.need "sheet_index" Json.index?, ← r.need "column_id" Json.columnId?⟩

/-- Writes the parameters. -/
def fields (e : OneHot) : List (String × Json) :=
  [("sheet_index", .ofNat e.sheet), ("column_id", .ofColumnId e.column)]

end OneHot

namespace PromoteRow

/-- Reads the parameters. -/
def ofJson? (j : Json) : Option PromoteRow := do
  let r ← j.record? ["sheet_index", "row_index"]
  pure ⟨← r.need "sheet_index" Json.index?, ← r.need "row_index" Json.index?⟩

/-- Writes the parameters. -/
def fields (e : PromoteRow) : List (String × Json) :=
  [("sheet_index", .ofNat e.sheet), ("row_index", .ofNat e.row)]

end PromoteRow

/-- The sheet index of parameters that consist of nothing else. -/
def Json.sheetIndex? (j : Json) : Option Nat :=
  (j.record? ["sheet_index"]).bind fun r => r.need "sheet_index" Json.index?

namespace RenameSheet

/-- Reads the parameters. -/
def ofJson? (j : Json) : Option RenameSheet := do
  let r ← j.record? ["sheet_index", "new_dataframe_name"]
  pure ⟨← r.need "sheet_index" Json.index?, ← r.need "new_dataframe_name" Json.string?⟩

/-- Writes the parameters. -/
def fields (e : RenameSheet) : List (String × Json) :=
  [("sheet_index", .ofNat e.sheet), ("new_dataframe_name", .string e.name)]

end RenameSheet

namespace FormatSheet

/-- Reads the parameters. -/
def ofJson? (j : Json) : Option FormatSheet := do
  let r ← j.record? ["sheet_index", "df_format"]
  pure ⟨← r.need "sheet_index" Json.index?, ← r.need "df_format" SheetFormat.ofJson?⟩

/-- Writes the parameters. -/
def fields (e : FormatSheet) : List (String × Json) :=
  [("sheet_index", .ofNat e.sheet), ("df_format", e.format.toJson)]

end FormatSheet

namespace DrawChart

/-- Reads whether a chart is shortened. -/
def shortens? (j : Json) : Option Bool :=
  (j.record? ["safety_filter_turned_on_by_user"]).bind fun r =>
    r.orElse "safety_filter_turned_on_by_user" false Json.bool?

/-- Reads the parameters. -/
def ofJson? (j : Json) : Option DrawChart := do
  let r ← j.record?
    ["graph_id", "graph_preprocessing", "graph_creation", "graph_styling", "graph_rendering"]
  let key ← r.need "graph_id" Json.string?
  let shortens ← r.orElse "graph_preprocessing" false shortens?
  let creation ← r.need "graph_creation" fun c =>
    c.record? ["graph_type", "sheet_index", "x_axis_column_ids", "y_axis_column_ids", "color"]
  let styling ← r.orElse "graph_styling" .null some
  let rendering ← r.orElse "graph_rendering" .null some
  pure
    { key, shortens, styling, rendering
      kind := ← creation.need "graph_type" (Json.named? ChartKind.all ChartKind.name)
      sheet := ← creation.need "sheet_index" Json.index?
      x := ← creation.orElse "x_axis_column_ids" [] Json.columnIds?
      y := ← creation.orElse "y_axis_column_ids" [] Json.columnIds?
      color := ← creation.optional "color" Json.columnId? }

/-- Writes the parameters. -/
def fields (e : DrawChart) : List (String × Json) :=
  [("graph_id", .string e.key),
   ("graph_preprocessing", .object [("safety_filter_turned_on_by_user", .bool e.shortens)]),
   ("graph_creation", .object ([("graph_type", .string e.kind.name),
      ("sheet_index", .ofNat e.sheet), ("x_axis_column_ids", .ofColumnIds e.x),
      ("y_axis_column_ids", .ofColumnIds e.y)]
        ++ Json.fieldIfSome "color" (e.color.map .ofColumnId))),
   ("graph_styling", e.styling), ("graph_rendering", e.rendering)]

end DrawChart

namespace ExportSheets

/-- Reads the parameters. -/
def ofJson? (j : Json) : Option ExportSheets := do
  let r ← j.record? ["type", "sheet_indexes", "file_name", "export_formatting"]
  pure ⟨← r.need "type" (Json.named? ExportKind.all ExportKind.name),
    ← r.need "sheet_indexes" (Json.listOf? Json.index?), ← r.need "file_name" Json.string?,
    ← r.orElse "export_formatting" false Json.bool?⟩

/-- Writes the parameters. -/
def fields (e : ExportSheets) : List (String × Json) :=
  [("type", .string e.kind.name), ("sheet_indexes", .array (e.sheets.map .ofNat)),
   ("file_name", .string e.path), ("export_formatting", .bool e.withFormats)]

end ExportSheets

namespace RestrictHeaders

/-- Reads the parameters. -/
def ofJson? (j : Json) : Option RestrictHeaders := do
  let r ← j.record? ["move_to_deprecated_id_algorithm"]
  pure ⟨← r.orElse "move_to_deprecated_id_algorithm" false Json.bool?⟩

/-- Writes the parameters. -/
def fields (e : RestrictHeaders) : List (String × Json) :=
  Json.fieldIfTrue "move_to_deprecated_id_algorithm" e.resetsIds

end RestrictHeaders

namespace Edit

/-- Reads an edit of a kind from its parameters. -/
def ofJson? (k : EditKind) (j : Json) : Option Edit :=
  match k with
  | .importFiles => (ImportFiles.ofJson? j).map .importFiles
  | .addColumn => (AddColumn.ofJson? j).map .addColumn
  | .deleteColumns => (DeleteColumns.ofJson? j).map .deleteColumns
  | .renameColumn => (RenameColumn.ofJson? j).map .renameColumn
  | .moveColumn => (MoveColumn.ofJson? j).map .moveColumn
  | .setFormula => (SetFormula.ofJson? j).map .setFormula
  | .changeType => (ChangeType.ofJson? j).map .changeType
  | .filterRows => (FilterRows.ofJson? j).map .filterRows
  | .sortRows => (SortRows.ofJson? j).map .sortRows
  | .pivot => (Pivot.ofJson? j).map .pivot
  | .merge => (Merge.ofJson? j).map .merge
  | .oneHot => (OneHot.ofJson? j).map .oneHot
  | .promoteRow => (PromoteRow.ofJson? j).map .promoteRow
  | .duplicateSheet => j.sheetIndex?.map fun i => .duplicateSheet ⟨i⟩
  | .deleteSheet => j.sheetIndex?.map fun i => .deleteSheet ⟨i⟩
  | .renameSheet => (RenameSheet.ofJson? j).map .renameSheet
  | .formatSheet => (FormatSheet.ofJson? j).map .formatSheet
  | .drawChart => (DrawChart.ofJson? j).map .drawChart
  | .exportSheets => (ExportSheets.ofJson? j).map .exportSheets
  | .restrictHeaders => (RestrictHeaders.ofJson? j).map .restrictHeaders

/-- The fields of the parameters. -/
def fields : Edit → List (String × Json)
  | .importFiles e => e.fields
  | .addColumn e => e.fields
  | .deleteColumns e => e.fields
  | .renameColumn e => e.fields
  | .moveColumn e => e.fields
  | .setFormula e => e.fields
  | .changeType e => e.fields
  | .filterRows e => e.fields
  | .sortRows e => e.fields
  | .pivot e => e.fields
  | .merge e => e.fields
  | .oneHot e => e.fields
  | .promoteRow e => e.fields
  | .duplicateSheet e => [("sheet_index", .ofNat e.sheet)]
  | .deleteSheet e => [("sheet_index", .ofNat e.sheet)]
  | .renameSheet e => e.fields
  | .formatSheet e => e.fields
  | .drawChart e => e.fields
  | .exportSheets e => e.fields
  | .restrictHeaders e => e.fields

/-- The parameters in JSON, in canonical form. -/
def toJson (e : Edit) : Json := (Json.object e.fields).canonical

/-- An edit from the name of its kind and its parameters. -/
def ofParts (name : String) (params : Json) : Except Fault Edit :=
  match EditKind.ofName? name with
  | none => .error (.unknownStep name)
  | some k =>
    match ofJson? k params with
    | some e => .ok e
    | none =>
      .error (.invalidParams ("bad params for " ++ name ++ ": a field is missing or mistyped"))

end Edit

end SheetScript
