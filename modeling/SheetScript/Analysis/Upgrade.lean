import SheetScript.Analysis.Basic
import SheetScript.Analysis.Encoding
import SheetScript.Analysis.Translator

/-!
# Upgrading analyses

  An old edit is brought to the current version of its kind one version at a
  time.  Headers become column ids on the way, as the translator knows them at
  that place of the analysis.  Edits that named columns by restricted headers are
  followed by one that restricts the headers.
-/

namespace SheetScript

namespace Params

/-- A field and the parameters without it. -/
def take (p : Params) (field : String) : Except Fault (Json × Params) :=
  match Dictionary.get? p field with
  | some j => .ok (j, Dictionary.erase p field)
  | none => .error (missing field)

/-- The index of a sheet. -/
def sheet (p : Params) (field : String) : Except Fault Nat := need (.object p) field Json.index?

/-- A header; it may be written as a number. -/
def header : Json → Except Fault Header
  | .string s => .ok s
  | .int n => .ok (Json.int n).compact
  | .float x => .ok (Json.float x).compact
  | other => .error (.upgrade ("expected a column header, got " ++ other.compact))

/-- A header that is taken out. -/
def takeHeader (p : Params) (field : String) : Except Fault (Header × Params) := do
  let (j, p) ← take p field
  pure (← header j, p)

/-- A list of headers that is taken out. -/
def takeHeaders (p : Params) (field : String) : Except Fault (List Header × Params) := do
  match ← take p field with
  | (.array items, p) => pure (← items.mapM header, p)
  | (other, _) =>
    throw (.upgrade ("'" ++ field ++ "' should be a list of headers, got " ++ other.compact))

/-- A field for a column id in place of one for a header. -/
def headerToId (t : Translator) (headerField idField : String) (p : Params) :
    Except Fault Params := do
  let i ← sheet p "sheet_index"
  let (h, p) ← takeHeader p headerField
  pure (Dictionary.insert p idField (.ofColumnId (t.translate i h)))

/-! ### Filters -/

mutual

/-- A filter list without the types that old front ends wrote into it. -/
def untyped : Json → Json
  | .array items => .array (untypedItems items)
  | j => j

/-- The entries of a filter list without types. -/
def untypedItems : List Json → List Json
  | [] => []
  | .object fields :: rest => .object (untypedFields fields) :: untypedItems rest
  | j :: rest => j :: untypedItems rest

/-- The fields of an entry without its type. -/
def untypedFields : List (String × Json) → List (String × Json)
  | [] => []
  | (name, j) :: rest =>
    if name = "type" then untypedFields rest
    else (name, if name = "filters" then untyped j else j) :: untypedFields rest

end

/-- The parameters of a filter, with a column id and without types. -/
def filter (t : Translator) (p : Params) : Except Fault Params := do
  let p ← if Dictionary.contains p "column_header" then
      headerToId t "column_header" "column_id" p
    else pure p
  let p := Dictionary.erase p "has_non_empty_filter"
  pure (match Dictionary.get? p "filters" with
    | some j => Dictionary.insert p "filters" (untyped j)
    | none => p)

/-! ### Defaults -/

mutual

/-- The value `target` with defaults for what it does not say. -/
def completed : Json → Json → Json
  | .object defaults, .object target => .object (completedFields defaults target)
  | _, target => target

/-- The fields of `target` with defaults for those that are not there. -/
def completedFields : List (String × Json) → Params → Params
  | [], target => target
  | (name, default) :: rest, target =>
    completedFields rest
      (match Dictionary.get? target name with
        | some j => Dictionary.insert target name (completed default j)
        | none => Dictionary.insert target name default)

end

/-- How a chart looks unless it is told otherwise. -/
def stylingDefaults : Json :=
  let color : Json := .string "#2a3f5f"
  .ofFields
    [("title", .ofFields [("visible", .bool true), ("title_font_color", color)]),
     ("xaxis", .ofFields [("visible", .bool true), ("title_font_color", color),
        ("showgrid", .bool true), ("rangeslider", .ofFields [("visible", .bool true)])]),
     ("yaxis", .ofFields [("visible", .bool true), ("title_font_color", color),
        ("showgrid", .bool true)]),
     ("showlegend", .bool true), ("legend", .ofFields [("orientation", .string "v")]),
     ("paper_bgcolor", .string "#ffffff"), ("plot_bgcolor", .string "#E5ECF6")]

/-- The parameters of a chart with the default look. -/
def chart (p : Params) : Params :=
  let styling := (Dictionary.get? p "graph_styling").getD (.object [])
  Dictionary.insert p "graph_styling" (completed stylingDefaults styling)

/-! ### Merges and pivot tables -/

/-- The parameters of a merge with column ids. -/
def mergeIds (t : Translator) (p : Params) : Except Fault Params := do
  let one ← sheet p "sheet_index_one"
  let two ← sheet p "sheet_index_two"
  let (keyOne, p) ← takeHeader p "merge_key_one"
  let (keyTwo, p) ← takeHeader p "merge_key_two"
  let (selectedOne, p) ← takeHeaders p "selected_columns_one"
  let (selectedTwo, p) ← takeHeaders p "selected_columns_two"
  let p := Dictionary.insert p "merge_key_column_id_one" (.ofColumnId (t.translate one keyOne))
  let p := Dictionary.insert p "merge_key_column_id_two" (.ofColumnId (t.translate two keyTwo))
  let p := Dictionary.insert p "selected_column_ids_one"
    (.ofColumnIds (selectedOne.map (t.translate one)))
  pure (Dictionary.insert p "selected_column_ids_two"
    (.ofColumnIds (selectedTwo.map (t.translate two))))

/-- The parameters of a merge with a list of pairs of keys. -/
def mergePairs (p : Params) : Except Fault Params := do
  let (one, p) ← take p "merge_key_column_id_one"
  let (two, p) ← take p "merge_key_column_id_two"
  pure (Dictionary.insert p "merge_key_column_ids" (.array [.array [one, two]]))

/-- Aggregations by column, each a list. -/
def aggregationLists : Json → Json
  | .object fields =>
    .object (fields.map fun f => match f.2 with
      | .string s => (f.1, .array [.string s])
      | _ => f)
  | j => j

/-- The parameters of a pivot table with lists of aggregations. -/
def pivotLists (p : Params) : Except Fault Params := do
  let (values, p) ← take p "values"
  pure (Dictionary.insert p "values" (aggregationLists values))

/-- The parameters of a pivot table with column ids. -/
def pivotIds (t : Translator) (p : Params) : Except Fault Params := do
  let i ← sheet p "sheet_index"
  let (rows, p) ← takeHeaders p "pivot_rows"
  let (columns, p) ← takeHeaders p "pivot_columns"
  match ← take p "values" with
  | (.object values, p) =>
    let byId := Dictionary.ofList (values.map fun v => ((t.translate i v.1).text, v.2))
    let p := Dictionary.insert p "pivot_rows_column_ids" (.ofColumnIds (rows.map (t.translate i)))
    let p := Dictionary.insert p "pivot_columns_column_ids"
      (.ofColumnIds (columns.map (t.translate i)))
    let p := Dictionary.insert p "values_column_ids_map" (.object byId)
    pure (Dictionary.insert p "use_deprecated_id_algorithm" (.bool true))
  | (other, _) => throw (.upgrade ("pivot values should be an object, got " ++ other.compact))

end Params

namespace StoredEdit

/-- An edit that restricts headers. -/
def restrictHeaders (resetsIds : Bool) : StoredEdit := .ofEdit (.restrictHeaders ⟨resetsIds⟩)

/-- The parameters of an edit, which have to be an object. -/
def paramFields (s : StoredEdit) : Except Fault Params :=
  match s.params with
  | .object fields => .ok fields
  | _ => .error (.upgrade (s.kind ++ " params are not an object"))

/-- A grouping, which is a pivot table now. -/
def groupToPivot (s : StoredEdit) : Except Fault StoredEdit := do
  let p ← s.paramFields
  let (rows, p) ← Params.take p "group_rows"
  let columns := (Dictionary.get? p "group_columns").getD (.array [])
  let p := Dictionary.insert (Dictionary.erase p "group_columns") "pivot_rows" rows
  pure ⟨1, EditKind.pivot.name, .object (Dictionary.insert p "pivot_columns" columns)⟩

/-- Whether an edit of a kind and version is followed by one that restricts the
  headers. -/
def needsRestriction (k : EditKind) (version : Nat) : Bool :=
  (k = .pivot && version = 3) || (k = .importFiles && version = 1)

/-- The parameters of the next version. -/
def nextParams (t : Translator) (k : EditKind) (version : Nat) (p : Params) :
    Except Fault Params :=
  match k, version with
  | .addColumn, 1 => .ok (Dictionary.insert p "column_header_index" (.int (-1)))
  | .changeType, 1 | .moveColumn, 1 | .sortRows, 1 | .setFormula, 1 | .deleteColumns, 1 =>
    Params.headerToId t "column_header" "column_id" p
  | .renameColumn, 1 => Params.headerToId t "old_column_header" "column_id" p
  | .deleteColumns, 2 => do
    let (id, p) ← Params.take p "column_id"
    pure (Dictionary.insert p "column_ids" (.array [id]))
  | .filterRows, 1 | .filterRows, 2 | .filterRows, 3 => Params.filter t p
  | .merge, 1 =>
    .ok (if Dictionary.contains p "how" then p else Dictionary.insert p "how" (.string "lookup"))
  | .merge, 2 => Params.mergeIds t p
  | .merge, 3 => Params.mergePairs p
  | .pivot, 1 => Params.pivotLists p
  | .pivot, 2 | .pivot, 4 | .drawChart, 2 | .drawChart, 3 => .ok p
  | .pivot, 3 => Params.pivotIds t p
  | .pivot, 5 =>
    .ok (Dictionary.insert (Dictionary.erase p "created_non_empty_dataframe")
      "flatten_column_headers" (.bool true))
  | .importFiles, 1 => .ok (Dictionary.insert p "use_deprecated_id_algorithm" (.bool true))
  | .drawChart, 1 => .ok (Params.chart p)
  | k, version =>
    .error (.upgrade ("no upgrade for " ++ k.name ++ " version " ++ Decimal.natText version))

/-- An edit of a kind taken a number of versions further, with the edits that
  have to follow it. -/
def advance (t : Translator) (k : EditKind) : Nat → StoredEdit →
    Except Fault (StoredEdit × List StoredEdit)
  | 0, s => .ok (s, [])
  | n + 1, s => do
    let p ← nextParams t k s.version (← s.paramFields)
    let (last, later) ← advance t k n ⟨s.version + 1, s.kind, .object p⟩
    pure (last, if needsRestriction k s.version then restrictHeaders false :: later else later)

/-- An edit of the current version in place of an old one, with the edits that
  have to follow it. -/
def upgrade (t : Translator) (s : StoredEdit) : Except Fault (List StoredEdit) := do
  let s ← if s.kind = "group" then s.groupToPivot else pure s
  match EditKind.ofName? s.kind with
  | none => throw (.upgrade ("unknown step type '" ++ s.kind ++ "'"))
  | some k =>
    if k.version < s.version then
      throw (.upgrade (s.kind ++ " version " ++ Decimal.natText s.version
        ++ " is newer than this build supports (" ++ Decimal.natText k.version ++ ")"))
    else
      let (last, later) ← advance t k (k.version - s.version) s
      pure (last :: later)

end StoredEdit

namespace Analysis

/-- The first version in which columns have ids. -/
def columnIdVersion : String := "0.2.0"

/-- The upgraded edits of a list, with the translator after them. -/
def upgradeSteps (t : Translator) : List StoredEdit → Except Fault (List StoredEdit)
  | [] => .ok []
  | s :: rest => do
    let upgraded ← s.upgrade t
    let t ← upgraded.foldlM Translator.observe t
    pure (upgraded ++ (← upgradeSteps t rest))

/-- The analysis with every edit at its current version, for a session that
  starts with some number of sheets. -/
def upgrade (a : Analysis) (sheets : Nat) : Except Fault Analysis := do
  let steps ← upgradeSteps (.ofCount sheets) a.steps
  let first :=
    if Version.isOlder a.version columnIdVersion then [StoredEdit.restrictHeaders true] else []
  pure ⟨currentVersion, first ++ steps⟩

/-- The upgraded edits of a list, as long as the translator has room. -/
def upgradeStepsWithin (t : Translator) :
    List StoredEdit → Except Translator.Stop (List StoredEdit)
  | [] => .ok []
  | s :: rest => do
    let upgraded ← (s.upgrade t).mapError .refused
    let t ← upgraded.foldlM Translator.observeWithin t
    pure (upgraded ++ (← upgradeStepsWithin t rest))

/-- The upgraded analysis, as long as the translator has room. -/
def upgradeWithin (a : Analysis) (sheets : Nat) : Except Translator.Stop Analysis := do
  if Translator.capacity < sheets then throw .overflow
  let steps ← upgradeStepsWithin (.ofCount sheets) a.steps
  let first :=
    if Version.isOlder a.version columnIdVersion then [StoredEdit.restrictHeaders true] else []
  pure ⟨currentVersion, first ++ steps⟩

end Analysis

end SheetScript
