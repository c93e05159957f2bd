import SheetScript.State
import SheetScript.Table.Aggregation
import SheetScript.Table.Pattern

/-!
# Pivot tables

  A pivot table has a row for every combination of values in its row columns, and
  a cell for every aggregation of a value column; with key columns, a cell for
  every such aggregation over the rows of one combination of their values.  Rows
  with a missing key do not count.
-/

namespace SheetScript

/-- Makes a pivot table. -/
structure Pivot where
  sheet : Nat
  rows : List ColumnId
  columns : List ColumnId := []
  values : Dictionary ColumnId (List Aggregation)
  /-- Kept for front ends: headers always consist of one text. -/
  flattens : Bool := true
  /-- The sheet to overwrite; a new one if there is none. -/
  destination : Option Nat := none
  /-- The parts of headers are joined by underscores, as in old analyses. -/
  underscores : Bool := false
  deriving DecidableEq, Repr, Inhabited

namespace Pivot

/-- The headers that a pivot table is made from. -/
structure Layout where
  rows : List Header
  columns : List Header
  values : List (Header × List Aggregation)
  deriving DecidableEq, Repr, Inhabited

/-- A value column with its header; none without aggregations. -/
def valueOf (e : Pivot) (sheet : Sheet) (v : ColumnId × List Aggregation) :
    Except Fault (Option (Header × List Aggregation)) := do
  if v.2.isEmpty then pure none
  else if v.1 ∈ e.rows || v.1 ∈ e.columns then
    throw (.invalidParams ("column '" ++ v.1.text ++ "' cannot be both a pivot key and a value"))
  else pure (some (← sheet.header v.1, v.2))

/-- The layout in a sheet. -/
def layout (e : Pivot) (sheet : Sheet) : Except Fault Layout := do
  if e.rows.isEmpty then throw (.invalidParams "a pivot table needs at least one row")
  else if e.values.all fun v => v.2.isEmpty then
    throw (.invalidParams "a pivot table needs at least one value")
  else
    let rows ← sheet.headersFor e.rows
    let columns ← sheet.headersFor e.columns
    let values ← e.values.mapM (e.valueOf sheet)
    pure ⟨rows, columns, values.filterMap id⟩

/-- The header of an aggregation. -/
def header (e : Pivot) (parts : List String) : Header :=
  (if e.underscores then "_" else " ").intercalate parts

/-! ### Combinations of key columns -/

/-- A combination of cells as a text, if none of them is missing. -/
def keyText (columns : List Column) (key : List Cell) : Option String := do
  let parts ← (columns.zip key).mapM fun p => p.2.text? p.1.dtype
  pure (" ".intercalate parts)

/-- The combinations that occur in some columns, in order, as texts.  Other columns tell more of
  them apart. -/
def combinations (columns others : List Column) (height : Nat) : List String :=
  (Group.sorted (Frame.keyRows (columns ++ others) height).zipIdx).filterMap fun g =>
    keyText columns g.key

/-- Some columns whose cells are taken as texts one after the other. -/
def textColumns (f : Frame) (names : List Header) : Except Fault (List Column) := do
  let columns ← (← f.namedAll names).mapM f.column
  if columns.isEmpty || columns.any fun c => c.dtype = .duration then
    throw (.ofTable .invalidOperation)
  else pure columns

/-- The texts of the combinations of key columns.  They are found in the key columns alone, by
  what the headers stand for there. -/
def texts (f : Frame) (headers : List Header) : Except Fault (List String) := do
  if headers.isEmpty then pure []
  else
    let alone ← f.select headers
    let columns ← textColumns alone headers
    let others := alone.columns.filter fun c => c.header ∉ columns.map Column.header
    pure (combinations columns others f.height)

/-- How a table is split by key columns: the texts of the combinations, and that of each row. -/
def split (f : Frame) (headers : List Header) :
    Except Fault (Option (List String × Array (Option String))) := do
  if headers.isEmpty then pure none
  else
    let found ← texts f headers
    if found.isEmpty then pure (some ([], #[]))
    else
      let columns ← textColumns f headers
      pure (some (found, ((Frame.keyRows columns f.height).map (keyText columns)).toArray))

/-! ### Cells -/

/-- The aggregated cells of a column: one for each list of rows, missing if the
  list is empty and has to hold a row. -/
def cells (c : Column) (a : Aggregation) (rows : List (List Nat)) (needsRow : Bool) : List Cell :=
  let values := c.cells.toArray
  rows.map fun group =>
    if needsRow && group.isEmpty then .missing
    else a.of c.dtype (group.map fun i => values[i]?.getD .missing)

/-- The columns of one aggregation of a value column: one, or one for each
  combination. -/
def aggregated (e : Pivot) (c : Column) (a : Aggregation) (groups : List Group)
    (split : Option (List String × Array (Option String))) : List Column :=
  let t := a.resultType c.dtype
  match split with
  | none => [⟨e.header [c.header, a.code], t, cells c a (groups.map Group.rows) false⟩]
  | some (combinations, texts) =>
    combinations.map fun k =>
      let rows := groups.map fun g => g.rows.filter fun i => texts[i]? == some (some k)
      ⟨e.header [c.header, a.code, k], t, cells c a rows true⟩

/-- The columns whose values are aggregated, each under the header that it is named by.  The row
  keys are not among what a pattern stands for. -/
def valueColumns (f : Frame) (rows : List Header) (v : Header × List Aggregation) :
    Except Fault (List (Column × List Aggregation)) := do
  (← (f.drop rows).named v.1).mapM fun h => do
    pure ({ ← f.column h with header := v.1 }, v.2)

/-- The data of a pivot table. -/
def frame (e : Pivot) (l : Layout) (f : Frame) : Except Fault Frame := do
  let split ← split f l.columns
  let tested ← (← f.namedOnce (l.rows ++ l.columns)).mapM f.column
  let names ← f.namedAll l.rows
  if names.isEmpty then throw (.ofTable .compute)
  else
    let rows ← names.mapM f.column
    let values ← l.values.mapM (valueColumns f names)
    let complete (key : List Cell) : Bool := key.all fun c => !c.isMissing
    let counted :=
      ((Frame.keyRows rows f.height).zip (Frame.keyRows tested f.height)).zipIdx.filterMap fun r =>
        if complete r.1.2 then some (r.1.1, r.2) else none
    let groups := Group.sorted counted
    let keyed := rows.zipIdx.map fun c =>
      { c.1 with cells := groups.map fun g => g.key[c.2]?.getD .missing }
    let aggregates := values.flatten.flatMap fun v => v.2.flatMap fun a =>
      e.aggregated v.1 a groups split
    Frame.distinct (keyed ++ aggregates) groups.length

/-- The headers that ids are given to when a pivot table overwrites a sheet. -/
def headers (e : Pivot) (l : Layout) (f : Frame) : Except Fault (List Header) := do
  let found ← texts f l.columns
  pure (l.rows ++ l.values.flatMap fun v => v.2.flatMap fun a =>
    if l.columns.isEmpty then [e.header [v.1, a.code]]
    else found.map fun k => e.header [v.1, a.code, k])

/-! ### The edit -/

/-- The code of a pivot table. -/
def block (e : Pivot) (l : Layout) (source output : Sheet) : Block :=
  let used := l.rows ++ l.columns ++ l.values.map Prod.fst
  let aggregations := l.values.map fun v =>
    Literal.text v.1 ++ ": " ++ Literal.list (v.2.map Aggregation.code)
  let call :=
    ["    index=" ++ Literal.list l.rows ++ ","]
      ++ (if l.columns.isEmpty then [] else ["    columns=" ++ Literal.list l.columns ++ ","])
      ++ ["    values=" ++ Literal.list (l.values.map Prod.fst) ++ ",",
          "    aggfunc=\x7b" ++ ", ".intercalate aggregations ++ "\x7d"]
  let flatten :=
    if e.underscores then "'_'.join([str(c) for c in col]).strip('_')"
    else "flatten_column_header(col)"
  let reads := ({} : Footprint).read source.id
    (.ofList (e.rows ++ e.columns ++ Dictionary.keys e.values))
  { displayName := "Pivoted"
    description := "Pivoted " ++ source.name ++ " into " ++ output.name
    statements :=
      ["tmp_df = " ++ source.name ++ "[" ++ Literal.list used ++ "]",
       "pivot_table = tmp_df.pivot_table(\n" ++ "\n".intercalate call ++ "\n)",
       "pivot_table = pivot_table.set_axis([" ++ flatten
         ++ " for col in pivot_table.keys()], axis=1)",
       output.name ++ " = pivot_table.reset_index()"]
    footprint :=
      match e.destination with
      | some _ => reads.write output.id .all
      | none => reads.create output.id
    outputs := [output.blockOutput]
    keep := false }

/-- Runs the edit. -/
def run (e : Pivot) (s : State) : Except Fault Change := do
  let source ← s.sheet e.sheet
  let l ← e.layout source
  let f ← e.frame l source.frame
  match e.destination with
  | some i =>
    let target ← s.sheet i
    let headers ← e.headers l source.frame
    let output := { target.withData f (ColumnIds.ofHeaders headers) with formulas := [] }
    pure (.onSheet s i output [.block (e.block l source output)])
  | none =>
    let (output, next) := s.mint (s.uniqueName (source.name ++ "_pivot")) f
    pure ⟨next.push output, [.block (e.block l source output)]⟩

end Pivot

end SheetScript
