import SheetScript.State
import SheetScript.Table.Pattern

/-!
# Changing the type of a column

  A user sees six kinds of values.  Converting between kinds goes cell by cell;
  what cannot be converted becomes missing.  Numbers are converted into moments
  and durations as seconds, and back as nanoseconds.
-/

namespace SheetScript

/-- A kind of values. -/
inductive ValueKind where
  | whole
  | number
  | truth
  | text
  | moment
  | span
  deriving DecidableEq, Repr, Inhabited

namespace ValueKind

/-- The kind of a column type. -/
def ofType (t : DType) : ValueKind :=
  match t with
  | .bool => .truth
  | .float64 | .float32 => .number
  | .date | .datetime => .moment
  | .duration => .span
  | .text | .null => .text
  | .int64 | .int32 | .uint8 | .uint32 => .whole

/-- Every kind. -/
def all : List ValueKind := [.whole, .number, .truth, .text, .moment, .span]

/-- The name of a kind. -/
def name : ValueKind → String
  | .whole => "int64"
  | .number => "float64"
  | .truth => "bool"
  | .text => "str"
  | .moment => "datetime64[ns]"
  | .span => "timedelta64[ns]"

/-- Other names that a kind goes by. -/
def aliases : ValueKind → List String
  | .whole => ["int", "int32", "uint8"]
  | .number => ["float", "float32"]
  | .truth => ["boolean"]
  | .text => ["object", "string"]
  | .moment => ["datetime"]
  | .span => ["timedelta"]

/-- The kind of a name. -/
def ofName? (s : String) : Option ValueKind := all.find? fun k => s = k.name || s ∈ k.aliases

/-- The word for a kind in messages. -/
def word : ValueKind → String
  | .whole => "Int"
  | .number => "Float"
  | .truth => "Bool"
  | .text => "Str"
  | .moment => "Datetime"
  | .span => "Timedelta"

end ValueKind

namespace Retype

/-- The texts that stand for true, in small letters. -/
def truthWords : List String := ["true", "t", "yes", "y", "1"]

/-- Whether a cell counts as true; a missing one does not. -/
def truth : Cell → Cell
  | .text s => .bool (Text.toLower s ∈ truthWords)
  | .int n => .bool (n != 0)
  | .float x => .bool (x != 0)
  | .bool b => .bool b
  | .missing => .bool false

/-- A moment or a duration in nanoseconds. -/
def nanoseconds (t : DType) : Cell → Cell
  | .int n => .int (DType.int64.wrap (1000 * if t = .date then n * Cell.dayLength else n))
  | _ => .missing

/-- A number of seconds in microseconds; fractions of a second are dropped. -/
def microseconds (t : DType) (c : Cell) : Cell :=
  match Cell.cast t .int64 c with
  | .int n => .int (DType.int64.wrap (n * 1000000))
  | _ => .missing

/-- A column with its cells converted to another type. -/
def mapped (c : Column) (t : DType) (f : Cell → Cell) : Column := ⟨c.header, t, c.cells.map f⟩

/-- The column converted to another kind. -/
def column (c : Column) (target : ValueKind) : Except Fault Column :=
  let t := c.dtype
  let cast (target : DType) := mapped c target (Cell.cast t target)
  let asNumber := mapped c .int64 (nanoseconds t)
  match ValueKind.ofType t, target with
  | .text, .truth | .whole, .truth | .number, .truth => .ok (mapped c .bool truth)
  | .moment, .whole | .span, .whole => .ok asNumber
  | .moment, .number | .span, .number =>
    .ok (mapped asNumber .float64 (Cell.cast .int64 .float64))
  | .number, .whole =>
    .ok (mapped c .int64 fun x =>
      if x.isMissing then .int 0 else Cell.cast t .int64 x)
  | _, .whole => .ok (cast .int64)
  | _, .number => .ok (cast .float64)
  | .span, .text => .error (.ofTable .invalidOperation)
  | _, .text => .ok (cast .text)
  | .text, .moment => .ok (cast .datetime)
  | .whole, .moment | .number, .moment => .ok (mapped c .datetime (microseconds t))
  | .whole, .span | .number, .span => .ok (mapped c .duration (microseconds t))
  | source, target =>
    .error (.execution .typeMismatch
      ("cannot convert " ++ c.header ++ " from " ++ source.word ++ " to " ++ target.word))

/-- The expression that converts the series `target`. -/
def value (target : String) (source goal : ValueKind) : String :=
  match source, goal with
  | .text, .truth => "to_boolean_series(" ++ target ++ ")"
  | _, .truth => target ++ ".fillna(0) != 0"
  | .moment, .whole | .span, .whole => target ++ ".astype('int64')"
  | .moment, .number | .span, .number => target ++ ".astype('int64').astype('float')"
  | .text, .whole => "to_int_series(" ++ target ++ ")"
  | .number, .whole => target ++ ".fillna(0).astype('int')"
  | _, .whole => target ++ ".astype('int')"
  | .text, .number => "to_float_series(" ++ target ++ ")"
  | _, .number => target ++ ".astype('float')"
  | _, .text => target ++ ".astype('str')"
  | .text, .moment => "pd.to_datetime(" ++ target ++ ", errors='coerce')"
  | _, .moment => "pd.to_datetime(" ++ target ++ ", unit='s', errors='coerce')"
  | _, .span => "pd.to_timedelta(" ++ target ++ ", unit='s', errors='coerce')"

/-- The statement that converts a column. -/
def statement (df : String) (header : Header) (source goal : ValueKind) : String :=
  let target := df ++ "[" ++ Literal.text header ++ "]"
  target ++ " = " ++ value target source goal

end Retype

/-- Converts a column to another kind of values. -/
structure ChangeType where
  sheet : Nat
  column : ColumnId
  /-- The kind that the user saw; the kind of the column counts. -/
  before : ValueKind
  kind : ValueKind
  deriving DecidableEq, Repr, Inhabited

namespace ChangeType

/-- The columns that a conversion under a header yields: it is applied to what the header stands
  for in an expression, which has to be of the kind that the column has. -/
def converted (f : Frame) (c : Column) (kind : ValueKind) : Except Fault (List Column) := do
  let _ ← Retype.column c kind
  (← f.namedAs c.header c.header).mapM fun d =>
    if ValueKind.ofType d.dtype = ValueKind.ofType c.dtype then Retype.column d kind
    else .error (.ofTable .compute)

/-- Runs the edit; the column loses its formula. -/
def run (e : ChangeType) (s : State) : Except Fault Change := do
  let sheet ← s.sheet e.sheet
  let header ← sheet.header e.column
  let column ← sheet.column e.column
  let source := ValueKind.ofType column.dtype
  if source = e.kind then pure (.none s)
  else
    let frame ← sheet.frame.withColumns (← converted sheet.frame column e.kind)
    let next := sheet.withData frame sheet.columns
    let after := { next with formulas := Dictionary.erase next.formulas e.column }
    pure (.onSheet s e.sheet after
      [.changeType sheet.target e.column header
        [Retype.statement sheet.name header source e.kind]])

end ChangeType

end SheetScript
