import SheetScript.Fault
import SheetScript.Filter.Condition
import SheetScript.Json.Printer
import SheetScript.Table.Frame

/-!
# Filters

  A filter is a condition with a value to compare with.  Filters are combined by
  an operator, and a filter list may hold groups that are combined by operators
  of their own; a group without filters counts for nothing.

  A condition on a missing cell has no answer, but for those that ask for a
  difference, which a missing cell always satisfies, and those that ask for
  nothing but a match, which it never satisfies.  Answers are combined with the
  unknown as a third value, and a row is kept when the answer is a definite yes.
-/

namespace SheetScript

/-- A condition with its value. -/
structure Filter where
  condition : Condition
  value : Json := .null
  deriving Repr, Inhabited

/-- How answers are combined. -/
inductive BoolOperator where
  | and
  | or
  deriving DecidableEq, Repr, Inhabited

/-- An entry of a filter list. -/
inductive FilterOrGroup where
  | filter (f : Filter)
  | group (filters : List Filter) (operator : BoolOperator)
  deriving Repr, Inhabited

namespace Filter

/-! ### Values -/

/-- The number of a JSON value; numbers may be written as texts. -/
def number? : Json → Option Float
  | .int n => some (Float.ofInt n)
  | .float x => some x
  | .string s => Decimal.floatOfList? (Text.trimList s.toList)
  | _ => none

/-- The number to compare with. -/
def numberValue (f : Filter) : Except Fault Float :=
  match number? f.value with
  | some x => .ok x
  | none =>
    .error (.invalidParams (f.condition.name ++ " needs a number, got " ++ f.value.compact))

/-- The text to compare with; other values are written as in JSON, and `null` is
  the empty text. -/
def textValue (f : Filter) : String :=
  match f.value with
  | .string s => s
  | .null => ""
  | j => j.compact

/-- The moment to compare with. -/
def momentValue (f : Filter) : Except Fault Moment :=
  match Moment.parse? (Text.trim f.textValue) with
  | some m => .ok m
  | none =>
    .error (.invalidParams (f.condition.name ++ " needs a date, got '" ++ f.textValue ++ "'"))

end Filter

/-! ### Tests on cells -/

/-- A condition with its value in the form in which it is compared. -/
inductive CellTest where
  | number (c : Comparison) (x : Float)
  | text (m : TextMatch) (s : String)
  | truth (b : Bool)
  | empty
  | notEmpty
  /-- The moment in microseconds. -/
  | moment (c : Comparison) (us : Int)
  deriving DecidableEq, Repr, Inhabited

/-- Whether a list of characters is a part of another. -/
def isPart (part : List Char) : List Char → Bool
  | [] => part.isEmpty
  | c :: rest => part.isPrefixOf (c :: rest) || isPart part rest

/-- Whether a text matches another. -/
def TextMatch.holds (m : TextMatch) (s t : String) : Bool :=
  match m with
  | .contains => isPart s.toList t.toList
  | .containsAnyCase => isPart (Text.toLower s).toList (Text.toLower t).toList
  | .lacks => !isPart (Text.toLower s).toList (Text.toLower t).toList
  | .startsWith => s.toList.isPrefixOf t.toList
  | .endsWith => s.toList.isSuffixOf t.toList
  | .exactly => s == t
  | .notExactly => s != t

namespace CellTest

/-- The answer of a comparison on a missing cell. -/
def onMissing (c : Comparison) : Option Bool := if c = .notExactly then some true else none

/-- The answer for a cell of a column type, if there is one. -/
def answer (t : DType) (test : CellTest) (cell : Cell) : Option Bool :=
  match test with
  | .number c x =>
    let x := if t = .float32 then Decimal.single x else x
    match cell.toFloat? with
    | some y => some (c.holds (compareFloat y x))
    | none => onMissing c
  | .text m s =>
    match cell with
    | .text u => some (m.holds s u)
    | _ => some (m = .lacks || m = .notExactly)
  | .truth b => some (cell == .bool b)
  | .empty => some (cell.isMissing || (t == .text && cell == .text ""))
  | .notEmpty => some (!cell.isMissing && !(t == .text && cell == .text ""))
  | .moment c us =>
    match Cell.cast t .datetime cell with
    | .int n => some (c.holds (compare n us))
    | _ => onMissing c

end CellTest

/-- What a filter asks of the cells of a column. -/
def Filter.test (header : Header) (t : DType) (f : Filter) : Except Fault CellTest :=
  if f.condition.appliesTo t then
    match f.condition with
    | .number c => (f.numberValue).map (.number c)
    | .text m => .ok (.text m f.textValue)
    | .truth b => .ok (.truth b)
    | .empty => .ok .empty
    | .notEmpty => .ok .notEmpty
    | .moment c => (f.momentValue).map fun m => .moment c m.toMicroseconds
  else
    .error (.execution .typeMismatch
      ("condition " ++ f.condition.name ++ " cannot be applied to column '" ++ header
        ++ "' of type " ++ t.name))

/-! ### Combined filters -/

/-- The answer that holds for both of two answers, as far as they are known. -/
def bothAnswers : Option Bool → Option Bool → Option Bool
  | some false, _ | _, some false => some false
  | some true, b => b
  | a, some true => a
  | none, none => none

/-- The answer that holds for one of two answers, as far as they are known. -/
def eitherAnswer : Option Bool → Option Bool → Option Bool
  | some true, _ | _, some true => some true
  | some false, b => b
  | a, some false => a
  | none, none => none

/-- Tests on one cell, combined. -/
inductive Predicate where
  | test (t : CellTest)
  | combined (operator : BoolOperator) (left right : Predicate)
  deriving DecidableEq, Repr

namespace Predicate

/-- The answer for a cell of a column type. -/
def answer (t : DType) (cell : Cell) : Predicate → Option Bool
  | .test q => q.answer t cell
  | .combined .and p q => bothAnswers (p.answer t cell) (q.answer t cell)
  | .combined .or p q => eitherAnswer (p.answer t cell) (q.answer t cell)

/-- Some predicates combined from the left, if there are any. -/
def combineAll (operator : BoolOperator) : List Predicate → Option Predicate
  | [] => none
  | p :: rest => some (rest.foldl (.combined operator) p)

/-- What an entry of a filter list asks. -/
def ofEntry (header : Header) (t : DType) : FilterOrGroup → Except Fault (Option Predicate)
  | .filter f => do pure (some (.test (← f.test header t)))
  | .group filters operator => do
    pure (combineAll operator ((← filters.mapM fun f => f.test header t).map .test))

/-- What a filter list asks of the cells of a column, if it asks anything. -/
def ofFilters (header : Header) (t : DType) (operator : BoolOperator)
    (filters : List FilterOrGroup) : Except Fault (Option Predicate) := do
  pure (combineAll operator ((← filters.mapM (ofEntry header t)).filterMap id))

/-- The rows of a column that satisfy the predicate. -/
def rows (p : Predicate) (c : Column) : List Nat :=
  c.cells.zipIdx.filterMap fun e => if p.answer c.dtype e.1 = some true then some e.2 else none

end Predicate

end SheetScript
