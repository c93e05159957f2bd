import SheetScript.Table.Cell

/-!
# Conditions

  A condition asks something of one cell.  Its family says for which column types
  it makes sense.
-/

namespace SheetScript

/-- How a value is compared with another. -/
inductive Comparison where
  | greater
  | greaterOrEqual
  | less
  | lessOrEqual
  | exactly
  | notExactly
  deriving DecidableEq, Repr, Inhabited

namespace Comparison

/-- Every comparison. -/
def all : List Comparison :=
  [.greater, .greaterOrEqual, .less, .lessOrEqual, .exactly, .notExactly]

/-- The name of a comparison. -/
def name : Comparison → String
  | .greater => "greater"
  | .greaterOrEqual => "greater_than_or_equal"
  | .less => "less"
  | .lessOrEqual => "less_than_or_equal"
  | .exactly => "exactly"
  | .notExactly => "not_exactly"

/-- The sign of a comparison in code. -/
def sign : Comparison → String
  | .greater => ">"
  | .greaterOrEqual => ">="
  | .less => "<"
  | .lessOrEqual => "<="
  | .exactly => "=="
  | .notExactly => "!="

/-- Whether the order of two values is as the comparison asks. -/
def holds : Comparison → Ordering → Bool
  | .greater, r => r == .gt
  | .greaterOrEqual, r => r != .lt
  | .less, r => r == .lt
  | .lessOrEqual, r => r != .gt
  | .exactly, r => r == .eq
  | .notExactly, r => r != .eq

end Comparison

/-- How a text is matched against another. -/
inductive TextMatch where
  | contains
  | containsAnyCase
  /-- The text is no part in any case. -/
  | lacks
  | startsWith
  | endsWith
  | exactly
  | notExactly
  deriving DecidableEq, Repr, Inhabited

namespace TextMatch

/-- Every kind of match. -/
def all : List TextMatch :=
  [.contains, .containsAnyCase, .lacks, .startsWith, .endsWith, .exactly, .notExactly]

/-- The name of a kind of match. -/
def name : TextMatch → String
  | .contains => "contains"
  | .containsAnyCase => "string_contains_case_insensitive"
  | .lacks => "string_does_not_contain"
  | .startsWith => "string_starts_with"
  | .endsWith => "string_ends_with"
  | .exactly => "string_exactly"
  | .notExactly => "string_not_exactly"

end TextMatch

/-- Which column types a condition applies to. -/
inductive ConditionFamily where
  | number
  | text
  | truth
  | moment
  | any
  deriving DecidableEq, Repr, Inhabited

/-- What is asked of a cell; the value to compare with is given apart. -/
inductive Condition where
  | number (c : Comparison)
  | text (m : TextMatch)
  | truth (b : Bool)
  | empty
  | notEmpty
  | moment (c : Comparison)
  deriving DecidableEq, Repr, Inhabited

namespace Condition

/-- Every condition. -/
def all : List Condition :=
  Comparison.all.map .number ++ TextMatch.all.map .text
    ++ [.truth true, .truth false, .empty, .notEmpty] ++ Comparison.all.map .moment

/-- The name of a condition. -/
def name : Condition → String
  | .number .exactly => "number_exactly"
  | .number .notExactly => "number_not_exactly"
  | .number c => c.name
  | .text m => m.name
  | .truth true => "boolean_is_true"
  | .truth false => "boolean_is_false"
  | .empty => "empty"
  | .notEmpty => "not_empty"
  | .moment c => "datetime_" ++ c.name

/-- The condition of a name. -/
def ofName? (name : String) : Option Condition := all.find? fun c => c.name == name

/-- The family of a condition. -/
def family : Condition → ConditionFamily
  | .number _ => .number
  | .text _ => .text
  | .truth _ => .truth
  | .empty | .notEmpty => .any
  | .moment _ => .moment

/-- Whether the condition can be asked of the cells of a type. -/
def appliesTo (c : Condition) (t : DType) : Bool :=
  match c.family with
  | .number => t.isNumeric
  | .text => t == .text
  | .truth => t == .bool
  | .moment => t == .datetime || t == .date
  | .any => true

end Condition

end SheetScript
