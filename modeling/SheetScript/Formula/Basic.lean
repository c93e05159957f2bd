import SheetScript.ColumnIds
import SheetScript.Formula.Token

/-!
# Formulas

  The tree of a formula: constants, columns by header, negation, operators and
  calls of functions.
-/

namespace SheetScript

/-- The functions of formulas. -/
inductive Function where
  | sum
  | abs
  | round
  | upper
  | lower
  | length
  | concat
  | choose
  deriving DecidableEq, Repr

namespace Function

/-- The name of a function. -/
def name : Function → String
  | .sum => "SUM"
  | .abs => "ABS"
  | .round => "ROUND"
  | .upper => "UPPER"
  | .lower => "LOWER"
  | .length => "LEN"
  | .concat => "CONCAT"
  | .choose => "IF"

/-- Every function. -/
def all : List Function := [.sum, .abs, .round, .upper, .lower, .length, .concat, .choose]

/-- A text with its ASCII letters as capitals. -/
def capitals (s : String) : String := String.ofList (s.toList.map Char.toUpper)

/-- The function of a name in any case. -/
def ofName? (s : String) : Option Function := all.find? fun f => f.name == capitals s

/-- The least and, if there is one, the greatest number of arguments. -/
def arity : Function → Nat × Option Nat
  | .sum | .concat => (1, none)
  | .abs | .upper | .lower | .length => (1, some 1)
  | .round => (1, some 2)
  | .choose => (3, some 3)

/-- Whether a function can be called with a number of arguments. -/
def accepts (f : Function) (n : Nat) : Bool :=
  f.arity.1 ≤ n && f.arity.2.all fun greatest => n ≤ greatest

/-- The numbers of arguments in words. -/
def arityText (f : Function) : String :=
  match f.arity with
  | (least, some greatest) =>
    if greatest = least then Decimal.natText least
    else Decimal.natText least ++ " to " ++ Decimal.natText greatest
  | (least, none) => "at least " ++ Decimal.natText least

end Function

/-- A formula. -/
inductive Formula where
  | number (x : Float)
  | text (s : String)
  | bool (b : Bool)
  | column (header : Header)
  | negate (operand : Formula)
  | binary (o : Operator) (left right : Formula)
  | call (f : Function) (arguments : List Formula)
  deriving Repr, Inhabited

namespace Formula

mutual

/-- Whether a formula names no column. -/
def isConstant : Formula → Bool
  | .number _ | .text _ | .bool _ => true
  | .column _ => false
  | .negate e => isConstant e
  | .binary _ l r => isConstant l && isConstant r
  | .call _ args => areConstant args

/-- Whether none of the formulas names a column. -/
def areConstant : List Formula → Bool
  | [] => true
  | e :: rest => isConstant e && areConstant rest

end

mutual

/-- The headers that a formula names, from left to right. -/
def columns : Formula → List Header
  | .number _ | .text _ | .bool _ => []
  | .column h => [h]
  | .negate e => columns e
  | .binary _ l r => columns l ++ columns r
  | .call _ args => columnsOfAll args

/-- The headers that the formulas name. -/
def columnsOfAll : List Formula → List Header
  | [] => []
  | e :: rest => columns e ++ columnsOfAll rest

end

/-- The members of a list in the order of their first occurrences. -/
def firstOccurrences (hs : List Header) : List Header :=
  hs.foldl (fun seen h => if h ∈ seen then seen else seen ++ [h]) []

/-- The headers that a formula reads, in the order of their first use. -/
def dependencies (e : Formula) : List Header := firstOccurrences e.columns

end Formula

end SheetScript
