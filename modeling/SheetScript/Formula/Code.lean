import SheetScript.Formula.Basic
import SheetScript.Literal

/-!
# Formulas as pandas expressions

  The expression that computes the column of a formula from a dataframe.  An
  operator is put in brackets unless it stands alone; calls on columns become
  methods of the series, and calls without columns plain functions.
-/

namespace SheetScript

/-- How the script writes an operator. -/
def Operator.code : Operator → String
  | .power => "**"
  | .equal => "=="
  | .notEqual => "!="
  | .join => "+"
  | o => o.sign

namespace Formula

/-- An expression in brackets. -/
def bracketed (s : String) : String := "(" ++ s ++ ")"

/-- The number of digits that a rounding keeps. -/
def roundDigits : List Formula → Nat
  | _ :: .number x :: _ => min x.toUInt64.toNat 0xFFFFFFFF
  | _ => 0

/-- Whether a formula is a single column. -/
def isColumn : Formula → Bool
  | .column _ => true
  | _ => false

mutual

/-- The expression of a formula over the dataframe `df`; `alone` leaves the
  brackets around an operator out. -/
def codeAt (df : String) (alone : Bool) : Formula → String
  | .number x => Literal.number x
  | .text s => Literal.text s
  | .bool true => "True"
  | .bool false => "False"
  | .column h => df ++ "[" ++ Literal.text h ++ "]"
  | .negate e => "-" ++ codeAt df false e
  | .binary .join l r =>
    let s := textCode df l ++ " + " ++ textCode df r
    if alone then s else bracketed s
  | .binary o l r =>
    let s := codeAt df false l ++ " " ++ o.code ++ " " ++ codeAt df false r
    if alone then s else bracketed s
  | .call f args =>
    let constant := areConstant args
    let inner := codesAt df false args
    let outer := codesAt df true args
    match f with
    | .sum =>
      bracketed (" + ".intercalate (if constant then inner else filledCodes df args))
    | .abs =>
      if constant then "abs(" ++ outer.headD "None" ++ ")" else inner.headD "None" ++ ".abs()"
    | .round =>
      let digits := Decimal.natText (roundDigits args)
      if constant then "round(float(" ++ outer.headD "None" ++ "), " ++ digits ++ ")"
      else inner.headD "None" ++ ".astype(float).round(" ++ digits ++ ")"
    | .upper =>
      if constant then "str(" ++ outer.headD "None" ++ ").upper()"
      else inner.headD "None" ++ ".astype(str).str.upper()"
    | .lower =>
      if constant then "str(" ++ outer.headD "None" ++ ").lower()"
      else inner.headD "None" ++ ".astype(str).str.lower()"
    | .length =>
      if constant then "len(str(" ++ outer.headD "None" ++ "))"
      else inner.headD "None" ++ ".astype(str).str.len()"
    | .concat => bracketed (" + ".intercalate (textCodes df args))
    | .choose =>
      match args, inner, outer with
      | [condition, _, _], [c, a, b], [c', a', b'] =>
        if isConstant condition then "(" ++ a ++ " if " ++ c ++ " else " ++ b ++ ")"
        else "pd.Series(" ++ a' ++ ", index=" ++ df ++ ".index).where(" ++ c' ++ ", " ++ b' ++ ")"
      | _, _, _ => "None"

/-- The expressions of several formulas. -/
def codesAt (df : String) (alone : Bool) : List Formula → List String
  | [] => []
  | e :: rest => codeAt df alone e :: codesAt df alone rest

/-- The summands of a sum over columns: missing cells count as zero. -/
def filledCodes (df : String) : List Formula → List String
  | [] => []
  | e :: rest =>
    (if isConstant e then codeAt df false e else codeAt df false e ++ ".fillna(0)")
      :: filledCodes df rest

/-- The expression of a formula's text. -/
def textCode (df : String) : Formula → String
  | .text s => Literal.text s
  | .number x => Literal.text (Literal.number x)
  | e =>
    if isConstant e then "str(" ++ codeAt df true e ++ ")"
    else codeAt df (isColumn e) e ++ ".astype(str)"

/-- The expressions of the texts of several formulas. -/
def textCodes (df : String) : List Formula → List String
  | [] => []
  | e :: rest => textCode df e :: textCodes df rest

end

/-- The expression that computes a formula from the dataframe `df`. -/
def code (df : String) (e : Formula) : String := codeAt df true e

end Formula

end SheetScript
