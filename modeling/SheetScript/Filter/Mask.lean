import SheetScript.Filter.Basic
import SheetScript.Literal

/-!
# Masks

  The code of a filter list: a boolean mask over the series that `target` names.
  Parts that are combined stand in parentheses.
-/

namespace SheetScript

namespace Filter

/-- The number of a filter in code: as it was written, or else as its value. -/
def numberCode (f : Filter) : Except Fault String :=
  match f.value with
  | .int n => .ok (Decimal.intText n)
  | .float x => .ok (Json.floatText x)
  | _ => (f.numberValue).map Literal.number

/-- A call of a text method of the series. -/
def textCall (target method options : String) (f : Filter) : String :=
  target ++ ".str." ++ method ++ "(" ++ Literal.text f.textValue ++ ", " ++ options ++ ")"

/-- The code of one filter. -/
def code (target : String) (t : DType) (f : Filter) : Except Fault String :=
  match f.condition with
  | .number c => (f.numberCode).map fun n => target ++ " " ++ c.sign ++ " " ++ n
  | .text .contains => .ok (textCall target "contains" "na=False, regex=False" f)
  | .text .containsAnyCase =>
    .ok (textCall target "contains" "case=False, na=False, regex=False" f)
  | .text .lacks =>
    .ok ("~" ++ textCall target "contains" "case=False, na=False, regex=False" f)
  | .text .startsWith => .ok (textCall target "startswith" "na=False" f)
  | .text .endsWith => .ok (textCall target "endswith" "na=False" f)
  | .text .exactly => .ok (target ++ " == " ++ Literal.text f.textValue)
  | .text .notExactly => .ok (target ++ " != " ++ Literal.text f.textValue)
  | .truth b => .ok (target ++ " == " ++ if b then "True" else "False")
  | .empty =>
    .ok (if t = .text then "(" ++ target ++ ".isna()) | (" ++ target ++ " == '')"
      else target ++ ".isna()")
  | .notEmpty =>
    .ok (if t = .text then "(" ++ target ++ ".notnull()) & (" ++ target ++ " != '')"
      else target ++ ".notnull()")
  | .moment c =>
    (f.momentValue).map fun _ =>
      target ++ " " ++ c.sign ++ " pd.to_datetime(" ++ Literal.text f.textValue ++ ")"

end Filter

namespace Mask

/-- An operator between masks. -/
def sign : BoolOperator → String
  | .and => " & "
  | .or => " | "

/-- Masks in parentheses with an operator between them. -/
def combined (operator : BoolOperator) (parts : List String) : String :=
  (sign operator).intercalate (parts.map fun p => "(" ++ p ++ ")")

/-- The mask of an entry of a filter list. -/
def ofEntry (target : String) (t : DType) : FilterOrGroup → Except Fault (Option String)
  | .filter f => do pure (some (← f.code target t))
  | .group filters operator => do
    let parts ← filters.mapM fun f => f.code target t
    pure (if parts.isEmpty then none else some (combined operator parts))

/-- The mask of a filter list, if it asks anything. -/
def ofFilters (target : String) (t : DType) (operator : BoolOperator)
    (filters : List FilterOrGroup) : Except Fault (Option String) := do
  let parts := (← filters.mapM (ofEntry target t)).filterMap id
  pure (match parts with
    | [] => none
    | [part] => some part
    | parts => some (combined operator parts))

end Mask

end SheetScript
