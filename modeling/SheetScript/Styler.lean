import SheetScript.Filter.Mask
import SheetScript.Sheet

/-!
# Stylers

  The statement at the end of a script that shows a sheet in its format.  The
  first data row is even for the user and odd for the style sheet, so the two
  selectors change places.
-/

namespace SheetScript.Styler

/-- A styler statement. -/
structure Code where
  statement : String
  /-- The statement refers to `np`. -/
  usesNumpy : Bool
  deriving DecidableEq, Repr, Inhabited

/-- Colors as properties of a style sheet. -/
def properties (c : Colors) : List String :=
  (c.font.toList.map fun v => "('color', " ++ Literal.text v ++ ")")
    ++ (c.fill.toList.map fun v => "('background-color', " ++ Literal.text v ++ ")")

/-- Colors as an inline style. -/
def inlineStyle (c : Colors) : String :=
  "; ".intercalate ((c.font.toList.map fun v => "color: " ++ v)
    ++ (c.fill.toList.map fun v => "background-color: " ++ v))

/-- A line of the table styles, if there are colors. -/
def selectorLine (selector : String) (c : Option Colors) : String :=
  match c.filter fun c => !c.isEmpty with
  | none => ""
  | some c =>
    "        \x7b'selector': '" ++ selector ++ "', 'props': "
      ++ Literal.listOf (properties c) ++ "\x7d,\n"

/-- The part for colors of the header and the rows. -/
def tableStyles (f : SheetFormat) : List String :=
  if f.hasTableStyles then
    ["set_table_styles([\n" ++ selectorLine "thead" (some f.header)
      ++ selectorLine "tbody tr:nth-child(odd)" f.rows.even
      ++ selectorLine "tbody tr:nth-child(even)" f.rows.odd ++ "])"]
  else []

/-- The part for one filter on one column, if the filter applies to it. -/
def conditionalPart (s : Sheet) (style : String) (id : ColumnId) (header : Header) (f : Filter) :
    Except Fault (Option String) := do
  let t ← s.dtype id
  if f.condition.appliesTo t then
    let mask ← f.code "series" t
    pure (some ("apply(lambda series: np.where(" ++ mask ++ ", " ++ Literal.text style
      ++ ", None), subset=" ++ Literal.list [header] ++ ")"))
  else pure none

/-- The parts of a conditional format. -/
def conditionalParts (s : Sheet) (c : ConditionalFormat) : Except Fault (List String) := do
  if c.colors.isEmpty then pure []
  else
    let parts ← c.columns.mapM fun id =>
      match s.columns.header? id with
      | none => pure []
      | some h => c.filters.mapM (conditionalPart s (inlineStyle c.colors) id h)
    pure (parts.flatten.filterMap id)

/-- The part for the number format of a column, if it holds numbers. -/
def numberPart (s : Sheet) (id : ColumnId) : Except Fault (Option String) := do
  match Dictionary.get? s.format.numbers id with
  | none => pure none
  | some f =>
    if (← s.dtype id).isNumeric then
      pure (some ("format(" ++ Literal.text f.inStyler ++ ", subset="
        ++ Literal.list [← s.header id] ++ ")"))
    else pure none

/-- The styler of a sheet, if its format shows anywhere. -/
def code (s : Sheet) : Except Fault (Option Code) := do
  if s.format.isEmpty then pure none
  else
    let conditional := (← s.format.conditional.mapM (conditionalParts s)).flatten
    let numbers ← s.columnIds.mapM (numberPart s)
    let parts := tableStyles s.format ++ conditional ++ numbers.filterMap id
    if parts.isEmpty then pure none
    else
      let body := String.join (parts.map fun p => "\\\n    ." ++ p)
      pure (some ⟨s.name ++ "_styler = " ++ s.name ++ ".style" ++ body, !conditional.isEmpty⟩)

end SheetScript.Styler
