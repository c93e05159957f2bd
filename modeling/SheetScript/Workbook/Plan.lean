import SheetScript.Json.Reader
import SheetScript.Literal
import SheetScript.Sheet
import SheetScript.Workbook.Address

/-!
# The plan of a tab

  What a workbook shows of a sheet's format: named styles for the header and the
  rows, number formats of columns, and rules that color the cells that match a
  filter.
-/

namespace SheetScript.Workbook

/-- A named style of cells. -/
structure NamedStyle where
  name : String
  colors : Colors
  deriving DecidableEq, Repr, Inhabited

/-- A style that sets some color. -/
def NamedStyle.of? (name : String) (c : Colors) : Option NamedStyle :=
  if c.isEmpty then none else some ⟨name, c⟩

/-- A rule on the data cells of a column. -/
structure Rule where
  /-- The cells, such as `A2:A5`. -/
  range : String
  column : Nat
  /-- The formula for the topmost cell, without an equals sign. -/
  formula : String
  colors : Colors
  deriving DecidableEq, Repr, Inhabited

/-- Everything that a tab shows beyond the values. -/
structure Plan where
  header : Option NamedStyle := none
  even : Option NamedStyle := none
  odd : Option NamedStyle := none
  /-- Number formats by column. -/
  numbers : List (Nat × String) := []
  rules : List Rule := []
  deriving DecidableEq, Repr, Inhabited

/-- A text in a workbook formula: a quote is written twice. -/
def quotedText (s : String) : String :=
  String.ofList ('"' :: s.toList.flatMap (fun c => if c == '"' then ['"', '"'] else [c]) ++ ['"'])

/-- The sign of a comparison in a workbook formula. -/
def comparisonSign : Comparison → String
  | .exactly => "="
  | .notExactly => "<>"
  | c => c.sign

/-- A date in a workbook formula. -/
def dateText (d : Civil) : String :=
  "DATE(" ++ Decimal.intText d.year ++ "," ++ Decimal.natText d.month ++ ","
    ++ Decimal.natText d.day ++ ")"

/-- The formula of a match of a text. -/
def matchFormula (m : TextMatch) (cell text : String) : String :=
  match m with
  | .contains => "NOT(ISERROR(FIND(" ++ text ++ "," ++ cell ++ ")))"
  | .containsAnyCase => "NOT(ISERROR(SEARCH(" ++ text ++ "," ++ cell ++ ")))"
  | .lacks => "ISERROR(SEARCH(" ++ text ++ "," ++ cell ++ "))"
  | .startsWith => "LEFT(" ++ cell ++ ",LEN(" ++ text ++ "))=" ++ text
  | .endsWith => "RIGHT(" ++ cell ++ ",LEN(" ++ text ++ "))=" ++ text
  | .exactly => "EXACT(" ++ cell ++ "," ++ text ++ ")"
  | .notExactly => "NOT(EXACT(" ++ cell ++ "," ++ text ++ "))"

/-- The formula of a filter for a cell of a column type, if the filter applies to
  the type and its value can be read. -/
def ruleFormula (cell : String) (t : DType) (f : Filter) : Option String :=
  if f.condition.appliesTo t then
    match f.condition with
    | .number c =>
      f.numberValue.toOption.map fun x => cell ++ comparisonSign c ++ Literal.number x
    | .text m => some (matchFormula m cell (quotedText f.textValue))
    | .truth b => some (cell ++ if b then "=TRUE" else "=FALSE")
    | .empty => some ("LEN(TRIM(" ++ cell ++ "))=0")
    | .notEmpty => some ("LEN(TRIM(" ++ cell ++ "))>0")
    | .moment c =>
      f.momentValue.toOption.map fun m => cell ++ comparisonSign c ++ dateText m.date
  else none

/-- The rules of a conditional format for one filter and one column. -/
def rulesFor (s : Sheet) (colors : Colors) (f : Filter) (id : ColumnId) :
    Except Fault (Option Rule) :=
  match s.columnIndex id with
  | .error _ => .ok none
  | .ok index => do
    let t ← s.dtype id
    let column := columnLetters index
    pure ((ruleFormula (column ++ "2") t f).map fun formula =>
      { range := column ++ "2:" ++ column ++ Decimal.natText (s.frame.height + 1)
        column := index
        formula := formula
        colors := colors })

/-- The rules of a conditional format. -/
def rulesOf (s : Sheet) (c : ConditionalFormat) : Except Fault (List Rule) := do
  if c.colors.isEmpty then pure []
  else
    let rules ← c.filters.mapM fun f => c.columns.mapM fun id => rulesFor s c.colors f id
    pure (rules.flatten.filterMap id)

/-- The number formats of the columns that hold numbers. -/
def numberFormats (s : Sheet) : Except Fault (List (Nat × String)) := do
  let formats ← s.columnIds.zipIdx.mapM fun e => do
    match Dictionary.get? s.format.numbers e.1 with
    | none => pure none
    | some f => pure (if (← s.dtype e.1).isNumeric then some (e.2, f.inWorkbook) else none)
  pure (formats.filterMap id)

/-- The plan of a sheet under a tab name. -/
def plan (tab : String) (s : Sheet) : Except Fault Plan := do
  let rows := s.format.rows
  let numbers ← numberFormats s
  let rules ←
    if s.frame.height = 0 then pure []
    else do pure (← s.format.conditional.mapM (rulesOf s)).flatten
  pure
    { header := NamedStyle.of? (tab ++ "_Header") s.format.header
      even := NamedStyle.of? (tab ++ "_Even") (rows.even.getD {})
      odd := NamedStyle.of? (tab ++ "_Odd") (rows.odd.getD {})
      numbers := numbers
      rules := rules }

/-!
## Colors in a workbook

  A color is a hexadecimal number of up to 32 bits after any number of hash
  signs.  The colors of a plan are read in the order in which the workbook is
  written.
-/

/-- The number of a color. -/
def color? (text : String) : Option Nat :=
  let digits := match text.toList.dropWhile (· == '#') with
    | '+' :: rest => rest
    | cs => cs
  if digits.isEmpty then none
  else
    (digits.foldlM (fun n c => (Json.hexValue? c).map fun d => 16 * n + d) 0).filter
      fun n => n < 0x100000000

/-- Checks a color, if there is one. -/
def checkColor : Option String → Except Fault Unit
  | none => .ok ()
  | some text =>
    if (color? text).isSome then .ok ()
    else .error (.invalidParams ("'" ++ text ++ "' is not a hex colour"))

/-- Checks a font color and a fill color. -/
def checkColors (c : Colors) : Except Fault Unit := do
  checkColor c.font
  checkColor c.fill

/-- Checks all colors of a plan. -/
def checkPlan (p : Plan) : Except Fault Unit := do
  ([p.header, p.even, p.odd].filterMap id).forM fun style => checkColors style.colors
  p.rules.forM fun rule => checkColors rule.colors

end SheetScript.Workbook
