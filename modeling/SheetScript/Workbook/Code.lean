import SheetScript.Literal
import SheetScript.Sheet

/-!
# The call that formats a tab

  The script writes a workbook and then calls a helper that applies the format of
  a sheet to its tab.
-/

namespace SheetScript.Workbook

/-- A named argument, if it has a value. -/
def colorArgument (name : String) (color : Option String) : List String :=
  color.toList.map fun c => name ++ "=" ++ Literal.text c

/-- The arguments for colors of the header and the rows. -/
def colorArguments (f : SheetFormat) : List String :=
  let even := f.rows.even.getD {}
  let odd := f.rows.odd.getD {}
  colorArgument "header_background_color" f.header.fill
    ++ colorArgument "header_font_color" f.header.font
    ++ colorArgument "even_background_color" even.fill
    ++ colorArgument "even_font_color" even.font
    ++ colorArgument "odd_background_color" odd.fill
    ++ colorArgument "odd_font_color" odd.font

/-- A filter as a dictionary. -/
def filterItem (f : Filter) : String :=
  "\x7b'condition': " ++ Literal.text f.condition.name ++ ", 'value': " ++ Literal.value f.value
    ++ "\x7d"

/-- A conditional format as a dictionary, if some column of it is left. -/
def conditionalItem (s : Sheet) (c : ConditionalFormat) : Option String :=
  let color (o : Option String) := (o.map Literal.text).getD "None"
  match c.columns.filterMap s.columns.header? with
  | [] => none
  | headers =>
    some ("\x7b'columns': " ++ Literal.list headers ++ ", 'filters': "
      ++ Literal.listOf (c.filters.map filterItem) ++ ", 'font_color': " ++ color c.colors.font
      ++ ", 'background_color': " ++ color c.colors.fill ++ "\x7d")

/-- The number format of a column as an item of a dictionary. -/
def numberItem (s : Sheet) (id : ColumnId) : Except Fault (Option String) :=
  match Dictionary.get? s.format.numbers id with
  | none => .ok none
  | some f => do
    pure (some (Literal.doubleQuoted (← s.header id) ++ ": " ++ Literal.text f.inWorkbook))

/-- An argument that takes several lines, if it has items. -/
def blockArgument (name opening closing : String) (items : List String) : List String :=
  if items.isEmpty then []
  else
    [name ++ "=" ++ opening ++ "\n            " ++ ", \n            ".intercalate items
      ++ "\n        " ++ closing]

/-- The call for a sheet and its tab, if the sheet has a format. -/
def formattingCall (tab df : String) (s : Sheet) : Except Fault (Option String) := do
  if s.format.isEmpty then pure none
  else
    let numbers ← s.columnIds.mapM (numberItem s)
    let arguments := colorArguments s.format
      ++ blockArgument "conditional_formats" "[" "]"
          (s.format.conditional.filterMap (conditionalItem s))
      ++ blockArgument "number_formats" "\x7b" "\x7d" (numbers.filterMap id)
    if arguments.isEmpty then pure none
    else
      pure (some ("    add_formatting_to_excel_sheet(writer, " ++ Literal.doubleQuoted tab ++ ", "
        ++ df ++ ", \n        " ++ ", \n        ".intercalate arguments ++ "\n    )"))

end SheetScript.Workbook
