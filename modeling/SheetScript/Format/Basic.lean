import SheetScript.ColumnIds
import SheetScript.Filter.Basic

/-!
# Formats

  How a sheet is shown: colors of the header and of the rows, number formats of
  columns, and colors for the cells that match a filter.  A format changes no
  data.
-/

namespace SheetScript

/-- A font color and a fill color, as `#rrggbb`. -/
structure Colors where
  font : Option String := none
  fill : Option String := none
  deriving DecidableEq, Repr, Inhabited

/-- Whether no color is set. -/
def Colors.isEmpty (c : Colors) : Bool := c.font.isNone && c.fill.isNone

/-- Colors of every other row; the first data row is an even one. -/
structure RowColors where
  even : Option Colors := none
  odd : Option Colors := none
  deriving DecidableEq, Repr, Inhabited

/-- Whether no row has a color. -/
def RowColors.isEmpty (r : RowColors) : Bool :=
  (r.even.all Colors.isEmpty) && (r.odd.all Colors.isEmpty)

/-- How numbers are shown. -/
inductive NumberStyle where
  | plain
  | currency
  | accounting
  | percentage
  | scientific
  deriving DecidableEq, Repr, Inhabited

namespace NumberStyle

/-- Every style. -/
def all : List NumberStyle := [.plain, .currency, .accounting, .percentage, .scientific]

/-- The name of a style. -/
def name : NumberStyle → String
  | .plain => "plain text"
  | .currency => "currency"
  | .accounting => "accounting"
  | .percentage => "percentage"
  | .scientific => "scientific notation"

end NumberStyle

/-- A style with a number of digits after the point. -/
structure NumberFormat where
  style : NumberStyle
  precision : Option Nat := none
  deriving DecidableEq, Repr, Inhabited

namespace NumberFormat

/-- The digits after the point; none in plain text and two otherwise, unless the
  format says so. -/
def places (f : NumberFormat) : Nat := f.precision.getD (if f.style = .plain then 0 else 2)

/-- The format in a workbook, such as `$0.00`. -/
def inWorkbook (f : NumberFormat) : String :=
  let digits :=
    if f.places = 0 then "0" else "0." ++ String.ofList (List.replicate f.places '0')
  match f.style with
  | .plain => digits
  | .currency => "$" ++ digits
  | .accounting => "($" ++ digits ++ ")"
  | .percentage => digits ++ "%"
  | .scientific => digits ++ "E+0"

/-- The format in a styler: a specification in braces. -/
def inStyler (f : NumberFormat) : String :=
  let p := Decimal.natText f.places
  match f.style with
  | .plain => "\x7b:." ++ p ++ "f\x7d"
  | .currency => "$\x7b:,." ++ p ++ "f\x7d"
  | .accounting => "($\x7b:,." ++ p ++ "f\x7d)"
  | .percentage => "\x7b:." ++ p ++ "%\x7d"
  | .scientific => "\x7b:." ++ p ++ "E\x7d"

end NumberFormat

/-- Colors for the cells of some columns that match a filter. -/
structure ConditionalFormat where
  /-- The name that a front end gave it. -/
  key : String := ""
  columns : List ColumnId
  filters : List Filter
  colors : Colors := {}
  deriving Repr, Inhabited

/-- The format of a sheet. -/
structure SheetFormat where
  header : Colors := {}
  numbers : Dictionary ColumnId NumberFormat := []
  rows : RowColors := {}
  /-- Kept for front ends; it shows nowhere. -/
  border : List (String × Json) := []
  conditional : List ConditionalFormat := []
  deriving Repr, Inhabited

namespace SheetFormat

/-- Whether the header or rows have colors. -/
def hasTableStyles (f : SheetFormat) : Bool := !f.header.isEmpty || !f.rows.isEmpty

/-- Whether the format shows nowhere. -/
def isEmpty (f : SheetFormat) : Bool :=
  !f.hasTableStyles && f.numbers.isEmpty && f.conditional.isEmpty

end SheetFormat

end SheetScript
