import SheetScript.Filter.Encoding
import SheetScript.Format.Basic

/-!
# Formats in JSON

  Everything but the style of a number format and the columns and filters of a
  conditional format may be left out, and what is not set is not written.
-/

namespace SheetScript

/-- A field that is written when there is a value. -/
def Json.fieldIfSome (name : String) (value : Option Json) : List (String × Json) :=
  value.toList.map fun j => (name, j)

namespace Colors

/-- Reads colors. -/
def ofJson? (j : Json) : Option Colors := do
  let r ← j.record? ["color", "backgroundColor"]
  pure ⟨← r.optional "color" Json.string?, ← r.optional "backgroundColor" Json.string?⟩

/-- The fields of colors. -/
def fields (c : Colors) : List (String × Json) :=
  Json.fieldIfSome "color" (c.font.map .string)
    ++ Json.fieldIfSome "backgroundColor" (c.fill.map .string)

/-- Writes colors. -/
def toJson (c : Colors) : Json := .object c.fields

end Colors

namespace RowColors

/-- Reads the colors of rows. -/
def ofJson? (j : Json) : Option RowColors := do
  let r ← j.record? ["even", "odd"]
  pure ⟨← r.optional "even" Colors.ofJson?, ← r.optional "odd" Colors.ofJson?⟩

/-- Writes the colors of rows. -/
def toJson (c : RowColors) : Json :=
  .object (Json.fieldIfSome "even" (c.even.map Colors.toJson)
    ++ Json.fieldIfSome "odd" (c.odd.map Colors.toJson))

end RowColors

/-- Reads a style by its name. -/
def NumberStyle.ofJson? (j : Json) : Option NumberStyle :=
  j.variant?.bind fun n => NumberStyle.all.find? fun s => s.name == n

namespace NumberFormat

/-- Reads a number format. -/
def ofJson? (j : Json) : Option NumberFormat := do
  let r ← j.record? ["type", "precision"]
  pure ⟨← r.need "type" NumberStyle.ofJson?, ← r.optional "precision" Json.word32?⟩

/-- Writes a number format. -/
def toJson (f : NumberFormat) : Json :=
  .object [("type", .string f.style.name),
    ("precision", (f.precision.map Json.ofNat).getD .null)]

end NumberFormat

namespace ConditionalFormat

/-- Reads a conditional format. -/
def ofJson? (j : Json) : Option ConditionalFormat := do
  let r ← j.record? ["format_uuid", "columnIDs", "filters", "color", "backgroundColor"]
  let key ← r.orElse "format_uuid" "" Json.string?
  let columns ← r.need "columnIDs" Json.texts?
  let filters ← r.need "filters" (Json.listOf? Filter.ofJson?)
  let font ← r.optional "color" Json.string?
  let fill ← r.optional "backgroundColor" Json.string?
  pure ⟨key, columns.map ColumnId.mk, filters, ⟨font, fill⟩⟩

/-- Writes a conditional format. -/
def toJson (f : ConditionalFormat) : Json :=
  .object ([("format_uuid", .string f.key), ("columnIDs", .ofTexts (f.columns.map ColumnId.text)),
    ("filters", .array (f.filters.map Filter.toJson))] ++ f.colors.fields)

end ConditionalFormat

namespace SheetFormat

/-- Reads the format of a sheet. -/
def ofJson? (j : Json) : Option SheetFormat := do
  let r ← j.record? ["headers", "columns", "rows", "border", "conditional_formats"]
  let header ← r.orElse "headers" {} Colors.ofJson?
  let numbers ← r.orElse "columns" [] (Json.dictionaryOf? NumberFormat.ofJson?)
  let rows ← r.orElse "rows" {} RowColors.ofJson?
  let border ← r.orElse "border" [] Json.fields?
  let conditional ← r.orElse "conditional_formats" [] (Json.listOf? ConditionalFormat.ofJson?)
  pure
    { header, rows, border, conditional
      numbers := Dictionary.ofList (numbers.map fun e => (ColumnId.mk e.1, e.2)) }

/-- Writes the format of a sheet. -/
def toJson (f : SheetFormat) : Json :=
  .object [("headers", f.header.toJson),
    ("columns", .object (f.numbers.map fun e => (e.1.text, e.2.toJson))),
    ("rows", f.rows.toJson), ("border", .object f.border),
    ("conditional_formats", .array (f.conditional.map ConditionalFormat.toJson))]

end SheetFormat

end SheetScript
