import SheetScript.Filter.Basic
import SheetScript.Json.Record

/-!
# Filters in JSON

  A filter has a condition and a value, which may be left out.  An entry of a
  filter list that can be read as a group is one.
-/

namespace SheetScript

/-- A condition by its name. -/
def Condition.ofJson? (j : Json) : Option Condition := j.variant?.bind Condition.ofName?

namespace BoolOperator

/-- The name of an operator. -/
def name : BoolOperator → String
  | .and => "And"
  | .or => "Or"

/-- An operator by its name. -/
def ofJson? (j : Json) : Option BoolOperator :=
  j.variant?.bind fun n => [BoolOperator.and, .or].find? fun o => o.name == n

/-- The name of an operator. -/
def toJson (o : BoolOperator) : Json := .string o.name

end BoolOperator

/-- Reads a filter. -/
def Filter.ofJson? (j : Json) : Option Filter := do
  let r ← j.record? ["condition", "value"]
  pure ⟨← r.need "condition" Condition.ofJson?, ← r.orElse "value" .null some⟩

/-- Writes a filter. -/
def Filter.toJson (f : Filter) : Json :=
  .object [("condition", .string f.condition.name), ("value", f.value)]

namespace FilterOrGroup

/-- Reads a group, which has no form as an array. -/
def group? (j : Json) : Option FilterOrGroup := do
  let r ← (← j.fields?.map Json.object).record? ["filters", "operator"]
  pure (.group (← r.need "filters" (Json.listOf? Filter.ofJson?))
    (← r.need "operator" BoolOperator.ofJson?))

/-- Reads an entry of a filter list. -/
def ofJson? (j : Json) : Option FilterOrGroup :=
  group? j <|> (Filter.ofJson? j).map .filter

/-- Writes an entry of a filter list. -/
def toJson : FilterOrGroup → Json
  | .filter f => f.toJson
  | .group filters operator =>
    .object [("filters", .array (filters.map Filter.toJson)), ("operator", operator.toJson)]

end FilterOrGroup

end SheetScript
