import SheetScript.Analysis.Basic
import SheetScript.Json.Printer
import SheetScript.Json.Reader

/-!
# Analyses in JSON

  Today an analysis holds its edits in a list.  Old analyses hold them in an
  object, keyed by their place, and the parameters of an edit stand beside its
  kind.
-/

namespace SheetScript

namespace StoredEdit

/-- Reads an edit of a list. -/
def ofJson? (j : Json) : Option StoredEdit := do
  let r ← j.record? ["step_version", "step_type", "params"]
  pure ⟨← r.need "step_version" Json.word32?, ← r.need "step_type" Json.string?,
    ← r.orElse "params" .null fun p => some p.canonical⟩

/-- Writes an edit. -/
def toJson (s : StoredEdit) : Json :=
  .object [("step_version", .ofNat s.version), ("step_type", .string s.kind),
    ("params", s.params)]

/-- Reads an edit of an old analysis; without a version it is of the first one. -/
def ofLegacy (fields : Dictionary String Json) : Except Fault StoredEdit :=
  match (Dictionary.get? fields "step_type").bind Json.string? with
  | none => .error (.upgrade "legacy step without a step_type")
  | some kind =>
    let version := ((Dictionary.get? fields "step_version").bind Json.word32?).getD 1
    .ok ⟨version, kind,
      .object (Dictionary.erase (Dictionary.erase fields "step_type") "step_version")⟩

end StoredEdit

namespace Analysis

/-- The place of an edit in an old analysis. -/
def ordinal (key : String) : Except Fault Nat :=
  let digits := match key.toList with
    | '+' :: rest => rest
    | cs => cs
  match (Decimal.nat? digits).filter fun n => n < 0x10000000000000000 with
  | some n => .ok n
  | none => .error (.upgrade ("step key '" ++ key ++ "' is not an ordinal"))

/-- The edits of an old analysis in their order. -/
def legacySteps (entries : Dictionary String (Dictionary String Json)) :
    Except Fault (List StoredEdit) := do
  let placed ← entries.mapM fun e => do pure (← ordinal e.1, e.2)
  (placed.mergeSort fun a b => a.1 ≤ b.1).mapM fun e => StoredEdit.ofLegacy e.2

/-- The fields of an object in order, with their values in canonical form. -/
def fields? (j : Json) : Option (Dictionary String Json) :=
  j.fields?.bind fun _ => j.canonical.fields?

/-- The parts of an analysis: its version, and its edits in either form. -/
def parts? (j : Json) :
    Option (String × Option (List StoredEdit)
      × Option (Dictionary String (Dictionary String Json))) := do
  let r ← j.record? ["version", "steps_data", "steps"]
  pure (← r.need "version" Json.string?,
    ← r.optional "steps_data" (Json.listOf? StoredEdit.ofJson?),
    ← r.optional "steps" (Json.dictionaryOf? fields?))

/-- Reads an analysis of either form. -/
def parse (text : String) : Except Fault Analysis :=
  match (Json.ofText? text).bind parts? with
  | none => .error ((Fault.serialization "no analysis").inContext "Failed to parse saved analysis")
  | some (version, some steps, _) => .ok ⟨version, steps⟩
  | some (version, none, some entries) => do pure ⟨version, ← legacySteps entries⟩
  | some (version, none, none) => .ok ⟨version, []⟩

/-- Writes an analysis. -/
def toJson (a : Analysis) : Json :=
  .object [("version", .string a.version), ("steps_data", .array (a.steps.map StoredEdit.toJson))]

/-- The text of an analysis in a file. -/
def text (a : Analysis) : String := a.toJson.pretty

end Analysis

end SheetScript
