import SheetScript.Decimal.Text
import SheetScript.Disk
import SheetScript.Fault
import SheetScript.Json.Printer
import SheetScript.Json.Reader
import SheetScript.Json.Record
import SheetScript.Text.Character

/-!
# Settings

  What a user can choose.  Settings come from a file, in which any of them may be
  missing, and single ones are overridden by environment variables.
-/

namespace SheetScript

/-- The lines at the head of every script. -/
def standardPreamble : List String :=
  ["from mitosheet.public.v3 import *", "import pandas as pd"]

/-- What a user can choose. -/
structure Settings where
  /-- Chunks are shortened. -/
  optimizes : Bool := true
  /-- The bound on the passes of the optimizer. -/
  passLimit : Nat := 64
  /-- Shortened chunks are verified. -/
  verifies : Bool := true
  /-- The lines at the head of the script. -/
  preamble : List String := standardPreamble
  logLevel : String := "info"
  /-- Where log files go; below the data directory when there is none. -/
  logDirectory : Option String := none
  deriving DecidableEq, Repr, Inhabited

namespace Settings

/-- The names of the fields in a file. -/
def fieldNames : List String :=
  ["optimize_code", "max_optimizer_passes", "verify_optimization", "code_prelude", "log_level",
   "log_dir"]

/-- Settings from JSON. -/
def ofJson? (j : Json) : Option Settings := do
  let r ← j.record? fieldNames
  let standard : Settings := {}
  pure {
    optimizes := ← r.orElse "optimize_code" standard.optimizes Json.bool?
    passLimit := ← r.orElse "max_optimizer_passes" standard.passLimit Json.index?
    verifies := ← r.orElse "verify_optimization" standard.verifies Json.bool?
    preamble := ← r.orElse "code_prelude" standard.preamble Json.texts?
    logLevel := ← r.orElse "log_level" standard.logLevel Json.string?
    logDirectory := ← r.optional "log_dir" Json.string? }

/-- Settings as JSON. -/
def toJson (s : Settings) : Json :=
  .object
    [("optimize_code", .bool s.optimizes), ("max_optimizer_passes", .ofNat s.passLimit),
     ("verify_optimization", .bool s.verifies), ("code_prelude", .ofTexts s.preamble),
     ("log_level", .string s.logLevel), ("log_dir", .ofOption s.logDirectory)]

/-- Settings from the text of a file. -/
def parse (text : String) : Except Trouble Settings :=
  match (Json.ofText? text).bind ofJson? with
  | some s => .ok s
  | none => .error (.plain "Failed to parse settings JSON")

/-- A truth value of an environment variable. -/
def truth? (text : String) : Option Bool :=
  let word := (Text.trim text).map Char.toLower
  if word ∈ ["1", "true", "yes", "on"] then some true
  else if word ∈ ["0", "false", "no", "off"] then some false
  else none

/-- A number of passes in an environment variable. -/
def passLimit? (text : String) : Option Nat :=
  let digits := match Text.trimList text.toList with
    | '+' :: rest => rest
    | cs => cs
  (Decimal.nat? digits).bind fun n => if n < 0x10000000000000000 then some n else none

/-- One setting, replaced if the environment has a variable for it. -/
def overridden {α : Type} (environment : Dictionary String String) (variableName complaint : String)
    (read : String → Option α) (current : α) : Except Trouble α :=
  match Dictionary.get? environment variableName with
  | none => .ok current
  | some text =>
    match read text with
    | some a => .ok a
    | none => .error (.plain complaint)

/-- The settings with those replaced that the environment has variables for. -/
def withEnvironment (s : Settings) (environment : Dictionary String String) :
    Except Trouble Settings := do
  let e := environment
  pure { s with
    optimizes := ← overridden e "SHEETSTEP_OPTIMIZE_CODE" "SHEETSTEP_OPTIMIZE_CODE" truth?
      s.optimizes
    passLimit := ← overridden e "SHEETSTEP_MAX_OPTIMIZER_PASSES"
      "SHEETSTEP_MAX_OPTIMIZER_PASSES must be a positive integer" passLimit? s.passLimit
    verifies := ← overridden e "SHEETSTEP_VERIFY_OPTIMIZATION" "SHEETSTEP_VERIFY_OPTIMIZATION"
      truth? s.verifies
    logLevel := ← overridden e "SHEETSTEP_LOG_LEVEL" "" some s.logLevel
    logDirectory := ← overridden e "SHEETSTEP_LOG_DIR" "" (fun t => some (some t))
      s.logDirectory }

/-- The directory of the settings file. -/
def directory : String := "config/sheetstep"

/-- The path of the settings file. -/
def filePath : String := directory ++ "/settings.json"

/-- The settings of the user: those of the file, if there is one, with the
  environment's. -/
def load (d : Disk) (environment : Dictionary String String) : Except Trouble Settings := do
  let s ←
    if d.contains filePath then
      match d.read? filePath with
      | some text => parse text
      | none => throw (.plain ("Failed to read settings from " ++ filePath))
    else pure {}
  s.withEnvironment environment

/-- Writes the settings file. -/
def save (s : Settings) (d : Disk) : Except Trouble Disk :=
  match d.makeDirectory? directory with
  | none => .error (.plain ("Failed to create config directory: " ++ directory))
  | some d =>
    match d.write? filePath (.text s.toJson.pretty) with
    | none => .error (.plain ("Failed to write settings to " ++ filePath))
    | some d => .ok d

/-- The directory for log files, which is made if it is missing. -/
def makeLogDirectory (s : Settings) (d : Disk) : Except Trouble (String × Disk) :=
  let path := s.logDirectory.getD "data/sheetstep/logs"
  if d.contains path then .ok (path, d)
  else
    match d.makeDirectory? path with
    | some d => .ok (path, d)
    | none => .error (.plain ("Failed to create log directory: " ++ path))

end Settings

end SheetScript
