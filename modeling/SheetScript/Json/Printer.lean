import SheetScript.Decimal.Text
import SheetScript.Json.Value

/-!
# Writing JSON

  The compact form has no blanks; the pretty form puts every item and field on a
  line of its own, two blanks deeper than the bracket around it.
-/

namespace SheetScript.Json

/-- A hexadecimal digit in small letters. -/
def hexDigit (n : Nat) : Char := (Nat.toDigits 16 n).headD '0'

/-- A character inside a string. -/
def escapeChar (c : Char) : List Char :=
  match c with
  | '"' => ['\\', '"']
  | '\\' => ['\\', '\\']
  | '\n' => ['\\', 'n']
  | '\t' => ['\\', 't']
  | '\x0d' => ['\\', 'r']
  | '\x08' => ['\\', 'b']
  | '\x0c' => ['\\', 'f']
  | c =>
    if c.toNat < 32 then ['\\', 'u', '0', '0', hexDigit (c.toNat / 16), hexDigit (c.toNat % 16)]
    else [c]

/-- A text as a string in quotes. -/
def quoted (s : String) : String :=
  String.ofList ('"' :: s.toList.flatMap escapeChar ++ ['"'])

/-- A number; one that is not finite has no JSON form and is written as `null`. -/
def floatText (x : Float) : String :=
  if x.isFinite then Decimal.jsonText x else "null"

mutual

/-- The compact form. -/
def compact : Json → String
  | .null => "null"
  | .bool true => "true"
  | .bool false => "false"
  | .int n => Decimal.intText n
  | .float x => floatText x
  | .string s => quoted s
  | .array items => "[" ++ ",".intercalate (compactItems items) ++ "]"
  | .object fields => "\x7b" ++ ",".intercalate (compactFields fields) ++ "\x7d"

/-- The items in compact form. -/
def compactItems : List Json → List String
  | [] => []
  | j :: rest => compact j :: compactItems rest

/-- The fields in compact form. -/
def compactFields : List (String × Json) → List String
  | [] => []
  | (name, j) :: rest => (quoted name ++ ":" ++ compact j) :: compactFields rest

end

/-- A line break and the indentation of a depth. -/
def newLine (depth : Nat) : String := "\n" ++ String.ofList (List.replicate (2 * depth) ' ')

mutual

/-- The pretty form at a depth. -/
def prettyAt (depth : Nat) : Json → String
  | .array [] => "[]"
  | .array (j :: rest) =>
    "[" ++ newLine (depth + 1)
      ++ ("," ++ newLine (depth + 1)).intercalate (prettyItems (depth + 1) (j :: rest))
      ++ newLine depth ++ "]"
  | .object [] => "\x7b\x7d"
  | .object (f :: rest) =>
    "\x7b" ++ newLine (depth + 1)
      ++ ("," ++ newLine (depth + 1)).intercalate (prettyFields (depth + 1) (f :: rest))
      ++ newLine depth ++ "\x7d"
  | .null => "null"
  | .bool true => "true"
  | .bool false => "false"
  | .int n => Decimal.intText n
  | .float x => floatText x
  | .string s => quoted s

/-- The items in pretty form. -/
def prettyItems (depth : Nat) : List Json → List String
  | [] => []
  | j :: rest => prettyAt depth j :: prettyItems depth rest

/-- The fields in pretty form. -/
def prettyFields (depth : Nat) : List (String × Json) → List String
  | [] => []
  | (name, j) :: rest => (quoted name ++ ": " ++ prettyAt depth j) :: prettyFields depth rest

end

/-- The pretty form. -/
def pretty (j : Json) : String := prettyAt 0 j

end SheetScript.Json
