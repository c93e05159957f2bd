import SheetScript.Json.Printer

/-!
# Literals of the generated script

  How texts, paths, numbers and JSON values are written in the script.  A text
  stands in single quotes; a path is written raw where that is possible.
-/

namespace SheetScript.Literal

/-- A character inside single quotes. -/
def escape : Char → List Char
  | '\\' => ['\\', '\\']
  | '\'' => ['\\', '\'']
  | '\n' => ['\\', 'n']
  | '\t' => ['\\', 't']
  | '\x0d' => ['\\', 'r']
  | c => [c]

/-- A text in single quotes. -/
def text (s : String) : String := String.ofList ('\'' :: s.toList.flatMap escape ++ ['\''])

/-- A path, raw unless it holds a single quote or ends with a backslash. -/
def path (p : String) : String :=
  if p.toList.contains '\'' || p.toList.getLast? == some '\\' then text p
  else "r'" ++ p ++ "'"

/-- A number; whole ones have no point. -/
def number (x : Float) : String :=
  if x.isNaN then "float('nan')"
  else if x.isInf then (if 0 < x then "float('inf')" else "float('-inf')")
  else if Decimal.isWhole x && x.abs < 1e15 then Decimal.intText ((Decimal.wholePart? x).getD 0)
  else Decimal.plainText x

/-- A list whose items are written already. -/
def listOf (items : List String) : String := "[" ++ ", ".intercalate items ++ "]"

/-- A list of texts. -/
def list (items : List String) : String := listOf (items.map text)

mutual

/-- A JSON value. -/
def value : Json → String
  | .null => "None"
  | .bool true => "True"
  | .bool false => "False"
  | .int n => Decimal.intText n
  | .float x => Json.floatText x
  | .string s => text s
  | .array items => listOf (valueItems items)
  | .object fields => "\x7b" ++ ", ".intercalate (valueFields fields) ++ "\x7d"

/-- The items of an array. -/
def valueItems : List Json → List String
  | [] => []
  | j :: rest => value j :: valueItems rest

/-- The fields of an object. -/
def valueFields : List (String × Json) → List String
  | [] => []
  | (name, j) :: rest => (text name ++ ": " ++ value j) :: valueFields rest

end

/-- A text in double quotes, in which only the quote and the backslash are
  marked. -/
def doubleQuoted (s : String) : String :=
  String.ofList ('"' :: s.toList.flatMap (fun c => if c == '"' || c == '\\' then ['\\', c] else [c])
    ++ ['"'])

end SheetScript.Literal
