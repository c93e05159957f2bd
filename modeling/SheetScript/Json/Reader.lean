import SheetScript.Json.Number

/-!
# Reading JSON

  One value with blanks around it, nested at most 127 deep.  The fields of an
  object are kept as they are written; `Json.canonical` orders them.
-/

namespace SheetScript.Json

/-- Whether a character may stand between tokens. -/
def isSpace (c : Char) : Bool := c == ' ' || c == '\n' || c == '\t' || c == '\x0d'

/-- The text without leading blanks. -/
def skipSpace (cs : List Char) : List Char := cs.dropWhile isSpace

/-- The value of a hexadecimal digit. -/
def hexValue? (c : Char) : Option Nat :=
  if '0' ≤ c && c ≤ '9' then some (c.toNat - '0'.toNat)
  else if 'a' ≤ c && c ≤ 'f' then some (c.toNat - 'a'.toNat + 10)
  else if 'A' ≤ c && c ≤ 'F' then some (c.toNat - 'A'.toNat + 10)
  else none

/-- Four hexadecimal digits. -/
def hex4? : List Char → Option (Nat × List Char)
  | a :: b :: c :: d :: rest => do
    let w ← hexValue? a
    let x ← hexValue? b
    let y ← hexValue? c
    let z ← hexValue? d
    pure (4096 * w + 256 * x + 16 * y + z, rest)
  | _ => none

/-- The character of an escape `\u`, which may take two halves. -/
def unicodeEscape? (cs : List Char) : Option (Char × List Char) := do
  let (high, rest) ← hex4? cs
  if 0xD800 ≤ high && high < 0xDC00 then
    match rest with
    | '\\' :: 'u' :: rest => do
      let (low, rest) ← hex4? rest
      if 0xDC00 ≤ low && low < 0xE000 then
        pure (Char.ofNat (0x10000 + 1024 * (high - 0xD800) + (low - 0xDC00)), rest)
      else none
    | _ => none
  else if 0xDC00 ≤ high && high < 0xE000 then none
  else pure (Char.ofNat high, rest)

/-- The character that a letter stands for after a backslash. -/
def simpleEscape? : Char → Option Char
  | '"' => some '"'
  | '\\' => some '\\'
  | '/' => some '/'
  | 'b' => some '\x08'
  | 'f' => some '\x0c'
  | 'n' => some '\n'
  | 'r' => some '\x0d'
  | 't' => some '\t'
  | _ => none

/-- The characters of a string up to its closing quote, collected in reverse. -/
def stringBody : Nat → List Char → List Char → Option (List Char × List Char)
  | 0, _, _ => none
  | fuel + 1, acc, cs =>
    match cs with
    | [] => none
    | '"' :: rest => some (acc.reverse, rest)
    | '\\' :: 'u' :: rest =>
      match unicodeEscape? rest with
      | some (c, rest) => stringBody fuel (c :: acc) rest
      | none => none
    | '\\' :: e :: rest =>
      match simpleEscape? e with
      | some c => stringBody fuel (c :: acc) rest
      | none => none
    | c :: rest => if c == '\\' || c.toNat < 32 then none else stringBody fuel (c :: acc) rest

/-- A string after its opening quote. -/
def stringAt? (cs : List Char) : Option (String × List Char) :=
  (stringBody (cs.length + 1) [] cs).map fun r => (String.ofList r.1, r.2)

/-- The rest after a word. -/
def afterWord? : List Char → List Char → Option (List Char)
  | [], cs => some cs
  | w :: ws, c :: cs => if w == c then afterWord? ws cs else none
  | _ :: _, [] => none

mutual

/-- One value; `fuel` bounds the length and `depth` the nesting. -/
def valueAt? : Nat → Nat → List Char → Option (Json × List Char)
  | 0, _, _ => none
  | fuel + 1, depth, cs =>
    match skipSpace cs with
    | [] => none
    | 'n' :: rest => (afterWord? ['u', 'l', 'l'] rest).map fun r => (.null, r)
    | 't' :: rest => (afterWord? ['r', 'u', 'e'] rest).map fun r => (.bool true, r)
    | 'f' :: rest => (afterWord? ['a', 'l', 's', 'e'] rest).map fun r => (.bool false, r)
    | '"' :: rest => (stringAt? rest).map fun r => (.string r.1, r.2)
    | '[' :: rest =>
      if depth ≤ 1 then none
      else match skipSpace rest with
        | ']' :: rest => some (.array [], rest)
        | other => (itemsAt? fuel (depth - 1) other).map fun r => (.array r.1, r.2)
    | c :: rest =>
      if c.toNat == 123 then
        if depth ≤ 1 then none
        else match skipSpace rest with
          | [] => none
          | d :: after =>
            if d.toNat == 125 then some (.object [], after)
            else (fieldsAt? fuel (depth - 1) (d :: after)).map fun r => (.object r.1, r.2)
      else number? (c :: rest)

/-- The items of an array up to its closing bracket. -/
def itemsAt? : Nat → Nat → List Char → Option (List Json × List Char)
  | 0, _, _ => none
  | fuel + 1, depth, cs => do
    let (j, rest) ← valueAt? fuel depth cs
    match skipSpace rest with
    | ']' :: rest => some ([j], rest)
    | ',' :: rest => do
      let (js, rest) ← itemsAt? fuel depth rest
      some (j :: js, rest)
    | _ => none

/-- The fields of an object up to its closing brace. -/
def fieldsAt? : Nat → Nat → List Char → Option (List (String × Json) × List Char)
  | 0, _, _ => none
  | fuel + 1, depth, cs =>
    match skipSpace cs with
    | '"' :: rest => do
      let (name, rest) ← stringAt? rest
      match skipSpace rest with
      | ':' :: rest => do
        let (j, rest) ← valueAt? fuel depth rest
        match skipSpace rest with
        | ',' :: rest => do
          let (fs, rest) ← fieldsAt? fuel depth rest
          some ((name, j) :: fs, rest)
        | c :: rest => if c.toNat == 125 then some ([(name, j)], rest) else none
        | [] => none
      | _ => none
    | _ => none

end

/-- The value that a text writes, its fields as written. -/
def ofText? (text : String) : Option Json :=
  let cs := text.toList
  match valueAt? (2 * cs.length + 2) 128 cs with
  | some (j, rest) => if (skipSpace rest).isEmpty then some j else none
  | none => none

/-- The canonical value that a text writes. -/
def parse? (text : String) : Option Json := (ofText? text).map canonical

end SheetScript.Json
