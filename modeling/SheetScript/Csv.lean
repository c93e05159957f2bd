import SheetScript.Decimal.Text
import SheetScript.Table.Frame

/-!
# Comma-separated values

  Tables are read from and written to texts of lines and commas.
-/

/-!
## Reading

  The first line holds the headers.  A field that starts with a quote goes on to
  the closing one, over commas and line breaks.  The type of a column is the one
  that its first values have in common; whole numbers and other numbers are
  numbers, and any other mixture is text.  A later value that is not of this type
  makes the file unreadable.
-/

namespace SheetScript.Csv

/-! ### Lines and fields -/

/-- The text that was cut so far, each list with the latest part first. -/
structure Cut where
  lines : List (List (List Char)) := []
  fields : List (List Char) := []
  field : List Char := []
  /-- Inside quotes. -/
  inside : Bool := false
  deriving Repr, Inhabited

namespace Cut

/-- The fields of the line that is being cut. -/
def line (s : Cut) : List (List Char) := (s.field.reverse :: s.fields).reverse

/-- Goes on by one character. -/
def step (s : Cut) (c : Char) : Cut :=
  if c == ',' && !s.inside then { s with fields := s.field.reverse :: s.fields, field := [] }
  else if c == '\n' && !s.inside then { lines := s.line :: s.lines }
  else if c == '"' && (s.field.isEmpty || s.field.getLast? == some '"') then
    { s with field := c :: s.field, inside := !s.inside }
  else { s with field := c :: s.field }

/-- All lines; a line break at the end starts no further one. -/
def finish (s : Cut) : List (List (List Char)) :=
  (if s.fields.isEmpty && s.field.isEmpty then s.lines else s.line :: s.lines).reverse

end Cut

/-- The lines of a text, each as the list of its fields. -/
def lines (cs : List Char) : List (List (List Char)) := (cs.foldl Cut.step {}).finish

/-- A line without the carriage return at its end. -/
def withoutReturn (line : List (List Char)) : List (List Char) :=
  match line.getLast? with
  | some last =>
    if last.getLast? == some '\x0d' then line.dropLast ++ [last.dropLast] else line
  | none => line

/-- What stands between the quotes of a field, as it is written; other fields
  are themselves. -/
def unwrapped : List Char → List Char
  | '"' :: rest => rest.dropLast
  | cs => cs

/-- The characters of a quoted text: of a pair of quotes one is left, and a quote
  that stands alone is dropped. -/
def unquoted : List Char → List Char
  | '"' :: '"' :: rest => '"' :: unquoted rest
  | c :: rest => if c == '"' then unquoted rest else c :: unquoted rest
  | [] => []

/-- Whether a field that starts with a quote also ends with one. -/
def isClosed : List Char → Bool
  | '"' :: rest => rest.getLast? == some '"'
  | _ => true

/-- The text of a field, unless a quote is missing at its end. -/
def content? (field : List Char) : Option String :=
  if isClosed field then
    match field with
    | '"' :: _ => some (String.ofList (unquoted (unwrapped field)))
    | cs => some (String.ofList cs)
  else none

/-! ### Types -/

/-- One digit or more. -/
def areDigits (cs : List Char) : Bool := !cs.isEmpty && cs.all Decimal.isDigit

/-- Whether the characters are a whole number. -/
def isWhole (cs : List Char) : Bool :=
  match cs with
  | '-' :: rest => areDigits rest
  | cs => areDigits cs

/-- Whether the characters are an exponent with its letter. -/
def isExponent : List Char → Bool
  | e :: rest => (e == 'e' || e == 'E') && areDigits (Decimal.takeSign rest).2
  | [] => false

/-- Whether the characters are a number with a point or an exponent. -/
def isFraction (cs : List Char) : Bool :=
  let cs := (Decimal.takeSign cs).2
  if String.ofList cs ∈ ["inf", "NaN"] then true
  else
    let whole := cs.takeWhile Decimal.isDigit
    match cs.drop whole.length with
    | '.' :: rest =>
      let digits := rest.takeWhile Decimal.isDigit
      let tail := rest.drop digits.length
      if digits.isEmpty then !whole.isEmpty && tail.isEmpty
      else tail.isEmpty || isExponent tail
    | rest => !whole.isEmpty && isExponent rest

/-- The truth value that the characters spell, in any case. -/
def truth? (cs : List Char) : Option Bool :=
  let word := String.ofList (cs.map Char.toLower)
  if word == "true" then some true else if word == "false" then some false else none

/-- The type of a field that is not empty. -/
def typeOf (field : List Char) : DType :=
  let cs := unwrapped field
  if (truth? cs).isSome then .bool
  else if isFraction cs then .float64
  else if isWhole cs then .int64
  else .text

/-- How many rows tell the types of the columns. -/
def inferredRows : Nat := 10000

/-- The type of a column of fields, by the first of them. -/
def columnType (fields : List (List Char)) : DType :=
  match (((fields.take inferredRows).filter fun f => !f.isEmpty).map typeOf).eraseDups with
  | [t] => t
  | [.int64, .float64] | [.float64, .int64] => .float64
  | _ => .text

/-- A number without the blanks before it. -/
def numeral (field : List Char) : List Char :=
  (unwrapped field).dropWhile fun c => c == ' ' || c == '\t'

/-- The cell of a field in a column of a type, if the field can be read. -/
def cell? (t : DType) (field : List Char) : Option Cell :=
  let orMissing (cs : List Char) (cell : Option Cell) : Option Cell :=
    if cs.isEmpty then some .missing else cell
  match t with
  | .bool => orMissing (unwrapped field) ((truth? (unwrapped field)).map .bool)
  | .int64 =>
    orMissing (numeral field)
      ((Decimal.int? (numeral field)).bind fun n => if t.fits n then some (.int n) else none)
  | .float64 => orMissing (numeral field) ((Decimal.floatOfList? (numeral field)).map .float)
  | _ => orMissing field ((content? field).map .text)

/-! ### Frames -/

/-- Headers, of which repeated ones are numbered. -/
def distinctHeaders (names : List String) : List Header :=
  names.zipIdx.map fun e =>
    let before := (names.take e.2).count e.1
    if before = 0 then e.1 else e.1 ++ "_duplicated_" ++ Decimal.natText (before - 1)

/-- A line without the carriage returns at its start. -/
def withoutLeadingReturns : List (List Char) → List (List Char)
  | [] => []
  | first :: rest => first.dropWhile (· == '\x0d') :: rest

/-- The rows below the headers: an empty line is a row only of a single column. -/
def rows (width : Nat) (rest : List (List (List Char))) : List (List (List Char)) :=
  if width = 1 then rest.map withoutReturn
  else ((rest.map withoutLeadingReturns).filter fun l => l ≠ [[]]).map withoutReturn

/-- The column at a position; short rows are filled up. -/
def columnAt (header : Header) (rows : List (List (List Char))) (i : Nat) :
    Except TableError Column :=
  let fields := rows.map fun r => r[i]?.getD []
  let t := columnType fields
  match fields.mapM (cell? t) with
  | some cells => .ok ⟨header, t, cells⟩
  | none => .error .compute

/-- The frame of a text. -/
def read (text : String) : Except TableError Frame := do
  let cs := match text.toList with
    | '\ufeff' :: rest => rest
    | cs => cs
  match lines (cs.dropWhile fun c => c == '\n' || c == '\x0d') with
  | [] => throw .noData
  | first :: rest =>
    let headers := distinctHeaders ((withoutReturn first).map fun f => String.ofList (unwrapped f))
    let body := rows headers.length rest
    if headers.eraseDups.length != headers.length then throw .duplicate
    else if body.any fun r => headers.length < r.length then throw .compute
    else
      let columns ← headers.zipIdx.mapM fun h => columnAt h.1 body h.2
      pure ⟨columns, body.length⟩

/-!
## Writing

  A line of headers and a line for every row.  A missing cell is empty, and a
  text stands in quotes if it is empty or holds a comma, a quote or a line break;
  quotes inside are written twice.
-/

/-- Whether a text has to stand in quotes. -/
def needsQuotes (cs : List Char) : Bool :=
  cs.isEmpty || cs.any fun c => c == ',' || c == '"' || c == '\n' || c == '\x0d'

/-- A text in quotes. -/
def quoted (cs : List Char) : List Char :=
  '"' :: cs.flatMap (fun c => if c == '"' then ['"', '"'] else [c]) ++ ['"']

/-- A text as a field. -/
def field (s : String) : String :=
  if needsQuotes s.toList then String.ofList (quoted s.toList) else s

/-- A moment with a `T` between date and time. -/
def momentField (us : Int) : String :=
  String.ofList ((Cell.momentText us).toList.map fun c => if c == ' ' then 'T' else c)

/-- A cell of a type as a field. -/
def cellField (t : DType) : Cell → String
  | .missing => ""
  | .bool b => if b then "true" else "false"
  | .int n =>
    match t with
    | .date => (Civil.ofDays n).text
    | .datetime => momentField n
    | _ => Decimal.intText n
  | .float x => Decimal.cellText x
  | .text s => field s

/-- A line of fields. -/
def line (fields : List String) : String := ",".intercalate fields ++ "\n"

/-- The text of a frame; durations cannot be written. -/
def write (f : Frame) : Except TableError String :=
  if f.columns.any fun c => c.dtype = .duration then .error .compute
  else if f.columns.isEmpty then .ok "\n"
  else
    let columns := f.columns.map fun c => c.cells.map (cellField c.dtype)
    let arrays := columns.map List.toArray
    let rows := (List.range f.height).map fun i => line (arrays.map fun a => a[i]?.getD "")
    .ok (line (f.headers.map field) ++ String.join rows)

end SheetScript.Csv
