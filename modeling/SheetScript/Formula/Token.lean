import SheetScript.Decimal.Text
import SheetScript.Fault
import SheetScript.Text.Character
import SheetScript.Text.Printable

/-!
# Tokens of formulas

  A formula text is cut into tokens with blanks between them.  A name is a run
  of letters, digits and underscores; a text stands between quotes of either
  kind, and a name that is no such run between backquotes.  Nothing is lost: the
  lexemes and the blanks before them make up the text again.

  `Formula.tokens` cuts a whole text; `FormulaError` says why a text is no
  formula, for this module and the ones that build on it.
-/

namespace SheetScript

/-- The operators of formulas. -/
inductive Operator where
  | add
  | subtract
  | multiply
  | divide
  | power
  /-- Puts two texts one after the other. -/
  | join
  | equal
  | notEqual
  | less
  | greater
  | lessOrEqual
  | greaterOrEqual
  deriving DecidableEq, Repr

/-- How a formula writes an operator. -/
def Operator.sign : Operator → String
  | .add => "+"
  | .subtract => "-"
  | .multiply => "*"
  | .divide => "/"
  | .power => "^"
  | .join => "&"
  | .equal => "="
  | .notEqual => "<>"
  | .less => "<"
  | .greater => ">"
  | .lessOrEqual => "<="
  | .greaterOrEqual => ">="

/-- The operators in the order in which a text is matched against them: a longer
  sign comes before its beginning. -/
def Operator.all : List Operator :=
  [.lessOrEqual, .greaterOrEqual, .notEqual, .add, .subtract, .multiply, .divide, .power, .join,
   .equal, .less, .greater]

namespace Formula

/-- A token. -/
inductive Token where
  | number (x : Float)
  | text (s : String)
  | name (s : String)
  /-- A name between backquotes. -/
  | quotedName (s : String)
  | operator (o : Operator)
  | opening
  | closing
  | comma
  deriving DecidableEq, Repr

/-- A token as reports show it. -/
def Token.report : Token → String
  | .number x => "Number(" ++ Decimal.reportText x ++ ")"
  | .text s => "Str(" ++ Text.quoted s ++ ")"
  | .name s => "Ident(" ++ Text.quoted s ++ ")"
  | .quotedName s => "Quoted(" ++ Text.quoted s ++ ")"
  | .operator o => "Op(" ++ Text.quoted o.sign ++ ")"
  | .opening => "LParen"
  | .closing => "RParen"
  | .comma => "Comma"

end Formula

/-- Why a text is no formula. -/
inductive FormulaError where
  /-- A quote at this byte of the text is not closed. -/
  | unterminated (quote : Char) (position : Nat)
  | notANumber (lexeme : String)
  | unexpectedCharacter (c : Char)
  | unexpected (t : Formula.Token)
  /-- A token follows a complete formula. -/
  | leftOver (t : Formula.Token)
  /-- A closing bracket was expected. -/
  | expectedClosing (t : Formula.Token)
  | endedEarly
  | unknownColumn (header : String)
  | unknownFunction (name : String)
  /-- A function was called with a number of arguments that it does not take. -/
  | argumentCount (name : String) (takes : String) (got : Nat)
  /-- The digits to round to are no natural number. -/
  | roundDigits
  deriving DecidableEq, Repr

namespace FormulaError

/-- The words of an error. -/
def text : FormulaError → String
  | .unterminated quote position =>
    "unterminated " ++ String.singleton quote ++ " starting at " ++ Decimal.natText position
  | .notANumber lexeme => "'" ++ lexeme ++ "' is not a number"
  | .unexpectedCharacter c => "unexpected character '" ++ String.singleton c ++ "'"
  | .unexpected t => "unexpected " ++ t.report
  | .leftOver t => "unexpected " ++ t.report ++ " after expression"
  | .expectedClosing t => "expected ')', found " ++ t.report
  | .endedEarly => "formula ended unexpectedly"
  | .unknownColumn header => "formula references unknown column '" ++ header ++ "'"
  | .unknownFunction name => "unknown function " ++ name
  | .argumentCount name takes got =>
    name ++ " takes " ++ takes ++ " argument(s), got " ++ Decimal.natText got
  | .roundDigits => "ROUND digits must be a whole number"

/-- An error as a fault: a column that is not there has a kind of its own. -/
def toFault (e : FormulaError) : Fault :=
  match e with
  | .unknownColumn _ => .execution .missingColumn e.text
  | _ => .execution .formulaError e.text

end FormulaError

namespace Formula

/-! ### One token -/

/-- Whether a name can hold the character. -/
def isNamePart (c : Char) : Bool := Text.isLetterOrDigit c || c == '_'

/-- Whether a number can hold the character. -/
def isNumberPart (c : Char) : Bool := Decimal.isDigit c || c == '.'

/-- Whether a text starts with a sign. -/
def startsWith (sign : String) (cs : List Char) : Bool := sign.toList.isPrefixOf cs

/-- The token at the head of `c :: rest` and the number of characters it takes
  from `rest`.  `position` counts the bytes before it. -/
def scan (position : Nat) (c : Char) (rest : List Char) : Except FormulaError (Token × Nat) :=
  if c = '(' then .ok (.opening, 0)
  else if c = ')' then .ok (.closing, 0)
  else if c = ',' then .ok (.comma, 0)
  else if c = '"' ∨ c = '\'' ∨ c = '`' then
    let inner := rest.takeWhile (· ≠ c)
    if inner.length < rest.length then
      let s := String.ofList inner
      .ok (if c = '`' then .quotedName s else .text s, inner.length + 1)
    else .error (.unterminated c position)
  else if Decimal.isDigit c || (c == '.' && (rest.head?.map Decimal.isDigit).getD false) then
    let more := rest.takeWhile isNumberPart
    match Decimal.floatOfList? (c :: more) with
    | some x => .ok (.number x, more.length)
    | none => .error (.notANumber (String.ofList (c :: more)))
  else if isNamePart c then
    let more := rest.takeWhile isNamePart
    .ok (.name (String.ofList (c :: more)), more.length)
  else
    match Operator.all.find? fun o => startsWith o.sign (c :: rest) with
    | some o => .ok (.operator o, o.sign.length - 1)
    | none => .error (.unexpectedCharacter c)

/-! ### All tokens -/

/-- A token with the characters it was read from and the blanks before it. -/
structure Piece where
  gap : List Char
  lexeme : List Char
  token : Token
  deriving DecidableEq, Repr

/-- The number of bytes of a list of characters. -/
def byteCount (cs : List Char) : Nat := cs.foldl (fun n c => n + c.utf8Size) 0

/-- The pieces of a text and the blanks after the last of them; `position`
  counts the bytes before the text. -/
def pieces (position : Nat) (cs : List Char) : Except FormulaError (List Piece × List Char) :=
  let gap := cs.takeWhile Text.isBlank
  match _h : cs.dropWhile Text.isBlank with
  | [] => .ok ([], gap)
  | c :: rest => do
    let start := position + byteCount gap
    let (token, taken) ← scan start c rest
    let lexeme := c :: rest.take taken
    let (more, trailing) ← pieces (start + byteCount lexeme) (rest.drop taken)
    .ok (⟨gap, lexeme, token⟩ :: more, trailing)
termination_by cs.length
decreasing_by
  have hlen := congrArg List.length _h
  have hle : (cs.dropWhile Text.isBlank).length ≤ cs.length :=
    (List.dropWhile_sublist _).length_le
  simp only [List.length_cons, List.length_drop] at hlen ⊢
  omega

/-- The tokens of a text. -/
def tokens (cs : List Char) : Except FormulaError (List Token) :=
  (pieces 0 cs).map fun r => r.1.map Piece.token

end Formula

end SheetScript
