import SheetScript.Formula.Basic

/-!
# References to columns

  How a formula names a column, and how its text follows a column that gets
  another header.
-/

namespace SheetScript.Formula

/-- Whether a formula can name a header without backquotes. -/
def isBare (header : Header) : Bool :=
  match header.toList with
  | [] => false
  | c :: rest =>
    isNamePart c && rest.all isNamePart && !Decimal.isDigit c
      && (Function.ofName? header).isNone
      && Function.capitals header != "TRUE" && Function.capitals header != "FALSE"

/-- How a formula names a header. -/
def reference (header : Header) : String :=
  if isBare header then header else "`" ++ header ++ "`"

/-- Whether a token names the header; a name before an opening bracket is a
  function. -/
def names (header : Header) (t : Token) (next : Option Token) : Bool :=
  match t with
  | .name s => s == header && next != some .opening
  | .quotedName s => s == header
  | _ => false

/-- The characters of pieces with every reference to `old` replaced. -/
def renamed (old new : Header) : List Piece → List Char
  | [] => []
  | p :: rest =>
    p.gap
      ++ (if names old p.token (rest.head?.map Piece.token) then (reference new).toList
          else p.lexeme)
      ++ renamed old new rest

/-- A formula text split behind its equals sign, if it starts with one. -/
def splitEquals (cs : List Char) : List Char × List Char :=
  let before := cs.takeWhile (· ≠ '=')
  match cs.dropWhile (· ≠ '=') with
  | [] => ([], cs)
  | e :: rest => if before.all Text.isBlank then (before ++ [e], rest) else ([], cs)

/-- The text of a formula after `old` became `new`.  A text that cannot be cut
  into tokens stays as it is. -/
def renameReferences (text : String) (old new : Header) : String :=
  let (head, rest) := splitEquals text.toList
  match pieces 0 rest with
  | .error _ => text
  | .ok (ps, trailing) => String.ofList (head ++ renamed old new ps ++ trailing)

end SheetScript.Formula
