import SheetScript.Decimal.Text

/-!
# Names

  Free names are found by numbering: a name that is taken gets the first suffix
  `_1`, `_2`, … that makes it free.  Tables carry the names of variables of the
  generated script, so other names are rewritten into such names first.  Old
  analyses restricted headers in a similar way.
-/

namespace SheetScript.Naming

/-- A name with a numbered suffix. -/
def numbered (base : String) (n : Nat) : String := base ++ "_" ++ Decimal.natText n

/-- `base`, or the first numbered name after it that is not taken.  Among one
  more candidates than there are taken names one is free. -/
def firstFree (taken : List String) (base : String) : String :=
  if base ∈ taken then
    (((List.range (taken.length + 1)).map fun n => numbered base (n + 1)).find?
      fun name => name ∉ taken).getD base
  else base

/-- Words that no variable of the script may be called. -/
def keywords : List String :=
  ["False", "None", "True", "and", "as", "assert", "async", "await", "break", "class",
   "continue", "def", "del", "elif", "else", "except", "finally", "for", "from", "global", "if",
   "import", "in", "is", "lambda", "nonlocal", "not", "or", "pass", "raise", "return", "try",
   "while", "with", "yield"]

/-- Whether a name can start with the character. -/
def isNameStart (c : Char) : Bool := c.isAlpha || c == '_'

/-- Whether a name can hold the character. -/
def isNamePart (c : Char) : Bool := c.isAlphanum || c == '_'

/-- Whether a text can name a variable of the script. -/
def isVariableName (name : String) : Bool :=
  match name.toList with
  | [] => false
  | c :: rest => isNameStart c && rest.all isNamePart && name ∉ keywords

/-- A text as the name of a variable: other characters become underscores. -/
def variableName (name : String) : String :=
  if isVariableName name then name
  else
    let cleaned := name.toList.map fun c => if c.isAlphanum then c else '_'
    let started := match cleaned with
      | [] => "df_".toList
      | c :: rest => if isNameStart c then c :: rest else "df_".toList ++ c :: rest
    let cleanedName := String.ofList started
    if cleanedName ∈ keywords then cleanedName ++ "_df" else cleanedName

/-- A header of letters, digits and underscores that does not start with a
  digit, as old analyses required. -/
def legacyHeader (header : String) : String :=
  let cleaned := header.toList.map fun c => if isNamePart c then c else '_'
  match cleaned with
  | [] => "c_"
  | c :: rest => String.ofList (if c.isDigit then 'c' :: '_' :: c :: rest else c :: rest)

end SheetScript.Naming
