import SheetScript.Decimal.Text
import SheetScript.Naming
import SheetScript.Text.Case
import SheetScript.Text.Character

/-!
# Addresses in a workbook

  Columns are lettered `A` to `Z`, `AA`, `AB` and so on: numerals in base 26
  without a zero.  Tabs have names of 1 to 31 characters, which differ by more
  than case.
-/

namespace SheetScript.Workbook

/-- The letter of a digit below 26. -/
def letter (digit : Nat) : Char := Char.ofNat ('A'.toNat + digit)

/-- The numeral of a positive number in base 26 without a zero. -/
def letters : Nat → List Char
  | 0 => []
  | n + 1 => letters (n / 26) ++ [letter (n % 26)]
termination_by n => n
decreasing_by omega

/-- The letters of a column; the first column has index 0. -/
def columnLetters (index : Nat) : String := String.ofList (letters (index + 1))

/-- The greatest length of a tab name. -/
def tabLength : Nat := 31

/-- A character of a tab name: blanks and some signs are not allowed. -/
def tabChar (c : Char) : Char :=
  if c ∈ ['[', ']', ':', '*', '?', '/', '\\'] || Text.isBlank c then '_' else c

/-- A text with small letters in place of the capitals `A` to `Z`. -/
def foldCase (s : String) : String := s.map Char.toLower

/-- A tab name with a numbered suffix. -/
def numberedTab (base : String) (n : Nat) : String :=
  let suffix := "_" ++ Decimal.natText n
  String.ofList (base.toList.take (tabLength - suffix.length)) ++ suffix

/-- The name of a tab beside tabs whose names are taken. -/
def tabName (taken : List String) (name : String) : String :=
  let cleaned := name.toList.map tabChar
  let base := if cleaned.isEmpty then "Sheet" else String.ofList (cleaned.take tabLength)
  let isTaken (candidate : String) : Bool := taken.any fun t => foldCase t == foldCase candidate
  if isTaken base then
    (((List.range (taken.length + 1)).map fun n => numberedTab base (n + 1)).find?
      fun candidate => !isTaken candidate).getD base
  else base

/-- The names of tabs, in order. -/
def tabNames (names : List String) : List String :=
  names.foldl (fun taken name => taken ++ [tabName taken name]) []

/-- Whether tab names differ by more than the case of any letter, as a workbook
  file demands. -/
def differByLetters (tabs : List String) : Bool :=
  let small := tabs.map Text.toLower
  small.eraseDups.length == small.length

end SheetScript.Workbook
