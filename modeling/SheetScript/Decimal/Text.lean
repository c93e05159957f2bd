import SheetScript.Decimal.Shortest

/-!
# Texts of decimals

  A layout says how the shortest digits of a number become a text: for which
  magnitudes the digits stand in their places, and whether a whole number shows
  a point.  The layouts of the program are values of one record.
-/

namespace SheetScript.Decimal

/-- How digits become a text.  The magnitude of a number is the count of its
  digits before the point (`0` for `0.1`). -/
structure Layout where
  /-- Magnitudes above this one stand in their places. -/
  above : Option Int
  /-- Magnitudes up to this one stand in their places. -/
  upTo : Option Int
  /-- Whole numbers end with `.0`. -/
  pointZero : Bool
  /-- A positive exponent shows its sign. -/
  plusSign : Bool
  deriving DecidableEq, Repr

/-- Every digit in its place and no needless point. -/
def Layout.plain : Layout := ⟨none, none, false, false⟩

/-- Numbers in the cells of a table: exponents from `1e16` on and below
  `0.00001`. -/
def Layout.cell : Layout := ⟨some (-5), some 16, true, false⟩

/-- Numbers in JSON: as in cells, but `1e+16`. -/
def Layout.json : Layout := ⟨some (-5), some 16, true, true⟩

/-- Numbers in reports about a formula: exponents from `1e16` on and below
  `0.0001`. -/
def Layout.report : Layout := ⟨some (-4), some 16, true, false⟩

/-- The decimal digits of a number. -/
def digitsOf (n : Nat) : List Char := Nat.toDigits 10 n

/-- A natural number in decimal. -/
def natText (n : Nat) : String := String.ofList (digitsOf n)

/-- An integer in decimal. -/
def intText : Int → String
  | .ofNat n => natText n
  | .negSucc n => "-" ++ natText (n + 1)

/-- The text of `digits · 10 ^ exponent` under a layout. -/
def Layout.body (l : Layout) (digits : Nat) (exponent : Int) : List Char :=
  let ds := digitsOf digits
  let magnitude : Int := ds.length + exponent
  let inPlace := (l.above.all fun a => a < magnitude) && (l.upTo.all fun b => magnitude ≤ b)
  if inPlace then
    if 0 ≤ exponent then
      ds ++ List.replicate exponent.toNat '0' ++ (if l.pointZero then ['.', '0'] else [])
    else if 0 < magnitude then
      ds.take magnitude.toNat ++ '.' :: ds.drop magnitude.toNat
    else
      '0' :: '.' :: (List.replicate (-magnitude).toNat '0' ++ ds)
  else
    let tail := match ds with
      | d :: e :: rest => d :: '.' :: e :: rest
      | short => short
    let sign := if l.plusSign && 0 < magnitude - 1 then ['+'] else []
    tail ++ 'e' :: (sign ++ (intText (magnitude - 1)).toList)

/-- The text of a number under a layout. -/
def Layout.render (l : Layout) : Reading → String
  | .nan => "NaN"
  | .infinite negative => if negative then "-inf" else "inf"
  | .zero negative =>
    String.ofList ((if negative then ['-'] else []) ++ '0' :: (if l.pointZero then ['.', '0'] else []))
  | .finite negative value =>
    let d := value.shortest
    String.ofList ((if negative then ['-'] else []) ++ l.body d.1 d.2)

/-- A number with every digit in its place. -/
def plainText (x : Float) : String := Layout.plain.render (ofFloat x)

/-- A number as the cells of a table show it. -/
def cellText (x : Float) : String := Layout.cell.render (ofFloat x)

/-- A number as JSON shows it. -/
def jsonText (x : Float) : String := Layout.json.render (ofFloat x)

/-- A number as reports show it. -/
def reportText (x : Float) : String := Layout.report.render (ofFloat x)

/-!
## Reading decimals

  A number is an optional sign, digits with at most one point, and an optional
  exponent; at least one digit is needed, before or after the point.  The words
  `inf`, `infinity` and `nan` are numbers too, in any case.  The value is the
  nearest floating-point number.
-/

/-- Whether the character is one of `0` to `9`. -/
def isDigit (c : Char) : Bool := '0' ≤ c && c ≤ '9'

/-- The value of a digit. -/
def digitValue (c : Char) : Nat := c.toNat - '0'.toNat

/-- The number that a list of digits writes. -/
def natOfDigits (ds : List Char) : Nat := ds.foldl (fun n c => 10 * n + digitValue c) 0

/-- A natural number: one digit or more and nothing else. -/
def nat? (cs : List Char) : Option Nat :=
  if !cs.isEmpty && cs.all isDigit then some (natOfDigits cs) else none

/-- The sign at the head of a text and the rest. -/
def takeSign : List Char → Bool × List Char
  | '-' :: rest => (true, rest)
  | '+' :: rest => (false, rest)
  | cs => (false, cs)

/-- An integer with an optional sign. -/
def int? (cs : List Char) : Option Int :=
  let s := takeSign cs
  (nat? s.2).map fun n => if s.1 then -(n : Int) else n

/-- The nearest floating-point number to `digits · 10 ^ exponent`.  Beyond the
  range of the format the exponent need not be exact. -/
def toFloat (digits : Nat) (exponent : Int) : Float :=
  if digits == 0 then 0
  else
    let magnitude : Int := (digitsOf digits).length + exponent
    if 400 < magnitude then 1.0 / 0.0
    else if magnitude < -400 then 0
    else if exponent < 0 then Float.ofScientific digits true exponent.natAbs
    else Float.ofScientific digits false exponent.natAbs

/-- The exponent part of a number: nothing, or `e` and an integer. -/
def exponentPart? : List Char → Option Int
  | [] => some 0
  | c :: rest => if c == 'e' || c == 'E' then int? rest else none

/-- A number without sign and words. -/
def unsigned? (cs : List Char) : Option Float :=
  let whole := cs.takeWhile isDigit
  let rest := cs.dropWhile isDigit
  let (fraction, rest) := match rest with
    | '.' :: after => (after.takeWhile isDigit, after.dropWhile isDigit)
    | other => ([], other)
  if whole.isEmpty && fraction.isEmpty then none
  else (exponentPart? rest).map fun e =>
    toFloat (natOfDigits (whole ++ fraction)) (e - (fraction.length : Int))

/-- A floating-point number in any of its written forms. -/
def floatOfList? (cs : List Char) : Option Float :=
  let s := takeSign cs
  let word := String.ofList (s.2.map Char.toLower)
  let magnitude : Option Float :=
    if word == "inf" || word == "infinity" then some (1.0 / 0.0)
    else if word == "nan" then some (0.0 / 0.0)
    else unsigned? s.2
  magnitude.map fun x => if s.1 then -x else x

/-- A floating-point number in any of its written forms. -/
def float? (s : String) : Option Float := floatOfList? s.toList

end SheetScript.Decimal
