import SheetScript.Decimal.Text
import SheetScript.Json.Value

/-!
# Numbers in JSON texts

  A number without point and exponent is whole while it fits a word of 64 bits.
  Any other number is read as a significand of at most 64 bits, the digits after
  it being dropped, which one multiplication or division by a power of ten then
  scales.  A number whose magnitude is too large is refused.
-/

namespace SheetScript.Json

/-- The largest significand. -/
def significandLimit : Nat := 0xFFFFFFFFFFFFFFFF

/-- A power of ten. -/
def powerOfTen (n : Nat) : Float := Decimal.toFloat 1 n

/-- `f · 10 ^ exponent` by single steps of at most 308 places, refused when the
  number grows too large.  `fuel` bounds the steps; three suffice, as two already
  take the largest significand to zero. -/
def scaled : Nat → Float → Int → Option Float
  | 0, f, _ => some f
  | fuel + 1, f, exponent =>
    if exponent.natAbs ≤ 308 then
      if 0 ≤ exponent then
        let g := f * powerOfTen exponent.natAbs
        if g.isInf then none else some g
      else some (f / powerOfTen exponent.natAbs)
    else if f == 0 then some f
    else if 0 ≤ exponent then none
    else scaled fuel (f / powerOfTen 308) (exponent + 308)

/-- The number with this significand, exponent and sign. -/
def assemble (negative : Bool) (significand : Nat) (exponent : Int) : Option Json :=
  (scaled 4 (Float.ofNat significand) exponent).map fun f =>
    .float (if negative then -f else f)

/-- Extends a significand by digits while it fits; the digits that were taken
  and those that were dropped are counted. -/
def extend (significand : Nat) (taken : Nat) : List Char → Nat × Nat × Nat
  | [] => (significand, taken, 0)
  | c :: rest =>
    let next := 10 * significand + Decimal.digitValue c
    if significandLimit < next then (significand, taken, rest.length + 1)
    else extend next (taken + 1) rest

/-- An exponent of any length.  One beyond the range of a word of 32 bits makes
  the number zero or refuses it. -/
def withExponent (negative : Bool) (significand : Nat) (start : Int) (minus : Bool)
    (digits : List Char) : Option Json :=
  let e := Decimal.natOfDigits digits
  if 0x7FFFFFFF < e then
    if significand != 0 && !minus then none
    else some (.float (if negative then -0.0 else 0.0))
  else
    assemble negative significand (if minus then start - e else start + e)

/-- Splits an exponent part off: its sign and digits, and the rest. -/
def exponentPart? : List Char → Option (Option (Bool × List Char) × List Char)
  | c :: rest =>
    if c == 'e' || c == 'E' then
      let (minus, rest) := match rest with
        | '-' :: r => (true, r)
        | '+' :: r => (false, r)
        | r => (false, r)
      let digits := rest.takeWhile Decimal.isDigit
      if digits.isEmpty then none else some (some (minus, digits), rest.dropWhile Decimal.isDigit)
    else some (none, c :: rest)
  | [] => some (none, [])

/-- A number at the head of a text, and the rest. -/
def number? (cs : List Char) : Option (Json × List Char) := do
  let (negative, cs) := match cs with
    | '-' :: rest => (true, rest)
    | other => (false, other)
  let whole := cs.takeWhile Decimal.isDigit
  let rest := cs.dropWhile Decimal.isDigit
  if whole.isEmpty || (whole.head? == some '0' && 1 < whole.length) then none
  let (significand, _, dropped) := extend 0 0 whole
  let (point, fraction, rest) := match rest with
    | '.' :: after => (true, after.takeWhile Decimal.isDigit, after.dropWhile Decimal.isDigit)
    | other => (false, [], other)
  if point && fraction.isEmpty then none
  let (significand, taken, _) := extend significand 0 fraction
  let (exponent, rest) ← exponentPart? rest
  let start : Int := (dropped : Int) - taken
  let j ← match exponent with
    | some (minus, digits) => withExponent negative significand start minus digits
    | none =>
      if point || 0 < dropped then assemble negative significand start
      else if !negative then some (.int significand)
      else if significand == 0 then some (.float (-0.0))
      else if significand ≤ 0x8000000000000000 then some (.int (-(significand : Int)))
      else some (.float (-(Float.ofNat significand)))
  pure (j, rest)

end SheetScript.Json
