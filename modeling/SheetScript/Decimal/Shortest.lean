/-!
# Shortest decimals

  A binary floating-point number stands for the interval of reals that round to
  it.  Its shortest decimal is the one of fewest digits inside that interval,
  and of those the nearest to the number itself.

  Everything is exact arithmetic on natural numbers: for one digit, two digits
  and so on, the two neighbours of the number on that decimal grid are tested.
-/

namespace SheetScript

/-- The number `± digits · 10 ^ exponent`. -/
structure Decimal where
  negative : Bool
  digits : Nat
  exponent : Int
  deriving DecidableEq, Repr

namespace Decimal

/-- A positive binary number `mantissa · 2 ^ exponent`.  Below it the next
  number is half as far away as above when `narrowBelow` holds. -/
structure Binary where
  mantissa : Nat
  exponent : Int
  narrowBelow : Bool
  deriving DecidableEq, Repr

/-- `base ^ n` for a positive `n`, and one otherwise. -/
def powerPart (base : Nat) (n : Int) : Nat := Nat.pow base n.toNat

/-- Numerator and denominator of `b / 10 ^ k`. -/
def Binary.ratio (b : Binary) (k : Int) : Nat × Nat :=
  (b.mantissa * powerPart 2 b.exponent * powerPart 10 (-k),
   powerPart 2 (-b.exponent) * powerPart 10 k)

/-- Whether `c · 10 ^ k` rounds to `b`: it lies within half the distance to the
  next number, the ends included when the mantissa is even. -/
def Binary.rounds (b : Binary) (c : Nat) (k : Int) : Bool :=
  let lower := 4 * b.mantissa - (if b.narrowBelow then 1 else 2)
  let upper := 4 * b.mantissa + 2
  let scale := powerPart 2 b.exponent * powerPart 10 (-k)
  let x := 4 * c * powerPart 10 k * powerPart 2 (-b.exponent)
  if b.mantissa % 2 == 0 then lower * scale ≤ x && x ≤ upper * scale
  else lower * scale < x && x < upper * scale

/-- The number of digits before the point: `10 ^ (e - 1) ≤ b < 10 ^ e`. -/
def Binary.magnitude (b : Binary) : Int :=
  let guess : Int := ((Nat.log2 b.mantissa : Int) + b.exponent) * 30103 / 100000
  let below (e : Int) : Bool := let r := b.ratio e; r.1 < r.2
  if below guess then guess else if below (guess + 1) then guess + 1 else guess + 2

/-- The better of the two neighbours of `b` on the grid of multiples of
  `10 ^ k`, if one of them rounds to `b`. -/
def Binary.onGrid (b : Binary) (k : Int) : Option Nat :=
  let r := b.ratio k
  let low := r.1 / r.2
  let rest := r.1 % r.2
  match b.rounds low k && low != 0, b.rounds (low + 1) k with
  | true, true => some (if 2 * rest ≤ r.2 then low else low + 1)
  | true, false => some low
  | false, true => some (low + 1)
  | false, false => none

/-- Moves trailing zeros of the digits into the exponent; `fuel` bounds their
  number. -/
def stripZeros : Nat → Nat → Int → Nat × Int
  | 0, d, e => (d, e)
  | fuel + 1, d, e => if d % 10 == 0 && d != 0 then stripZeros fuel (d / 10) (e + 1) else (d, e)

/-- The shortest digits of `b` and their exponent. -/
def Binary.shortest (b : Binary) : Nat × Int :=
  let top := b.magnitude
  match (List.range 20).findSome? (fun n =>
      let k := top - (n + 1 : Nat)
      (b.onGrid k).map fun c => (c, k)) with
  | some (c, k) => stripZeros 20 c k
  | none => (b.mantissa, b.exponent)

/-- A floating-point number in the sense of its format. -/
inductive Reading where
  | nan
  | infinite (negative : Bool)
  | zero (negative : Bool)
  | finite (negative : Bool) (value : Binary)
  deriving DecidableEq, Repr

/-- Reads sign, exponent and fraction of a format with `fractionBits` bits of
  fraction and `exponentBits` of exponent. -/
def readBits (fractionBits exponentBits : Nat) (bits : Nat) : Reading :=
  let fractions := Nat.pow 2 fractionBits
  let exponents := Nat.pow 2 exponentBits
  let fraction := bits % fractions
  let exponent := bits / fractions % exponents
  let negative := bits / (fractions * exponents) % 2 == 1
  let least : Int := 2 - (exponents / 2 : Nat) - fractionBits
  if exponent == exponents - 1 then
    if fraction == 0 then .infinite negative else .nan
  else if exponent == 0 then
    if fraction == 0 then .zero negative else .finite negative ⟨fraction, least, false⟩
  else
    .finite negative
      ⟨fractions + fraction, least + (exponent - 1 : Nat), fraction == 0 && 1 < exponent⟩

/-- A number of double precision. -/
def ofFloat (x : Float) : Reading := readBits 52 11 x.toBits.toNat

/-- The whole part of a finite number. -/
def wholePart? (x : Float) : Option Int :=
  match ofFloat x with
  | .zero _ => some 0
  | .finite negative b =>
    let n := b.mantissa * powerPart 2 b.exponent / powerPart 2 (-b.exponent)
    some (if negative then -(n : Int) else n)
  | _ => none

/-- Whether a number is finite and has no fraction. -/
def isWhole (x : Float) : Bool :=
  match ofFloat x with
  | .zero _ => true
  | .finite _ b => b.mantissa * powerPart 2 b.exponent % powerPart 2 (-b.exponent) == 0
  | _ => false

open Float.Model in
/-- The nearest number of single precision. -/
def single (x : Float) : Float :=
  match x.toModel.unpack with
  | .finite s m e _ =>
    let bits := UnpackedFloat.pack .binary32 (UnpackedFloat.round .binary32 s m e)
    match UnpackedFloat.unpack .binary32 bits with
    | .finite s m e _ => .ofModel (.pack (UnpackedFloat.round .binary64 s m e))
    | other => .ofModel (.pack other)
  | _ => x

end Decimal

end SheetScript
