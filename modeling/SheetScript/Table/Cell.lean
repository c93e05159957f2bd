import SheetScript.Calendar
import SheetScript.Text.Case

/-!
# Cells

  The types of columns and the values of cells, with the conversions between
  them.  A conversion that is not possible for a value leaves the cell missing.
-/

namespace SheetScript

/-- The type of a column. -/
inductive DType where
  | int64
  | int32
  | uint8
  | uint32
  | float64
  | float32
  | bool
  | text
  /-- Days since 1970-01-01. -/
  | date
  /-- Microseconds since 1970-01-01. -/
  | datetime
  /-- Microseconds. -/
  | duration
  /-- Every cell is missing. -/
  | null
  deriving DecidableEq, Repr, Inhabited

namespace DType

/-- The name of a type. -/
def name : DType → String
  | .int64 => "i64"
  | .int32 => "i32"
  | .uint8 => "u8"
  | .uint32 => "u32"
  | .float64 => "f64"
  | .float32 => "f32"
  | .bool => "bool"
  | .text => "str"
  | .date => "date"
  | .datetime => "datetime[μs]"
  | .duration => "duration[μs]"
  | .null => "null"

/-- Whether the values are whole numbers. -/
def isInteger : DType → Bool
  | .int64 | .int32 | .uint8 | .uint32 => true
  | _ => false

/-- Whether the values are floating-point numbers. -/
def isFloat : DType → Bool
  | .float64 | .float32 => true
  | _ => false

/-- Whether the values are numbers. -/
def isNumeric (t : DType) : Bool := t.isInteger || t.isFloat

/-- Whether the values are dates, moments or durations. -/
def isTemporal : DType → Bool
  | .date | .datetime | .duration => true
  | _ => false

/-- Whether a whole number is a value of the type. -/
def fits (t : DType) (n : Int) : Bool :=
  match t with
  | .int32 | .date => -0x80000000 ≤ n && n < 0x80000000
  | .uint8 => 0 ≤ n && n < 0x100
  | .uint32 => 0 ≤ n && n < 0x100000000
  | _ => -0x8000000000000000 ≤ n && n < 0x8000000000000000

/-- The value of the type that equals `n` modulo the size of its words. -/
def wrap (t : DType) (n : Int) : Int :=
  match t with
  | .int32 | .date => n.bmod 0x100000000
  | .uint8 => n % 0x100
  | .uint32 => n % 0x100000000
  | _ => n.bmod 0x10000000000000000

end DType

/-- The value of a cell. -/
inductive Cell where
  | missing
  | bool (b : Bool)
  /-- A whole number, or the count of days or microseconds of a date, a moment
  or a duration. -/
  | int (n : Int)
  | float (x : Float)
  | text (s : String)
  deriving DecidableEq, Repr, Inhabited

namespace Cell

/-- Whether there is no value. -/
def isMissing : Cell → Bool
  | .missing => true
  | _ => false

/-- A function of the value; a missing cell stays missing. -/
def map (f : Cell → Cell) : Cell → Cell
  | .missing => .missing
  | c => f c

/-- The number that a cell stands for. -/
def toFloat? : Cell → Option Float
  | .bool b => some (if b then 1 else 0)
  | .int n => some (Float.ofInt n)
  | .float x => some x
  | .text s => Decimal.float? s
  | .missing => none

/-- A cell of a number, or a missing one. -/
def ofFloat? : Option Float → Cell
  | some x => .float x
  | none => .missing

/-- A cell of a whole number that fits the type, or a missing one. -/
def ofInt? (t : DType) : Option Int → Cell
  | some n => if t.fits n then .int n else .missing
  | none => .missing

/-- Microseconds of a day. -/
def dayLength : Int := 86400000000

/-- The text of a moment: a date, a blank and a time of day with microseconds. -/
def momentText (us : Int) : String :=
  let day := us.fdiv dayLength
  let rest := (us - day * dayLength).toNat
  (Civil.ofDays day).text ++ " " ++ padded 2 (rest / 3600000000) ++ ":"
    ++ padded 2 (rest / 60000000 % 60) ++ ":" ++ padded 2 (rest / 1000000 % 60) ++ "."
    ++ padded 6 (rest % 1000000)

/-- The text of a cell of a type; durations have none. -/
def toText (t : DType) : Cell → Cell
  | .missing => .missing
  | .bool b => .text (if b then "true" else "false")
  | .int n =>
    match t with
    | .date => .text (Civil.ofDays n).text
    | .datetime => .text (momentText n)
    | _ => .text (Decimal.intText n)
  | .float x => .text (Decimal.cellText x)
  | .text s => .text s

/-- The text of a cell of a type, if it has one. -/
def text? (t : DType) (c : Cell) : Option String :=
  match c.toText t with
  | .text s => some s
  | _ => none

/-- The moment that a text in ISO form names, up to the first part that cannot be
  read.  Hours and minutes are needed; what follows the seconds is ignored, but
  for their fraction. -/
def isoMoment? (s : String) : Option Int := do
  let readDate (items : List Moment.Item) (start : Moment.Parts × List Char) :=
    items.foldlM (fun st i => i.read st.1 st.2) start
  let (p, rest) ← readDate
    (Moment.isoDate ++ [.literal 'T', .hour, .literal ':', .minute]) ({}, s.toList)
  let date : Civil := ⟨p.year, p.month, p.day⟩
  if !date.inRange then none
  let (second, rest) : Nat × List Char :=
    match readDate [.literal ':', .second] (p, rest) with
    | some (q, rest) => (q.second, rest)
    | none => (0, [])
  let fraction : Nat :=
    match rest with
    | '.' :: ds =>
      let digits := (ds.takeWhile Decimal.isDigit).take 9
      Decimal.natOfDigits (digits ++ List.replicate (9 - digits.length) '0') / 1000
    | _ => 0
  pure ((Moment.toMicroseconds ⟨date, p.hour, p.minute, second⟩) + fraction)

/-- The cell of type `source` as one of type `target`. -/
def cast (source target : DType) (c : Cell) : Cell :=
  match target with
  | .text => c.toText source
  | .float64 => ofFloat? c.toFloat?
  | .float32 => ofFloat? (c.toFloat?.map Decimal.single)
  | .bool =>
    match c with
    | .bool b => .bool b
    | .int n => .bool (n != 0)
    | .float x => .bool (x != 0)
    | _ => .missing
  | .datetime =>
    match source, c with
    | .date, .int n => .int (DType.int64.wrap (n * dayLength))
    | .text, .text s => ofInt? .datetime (isoMoment? s)
    | _, .float x => ofInt? .datetime (Decimal.wholePart? x)
    | _, .int n => .int n
    | _, .bool b => .int (if b then 1 else 0)
    | _, _ => .missing
  | .date =>
    match source, c with
    | .datetime, .int n => .int (n.fdiv dayLength)
    | _, .int n => ofInt? .date (some n)
    | _, _ => .missing
  | .null => .missing
  | whole =>
    match c with
    | .bool b => .int (if b then 1 else 0)
    | .int n => ofInt? whole (some n)
    | .float x => ofInt? whole (Decimal.wholePart? x)
    | .text s => ofInt? whole (Decimal.int? s.toList)
    | .missing => .missing

end Cell

/-!
## The order of cells

  Within a type cells are ordered: numbers by value, with every NaN equal to
  every other and above all numbers; texts by code points; `false` before
  `true`.  Missing cells are placed apart.  Sorting is stable.
-/

/-- The order of floating-point numbers. -/
def compareFloat (x y : Float) : Ordering :=
  if x.isNaN then (if y.isNaN then .eq else .gt)
  else if y.isNaN then .lt
  else if x < y then .lt
  else if y < x then .gt
  else .eq

namespace Cell

/-- The order of two values of one type. -/
def compareValue : Cell → Cell → Ordering
  | .bool a, .bool b => compare a.toNat b.toNat
  | .int m, .int n => compare m n
  | .float x, .float y => compareFloat x y
  | .text s, .text t => if s < t then .lt else if t < s then .gt else .eq
  | _, _ => .eq

/-- Whether two cells hold the same value; missing cells do so too. -/
def same : Cell → Cell → Bool
  | .missing, .missing => true
  | .missing, _ => false
  | _, .missing => false
  | a, b => compareValue a b == .eq

/-- Whether two lists of cells hold the same values. -/
def sameAll (as bs : List Cell) : Bool :=
  as.length == bs.length && (as.zip bs).all fun p => same p.1 p.2

/-- Where missing cells go when sorting. -/
inductive MissingPlace where
  | first
  | last
  deriving DecidableEq, Repr

/-- The order of two cells when sorting. -/
def compareWith (descending : Bool) (place : MissingPlace) (a b : Cell) : Ordering :=
  match a.isMissing, b.isMissing with
  | true, true => .eq
  | true, false => if place = .first then .lt else .gt
  | false, true => if place = .first then .gt else .lt
  | false, false => if descending then compareValue b a else compareValue a b

/-- The order of two rows by their keys, the first key counting most. -/
def compareKeys (descending : Bool) (place : MissingPlace) : List Cell → List Cell → Ordering
  | a :: as, b :: bs => (compareWith descending place a b).then (compareKeys descending place as bs)
  | _, _ => .eq

end Cell

/-- Row numbers in the order of the rows' keys; equal keys keep their order. -/
def sortedRows (descending : Bool) (place : Cell.MissingPlace) (keys : List (List Cell)) :
    List Nat :=
  ((keys.zipIdx).mergeSort fun a b => Cell.compareKeys descending place a.1 b.1 != .gt).map
    Prod.snd

end SheetScript
