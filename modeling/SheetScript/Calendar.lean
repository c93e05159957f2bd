import SheetScript.Decimal.Text
import SheetScript.Text.Character

/-!
# Dates and times

  Dates of the proleptic Gregorian calendar as days since 1970-01-01, and
  moments as a date with a time of day.  A moment is read from a text by trying
  a fixed list of formats in order.
-/

namespace SheetScript

/-- A date by its parts. -/
structure Civil where
  year : Int
  month : Nat
  day : Nat
  deriving DecidableEq, Repr

namespace Civil

/-- Whether a year has a 29th of February. -/
def isLeap (year : Int) : Bool := year % 4 == 0 && (year % 100 != 0 || year % 400 == 0)

/-- The number of days of a month. -/
def daysIn (year : Int) (month : Nat) : Nat :=
  match month with
  | 2 => if isLeap year then 29 else 28
  | 4 | 6 | 9 | 11 => 30
  | _ => 31

/-- Days since 1970-01-01.  The year is counted from March, so that the leap day
  is its last. -/
def toDays (c : Civil) : Int :=
  let y := if c.month ≤ 2 then c.year - 1 else c.year
  let era := y.fdiv 400
  let yearOfEra := y - era * 400
  let shifted : Int := ((c.month + 9) % 12 : Nat)
  let dayOfYear := (153 * shifted + 2) / 5 + c.day - 1
  let dayOfEra := yearOfEra * 365 + yearOfEra / 4 - yearOfEra / 100 + dayOfYear
  era * 146097 + dayOfEra - 719468

/-- The date of a number of days since 1970-01-01. -/
def ofDays (days : Int) : Civil :=
  let z := days + 719468
  let era := z.fdiv 146097
  let dayOfEra := z - era * 146097
  let yearOfEra := (dayOfEra - dayOfEra / 1460 + dayOfEra / 36524 - dayOfEra / 146096) / 365
  let dayOfYear := dayOfEra - (365 * yearOfEra + yearOfEra / 4 - yearOfEra / 100)
  let shifted := (5 * dayOfYear + 2) / 153
  let day := dayOfYear - (153 * shifted + 2) / 5 + 1
  let month := if shifted < 10 then shifted + 3 else shifted - 9
  let year := yearOfEra + era * 400 + (if month ≤ 2 then 1 else 0)
  ⟨year, month.toNat, day.toNat⟩

/-- The years that a date may have. -/
def inRange (c : Civil) : Bool :=
  -262143 ≤ c.year && c.year ≤ 262142 && 1 ≤ c.month && c.month ≤ 12 && 1 ≤ c.day
    && c.day ≤ daysIn c.year c.month

end Civil

/-- A text with zeros in front up to a width. -/
def padded (width n : Nat) : String :=
  let ds := Decimal.digitsOf n
  String.ofList (List.replicate (width - ds.length) '0' ++ ds)

/-- A year has four digits; beyond 0 to 9999 it has a sign too. -/
def yearText (year : Int) : String :=
  if 0 ≤ year && year ≤ 9999 then padded 4 year.toNat
  else (if year < 0 then "-" else "+") ++ padded 4 year.natAbs

/-- The text of a date. -/
def Civil.text (c : Civil) : String :=
  yearText c.year ++ "-" ++ padded 2 c.month ++ "-" ++ padded 2 c.day

/-- A date with a time of day. -/
structure Moment where
  date : Civil
  hour : Nat
  minute : Nat
  /-- `60` in a leap second. -/
  second : Nat
  deriving DecidableEq, Repr

namespace Moment

/-- Microseconds since 1970-01-01. -/
def toMicroseconds (m : Moment) : Int :=
  (m.date.toDays * 86400 + ((m.hour * 3600 + m.minute * 60 + m.second : Nat) : Int)) * 1000000

/-- The text of a moment. -/
def text (m : Moment) : String :=
  m.date.text ++ "T" ++ padded 2 m.hour ++ ":" ++ padded 2 m.minute ++ ":" ++ padded 2 m.second

/-! ### Reading by a format -/

/-- A part of a format. -/
inductive Item where
  | year
  | month
  | day
  | hour
  | minute
  | second
  /-- Any white space, also none. -/
  | space
  | literal (c : Char)
  deriving DecidableEq, Repr

/-- The numbers that were read so far. -/
structure Parts where
  year : Int := 0
  month : Nat := 0
  day : Nat := 0
  hour : Nat := 0
  minute : Nat := 0
  second : Nat := 0
  deriving DecidableEq, Repr

/-- One to `width` digits and the rest. -/
def digits? (width : Nat) (cs : List Char) : Option (Nat × List Char) :=
  let ds := (cs.take width).takeWhile Decimal.isDigit
  if ds.isEmpty then none else some (Decimal.natOfDigits ds, cs.drop ds.length)

/-- A year: up to four digits, or any number of them after a sign. -/
def year? : List Char → Option (Int × List Char)
  | '-' :: rest => (digits? rest.length rest).map fun r => (-(r.1 : Int), r.2)
  | '+' :: rest => (digits? rest.length rest).map fun r => ((r.1 : Int), r.2)
  | cs => (digits? 4 cs).map fun r => ((r.1 : Int), r.2)

/-- A number of up to two digits between two bounds. -/
def bounded? (least greatest : Nat) (cs : List Char) : Option (Nat × List Char) :=
  (digits? 2 cs).filter fun r => least ≤ r.1 && r.1 ≤ greatest

/-- Reads one part; numbers may have white space before them. -/
def Item.read (i : Item) (p : Parts) (cs : List Char) : Option (Parts × List Char) :=
  let trimmed := cs.dropWhile Text.isBlank
  match i with
  | .year => (year? trimmed).map fun r => ({ p with year := r.1 }, r.2)
  | .month => (bounded? 1 12 trimmed).map fun r => ({ p with month := r.1 }, r.2)
  | .day => (bounded? 1 31 trimmed).map fun r => ({ p with day := r.1 }, r.2)
  | .hour => (bounded? 0 23 trimmed).map fun r => ({ p with hour := r.1 }, r.2)
  | .minute => (bounded? 0 59 trimmed).map fun r => ({ p with minute := r.1 }, r.2)
  | .second => (bounded? 0 60 trimmed).map fun r => ({ p with second := r.1 }, r.2)
  | .space => some (p, trimmed)
  | .literal c =>
    match cs with
    | d :: rest => if d == c then some (p, rest) else none
    | [] => none

/-- Reads the parts of a format in order; nothing may be left over. -/
def readItems : List Item → Parts → List Char → Option Parts
  | [], p, cs => if cs.isEmpty then some p else none
  | i :: rest, p, cs => do
    let (p, cs) ← i.read p cs
    readItems rest p cs

/-- The moment that the parts make, if the date exists. -/
def ofParts? (p : Parts) : Option Moment :=
  let date : Civil := ⟨p.year, p.month, p.day⟩
  if date.inRange then some ⟨date, p.hour, p.minute, p.second⟩ else none

/-- Year, month and day with dashes. -/
def isoDate : List Item := [.year, .literal '-', .month, .literal '-', .day]

/-- Month, day and year with slashes. -/
def monthFirstDate : List Item := [.month, .literal '/', .day, .literal '/', .year]

/-- Year, month and day with slashes. -/
def yearFirstDate : List Item := [.year, .literal '/', .month, .literal '/', .day]

/-- Hour, minute and second. -/
def timeOfDay : List Item := [.hour, .literal ':', .minute, .literal ':', .second]

/-- The formats in the order in which they are tried. -/
def formats : List (List Item) :=
  [isoDate ++ .space :: timeOfDay,
   isoDate ++ .literal 'T' :: timeOfDay,
   monthFirstDate ++ .space :: timeOfDay,
   isoDate, monthFirstDate, yearFirstDate]

/-- The moment that a text names; a date alone is its midnight. -/
def parse? (text : String) : Option Moment :=
  formats.findSome? fun items => (readItems items {} text.toList).bind ofParts?

end Moment

end SheetScript
