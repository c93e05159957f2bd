import SheetScript.Fault
import SheetScript.Formula.Token
import SheetScript.Table.Cell

/-!
# Operands

  What the parts of a formula yield: a series with a cell for every row, or a
  constant that stands for as many rows as needed.  A whole number that is
  written in a formula has no type of its own: it takes one that suits the
  operand beside it, and constants made of whole numbers alone stay exact.

  Whole numbers wrap around at the size of their type.  Missing cells pass
  through every operation but the filling of `SUM` and the choice of `IF`.
-/

namespace SheetScript

/-- The value of a part of a formula. -/
inductive Operand where
  /-- A whole number whose type is open. -/
  | whole (n : Int)
  | constant (t : DType) (c : Cell)
  | series (t : DType) (cells : List Cell)
  deriving DecidableEq, Repr, Inhabited

/-! ### Common types -/

namespace DType

/-- The type of a whole number that stands alone; one beyond 64 bits has no value. -/
def ofWhole (n : Int) : DType :=
  if DType.int32.fits n then .int32 else if DType.int64.fits n then .int64 else .null

/-- The number type that holds the values of both. -/
def numericJoin : DType → DType → DType
  | .float64, _ | _, .float64 => .float64
  | .float32, t => if t = .float32 || t = .uint8 then .float32 else .float64
  | t, .float32 => if t = .uint8 then .float32 else .float64
  | .int64, _ | _, .int64 => .int64
  | .int32, .uint32 | .uint32, .int32 => .int64
  | .int32, _ | _, .int32 => .int32
  | .uint32, _ | _, .uint32 => .uint32
  | _, _ => .uint8

/-- The type that values of both types can be given, if there is one. -/
def join (s t : DType) : Option DType :=
  if s = t then some s
  else if s = .null then some t
  else if t = .null then some s
  else if s = .text || t = .text then some .text
  else if s.isNumeric && t.isNumeric then some (numericJoin s t)
  else if s = .bool && t.isNumeric then some t
  else if t = .bool && s.isNumeric then some s
  else
    match s, t with
    | .date, .datetime | .datetime, .date => some .datetime
    | .date, .int32 | .int32, .date => some .int32
    | .date, n | n, .date => if n.isFloat then some n else if n.isInteger then some .int64 else none
    | .datetime, n | n, .datetime | .duration, n | n, .duration =>
      if n.isFloat then some .float64 else if n.isInteger then some .int64 else none
    | _, _ => none

/-- The type of a whole number beside an operand of type `t`: that type when the
  number fits it. -/
def beside (t : DType) (n : Int) : DType :=
  if t.isInteger then (if t.fits n then t else .ofWhole n)
  else if t.isFloat then t
  else .ofWhole n

end DType

namespace Operand

/-- A whole number as a constant of a type. -/
def ofTyped (t : DType) (n : Int) : Operand :=
  .constant t (if t = .null then .missing else Cell.cast .int64 t (.int n))

/-- The operand with a type: a whole number that stands alone gets its own. -/
def settled : Operand → Operand
  | .whole n => ofTyped (.ofWhole n) n
  | x => x

/-- The type of an operand. -/
def dtype : Operand → DType
  | .whole n => .ofWhole n
  | .constant t _ => t
  | .series t _ => t

/-- The operand with a type that suits the operand beside it. -/
def besideType (t : DType) : Operand → Operand
  | .whole n => ofTyped (t.beside n) n
  | x => x

/-- Both operands with types. -/
def settledPair (a b : Operand) : Operand × Operand :=
  match a, b with
  | .whole _, .whole _ => (a.settled, b.settled)
  | .whole _, _ => (a.besideType b.dtype, b)
  | _, _ => (a, b.besideType a.dtype)

/-- A function of every cell; the result has type `t`. -/
def mapCells (t : DType) (f : Cell → Cell) : Operand → Operand
  | .whole n => .constant t (f (.int n))
  | .constant _ c => .constant t (f c)
  | .series _ cells => .series t (cells.map f)

/-- A function of the cells of two operands, row by row. -/
def zipCells (t : DType) (f : Cell → Cell → Cell) (a b : Operand) : Operand :=
  match a.settled, b.settled with
  | .constant _ c, .constant _ d => .constant t (f c d)
  | .constant _ c, .series _ ds => .series t (ds.map fun d => f c d)
  | .series _ cs, .constant _ d => .series t (cs.map fun c => f c d)
  | .series _ cs, .series _ ds => .series t ((cs.zip ds).map fun p => f p.1 p.2)
  | x, _ => x

/-- The operand converted to another type. -/
def cast (target : DType) (x : Operand) : Operand :=
  if x.dtype = target then x.settled else x.settled.mapCells target (Cell.cast x.dtype target)

/-- The cells of an operand as texts.  A constant truth value counts as a number
  here, and durations have no text. -/
def toText (x : Operand) : Except TableError Operand :=
  match x with
  | .constant .bool (.bool b) => .ok (.constant .text (.text (if b then "1" else "0")))
  | x => if x.dtype = .duration then .error .invalidOperation else .ok (x.cast .text)

/-- A function of two cells that are both there. -/
def lift (f : Cell → Cell → Cell) (a b : Cell) : Cell :=
  if a.isMissing || b.isMissing then .missing else f a b

/-! ### Arithmetic -/

/-- Sums, differences and products of whole numbers. -/
def wholeArithmetic (o : Operator) (m n : Int) : Int :=
  match o with
  | .add => m + n
  | .subtract => m - n
  | _ => m * n

/-- How two operands meet. -/
inductive Meeting where
  /-- Row by row; a column of one row meets a constant in this way. -/
  | rowwise
  /-- The left one is a constant for all rows of the right one. -/
  | constantLeft
  /-- The right one is a constant for all rows of the left one. -/
  | constantRight
  deriving DecidableEq, Repr

/-- The way in which two operands meet. -/
def meeting : Operand → Operand → Meeting
  | .constant .., .series _ cells => if cells.length = 1 then .rowwise else .constantLeft
  | .series _ cells, .constant .. => if cells.length = 1 then .rowwise else .constantRight
  | _, _ => .rowwise

/-- Sums, differences and products of floating-point numbers.  A constant zero
  that is added leaves every row as it is, with its sign, and a constant zero less
  a row is the opposite of the row. -/
def floatArithmetic (m : Meeting) (o : Operator) (x y : Float) : Float :=
  match o with
  | .add =>
    if m = .constantRight && y == 0 then x else if m = .constantLeft && x == 0 then y else x + y
  | .subtract =>
    if m = .constantRight && y == 0 then x else if m = .constantLeft && x == 0 then -y else x - y
  | _ => x * y

/-- The result of an operation on two cells of the type `t`. -/
def cellArithmetic (m : Meeting) (o : Operator) (t : DType) (a b : Cell) : Cell :=
  match a, b with
  | .int m, .int n => .int (t.wrap (wholeArithmetic o m n))
  | .float x, .float y =>
    let z := floatArithmetic m o x y
    .float (if t = .float32 then Decimal.single z else z)
  | .text s, .text u => .text (s ++ u)
  | _, _ => .missing

/-- The type that both sides of an operation are given, and the type of its
  result. -/
def arithmeticTypes (o : Operator) (s t : DType) : Except TableError (DType × DType) :=
  match s, t with
  | .bool, .bool => if o = .add then .ok (.uint32, .uint32) else .error .invalidOperation
  | .date, .date | .datetime, .datetime | .date, .datetime | .datetime, .date =>
    if o = .subtract then .ok (.datetime, .duration) else .error .invalidOperation
  | .datetime, .duration | .duration, .datetime | .date, .duration | .duration, .date =>
    if o = .add || (o = .subtract && t = .duration) then .ok (.datetime, .datetime)
    else .error .invalidOperation
  | .duration, .duration =>
    if o = .multiply then .error .invalidOperation else .ok (.duration, .duration)
  | s, t =>
    if s = .text || t = .text then
      if o = .add && !s.isNumeric && !t.isNumeric then .ok (.text, .text)
      else .error .invalidOperation
    else if s.isTemporal || t.isTemporal then
      if o = .multiply && (s = .duration || t = .duration) then .ok (.int64, .duration)
      else .error .invalidOperation
    else
      match s.join t with
      | some u => .ok (u, u)
      | none => .error .invalidOperation

/-- A sum, a difference or a product. -/
def arithmetic (o : Operator) (a b : Operand) : Except TableError Operand :=
  match a, b with
  | .whole m, .whole n => .ok (.whole (wholeArithmetic o m n))
  | a, b => do
    let (a, b) := settledPair a b
    let (inner, outer) ← arithmeticTypes o a.dtype b.dtype
    if inner = .text then
      let a ← a.toText
      let b ← b.toText
      .ok (zipCells outer (lift (cellArithmetic .rowwise o inner)) a b)
    else
      let sides (x : Operand) := if x.dtype = .duration then x else x.cast inner
      .ok (zipCells outer (lift (cellArithmetic (meeting a b) o inner)) (sides a) (sides b))

/-- The opposite number, which is the difference from zero. -/
def negated (x : Operand) : Except TableError Operand := arithmetic .subtract (.whole 0) x

/-- The operand as floating-point numbers. -/
def toFloats (x : Operand) : Operand := x.cast .float64

/-- A quotient of floating-point numbers.  Rows are divided by a constant by
  multiplying them with its reciprocal. -/
def quotient (a b : Operand) : Operand :=
  let a := a.toFloats
  let b := b.toFloats
  let divide (x y : Float) : Float :=
    if meeting a b = .constantRight then x * (1 / y) else x / y
  zipCells .float64 (lift fun x y => match x, y with
    | .float x, .float y => .float (divide x y)
    | _, _ => .missing) a b

/-- `x` multiplied by itself `n` times more. -/
def timesItself (x : Float) : Nat → Float → Float
  | 0, y => y
  | n + 1, y => timesItself x n (y * x)

/-- A power with an exponent that is the same for every row: small whole
  exponents are multiplied out. -/
def powerBy (e x : Float) : Float :=
  if e == 1 then x
  else if e == 0.5 then x.sqrt
  else if Decimal.isWhole e && 1 < e && e < 10 then timesItself x (e.toUInt64.toNat - 1) x
  else x.pow e

/-- A power of floating-point numbers. -/
def raised (a b : Operand) : Except TableError Operand :=
  if !b.dtype.isNumeric then .error .invalidOperation
  else
    let base := a.toFloats
    let exponent := b.toFloats
    let withExponent (c : Cell) : Operand :=
      match c with
      | .float e => base.mapCells .float64 fun x => match x with
        | .float x => .float (powerBy e x)
        | other => other
      | _ => base.mapCells .float64 fun _ => .missing
    match exponent with
    | .constant _ c => .ok (withExponent c)
    | .series _ [c] => .ok (withExponent c)
    | exponent =>
      .ok (zipCells .float64 (lift fun x y => match x, y with
        | .float x, .float y => .float (x.pow y)
        | _, _ => .missing) base exponent)

/-! ### Comparisons -/

/-- Whether an ordering satisfies a comparison. -/
def holds (o : Operator) (r : Ordering) : Bool :=
  match o with
  | .equal => r == .eq
  | .notEqual => r != .eq
  | .less => r == .lt
  | .greater => r == .gt
  | .lessOrEqual => r != .gt
  | _ => r != .lt

/-- A comparison; texts are compared with texts only. -/
def comparison (o : Operator) (a b : Operand) : Except TableError Operand := do
  let (a, b) := settledPair a b
  let s := a.dtype
  let t := b.dtype
  let mixed (t : DType) := t.isNumeric || t.isTemporal
  if (s = .text && mixed t) || (t = .text && mixed s) then .error .compute
  else
    match s.join t with
    | none => .error .schemaMismatch
    | some u =>
      let (a, b) ← if u = .text then do pure (← a.toText, ← b.toText) else pure (a.cast u, b.cast u)
      .ok (zipCells .bool (lift fun x y => .bool (holds o (Cell.compareValue x y))) a b)

/-! ### Functions -/

/-- The texts of two operands one after the other. -/
def joined (a b : Operand) : Except TableError Operand := do
  let a ← a.toText
  let b ← b.toText
  .ok (zipCells .text (lift (cellArithmetic .rowwise .add .text)) a b)

/-- The operand with zero in place of missing cells. -/
def filled (x : Operand) : Except TableError Operand :=
  match x.settled.dtype.join (x.settled.dtype.beside 0) with
  | none => .error .schemaMismatch
  | some t =>
    let zero := Cell.cast .int64 t (.int 0)
    .ok ((x.cast t).mapCells t fun c => if c.isMissing then zero else c)

/-- The distance from zero. -/
def absolute (x : Operand) : Except TableError Operand :=
  let x := x.settled
  let t := x.dtype
  if t.isNumeric || t = .duration then
    .ok (x.mapCells t fun c => match c with
      | .int n => .int (t.wrap n.natAbs)
      | .float x => .float x.abs
      | other => other)
  else .error .invalidOperation

/-- A number rounded to a number of digits after the point, a half away from
  zero. -/
def roundFloat (digits : Nat) (x : Float) : Float :=
  if digits = 0 then x.round
  else
    let scale := (10 : Float).pow digits.toFloat
    let y := (x * scale).round / scale
    if y.isFinite then y else x

/-- The rounded numbers of an operand. -/
def rounded (digits : Nat) (x : Operand) : Operand :=
  x.toFloats.mapCells .float64 fun c => match c with
    | .float x => .float (roundFloat digits x)
    | other => other

/-- A function of the texts of an operand. -/
def mapText (t : DType) (f : String → Cell) (x : Operand) : Except TableError Operand := do
  let x ← x.toText
  .ok (x.mapCells t fun c => match c with
    | .text s => f s
    | other => other)

/-- The operands with a type in common. -/
def unified (a b : Operand) : Except TableError (DType × Operand × Operand) :=
  let (a, b) := settledPair a b
  match a.dtype.join b.dtype with
  | none => .error .schemaMismatch
  | some u => do
    if u = .text then .ok (u, ← a.toText, ← b.toText) else .ok (u, a.cast u, b.cast u)

/-- Row `i` of an operand. -/
def cellAt (x : Operand) (i : Nat) : Cell :=
  match x.settled with
  | .constant _ c => c
  | .series _ cells => cells[i]?.getD .missing
  | .whole n => .int n

/-- The number of rows of an operand, if it has them. -/
def rowCount? : Operand → Option Nat
  | .series _ cells => some cells.length
  | _ => none

/-- One of two operands in each row: the first where the condition holds, the
  second where it does not or is missing. -/
def chosen (condition a b : Operand) : Except TableError Operand :=
  if condition.dtype ≠ .bool then .error .schemaMismatch
  else do
    let (t, a, b) ← unified a b
    let pick (c x y : Cell) : Cell := if c = .bool true then x else y
    match condition.rowCount?, a.rowCount?, b.rowCount? with
    | none, none, none => .ok (.constant t (pick (condition.cellAt 0) (a.cellAt 0) (b.cellAt 0)))
    | rows, rows', rows'' =>
      let height := (rows <|> rows' <|> rows'').getD 0
      let cells (x : Operand) := match x.settled with
        | .series _ cells => cells
        | y => List.replicate height (y.cellAt 0)
      .ok (.series t ((cells condition).zipWith (fun c p => pick c p.1 p.2) ((cells a).zip (cells b))))

/-- The cells of an operand in a table of the given height. -/
def toCells (height : Nat) (x : Operand) : List Cell :=
  match x.settled with
  | .series _ cells => cells
  | y => List.replicate height (y.cellAt 0)

end Operand

end SheetScript
