import SheetScript.Formula.Code
import SheetScript.Formula.Parser
import SheetScript.Table.Operand
import SheetScript.Table.Pattern

/-!
# Evaluating formulas

  The value of a formula over a frame.  It depends only on the columns that the
  formula names and on the height of the frame.
-/

namespace SheetScript.Formula

/-- The value of a function of its arguments' values. -/
def apply (f : Function) (digits : Nat) (args : List Operand) : Except TableError Operand :=
  match f, args with
  | .sum, first :: rest => do
    let start ← first.filled
    rest.foldlM (fun acc x => do Operand.arithmetic .add acc (← x.filled)) start
  | .abs, [x] => x.absolute
  | .round, x :: _ => .ok (x.rounded digits)
  | .upper, [x] => x.mapText .text fun s => .text (Text.toUpper s)
  | .lower, [x] => x.mapText .text fun s => .text (Text.toLower s)
  | .length, [x] => x.mapText .int64 fun s => .int s.length
  | .concat, first :: rest => do
    let start ← first.toText
    rest.foldlM Operand.joined start
  | .choose, [c, a, b] => Operand.chosen c a b
  | _, _ => .error .shape

/-- The value of an operator on two operands. -/
def applyOperator (o : Operator) (a b : Operand) : Except TableError Operand :=
  match o with
  | .add | .subtract | .multiply => Operand.arithmetic o a b
  | .divide => .ok (Operand.quotient a b)
  | .power => Operand.raised a b
  | .join => Operand.joined a b
  | _ => Operand.comparison o a b

/-- A number as an operand: whole ones below `9e15` have an open type. -/
def constantOf (x : Float) : Operand :=
  if Decimal.isWhole x && x.abs < 9.0e15 then .whole ((Decimal.wholePart? x).getD 0)
  else .constant .float64 (.float x)

mutual

/-- The value of a formula over a frame. -/
def eval (f : Frame) : Formula → Except TableError Operand
  | .number x => .ok (constantOf x)
  | .text s => .ok (.constant .text (.text s))
  | .bool b => .ok (.constant .bool (.bool b))
  | .column h =>
    match f.column? h with
    | some c => .ok (.series c.dtype c.cells)
    | none => .error .columnNotFound
  | .negate e => do Operand.negated (← eval f e)
  | .binary o l r => do
    let a ← eval f l
    let b ← eval f r
    applyOperator o a b
  | .call g args => do
    let values ← evalAll f args
    apply g (roundDigits args) values

/-- The values of several formulas. -/
def evalAll (f : Frame) : List Formula → Except TableError (List Operand)
  | [] => .ok []
  | e :: rest => do
    let x ← eval f e
    let xs ← evalAll f rest
    .ok (x :: xs)

end

/-- The truth value of a condition that compares two constants of one kind, or is
  one. -/
def constantTruth? : Formula → Option Bool
  | .bool b => some b
  | .binary o (.number x) (.number y) =>
    if o ∉ Level.comparison.operators then none
    else if Decimal.isWhole x = Decimal.isWhole y then
      some (Operand.holds o (Cell.compareValue (.float x) (.float y)))
    else none
  | _ => none

/-- The branch that a formula selects if it is a choice by such a condition; the
  other branch does not count for its type. -/
def selected? : Formula → Option Formula
  | .call .choose [c, a, b] => (constantTruth? c).map fun holds => if holds then a else b
  | _ => none

/-- The value of a whole formula over a frame. -/
def evalWhole (f : Frame) (e : Formula) : Except TableError Operand := do
  let x ← eval f e
  match selected? e with
  | some branch => eval f branch
  | none => pure x

/-- The column of a formula under a header.  A constant fills the height of the
  frame; a frame without columns counts as one row. -/
def evalColumn (f : Frame) (header : Header) (e : Formula) : Except Fault Column :=
  match evalWhole f e with
  | .error complaint => .error (.ofTable complaint)
  | .ok x =>
    let height := if f.columns.isEmpty then 1 else f.height
    .ok ⟨header, x.settled.dtype, x.toCells height⟩

/-! ### Names that stand for several columns -/

mutual

/-- The formula with every column replaced. -/
def withNames (r : Header → Header) : Formula → Formula
  | .column h => .column (r h)
  | .negate e => .negate (withNames r e)
  | .binary o l t => .binary o (withNames r l) (withNames r t)
  | .call g args => .call g (allWithNames r args)
  | e => e

/-- The formulas with every column replaced. -/
def allWithNames (r : Header → Header) : List Formula → List Formula
  | [] => []
  | e :: rest => withNames r e :: allWithNames r rest

end

/-- What a formula becomes for each reading of its names. -/
def variants (f : Frame) (e : Formula) : Except Fault (List Formula) := do
  pure ((← f.readings e.columns).map fun r => e.withNames r)

/-- Texts one after the other; there has to be one. -/
def joinAll : List Formula → Except Fault Formula
  | [] => .error (.ofTable .invalidOperation)
  | [l, r] => .ok (.binary .join l r)
  | items => .ok (.call .concat items)

mutual

/-- The formula with the variants of its texts that are joined in their places, each of which
  has names of its own. -/
def spread (f : Frame) : Formula → Except Fault Formula
  | .negate e => do pure (.negate (← spread f e))
  | .binary o l r => do
    let l ← spread f l
    let r ← spread f r
    if o = .join then joinAll ((← variants f l) ++ (← variants f r))
    else pure (.binary o l r)
  | .call g args => do
    let args ← spreadAll f args
    if g = .concat then do
      let items := (← args.mapM (variants f)).flatten
      if items.isEmpty then throw (.ofTable .invalidOperation) else pure (.call .concat items)
    else pure (.call g args)
  | e => pure e

/-- The formulas with the variants of their texts that are joined in their places. -/
def spreadAll (f : Frame) : List Formula → Except Fault (List Formula)
  | [] => pure []
  | e :: rest => do
    let e ← spread f e
    let rest ← spreadAll f rest
    pure (e :: rest)

end

/-- The columns of a formula under a header, one for each reading of its names. -/
def evalColumns (f : Frame) (header : Header) (e : Formula) : Except Fault (List Column) := do
  (← variants f (← spread f e)).mapM (evalColumn f header)

end SheetScript.Formula
