import SheetScript.Table.Frame

/-!
# Aggregations

  One value for many cells.  Missing cells do not count; whether there is a value
  without any cell depends on the aggregation: counts and sums are zero then, and
  everything else is missing.
-/

namespace SheetScript

/-- How cells are aggregated. -/
inductive Aggregation where
  | count
  | countUnique
  | sum
  | mean
  | median
  | least
  | greatest
  | deviation
  deriving DecidableEq, Repr, Inhabited

namespace Aggregation

/-- Every aggregation. -/
def all : List Aggregation :=
  [.count, .countUnique, .sum, .mean, .median, .least, .greatest, .deviation]

/-- The name of an aggregation in parameters. -/
def name : Aggregation → String
  | .count => "count"
  | .countUnique => "count unique"
  | .sum => "sum"
  | .mean => "mean"
  | .median => "median"
  | .least => "min"
  | .greatest => "max"
  | .deviation => "std"

/-- The name of an aggregation in the script and in headers. -/
def code : Aggregation → String
  | .countUnique => "nunique"
  | a => a.name

/-- The type of means, medians and deviations. -/
def averageType (t : DType) : DType :=
  if t = .float32 then .float32 else if t.isNumeric || t = .bool then .float64 else t

/-- The type of sums. -/
def sumType : DType → DType
  | .uint8 => .int64
  | .bool => .uint32
  | t => t

/-- The type of the aggregation of a column. -/
def resultType (a : Aggregation) (t : DType) : DType :=
  match a with
  | .count | .countUnique => .uint32
  | .sum => sumType t
  | .mean | .median | .deviation => averageType t
  | .least | .greatest => t

/-- The different values of some cells, in the order of their first occurrences. -/
def distinct (cells : List Cell) : List Cell :=
  cells.foldl (fun seen c => if seen.any fun d => Cell.same d c then seen else seen ++ [c]) []

/-- The sum of cells of a type; texts, dates and moments have none. -/
def sumOf (t : DType) (cells : List Cell) : Cell :=
  if t = .text || t = .date || t = .datetime || t = .null then .missing
  else if t.isFloat then
    .float (cells.foldl
      (fun acc c => match c with
        | .float x => let y := acc + x; if t = .float32 then Decimal.single y else y
        | _ => acc) 0)
  else
    .int ((sumType t).wrap (cells.foldl
      (fun acc c => match c with
        | .int n => acc + n
        | .bool b => acc + (if b then 1 else 0)
        | _ => acc) 0))

/-- The value of a mean, median or deviation for a column type: a moment or a
  duration if the cells are such. -/
def averageCell (t : DType) (x : Float) : Cell :=
  if t.isNumeric || t = .bool then
    .float (if t = .float32 then Decimal.single x else x)
  else if t.isTemporal then Cell.ofInt? t (Decimal.wholePart? x)
  else .missing

/-- The numbers of cells of a type that has numbers. -/
def numbers (t : DType) (cells : List Cell) : List Float :=
  if t = .text then [] else cells.filterMap Cell.toFloat?

/-- The arithmetic mean. -/
def mean? (xs : List Float) : Option Float :=
  if xs.isEmpty then none else some (xs.foldl (· + ·) 0 / Float.ofNat xs.length)

/-- The middle of the numbers in order, or what lies halfway between the two in
  the middle. -/
def median? (xs : List Float) : Option Float :=
  let sorted := xs.mergeSort fun x y => compareFloat x y != .gt
  let n := sorted.length
  match sorted[(n - 1) / 2]?, sorted[n / 2]? with
  | some a, some b => some (if a == b then a else a + 0.5 * (b - a))
  | _, _ => none

/-- A running mean with the sum of squared distances from it. -/
structure Spread where
  count : Nat := 0
  mean : Float := 0
  squares : Float := 0
  deriving Repr

/-- The spread with one more number. -/
def Spread.add (s : Spread) (x : Float) : Spread :=
  let count := s.count + 1
  let distance := x - s.mean
  let mean := s.mean + distance / Float.ofNat count
  ⟨count, mean, s.squares + (x - mean) * distance⟩

/-- The sample deviation; it needs two numbers. -/
def deviation? (xs : List Float) : Option Float :=
  let s := xs.foldl Spread.add {}
  if s.count ≤ 1 then none else some (s.squares / Float.ofNat (s.count - 1)).sqrt

/-- The first of two cells in an order; a NaN gives way to any number. -/
def pick (descending : Bool) (a b : Cell) : Cell :=
  match a, b with
  | .float x, .float y =>
    if x.isNaN then b else if y.isNaN then a
    else if (if descending then x < y else y < x) then b else a
  | a, b =>
    let r := Cell.compareValue a b
    if r == (if descending then .lt else .gt) then b else a

/-- The least or greatest cell. -/
def extreme (descending : Bool) : List Cell → Cell
  | [] => .missing
  | c :: rest => rest.foldl (pick descending) c

/-- The aggregation of cells of a type. -/
def of (a : Aggregation) (t : DType) (cells : List Cell) : Cell :=
  let present := cells.filter fun c => !c.isMissing
  let average (x? : Option Float) := (x?.map (averageCell t)).getD .missing
  match a with
  | .count => .int present.length
  | .countUnique => .int (distinct present).length
  | .sum => sumOf t present
  | .mean => average (mean? (numbers t present))
  | .median => average (median? (numbers t present))
  | .least => extreme false present
  | .greatest => extreme true present
  | .deviation => average (deviation? (numbers t present))

end Aggregation

/-!
## Groups

  Rows with the same key form a group.  Groups are put in the order of their
  keys, and a group keeps its rows in their order.
-/

/-- Rows with the same key. -/
structure Group where
  key : List Cell
  rows : List Nat
  deriving DecidableEq, Repr, Inhabited

namespace Group

/-- The groups with one more row. -/
def place (key : List Cell) (row : Nat) : List Group → List Group
  | [] => [⟨key, [row]⟩]
  | g :: rest =>
    if Cell.sameAll g.key key then { g with rows := g.rows ++ [row] } :: rest
    else g :: place key row rest

/-- The groups of some rows, in the order of their first rows. -/
def collect (rows : List (List Cell × Nat)) : List Group :=
  rows.foldl (fun groups r => place r.1 r.2 groups) []

/-- The groups of some rows in the order of their keys, missing cells first. -/
def sorted (rows : List (List Cell × Nat)) : List Group :=
  (collect rows).mergeSort fun a b => Cell.compareKeys false .first a.key b.key != .gt

end Group

end SheetScript
