import SheetScript.Table.Frame

/-!
# Joins

  Two tables are joined by keys: each row of one is put beside its partners, the
  rows of the other whose key holds the same values.  A key with a missing cell
  has no partner.

  One of the tables leads: its rows come in their order, each followed by its
  partners in theirs.  Where neither side is kept for itself, the longer table
  leads, and the right one if both are of one length.
-/

namespace SheetScript.Join

/-- The key of a row. -/
abbrev Key := List Cell

/-- A row of the left table beside one of the right; either may stand alone. -/
structure RowPair where
  left : Option Nat
  right : Option Nat
  deriving DecidableEq, Repr

/-- The pair with its sides exchanged. -/
def RowPair.swap (p : RowPair) : RowPair := ⟨p.right, p.left⟩

/-- Whether both sides are there. -/
def RowPair.isFull (p : RowPair) : Bool := p.left.isSome && p.right.isSome

/-- Whether two keys agree. -/
def agree (a b : Key) : Bool := (a.all fun c => !c.isMissing) && Cell.sameAll a b

/-- The rows whose key agrees with a key. -/
def partners (keys : List Key) (key : Key) : List Nat :=
  keys.zipIdx.filterMap fun e => if agree key e.1 then some e.2 else none

/-- The rows whose key agrees with none of the others. -/
def lonely (keys others : List Key) : List Nat :=
  keys.zipIdx.filterMap fun e => if (partners others e.1).isEmpty then some e.2 else none

/-- Every left row with its partners, or alone. -/
def left (ls rs : List Key) : List RowPair :=
  ls.zipIdx.flatMap fun e =>
    match partners rs e.1 with
    | [] => [⟨some e.2, none⟩]
    | matched => matched.map fun j => ⟨some e.2, some j⟩

/-- Every right row with its partners, or alone. -/
def right (ls rs : List Key) : List RowPair := (left rs ls).map RowPair.swap

/-- Whether the left table leads. -/
def leftLeads (ls rs : List Key) : Bool := rs.length < ls.length

/-- The rows that have partners, with them. -/
def inner (ls rs : List Key) : List RowPair :=
  (if leftLeads ls rs then left ls rs else right ls rs).filter RowPair.isFull

/-- All rows of both tables: those of the leading one with their partners or
  alone, then the lonely ones of the other. -/
def full (ls rs : List Key) : List RowPair :=
  if leftLeads ls rs then left ls rs ++ (lonely rs ls).map fun j => ⟨none, some j⟩
  else right ls rs ++ (lonely ls rs).map fun i => ⟨some i, none⟩

/-- The first row of every key. -/
def firstRows (keys : List Key) : List Nat :=
  (keys.zipIdx.foldl
    (fun (seen : List (Key × Nat)) e =>
      if seen.any fun s => Cell.sameAll s.1 e.1 then seen else seen ++ [e]) []).map Prod.snd

/-- The cells of a column in some rows; where there is no row the cell is
  missing. -/
def column (header : Header) (c : Column) (rows : List (Option Nat)) : Column :=
  let cells := c.cells.toArray
  ⟨header, c.dtype, rows.map fun row => (row.bind fun i => cells[i]?).getD .missing⟩

end SheetScript.Join
