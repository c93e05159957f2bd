import SheetScript.State
import SheetScript.Table.Join
import SheetScript.Table.Operand
import SheetScript.Table.Pattern

/-!
# Merging sheets

  Two sheets are merged into a new one along pairs of key columns.  Of a pair
  whose columns have one header, the result holds a single column, with the left
  key or, where it is missing, the right one.  Other headers that both sides use
  get the name of their sheet as a suffix.

  The sides are joined along copies of their keys under names of their own, which
  stand beside the columns until the result is selected by its headers.
-/

namespace SheetScript

/-- Which rows a merge keeps. -/
inductive MergeKind where
  /-- Every left row, with the first right row of its key. -/
  | lookup
  | left
  | right
  | inner
  /-- All rows, sorted by the keys. -/
  | outer
  /-- The left rows without a partner. -/
  | leftOnly
  /-- The right rows without a partner. -/
  | rightOnly
  deriving DecidableEq, Repr, Inhabited

namespace MergeKind

/-- Every kind. -/
def all : List MergeKind := [.lookup, .left, .right, .inner, .outer, .leftOnly, .rightOnly]

/-- The name of a kind. -/
def name : MergeKind → String
  | .lookup => "lookup"
  | .left => "left"
  | .right => "right"
  | .inner => "inner"
  | .outer => "outer"
  | .leftOnly => "unique in left"
  | .rightOnly => "unique in right"

/-- The name of a kind in the script. -/
def code : MergeKind → String
  | .right => "right"
  | .inner => "inner"
  | .outer => "outer"
  | _ => "left"

end MergeKind

/-- Merges two sheets. -/
structure Merge where
  kind : MergeKind
  left : Nat
  right : Nat
  /-- Pairs of a left and a right key column. -/
  keys : List (ColumnId × ColumnId)
  leftColumns : List ColumnId
  rightColumns : List ColumnId
  deriving DecidableEq, Repr, Inhabited

namespace Merge

/-- A column of an input with its header in the result. -/
structure Renaming where
  input : Header
  output : Header
  deriving DecidableEq, Repr, Inhabited

/-- The columns that take part in a merge. -/
structure Plan where
  leftKeys : List Header
  rightKeys : List Header
  left : List Renaming
  /-- Without the keys that share the header of their partner. -/
  right : List Renaming
  deriving DecidableEq, Repr, Inhabited

/-- Selected columns, behind the keys that are not among them. -/
def withKeys (selected keys : List ColumnId) : List ColumnId :=
  (keys.filter fun k => k ∉ selected) ++ selected

/-- The left columns that a merge reads. -/
def leftIds (e : Merge) : List ColumnId := withKeys e.leftColumns (e.keys.map Prod.fst)

/-- The right columns that a merge reads. -/
def rightIds (e : Merge) : List ColumnId := withKeys e.rightColumns (e.keys.map Prod.snd)

/-- The headers of a pair of keys, whose types have to be comparable. -/
def keyPair (one two : Sheet) (pair : ColumnId × ColumnId) : Except Fault (Header × Header) := do
  let s ← one.dtype pair.1
  let t ← two.dtype pair.2
  let a ← one.header pair.1
  let b ← two.header pair.2
  if s = t || (s.isNumeric && t.isNumeric) then pure (a, b)
  else
    throw (.execution .typeMismatch
      ("merge keys " ++ a ++ " and " ++ b ++ " have incompatible types " ++ s.name ++ " and "
        ++ t.name))

/-- The plan of a merge. -/
def plan (e : Merge) (one two : Sheet) : Except Fault Plan := do
  if e.keys.isEmpty then throw (.invalidParams "a merge needs at least one key")
  else
    let keys ← e.keys.mapM (keyPair one two)
    let ls ← one.headersFor e.leftIds
    let rs ← two.headersFor e.rightIds
    let isShared (h : Header) : Bool := (h, h) ∈ keys
    let left := ls.map fun h =>
      ⟨h, if h ∈ rs && !isShared h then h ++ "_" ++ one.name else h⟩
    let right := (rs.filter fun h => !isShared h).map fun h =>
      ⟨h, if h ∈ ls then h ++ "_" ++ two.name else h⟩
    pure ⟨keys.map Prod.fst, keys.map Prod.snd, left, right⟩

/-! ### Rows -/

/-- The rows of a frame without those whose key came before, and their keys. -/
def firstOnly (keys : List Join.Key) : List (Join.Key × Nat) :=
  let rows := Join.firstRows keys
  (keys.zipIdx).filter fun e => e.2 ∈ rows

/-- The rows of the result. -/
def rowPairs (kind : MergeKind) (ls rs : List Join.Key) : List Join.RowPair :=
  match kind with
  | .left => Join.left ls rs
  | .right => Join.right ls rs
  | .inner => Join.inner ls rs
  | .outer => Join.full ls rs
  | .leftOnly => (Join.lonely ls rs).map fun i => ⟨some i, none⟩
  | .rightOnly => (Join.lonely rs ls).map fun j => ⟨none, some j⟩
  | .lookup =>
    let first := firstOnly rs
    (Join.left ls (first.map Prod.fst)).map fun p =>
      ⟨p.left, p.right.bind fun j => (first[j]?).map Prod.snd⟩

/-- Whether keys of two types can be compared: whole numbers are never compared
  with others. -/
def areComparable (s t : DType) : Bool := s = t || s.isInteger == t.isInteger

/-! ### Columns -/

/-- A key column that both sides share: the left cell, or the right one where it
  is missing. -/
def sharedColumn (header : Header) (l r : Column) : Column :=
  let t := (l.dtype.join r.dtype).getD l.dtype
  ⟨header, t, (l.cells.zip r.cells).map fun p =>
    if p.1.isMissing then Cell.cast r.dtype t p.2 else Cell.cast l.dtype t p.1⟩

/-- The name of the copy of a left key. -/
def leftCopy (i : Nat) : Header := "__merge_left_key_" ++ Decimal.natText i

/-- The name of the copy of a right key. -/
def rightCopy (i : Nat) : Header := "__merge_right_key_" ++ Decimal.natText i

/-- A side of a merge: its columns under their new headers, and a copy of each key. -/
def side (f : Frame) (columns : List Renaming) (keys : List Header) (copy : Nat → Header) :
    Except Fault Frame :=
  f.selectAs (columns.map (fun c => (c.input, c.output))
    ++ keys.zipIdx.map fun k => (k.1, copy k.2))

/-- The copies of some keys in a side. -/
def copies (f : Frame) (count : Nat) (copy : Nat → Header) : Except Fault (List Column) :=
  (List.range count).mapM fun i => f.column (copy i)

/-- The rows of a side at the given places. -/
def sideRows (f : Frame) (rows : List (Option Nat)) : Frame :=
  ⟨f.columns.map fun c => Join.column c.header c rows, rows.length⟩

/-- Two sides beside each other.  Right columns whose headers stand on the left get others. -/
def beside (left right : Frame) : Except Fault Frame :=
  let renamed := right.columns.map fun c =>
    if c.header ∈ left.headers then { c with header := c.header ++ "_right" } else c
  Frame.distinct (left.columns ++ renamed) left.height

/-- Where a header stands among the keys that both sides share. -/
def shared? (p : Plan) (h : Header) : Option Nat :=
  (p.leftKeys.zip p.rightKeys).findIdx? fun k => k = (h, h)

/-- The columns of the result that a left column becomes. -/
def leftOutput (p : Plan) (joined : Frame) (c : Renaming) : Except Fault (List Column) := do
  match shared? p c.input with
  | some i =>
    pure [sharedColumn c.output (← joined.column (leftCopy i)) (← joined.column (rightCopy i))]
  | none => (← joined.named c.output).mapM joined.column

/-- The columns that a merge of the right rows without a partner shows, with their headers there.
  Keys that are left out come first, each before the ones before it. -/
def rightOutputs (p : Plan) : List (Header × Header) :=
  let missing := p.rightKeys.zipIdx.filter fun k => k.1 ∉ p.right.map Renaming.input
  (missing.reverse.map fun k => (rightCopy k.2, k.1)) ++ p.right.map fun c => (c.output, c.input)

/-- The frame sorted by some of its columns, missing cells last. -/
def sortedBy (f : Frame) (headers : List Header) : Frame :=
  let keys := Frame.keyRows (headers.filterMap f.column?) f.height
  f.pickRows (sortedRows false .last keys)

/-- The frame that a merge makes of the rows of both sides. -/
def combined (e : Merge) (p : Plan) (left right : Frame) : Except Fault Frame := do
  match e.kind with
  | .leftOnly => left.selectAs (p.left.map fun c => (c.output, c.input))
  | .rightOnly => right.selectAs (rightOutputs p)
  | kind =>
    let joined ← beside left right
    let lefts ← p.left.mapM (leftOutput p joined)
    let rights ← p.right.mapM fun c => do (← joined.named c.output).mapM joined.column
    let merged ← Frame.distinct (lefts ++ rights).flatten left.height
    let keys := (p.left.filter fun c => c.input ∈ p.leftKeys).map Renaming.output
    if kind = .outer then pure (sortedBy merged (← merged.namedAll keys)) else pure merged

/-- The data of a merge. -/
def frame (e : Merge) (p : Plan) (one two : Frame) : Except Fault Frame := do
  let left ← side one p.left p.leftKeys leftCopy
  let right ← side two p.right p.rightKeys rightCopy
  let leftKeys ← copies left p.leftKeys.length leftCopy
  let rightKeys ← copies right p.rightKeys.length rightCopy
  if (leftKeys.zip rightKeys).any fun k => !areComparable k.1.dtype k.2.dtype then
    throw (.ofTable .schemaMismatch)
  else
    let rows := rowPairs e.kind (Frame.keyRows leftKeys left.height)
      (Frame.keyRows rightKeys right.height)
    e.combined p (sideRows left (rows.map Join.RowPair.left))
      (sideRows right (rows.map Join.RowPair.right))

/-! ### The edit -/

/-- The right columns in the script, which needs all keys. -/
def scriptColumns (p : Plan) : List Header :=
  p.rightKeys.reverse.foldl (fun cols key => if key ∈ cols then cols else key :: cols)
    (p.right.map Renaming.input)

/-- The statements that keep the rows of one sheet without a partner in another. -/
def onlyStatements (output this other : String) (columns keys otherKeys : List Header) :
    List String :=
  ["bool_index_array = " ++ this ++ ".merge(" ++ other ++ "[" ++ Literal.list otherKeys
     ++ "].drop_duplicates(), left_on=" ++ Literal.list keys ++ ", right_on="
     ++ Literal.list otherKeys ++ ", how='left', indicator=True)['_merge'] == 'left_only'",
   output ++ " = " ++ this ++ "[" ++ Literal.list columns
     ++ "][bool_index_array.values].reset_index(drop=True)"]

/-- The statements of a merge. -/
def statements (e : Merge) (p : Plan) (one two output : Sheet) : List String :=
  let leftColumns := p.left.map Renaming.input
  match e.kind with
  | .leftOnly =>
    onlyStatements output.name one.name two.name leftColumns p.leftKeys p.rightKeys
  | .rightOnly =>
    onlyStatements output.name two.name one.name (scriptColumns p) p.rightKeys p.leftKeys
  | kind =>
    let isLookup := decide (kind = .lookup)
    (if isLookup then
        ["temp_df = " ++ two.name ++ ".drop_duplicates(subset=" ++ Literal.list p.rightKeys ++ ")"]
      else [])
      ++ [output.name ++ " = " ++ one.name ++ "[" ++ Literal.list leftColumns ++ "].merge("
            ++ (if isLookup then "temp_df" else two.name) ++ "[" ++ Literal.list (scriptColumns p)
            ++ "], left_on=" ++ Literal.list p.leftKeys ++ ", right_on="
            ++ Literal.list p.rightKeys ++ ", how='" ++ kind.code ++ "', suffixes=['_" ++ one.name
            ++ "', '_" ++ two.name ++ "'])"]

/-- The code of a merge. -/
def block (e : Merge) (p : Plan) (one two output : Sheet) : Block :=
  { displayName := "Merged"
    description := "Merged " ++ one.name ++ " and " ++ two.name ++ " into " ++ output.name
    statements := e.statements p one two output
    footprint :=
      (((({} : Footprint).read one.id (.ofList e.leftIds)).read two.id (.ofList e.rightIds)).create
        output.id)
    outputs := [output.blockOutput]
    keep := false }

/-- Runs the edit. -/
def run (e : Merge) (s : State) : Except Fault Change := do
  let one ← s.sheet e.left
  let two ← s.sheet e.right
  let p ← e.plan one two
  let f ← e.frame p one.frame two.frame
  let (output, next) := s.mint (s.uniqueName "df_merge") f
  pure ⟨next.push output, [.block (e.block p one two output)]⟩

end Merge

end SheetScript
