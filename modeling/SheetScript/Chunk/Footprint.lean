import SheetScript.ColumnIds

/-!
# Footprints

  What a piece of generated code reads and changes: columns of sheets, whole
  sheets, the order of a sheet's columns, and names.  Ids follow a column or a
  sheet through renames, but statements name columns by header and sheets by
  variable, and those names move from one column or sheet to another; so names
  are part of a footprint as well.

  Two footprints conflict when running the two pieces of code in the other order
  could change what either of them sees or produces.
-/

namespace SheetScript

/-- Columns of one sheet. -/
inductive ColumnSet where
  | all
  | only (ids : Roster ColumnId)
  deriving DecidableEq, Repr, Inhabited

namespace ColumnSet

/-- The set of the listed columns. -/
def ofList (ids : List ColumnId) : ColumnSet := .only (Roster.ofList ids)

/-- Whether two sets share a column. -/
def overlaps : ColumnSet → ColumnSet → Bool
  | .all, _ | _, .all => true
  | .only a, .only b => Roster.meets a b

/-- The columns of both sets. -/
def union : ColumnSet → ColumnSet → ColumnSet
  | .only a, .only b => .only (Roster.union a b)
  | _, _ => .all

end ColumnSet

/-- A name that statements refer to. -/
inductive Name where
  | variable (name : String)
  | header (sheet : SheetId) (header : Header)
  deriving DecidableEq, Repr, Inhabited

namespace Name

/-- Variables come before headers, and headers are ordered by their sheet
  first. -/
def precedes : Name → Name → Bool
  | .variable a, .variable b => a < b
  | .variable _, .header _ _ => true
  | .header _ _, .variable _ => false
  | .header s a, .header t b => s < t || (s = t && a < b)

instance : LT Name := ⟨fun a b => a.precedes b = true⟩

instance : DecidableLT Name := fun a b => inferInstanceAs (Decidable (a.precedes b = true))

end Name

/-- Columns by sheet. -/
abbrev ColumnAccess := Dictionary SheetId ColumnSet

namespace ColumnAccess

/-- The columns with more of them added. -/
def add (m : ColumnAccess) (s : SheetId) (c : ColumnSet) : ColumnAccess :=
  match Dictionary.get? m s with
  | some d => Dictionary.insert m s (d.union c)
  | none => Dictionary.insert m s c

/-- Whether two collections share a column. -/
def overlaps (a b : ColumnAccess) : Bool :=
  a.any fun e => match Dictionary.get? b e.1 with
    | some c => e.2.overlaps c
    | none => false

end ColumnAccess

/-- What a piece of code reads and changes. -/
structure Footprint where
  reads : ColumnAccess := []
  writes : ColumnAccess := []
  creates : Roster SheetId := []
  deletes : Roster SheetId := []
  /-- Sheets whose column positions the code both depends on and shifts. -/
  positions : Roster SheetId := []
  /-- Names that the statements look up. -/
  uses : Roster Name := []
  /-- Names that the statements bind or free. -/
  binds : Roster Name := []
  deriving DecidableEq, Repr, Inhabited

namespace Footprint

/-- The footprint that reads more columns. -/
def read (f : Footprint) (s : SheetId) (c : ColumnSet) : Footprint :=
  { f with reads := f.reads.add s c }

/-- The footprint that writes more columns. -/
def write (f : Footprint) (s : SheetId) (c : ColumnSet) : Footprint :=
  { f with writes := f.writes.add s c }

/-- The footprint that creates a sheet. -/
def create (f : Footprint) (s : SheetId) : Footprint :=
  { f with creates := Roster.insert f.creates s }

/-- The footprint that deletes a sheet. -/
def delete (f : Footprint) (s : SheetId) : Footprint :=
  { f with deletes := Roster.insert f.deletes s }

/-- The footprint that depends on and shifts column positions. -/
def positional (f : Footprint) (s : SheetId) : Footprint :=
  { f with positions := Roster.insert f.positions s }

/-- The footprint that looks a name up. -/
def use (f : Footprint) (n : Name) : Footprint := { f with uses := Roster.insert f.uses n }

/-- The footprint that binds or frees a name. -/
def bind (f : Footprint) (n : Name) : Footprint := { f with binds := Roster.insert f.binds n }

/-- Everything that the code changes; creating and deleting a sheet count as
  writing all of it. -/
def effectiveWrites (f : Footprint) : ColumnAccess :=
  (f.creates ++ f.deletes).foldl (fun m s => Dictionary.insert m s .all) f.writes

/-- The sheets that the code changes, creates or deletes. -/
def touched (f : Footprint) : List SheetId := Dictionary.keys f.effectiveWrites

/-- Whether two pieces of code may not change places. -/
def conflictsWith (f g : Footprint) : Bool :=
  f.effectiveWrites.overlaps g.reads
    || f.effectiveWrites.overlaps g.effectiveWrites
    || f.reads.overlaps g.effectiveWrites
    || Roster.meets f.positions g.positions
    || Roster.meets f.binds g.binds
    || Roster.meets f.binds g.uses
    || Roster.meets f.uses g.binds

end Footprint

end SheetScript
