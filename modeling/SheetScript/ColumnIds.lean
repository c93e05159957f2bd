import SheetScript.Decimal.Text
import SheetScript.Dictionary
import SheetScript.Naming

/-!
# Column identity

  A column has a header, which may change, and an id, which names it for its
  whole life in a sheet.  Ids are the header a column was first seen under, with
  a numbered suffix when that id was issued before; an id is never issued twice,
  also not after its column is gone.
-/

namespace SheetScript

/-- The text a column shows at its head. -/
abbrev Header := String

/-- The lasting name of a column inside one sheet. -/
structure ColumnId where
  text : String
  deriving DecidableEq, Repr, Inhabited

instance : LT ColumnId := ⟨fun a b => a.text < b.text⟩

instance : DecidableLT ColumnId := fun a b => inferInstanceAs (Decidable (a.text < b.text))

/-- The columns of one sheet: ids with headers, headers with ids, and every id
  issued so far. -/
structure ColumnIds where
  headerOf : Dictionary ColumnId Header := []
  idOf : Dictionary Header ColumnId := []
  issued : Roster ColumnId := []
  deriving DecidableEq, Repr, Inhabited

namespace ColumnIds

/-- The header of an id. -/
def header? (m : ColumnIds) (id : ColumnId) : Option Header := Dictionary.get? m.headerOf id

/-- The id of a header. -/
def id? (m : ColumnIds) (header : Header) : Option ColumnId := Dictionary.get? m.idOf header

/-- Whether a column has the id. -/
def contains (m : ColumnIds) (id : ColumnId) : Bool := Dictionary.contains m.headerOf id

/-- The number of columns. -/
def size (m : ColumnIds) : Nat := m.headerOf.length

/-- An id for a header that was not issued before. -/
def freshId (m : ColumnIds) (header : Header) : ColumnId :=
  ⟨Naming.firstFree (m.issued.map ColumnId.text) header⟩

/-- Registers a column under an id that it has elsewhere. -/
def insertWithId (m : ColumnIds) (id : ColumnId) (header : Header) : ColumnIds :=
  { headerOf := Dictionary.insert m.headerOf id header
    idOf := Dictionary.insert m.idOf header id
    issued := Roster.insert m.issued id }

/-- Registers a new column and issues its id. -/
def insert (m : ColumnIds) (header : Header) : ColumnId × ColumnIds :=
  let id := m.freshId header
  (id, m.insertWithId id header)

/-- The columns of a list of headers, in order. -/
def ofHeaders (headers : List Header) : ColumnIds :=
  headers.foldl (fun m header => (m.insert header).2) {}

/-- Gives a column another header; the result has the header before. -/
def rename (m : ColumnIds) (id : ColumnId) (header : Header) : Option Header × ColumnIds :=
  match m.header? id with
  | none => (none, m)
  | some old =>
    (some old,
     { m with
       headerOf := Dictionary.insert m.headerOf id header
       idOf := Dictionary.insert (Dictionary.erase m.idOf old) header id })

/-- Forgets a column; its id stays issued. -/
def remove (m : ColumnIds) (id : ColumnId) : Option Header × ColumnIds :=
  match m.header? id with
  | none => (none, m)
  | some header =>
    (some header,
     { m with
       headerOf := Dictionary.erase m.headerOf id
       idOf := Dictionary.erase m.idOf header })

/-- Gives a column a new header and an id that follows it. -/
def rekey (m : ColumnIds) (id : ColumnId) (header : Header) : Option ColumnId × ColumnIds :=
  match m.remove id with
  | (none, _) => (none, m)
  | (some _, rest) =>
    let r := rest.insert header
    (some r.1, r.2)

end ColumnIds

/-!
## Lasting identifiers

  A sheet keeps its id through renames and moves, and no id is used twice.  A
  step has the id that the front end gave it, or one that was generated for it.
-/

/-- The lasting id of a sheet. -/
structure SheetId where
  number : Nat
  deriving DecidableEq, Repr, Inhabited

instance : LT SheetId := ⟨fun a b => a.number < b.number⟩

instance : DecidableLT SheetId := fun a b => inferInstanceAs (Decidable (a.number < b.number))

/-- A sheet id in messages. -/
def SheetId.text (s : SheetId) : String := "sheet#" ++ Decimal.natText s.number

/-- The id of a step. -/
inductive StepId where
  | named (text : String)
  | generated (number : Nat)
  deriving DecidableEq, Repr, Inhabited

end SheetScript
