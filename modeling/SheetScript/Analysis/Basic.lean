import SheetScript.Decimal.Text
import SheetScript.Json.Record
import SheetScript.Step

/-!
# Saved analyses

  An analysis is a list of edits as they are stored in a file, each with the
  version of its parameters.  An analysis is current if every edit has the
  version that this library writes.
-/

namespace SheetScript

/-- An edit as it is stored. -/
structure StoredEdit where
  version : Nat
  kind : String
  params : Json := .null
  deriving Repr, Inhabited

/-- A saved analysis. -/
structure Analysis where
  version : String
  steps : List StoredEdit
  deriving Repr, Inhabited

namespace StoredEdit

/-- An edit as it is stored now. -/
def ofEdit (e : Edit) : StoredEdit := ⟨e.kind.version, e.kind.name, e.toJson⟩

/-- Whether the edit has the current version of its kind. -/
def isCurrent (s : StoredEdit) : Bool :=
  (EditKind.ofName? s.kind).any fun k => k.version = s.version

/-- The edit, if it is current. -/
def edit (s : StoredEdit) : Except Fault Edit :=
  match EditKind.ofName? s.kind with
  | none => .error (.unknownStep s.kind)
  | some k =>
    if s.version = k.version then Edit.ofParts s.kind s.params
    else
      .error (.upgrade (s.kind ++ " is at version " ++ Decimal.natText s.version ++ ", expected "
        ++ Decimal.natText k.version))

end StoredEdit

namespace Analysis

/-- The version that is written into analyses. -/
def currentVersion : String := "0.4.0"

/-- The analysis of some steps. -/
def ofSteps (steps : List Step) : Analysis :=
  ⟨currentVersion, steps.map fun s => .ofEdit s.edit⟩

/-- Whether all edits are current. -/
def isCurrent (a : Analysis) : Bool := a.steps.all StoredEdit.isCurrent

/-- The edits of an analysis that is current. -/
def edits (a : Analysis) : Except Fault (List Edit) := a.steps.mapM StoredEdit.edit

end Analysis

end SheetScript

/-!
## Versions

  A version is a sequence of numbers between points, compared number by number;
  of two versions one of which goes on where the other ends, the shorter one is
  older.
-/

namespace SheetScript.Version

/-- The number at the start of a part; zero if there is none or it does not fit a
  word. -/
def number (part : List Char) : Nat :=
  let n := Decimal.natOfDigits (part.takeWhile Decimal.isDigit)
  if n < 0x10000000000000000 then n else 0

/-- The parts of a text between points. -/
def split (cs : List Char) : List (List Char) :=
  cs.foldr
    (fun c acc => match acc with
      | [] => [[c]]
      | w :: ws => if c == '.' then [] :: w :: ws else (c :: w) :: ws)
    [[]]

/-- The numbers of a version. -/
def numbers (version : String) : List Nat := (split version.toList).map number

/-- Whether a sequence of numbers comes before another. -/
def precedes : List Nat → List Nat → Bool
  | [], [] => false
  | [], _ :: _ => true
  | _ :: _, [] => false
  | m :: ms, n :: ns => m < n || (m == n && precedes ms ns)

/-- Whether a version is older than another. -/
def isOlder (version current : String) : Bool := precedes (numbers version) (numbers current)

end SheetScript.Version
