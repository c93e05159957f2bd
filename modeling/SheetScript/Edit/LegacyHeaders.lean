import SheetScript.Formula.Reference
import SheetScript.State

/-!
# Restricting headers

  Old analyses knew headers of letters, digits and underscores only.  This edit
  brings the headers of all sheets into that form, gives the columns that change
  an id like their new header, and can give every column such an id.
-/

namespace SheetScript

/-- Restricts the headers of all sheets. -/
structure RestrictHeaders where
  /-- Every column gets an id like its header. -/
  resetsIds : Bool := false
  deriving DecidableEq, Repr, Inhabited

namespace RestrictHeaders

/-- A header before and after. -/
abbrev Renaming := Header × Header

/-- The renamings of the headers that are not restricted yet; `taken` are the
  headers in use. -/
def renamings (taken : List Header) : List Header → List Renaming
  | [] => []
  | h :: rest =>
    if Naming.legacyHeader h = h then renamings taken rest
    else
      let others := taken.filter fun t => t ≠ h
      let new := Naming.firstFree others (Naming.legacyHeader h)
      (h, new) :: renamings (new :: others) rest

/-- A header after the renamings. -/
def renamed (rs : List Renaming) (h : Header) : Header :=
  ((rs.find? fun r => r.1 = h).map Prod.snd).getD h

/-- Ids and formulas of a sheet. -/
abbrev Labels := ColumnIds × Dictionary ColumnId String

/-- Carries a renaming out: the column gets a new id, to which its formula moves,
  and all formulas follow the header. -/
def relabel (labels : Labels) (r : Renaming) : Labels :=
  let (columns, formulas) := labels
  let (columns, formulas) :=
    match columns.id? r.1 with
    | none => (columns, formulas)
    | some id =>
      match columns.rekey id r.2 with
      | (none, columns) => (columns, formulas)
      | (some newId, columns) =>
        match Dictionary.get? formulas id with
        | none => (columns, formulas)
        | some f => (columns, Dictionary.insert (Dictionary.erase formulas id) newId f)
  (columns, formulas.map fun f => (f.1, Formula.renameReferences f.2 r.1 r.2))

/-- Labels with ids like the headers; formulas stay with their columns. -/
def reset (headers : List Header) (labels : Labels) : Labels :=
  let formulaOf (h : Header) : String :=
    ((labels.1.id? h).bind fun id => Dictionary.get? labels.2 id).getD ""
  let columns := ColumnIds.ofHeaders headers
  let formulas := headers.filterMap fun h =>
    if formulaOf h = "" then none else (columns.id? h).map fun id => (id, formulaOf h)
  (columns, Dictionary.ofList formulas)

/-- A sheet after the edit, with its renamings. -/
def sheetAfter (e : RestrictHeaders) (sheet : Sheet) :
    Except Fault (Sheet × List Renaming) := do
  let rs := renamings sheet.headers sheet.headers
  if rs.isEmpty && !e.resetsIds then pure (sheet, [])
  else
    let frame ← sheet.frame.withHeaders (sheet.headers.map (renamed rs))
    let labels := rs.foldl relabel (sheet.columns, sheet.formulas)
    let (columns, formulas) := if e.resetsIds then reset frame.headers labels else labels
    pure ({ sheet.withData frame columns with formulas := formulas }, rs)

/-- The statement that renames the headers of a sheet. -/
def statement (df : String) (rs : List Renaming) : String :=
  df ++ ".rename(columns=\x7b"
    ++ ", ".intercalate (rs.map fun r => Literal.text r.1 ++ ": " ++ Literal.text r.2)
    ++ "\x7d, inplace=True)"

/-- The code of the edit for the sheets that change. -/
def block (changed : List (Sheet × List Renaming)) : Block :=
  { displayName := "Renamed headers"
    description := "Renamed headers for compatibility with previous versions"
    statements := changed.map fun c => statement c.1.name c.2
    footprint := changed.foldl (fun f c => f.write c.1.id .all) {}
    outputs := changed.map fun c => c.1.blockOutput
    keep := false }

/-- Runs the edit. -/
def run (e : RestrictHeaders) (s : State) : Except Fault Change := do
  let results ← s.sheets.mapM e.sheetAfter
  let changed := results.filter fun r => !r.2.isEmpty
  pure ⟨{ s with sheets := results.map Prod.fst },
    if changed.isEmpty then [] else [.block (block changed)]⟩

end RestrictHeaders

end SheetScript
