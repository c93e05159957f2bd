import SheetScript.Analysis.Basic

/-!
# Translating headers

  Old edits name columns by their headers.  The translator follows the edits of
  an analysis and knows, for every sheet, which headers stand for a column whose
  id is another text; any other header is its own id.
-/

namespace SheetScript

/-- What headers stand for, sheet by sheet. -/
structure Translator where
  sheets : List (Dictionary Header ColumnId) := []
  deriving DecidableEq, Repr, Inhabited

/-- The parameters of a stored edit. -/
abbrev Params := Dictionary String Json

namespace Params

/-- The complaint about a field that is not there. -/
def missing (field : String) : Fault := .upgrade ("legacy step is missing '" ++ field ++ "'")

/-- A field that has to be there. -/
def need {α : Type} (j : Json) (field : String) (read : Json → Option α) : Except Fault α :=
  match (j.field? field).bind read with
  | some a => .ok a
  | none => .error (missing field)

end Params

namespace Translator

/-- The translator at the start of an analysis over some sheets. -/
def ofCount (count : Nat) : Translator := ⟨List.replicate count []⟩

/-- The column that a header of a sheet stands for. -/
def translate (t : Translator) (sheet : Nat) (header : Header) : ColumnId :=
  ((t.sheets[sheet]?).bind fun m => Dictionary.get? m header).getD ⟨header⟩

/-- The translator with entries for all sheets up to an index. -/
def padded (t : Translator) (sheet : Nat) : Translator :=
  ⟨t.sheets ++ List.replicate (sheet + 1 - t.sheets.length) []⟩

/-- The translator with the entry of a sheet changed. -/
def update (t : Translator) (sheet : Nat)
    (f : Dictionary Header ColumnId → Dictionary Header ColumnId) : Translator :=
  ⟨(t.padded sheet).sheets.modify sheet f⟩

/-- The translator with one more sheet. -/
def push (t : Translator) (m : Dictionary Header ColumnId) : Translator := ⟨t.sheets ++ [m]⟩

/-- The translator after an edit of a kind. -/
def observeKind (t : Translator) (params : Json) : EditKind → Except Fault Translator
  | .renameColumn => do
    let sheet ← Params.need params "sheet_index" Json.index?
    let id ← Params.need params "column_id" Json.string?
    let header ← Params.need params "new_column_header" Json.string?
    pure (t.update sheet fun m => Dictionary.insert m header ⟨id⟩)
  | .duplicateSheet => do
    let sheet ← Params.need params "sheet_index" Json.index?
    let t := t.padded sheet
    pure (t.push (t.sheets[sheet]?.getD []))
  | .deleteSheet => do
    let sheet ← Params.need params "sheet_index" Json.index?
    pure ⟨t.sheets.eraseIdx sheet⟩
  | .importFiles =>
    let count := (((params.field? "file_names").bind Json.items?).map List.length).getD 0
    .ok ⟨t.sheets ++ List.replicate count []⟩
  | .merge => do
    let one ← Params.need params "sheet_index_one" Json.index?
    let two ← Params.need params "sheet_index_two" Json.index?
    pure ((t.padded (max one two)).push [])
  | .pivot =>
    match (params.field? "destination_sheet_index").bind Json.index? with
    | some sheet => .ok (t.update sheet fun _ => [])
    | none => do
      let sheet ← Params.need params "sheet_index" Json.index?
      pure ((t.padded sheet).push [])
  | .restrictHeaders =>
    match params.field? "move_to_deprecated_id_algorithm" with
    | some (.bool true) => .ok ⟨t.sheets.map fun _ => []⟩
    | _ => .ok t
  | _ => .ok t

/-- The translator after an edit of the current version. -/
def observe (t : Translator) (s : StoredEdit) : Except Fault Translator :=
  match EditKind.ofName? s.kind with
  | none => .ok t
  | some k => t.observeKind s.params k

/-! ### Room

  A translator makes room for every sheet that an edit names, whether there is such
  a sheet or not.  How many it will hold can be told before the room is made. -/

/-- The most sheets that a translator can hold: an entry takes 24 bytes, and a list
  no more bytes than a signed word can count. -/
def capacity : Nat := 0x7FFFFFFFFFFFFFFF / 24

/-- How many sheets a translator over `count` sheets holds after an edit of a kind. -/
def countKind (count : Nat) (params : Json) : EditKind → Except Fault Nat
  | .renameColumn => do
    let sheet ← Params.need params "sheet_index" Json.index?
    let _ ← Params.need params "column_id" Json.string?
    let _ ← Params.need params "new_column_header" Json.string?
    pure (max count (sheet + 1))
  | .duplicateSheet => do
    let sheet ← Params.need params "sheet_index" Json.index?
    pure (max count (sheet + 1) + 1)
  | .deleteSheet => do
    let sheet ← Params.need params "sheet_index" Json.index?
    pure (if sheet < count then count - 1 else count)
  | .importFiles =>
    .ok (count + (((params.field? "file_names").bind Json.items?).map List.length).getD 0)
  | .merge => do
    let one ← Params.need params "sheet_index_one" Json.index?
    let two ← Params.need params "sheet_index_two" Json.index?
    pure (max count (max one two + 1) + 1)
  | .pivot =>
    match (params.field? "destination_sheet_index").bind Json.index? with
    | some sheet => .ok (max count (sheet + 1))
    | none => do
      let sheet ← Params.need params "sheet_index" Json.index?
      pure (max count (sheet + 1) + 1)
  | _ => .ok count

/-- How many sheets a translator over `count` sheets holds after an edit of the
  current version. -/
def countAfter (count : Nat) (s : StoredEdit) : Except Fault Nat :=
  match EditKind.ofName? s.kind with
  | none => .ok count
  | some k => countKind count s.params k

/-- Why a translator does not go on. -/
inductive Stop where
  | refused (f : Fault)
  /-- There is no room for the sheets. -/
  | overflow
  deriving DecidableEq, Repr

/-- The translator after an edit of the current version, if there is room for it. -/
def observeWithin (t : Translator) (s : StoredEdit) : Except Stop Translator := do
  let count ← (countAfter t.sheets.length s).mapError .refused
  if capacity < count then throw .overflow
  (t.observe s).mapError .refused

end Translator

end SheetScript
