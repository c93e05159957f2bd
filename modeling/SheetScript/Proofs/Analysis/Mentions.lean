import SheetScript.Analysis.Upgrade
import SheetScript.Proofs.Json.Records
import SheetScript.Proofs.Outcomes

/-! # Columns that edits mention

  Edits mention columns in several parts: as the column that they are about, as
  keys or selected columns of a merge, as rows, columns or values of a pivot
  table.  Old edits mention them by their headers, current ones by their ids.

  `Edit.mentions` and `StoredEdit.mentions` list them.  Behind them stand the facts
  about fields of parameters on which both depend.
-/

namespace SheetScript

/-- The part that a column plays in an edit. -/
inductive Part where
  | column
  | leftKey
  | rightKey
  | leftSelected
  | rightSelected
  | pivotRow
  | pivotColumn
  | pivotValue
  deriving DecidableEq, Repr, Inhabited

/-- A column that is mentioned by its header or by its id. -/
structure Mention (α : Type) where
  part : Part
  sheet : Nat
  column : α
  deriving DecidableEq, Repr, Inhabited

/-- The mention of the column that a header of a sheet stands for. -/
def Mention.resolve (look : Nat → Header → ColumnId) (m : Mention Header) : Mention ColumnId :=
  ⟨m.part, m.sheet, look m.sheet m.column⟩

namespace Edit

/-- The columns that an edit of a kind mentions of which older versions named
  headers. -/
def mentions : Edit → List (Mention ColumnId)
  | .deleteColumns e => e.columns.map fun id => ⟨.column, e.sheet, id⟩
  | .renameColumn e => [⟨.column, e.sheet, e.column⟩]
  | .moveColumn e => [⟨.column, e.sheet, e.column⟩]
  | .setFormula e => [⟨.column, e.sheet, e.column⟩]
  | .changeType e => [⟨.column, e.sheet, e.column⟩]
  | .filterRows e => [⟨.column, e.sheet, e.column⟩]
  | .sortRows e => [⟨.column, e.sheet, e.column⟩]
  | .merge e =>
    e.keys.map (fun k => ⟨.leftKey, e.left, k.1⟩)
      ++ e.keys.map (fun k => ⟨.rightKey, e.right, k.2⟩)
      ++ e.leftColumns.map (fun id => ⟨.leftSelected, e.left, id⟩)
      ++ e.rightColumns.map (fun id => ⟨.rightSelected, e.right, id⟩)
  | .pivot e =>
    e.rows.map (fun id => ⟨.pivotRow, e.sheet, id⟩)
      ++ e.columns.map (fun id => ⟨.pivotColumn, e.sheet, id⟩)
      ++ (Dictionary.keys e.values).map (fun id => ⟨.pivotValue, e.sheet, id⟩)
  | _ => []

end Edit

namespace Params

/-- The header or the list of headers of a field. -/
def headers (p : Params) (field : String) : List Header :=
  match Dictionary.get? p field with
  | some (.array items) => items.filterMap fun j => (header j).toOption
  | some j => (header j).toOption.toList
  | none => []

/-- The names of the fields of an object in a field. -/
def names (p : Params) (field : String) : List String :=
  ((Dictionary.get? p field).bind Json.fields?).elim [] fun fields => fields.map Prod.fst

/-- Columns of a sheet, whose index is in a field, that are mentioned in one part. -/
def mentions (p : Params) (sheetField : String) (part : Part) (hs : List Header) :
    List (Mention Header) :=
  (sheet p sheetField).toOption.toList.flatMap fun i => hs.map fun h => ⟨part, i, h⟩

/-- The columns that a pivot table mentions by their headers. -/
def pivotMentions (p : Params) (rows columns : String) : List (Mention Header) :=
  mentions p "sheet_index" .pivotRow (headers p rows)
    ++ mentions p "sheet_index" .pivotColumn (headers p columns)
    ++ mentions p "sheet_index" .pivotValue (names p "values")

/-- The columns that a merge mentions by their headers. -/
def mergeMentions (p : Params) : List (Mention Header) :=
  mentions p "sheet_index_one" .leftKey (headers p "merge_key_one")
    ++ mentions p "sheet_index_two" .rightKey (headers p "merge_key_two")
    ++ mentions p "sheet_index_one" .leftSelected (headers p "selected_columns_one")
    ++ mentions p "sheet_index_two" .rightSelected (headers p "selected_columns_two")

end Params

namespace StoredEdit

/-- The columns that an edit mentions by their headers. -/
def mentions (s : StoredEdit) : List (Mention Header) :=
  let p := s.params.fields?.getD []
  if s.kind = "group" then Params.pivotMentions p "group_rows" "group_columns"
  else
    match EditKind.ofName? s.kind, s.version with
    | some .changeType, 1 | some .moveColumn, 1 | some .sortRows, 1 | some .setFormula, 1
    | some .deleteColumns, 1 | some .filterRows, 1 | some .filterRows, 2 | some .filterRows, 3 =>
      Params.mentions p "sheet_index" .column (Params.headers p "column_header")
    | some .renameColumn, 1 =>
      Params.mentions p "sheet_index" .column (Params.headers p "old_column_header")
    | some .merge, 1 | some .merge, 2 => Params.mergeMentions p
    | some .pivot, 1 | some .pivot, 2 | some .pivot, 3 =>
      Params.pivotMentions p "pivot_rows" "pivot_columns"
    | _, _ => []

/-- An edit mentions, in the same parts and sheets, exactly the columns for which some
  headers stand. -/
def Resolves (look : Nat → Header → ColumnId) (ms : List (Mention Header)) (x : Edit) : Prop :=
  ∀ m, m ∈ x.mentions ↔ ∃ n ∈ ms, n.resolve look = m

end StoredEdit

/-! ### Reading parameters -/

/-- The edit in a stored edit is read from its parameters. -/
theorem StoredEdit.edit_eq_ok {s : StoredEdit} {x : Edit} (h : s.edit = .ok x) :
    ∃ k, EditKind.ofName? s.kind = some k ∧ s.version = k.version
      ∧ Edit.ofJson? k s.params = some x := by
  unfold StoredEdit.edit at h
  cases hk : EditKind.ofName? s.kind with
  | none =>
    rw [hk] at h
    cases h
  | some k =>
    rw [hk] at h
    dsimp only at h
    split at h
    · next hversion =>
      unfold Edit.ofParts at h
      rw [hk] at h
      dsimp only at h
      split at h
      · next x' hx => exact ⟨k, rfl, hversion, hx.trans (congrArg some (Except.ok.inj h))⟩
      · cases h
    · cases h

/-! ### Headers that become ids -/

namespace Params

variable {t : Translator} {p p' : List (String × Json)} {field name : String} {i : Nat}
  {j : Json} {h : Header} {hs : List Header} {part : Part}

theorem take_eq_ok {rest : List (String × Json)} :
    take p field = .ok (j, rest)
      ↔ Dictionary.get? p field = some j ∧ Dictionary.erase p field = rest := by
  unfold take
  cases Dictionary.get? p field <;> simp

theorem need_eq_ok {α : Type} {read : Json → Option α} {a : α} :
    need (.object p) field read = .ok a ↔ (Dictionary.get? p field).bind read = some a := by
  have hfield : (Json.object p).field? field = Dictionary.get? p field := rfl
  unfold need
  rw [hfield]
  cases (Dictionary.get? p field).bind read <;> simp

theorem sheet_eq_ok : sheet p field = .ok i ↔ (Dictionary.get? p field).bind Json.index? = some i :=
  need_eq_ok

theorem mentions_of_sheet (hi : sheet p field = .ok i) (part : Part) (hs : List Header) :
    mentions p field part hs = hs.map fun h => ⟨part, i, h⟩ := by
  simp [mentions, hi, Except.toOption]

theorem headers_of_get? (hj : Dictionary.get? p field = some j) (hh : header j = .ok h) :
    headers p field = [h] := by
  have hone : (header j).toOption.toList = [h] := by
    rw [hh]
    rfl
  unfold headers
  rw [hj]
  cases j with
  | array items => cases hh
  | _ => exact hone

theorem headers_of_array {items : List Json} (hj : Dictionary.get? p field = some (.array items))
    (hh : items.mapM header = .ok hs) : headers p field = hs := by
  have hall := mapM_eq_ok.mp hh
  unfold headers
  rw [hj]
  show items.filterMap (fun j => (header j).toOption) = hs
  clear hj hh
  induction hall with
  | nil => rfl
  | @cons j k _ _ hk _ ih =>
    have hsome : (header j).toOption = some k := congrArg Except.toOption hk
    rw [List.filterMap_cons, hsome, ih]

theorem takeHeader_eq_ok {rest : List (String × Json)} (hk : takeHeader p field = .ok (h, rest)) :
    headers p field = [h] ∧ Dictionary.erase p field = rest := by
  simp only [takeHeader, bind_eq_ok, pure_eq_ok, Prod.exists, take_eq_ok, Prod.mk.injEq] at hk
  obtain ⟨j, _, ⟨hj, rfl⟩, k, hheader, rfl, rfl⟩ := hk
  exact ⟨headers_of_get? hj hheader, rfl⟩

theorem takeHeaders_eq_ok {rest : List (String × Json)}
    (hk : takeHeaders p field = .ok (hs, rest)) :
    headers p field = hs ∧ Dictionary.erase p field = rest := by
  simp only [takeHeaders, bind_eq_ok, Prod.exists, take_eq_ok] at hk
  obtain ⟨j, _, ⟨hj, rfl⟩, hk⟩ := hk
  split at hk
  · next items _ heq =>
    obtain ⟨rfl, rfl⟩ := Prod.mk.inj heq
    simp only [bind_eq_ok, pure_eq_ok, Prod.mk.injEq] at hk
    obtain ⟨ks, hks, rfl, rfl⟩ := hk
    exact ⟨headers_of_array hj hks, rfl⟩
  · simp at hk

/-- The id in place of a header. -/
theorem headerToId_eq_ok (hk : headerToId t field name p = .ok p') :
    ∃ i h, sheet p "sheet_index" = .ok i ∧ headers p field = [h]
      ∧ p' = Dictionary.insert (Dictionary.erase p field) name (.ofColumnId (t.translate i h)) := by
  simp only [headerToId, bind_eq_ok, pure_eq_ok, Prod.exists] at hk
  obtain ⟨i, hi, h, _, hh, rfl⟩ := hk
  obtain ⟨hheaders, rfl⟩ := takeHeader_eq_ok hh
  exact ⟨i, h, hi, hheaders, rfl⟩

end Params

end SheetScript
