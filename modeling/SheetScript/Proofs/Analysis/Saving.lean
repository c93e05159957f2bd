import SheetScript.Proofs.Analysis.Completeness
import SheetScript.Proofs.Edit.Decoding
import SheetScript.Proofs.Edit.Encoding
import SheetScript.Proofs.Json.Reading

/-! # Analyses that are saved and read back

  What is saved of an edit is current, can be followed by a translator, and holds the edit.
  The text of an analysis is read back as it was, if it is read as the JSON value that was
  written.

  The parameters of an edit may come from a client, which may spell them in more than one
  way: fields with a default can be left out, kinds of values have several names, and
  fields that nobody asks for are skipped.  They are saved in one way only
  (`Edit.saved_form_decodes`): an edit that was accepted in any spelling is the edit that
  its saved form holds.
-/

namespace SheetScript

open Json

namespace StoredEdit

theorem isCurrent_ofEdit (e : Edit) : (ofEdit e).isCurrent = true :=
  isCurrent_iff.mpr ⟨e.kind, e.kind.ofName?_name, rfl⟩

theorem edit_ofEdit {e : Edit} (h : e.WellFormed) : (ofEdit e).edit = .ok e := by
  simp [edit, ofEdit, Edit.ofParts, EditKind.ofName?_name, Edit.ofJson?_toJson h]

/-- What a translator asks of parameters in canonical form. -/
theorem need_canonical {α : Type} {read : Json → Option α} {fields : List (String × Json)}
    (h : (fields.map Prod.fst).Nodup) (name : String) :
    Params.need (Json.object fields).canonical name read
      = ((Dictionary.get? fields name).bind fun j => read j.canonical).elim
          (.error (Params.missing name)) .ok := by
  rw [Params.need, field?_canonical h]
  cases Dictionary.get? fields name with
  | none => rfl
  | some j =>
    rw [Option.map_some, Option.bind_some, Option.bind_some]
    cases read j.canonical <;> rfl

theorem observable_ofEdit {e : Edit} (h : e.WellFormed) : (ofEdit e).Observable := by
  intro t
  obtain ⟨hindexes, -⟩ := h
  unfold Translator.observe
  simp only [ofEdit, EditKind.ofName?_name, Edit.toJson]
  cases e with
  | renameColumn e =>
    have hsheet := hindexes _ (.head _)
    simp [Edit.kind, Edit.fields, RenameColumn.fields, Translator.observeKind, need_canonical,
      Dictionary.get?_cons, hsheet, string?, ofColumnId]
  | duplicateSheet e | deleteSheet e =>
    have hsheet := hindexes _ (.head _)
    simp [Edit.kind, Edit.fields, Translator.observeKind, need_canonical, Dictionary.get?_cons,
      hsheet]
  | merge e =>
    have hleft := hindexes _ (.head _)
    have hright := hindexes _ (.tail _ (.head _))
    simp [Edit.kind, Edit.fields, Merge.fields, Translator.observeKind, need_canonical,
      Dictionary.get?_cons, hleft, hright]
  | pivot e =>
    have hsheet := hindexes _ (.head _)
    unfold Translator.observeKind
    dsimp only [Edit.kind]
    split
    · exact ⟨_, rfl⟩
    -- no field is written twice, so none is lost where they are put in order
    · have hnodup : (e.fields.map Prod.fst).Nodup := by
        obtain ⟨_, _, _, _, _, _ | _, _ | _⟩ := e <;> simp [Pivot.fields, fieldIfSome, fieldIfTrue]
      have hneed : Params.need (Json.object (Edit.fields (.pivot e))).canonical "sheet_index"
          Json.index? = .ok e.sheet := by
        rw [Edit.fields, need_canonical hnodup]
        simp [Pivot.fields, Dictionary.get?_cons, hsheet]
      rw [hneed]
      exact ⟨_, rfl⟩
  | restrictHeaders e =>
    unfold Translator.observeKind
    dsimp only [Edit.kind]
    split <;> exact ⟨_, rfl⟩
  | _ => exact ⟨_, rfl⟩

/-- A stored edit whose version is a word and whose parameters are canonical. -/
structure WellFormed (s : StoredEdit) : Prop where
  version : s.version < 0x100000000
  params : s.params.IsCanonical

theorem wellFormed_ofEdit (e : Edit) : (ofEdit e).WellFormed where
  version := by cases e <;> simp [ofEdit, Edit.kind, EditKind.version]
  params := isCanonical_canonical _

/-- A stored edit is read back from what is written. -/
theorem ofJson?_toJson {s : StoredEdit} (h : s.WellFormed) : ofJson? s.toJson = some s := by
  have hversion : word32? (ofNat s.version) = some s.version := word32?_ofNat h.version
  have hparams : s.params.canonical = s.params := h.params
  simp [ofJson?, toJson, record?_object, Record.need, Record.orElse, Record.get?,
    Dictionary.get?_cons, hversion, hparams]

end StoredEdit

namespace Analysis

/-- The text of an analysis is read as the value that was written, unless a value in it is
  too much for the reader. -/
theorem ofText?_text {a : Analysis} (h : a.toJson.fits 128 = true) :
    Json.ofText? a.text = some a.toJson :=
  ofText?_pretty h

/-- An analysis is read back from its text, if the text is read as the value that was
  written. -/
theorem parse_text {a : Analysis} (h : ∀ s ∈ a.steps, s.WellFormed)
    (hread : Json.ofText? a.text = some a.toJson) : parse a.text = .ok a := by
  have hsteps : listOf? StoredEdit.ofJson? (.array (a.steps.map StoredEdit.toJson))
      = some a.steps :=
    listOf?_array fun s hs => StoredEdit.ofJson?_toJson (h s hs)
  have hparts : parts? a.toJson = some (a.version, some a.steps, none) := by
    simp [parts?, toJson, record?_object, Record.need, Record.optional, Record.get?,
      Dictionary.get?_cons, hsteps]
  rw [parse, hread, Option.bind_some, hparts]

variable {steps : List Step}

theorem parse_ofSteps (steps : List Step)
    (hread : Json.ofText? (ofSteps steps).text = some (ofSteps steps).toJson) :
    parse (ofSteps steps).text = .ok (ofSteps steps) := by
  refine parse_text (fun s hs => ?_) hread
  obtain ⟨step, -, rfl⟩ := List.mem_map.mp hs
  exact StoredEdit.wellFormed_ofEdit step.edit

/-- There is nothing to upgrade in what is saved. -/
theorem upgrade_ofSteps (h : ∀ step ∈ steps, step.edit.WellFormed) (count : Nat) :
    (ofSteps steps).upgrade count = .ok (ofSteps steps) := by
  refine upgrade_of_current (fun s hs => ?_) (fun s hs => ?_) count
  · obtain ⟨step, -, rfl⟩ := List.mem_map.mp hs
    exact StoredEdit.isCurrent_ofEdit step.edit
  · obtain ⟨step, hstep, rfl⟩ := List.mem_map.mp hs
    exact StoredEdit.observable_ofEdit (h step hstep)

/-- What is saved of steps holds their edits. -/
theorem edits_ofSteps (h : ∀ step ∈ steps, step.edit.WellFormed) :
    (ofSteps steps).edits = .ok (steps.map Step.edit) := by
  refine mapM_eq_ok.mpr ?_
  rw [ofSteps, List.forall₂_map_left_iff, List.forall₂_map_right_iff, List.forall₂_same]
  exact fun step hstep => StoredEdit.edit_ofEdit (h step hstep)

end Analysis

namespace Edit

/-! ### Edits in any spelling -/

/-- A reader of one kind of edits yields edits of that kind. -/
theorem kind_of_ofJson? {k : EditKind} {j : Json} {e : Edit} (h : ofJson? k j = some e) :
    e.kind = k := by
  cases k <;> obtain ⟨_, -, rfl⟩ := Option.map_eq_some_iff.mp h <;> rfl

/-- Parts that are accepted are the name of a kind and parameters that are read. -/
theorem ofParts_eq_ok {name : String} {params : Json} {e : Edit} :
    ofParts name params = .ok e ↔ name = e.kind.name ∧ ofJson? e.kind params = some e := by
  constructor
  · intro h
    unfold ofParts at h
    split at h
    · cases h
    · next k hk =>
      split at h
      · next e' hread =>
        obtain rfl : e' = e := Except.ok.inj h
        obtain rfl := kind_of_ofJson? hread
        exact ⟨(EditKind.name_of_ofName? hk).symm, hread⟩
      · cases h
  · rintro ⟨rfl, hread⟩
    simp only [ofParts, EditKind.ofName?_name, hread]

/-- An edit of any kind is what its saved form decodes to.  Parts that were accepted, however
  they spell an edit, carry the name of its kind, and the form in which the edit is saved
  decodes to the same edit. -/
theorem saved_form_decodes :
    (∀ e : Edit, e.WellFormed → ofParts e.kind.name e.toJson = .ok e) ∧
    ∀ (name : String) (params : Json) (e : Edit), params.IsCanonical →
      ofParts name params = .ok e →
        name = e.kind.name ∧ e.WellFormed ∧ ofParts name e.toJson = .ok e := by
  have hback : ∀ e : Edit, e.WellFormed → ofParts e.kind.name e.toJson = .ok e :=
    fun e he => ofParts_eq_ok.mpr ⟨rfl, ofJson?_toJson he⟩
  refine ⟨hback, fun name params e hparams haccepted => ?_⟩
  have hformed : e.WellFormed := wellFormed_ofParts hparams haccepted
  obtain ⟨rfl, -⟩ := ofParts_eq_ok.mp haccepted
  exact ⟨rfl, hformed, hback e hformed⟩

end Edit

namespace Sample

/-- A filter list with a group in it and a filter without a value. -/
def nested : Edit :=
  .filterRows
    { sheet := 0
      column := ⟨"A"⟩
      operator := .or
      filters := [.group [⟨.number .greater, .int 1⟩, ⟨.number .less, .int 9⟩] .and,
        .filter ⟨.empty, .null⟩] }

/-- Parameters of a chart without its optional parts, and with a field that is skipped. -/
def terse : Json :=
  .object [("graph_creation", .object [("graph_type", .string "bar"), ("sheet_index", .int 0)]),
    ("graph_id", .string "g"), ("note", .string "skipped")]

/-- The chart that the short form stands for. -/
def spelledOut : Edit :=
  .drawChart
    { key := "g", shortens := false, kind := .bar, sheet := 0, x := [], y := [], color := none,
      styling := .null, rendering := .null }

end Sample

/-- The filter list with a group is read back, and the short form of a chart is saved in full. -/
theorem Edit.saved_form_decodes_nested :
    ofParts "filter_column" Sample.nested.toJson = .ok Sample.nested ∧
    Sample.terse.IsCanonical ∧ ofParts "graph" Sample.terse = .ok Sample.spelledOut ∧
    ofParts "graph" Sample.spelledOut.toJson = .ok Sample.spelledOut := by
  have hformed : Sample.nested.WellFormed := by
    refine ⟨by decide, fun f hf => ?_⟩
    rcases List.mem_cons.mp hf with rfl | hf
    · intro g hg
      rcases List.mem_pair.mp hg with rfl | rfl <;> rfl
    · obtain rfl := List.mem_singleton.mp hf
      rfl
  have hcanonical : Sample.terse.IsCanonical := rfl
  have haccepted : ofParts "graph" Sample.terse = .ok Sample.spelledOut := rfl
  obtain ⟨hback, hany⟩ := saved_form_decodes
  exact ⟨hback _ hformed, hcanonical, haccepted, (hany _ _ _ hcanonical haccepted).2.2⟩

end SheetScript
