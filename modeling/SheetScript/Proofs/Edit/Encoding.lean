import SheetScript.Proofs.Json.Records

/-! # Parameters that are written and read back

  The parameters of an edit are written as an object in canonical form and read back as a
  record.  Nothing is lost on the way if they are what their types can hold: indexes are
  words, dictionaries are in order, and JSON values are canonical.

  Main statement: `Edit.ofJson?_toJson`.
-/

namespace SheetScript

open Json

/-! ### What the types of parameters hold -/

/-- A filter whose value is in canonical form. -/
def Filter.WellFormed (f : Filter) : Prop := f.value.IsCanonical

/-- An entry of a filter list whose values are in canonical form. -/
def FilterOrGroup.WellFormed : FilterOrGroup → Prop
  | .filter f => f.WellFormed
  | .group filters _ => ∀ f ∈ filters, f.WellFormed

/-- A format of numbers whose precision is a word. -/
def NumberFormat.WellFormed (f : NumberFormat) : Prop := ∀ p ∈ f.precision, p < 0x100000000

/-- A format of a sheet with its number formats and its border in order. -/
structure SheetFormat.WellFormed (f : SheetFormat) : Prop where
  ascending : Dictionary.Ascending f.numbers
  numbers : ∀ e ∈ f.numbers, e.2.WellFormed
  border : (Json.object f.border).IsCanonical
  filters : ∀ c ∈ f.conditional, ∀ g ∈ c.filters, g.WellFormed

namespace Edit

/-- The indexes among the parameters. -/
def indexes : Edit → List Nat
  | .importFiles _ | .restrictHeaders _ => []
  | .addColumn e => [e.sheet]
  | .deleteColumns e => [e.sheet]
  | .renameColumn e => [e.sheet]
  | .moveColumn e => [e.sheet, e.position]
  | .setFormula e => [e.sheet]
  | .changeType e => [e.sheet]
  | .filterRows e => [e.sheet]
  | .sortRows e => [e.sheet]
  | .pivot e => e.sheet :: e.destination.toList
  | .merge e => [e.left, e.right]
  | .oneHot e => [e.sheet]
  | .promoteRow e => [e.sheet, e.row]
  | .duplicateSheet e => [e.sheet]
  | .deleteSheet e => [e.sheet]
  | .renameSheet e => [e.sheet]
  | .formatSheet e => [e.sheet]
  | .drawChart e => [e.sheet]
  | .exportSheets e => e.sheets

/-- An edit whose parameters are what their types can hold. -/
structure WellFormed (e : Edit) : Prop where
  indexes : ∀ i ∈ e.indexes, i < 0x10000000000000000
  values : match e with
    | .addColumn e => -0x8000000000000000 ≤ e.position ∧ e.position < 0x8000000000000000
    | .filterRows e => ∀ f ∈ e.filters, f.WellFormed
    | .pivot e => Dictionary.Ascending e.values
    | .formatSheet e => e.format.WellFormed
    | .drawChart e => e.styling.IsCanonical ∧ e.rendering.IsCanonical
    | _ => True

end Edit

/-! ### Names -/

theorem Condition.ofName?_name (c : Condition) : ofName? c.name = some c := by
  cases c with
  | number c => cases c <;> rfl
  | text m => cases m <;> rfl
  | truth b => cases b <;> rfl
  | empty => rfl
  | notEmpty => rfl
  | moment c => cases c <;> rfl

@[simp] theorem BoolOperator.ofJson?_toJson (o : BoolOperator) :
    ofJson? o.toJson.canonical = some o := by
  cases o <;> rfl

@[simp] theorem ValueKind.ofJson?_name (k : ValueKind) : ofJson? (.string k.name) = some k := by
  cases k <;> rfl

@[simp] theorem NumberStyle.ofJson?_name (s : NumberStyle) : ofJson? (.string s.name) = some s := by
  cases s <;> rfl

@[simp] theorem SortOrder.named?_name (o : SortOrder) :
    named? all name (.string o.name) = some o := by
  cases o <;> rfl

@[simp] theorem Aggregation.named?_name (a : Aggregation) :
    named? all name (.string a.name) = some a := by
  cases a <;> rfl

@[simp] theorem MergeKind.named?_name (k : MergeKind) :
    named? all name (.string k.name) = some k := by
  cases k <;> rfl

@[simp] theorem ChartKind.named?_name (k : ChartKind) :
    named? all name (.string k.name) = some k := by
  cases k <;> rfl

@[simp] theorem ExportKind.named?_name (k : ExportKind) :
    named? all name (.string k.name) = some k := by
  cases k <;> rfl

/-! ### Filters -/

theorem Filter.ofJson?_toJson {f : Filter} (h : f.WellFormed) :
    ofJson? f.toJson.canonical = some f := by
  have hvalue : f.value.canonical = f.value := h
  rw [toJson, ofJson?, record?_canonical]
  simp [Dictionary.get?_cons, hvalue, Condition.ofJson?, variant?, Condition.ofName?_name]

namespace FilterOrGroup

/-- A group is looked for under the names of its fields. -/
theorem group?_canonical (fields : List (String × Json)) :
    group? (Json.object fields).canonical
      = (do
          let r := Record.ofFields ["filters", "operator"] fields
          pure (.group (← r.need "filters" (Json.listOf? Filter.ofJson?))
            (← r.need "operator" BoolOperator.ofJson?))) := by
  have hobject : ((Json.object fields).canonical.fields?.map Json.object)
      = some (Json.object fields).canonical := by
    rw [canonical_object]
    rfl
  rw [group?, hobject]
  simp [record?_canonical]

theorem ofJson?_toJson {f : FilterOrGroup} (h : f.WellFormed) :
    ofJson? f.toJson.canonical = some f := by
  cases f with
  | filter f =>
    -- a filter has no field of a group
    have hgroup : group? f.toJson.canonical = none := by
      rw [Filter.toJson, group?_canonical]
      simp [Dictionary.get?_cons]
    rw [ofJson?, toJson, hgroup, Filter.ofJson?_toJson h]
    rfl
  | group filters operator =>
    have hfilters : listOf? Filter.ofJson? (Json.array (filters.map Filter.toJson)).canonical
        = some filters :=
      listOf?_canonical fun f hf => Filter.ofJson?_toJson (h f hf)
    rw [ofJson?, toJson, group?_canonical]
    simp [Dictionary.get?_cons, hfilters]

end FilterOrGroup

/-! ### Formats -/

theorem Colors.ofJson?_toJson (c : Colors) : ofJson? c.toJson.canonical = some c := by
  rw [toJson, ofJson?, record?_canonical]
  rcases c with ⟨_ | font, _ | fill⟩
    <;> simp [Record.optional, fields, fieldIfSome, Dictionary.get?_cons]

theorem RowColors.ofJson?_toJson (c : RowColors) : ofJson? c.toJson.canonical = some c := by
  -- colors are written as an object, never as the null that stands for none
  have hread : ∀ colors : Colors, Colors.ofJson? (.object (Dictionary.ofList
      (colors.fields.map fun f => (f.1, f.2.canonical)))) = some colors := by
    intro colors
    rw [← canonical_object]
    exact colors.ofJson?_toJson
  rw [toJson, ofJson?, record?_canonical]
  rcases c with ⟨_ | even, _ | odd⟩
    <;> simp [Record.optional, fieldIfSome, Dictionary.get?_cons, Colors.toJson, canonical_object,
      hread]

theorem NumberFormat.ofJson?_toJson {f : NumberFormat} (h : f.WellFormed) :
    ofJson? f.toJson.canonical = some f := by
  rw [toJson, ofJson?, record?_canonical]
  obtain ⟨style, _ | p⟩ := f
  · simp [Record.optional, Dictionary.get?_cons]
  · have hp : word32? (.int p) = some p := word32?_ofNat (h p rfl)
    simp [Record.optional, Dictionary.get?_cons, ofNat, hp]

theorem ConditionalFormat.ofJson?_toJson {f : ConditionalFormat}
    (h : ∀ g ∈ f.filters, g.WellFormed) : ofJson? f.toJson.canonical = some f := by
  have hfilters : listOf? Filter.ofJson? (Json.array (f.filters.map Filter.toJson)).canonical
      = some f.filters :=
    listOf?_canonical fun g hg => Filter.ofJson?_toJson (h g hg)
  -- one case for each way to leave fields out
  rw [toJson, ofJson?, record?_canonical]
  obtain ⟨key, columns, filters, _ | font, _ | fill⟩ := f
    <;> simp [Record.optional, Colors.fields, fieldIfSome, Dictionary.get?_cons, hfilters,
      Function.comp_def]

theorem SheetFormat.ofJson?_toJson {f : SheetFormat} (h : f.WellFormed) :
    ofJson? f.toJson.canonical = some f := by
  have hnumbers : dictionaryOf? NumberFormat.ofJson?
      (Json.object (f.numbers.map fun e => (e.1.text, e.2.toJson))).canonical
        = some (f.numbers.map fun e => (e.1.text, e.2)) :=
    dictionaryOf?_columns h.ascending fun e he => NumberFormat.ofJson?_toJson (h.numbers e he)
  have hborder : (Json.object f.border).canonical = .object f.border := h.border
  have hconditional : listOf? ConditionalFormat.ofJson?
      (Json.array (f.conditional.map ConditionalFormat.toJson)).canonical = some f.conditional :=
    listOf?_canonical fun c hc => ConditionalFormat.ofJson?_toJson (h.filters c hc)
  rw [toJson, ofJson?, record?_canonical]
  simp [Dictionary.get?_cons, Colors.ofJson?_toJson, RowColors.ofJson?_toJson, hnumbers, hborder,
    hconditional, Json.fields?, Function.comp_def, h.ascending.ofList_eq]

/-! ### Edits of each kind -/

theorem ImportFiles.ofJson?_fields (e : ImportFiles) :
    ofJson? (Json.object e.fields).canonical = some e := by
  rw [ofJson?, record?_canonical]
  obtain ⟨files, _ | _⟩ := e <;> simp [fields, fieldIfTrue, Dictionary.get?_cons]

theorem AddColumn.ofJson?_fields {e : AddColumn} (hsheet : e.sheet < 0x10000000000000000)
    (hposition : -0x8000000000000000 ≤ e.position ∧ e.position < 0x8000000000000000) :
    ofJson? (Json.object e.fields).canonical = some e := by
  rw [ofJson?, record?_canonical]
  simp [fields, Dictionary.get?_cons, hsheet, hposition]

theorem DeleteColumns.ofJson?_fields {e : DeleteColumns} (hsheet : e.sheet < 0x10000000000000000) :
    ofJson? (Json.object e.fields).canonical = some e := by
  rw [ofJson?, record?_canonical]
  simp [fields, Dictionary.get?_cons, hsheet]

theorem RenameColumn.ofJson?_fields {e : RenameColumn} (hsheet : e.sheet < 0x10000000000000000) :
    ofJson? (Json.object e.fields).canonical = some e := by
  rw [ofJson?, record?_canonical]
  simp [fields, Dictionary.get?_cons, hsheet]

theorem MoveColumn.ofJson?_fields {e : MoveColumn} (hsheet : e.sheet < 0x10000000000000000)
    (hposition : e.position < 0x10000000000000000) :
    ofJson? (Json.object e.fields).canonical = some e := by
  rw [ofJson?, record?_canonical]
  simp [fields, Dictionary.get?_cons, hsheet, hposition]

theorem SetFormula.ofJson?_fields {e : SetFormula} (hsheet : e.sheet < 0x10000000000000000) :
    ofJson? (Json.object e.fields).canonical = some e := by
  rw [ofJson?, record?_canonical]
  obtain ⟨sheet, column, formula, _ | before⟩ := e
    <;> simp [Record.optional, fields, fieldIfSome, Dictionary.get?_cons, hsheet]

theorem ChangeType.ofJson?_fields {e : ChangeType} (hsheet : e.sheet < 0x10000000000000000) :
    ofJson? (Json.object e.fields).canonical = some e := by
  rw [ofJson?, record?_canonical]
  simp [fields, Dictionary.get?_cons, hsheet]

theorem FilterRows.ofJson?_fields {e : FilterRows} (hsheet : e.sheet < 0x10000000000000000)
    (hfilters : ∀ f ∈ e.filters, f.WellFormed) :
    ofJson? (Json.object e.fields).canonical = some e := by
  have hlist : listOf? FilterOrGroup.ofJson?
      (Json.array (e.filters.map FilterOrGroup.toJson)).canonical = some e.filters :=
    listOf?_canonical fun f hf => FilterOrGroup.ofJson?_toJson (hfilters f hf)
  rw [ofJson?, record?_canonical]
  simp [fields, Dictionary.get?_cons, hsheet, hlist]

theorem SortRows.ofJson?_fields {e : SortRows} (hsheet : e.sheet < 0x10000000000000000) :
    ofJson? (Json.object e.fields).canonical = some e := by
  rw [ofJson?, record?_canonical]
  simp [fields, Dictionary.get?_cons, hsheet]

/-- The aggregations of a pivot table are read back column by column. -/
theorem Pivot.values?_canonical {d : Dictionary ColumnId (List Aggregation)}
    (h : Dictionary.Ascending d) :
    values? (Json.object (d.map fun v => (v.1.text, ofTexts (v.2.map Aggregation.name)))).canonical
      = some d := by
  have hlist : ∀ v ∈ d, listOf? (named? Aggregation.all Aggregation.name)
      (ofTexts (v.2.map Aggregation.name)).canonical = some v.2 := by
    intro v _
    rw [ofTexts, List.map_map]
    exact listOf?_canonical fun a _ => a.named?_name
  rw [values?, @dictionaryOf?_columns _ _ (fun as => ofTexts (as.map Aggregation.name)) d h hlist]
  simp [Function.comp_def]

theorem Pivot.ofJson?_fields {e : Pivot} (hsheet : e.sheet < 0x10000000000000000)
    (hdestination : ∀ i ∈ e.destination, i < 0x10000000000000000)
    (hvalues : Dictionary.Ascending e.values) :
    ofJson? (Json.object e.fields).canonical = some e := by
  have hread := Pivot.values?_canonical hvalues
  -- again one case for each way to leave fields out
  rw [ofJson?, record?_canonical]
  obtain ⟨sheet, rows, columns, values, flattens, _ | i, _ | _⟩ := e
    <;> simp [Record.optional, fields, fieldIfSome, fieldIfTrue, Dictionary.get?_cons, ofNat,
      hsheet, hdestination, hread]

theorem Merge.ofJson?_fields {e : Merge} (hleft : e.left < 0x10000000000000000)
    (hright : e.right < 0x10000000000000000) :
    ofJson? (Json.object e.fields).canonical = some e := by
  have hkeys : listOf? columnPair?
      (Json.array (e.keys.map fun k => ofColumnIds [k.1, k.2])).canonical = some e.keys :=
    listOf?_canonical fun k _ => rfl
  rw [ofJson?, record?_canonical]
  simp [fields, Dictionary.get?_cons, hleft, hright, hkeys]

theorem OneHot.ofJson?_fields {e : OneHot} (hsheet : e.sheet < 0x10000000000000000) :
    ofJson? (Json.object e.fields).canonical = some e := by
  rw [ofJson?, record?_canonical]
  simp [fields, Dictionary.get?_cons, hsheet]

theorem PromoteRow.ofJson?_fields {e : PromoteRow} (hsheet : e.sheet < 0x10000000000000000)
    (hrow : e.row < 0x10000000000000000) :
    ofJson? (Json.object e.fields).canonical = some e := by
  rw [ofJson?, record?_canonical]
  simp [fields, Dictionary.get?_cons, hsheet, hrow]

theorem sheetIndex?_canonical {i : Nat} (h : i < 0x10000000000000000) :
    (Json.object [("sheet_index", ofNat i)]).canonical.sheetIndex? = some i := by
  rw [Json.sheetIndex?, record?_canonical]
  simp [Dictionary.get?_cons, h]

theorem RenameSheet.ofJson?_fields {e : RenameSheet} (hsheet : e.sheet < 0x10000000000000000) :
    ofJson? (Json.object e.fields).canonical = some e := by
  rw [ofJson?, record?_canonical]
  simp [fields, Dictionary.get?_cons, hsheet]

theorem FormatSheet.ofJson?_fields {e : FormatSheet} (hsheet : e.sheet < 0x10000000000000000)
    (hformat : e.format.WellFormed) : ofJson? (Json.object e.fields).canonical = some e := by
  rw [ofJson?, record?_canonical]
  simp [fields, Dictionary.get?_cons, hsheet, SheetFormat.ofJson?_toJson hformat]

theorem DrawChart.ofJson?_fields {e : DrawChart} (hsheet : e.sheet < 0x10000000000000000)
    (hstyling : e.styling.IsCanonical) (hrendering : e.rendering.IsCanonical) :
    ofJson? (Json.object e.fields).canonical = some e := by
  have hstyling : e.styling.canonical = e.styling := hstyling
  have hrendering : e.rendering.canonical = e.rendering := hrendering
  -- the switch is a record of its own
  have hshortens : shortens? (Json.object [("safety_filter_turned_on_by_user",
      .bool e.shortens)]).canonical = some e.shortens := by
    rw [shortens?, record?_canonical]
    simp [Dictionary.get?_cons]
  rw [ofJson?, record?_canonical]
  obtain ⟨key, shortens, kind, sheet, x, y, _ | color, styling, rendering⟩ := e
    <;> simp [Record.optional, fields, fieldIfSome, Dictionary.get?_cons, record?_canonical, hsheet,
      hstyling, hrendering, hshortens, ofColumnId, columnId?]

theorem ExportSheets.ofJson?_fields {e : ExportSheets}
    (hsheets : ∀ i ∈ e.sheets, i < 0x10000000000000000) :
    ofJson? (Json.object e.fields).canonical = some e := by
  have hlist : listOf? index? (Json.array (e.sheets.map ofNat)).canonical = some e.sheets :=
    listOf?_canonical fun i hi => index?_ofNat (hsheets i hi)
  rw [ofJson?, record?_canonical]
  simp [fields, Dictionary.get?_cons, hlist]

theorem RestrictHeaders.ofJson?_fields (e : RestrictHeaders) :
    ofJson? (Json.object e.fields).canonical = some e := by
  rw [ofJson?, record?_canonical]
  obtain ⟨_ | _⟩ := e <;> simp [fields, fieldIfTrue, Dictionary.get?_cons]

/-- The parameters of an edit are read back from what is written. -/
theorem Edit.ofJson?_toJson {e : Edit} (h : e.WellFormed) : ofJson? e.kind e.toJson = some e := by
  obtain ⟨hindexes, hvalues⟩ := h
  cases e with
  | importFiles e => exact congrArg (Option.map importFiles) e.ofJson?_fields
  | addColumn e =>
    exact congrArg (Option.map addColumn)
      (AddColumn.ofJson?_fields (hindexes _ (.head _)) hvalues)
  | deleteColumns e =>
    exact congrArg (Option.map deleteColumns) (DeleteColumns.ofJson?_fields (hindexes _ (.head _)))
  | renameColumn e =>
    exact congrArg (Option.map renameColumn) (RenameColumn.ofJson?_fields (hindexes _ (.head _)))
  | moveColumn e =>
    exact congrArg (Option.map moveColumn)
      (MoveColumn.ofJson?_fields (hindexes _ (.head _)) (hindexes _ (.tail _ (.head _))))
  | setFormula e =>
    exact congrArg (Option.map setFormula) (SetFormula.ofJson?_fields (hindexes _ (.head _)))
  | changeType e =>
    exact congrArg (Option.map changeType) (ChangeType.ofJson?_fields (hindexes _ (.head _)))
  | filterRows e =>
    exact congrArg (Option.map filterRows)
      (FilterRows.ofJson?_fields (hindexes _ (.head _)) hvalues)
  | sortRows e =>
    exact congrArg (Option.map sortRows) (SortRows.ofJson?_fields (hindexes _ (.head _)))
  | pivot e =>
    have hdestination : ∀ i ∈ e.destination, i < 0x10000000000000000 := fun i hi =>
      hindexes i (.tail _ (Option.mem_toList.mpr hi))
    exact congrArg (Option.map pivot)
      (Pivot.ofJson?_fields (hindexes _ (.head _)) hdestination hvalues)
  | merge e =>
    exact congrArg (Option.map merge)
      (Merge.ofJson?_fields (hindexes _ (.head _)) (hindexes _ (.tail _ (.head _))))
  | oneHot e => exact congrArg (Option.map oneHot) (OneHot.ofJson?_fields (hindexes _ (.head _)))
  | promoteRow e =>
    exact congrArg (Option.map promoteRow)
      (PromoteRow.ofJson?_fields (hindexes _ (.head _)) (hindexes _ (.tail _ (.head _))))
  | duplicateSheet e =>
    exact congrArg (Option.map fun i => duplicateSheet ⟨i⟩)
      (sheetIndex?_canonical (hindexes _ (.head _)))
  | deleteSheet e =>
    exact congrArg (Option.map fun i => deleteSheet ⟨i⟩)
      (sheetIndex?_canonical (hindexes _ (.head _)))
  | renameSheet e =>
    exact congrArg (Option.map renameSheet) (RenameSheet.ofJson?_fields (hindexes _ (.head _)))
  | formatSheet e =>
    exact congrArg (Option.map formatSheet)
      (FormatSheet.ofJson?_fields (hindexes _ (.head _)) hvalues)
  | drawChart e =>
    exact congrArg (Option.map drawChart)
      (DrawChart.ofJson?_fields (hindexes _ (.head _)) hvalues.1 hvalues.2)
  | exportSheets e =>
    exact congrArg (Option.map exportSheets) (ExportSheets.ofJson?_fields hindexes)
  | restrictHeaders e => exact congrArg (Option.map restrictHeaders) e.ofJson?_fields

end SheetScript
