import SheetScript.Proofs.Edit.Encoding

/-! # Parameters that are read

  What is read from a JSON value in canonical form is what its type can hold.  A reader is
  described by what it yields, and readers of records, lists and dictionaries by what the
  readers of their parts yield.

  Main statement: `Edit.yields_ofJson?`, the converse of what `Edit.ofJson?_toJson` asks for.
-/

namespace SheetScript

open Json

namespace Json

/-! ### Readers -/

/-- The results for a list are each of one of its items. -/
theorem exists_of_mem_mapM {α β : Type} {f : α → Option β} {l : List α} {bs : List β}
    (h : l.mapM f = some bs) : ∀ b ∈ bs, ∃ a ∈ l, f a = some b := by
  induction l generalizing bs with
  | nil =>
    obtain rfl : [] = bs := by simpa using h
    exact fun b hb => nomatch hb
  | cons a rest ih =>
    simp only [List.mapM_cons, Option.bind_eq_bind, Option.bind_eq_some_iff, Option.pure_def,
      Option.some.injEq] at h
    obtain ⟨first, hfirst, later, hlater, rfl⟩ := h
    refine List.forall_mem_cons.mpr ⟨⟨a, List.mem_cons_self, hfirst⟩, fun b hb => ?_⟩
    obtain ⟨a', ha', hb'⟩ := ih hlater b hb
    exact ⟨a', List.mem_cons_of_mem _ ha', hb'⟩

variable {α : Type} {read : Json → Option α} {j : Json}

theorem exists_of_mem_listOf? {l : List α} (h : listOf? read j = some l) {a : α} (ha : a ∈ l) :
    ∃ items, j = .array items ∧ ∃ item ∈ items, read item = some a := by
  cases j with
  | array items => exact ⟨items, rfl, exists_of_mem_mapM h a ha⟩
  | _ => cases h

theorem exists_of_mem_dictionaryOf? {d : Dictionary String α} (h : dictionaryOf? read j = some d)
    {e : String × α} (he : e ∈ d) :
    ∃ fields, j = .object fields ∧ ∃ f ∈ fields, read f.2 = some e.2 := by
  obtain ⟨entries, hentries, rfl⟩ := Option.map_eq_some_iff.mp h
  cases j with
  | object fields =>
    obtain ⟨f, hf, hread⟩ := exists_of_mem_mapM hentries e (Dictionary.mem_of_mem_ofList he)
    obtain ⟨a, ha, rfl⟩ := Option.map_eq_some_iff.mp hread
    exact ⟨fields, rfl, f, hf, ha⟩
  | _ => cases hentries

theorem Record.exists_of_mem_optional {r : Record} {name : String} {o : Option α}
    (h : r.optional name read = some o) {a : α} (ha : a ∈ o) :
    ∃ j, r.get? name = some j ∧ read j = some a := by
  unfold Record.optional at h
  split at h
  · cases h
    cases ha
  · cases h
    cases ha
  · next j _ hj =>
    obtain ⟨b, hb, rfl⟩ := Option.map_eq_some_iff.mp h
    obtain rfl := Option.some.inj ha
    exact ⟨j, hj, hb⟩

theorem word32?_lt {n : Nat} (h : word32? j = some n) : n < 0x100000000 := by
  obtain ⟨m, -, h⟩ := Option.bind_eq_some_iff.mp h
  split at h
  · next hlt =>
    cases h
    exact hlt
  · cases h

/-- A reader that yields only values with a property, from values in canonical form. -/
def Yields {α : Type} (read : Json → Option α) (P : α → Prop) : Prop :=
  ∀ j a, j.IsCanonical → read j = some a → P a

/-- A record whose fields are canonical. -/
def Record.IsCanonical (r : Record) : Prop := ∀ f ∈ r.given, f.2.IsCanonical

theorem IsCanonical.record {j : Json} (hj : j.IsCanonical) {names : List String} {r : Record}
    (h : j.record? names = some r) : r.IsCanonical := by
  cases j with
  | object fields =>
    unfold record? at h
    dsimp only at h
    split at h
    · cases h
      exact fun f hf => hj.fields.2 f (List.mem_filter.mp hf).1
    · cases h
  | array items =>
    unfold record? at h
    dsimp only at h
    split at h
    · cases h
      exact fun f hf => hj.items f.2 (List.of_mem_zip hf).2
    · cases h
  | _ => cases h

theorem Record.IsCanonical.get? {r : Record} (hr : r.IsCanonical) {name : String} {j : Json}
    (h : r.get? name = some j) : j.IsCanonical :=
  hr _ (Dictionary.mem_of_get? h)

namespace Yields

variable {α : Type} {read : Json → Option α} {P : α → Prop} {r : Record} {name : String}

theorem need (hread : Yields read P) (hr : r.IsCanonical) {a : α} (h : r.need name read = some a) :
    P a := by
  obtain ⟨j, hj, ha⟩ := Option.bind_eq_some_iff.mp h
  exact hread j a (hr.get? hj) ha

theorem orElse (hread : Yields read P) (hr : r.IsCanonical) {default a : α} (hdefault : P default)
    (h : r.orElse name default read = some a) : P a := by
  unfold Record.orElse at h
  split at h
  · cases h
    exact hdefault
  · next j hj => exact hread j a (hr.get? hj) h

theorem optional (hread : Yields read P) (hr : r.IsCanonical) {o : Option α}
    (h : r.optional name read = some o) : ∀ a ∈ o, P a := by
  intro a ha
  obtain ⟨j, hj, hfieldRead⟩ := Record.exists_of_mem_optional h ha
  exact hread j a (hr.get? hj) hfieldRead

theorem listOf? (hread : Yields read P) : Yields (Json.listOf? read) fun l => ∀ a ∈ l, P a := by
  intro j l hj h a ha
  obtain ⟨items, rfl, item, hitem, hitemRead⟩ := exists_of_mem_listOf? h ha
  exact hread item a (hj.items item hitem) hitemRead

theorem dictionaryOf? (hread : Yields read P) :
    Yields (Json.dictionaryOf? read) fun d => Dictionary.Ascending d ∧ ∀ e ∈ d, P e.2 := by
  intro j d hj h
  refine ⟨?_, fun e he => ?_⟩
  · obtain ⟨entries, -, rfl⟩ := Option.map_eq_some_iff.mp h
    exact Dictionary.ascending_ofList entries
  · obtain ⟨fields, rfl, f, hf, hfieldRead⟩ := exists_of_mem_dictionaryOf? h he
    exact hread f.2 e.2 (hj.fields.2 f hf) hfieldRead

/-- A reader of which nothing is asked. -/
theorem any (read : Json → Option α) : Yields read fun _ => True := fun _ _ _ _ => trivial

theorem some : Yields Option.some Json.IsCanonical := by
  intro j a hj h
  cases h
  exact hj

theorem map {β : Type} {Q : β → Prop} (hread : Yields read P) {f : α → β}
    (hf : ∀ a, P a → Q (f a)) : Yields (fun j => (read j).map f) Q := by
  intro j b hj h
  obtain ⟨a, ha, rfl⟩ := Option.map_eq_some_iff.mp h
  exact hf a (hread j a hj ha)

theorem index? : Yields Json.index? (· < 0x10000000000000000) := by
  intro j n _ h
  unfold Json.index? at h
  split at h
  · split at h
    · next hlt =>
      cases h
      exact hlt
    · cases h
  · cases h

theorem word32? : Yields Json.word32? (· < 0x100000000) := fun _ _ _ h => word32?_lt h

theorem int64? : Yields Json.int64? fun n => -0x8000000000000000 ≤ n ∧ n < 0x8000000000000000 := by
  intro j n _ h
  unfold Json.int64? at h
  split at h
  · split at h
    · next hfits =>
      cases h
      exact hfits
    · cases h
  · cases h

theorem fields? : Yields Json.fields? fun fields => (Json.object fields).IsCanonical := by
  intro j fields hj h
  cases j with
  | object fields' =>
    cases h
    exact hj
  | _ => cases h

end Yields

end Json

/-! ### Filters and formats -/

theorem Filter.yields_ofJson? : Yields Filter.ofJson? Filter.WellFormed := by
  intro j f hj h
  simp only [Filter.ofJson?, Option.bind_eq_bind, Option.bind_eq_some_iff, Option.pure_def,
    Option.some.injEq] at h
  obtain ⟨r, hr, condition, -, value, hvalue, rfl⟩ := h
  exact Yields.some.orElse (hj.record hr) (isCanonical_canonical .null) hvalue

theorem FilterOrGroup.yields_ofJson? : Yields FilterOrGroup.ofJson? FilterOrGroup.WellFormed := by
  intro j f hj h
  unfold FilterOrGroup.ofJson? at h
  cases hgroup : group? j with
  | none =>
    rw [hgroup] at h
    obtain ⟨g, hg, rfl⟩ := Option.map_eq_some_iff.mp h
    exact Filter.yields_ofJson? j g hj hg
  | some g =>
    rw [hgroup] at h
    obtain rfl : g = f := Option.some.inj h
    simp only [group?, Option.bind_eq_bind, Option.bind_eq_some_iff, Option.pure_def,
      Option.some.injEq, Option.map_eq_some_iff] at hgroup
    -- a group has to be an object, and is read again as a record
    obtain ⟨_, ⟨fields, hfields, rfl⟩, r, hr, filters, hfilters, operator, -, rfl⟩ := hgroup
    exact Filter.yields_ofJson?.listOf?.need ((Yields.fields? j fields hj hfields).record hr)
      hfilters

theorem NumberFormat.yields_ofJson? : Yields NumberFormat.ofJson? NumberFormat.WellFormed := by
  intro j f hj h
  simp only [NumberFormat.ofJson?, Option.bind_eq_bind, Option.bind_eq_some_iff, Option.pure_def,
    Option.some.injEq] at h
  obtain ⟨r, hr, style, -, precision, hprecision, rfl⟩ := h
  exact Yields.word32?.optional (hj.record hr) hprecision

theorem ConditionalFormat.yields_ofJson? :
    Yields ConditionalFormat.ofJson? fun f => ∀ g ∈ f.filters, g.WellFormed := by
  intro j f hj h
  simp only [ConditionalFormat.ofJson?, Option.bind_eq_bind, Option.bind_eq_some_iff,
    Option.pure_def, Option.some.injEq] at h
  obtain ⟨r, hr, key, -, columns, -, filters, hfilters, font, -, fill, -, rfl⟩ := h
  exact Filter.yields_ofJson?.listOf?.need (hj.record hr) hfilters

theorem SheetFormat.yields_ofJson? : Yields SheetFormat.ofJson? SheetFormat.WellFormed := by
  intro j f hj h
  simp only [SheetFormat.ofJson?, Option.bind_eq_bind, Option.bind_eq_some_iff, Option.pure_def,
    Option.some.injEq] at h
  obtain ⟨r, hr, header, -, numbers, hnumbers, rows, -, border, hborder, conditional,
    hconditional, rfl⟩ := h
  have hrecord := hj.record hr
  have hall := NumberFormat.yields_ofJson?.dictionaryOf?.orElse hrecord
    ⟨Dictionary.ascending_nil, List.forall_mem_nil _⟩ hnumbers
  refine ⟨Dictionary.ascending_ofList _, fun e he => ?_, ?_, ?_⟩
  · obtain ⟨e', he', rfl⟩ := List.mem_map.mp (Dictionary.mem_of_mem_ofList he)
    exact hall.2 e' he'
  · exact Yields.fields?.orElse hrecord (isCanonical_canonical (.object [])) hborder
  · exact ConditionalFormat.yields_ofJson?.listOf?.orElse hrecord (List.forall_mem_nil _)
      hconditional

/-! ### Edits -/

theorem Json.Yields.sheetIndex? : Yields Json.sheetIndex? (· < 0x10000000000000000) := by
  intro j i hj h
  obtain ⟨r, hr, hindex⟩ := Option.bind_eq_some_iff.mp h
  exact Yields.index?.need (hj.record hr) hindex

theorem Pivot.yields_values? : Yields Pivot.values? Dictionary.Ascending := by
  intro j d hj h
  obtain ⟨d', hd', rfl⟩ := Option.map_eq_some_iff.mp h
  -- the keys are read as column ids, in the order of their texts
  have hascending := ((Yields.any _).listOf?.dictionaryOf? j d' hj hd').1
  have hpairs : d'.Pairwise fun a b => a.1 < b.1 := List.pairwise_map.mp hascending
  exact List.pairwise_map.mpr (List.pairwise_map.mpr hpairs)

theorem AddColumn.yields_ofJson? :
    Yields AddColumn.ofJson? fun e => (Edit.addColumn e).WellFormed := by
  intro j e hj h
  simp only [AddColumn.ofJson?, Option.bind_eq_bind, Option.bind_eq_some_iff, Option.pure_def,
    Option.some.injEq] at h
  obtain ⟨r, hr, sheet, hsheet, header, -, position, hposition, rfl⟩ := h
  exact ⟨List.forall_mem_singleton.mpr (Yields.index?.need (hj.record hr) hsheet),
    Yields.int64?.need (hj.record hr) hposition⟩

theorem DeleteColumns.yields_ofJson? :
    Yields DeleteColumns.ofJson? fun e => (Edit.deleteColumns e).WellFormed := by
  intro j e hj h
  simp only [DeleteColumns.ofJson?, Option.bind_eq_bind, Option.bind_eq_some_iff, Option.pure_def,
    Option.some.injEq] at h
  obtain ⟨r, hr, sheet, hsheet, columns, -, rfl⟩ := h
  exact ⟨List.forall_mem_singleton.mpr (Yields.index?.need (hj.record hr) hsheet), trivial⟩

theorem RenameColumn.yields_ofJson? :
    Yields RenameColumn.ofJson? fun e => (Edit.renameColumn e).WellFormed := by
  intro j e hj h
  simp only [RenameColumn.ofJson?, Option.bind_eq_bind, Option.bind_eq_some_iff, Option.pure_def,
    Option.some.injEq] at h
  obtain ⟨r, hr, sheet, hsheet, column, -, header, -, rfl⟩ := h
  exact ⟨List.forall_mem_singleton.mpr (Yields.index?.need (hj.record hr) hsheet), trivial⟩

theorem MoveColumn.yields_ofJson? :
    Yields MoveColumn.ofJson? fun e => (Edit.moveColumn e).WellFormed := by
  intro j e hj h
  simp only [MoveColumn.ofJson?, Option.bind_eq_bind, Option.bind_eq_some_iff, Option.pure_def,
    Option.some.injEq] at h
  obtain ⟨r, hr, sheet, hsheet, column, -, position, hposition, rfl⟩ := h
  have hrecord := hj.record hr
  exact ⟨List.forall_mem_cons.mpr ⟨Yields.index?.need hrecord hsheet,
    List.forall_mem_singleton.mpr (Yields.index?.need hrecord hposition)⟩, trivial⟩

theorem SetFormula.yields_ofJson? :
    Yields SetFormula.ofJson? fun e => (Edit.setFormula e).WellFormed := by
  intro j e hj h
  simp only [SetFormula.ofJson?, Option.bind_eq_bind, Option.bind_eq_some_iff, Option.pure_def,
    Option.some.injEq] at h
  obtain ⟨r, hr, sheet, hsheet, column, -, formula, -, before, -, rfl⟩ := h
  exact ⟨List.forall_mem_singleton.mpr (Yields.index?.need (hj.record hr) hsheet), trivial⟩

theorem ChangeType.yields_ofJson? :
    Yields ChangeType.ofJson? fun e => (Edit.changeType e).WellFormed := by
  intro j e hj h
  simp only [ChangeType.ofJson?, Option.bind_eq_bind, Option.bind_eq_some_iff, Option.pure_def,
    Option.some.injEq] at h
  obtain ⟨r, hr, sheet, hsheet, column, -, before, -, kind, -, rfl⟩ := h
  exact ⟨List.forall_mem_singleton.mpr (Yields.index?.need (hj.record hr) hsheet), trivial⟩

theorem FilterRows.yields_ofJson? :
    Yields FilterRows.ofJson? fun e => (Edit.filterRows e).WellFormed := by
  intro j e hj h
  simp only [FilterRows.ofJson?, Option.bind_eq_bind, Option.bind_eq_some_iff, Option.pure_def,
    Option.some.injEq] at h
  obtain ⟨r, hr, sheet, hsheet, column, -, operator, -, filters, hfilters, rfl⟩ := h
  exact ⟨List.forall_mem_singleton.mpr (Yields.index?.need (hj.record hr) hsheet),
    FilterOrGroup.yields_ofJson?.listOf?.need (hj.record hr) hfilters⟩

theorem SortRows.yields_ofJson? :
    Yields SortRows.ofJson? fun e => (Edit.sortRows e).WellFormed := by
  intro j e hj h
  simp only [SortRows.ofJson?, Option.bind_eq_bind, Option.bind_eq_some_iff, Option.pure_def,
    Option.some.injEq] at h
  obtain ⟨r, hr, sheet, hsheet, column, -, order, -, rfl⟩ := h
  exact ⟨List.forall_mem_singleton.mpr (Yields.index?.need (hj.record hr) hsheet), trivial⟩

theorem Pivot.yields_ofJson? : Yields Pivot.ofJson? fun e => (Edit.pivot e).WellFormed := by
  intro j e hj h
  simp only [Pivot.ofJson?, Option.bind_eq_bind, Option.bind_eq_some_iff, Option.pure_def,
    Option.some.injEq] at h
  obtain ⟨r, hr, sheet, hsheet, rows, -, columns, -, values, hvalues, flattens, -, destination,
    hdestination, underscores, -, rfl⟩ := h
  have hrecord := hj.record hr
  refine ⟨List.forall_mem_cons.mpr ⟨Yields.index?.need hrecord hsheet, fun i hi => ?_⟩,
    Pivot.yields_values?.need hrecord hvalues⟩
  exact Yields.index?.optional hrecord hdestination i (Option.mem_toList.mp hi)

theorem Merge.yields_ofJson? : Yields Merge.ofJson? fun e => (Edit.merge e).WellFormed := by
  intro j e hj h
  simp only [Merge.ofJson?, Option.bind_eq_bind, Option.bind_eq_some_iff, Option.pure_def,
    Option.some.injEq] at h
  obtain ⟨r, hr, kind, -, left, hleft, right, hright, keys, -, leftColumns, -, rightColumns, -,
    rfl⟩ := h
  have hrecord := hj.record hr
  exact ⟨List.forall_mem_cons.mpr ⟨Yields.index?.need hrecord hleft,
    List.forall_mem_singleton.mpr (Yields.index?.need hrecord hright)⟩, trivial⟩

theorem OneHot.yields_ofJson? : Yields OneHot.ofJson? fun e => (Edit.oneHot e).WellFormed := by
  intro j e hj h
  simp only [OneHot.ofJson?, Option.bind_eq_bind, Option.bind_eq_some_iff, Option.pure_def,
    Option.some.injEq] at h
  obtain ⟨r, hr, sheet, hsheet, column, -, rfl⟩ := h
  exact ⟨List.forall_mem_singleton.mpr (Yields.index?.need (hj.record hr) hsheet), trivial⟩

theorem PromoteRow.yields_ofJson? :
    Yields PromoteRow.ofJson? fun e => (Edit.promoteRow e).WellFormed := by
  intro j e hj h
  simp only [PromoteRow.ofJson?, Option.bind_eq_bind, Option.bind_eq_some_iff, Option.pure_def,
    Option.some.injEq] at h
  obtain ⟨r, hr, sheet, hsheet, row, hrow, rfl⟩ := h
  have hrecord := hj.record hr
  exact ⟨List.forall_mem_cons.mpr ⟨Yields.index?.need hrecord hsheet,
    List.forall_mem_singleton.mpr (Yields.index?.need hrecord hrow)⟩, trivial⟩

theorem RenameSheet.yields_ofJson? :
    Yields RenameSheet.ofJson? fun e => (Edit.renameSheet e).WellFormed := by
  intro j e hj h
  simp only [RenameSheet.ofJson?, Option.bind_eq_bind, Option.bind_eq_some_iff, Option.pure_def,
    Option.some.injEq] at h
  obtain ⟨r, hr, sheet, hsheet, name, -, rfl⟩ := h
  exact ⟨List.forall_mem_singleton.mpr (Yields.index?.need (hj.record hr) hsheet), trivial⟩

theorem FormatSheet.yields_ofJson? :
    Yields FormatSheet.ofJson? fun e => (Edit.formatSheet e).WellFormed := by
  intro j e hj h
  simp only [FormatSheet.ofJson?, Option.bind_eq_bind, Option.bind_eq_some_iff, Option.pure_def,
    Option.some.injEq] at h
  obtain ⟨r, hr, sheet, hsheet, format, hformat, rfl⟩ := h
  exact ⟨List.forall_mem_singleton.mpr (Yields.index?.need (hj.record hr) hsheet),
    SheetFormat.yields_ofJson?.need (hj.record hr) hformat⟩

theorem DrawChart.yields_ofJson? :
    Yields DrawChart.ofJson? fun e => (Edit.drawChart e).WellFormed := by
  intro j e hj h
  simp only [DrawChart.ofJson?, Option.bind_eq_bind, Option.bind_eq_some_iff, Option.pure_def,
    Option.some.injEq] at h
  obtain ⟨r, hr, key, -, shortens, -, creation, hcreation, styling, hstyling, rendering, hrendering,
    kind, -, sheet, hsheet, x, -, y, -, color, -, rfl⟩ := h
  have hrecord := hj.record hr
  -- the creation parameters are a record inside the record
  have hpart : creation.IsCanonical :=
    Yields.need (fun c r' hc hr' => hc.record hr') hrecord hcreation
  have hnull : Json.null.IsCanonical := isCanonical_canonical .null
  exact ⟨List.forall_mem_singleton.mpr (Yields.index?.need hpart hsheet),
    Yields.some.orElse hrecord hnull hstyling, Yields.some.orElse hrecord hnull hrendering⟩

theorem ExportSheets.yields_ofJson? :
    Yields ExportSheets.ofJson? fun e => (Edit.exportSheets e).WellFormed := by
  intro j e hj h
  simp only [ExportSheets.ofJson?, Option.bind_eq_bind, Option.bind_eq_some_iff, Option.pure_def,
    Option.some.injEq] at h
  obtain ⟨r, hr, kind, -, sheets, hsheets, path, -, withFormats, -, rfl⟩ := h
  exact ⟨Yields.index?.listOf?.need (hj.record hr) hsheets, trivial⟩

/-- What is read as an edit is well-formed. -/
theorem Edit.yields_ofJson? (k : EditKind) : Yields (Edit.ofJson? k) Edit.WellFormed := by
  cases k with
  | importFiles => exact (Yields.any _).map fun e _ => ⟨fun i hi => (nomatch hi), trivial⟩
  | addColumn => exact AddColumn.yields_ofJson?.map fun _ he => he
  | deleteColumns => exact DeleteColumns.yields_ofJson?.map fun _ he => he
  | renameColumn => exact RenameColumn.yields_ofJson?.map fun _ he => he
  | moveColumn => exact MoveColumn.yields_ofJson?.map fun _ he => he
  | setFormula => exact SetFormula.yields_ofJson?.map fun _ he => he
  | changeType => exact ChangeType.yields_ofJson?.map fun _ he => he
  | filterRows => exact FilterRows.yields_ofJson?.map fun _ he => he
  | sortRows => exact SortRows.yields_ofJson?.map fun _ he => he
  | pivot => exact Pivot.yields_ofJson?.map fun _ he => he
  | merge => exact Merge.yields_ofJson?.map fun _ he => he
  | oneHot => exact OneHot.yields_ofJson?.map fun _ he => he
  | promoteRow => exact PromoteRow.yields_ofJson?.map fun _ he => he
  | duplicateSheet | deleteSheet =>
    exact Yields.sheetIndex?.map fun _ hi => ⟨List.forall_mem_singleton.mpr hi, trivial⟩
  | renameSheet => exact RenameSheet.yields_ofJson?.map fun _ he => he
  | formatSheet => exact FormatSheet.yields_ofJson?.map fun _ he => he
  | drawChart => exact DrawChart.yields_ofJson?.map fun _ he => he
  | exportSheets => exact ExportSheets.yields_ofJson?.map fun _ he => he
  | restrictHeaders => exact (Yields.any _).map fun e _ => ⟨fun i hi => (nomatch hi), trivial⟩

theorem Edit.wellFormed_ofParts {name : String} {params : Json} {e : Edit}
    (hparams : params.IsCanonical) (h : Edit.ofParts name params = .ok e) : e.WellFormed := by
  unfold Edit.ofParts at h
  split at h
  · cases h
  · next k _ =>
    split at h
    · next hread => exact Except.ok.inj h ▸ Edit.yields_ofJson? k params _ hparams hread
    · cases h

end SheetScript
