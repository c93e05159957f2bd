import SheetScript.Proofs.Coverage.LegacyHeaders
import SheetScript.Proofs.Steps

/-! # What edits do to the list of sheets

  What an edit does to the list of sheets is one of few things: it puts another sheet
  in the place of one, takes one out, or adds sheets at the end.  Only the edit that
  restricts headers goes through all sheets.

  - `Edit.reshapes`: what becomes of the list of sheets, kind by kind.
  - `State.Distinct.after`: so sheets stay told apart by their ids and columns by
    their headers, whatever expressions take the headers for.
-/

namespace SheetScript

/-- Sheets are told apart by ids that were handed out, and columns by their headers. -/
structure State.Distinct (s : State) : Prop where
  ids : (s.sheets.map Sheet.id).Nodup
  below : ∀ sh ∈ s.sheets, sh.id.number < s.nextId
  headers : ∀ sh ∈ s.sheets, sh.headers.Nodup

theorem State.Sound.distinct {s : State} (hs : s.Sound) : s.Distinct where
  ids := hs.ids
  below := hs.below
  headers := fun sh hsh => (hs.sheets sh hsh).headers

/-! ### Lists of sheets -/

/-- The sheets stand in their places under their ids, and only the one at an index may
  be another. -/
structure State.RewritesAt (i : Nat) (s t : State) : Prop where
  ids : t.sheets.map Sheet.id = s.sheets.map Sheet.id
  same : ∀ j, j ≠ i → t.sheets[j]? = s.sheets[j]?
  nextId : t.nextId = s.nextId
  headers : (∀ sh ∈ s.sheets, sh.headers.Nodup) → ∀ sh ∈ t.sheets, sh.headers.Nodup

/-- Sheets are added at the end, under ids that were not handed out before. -/
structure State.Grows (new : List Sheet) (s t : State) : Prop where
  sheets : t.sheets = s.sheets ++ new
  numbered : ∀ sheet ∈ new, s.nextId ≤ sheet.id.number
  nextId : s.nextId ≤ t.nextId
  ids : (new.map Sheet.id).Nodup
  below : ∀ sheet ∈ new, sheet.id.number < t.nextId
  headers : (∀ sh ∈ s.sheets, sh.headers.Nodup) → ∀ sheet ∈ new, sheet.headers.Nodup

namespace State.RewritesAt

variable {i : Nat} {s : State} {c : Change}

theorem refl (i : Nat) (s : State) : s.RewritesAt i s := ⟨rfl, fun _ _ => rfl, rfl, id⟩

theorem length_eq {t : State} (h : s.RewritesAt i t) : t.sheets.length = s.sheets.length := by
  simpa using congrArg List.length h.ids

theorem replace {sheet after : Sheet} (hsheet : s.sheet i = .ok sheet)
    (hid : after.id = sheet.id) (hheaders : sheet.headers.Nodup → after.headers.Nodup) :
    RewritesAt i s (s.replace i after) where
  ids := by
    obtain ⟨left, right, heq, rfl⟩ := State.sheet_eq_ok hsheet
    simp [State.replace, heq, hid]
  same := by
    intro j hj
    exact List.getElem?_set_ne (Ne.symm hj)
  nextId := rfl
  headers := by
    intro hall sh hsh
    rcases List.mem_or_eq_of_mem_set hsh with hold | rfl
    · exact hall sh hold
    · exact hheaders (hall sheet (State.sheet_mem hsheet))

/-! ### Edits of one sheet -/

theorem addColumn {e : AddColumn} (h : e.run s = .ok c) : s.RewritesAt e.sheet c.state := by
  unfold AddColumn.run at h
  simp only [bind_eq_ok, throw_ite_eq_ok, pure_eq_ok] at h
  obtain ⟨sheet, hsheet, -, frame, hframe, rfl⟩ := h
  exact replace hsheet rfl fun _ => (Frame.headers_insertColumns hframe).2

theorem deleteColumns {e : DeleteColumns} (h : e.run s = .ok c) :
    s.RewritesAt e.sheet c.state := by
  unfold DeleteColumns.run at h
  simp only [bind_eq_ok, throw_ite_eq_ok, pure_eq_ok] at h
  obtain ⟨-, sheet, hsheet, headers, -, rfl⟩ := h
  refine replace hsheet rfl fun hnd => ?_
  show (sheet.frame.drop headers).headers.Nodup
  rw [Frame.headers_drop]
  exact hnd.filter _

theorem renameColumn {e : RenameColumn} (h : e.run s = .ok c) :
    s.RewritesAt e.sheet c.state := by
  unfold RenameColumn.run at h
  simp only [bind_eq_ok] at h
  obtain ⟨sheet, hsheet, old, -, h⟩ := h
  split at h
  · simp only [pure_eq_ok] at h
    exact h ▸ refl _ s
  · simp only [throw_ite_eq_ok, bind_eq_ok, pure_eq_ok, RenameColumn.after] at h
    obtain ⟨-, -, -, ⟨frame, hframe, rfl⟩, rfl⟩ := h
    exact replace hsheet rfl fun _ => Frame.nodup_withHeaders hframe

theorem moveColumn {e : MoveColumn} (h : e.run s = .ok c) : s.RewritesAt e.sheet c.state := by
  unfold MoveColumn.run at h
  simp only [bind_eq_ok] at h
  obtain ⟨sheet, hsheet, source, -, h⟩ := h
  split at h
  · simp only [pure_eq_ok] at h
    exact h ▸ refl _ s
  · simp only [bind_eq_ok, pure_eq_ok] at h
    obtain ⟨frame, hframe, header, -, rfl⟩ := h
    exact replace hsheet rfl fun _ => Frame.nodup_select hframe

theorem setFormula {e : SetFormula} (h : e.run s = .ok c) : s.RewritesAt e.sheet c.state := by
  unfold SetFormula.run at h
  simp only [bind_eq_ok] at h
  obtain ⟨sheet, hsheet, header, -, h⟩ := h
  split at h
  · simp at h
  · simp only [bind_eq_ok, pure_eq_ok] at h
    obtain ⟨columns, -, frame, hframe, rfl⟩ := h
    exact replace hsheet rfl fun hnd => Frame.nodup_withColumns hframe hnd

theorem changeType {e : ChangeType} (h : e.run s = .ok c) : s.RewritesAt e.sheet c.state := by
  unfold ChangeType.run at h
  simp only [bind_eq_ok] at h
  obtain ⟨sheet, hsheet, header, -, column, -, h⟩ := h
  split at h
  · simp only [pure_eq_ok] at h
    exact h ▸ refl _ s
  · simp only [bind_eq_ok, pure_eq_ok] at h
    obtain ⟨converted, -, frame, hframe, rfl⟩ := h
    exact replace hsheet rfl fun hnd => Frame.nodup_withColumns hframe hnd

theorem filterRows {e : FilterRows} (h : e.run s = .ok c) : s.RewritesAt e.sheet c.state := by
  unfold FilterRows.run at h
  simp only [bind_eq_ok] at h
  obtain ⟨sheet, hsheet, header, -, column, -, p, -, h⟩ := h
  cases p with
  | none =>
    simp only [pure_eq_ok] at h
    exact h ▸ refl _ s
  | some p =>
    simp only [bind_eq_ok, pure_eq_ok] at h
    obtain ⟨tested, -, mask, -, rfl⟩ := h
    refine replace hsheet rfl fun hnd => ?_
    show (sheet.frame.pickRows _).headers.Nodup
    rwa [Frame.headers_pickRows]

theorem sortRows {e : SortRows} (h : e.run s = .ok c) : s.RewritesAt e.sheet c.state := by
  unfold SortRows.run at h
  simp only [bind_eq_ok] at h
  obtain ⟨sheet, hsheet, header, -, h⟩ := h
  have hsorted : ∀ {descending}, e.sorted s sheet descending = .ok c →
      s.RewritesAt e.sheet c.state := by
    intro descending h
    simp only [SortRows.sorted, bind_eq_ok, pure_eq_ok] at h
    obtain ⟨header, -, frame, hframe, rfl⟩ := h
    refine replace hsheet rfl fun hnd => ?_
    show frame.headers.Nodup
    rwa [Frame.headers_sort hframe]
  cases horder : e.order with
  | unsorted =>
    simp only [horder, pure_eq_ok] at h
    exact h ▸ refl _ s
  | ascending | descending =>
    rw [horder] at h
    exact hsorted h

theorem oneHot {e : OneHot} (h : e.run s = .ok c) : s.RewritesAt e.sheet c.state := by
  obtain ⟨sheet, _, _, _, _, frame, hsheet, -, -, -, -, -, -, hframe, rfl⟩ := OneHot.run_eq_ok.mp h
  exact replace hsheet rfl fun _ => OneHot.nodup_encoded hframe

theorem promoteRow {e : PromoteRow} (h : e.run s = .ok c) : s.RewritesAt e.sheet c.state := by
  unfold PromoteRow.run at h
  simp only [bind_eq_ok, throw_ite_eq_ok] at h
  obtain ⟨sheet, hsheet, -, headers, -, h⟩ := h
  split at h
  · simp at h
  · simp only [bind_eq_ok, pure_eq_ok] at h
    obtain ⟨frame, hframe, rfl⟩ := h
    exact replace hsheet rfl fun _ => Frame.nodup_withHeaders hframe

theorem renameSheet {e : RenameSheet} (h : e.run s = .ok c) : s.RewritesAt e.sheet c.state := by
  unfold RenameSheet.run at h
  simp only [bind_eq_ok] at h
  obtain ⟨sheet, hsheet, h⟩ := h
  split at h
  · simp only [pure_eq_ok] at h
    exact h ▸ refl _ s
  · simp only [throw_ite_eq_ok, pure_eq_ok] at h
    obtain ⟨-, rfl⟩ := h
    exact replace hsheet rfl id

theorem formatSheet {e : FormatSheet} (h : e.run s = .ok c) : s.RewritesAt e.sheet c.state := by
  simp only [FormatSheet.run, bind_eq_ok, pure_eq_ok] at h
  obtain ⟨sheet, hsheet, headers, -, rfl⟩ := h
  exact replace hsheet rfl id

end State.RewritesAt

namespace State.Grows

variable {s : State} {c : Change}

/-! ### Edits that add sheets -/

theorem none (s t : State) (hsheets : t.sheets = s.sheets) (hnext : t.nextId = s.nextId) :
    s.Grows [] t where
  sheets := hsheets.trans (List.append_nil _).symm
  numbered := List.forall_mem_nil _
  nextId := hnext.ge
  ids := List.nodup_nil
  below := List.forall_mem_nil _
  headers := fun _ => List.forall_mem_nil _

/-- One more sheet is added, under the next id. -/
theorem snoc {new : List Sheet} {t : State} {sheet : Sheet} (h : s.Grows new t)
    (hid : sheet.id = ⟨t.nextId⟩)
    (hheaders : (∀ sh ∈ s.sheets, sh.headers.Nodup) → sheet.headers.Nodup) :
    s.Grows (new ++ [sheet]) (State.push { t with nextId := t.nextId + 1 } sheet) where
  sheets := by
    rw [State.push, h.sheets, List.append_assoc]
  numbered := by
    rw [List.forall_mem_append, List.forall_mem_singleton, hid]
    exact ⟨h.numbered, h.nextId⟩
  nextId := h.nextId.trans (Nat.le_succ _)
  ids := by
    rw [List.map_append, List.map_singleton, List.nodup_append]
    refine ⟨h.ids, List.nodup_singleton _, fun i hi j hj he => ?_⟩
    obtain ⟨old, hold, rfl⟩ := List.mem_map.mp hi
    rw [List.mem_singleton] at hj
    have hlt := h.below old hold
    rw [he, hj, hid] at hlt
    exact Nat.lt_irrefl _ hlt
  below := by
    rw [List.forall_mem_append, List.forall_mem_singleton, hid]
    exact ⟨fun old hold => Nat.lt_succ_of_lt (h.below old hold), Nat.lt_succ_self _⟩
  headers := by
    intro hall
    rw [List.forall_mem_append, List.forall_mem_singleton]
    exact ⟨h.headers hall, hheaders hall⟩

theorem push (s : State) {sheet : Sheet} (hid : sheet.id = ⟨s.nextId⟩)
    (hheaders : (∀ sh ∈ s.sheets, sh.headers.Nodup) → sheet.headers.Nodup) :
    s.Grows [sheet] (State.push { s with nextId := s.nextId + 1 } sheet) :=
  (none s s rfl rfl).snoc hid hheaders

theorem importFiles {e : ImportFiles} {d : Disk} (h : e.run d s = .ok c) :
    ∃ new, s.Grows new c.state ∧ new.length = e.files.length := by
  obtain ⟨sheets, hsheets, hfiles⟩ := ImportFiles.sheets_run h
  unfold ImportFiles.run at h
  simp only [throw_ite_eq_ok, bind_eq_ok, pure_eq_ok] at h
  obtain ⟨-, ⟨next, created⟩, hnext, rfl⟩ := h
  have hgrows : ∃ new, s.Grows new next := by
    refine foldlM_keeps (P := fun acc => ∃ new, s.Grows new acc.1) ?_ ⟨[], none s s rfl rfl⟩ hnext
    rintro path ⟨acc, sheets⟩ after - ⟨new, hacc⟩ hfile
    simp only [ImportFiles.addFile, bind_eq_ok, pure_eq_ok] at hfile
    obtain ⟨f, hf, rfl⟩ := hfile
    refine ⟨_, hacc.snoc (by split <;> rfl) fun _ => ?_⟩
    split <;> exact Csv.headers_load hf
  obtain ⟨new, hgrows⟩ := hgrows
  obtain rfl : new = sheets := List.append_cancel_left (hgrows.sheets.symm.trans hsheets)
  exact ⟨new, hgrows, hfiles.length_eq.symm⟩

end State.Grows

namespace State.Distinct

variable {s t : State}

/-- Sheets that take the places of others, one for one, under their ids. -/
theorem of_ids (hs : s.Distinct) (hids : t.sheets.map Sheet.id = s.sheets.map Sheet.id)
    (hnext : t.nextId = s.nextId) (hheaders : ∀ sh ∈ t.sheets, sh.headers.Nodup) : t.Distinct where
  ids := hids ▸ hs.ids
  below := by
    intro sh hsh
    have hmem : sh.id ∈ s.sheets.map Sheet.id := hids ▸ List.mem_map_of_mem hsh
    obtain ⟨old, hold, he⟩ := List.mem_map.mp hmem
    rw [hnext, ← he]
    exact hs.below old hold
  headers := hheaders

theorem of_grows {new : List Sheet} (hs : s.Distinct) (h : s.Grows new t) : t.Distinct where
  ids := by
    rw [h.sheets, List.map_append, List.nodup_append]
    refine ⟨hs.ids, h.ids, fun i hi j hj he => ?_⟩
    obtain ⟨old, hold, rfl⟩ := List.mem_map.mp hi
    obtain ⟨sheet, hsheet, rfl⟩ := List.mem_map.mp hj
    have hbelow := hs.below old hold
    have habove := h.numbered sheet hsheet
    rw [he] at hbelow
    omega
  below := by
    rw [h.sheets, List.forall_mem_append]
    exact ⟨fun sh hsh => Nat.lt_of_lt_of_le (hs.below sh hsh) h.nextId, h.below⟩
  headers := by
    rw [h.sheets, List.forall_mem_append]
    exact ⟨hs.headers, h.headers hs.headers⟩

end State.Distinct

namespace Edit

/-- What becomes of the list of sheets in an edit. -/
def Reshapes (s t : State) : Edit → Prop
  | .importFiles e => ∃ new, s.Grows new t ∧ new.length = e.files.length
  | .merge _ | .duplicateSheet _ => ∃ new, s.Grows [new] t
  | .pivot e =>
    match e.destination with
    | some i => s.RewritesAt i t
    | none => ∃ new, s.Grows [new] t
  | .deleteSheet e => t.sheets = s.sheets.eraseIdx e.sheet ∧ t.nextId = s.nextId
  | .drawChart _ | .exportSheets _ => s.Grows [] t
  | .restrictHeaders e =>
    List.Forall₂ (fun sheet after => ∃ rs, e.sheetAfter sheet = .ok (after, rs)) s.sheets t.sheets
      ∧ t.nextId = s.nextId
  | e => ∃ i, e.editedSheets = [i] ∧ s.RewritesAt i t

theorem reshapes_pivot {e : Pivot} {s : State} {c : Change} (h : e.run s = .ok c) :
    (Edit.pivot e).Reshapes s c.state := by
  unfold Pivot.run at h
  simp only [bind_eq_ok] at h
  obtain ⟨source, -, l, -, f, hf, h⟩ := h
  have hnd := Pivot.headers_frame hf
  cases hdestination : e.destination with
  | some i =>
    simp only [hdestination, bind_eq_ok, pure_eq_ok] at h
    obtain ⟨target, htarget, headers, -, rfl⟩ := h
    simp only [Reshapes, hdestination]
    exact .replace htarget rfl fun _ => hnd
  | none =>
    simp only [hdestination, pure_eq_ok] at h
    subst h
    simp only [Reshapes, hdestination]
    exact ⟨_, .push s rfl fun _ => hnd⟩

/-- An accepted edit deals with the list of sheets as its kind does. -/
theorem reshapes {e : Edit} {d : Disk} {s : State} {c : Change} (h : e.change d s = .ok c) :
    e.Reshapes s c.state := by
  -- most kinds of edits rewrite one sheet in its place
  cases e with
  | importFiles e => exact State.Grows.importFiles h
  | addColumn e => exact ⟨e.sheet, rfl, .addColumn h⟩
  | deleteColumns e => exact ⟨e.sheet, rfl, .deleteColumns h⟩
  | renameColumn e => exact ⟨e.sheet, rfl, .renameColumn h⟩
  | moveColumn e => exact ⟨e.sheet, rfl, .moveColumn h⟩
  | setFormula e => exact ⟨e.sheet, rfl, .setFormula h⟩
  | changeType e => exact ⟨e.sheet, rfl, .changeType h⟩
  | filterRows e => exact ⟨e.sheet, rfl, .filterRows h⟩
  | sortRows e => exact ⟨e.sheet, rfl, .sortRows h⟩
  | oneHot e => exact ⟨e.sheet, rfl, .oneHot h⟩
  | promoteRow e => exact ⟨e.sheet, rfl, .promoteRow h⟩
  | renameSheet e => exact ⟨e.sheet, rfl, .renameSheet h⟩
  | formatSheet e => exact ⟨e.sheet, rfl, .formatSheet h⟩
  | pivot e => exact reshapes_pivot h
  | merge e =>
    simp only [change, Merge.run, bind_eq_ok, pure_eq_ok] at h
    obtain ⟨one, -, two, -, p, -, f, hf, rfl⟩ := h
    exact ⟨_, .push s rfl fun _ => Merge.headers_frame hf⟩
  | duplicateSheet e =>
    simp only [change, DuplicateSheet.run, bind_eq_ok, pure_eq_ok] at h
    obtain ⟨source, hsource, rfl⟩ := h
    exact ⟨_, .push s rfl fun hall => hall source (State.sheet_mem hsource)⟩
  | deleteSheet e =>
    simp only [change, DeleteSheet.run, State.remove, bind_eq_ok, pure_eq_ok] at h
    obtain ⟨sheet, -, next, ⟨_, -, rfl⟩, rfl⟩ := h
    exact ⟨rfl, rfl⟩
  | drawChart e =>
    simp only [change, DrawChart.run, bind_eq_ok, pure_eq_ok] at h
    obtain ⟨sheet, -, code, -, rfl⟩ := h
    exact .none s _ rfl rfl
  | exportSheets e =>
    simp only [change, ExportSheets.run] at h
    split at h
    · cases h
    · split at h
      · cases h
      · simp only [map_eq_ok] at h
        obtain ⟨b, -, rfl⟩ := h
        exact .none s _ rfl rfl
  | restrictHeaders e =>
    simp only [change, RestrictHeaders.run, bind_eq_ok, pure_eq_ok, mapM_eq_ok] at h
    obtain ⟨results, hresults, rfl⟩ := h
    refine ⟨?_, rfl⟩
    show List.Forall₂ _ s.sheets (results.map Prod.fst)
    rw [List.forall₂_map_right_iff]
    exact hresults.imp fun _ r hr => ⟨r.2, hr⟩

/-- Ids of sheets are not taken back. -/
theorem Reshapes.nextId_le {e : Edit} {s t : State} (h : e.Reshapes s t) :
    s.nextId ≤ t.nextId := by
  cases e with
  | importFiles e =>
    obtain ⟨new, hgrows, -⟩ := h
    exact hgrows.nextId
  | merge e | duplicateSheet e =>
    obtain ⟨new, hgrows⟩ := h
    exact hgrows.nextId
  | drawChart e | exportSheets e => exact h.nextId
  | deleteSheet e | restrictHeaders e => exact h.2.ge
  | pivot e =>
    cases hdestination : e.destination with
    | some i =>
      simp only [Reshapes, hdestination] at h
      exact h.nextId.ge
    | none =>
      simp only [Reshapes, hdestination] at h
      obtain ⟨new, hgrows⟩ := h
      exact hgrows.nextId
  | _ =>
    obtain ⟨i, -, hrewrites⟩ := h
    exact hrewrites.nextId.ge

/-- A sheet whose headers are restricted keeps its id, and its headers differ. -/
theorem id_sheetAfter {e : RestrictHeaders} {sheet after : Sheet}
    {rs : List RestrictHeaders.Renaming} (h : e.sheetAfter sheet = .ok (after, rs)) :
    after.id = sheet.id ∧ (sheet.headers.Nodup → after.headers.Nodup) := by
  unfold RestrictHeaders.sheetAfter at h
  dsimp only at h
  split at h
  · simp only [pure_eq_ok, Prod.mk.injEq] at h
    obtain ⟨rfl, -⟩ := h
    exact ⟨rfl, id⟩
  · simp only [bind_eq_ok, pure_eq_ok, Prod.mk.injEq] at h
    obtain ⟨frame, hframe, rfl, -⟩ := h
    exact ⟨rfl, fun _ => Frame.nodup_withHeaders hframe⟩

/-- Restricted sheets keep their ids. -/
theorem ids_restricted {e : RestrictHeaders} {s : State} {after : List Sheet}
    (h : List.Forall₂ (fun sheet sk => ∃ rs, e.sheetAfter sheet = .ok (sk, rs)) s.sheets after) :
    after.map Sheet.id = s.sheets.map Sheet.id := by
  refine map_eq_of_forall₂ h fun sheet sk hsk => ?_
  obtain ⟨rs, hafter⟩ := hsk
  exact (id_sheetAfter hafter).1

/-- Sheets and columns stay told apart. -/
theorem Reshapes.distinct {e : Edit} {s t : State} (h : e.Reshapes s t) (hs : s.Distinct) :
    t.Distinct := by
  have hrewrites : ∀ {i : Nat}, s.RewritesAt i t → t.Distinct := fun hr =>
    .of_ids hs hr.ids hr.nextId (hr.headers hs.headers)
  have hgrows : ∀ {new : List Sheet}, s.Grows new t → t.Distinct := fun hg => .of_grows hs hg
  cases e with
  | importFiles e =>
    obtain ⟨new, hnew, -⟩ := h
    exact hgrows hnew
  | merge e | duplicateSheet e =>
    obtain ⟨new, hnew⟩ := h
    exact hgrows hnew
  | drawChart e | exportSheets e => exact hgrows h
  | deleteSheet e =>
    have hsub : t.sheets.Sublist s.sheets := h.1 ▸ List.eraseIdx_sublist _ _
    refine ⟨hs.ids.sublist (hsub.map _), fun sh hsh => ?_, fun sh hsh => ?_⟩
    · rw [h.2]
      exact hs.below sh (hsub.subset hsh)
    · exact hs.headers sh (hsub.subset hsh)
  | restrictHeaders e =>
    refine .of_ids hs (ids_restricted h.1) h.2 fun sh hsh => ?_
    obtain ⟨sheet, hsheet, rs, hafter⟩ := exists_of_mem_right h.1 hsh
    exact (id_sheetAfter hafter).2 (hs.headers sheet hsheet)
  | pivot e =>
    cases hdestination : e.destination with
    | some i =>
      simp only [Reshapes, hdestination] at h
      exact hrewrites h
    | none =>
      simp only [Reshapes, hdestination] at h
      obtain ⟨new, hnew⟩ := h
      exact hgrows hnew
  | _ =>
    obtain ⟨i, -, hr⟩ := h
    exact hrewrites hr

end Edit

/-- Accepted steps leave sheets and columns told apart. -/
theorem State.Distinct.after {s : State} {steps : List Step} (hs : s.Distinct)
    (ha : s.Accepts steps) : (s.after steps).Distinct := by
  induction steps generalizing s with
  | nil => exact hs
  | cons step rest ih =>
    obtain ⟨⟨disk, -, hrun⟩, hrest⟩ := ha
    obtain ⟨c, hc, hsame⟩ := Step.run_eq_ok hrun
    have hafter : step.after = c.state := by rw [hsame]
    have hnext : step.after.Distinct := hafter ▸ (Edit.reshapes hc).distinct hs
    rw [State.after_cons]
    exact ih hnext hrest

end SheetScript
