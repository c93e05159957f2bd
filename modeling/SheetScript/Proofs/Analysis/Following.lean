import SheetScript.Proofs.Analysis.Notes
import SheetScript.Proofs.Steps

/-! # Notes on all sheets

  The notes on the sheets of a state follow the edits of a log.  Edits that keep
  the columns of a sheet keep its notes, a copy of a sheet has the notes of the
  sheet, and on a new sheet there is nothing to note.

  - `Notes.Judge.after`: an accepted edit, kind by kind.
  - `Notes.Judge.along`: accepted steps, one after the other.
  - `Notes.Judge.carries_meaning`: what right notes say of a header.
-/

namespace SheetScript

/-- The headers of the columns that an encoding adds to a sheet. -/
def OneHot.headers (e : OneHot) (sheet : Sheet) : List Header :=
  (((sheet.column e.column).bind OneHot.alone).toOption.map OneHot.values).getD []

/-- The notes on a sheet that an import makes. -/
def ImportFiles.notes (e : ImportFiles) (sheet : Sheet) : SheetNotes :=
  if e.legacyIds then .legacy sheet.headers else {}

/-- The notes on a sheet of which the headers are restricted. -/
def RestrictHeaders.notes (e : RestrictHeaders) (n : SheetNotes) (sheet : Sheet) : SheetNotes :=
  if e.resetsIds then {} else n.restrict sheet.columns (renamings sheet.headers sheet.headers)

/-- In the sheet at an index the header is that of the column with the id, and no other
  one. -/
def State.Carries (s : State) (i : Nat) (h : Header) (id : ColumnId) : Prop :=
  (s.sheets[i]?.bind fun sheet => sheet.columns.header? id) = some h
    ∧ (s.sheets[i]?.bind fun sheet => sheet.columns.id? h) = some id

instance {s : State} {i : Nat} {h : Header} {id : ColumnId} : Decidable (s.Carries i h id) :=
  inferInstanceAs (Decidable (_ ∧ _))

/-- Notes on the sheets of a state, in their order. -/
abbrev Notes := List SheetNotes

namespace Notes

/-- The column that a header stands for in the sheet at an index. -/
def meaning (ns : Notes) (i : Nat) (h : Header) : ColumnId := (ns[i]?.getD {}).meaning h

/-- The headers of the sheet at an index that other columns have than the notes say. -/
def doubtful (ns : Notes) (i : Nat) : List Header := (ns[i]?.getD {}).doubtful

/-- The notes where those on one sheet change, as the sheet asks for. -/
def onSheet (ns : Notes) (s : State) (i : Nat) (f : SheetNotes → Sheet → SheetNotes) : Notes :=
  match s.sheets[i]? with
  | some sheet => ns.modify i fun n => f n sheet
  | none => ns

/-- The notes on the sheets of a state that no edit led to. -/
def start (s : State) : Notes := s.sheets.map fun _ => {}

/-- The notes after an edit that leads from one state to another. -/
def after (ns : Notes) (before after : State) : Edit → Notes
  | .renameColumn e =>
    ns.onSheet after e.sheet fun n sheet => n.rename sheet.columns e.column e.header
  | .addColumn e => ns.onSheet before e.sheet fun n sheet => n.add sheet.columns e.header
  | .oneHot e => ns.onSheet before e.sheet fun n sheet => n.addAll sheet.columns (e.headers sheet)
  | .promoteRow e => ns.onSheet after e.sheet fun n sheet => n.inspect sheet.columns
  | .restrictHeaders e => List.zipWith e.notes ns before.sheets
  | .duplicateSheet e => ns ++ [ns[e.sheet]?.getD {}]
  | .deleteSheet e => ns.eraseIdx e.sheet
  | .importFiles e => ns ++ (after.sheets.drop before.sheets.length).map e.notes
  | .merge _ => ns ++ [{}]
  | .pivot e =>
    match e.destination with
    | some i => ns.onSheet after i fun _ sheet => SheetNotes.inspect {} sheet.columns
    | none => ns ++ [{}]
  | _ => ns

/-- The notes after some steps. -/
def along (ns : Notes) (steps : List Step) : Notes :=
  steps.foldl (fun ns step => ns.after step.before step.after step.edit) ns

/-- The notes are right on exactly the headers that are not doubtful, in every
  sheet. -/
def Judge (ns : Notes) (s : State) : Prop :=
  List.Forall₂ (fun n sheet => n.Judge sheet.columns) ns s.sheets

variable {ns : Notes} {s : State} {c : Change} {i : Nat}

theorem onSheet_of_sheet {sheet : Sheet} (hsheet : s.sheet i = .ok sheet)
    (f : SheetNotes → Sheet → SheetNotes) : ns.onSheet s i f = ns.modify i fun n => f n sheet := by
  obtain ⟨left, right, heq, rfl⟩ := State.sheet_eq_ok hsheet
  simp [onSheet, heq]

namespace Judge

/-! ### Lists of sheets -/

section Sheets

variable {sheet new : Sheet}

/-- One sheet is replaced and the notes on it change. -/
theorem replaceWith (hj : ns.Judge s) (hsheet : s.sheet i = .ok sheet)
    {f : SheetNotes → SheetNotes} (hf : ∀ {n : SheetNotes}, n.Judge sheet.columns →
      (f n).Judge new.columns) : Judge (ns.modify i f) (s.replace i new) := by
  obtain ⟨left, right, heq, rfl⟩ := State.sheet_eq_ok hsheet
  unfold Judge State.replace at *
  rw [heq] at hj ⊢
  -- the induction is on the sheets to the left of the one that is replaced
  clear hsheet heq
  induction left generalizing ns with
  | nil =>
    obtain _ | ⟨hfirst, hrest⟩ := hj
    exact .cons (hf hfirst) hrest
  | cons first left ih =>
    obtain _ | ⟨hfirst, hrest⟩ := hj
    exact .cons hfirst (ih hrest)

/-- One sheet is replaced, and the notes on it stay right. -/
theorem replace (hj : ns.Judge s) (hsheet : s.sheet i = .ok sheet)
    (hnew : ∀ {n : SheetNotes}, n.Judge sheet.columns → n.Judge new.columns) :
    ns.Judge (s.replace i new) := by
  have h := hj.replaceWith (f := id) hsheet hnew
  rwa [List.modify_id] at h

/-- A sheet is added, with notes on it. -/
theorem push (hj : ns.Judge s) {n : SheetNotes} (hn : n.Judge sheet.columns) (next : State)
    (hnext : next.sheets = s.sheets) : Judge (ns ++ [n]) (next.push sheet) := by
  unfold Judge State.push
  rw [hnext]
  exact List.rel_append hj (.cons hn .nil)

/-- The notes on a sheet. -/
theorem at_sheet (hj : ns.Judge s) (hsheet : s.sheet i = .ok sheet) :
    (ns[i]?.getD {}).Judge sheet.columns := by
  obtain ⟨left, right, heq, rfl⟩ := State.sheet_eq_ok hsheet
  unfold Judge at hj
  rw [heq] at hj
  clear hsheet heq
  induction left generalizing ns with
  | nil =>
    obtain _ | ⟨hfirst, -⟩ := hj
    exact hfirst
  | cons first left ih =>
    obtain _ | ⟨-, hrest⟩ := hj
    exact ih hrest

end Sheets

/-- The sheet that was put in the place of another one is looked at. -/
theorem replaceAfter (hj : ns.Judge s) {sheet new : Sheet} (hsheet : s.sheet i = .ok sheet)
    {f : SheetNotes → Sheet → SheetNotes} (hf : ∀ {n : SheetNotes}, n.Judge sheet.columns →
      (f n new).Judge new.columns) :
    Judge (ns.onSheet (s.replace i new) i f) (s.replace i new) := by
  have hnew : (s.replace i new).sheet i = .ok new := by
    obtain ⟨left, right, heq, hlen⟩ := State.sheet_eq_ok hsheet
    simp [State.sheet, State.replace, heq, ← hlen]
  rw [onSheet_of_sheet hnew]
  exact hj.replaceWith hsheet hf

/-! ### Edits -/

theorem addColumn {e : AddColumn} (hj : ns.Judge s) (h : e.run s = .ok c) :
    (ns.after s c.state (.addColumn e)).Judge c.state := by
  unfold AddColumn.run at h
  simp only [bind_eq_ok, throw_ite_eq_ok, pure_eq_ok] at h
  obtain ⟨sheet, hsheet, -, frame, -, rfl⟩ := h
  rw [Notes.after, onSheet_of_sheet hsheet]
  exact hj.replaceWith hsheet fun hn => hn.add e.header

theorem deleteColumns {e : DeleteColumns} (hj : ns.Judge s) (h : e.run s = .ok c) :
    (ns.after s c.state (.deleteColumns e)).Judge c.state := by
  unfold DeleteColumns.run at h
  simp only [bind_eq_ok, throw_ite_eq_ok, pure_eq_ok] at h
  obtain ⟨-, sheet, hsheet, headers, -, rfl⟩ := h
  exact hj.replace hsheet fun hn => hn.removeAll _

theorem renameColumn {e : RenameColumn} (hj : ns.Judge s) (h : e.run s = .ok c) :
    (ns.after s c.state (.renameColumn e)).Judge c.state := by
  unfold RenameColumn.run at h
  simp only [bind_eq_ok] at h
  obtain ⟨sheet, hsheet, old, hold, h⟩ := h
  have hheader := Sheet.header_eq_ok.mp hold
  split at h
  · next hsame =>
    simp only [pure_eq_ok] at h
    subst h
    rw [hsame] at hheader
    -- the state stays, but the notes tell of the header now
    have hstate : s.replace e.sheet sheet = s := by
      obtain ⟨left, right, heq, hlen⟩ := State.sheet_eq_ok hsheet
      have hset : s.sheets.set e.sheet sheet = s.sheets := by simp [heq, ← hlen]
      unfold State.replace
      rw [hset]
    have hafter : Judge (ns.onSheet (s.replace e.sheet sheet) e.sheet
        fun n sheet => n.rename sheet.columns e.column e.header) (s.replace e.sheet sheet) :=
      hj.replaceAfter hsheet fun hn => hn.rename_same hheader
    rwa [hstate] at hafter
  · simp only [throw_ite_eq_ok, bind_eq_ok, pure_eq_ok, RenameColumn.after] at h
    obtain ⟨-, -, -, ⟨frame, -, rfl⟩, rfl⟩ := h
    exact hj.replaceAfter hsheet fun hn => hn.rename hheader e.header

theorem moveColumn {e : MoveColumn} (hj : ns.Judge s) (h : e.run s = .ok c) :
    ns.Judge c.state := by
  unfold MoveColumn.run at h
  simp only [bind_eq_ok] at h
  obtain ⟨sheet, hsheet, source, -, h⟩ := h
  split at h
  · simp only [pure_eq_ok] at h
    exact h ▸ hj
  · simp only [bind_eq_ok, pure_eq_ok] at h
    obtain ⟨frame, -, header, -, rfl⟩ := h
    exact hj.replace hsheet id

theorem setFormula {e : SetFormula} (hj : ns.Judge s) (h : e.run s = .ok c) :
    ns.Judge c.state := by
  unfold SetFormula.run at h
  simp only [bind_eq_ok] at h
  obtain ⟨sheet, hsheet, header, -, h⟩ := h
  split at h
  · simp at h
  · simp only [bind_eq_ok, pure_eq_ok] at h
    obtain ⟨columns, -, frame, -, rfl⟩ := h
    exact hj.replace hsheet id

theorem changeType {e : ChangeType} (hj : ns.Judge s) (h : e.run s = .ok c) :
    ns.Judge c.state := by
  unfold ChangeType.run at h
  simp only [bind_eq_ok] at h
  obtain ⟨sheet, hsheet, header, -, column, -, h⟩ := h
  split at h
  · simp only [pure_eq_ok] at h
    exact h ▸ hj
  · simp only [bind_eq_ok, pure_eq_ok] at h
    obtain ⟨converted, -, frame, -, rfl⟩ := h
    exact hj.replace hsheet id

theorem filterRows {e : FilterRows} (hj : ns.Judge s) (h : e.run s = .ok c) :
    ns.Judge c.state := by
  unfold FilterRows.run at h
  simp only [bind_eq_ok] at h
  obtain ⟨sheet, hsheet, header, -, column, -, p, -, h⟩ := h
  cases p with
  | none =>
    simp only [pure_eq_ok] at h
    exact h ▸ hj
  | some p =>
    simp only [bind_eq_ok, pure_eq_ok] at h
    obtain ⟨tested, -, mask, -, rfl⟩ := h
    exact hj.replace hsheet id

theorem sortRows {e : SortRows} (hj : ns.Judge s) (h : e.run s = .ok c) :
    ns.Judge c.state := by
  unfold SortRows.run at h
  simp only [bind_eq_ok] at h
  obtain ⟨sheet, hsheet, header, -, h⟩ := h
  have hsorted : ∀ {descending}, e.sorted s sheet descending = .ok c → ns.Judge c.state := by
    intro descending h
    simp only [SortRows.sorted, bind_eq_ok, pure_eq_ok] at h
    obtain ⟨header, -, frame, -, rfl⟩ := h
    exact hj.replace hsheet id
  cases horder : e.order with
  | unsorted =>
    simp only [horder, pure_eq_ok] at h
    exact h ▸ hj
  | ascending | descending =>
    rw [horder] at h
    exact hsorted h

theorem promoteRow {e : PromoteRow} (hj : ns.Judge s) (h : e.run s = .ok c) :
    (ns.after s c.state (.promoteRow e)).Judge c.state := by
  unfold PromoteRow.run at h
  simp only [bind_eq_ok, throw_ite_eq_ok] at h
  obtain ⟨sheet, hsheet, -, headers, -, h⟩ := h
  split at h
  · simp at h
  · simp only [bind_eq_ok, pure_eq_ok] at h
    obtain ⟨frame, -, rfl⟩ := h
    refine hj.replaceAfter hsheet fun hn => .inspect ?_ fun {k id} hid => ?_
    · exact (hn.registered.removeAll _).insertPairs _
    · refine ColumnIds.mem_issued_insertPairs _ ?_
      rw [ColumnIds.issued_removeAll]
      exact hn.issued hid

theorem oneHot {e : OneHot} (hj : ns.Judge s) (h : e.run s = .ok c) :
    (ns.after s c.state (.oneHot e)).Judge c.state := by
  obtain ⟨sheet, header, position, column, alone, frame, hsheet, -, -, hcolumn, -, halone, -, -,
    rfl⟩ := OneHot.run_eq_ok.mp h
  have hheaders : e.headers sheet = OneHot.values alone := by
    simp [OneHot.headers, hcolumn, Except.bind, halone, Except.toOption]
  rw [Notes.after, onSheet_of_sheet hsheet, hheaders]
  refine hj.replaceWith hsheet fun {n} hn => ?_
  show SheetNotes.Judge _ (OneHot.register sheet.columns (OneHot.values alone)).2
  rw [OneHot.register_snd]
  exact hn.addAll _

theorem duplicateSheet {e : DuplicateSheet} (hj : ns.Judge s) (h : e.run s = .ok c) :
    (ns.after s c.state (.duplicateSheet e)).Judge c.state := by
  simp only [DuplicateSheet.run, bind_eq_ok, pure_eq_ok] at h
  obtain ⟨source, hsource, rfl⟩ := h
  -- the copy has the columns of the sheet
  have hcopy : (ns[e.sheet]?.getD {}).Judge source.columns := hj.at_sheet hsource
  refine hj.push ?_ _ rfl
  exact hcopy

theorem deleteSheet {e : DeleteSheet} (hj : ns.Judge s) (h : e.run s = .ok c) :
    (ns.after s c.state (.deleteSheet e)).Judge c.state := by
  simp only [DeleteSheet.run, State.remove, bind_eq_ok, pure_eq_ok] at h
  obtain ⟨sheet, hsheet, next, ⟨_, -, rfl⟩, rfl⟩ := h
  show List.Forall₂ _ (ns.eraseIdx e.sheet) (s.sheets.eraseIdx e.sheet)
  rw [List.eraseIdx_eq_take_drop_succ, List.eraseIdx_eq_take_drop_succ]
  exact List.rel_append (List.forall₂_take _ hj) (List.forall₂_drop _ hj)

theorem renameSheet {e : RenameSheet} (hj : ns.Judge s) (h : e.run s = .ok c) :
    ns.Judge c.state := by
  unfold RenameSheet.run at h
  simp only [bind_eq_ok] at h
  obtain ⟨sheet, hsheet, h⟩ := h
  split at h
  · simp only [pure_eq_ok] at h
    exact h ▸ hj
  · simp only [throw_ite_eq_ok, pure_eq_ok] at h
    obtain ⟨-, rfl⟩ := h
    exact hj.replace hsheet id

theorem formatSheet {e : FormatSheet} (hj : ns.Judge s) (h : e.run s = .ok c) :
    ns.Judge c.state := by
  simp only [FormatSheet.run, bind_eq_ok, pure_eq_ok] at h
  obtain ⟨sheet, hsheet, headers, -, rfl⟩ := h
  exact hj.replace hsheet id

theorem drawChart {e : DrawChart} (hj : ns.Judge s) (h : e.run s = .ok c) :
    ns.Judge c.state := by
  simp only [DrawChart.run, bind_eq_ok, pure_eq_ok] at h
  obtain ⟨sheet, -, code, -, rfl⟩ := h
  exact hj

theorem exportSheets {e : ExportSheets} {d : Disk} (hj : ns.Judge s)
    (h : (e.run d s).1 = .ok c) : ns.Judge c.state := by
  unfold ExportSheets.run at h
  split at h
  · cases h
  · split at h
    · cases h
    · simp only [map_eq_ok] at h
      obtain ⟨b, -, rfl⟩ := h
      exact hj

theorem merge {e : Merge} (hj : ns.Judge s) (h : e.run s = .ok c) :
    (ns.after s c.state (.merge e)).Judge c.state := by
  unfold Merge.run at h
  simp only [bind_eq_ok, pure_eq_ok] at h
  obtain ⟨one, -, two, -, p, -, f, hf, rfl⟩ := h
  exact hj.push (.ofHeaders (Merge.headers_frame hf)) _ rfl

theorem pivot {e : Pivot} (hj : ns.Judge s) (h : e.run s = .ok c) :
    (ns.after s c.state (.pivot e)).Judge c.state := by
  unfold Pivot.run at h
  simp only [bind_eq_ok] at h
  obtain ⟨source, -, l, -, f, hf, h⟩ := h
  cases hdestination : e.destination with
  | some i =>
    simp only [hdestination, bind_eq_ok, pure_eq_ok] at h
    obtain ⟨target, htarget, headers, -, rfl⟩ := h
    simp only [Notes.after, hdestination]
    refine hj.replaceAfter htarget fun _ => .inspect ?_ fun hid => by cases hid
    exact ColumnIds.Registered.empty.insertAll headers
  | none =>
    simp only [hdestination, pure_eq_ok] at h
    subst h
    simp only [Notes.after, hdestination]
    exact hj.push (.ofHeaders (Pivot.headers_frame hf)) _ rfl

theorem importFiles {e : ImportFiles} {d : Disk} (hj : ns.Judge s) (h : e.run d s = .ok c) :
    (ns.after s c.state (.importFiles e)).Judge c.state := by
  obtain ⟨sheets, hsheets, hfiles⟩ := ImportFiles.sheets_run h
  -- every sheet that is added has the notes of its headers
  have hnew : ∀ sheet ∈ sheets, (e.notes sheet).Judge sheet.columns := by
    intro sheet hsheet
    obtain ⟨path, -, hload, hcolumns⟩ := exists_of_mem_right hfiles hsheet
    have hnd := Csv.headers_load hload
    rw [hcolumns]
    unfold ImportFiles.notes
    split
    · exact .legacyColumns sheet.headers
    · exact .ofHeaders hnd
  show List.Forall₂ _ (ns ++ (c.state.sheets.drop s.sheets.length).map e.notes) c.state.sheets
  rw [hsheets, List.drop_left]
  refine List.rel_append hj ?_
  rw [List.forall₂_map_left_iff, List.forall₂_same]
  exact hnew

/-- The notes on one sheet of which the headers are restricted. -/
theorem sheetAfter {e : RestrictHeaders} {n : SheetNotes} {sheet : Sheet}
    {r : Sheet × List RestrictHeaders.Renaming}
    (hn : n.Judge sheet.columns) (h : e.sheetAfter sheet = .ok r) :
    (e.notes n sheet).Judge r.1.columns := by
  unfold RestrictHeaders.sheetAfter at h
  unfold RestrictHeaders.notes
  dsimp only at h
  split at h
  · next hnone =>
    simp only [pure_eq_ok] at h
    subst h
    obtain ⟨hempty, hkeeps⟩ : RestrictHeaders.renamings sheet.headers sheet.headers = []
        ∧ e.resetsIds = false := by simpa using hnone
    rw [hempty, hkeeps]
    exact hn
  · simp only [bind_eq_ok, pure_eq_ok] at h
    obtain ⟨frame, hframe, rfl⟩ := h
    obtain ⟨hheaders, hnd, -⟩ := Frame.headers_withHeaders hframe
    show SheetNotes.Judge _ (ite _ _ _ : RestrictHeaders.Labels).1
    split
    · exact .ofHeaders (hheaders ▸ hnd)
    · exact hn.relabelAll sheet.formulas _

theorem restrictHeaders {e : RestrictHeaders} (hj : ns.Judge s) (h : e.run s = .ok c) :
    (ns.after s c.state (.restrictHeaders e)).Judge c.state := by
  unfold RestrictHeaders.run at h
  simp only [bind_eq_ok, pure_eq_ok, mapM_eq_ok] at h
  obtain ⟨results, hresults, rfl⟩ := h
  show List.Forall₂ _ (List.zipWith e.notes ns s.sheets) (results.map Prod.fst)
  unfold Judge at hj
  generalize s.sheets = sheets at hresults hj
  induction hresults generalizing ns with
  | nil =>
    cases hj
    exact .nil
  | @cons sheet r sheets results hr _ ih =>
    obtain _ | ⟨hn, hj⟩ := hj
    exact .cons (sheetAfter hn hr) (ih hj)

/-- The notes after an accepted edit are right on exactly the headers that are not
  doubtful. -/
theorem after {e : Edit} {d : Disk} (hj : ns.Judge s) (h : e.change d s = .ok c) :
    (ns.after s c.state e).Judge c.state := by
  cases e with
  | importFiles e => exact hj.importFiles h
  | addColumn e => exact hj.addColumn h
  | deleteColumns e => exact hj.deleteColumns h
  | renameColumn e => exact hj.renameColumn h
  | moveColumn e => exact hj.moveColumn h
  | setFormula e => exact hj.setFormula h
  | changeType e => exact hj.changeType h
  | filterRows e => exact hj.filterRows h
  | sortRows e => exact hj.sortRows h
  | pivot e => exact hj.pivot h
  | merge e => exact hj.merge h
  | oneHot e => exact hj.oneHot h
  | promoteRow e => exact hj.promoteRow h
  | duplicateSheet e => exact hj.duplicateSheet h
  | deleteSheet e => exact hj.deleteSheet h
  | renameSheet e => exact hj.renameSheet h
  | formatSheet e => exact hj.formatSheet h
  | drawChart e => exact hj.drawChart h
  | exportSheets e => exact hj.exportSheets h
  | restrictHeaders e => exact hj.restrictHeaders h

/-! ### Steps -/

/-- On named tables there is nothing to note. -/
theorem start (hs : s.Initial) : (Notes.start s).Judge s := by
  obtain ⟨inputs, hnd, h⟩ := hs
  have hempty : (Notes.start {}).Judge {} := .nil
  refine foldlM_keeps (P := fun s => (Notes.start s).Judge s)
    (fun {input s next} hin hj hnext => ?_) hempty h
  split at hnext
  · cases hnext
  · split at hnext
    · cases hnext
    · obtain rfl := Except.ok.inj hnext
      have hpush : Notes.start (s.add input.1 input.2) = Notes.start s ++ [({} : SheetNotes)] := by
        simp [Notes.start, State.add, State.push, State.mint]
      rw [hpush]
      exact hj.push (.ofHeaders (hnd input hin)) _ rfl

/-- The notes after accepted steps are right on exactly the headers that are not
  doubtful. -/
theorem along {steps : List Step} (hj : ns.Judge s) (ha : s.Accepts steps) :
    (ns.along steps).Judge (s.after steps) := by
  induction steps generalizing s ns with
  | nil => exact hj
  | cons step rest ih =>
    obtain ⟨⟨disk, -, hrun⟩, hrest⟩ := ha
    obtain ⟨c, hc, hstep⟩ := Step.run_eq_ok hrun
    have hafter : step.after = c.state := by rw [hstep]
    have hnext : (ns.after step.before step.after step.edit).Judge step.after := by
      rw [Step.before_eq hrun, hafter]
      exact hj.after hc
    rw [State.after_cons]
    exact ih hnext hrest

/-- The notes name a column with a header exactly if there is one and the header is
  not doubtful. -/
theorem carries_meaning (hj : ns.Judge s) (i : Nat) (h : Header) :
    s.Carries i h (ns.meaning i h) ↔ (∃ id, s.Carries i h id) ∧ h ∉ ns.doubtful i := by
  unfold State.Carries
  cases hi : s.sheets[i]? with
  | none => simp
  | some sheet =>
    have hsheet : s.sheet i = .ok sheet := by simp [State.sheet, hi]
    have hn := hj.at_sheet hsheet
    simp only [Option.bind_some]
    constructor
    · intro hid
      exact ⟨⟨_, hid⟩, (hn.named hid.2).mp rfl⟩
    · rintro ⟨⟨id, hid⟩, hnot⟩
      have hmeaning : ns.meaning i h = id := (hn.named hid.2).mpr hnot
      rwa [hmeaning]

end Judge

end Notes

end SheetScript
