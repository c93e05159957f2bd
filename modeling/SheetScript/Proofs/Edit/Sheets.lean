import SheetScript.Edit.Columns
import SheetScript.Edit.Files
import SheetScript.Edit.OneHot
import SheetScript.Edit.Rows
import SheetScript.Edit.Sheets
import SheetScript.Proofs.Edit.Basic

/-! # Edits of sheets follow their code

  Copying, deleting and renaming sheets are chunks of their own.  Formats and
  charts need no code, and an export leaves the sheets as they are.

  Moving a column, keeping and sorting rows, turning a row into the headers and
  encoding a column rewrite one sheet by a block, whose output is the sheet as the
  edit leaves it.
-/

namespace SheetScript

open Symbolic

variable {s : State} {c : Change} {ids : Prop}

/-! ### Data that stay -/

theorem DuplicateSheet.follows {e : DuplicateSheet} (hs : s.Sound) (h : e.run s = .ok c) :
    c.Follows ids s := by
  simp only [DuplicateSheet.run, bind_eq_ok, pure_eq_ok] at h
  obtain ⟨source, hsource, rfl⟩ := h
  have hmem := State.sheet_mem hsource
  have hsound := hs.sheets source hmem
  have hcopy : Sheet.Sound { source with
      id := ⟨s.nextId⟩, name := s.uniqueName (source.name ++ "_copy") } :=
    ⟨hsound.headers, hsound.columns, hsound.formulas⟩
  obtain ⟨hnext, hdesk⟩ := hs.push hcopy (s.mint "" source.frame).2 rfl rfl rfl rfl
    (s.uniqueName_not_mem _) (s.isVariableName_uniqueName _)
  have hx := hs.desk_sheet hmem
  refine ⟨hnext, .chunk ⟨?_, fun t ht => by cases ht⟩ ?_⟩
  · exact ⟨⟨source.table, hx, rfl⟩, hs.desk_fresh, hs.free (s.uniqueName_not_mem _)⟩
  · show (s.desk.set ⟨s.nextId⟩ ((s.desk source.id).map _)).Alike ids (State.push _ _).desk
    rw [hx]
    exact hdesk ▸ Desk.Alike.refl _

theorem DeleteSheet.follows {e : DeleteSheet} (hs : s.Sound) (h : e.run s = .ok c) :
    c.Follows ids s := by
  simp only [DeleteSheet.run, bind_eq_ok, pure_eq_ok] at h
  obtain ⟨sheet, hsheet, next, hremove, rfl⟩ := h
  obtain ⟨hnext, hdesk⟩ := hs.remove hsheet hremove
  have hx := hs.desk_sheet (State.sheet_mem hsheet)
  refine ⟨hnext, .chunk ⟨⟨sheet.table, hx, rfl⟩, fun t ht => by cases ht⟩ ?_⟩
  rw [hdesk]
  exact Desk.Alike.refl _

theorem RenameSheet.follows {e : RenameSheet} (hs : s.Sound) (h : e.run s = .ok c) :
    c.Follows ids s := by
  unfold RenameSheet.run at h
  simp only [bind_eq_ok] at h
  obtain ⟨sheet, hsheet, h⟩ := h
  split at h
  · simp only [pure_eq_ok] at h
    exact h ▸ .none hs
  · simp only [throw_ite_eq_ok, pure_eq_ok] at h
    obtain ⟨hnew, rfl⟩ := h
    have hmem := State.sheet_mem hsheet
    have hsound := hs.sheets sheet hmem
    have hafter : Sheet.Sound { sheet with name := Naming.variableName e.name } :=
      ⟨hsound.headers, hsound.columns, hsound.formulas⟩
    obtain ⟨hnext, hdesk⟩ := hs.replace hafter hsheet rfl
      (.inr ⟨hnew, Naming.isVariableName_variableName e.name⟩)
    have hx := hs.desk_sheet hmem
    refine ⟨hnext, .chunk ⟨⟨⟨sheet.table, hx, rfl⟩, hs.free hnew⟩, fun t ht => by cases ht⟩ ?_⟩
    show (s.desk.set sheet.id ((s.desk sheet.id).map _)).Alike ids (s.replace e.sheet _).desk
    rw [hdesk, hx]
    exact Desk.Alike.refl _

theorem FormatSheet.follows {e : FormatSheet} (hs : s.Sound) (h : e.run s = .ok c) :
    c.Follows ids s := by
  simp only [FormatSheet.run, bind_eq_ok, pure_eq_ok] at h
  obtain ⟨sheet, hsheet, -, -, rfl⟩ := h
  have hmem := State.sheet_mem hsheet
  have hsound := hs.sheets sheet hmem
  have hafter : Sheet.Sound { sheet with format := e.format } :=
    ⟨hsound.headers, hsound.columns, hsound.formulas⟩
  obtain ⟨hnext, hdesk⟩ := hs.replace hafter hsheet rfl (.inl rfl)
  refine .idle hnext (hdesk.trans ?_)
  show s.desk.set sheet.id (some sheet.table) = s.desk
  rw [← hs.desk_sheet hmem, Desk.set_eq]

theorem DrawChart.follows {e : DrawChart} (hs : s.Sound) (h : e.run s = .ok c) :
    c.Follows ids s := by
  simp only [DrawChart.run, bind_eq_ok, pure_eq_ok] at h
  obtain ⟨sheet, hsheet, code, -, rfl⟩ := h
  refine .idle ⟨hs.names, hs.ids, hs.below, hs.sheets, hs.named, fun chart hchart => ?_⟩ rfl
  rcases Dictionary.mem_of_mem_insert hchart with rfl | hchart
  · exact ⟨sheet, State.sheet_mem hsheet, rfl⟩
  · exact hs.charts chart hchart

/-- Reading makes and deletes no sheets. -/
theorem ExportSheets.foldl_read (sheets : List Sheet) (f : Footprint) :
    (sheets.foldl (fun f sheet => f.read sheet.id .all) f).creates = f.creates
      ∧ (sheets.foldl (fun f sheet => f.read sheet.id .all) f).deletes = f.deletes := by
  induction sheets generalizing f with
  | nil => exact ⟨rfl, rfl⟩
  | cons sheet rest ih => exact ih _

theorem ExportSheets.follows {e : ExportSheets} {d : Disk} (hs : s.Sound)
    (h : (e.run d s).1 = .ok c) : c.Follows ids s := by
  unfold ExportSheets.run at h
  split at h
  · cases h
  · next sheets _ =>
    split at h
    · cases h
    · simp only [map_eq_ok] at h
      obtain ⟨b, hb, rfl⟩ := h
      simp only [ExportSheets.block, bind_eq_ok, pure_eq_ok] at hb
      obtain ⟨statements, -, rfl⟩ := hb
      obtain ⟨hcreates, hdeletes⟩ := ExportSheets.foldl_read sheets {}
      refine .block [] hs hs (fun sh hsh => ⟨sh, hsh, rfl, rfl⟩) (fun t _ => .of_eq rfl)
        (List.nil_sublist _) rfl hdeletes ?_ ?_ ?_ ?_
      · exact fun _ hsh => by cases hsh
      · exact fun _ hsh => by cases hsh
      · simp [hcreates]
      · exact fun _ hsh => by cases hsh

/-! ### Columns that stay -/

/-- A sheet whose frame keeps its headers, in any order. -/
theorem Sheet.Sound.reorder {sheet : Sheet} {f : Frame} (hsound : sheet.Sound)
    (hnd : f.headers.Nodup) (hmem : ∀ k, k ∈ f.headers ↔ k ∈ sheet.headers) :
    (sheet.withData f sheet.columns).Sound :=
  .withData sheet hnd (hsound.columns.congr hmem)

theorem MoveColumn.mem_moved {items : List Header} {source target : Nat} {k h : Header}
    (hsource : items[source]? = some h) (htarget : target ≤ items.length - 1) :
    k ∈ MoveColumn.moved items source target ↔ k ∈ items := by
  obtain ⟨hlt, rfl⟩ := List.getElem?_eq_some_iff.mp hsource
  have hperm := List.perm_insertIdx items[source] (items.eraseIdx source)
    (show target ≤ (items.eraseIdx source).length by rw [List.length_eraseIdx_of_lt hlt]; omega)
  simp only [MoveColumn.moved, hsource]
  rw [hperm.mem_iff, (List.getElem_cons_eraseIdx_perm hlt).mem_iff]

theorem MoveColumn.follows {e : MoveColumn} (hs : s.Sound) (h : e.run s = .ok c) :
    c.Follows ids s := by
  unfold MoveColumn.run Sheet.columnIndex at h
  simp only [bind_eq_ok] at h
  obtain ⟨sheet, hsheet, source, ⟨header, -, hindex⟩, h⟩ := h
  have hsound := hs.sheets sheet (State.sheet_mem hsheet)
  split at h
  · simp only [pure_eq_ok] at h
    exact h ▸ .none hs
  · simp only [bind_eq_ok, pure_eq_ok] at h
    obtain ⟨frame, hframe, k, -, rfl⟩ := h
    obtain ⟨hheaders, hnd, -⟩ := Frame.headers_select hframe
    have hsource : sheet.headers[source]? = some header := by
      split at hindex
      · next i hi =>
        obtain rfl : i = source := by simpa using hindex
        exact Frame.index?_eq_some hi
      · simp at hindex
    have hafter := hsound.reorder (hheaders ▸ hnd) fun k => by
      rw [hheaders]
      refine MoveColumn.mem_moved hsource ?_
      rw [Sheet.headers, Frame.length_headers]
      exact Nat.min_le_right _ _
    exact .rewrite hs hsheet rfl rfl hafter rfl (Footprint.rewrites_write _ rfl rfl rfl)

theorem FilterRows.follows {e : FilterRows} (hs : s.Sound) (h : e.run s = .ok c) :
    c.Follows ids s := by
  unfold FilterRows.run at h
  simp only [bind_eq_ok] at h
  obtain ⟨sheet, hsheet, header, -, column, -, p, -, h⟩ := h
  have hsound := hs.sheets sheet (State.sheet_mem hsheet)
  cases p with
  | none =>
    simp only [pure_eq_ok] at h
    exact h ▸ .none hs
  | some p =>
    simp only [bind_eq_ok, pure_eq_ok] at h
    obtain ⟨tested, -, mask, -, rfl⟩ := h
    have hheaders : (sheet.frame.pickRows (p.rows tested)).headers = sheet.headers :=
      Frame.headers_pickRows _ _
    have hafter := hsound.reorder (hheaders ▸ hsound.headers) fun k => by rw [hheaders]
    cases mask with
    | none =>
      -- without a condition there is no code, and the table stays as it was
      obtain ⟨hnext, hdesk⟩ := hs.replace hafter hsheet rfl (.inl rfl)
      refine .idle hnext (hdesk.trans ?_)
      have htable : (sheet.withData (sheet.frame.pickRows (p.rows tested)) sheet.columns).table
          = sheet.table := by
        simp [Sheet.table, Sheet.idsWithHeaders, Sheet.withData, Sheet.headers]
      rw [htable, ← hs.desk_sheet (State.sheet_mem hsheet), Desk.set_eq]
    | some mask =>
      exact .rewrite hs hsheet rfl rfl hafter rfl (Footprint.rewrites_write _ rfl rfl rfl)

theorem SortRows.follows {e : SortRows} (hs : s.Sound) (h : e.run s = .ok c) :
    c.Follows ids s := by
  have hsorted : ∀ {sheet descending}, s.sheet e.sheet = .ok sheet →
      e.sorted s sheet descending = .ok c → c.Follows ids s := by
    intro sheet descending hsheet h
    simp only [SortRows.sorted, bind_eq_ok, pure_eq_ok] at h
    obtain ⟨header, -, frame, hframe, rfl⟩ := h
    have hsound := hs.sheets sheet (State.sheet_mem hsheet)
    have hheaders : frame.headers = sheet.headers := Frame.headers_sort hframe
    have hafter := hsound.reorder (hheaders ▸ hsound.headers) fun k => by rw [hheaders]
    exact .rewrite hs hsheet rfl rfl hafter rfl (Footprint.rewrites_write _ rfl rfl rfl)
  unfold SortRows.run at h
  simp only [bind_eq_ok] at h
  obtain ⟨sheet, hsheet, header, -, h⟩ := h
  split at h
  · simp only [pure_eq_ok] at h
    exact h ▸ .none hs
  · exact hsorted hsheet h
  · exact hsorted hsheet h

/-! ### Columns that change -/

theorem PromoteRow.sound_columns {sheet : Sheet} {headers : List Header} (hsound : sheet.Sound)
    (hnd : headers.Nodup) (hlen : headers.length = sheet.headers.length) :
    (PromoteRow.columns sheet.columns sheet.columnIds headers).Sound headers := by
  have hids : List.Forall₂ (fun id k => sheet.columns.header? id = some k) sheet.columnIds
      sheet.headers := by
    rw [hsound.columnIds_eq, List.forall₂_map_left_iff, List.forall₂_same]
    exact fun k hk => hsound.columns.inverse.mpr (hsound.columns.id?_eq hk)
  obtain ⟨hempty, -, hgone⟩ := hsound.columns.removeAll hids hsound.columnIds_nodup
  have hlength : sheet.columnIds.length = headers.length := hids.length_eq.trans hlen.symm
  have hfst : (sheet.columnIds.zip headers).map Prod.fst = sheet.columnIds :=
    List.map_fst_zip (Nat.le_of_eq hlength)
  have hsnd : (sheet.columnIds.zip headers).map Prod.snd = headers :=
    List.map_snd_zip (Nat.le_of_eq hlength.symm)
  refine (hempty.insertPairs (hfst.symm ▸ hsound.columnIds_nodup) (hsnd.symm ▸ hnd)
    fun p hp => ?_).congr fun k => ?_
  · exact ⟨hgone p.1 (List.of_mem_zip hp).1, by simp⟩
  · simp [hsnd]

theorem PromoteRow.follows {e : PromoteRow} (hs : s.Sound) (h : e.run s = .ok c) :
    c.Follows ids s := by
  unfold PromoteRow.run at h
  simp only [bind_eq_ok, throw_ite_eq_ok] at h
  obtain ⟨sheet, hsheet, -, headers, -, h⟩ := h
  have hsound := hs.sheets sheet (State.sheet_mem hsheet)
  split at h
  · simp at h
  · simp only [bind_eq_ok, pure_eq_ok] at h
    obtain ⟨frame, hframe, rfl⟩ := h
    obtain ⟨hheaders, hnd, hlen⟩ := Frame.headers_withHeaders hframe
    rw [Frame.headers_removeRow] at hlen
    have hafter := Sheet.Sound.withData sheet (hheaders ▸ hnd)
      ((PromoteRow.sound_columns hsound hnd hlen).congr fun k => by rw [hheaders])
    exact .rewrite hs hsheet rfl rfl hafter rfl (Footprint.rewrites_write _ rfl rfl rfl)

/-! ### Encodings

  The marks of an encoded column go to the right end and are selected into their places by their
  headers.  Where none of these is a pattern, that inserts them behind the column.
-/

/-- The columns after some were added one after the other. -/
theorem OneHot.register_snd (m : ColumnIds) (names : List String) :
    (OneHot.register m names).2 = names.foldl (fun m v => (m.insert v).2) m := by
  have hfold : ∀ acc : List ColumnId × ColumnIds,
      (names.foldl (fun (acc : List ColumnId × ColumnIds) v =>
        (acc.1 ++ [(acc.2.insert v).1], (acc.2.insert v).2)) acc).2
      = names.foldl (fun m v => (m.insert v).2) acc.2 := by
    induction names with
    | nil => exact fun acc => rfl
    | cons v rest ih =>
      intro acc
      rw [List.foldl_cons, ih]
      rfl
  exact hfold ([], m)

/-- Reading all of a sheet and writing some of its columns rewrites it. -/
theorem OneHot.rewrites (sheet : SheetId) (is : List ColumnId) :
    ((({} : Footprint).read sheet .all).write sheet (.ofList is)).Rewrites sheet := by
  have heff : ((({} : Footprint).read sheet .all).write sheet (.ofList is)).effectiveWrites
      = [(sheet, .ofList is)] := rfl
  refine ⟨rfl, rfl, .inl ?_, ?_⟩
  · exact List.mem_singleton.mpr rfl
  · simp [Footprint.touched, heff]

section Encoded

variable {f g : Frame} {column : Column} {header : Header} {names : List String} {split : Nat}

theorem OneHot.alone_of_verbatim (h : isPattern column.header = false) :
    OneHot.alone column = .ok column := by
  have hnd : (Frame.mk [column] column.cells.length).headers.Nodup := List.nodup_singleton _
  have hselect : (Frame.mk [column] column.cells.length).select [column.header]
      = .ok (Frame.mk [column] column.cells.length) :=
    Frame.select_of_mem hnd (fun _ hc => hc) hnd
  have hselected := (Frame.selectNamed_of_verbatim (List.forall_mem_singleton.mpr h)).mpr hselect
  rw [OneHot.alone]
  exact bind_eq_ok.mpr ⟨_, hselected, Frame.column_of_mem hnd (List.mem_singleton_self _)⟩

/-- Whichever columns the headers stand for, those that are selected differ. -/
theorem OneHot.nodup_encoded (h : OneHot.encoded f header names split = .ok g) :
    g.headers.Nodup := by
  simp only [OneHot.encoded, Frame.selectNamed, bind_eq_ok] at h
  obtain ⟨_, -, _, -, _, -, _, -, hdistinct⟩ := h
  obtain ⟨hnd, rfl⟩ := Frame.distinct_eq_ok.mp hdistinct
  exact hnd

theorem OneHot.headers_marks (column : Column) (names : List String) :
    (names.map (OneHot.marks column)).map Column.header = names := by
  simp [OneHot.marks, Function.comp_def]

/-- The marks of values whose headers are new go to the right end. -/
theorem OneHot.withColumns_marks (hnd : (f.headers ++ names).Nodup) :
    f.withColumns (names.map (OneHot.marks column))
      = .ok { f with columns := f.columns ++ names.map (OneHot.marks column) } := by
  have hmarks := OneHot.headers_marks column names
  obtain ⟨-, hndnames, hapart⟩ := List.nodup_append.mp hnd
  refine Frame.withColumns_of_new (hmarks.symm ▸ hndnames) fun c hc hin => ?_
  exact hapart _ hin _ (hmarks ▸ List.mem_map_of_mem hc) rfl

theorem OneHot.dummies_of_verbatim (hcolumn : f.column header = .ok column)
    (hverbatim : isPattern header = false) :
    OneHot.dummies f header names = .ok (names.map (OneHot.marks column)) := by
  rw [OneHot.dummies, Frame.namedAs_self hverbatim hcolumn]
  exact congrArg Except.ok List.map_eq_flatMap.symm

/-- The marks go to the right end and are selected from there into their places. -/
theorem OneHot.encoded_eq_ok (hcolumn : f.column header = .ok column)
    (hverbatim : ∀ h ∈ f.headers, isPattern h = false) (hnames : ∀ v ∈ names, isPattern v = false) :
    OneHot.encoded f header names split = .ok g
      ↔ f.insertColumns split (names.map (OneHot.marks column)) = .ok g := by
  let marks := names.map (OneHot.marks column)
  let placed := f.columns.take split ++ marks ++ f.columns.drop split
  have hmarks : marks.map Column.header = names := OneHot.headers_marks column names
  have hplaced : placed.map Column.header
      = f.headers.take split ++ names ++ f.headers.drop split := by
    simp [placed, hmarks, Frame.headers, List.map_take, List.map_drop]
  have hsorted : (placed.map Column.header).Perm (f.headers ++ names) := by
    rw [hplaced, List.append_assoc]
    refine (List.perm_append_comm.append_left _).trans ?_
    rw [← List.append_assoc, List.take_append_drop]
  have horder : ∀ h ∈ placed.map Column.header, isPattern h = false := by
    intro h hh
    rcases List.mem_append.mp (hsorted.mem_iff.mp hh) with hh | hh
    · exact hverbatim h hh
    · exact hnames h hh
  -- with the marks at the right end, the columns are selected in their places
  have hencoded : (placed.map Column.header).Nodup →
      OneHot.encoded f header names split = .ok { f with columns := placed } := by
    intro hnd
    have hndwide : (f.headers ++ names).Nodup := hsorted.nodup_iff.mp hnd
    have hselect : Frame.select { f with columns := f.columns ++ marks } (placed.map Column.header)
        = .ok { f with columns := placed } := by
      refine Frame.select_of_mem ?_ (fun c hc => ?_) hnd
      · rw [Frame.headers, List.map_append, hmarks]
        exact hndwide
      · simp only [placed, List.mem_append] at hc ⊢
        rcases hc with (hc | hc) | hc
        · exact .inl (List.mem_of_mem_take hc)
        · exact .inr hc
        · exact .inl (List.mem_of_mem_drop hc)
    obtain ⟨hin, hheader⟩ := Frame.column_eq_ok hcolumn
    have hdummies : OneHot.dummies f header names = .ok marks :=
      OneHot.dummies_of_verbatim hcolumn (hverbatim header (hheader ▸ Frame.header_mem hin))
    rw [OneHot.encoded, hdummies]
    refine bind_eq_ok.mpr ⟨_, rfl, bind_eq_ok.mpr ⟨_, OneHot.withColumns_marks hndwide, ?_⟩⟩
    rw [← hplaced]
    exact (Frame.selectNamed_of_verbatim horder).mpr hselect
  constructor
  · intro h
    have hnd : (placed.map Column.header).Nodup := by
      simp only [OneHot.encoded, bind_eq_ok] at h
      obtain ⟨-, -, wide, -, hselect⟩ := h
      rw [← hplaced, Frame.selectNamed_of_verbatim horder] at hselect
      exact (Frame.headers_select hselect).2.1
    rw [← Except.ok.inj ((hencoded hnd).symm.trans h), Frame.insertColumns]
    have hlength := length_eraseDups_of_nodup hnd
    rw [List.length_map] at hlength
    exact if_pos hlength
  · intro h
    obtain ⟨hheaders, hnd⟩ := Frame.headers_insertColumns h
    have hg : g = { f with columns := placed } := by
      unfold Frame.insertColumns at h
      dsimp only at h
      split at h
      · exact (Except.ok.inj h).symm
      · cases h
    subst hg
    exact hencoded hnd

end Encoded

theorem OneHot.run_eq_ok {e : OneHot} : e.run s = .ok c
    ↔ ∃ sheet header position column alone frame, s.sheet e.sheet = .ok sheet
      ∧ sheet.header e.column = .ok header ∧ sheet.columnIndex e.column = .ok position
      ∧ sheet.column e.column = .ok column ∧ column.dtype ≠ .duration
      ∧ OneHot.alone column = .ok alone
      ∧ (∀ v ∈ OneHot.values alone, sheet.columns.id? v = none)
      ∧ OneHot.encoded sheet.frame header (OneHot.values alone) (position + 1) = .ok frame
      ∧ c = e.change s sheet header (position + 1) (OneHot.values alone) frame := by
  unfold OneHot.run
  simp only [bind_eq_ok, throw_ite_eq_ok, pure_eq_ok]
  constructor
  · rintro ⟨sheet, hsheet, header, hheader, position, hposition, column, hcolumn, htype, alone,
      halone, hfree, frame, hframe, rfl⟩
    exact ⟨sheet, header, position, column, alone, frame, hsheet, hheader, hposition, hcolumn,
      htype, halone, by simpa using hfree, hframe, rfl⟩
  · rintro ⟨sheet, header, position, column, alone, frame, hsheet, hheader, hposition, hcolumn,
      htype, halone, hfree, hframe, rfl⟩
    exact ⟨sheet, hsheet, header, hheader, position, hposition, column, hcolumn, htype, alone,
      halone, by simpa using hfree, frame, hframe, rfl⟩

/-- What an encoding does where no header is a pattern, on every state with the sheet. -/
theorem OneHot.inserts {e : OneHot} (hp : s.Verbatim) (hnext : c.state.Verbatim)
    (h : e.run s = .ok c) :
    ∃ sheet position column frame, s.sheet e.sheet = .ok sheet
      ∧ sheet.column e.column = .ok column ∧ OneHot.alone column = .ok column
      ∧ (∀ v ∈ OneHot.values column, sheet.columns.id? v = none)
      ∧ sheet.frame.insertColumns (position + 1)
          ((OneHot.values column).map (OneHot.marks column)) = .ok frame
      ∧ (∀ t : State, t.sheet e.sheet = .ok sheet → e.run t
          = .ok (e.change t sheet column.header (position + 1) (OneHot.values column) frame))
      ∧ c = e.change s sheet column.header (position + 1) (OneHot.values column) frame := by
  obtain ⟨sheet, header, position, column, alone, frame, hsheet, hheader, hposition, hcolumn, htype,
    halone, hfree, hframe, rfl⟩ := OneHot.run_eq_ok.mp h
  have hverbatim := (hp sheet (State.sheet_mem hsheet)).frame
  obtain ⟨k, hk, hdata⟩ : ∃ k, sheet.header e.column = .ok k ∧ sheet.frame.column k = .ok column :=
    bind_eq_ok.mp hcolumn
  obtain rfl : k = header := Except.ok.inj (hk.symm.trans hheader)
  obtain ⟨hmem, rfl⟩ := Frame.column_eq_ok hdata
  have hself := OneHot.alone_of_verbatim (hverbatim _ (Frame.header_mem hmem))
  obtain rfl : column = alone := Except.ok.inj (hself.symm.trans halone)
  -- the sheet is still there afterwards, so the new headers are no patterns either
  have hnames : ∀ v ∈ OneHot.values column, isPattern v = false := by
    intro v hv
    obtain ⟨left, right, heq, hlen⟩ := State.sheet_eq_ok hsheet
    have hafter : sheet.withData frame (OneHot.register sheet.columns (OneHot.values column)).2
        ∈ (e.change s sheet column.header (position + 1) (OneHot.values column) frame).state.sheets
        := by
      simp [OneHot.change, Change.onSheet, State.replace, heq, ← hlen]
    obtain ⟨id, hid⟩ := ColumnIds.id?_insertAll sheet.columns hv
    rw [← OneHot.register_snd] at hid
    exact (hnext _ hafter).registered hid
  refine ⟨sheet, position, column, frame, hsheet, hcolumn, halone, hfree,
    (OneHot.encoded_eq_ok hdata hverbatim hnames).mp hframe, fun t ht => ?_, rfl⟩
  exact OneHot.run_eq_ok.mpr ⟨sheet, _, position, column, column, frame, ht, hheader, hposition,
    hcolumn, htype, halone, hfree, hframe, rfl⟩

/-- The columns of an encoded sheet: the new ones differ, and no old one has the header of
  one of them. -/
theorem OneHot.inserted {sheet : Sheet} {names : List String} {column : Column} {frame : Frame}
    {split : Nat} (hs : sheet.Sound) (hfree : ∀ v ∈ names, sheet.columns.id? v = none)
    (hframe : sheet.frame.insertColumns split (names.map (OneHot.marks column)) = .ok frame) :
    names.Nodup ∧ (∀ v ∈ names, v ∉ sheet.headers)
      ∧ frame.headers = sheet.headers.take split ++ names ++ sheet.headers.drop split
      ∧ frame.headers.Nodup
      ∧ (names.foldl (fun m v => (m.insert v).2) sheet.columns).Sound (names ++ sheet.headers) := by
  obtain ⟨hheaders, hnd⟩ := Frame.headers_insertColumns hframe
  rw [OneHot.headers_marks] at hheaders
  have hndnames : names.Nodup := by
    rw [hheaders, List.append_assoc] at hnd
    exact (List.nodup_append.mp (List.nodup_append.mp hnd).2.1).1
  have hnew : ∀ v ∈ names, v ∉ sheet.headers := by
    intro v hv hin
    have hlive := hs.columns.live.mpr hin
    simp [hfree v hv] at hlive
  exact ⟨hndnames, hnew, hheaders, hnd, hs.columns.insertAll hndnames hnew⟩

theorem OneHot.follows {e : OneHot} (hs : s.Sound) (hp : s.Verbatim) (hnext : c.state.Verbatim)
    (h : e.run s = .ok c) : c.Follows ids s := by
  obtain ⟨sheet, position, column, frame, hsheet, -, -, hfree, hframe, -, rfl⟩ :=
    OneHot.inserts hp hnext h
  have hsound := hs.sheets sheet (State.sheet_mem hsheet)
  obtain ⟨-, -, -, hnd, hcolumns⟩ := OneHot.inserted hsound hfree hframe
  have hafter := Sheet.Sound.withData sheet hnd (hcolumns.congr fun k => by
    rw [Frame.mem_headers_insertColumns hframe, OneHot.headers_marks]
    rfl)
  rw [← OneHot.register_snd] at hafter
  exact .rewrite hs hsheet rfl rfl hafter rfl (OneHot.rewrites _ _)

end SheetScript
