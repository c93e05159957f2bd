import SheetScript.Edit.Columns
import SheetScript.Edit.Retype
import SheetScript.Proofs.Edit.Basic

/-! # Edits of columns follow their code

  Adding, deleting, renaming, filling and converting columns are chunks of their
  own, which do to the table of the sheet what the edit does to the sheet.  Moving
  a column is a block.
-/

namespace SheetScript

open Symbolic

variable {s : State} {c : Change} {ids : Prop}

/-! ### Frames under other columns -/

namespace Sheet

variable {m n : ColumnIds} {hs : List Header}

/-- Headers with the same ids look the same. -/
theorem map_cell_congr (h : ∀ k ∈ hs, m.id? k = n.id? k) :
    hs.map (cell m) = hs.map (cell n) := by
  refine List.map_congr_left fun k hk => ?_
  simp [cell, ColumnIds.columnOf, h k hk]

/-- Of a column that is filled nothing else changes. -/
theorem onHeader_value (f : SymbolicFrame Unit) (k : Header) (v : SymbolicColumn Unit → Unit) :
    Machine.onHeader f k (fun e => { e with value := v e }) = f := by
  unfold Machine.onHeader
  conv_rhs => rw [← List.map_id' f]
  refine List.map_congr_left fun e _ => ?_
  split <;> rfl

end Sheet

/-! ### The edits -/

theorem AddColumn.place_le (e : AddColumn) (width : Nat) : e.place width ≤ width := by
  unfold AddColumn.place
  split
  · exact Nat.le_refl width
  · exact Nat.min_le_right _ _

theorem AddColumn.follows {e : AddColumn} (hs : s.Sound) (h : e.run s = .ok c) :
    c.Follows ids s := by
  unfold AddColumn.run at h
  simp only [bind_eq_ok, throw_ite_eq_ok, pure_eq_ok] at h
  obtain ⟨sheet, hsheet, hnew, frame, hframe, rfl⟩ := h
  have hsound := hs.sheets sheet (State.sheet_mem hsheet)
  have hfresh : e.header ∉ sheet.headers := by rwa [hsound.columns.live] at hnew
  have hcolumns : (sheet.columns.insert e.header).2.Sound frame.headers :=
    (hsound.columns.insert hfresh).congr fun k => Frame.mem_headers_insertColumns hframe
  obtain ⟨hheaders, hnd⟩ := Frame.headers_insertColumns hframe
  have hafter := Sheet.Sound.withData sheet hnd hcolumns
  refine .column hs hsheet rfl rfl rfl hafter ⟨?_, ?_⟩ ?_ ?_
  · rwa [hsound.table_headers]
  · rw [hsound.table_frame, List.length_map]
    exact Nat.le_trans (e.place_le _) (Nat.le_of_eq sheet.frame.length_headers.symm)
  · show (sheet.columns.insert e.header).1 ∉ SymbolicFrame.ids sheet.table.frame
    rw [hsound.table_ids, hsound.mem_columnIds]
    rintro ⟨k, hk⟩
    have := hsound.columns.header?_freshId e.header
    rw [show sheet.columns.freshId e.header = (sheet.columns.insert e.header).1 from rfl, hk]
      at this
    cases this
  · -- the old columns keep their ids
    have hsame : ∀ k ∈ sheet.headers,
        sheet.columns.id? k = (sheet.columns.insert e.header).2.id? k := by
      intro k hk
      rw [ColumnIds.id?_insert, if_neg (fun he : e.header = k => hfresh (he ▸ hk))]
    have hid : (sheet.columns.insert e.header).2.columnOf e.header
        = (sheet.columns.insert e.header).1 := by
      simp [ColumnIds.columnOf, ColumnIds.id?_insert]
    rw [hafter.table_frame, hsound.table_frame]
    show _ = frame.headers.map (Sheet.cell (sheet.columns.insert e.header).2)
    rw [hheaders, Sheet.map_cell_congr hsame]
    simp [SymbolicFrame.retouch, List.map_take, List.map_drop, Sheet.headers,
      Sheet.cell, hid, Interpretation.blank]

theorem DeleteColumns.follows {e : DeleteColumns} (hs : s.Sound) (h : e.run s = .ok c) :
    c.Follows ids s := by
  unfold DeleteColumns.run at h
  simp only [bind_eq_ok, throw_ite_eq_ok, pure_eq_ok, Sheet.headersFor_eq_ok] at h
  obtain ⟨-, sheet, hsheet, headers, hids, rfl⟩ := h
  have hsound := hs.sheets sheet (State.sheet_mem hsheet)
  obtain ⟨hof, hin⟩ := hsound.columns.headersFor hids
  obtain ⟨hcolumns, hsame, -⟩ := hsound.columns.removeAll hids (nodup_eraseDups e.columns)
  have hheaders : (sheet.frame.drop headers).headers = sheet.headers.filter fun k => k ∉ headers :=
    Frame.headers_drop _ _
  have hafter := Sheet.Sound.withData sheet (hheaders ▸ hsound.headers.filter _)
    (hheaders ▸ hcolumns)
  refine .column hs hsheet rfl rfl rfl ⟨hafter.headers, hafter.columns, hafter.formulas⟩
    ⟨?_, ?_⟩ ⟨hids.length_eq, ?_⟩ ?_
  · -- columns differ, so their headers do
    have hnd := nodup_eraseDups e.columns
    rw [← hof] at hnd
    exact hnd.of_map
  · rwa [hsound.table_headers]
  · intro p hp
    exact hsound.hasColumn ((List.forall₂_iff_zip.mp hids).2 hp)
  · refine Eq.trans ?_ hafter.table_frame.symm
    show _ = (sheet.frame.drop headers).headers.map (Sheet.cell _)
    rw [hheaders, hsound.table_frame]
    refine Eq.trans ?_ (Sheet.map_cell_congr (n := sheet.columns) fun k hk => ?_).symm
    · unfold SymbolicFrame.retouch
      dsimp only
      rw [List.filter_map]
      rfl
    · exact hsame k (by simpa using (List.mem_filter.mp hk).2)

theorem RenameColumn.follows {e : RenameColumn} (hs : s.Sound) (h : e.run s = .ok c) :
    c.Follows ids s := by
  unfold RenameColumn.run RenameColumn.after at h
  simp only [bind_eq_ok, Sheet.header_eq_ok] at h
  obtain ⟨sheet, hsheet, old, hold, h⟩ := h
  have hsound := hs.sheets sheet (State.sheet_mem hsheet)
  split at h
  · simp only [pure_eq_ok] at h
    exact h ▸ .none hs
  · simp only [throw_ite_eq_ok, bind_eq_ok, pure_eq_ok] at h
    obtain ⟨-, hnew, -, ⟨frame, hframe, rfl⟩, rfl⟩ := h
    have hfresh : e.header ∉ sheet.headers := by rwa [hsound.columns.live] at hnew
    obtain ⟨hheaders, hnd, -⟩ := Frame.headers_withHeaders hframe
    have hwith := Sheet.Sound.withData sheet (hheaders ▸ hnd)
      (hheaders ▸ hsound.columns.rename hold hfresh)
    have hafter := hwith.withFormulas
      ((sheet.withData frame (sheet.columns.rename e.column e.header).2).formulas.map
        fun f => (f.1, Formula.renameReferences f.2 old e.header))
      (fun id hid => hwith.formulas id (by simpa [Dictionary.keys] using hid))
    refine .column hs hsheet rfl rfl rfl hafter ⟨?_, ?_⟩ (hsound.hasColumn hold) ?_
    · rw [hsound.table_headers]
      exact hsound.columns.mem hold
    · rwa [hsound.table_headers]
    · refine Eq.trans ?_ hafter.table_frame.symm
      show _ = frame.headers.map (Sheet.cell (sheet.columns.rename e.column e.header).2)
      rw [hheaders, hsound.table_frame]
      unfold SymbolicFrame.retouch Machine.onHeader
      dsimp only
      rw [List.map_map, List.map_map]
      refine List.map_congr_left fun k hk => ?_
      have hne : e.header ≠ k := fun he => hfresh (he ▸ hk)
      by_cases hkold : k = old
      · subst hkold
        simp [Sheet.cell, hsound.columns.inverse.mp hold, ColumnIds.columnOf,
          ColumnIds.id?_rename hold]
      · simp [Sheet.cell, hkold, ColumnIds.columnOf, ColumnIds.id?_rename hold, hne,
          Ne.symm hkold]

/-- A sheet of which columns are filled shows the same table. -/
theorem Sheet.Sound.fill {sheet : Sheet} {columns : List Column} {frame : Frame}
    (hsound : sheet.Sound) (hframe : sheet.frame.withColumns columns = .ok frame)
    (hin : ∀ c ∈ columns, c.header ∈ sheet.headers) :
    (sheet.withData frame sheet.columns).Sound
      ∧ (sheet.withData frame sheet.columns).table = sheet.table := by
  have hheaders : frame.headers = sheet.headers := Frame.headers_withColumns hframe hin
  refine ⟨.withData sheet (hheaders ▸ hsound.headers) (hheaders ▸ hsound.columns), ?_⟩
  simp [Sheet.table, Sheet.idsWithHeaders, Sheet.withData, Sheet.headers, hheaders]

/-- Every column of a formula has the given header. -/
theorem Formula.header_of_evalColumns {f : Frame} {header : Header} {e : Formula}
    {columns : List Column} (h : evalColumns f header e = .ok columns) :
    ∀ c ∈ columns, c.header = header := by
  simp only [evalColumns, bind_eq_ok, mapM_eq_ok] at h
  obtain ⟨_, -, _, -, hcolumns⟩ := h
  intro c hc
  obtain ⟨g, -, hcolumn⟩ := exists_of_mem_right hcolumns hc
  unfold evalColumn at hcolumn
  split at hcolumn
  · cases hcolumn
  · rw [← Except.ok.inj hcolumn]

theorem SetFormula.follows {e : SetFormula} (hs : s.Sound) (h : e.run s = .ok c) :
    c.Follows ids s := by
  unfold SetFormula.run at h
  simp only [bind_eq_ok, Sheet.header_eq_ok] at h
  obtain ⟨sheet, hsheet, header, hheader, h⟩ := h
  have hsound := hs.sheets sheet (State.sheet_mem hsheet)
  split at h
  · simp at h
  · next f _ =>
    simp only [bind_eq_ok, pure_eq_ok] at h
    obtain ⟨columns, hcolumns, frame, hframe, rfl⟩ := h
    have hin : header ∈ sheet.headers := hsound.columns.mem hheader
    obtain ⟨hfill, htable⟩ := hsound.fill hframe fun c hc =>
      Formula.header_of_evalColumns hcolumns c hc ▸ hin
    have hafter := hfill.withFormulas
      (Dictionary.insert (sheet.withData frame sheet.columns).formulas e.column e.formula)
      (fun id hid => by
        rcases Dictionary.mem_keys_insert.mp hid with rfl | hid
        · exact ColumnIds.contains_iff.mpr ⟨header, hheader⟩
        · exact hfill.formulas id hid)
    refine .column hs hsheet rfl rfl rfl hafter ?_ (hsound.hasColumn hheader) ?_
    · show header ∈ SymbolicFrame.headers sheet.table.frame
      rwa [hsound.table_headers]
    · refine (Sheet.onHeader_value sheet.table.frame header _).trans ?_
      exact (congrArg Table.frame htable).symm

theorem Retype.header_column {column converted : Column} {kind : ValueKind}
    (h : Retype.column column kind = .ok converted) : converted.header = column.header := by
  unfold Retype.column at h
  dsimp only at h
  split at h <;> cases h <;> rfl

/-- Every converted column has the header of the column. -/
theorem ChangeType.header_of_converted {f : Frame} {column : Column} {kind : ValueKind}
    {columns : List Column} (h : converted f column kind = .ok columns) :
    ∀ c ∈ columns, c.header = column.header := by
  simp only [converted, bind_eq_ok, mapM_eq_ok] at h
  obtain ⟨_, -, named, hnamed, hcolumns⟩ := h
  intro c hc
  obtain ⟨d, hd, hconverted⟩ := exists_of_mem_right hcolumns hc
  split at hconverted
  · rw [Retype.header_column hconverted, Frame.header_of_namedAs hnamed d hd]
  · cases hconverted

/-- A column whose header is no pattern is converted to one column. -/
theorem ChangeType.converted_of_verbatim {f : Frame} {column : Column} {kind : ValueKind}
    {columns : List Column} (hplain : isPattern column.header = false)
    (hfind : f.column column.header = .ok column) :
    converted f column kind = .ok columns
      ↔ ∃ c, Retype.column column kind = .ok c ∧ columns = [c] := by
  have hnamed : f.namedAs column.header column.header = .ok [column] :=
    Frame.namedAs_self hplain hfind
  simp only [converted, hnamed, bind_eq_ok, Except.ok.injEq, exists_eq_left', mapM_eq_ok]
  constructor
  · rintro ⟨c, hc, hcolumns⟩
    cases hcolumns with
    | cons hd hrest =>
      cases hrest
      rw [if_pos rfl] at hd
      exact ⟨_, hd, rfl⟩
  · rintro ⟨c, hc, rfl⟩
    exact ⟨c, hc, .cons (by rwa [if_pos rfl]) .nil⟩

theorem ChangeType.follows {e : ChangeType} (hs : s.Sound) (h : e.run s = .ok c) :
    c.Follows ids s := by
  unfold ChangeType.run at h
  simp only [bind_eq_ok, Sheet.header_eq_ok] at h
  obtain ⟨sheet, hsheet, header, hheader, column, hcolumn, h⟩ := h
  have hsound := hs.sheets sheet (State.sheet_mem hsheet)
  split at h
  · simp only [pure_eq_ok] at h
    exact h ▸ .none hs
  · simp only [bind_eq_ok, pure_eq_ok] at h
    obtain ⟨columns, hcolumns, frame, hframe, rfl⟩ := h
    have hname : column.header = header := by
      have hold := Sheet.column_eq_ok hcolumn
      rw [hheader] at hold
      exact (Option.some.inj hold).symm
    have hin : header ∈ sheet.headers := hsound.columns.mem hheader
    obtain ⟨hfill, htable⟩ := hsound.fill hframe fun c hc =>
      (header_of_converted hcolumns c hc).trans hname ▸ hin
    have hafter := hfill.withFormulas
      (Dictionary.erase (sheet.withData frame sheet.columns).formulas e.column)
      (fun id hid => hfill.formulas id ((List.filter_sublist.map Prod.fst).subset hid))
    refine .column hs hsheet rfl rfl rfl hafter ?_ (hsound.hasColumn hheader) ?_
    · show header ∈ SymbolicFrame.headers sheet.table.frame
      rwa [hsound.table_headers]
    · refine (Sheet.onHeader_value sheet.table.frame header _).trans ?_
      exact (congrArg Table.frame htable).symm

end SheetScript
