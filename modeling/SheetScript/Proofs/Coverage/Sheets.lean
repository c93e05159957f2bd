import SheetScript.Proofs.Coverage.Rows
import SheetScript.Proofs.Edit.Sheets

/-! # Edits that keep the data are covered

  Copying a sheet reads all of it, deleting and renaming one writes all of it.
  Formats and charts need no code: they depend on headers and on the height, and on
  no cell.  An export reads all of the sheets that it writes to files.
-/

namespace SheetScript

variable {plain : Prop} {s : State} {c : Change}

/-- A sheet of which the code accesses all columns is the same on both sides. -/
theorem State.AlikeBut.sheet_of_accesses {t : State} {i : Nat} {sheet : Sheet} {b : ChunkBody}
    (ht : s.AlikeBut (Code.Spares [b]) t) (hsheet : s.sheet i = .ok sheet)
    (hall : b.footprint.Accesses sheet.id .all) : t.sheet i = .ok sheet :=
  ht.sheet_eq hsheet fun _ hspared => (Code.spares_singleton.mp hspared).not_all hall

/-- The new id of a state is that of no sheet. -/
theorem State.Linked.not_touched (hs : s.Linked) {b : ChunkBody}
    (htouch : b.footprint.touched = [⟨s.nextId⟩]) : ∀ sh ∈ s.sheets, sh.id ∉ b.footprint.touched := by
  intro sh hsh hin
  rw [htouch, List.mem_singleton] at hin
  exact hs.fresh (hin ▸ List.mem_map_of_mem hsh)

theorem DuplicateSheet.covered {e : DuplicateSheet} (hs : s.Linked) (h : e.run s = .ok c) :
    c.Covered plain e.run s := by
  simp only [DuplicateSheet.run, bind_eq_ok, pure_eq_ok] at h
  obtain ⟨source, hsource, rfl⟩ := h
  have hsound := hs.sheets source (State.sheet_mem hsource)
  have hcopy : Sheet.Linked { source with
      id := ⟨s.nextId⟩, name := s.uniqueName (source.name ++ "_copy") } :=
    ⟨hsound.headers, hsound.columns⟩
  refine .added (hs.push (s.mint "" source.frame).2 rfl rfl rfl hcopy) rfl
    (hs.not_touched (ChunkBody.touched_duplicateSheet _ _)) fun _ t ht => ?_
  have hread := (ChunkBody.accesses_duplicateSheet source.target
    (Sheet.target { source with
      id := ⟨s.nextId⟩, name := s.uniqueName (source.name ++ "_copy") })).1
  have hagain := ht.sheet_of_accesses hsource hread
  simp only [DuplicateSheet.run, bind_eq_ok, pure_eq_ok]
  refine ⟨source, hagain, ?_⟩
  rw [ht.uniqueName_eq, ht.rest]
  rfl

theorem DeleteSheet.covered {e : DeleteSheet} (hs : s.Linked) (h : e.run s = .ok c) :
    c.Covered plain e.run s := by
  simp only [DeleteSheet.run, State.remove, bind_eq_ok, pure_eq_ok] at h
  obtain ⟨sheet, hsheet, next, ⟨sheet', hsheet', rfl⟩, rfl⟩ := h
  obtain rfl : sheet = sheet' := Except.ok.inj (hsheet.symm.trans hsheet')
  obtain ⟨left, right, heq, hlen⟩ := State.sheet_eq_ok hsheet
  have herase : s.sheets.eraseIdx e.sheet = left ++ right := by
    simp [heq, List.eraseIdx_append, ← hlen]
  have hsub : (left ++ right).Sublist s.sheets := by
    rw [heq]
    exact List.Sublist.append_left (List.sublist_cons_self _ _) _
  have htouch := ChunkBody.touched_deleteSheet sheet.target
  refine ⟨⟨?_, ?_, ?_⟩, ?_, ?_, ?_⟩
  · show ((s.sheets.eraseIdx e.sheet).map Sheet.id).Nodup
    rw [herase]
    exact hs.ids.sublist (hsub.map _)
  · show ∀ sh ∈ s.sheets.eraseIdx e.sheet, _
    rw [herase]
    exact fun sh hsh => hs.below sh (hsub.subset hsh)
  · show ∀ sh ∈ s.sheets.eraseIdx e.sheet, _
    rw [herase]
    exact fun sh hsh => hs.sheets sh (hsub.subset hsh)
  · intro sh hsh hnot
    refine ⟨sh, ?_, rfl, rfl, rfl⟩
    show sh ∈ s.sheets.eraseIdx e.sheet
    have hne : sh ≠ sheet := by
      rintro rfl
      exact hnot (Code.touches_singleton.mpr (by rw [htouch]; exact List.mem_singleton.mpr rfl))
    rw [heq, List.mem_append, List.mem_cons] at hsh
    rw [herase, List.mem_append]
    tauto
  · -- the deleted sheet does not survive
    intro sh hsh sk hsk hid ht
    rw [Code.touches_singleton, htouch, List.mem_singleton] at ht
    obtain rfl := hs.eq_of_id hsh (State.sheet_mem hsheet) ht
    change sk ∈ s.sheets.eraseIdx e.sheet at hsk
    rw [herase] at hsk
    have hids := hs.ids
    rw [heq, List.map_append, List.map_cons, List.nodup_middle, ← List.map_append] at hids
    exact absurd (hid ▸ List.mem_map_of_mem hsk) (List.nodup_cons.mp hids).1
  · intro _ t ht
    obtain ⟨sk, hsk, halike⟩ := ht.sheet hsheet
    obtain ⟨g, rfl, -⟩ := halike.exists_frame
    refine ⟨⟨{ t with
        sheets := t.sheets.eraseIdx e.sheet
        charts := t.charts.filter fun chart => chart.2.sheet ≠ sheet.id },
      [.deleteSheet sheet.target]⟩, ?_, rfl, ?_, ?_⟩
    · simp only [DeleteSheet.run, State.remove, bind_eq_ok, pure_eq_ok]
      exact ⟨_, hsk, _, ⟨_, hsk, rfl⟩, rfl⟩
    · rw [ht.rest]
    · show List.Forall₂ _ (s.sheets.eraseIdx e.sheet) (t.sheets.eraseIdx e.sheet)
      rw [List.eraseIdx_eq_take_drop_succ, List.eraseIdx_eq_take_drop_succ]
      exact List.rel_append (List.forall₂_take _ ht.sheets) (List.forall₂_drop _ ht.sheets)

theorem RenameSheet.covered {e : RenameSheet} (hs : s.Linked) (h : e.run s = .ok c) :
    c.Covered plain e.run s := by
  unfold RenameSheet.run at h
  simp only [bind_eq_ok] at h
  obtain ⟨sheet, hsheet, h⟩ := h
  split at h
  · next hsame =>
    simp only [pure_eq_ok] at h
    subst h
    refine .none hs fun t ht => ?_
    obtain ⟨sk, hsk, halike⟩ := ht.sheet hsheet
    obtain ⟨g, rfl, -⟩ := halike.exists_frame
    unfold RenameSheet.run
    simp only [bind_eq_ok]
    exact ⟨_, hsk, by rw [if_pos hsame]; rfl⟩
  · next hdiffer =>
    simp only [throw_ite_eq_ok, pure_eq_ok] at h
    obtain ⟨hfree, rfl⟩ := h
    have hlinked := hs.sheets sheet (State.sheet_mem hsheet)
    have hafter : Sheet.Linked { sheet with name := Naming.variableName e.name } :=
      ⟨hlinked.headers, hlinked.columns⟩
    refine .rewrite hs hsheet rfl hafter rfl fun _ t ht hagain => ?_
    unfold RenameSheet.run
    simp only [bind_eq_ok]
    refine ⟨sheet, hagain, ?_⟩
    rw [if_neg hdiffer]
    simp only [throw_ite_eq_ok, pure_eq_ok]
    exact ⟨by rwa [ht.names_eq], trivial⟩

/-! ### Edits without code -/

theorem FormatSheet.covered {e : FormatSheet} (hs : s.Linked) (h : e.run s = .ok c) :
    c.Covered plain e.run s := by
  simp only [FormatSheet.run, bind_eq_ok, pure_eq_ok] at h
  obtain ⟨sheet, hsheet, headers, hheaders, rfl⟩ := h
  have hmem := State.sheet_mem hsheet
  have hlinked := hs.sheets sheet hmem
  refine .still (hs.replace hsheet rfl ⟨hlinked.headers, hlinked.columns⟩) Code.not_touches_nil
    ?_ ?_
  · intro sh hsh
    by_cases hid : sh.id = sheet.id
    · obtain rfl := hs.eq_of_id hsh hmem hid
      exact ⟨_, (hs.mem_replace hsheet).mpr (.inl rfl), rfl, rfl, rfl⟩
    · exact ⟨sh, (hs.mem_replace hsheet).mpr (.inr ⟨hsh, hid⟩), rfl, rfl, rfl⟩
  · intro _ t ht
    obtain ⟨sk, hsk, halike⟩ := ht.sheet hsheet
    obtain ⟨g, rfl, hg⟩ := halike.exists_frame
    refine ⟨_, ?_, ht.replace e.sheet (.of_frame hg)⟩
    simp only [FormatSheet.run, bind_eq_ok, pure_eq_ok]
    exact ⟨_, hsk, headers, hheaders, rfl⟩

theorem DrawChart.covered {e : DrawChart} (hs : s.Linked) (h : e.run s = .ok c) :
    c.Covered plain e.run s := by
  simp only [DrawChart.run, bind_eq_ok, pure_eq_ok] at h
  obtain ⟨sheet, hsheet, code, hcode, rfl⟩ := h
  refine .still ⟨hs.ids, hs.below, hs.sheets⟩ Code.not_touches_nil
    (fun sh hsh => ⟨sh, hsh, rfl, rfl, rfl⟩) fun _ t ht => ?_
  obtain ⟨sk, hsk, halike⟩ := ht.sheet hsheet
  obtain ⟨g, rfl, hg⟩ := halike.exists_frame
  have hagain : e.code { sheet with frame := g } = .ok code := by
    rw [← hcode]
    unfold DrawChart.code
    dsimp only
    rw [hg.height]
    rfl
  refine ⟨{ t with charts := Dictionary.insert t.charts e.key ⟨sheet.id, e.kind.function, code⟩ },
    ?_, ?_, ht.sheets⟩
  · simp only [DrawChart.run, bind_eq_ok, pure_eq_ok]
    exact ⟨_, hsk, code, hagain, rfl⟩
  · rw [ht.rest]

/-! ### Exports -/

/-- Reading all of some sheets. -/
theorem ExportSheets.get?_foldl_read (sheets : List Sheet) (f : Footprint) (t : SheetId) :
    Dictionary.get? (sheets.foldl (fun f sheet => f.read sheet.id .all) f).reads t
      = if t ∈ sheets.map Sheet.id then some .all else Dictionary.get? f.reads t := by
  induction sheets generalizing f with
  | nil => simp
  | cons sheet rest ih =>
    rw [List.foldl_cons, ih, Footprint.read, ColumnAccess.get?_add_all]
    by_cases hrest : t ∈ rest.map Sheet.id
    · simp [hrest]
    · by_cases ht : sheet.id = t
      · simp [ht]
      · simp [hrest, ht, Ne.symm ht]

theorem ExportSheets.writes_foldl_read (sheets : List Sheet) (f : Footprint) :
    (sheets.foldl (fun f sheet => f.read sheet.id .all) f).effectiveWrites = f.effectiveWrites := by
  induction sheets generalizing f with
  | nil => rfl
  | cons sheet rest ih => exact ih _

theorem ExportSheets.covered {e : ExportSheets} {d : Disk} (hs : s.Linked)
    (h : (e.run d s).1 = .ok c) : c.Covered plain (fun t => (e.run d t).1) s := by
  unfold ExportSheets.run at h
  cases hsheets : e.sheetsOf s with
  | error f =>
    rw [hsheets] at h
    cases h
  | ok sheets =>
    rw [hsheets] at h
    dsimp only at h
    split at h
    · cases h
    · next after hwrite =>
      simp only [map_eq_ok] at h
      obtain ⟨b, hb, rfl⟩ := h
      have hblock := hb
      simp only [ExportSheets.block, bind_eq_ok, pure_eq_ok] at hb
      obtain ⟨statements, -, rfl⟩ := hb
      refine .still hs ?_ (fun sh hsh => ⟨sh, hsh, rfl, rfl, rfl⟩) fun _ t ht => ⟨t, ?_, ht⟩
      · intro t
        rw [Code.touches_singleton, Footprint.touched, ChunkBody.effectiveWrites_block]
        dsimp only
        rw [writes_foldl_read]
        exact List.not_mem_nil
      · -- the exported sheets are read, so they are the same
        have hagain : e.sheetsOf t = .ok sheets := by
          simp only [ExportSheets.sheetsOf, throw_ite_eq_ok, mapM_eq_ok] at hsheets ⊢
          obtain ⟨hsome, hpath, hsheets⟩ := hsheets
          refine ⟨hsome, hpath, ?_⟩
          obtain ⟨hlen, hzip⟩ := List.forall₂_iff_zip.mp hsheets
          refine List.forall₂_iff_zip.mpr ⟨hlen, fun {i sheet} hi => ?_⟩
          refine ht.sheet_of_accesses (hzip hi) (.inl ?_)
          rw [ChunkBody.reads_block]
          refine Dictionary.mem_of_get? ?_
          rw [get?_foldl_read, if_pos (List.mem_map_of_mem (List.of_mem_zip hi).2)]
        unfold ExportSheets.run
        rw [hagain]
        dsimp only
        rw [hwrite]
        dsimp only
        rw [hblock]
        rfl

end SheetScript
