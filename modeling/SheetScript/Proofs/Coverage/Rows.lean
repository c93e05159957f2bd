import SheetScript.Proofs.Coverage.Columns
import SheetScript.Proofs.Edit.Sheets

/-! # Edits of whole sheets are covered

  Moving a column, keeping and sorting rows and turning a row into the headers write
  all of their sheet, so none of its columns is spared.  An encoding writes only the
  columns that it adds, but reads all of the sheet.
-/

namespace SheetScript

variable {plain : Prop} {s : State} {c : Change}

/-! ### Rewritten sheets -/

/-- A linked sheet whose frame keeps its headers, in any order. -/
theorem Sheet.Linked.reorder {sheet : Sheet} {f : Frame} (hs : sheet.Linked)
    (hnd : f.headers.Nodup) (hmem : ∀ k ∈ sheet.headers, k ∈ f.headers) :
    (sheet.withData f sheet.columns).Linked :=
  ⟨hnd, hs.columns.mono hmem⟩

theorem MoveColumn.covered {e : MoveColumn} (hs : s.Linked) (h : e.run s = .ok c) :
    c.Covered plain e.run s := by
  unfold MoveColumn.run at h
  simp only [bind_eq_ok] at h
  obtain ⟨sheet, hsheet, source, hsource, h⟩ := h
  have hlinked := hs.sheets sheet (State.sheet_mem hsheet)
  split at h
  · next hsame =>
    simp only [pure_eq_ok] at h
    subst h
    -- a column that is in its place stays there, which the headers alone tell
    refine .none hs fun t ht => ?_
    obtain ⟨sk, hsk, halike⟩ := ht.sheet hsheet
    obtain ⟨g, rfl, hg⟩ := halike.exists_frame
    unfold MoveColumn.run
    simp only [bind_eq_ok]
    refine ⟨_, hsk, source, ?_, ?_⟩
    · simp only [Sheet.columnIndex, bind_eq_ok] at hsource ⊢
      obtain ⟨k, hk, hindex⟩ := hsource
      exact ⟨k, hk, by rw [hg.index?_eq]; exact hindex⟩
    · rw [hg.width_eq, if_pos hsame]
      rfl
  · next hdiffer =>
    simp only [bind_eq_ok, pure_eq_ok] at h
    obtain ⟨frame, hframe, header, hheader, rfl⟩ := h
    obtain ⟨hheaders, hnd, -⟩ := Frame.headers_select hframe
    have hitem : ∃ k, sheet.headers[source]? = some k := by
      simp only [Sheet.columnIndex, bind_eq_ok] at hsource
      obtain ⟨k, -, hindex⟩ := hsource
      split at hindex
      · next i hi =>
        obtain rfl : i = source := by simpa using hindex
        exact ⟨k, Frame.index?_eq_some hi⟩
      · simp at hindex
    obtain ⟨k, hk⟩ := hitem
    have hmem : ∀ j ∈ sheet.headers, j ∈ frame.headers := by
      intro j hj
      rw [hheaders]
      refine (MoveColumn.mem_moved hk ?_).mpr hj
      rw [Sheet.headers, Frame.length_headers]
      exact Nat.min_le_right _ _
    refine .rewrite hs hsheet rfl (hlinked.reorder (hheaders ▸ hnd) hmem)
      (ChunkBody.effectiveWrites_block _) fun _ t _ ht => ?_
    unfold MoveColumn.run
    simp only [bind_eq_ok]
    refine ⟨sheet, ht, source, hsource, ?_⟩
    rw [if_neg hdiffer]
    simp only [bind_eq_ok, pure_eq_ok]
    exact ⟨frame, hframe, header, hheader, rfl⟩

/-! ### Filters -/

section Masks

variable {header target : String} {t : DType} {o : BoolOperator}

theorem Predicate.isSome_combineAll (o : BoolOperator) (ps : List Predicate) :
    (Predicate.combineAll o ps).isSome = !ps.isEmpty := by
  cases ps <;> rfl

theorem Mask.isSome_ofEntry {entry : FilterOrGroup} {p : Option Predicate} {m : Option String}
    (hp : Predicate.ofEntry header t entry = .ok p) (hm : Mask.ofEntry target t entry = .ok m) :
    m.isSome = p.isSome := by
  cases entry with
  | filter f =>
    simp only [Predicate.ofEntry, Mask.ofEntry, bind_eq_ok, pure_eq_ok] at hp hm
    obtain ⟨_, -, rfl⟩ := hp
    obtain ⟨_, -, rfl⟩ := hm
    rfl
  | group fs o =>
    simp only [Predicate.ofEntry, Mask.ofEntry, bind_eq_ok, pure_eq_ok, mapM_eq_ok] at hp hm
    obtain ⟨tests, htests, rfl⟩ := hp
    obtain ⟨parts, hparts, rfl⟩ := hm
    have hlen : parts.length = tests.length := hparts.length_eq.symm.trans htests.length_eq
    rw [Predicate.isSome_combineAll]
    cases parts <;> cases tests <;> simp_all

/-- A filter list that asks something of the cells has a condition in the code, and
  conversely. -/
theorem Mask.isSome_ofFilters {filters : List FilterOrGroup} {p : Option Predicate}
    {mask : Option String} (hp : Predicate.ofFilters header t o filters = .ok p)
    (hmask : Mask.ofFilters target t o filters = .ok mask) : mask.isSome = p.isSome := by
  simp only [Predicate.ofFilters, Mask.ofFilters, bind_eq_ok, pure_eq_ok, mapM_eq_ok] at hp hmask
  obtain ⟨ps, hps, rfl⟩ := hp
  obtain ⟨ms, hms, rfl⟩ := hmask
  have hparts : (ms.filterMap id).isEmpty = (ps.filterMap id).isEmpty := by
    induction hps generalizing ms with
    | nil =>
      cases hms
      rfl
    | @cons _ p _ _ hp _ ih =>
      obtain _ | ⟨hm, hms⟩ := hms
      rename_i m _
      have hfirst := Mask.isSome_ofEntry hp hm
      have hrest := ih _ hms
      cases m with
      | none =>
        cases p with
        | none => exact hrest
        | some p => cases hfirst
      | some m =>
        cases p with
        | none => cases hfirst
        | some p => rfl
  rw [Predicate.isSome_combineAll, ← hparts]
  rcases ms.filterMap id with - | ⟨a, - | ⟨b, rest⟩⟩ <;> rfl

end Masks

theorem FilterRows.covered {e : FilterRows} (hs : s.Linked) (h : e.run s = .ok c) :
    c.Covered plain e.run s := by
  unfold FilterRows.run at h
  simp only [bind_eq_ok] at h
  obtain ⟨sheet, hsheet, header, hheader, column, hcolumn, p, hp, h⟩ := h
  have hlinked := hs.sheets sheet (State.sheet_mem hsheet)
  cases p with
  | none =>
    simp only [pure_eq_ok] at h
    subst h
    refine .none hs fun t ht => ?_
    obtain ⟨sk, hsk, halike⟩ := ht.sheet hsheet
    obtain ⟨g, rfl, hg⟩ := halike.exists_frame
    obtain ⟨d, hd, hcd⟩ := Sheet.column_alike hg hcolumn
    unfold FilterRows.run
    simp only [bind_eq_ok]
    exact ⟨_, hsk, header, hheader, d, hd, none, by rw [hcd.dtype]; exact hp, rfl⟩
  | some p =>
    simp only [bind_eq_ok, pure_eq_ok] at h
    obtain ⟨tested, htested, mask, hmask, rfl⟩ := h
    -- where rows are left out, there is a mask to leave them out in the script
    obtain ⟨m, rfl⟩ := Option.isSome_iff_exists.mp (Mask.isSome_ofFilters hp hmask)
    have hheaders : (sheet.frame.pickRows (p.rows tested)).headers = sheet.headers :=
      Frame.headers_pickRows _ _
    have hafter := hlinked.reorder (hheaders ▸ hlinked.headers) fun k hk => by rwa [hheaders]
    refine .rewrite hs hsheet rfl hafter (ChunkBody.effectiveWrites_block _) fun _ t _ ht => ?_
    unfold FilterRows.run
    simp only [bind_eq_ok]
    refine ⟨sheet, ht, header, hheader, column, hcolumn, some p, hp, ?_⟩
    simp only [bind_eq_ok, pure_eq_ok]
    exact ⟨tested, htested, some m, hmask, rfl⟩

/-! ### Sorting -/

theorem SortRows.covered_sorted {e : SortRows} {sheet : Sheet} {descending : Bool}
    (hs : s.Linked) (hsheet : s.sheet e.sheet = .ok sheet)
    (h : e.sorted s sheet descending = .ok c)
    (hrun : ∀ t, t.sheet e.sheet = .ok sheet → e.run t = e.sorted t sheet descending) :
    c.Covered plain e.run s := by
  simp only [SortRows.sorted, bind_eq_ok, pure_eq_ok] at h
  obtain ⟨header, hheader, frame, hframe, rfl⟩ := h
  have hlinked := hs.sheets sheet (State.sheet_mem hsheet)
  have hheaders : frame.headers = sheet.headers := Frame.headers_sort hframe
  have hafter := hlinked.reorder (hheaders ▸ hlinked.headers) fun k hk => by rwa [hheaders]
  refine .rewrite hs hsheet rfl hafter (ChunkBody.effectiveWrites_block _) fun _ t _ ht => ?_
  rw [hrun t ht]
  simp only [SortRows.sorted, bind_eq_ok, pure_eq_ok]
  exact ⟨header, hheader, frame, hframe, rfl⟩

theorem SortRows.run_of_header {e : SortRows} {sheet : Sheet} {header : Header}
    (hsheet : s.sheet e.sheet = .ok sheet) (hheader : sheet.header e.column = .ok header) :
    e.run s = match e.order with
      | .unsorted => pure (.none s)
      | .ascending => e.sorted s sheet false
      | .descending => e.sorted s sheet true := by
  unfold SortRows.run
  rw [hsheet]
  show (sheet.header e.column >>= _) = _
  rw [hheader]
  rfl

theorem SortRows.covered {e : SortRows} (hs : s.Linked) (h : e.run s = .ok c) :
    c.Covered plain e.run s := by
  have hopened := h
  unfold SortRows.run at hopened
  simp only [bind_eq_ok] at hopened
  obtain ⟨sheet, hsheet, header, hheader, -⟩ := hopened
  rw [run_of_header hsheet hheader] at h
  cases horder : e.order with
  | unsorted =>
    simp only [horder, pure_eq_ok] at h
    subst h
    refine .none hs fun t ht => ?_
    obtain ⟨sk, hsk, halike⟩ := ht.sheet hsheet
    obtain ⟨g, rfl, -⟩ := halike.exists_frame
    rw [run_of_header hsk hheader, horder]
    rfl
  | ascending =>
    rw [horder] at h
    exact covered_sorted hs hsheet h fun t ht => by rw [run_of_header ht hheader, horder]
  | descending =>
    rw [horder] at h
    exact covered_sorted hs hsheet h fun t ht => by rw [run_of_header ht hheader, horder]

/-! ### Columns that change -/

/-- Under new headers every registered id is linked to one of them. -/
theorem Sheet.Linked.promote {sheet : Sheet} {headers : List Header} (hs : sheet.Linked)
    (hnd : headers.Nodup) :
    (PromoteRow.columns sheet.columns sheet.columnIds headers).Linked headers := by
  -- the ids of all columns are removed first, so none is registered any more
  have hempty : (sheet.columnIds.foldl (fun m id => (m.remove id).2) sheet.columns).Linked [] := by
    refine ⟨(hs.columns.removeAll _).back, fun {i k} hi => ?_⟩
    rw [ColumnIds.header?_removeAll] at hi
    split at hi
    · cases hi
    · next hnot =>
      refine absurd (List.mem_filterMap.mpr ⟨k, hs.columns.live hi, hs.columns.back hi⟩) hnot
  have hsub : ((sheet.columnIds.zip headers).map Prod.snd).Sublist headers := by
    generalize sheet.columnIds = ids
    clear hempty hnd
    induction ids generalizing headers with
    | nil => simp
    | cons i ids ih =>
      cases headers with
      | nil => simp
      | cons k ks => simpa using ih
  refine (hempty.insertPairs (hnd.sublist hsub) fun _ _ => List.not_mem_nil).mono fun k hk => ?_
  rw [List.append_nil] at hk
  exact hsub.subset hk

theorem PromoteRow.covered {e : PromoteRow} (hs : s.Linked) (h : e.run s = .ok c) :
    c.Covered plain e.run s := by
  unfold PromoteRow.run at h
  simp only [bind_eq_ok, throw_ite_eq_ok] at h
  obtain ⟨sheet, hsheet, hrow, headers, hheaders, h⟩ := h
  have hlinked := hs.sheets sheet (State.sheet_mem hsheet)
  split at h
  · simp at h
  · next hrepeated =>
    simp only [bind_eq_ok, pure_eq_ok] at h
    obtain ⟨frame, hframe, rfl⟩ := h
    obtain ⟨hnew, hnd, -⟩ := Frame.headers_withHeaders hframe
    have hcolumns := hlinked.promote hnd
    rw [← hnew] at hnd hcolumns
    refine .rewrite hs hsheet rfl ⟨hnd, hnew ▸ hcolumns⟩ (ChunkBody.effectiveWrites_block _)
      fun _ t _ ht => ?_
    unfold PromoteRow.run
    simp only [bind_eq_ok, throw_ite_eq_ok]
    refine ⟨sheet, ht, hrow, headers, hheaders, ?_⟩
    rw [hrepeated]
    simp only [bind_eq_ok, pure_eq_ok]
    exact ⟨frame, hframe, rfl⟩

theorem OneHot.covered {e : OneHot} (hs : s.Linked) (hp : s.Verbatim) (hnext : c.state.Verbatim)
    (h : e.run s = .ok c) : c.Covered plain e.run s := by
  obtain ⟨sheet, position, column, frame, hsheet, -, -, -, hframe, hagain, rfl⟩ :=
    OneHot.inserts hp hnext h
  have hlinked := hs.sheets sheet (State.sheet_mem hsheet)
  obtain ⟨hndnames, hnew⟩ := Frame.insertColumns_apart hframe
  rw [OneHot.headers_marks] at hndnames hnew
  have hcolumns : (OneHot.register sheet.columns (OneHot.values column)).2.Linked frame.headers := by
    rw [OneHot.register_snd]
    refine (hlinked.columns.insertAll hndnames hnew).mono fun k hk => ?_
    rw [Frame.mem_headers_insertColumns hframe, OneHot.headers_marks]
    exact hk
  refine .onSheet hs hsheet rfl ⟨(Frame.headers_insertColumns hframe).2, hcolumns⟩ ?_ ?_ ?_
  · rw [Footprint.touched, ChunkBody.effectiveWrites_block]
    rfl
  · intro col hcol id hid _
    refine ⟨Frame.mem_insertColumns hframe hcol, ?_⟩
    show (OneHot.register sheet.columns (OneHot.values column)).2.id? col.header = some id
    rw [OneHot.register_snd, ColumnIds.id?_insertAll_of_not_mem, hid]
    exact fun hin => hnew _ hin (Frame.header_mem hcol)
  · -- all of the sheet is read, so no column is spared
    intro _ t g _ ht hg
    have hall : (ChunkBody.block (OneHot.block sheet
        (sheet.withData frame (OneHot.register sheet.columns (OneHot.values column)).2)
        column.header (position + 1)
        (OneHot.register sheet.columns (OneHot.values column)).1)).footprint.Accesses
          sheet.id .all := by
      refine .inl ?_
      rw [ChunkBody.reads_block]
      exact List.mem_singleton.mpr rfl
    have hsame := (Sheet.AlikeBut.of_frame hg).eq fun id hspared => hspared.not_all hall
    exact ⟨_, hagain t (hsame ▸ ht), .refl _ _⟩

end SheetScript
