import SheetScript.Proofs.Coverage.Shapes
import SheetScript.Proofs.Edit.Columns
import SheetScript.Proofs.Formula.Acceptance

/-! # Edits of columns are covered

  Adding, deleting, renaming, filling and converting columns name the columns that
  they edit, and those that they read.  A formula reads the columns that it names:
  its value depends on nothing else but the height of the frame, if none of their
  headers is a pattern.
-/

namespace SheetScript

variable {plain : Prop} {s : State} {c : Change}

/-! ### Columns that stay -/

namespace Frame

variable {f g : Frame} {c d : Column}

/-- Inserted columns have headers of their own. -/
theorem insertColumns_apart {i : Nat} {cs : List Column} (h : f.insertColumns i cs = .ok g) :
    (cs.map Column.header).Nodup ∧ ∀ k ∈ cs.map Column.header, k ∉ f.headers := by
  obtain ⟨hheaders, hnd⟩ := headers_insertColumns h
  rw [hheaders, List.nodup_append, List.nodup_append] at hnd
  obtain ⟨⟨-, hnew, hleft⟩, -, hright⟩ := hnd
  refine ⟨hnew, fun k hk hin => ?_⟩
  rw [← List.take_append_drop i f.headers, List.mem_append] at hin
  rcases hin with hin | hin
  · exact hleft k hin k hk rfl
  · exact hright k (List.mem_append_right _ hk) k hin rfl

theorem mem_insertColumns {i : Nat} {cs : List Column} (h : f.insertColumns i cs = .ok g)
    (hc : c ∈ f.columns) : c ∈ g.columns := by
  unfold insertColumns at h
  dsimp only at h
  split at h
  · obtain rfl := Except.ok.inj h
    rw [← List.take_append_drop i f.columns, List.mem_append] at hc
    simp only [List.mem_append]
    tauto
  · cases h

theorem mem_drop {hs : List Header} (hc : c ∈ f.columns) (hnot : c.header ∉ hs) :
    c ∈ (f.drop hs).columns :=
  List.mem_filter.mpr ⟨hc, by simpa using hnot⟩

theorem mem_withColumn (hc : c ∈ f.columns) (hne : c.header ≠ d.header) :
    c ∈ (f.withColumn d).columns := by
  unfold withColumn
  split
  · exact List.mem_map.mpr ⟨c, hc, if_neg hne⟩
  · exact List.mem_append_left _ hc

theorem mem_withColumns {cs : List Column} (h : f.withColumns cs = .ok g) (hc : c ∈ f.columns)
    (hne : ∀ d ∈ cs, c.header ≠ d.header) : c ∈ g.columns := by
  unfold withColumns at h
  split at h
  · obtain rfl := Except.ok.inj h
    clear h
    rename_i hnd
    clear hnd
    induction cs generalizing f with
    | nil => exact hc
    | cons d rest ih =>
      rw [List.forall_mem_cons] at hne
      exact ih (mem_withColumn hc hne.1) hne.2
  · cases h

theorem mem_withHeaders {ρ : Header → Header} (h : f.withHeaders (f.headers.map ρ) = .ok g)
    (hc : c ∈ f.columns) (hstays : ρ c.header = c.header) : c ∈ g.columns := by
  rw [eq_of_withHeaders_map h, List.mem_map]
  exact ⟨c, hc, by rw [hstays]⟩

/-- Headers that stay as they are leave the frame as it is. -/
theorem eq_of_withHeaders {ρ : Header → Header} (h : f.withHeaders (f.headers.map ρ) = .ok g)
    (hstays : ∀ k, ρ k = k) : g = f := by
  rw [eq_of_withHeaders_map h]
  have hcolumns : f.columns.map (fun c => ({ c with header := ρ c.header } : Column)) = f.columns :=
    List.map_id'' (fun c => by rw [hstays]) _
  rw [hcolumns]

end Frame

/-- A column that an edit of single columns does not change is none of those that it
  edits. -/
theorem ChunkBody.not_mem_editedIds {b : ChunkBody} {t : Target} {id : ColumnId}
    (ht : b.columnTarget? = some t) (h : b.footprint.Leaves t.sheet id) : id ∉ b.editedIds :=
  h.not_mem (by simp [ChunkBody.writes_column ht])

/-- A sheet is replaced by code that edits some of its columns. -/
theorem Change.Covered.column {run : State → Except Fault Change} {i : Nat} {sheet after : Sheet}
    {b : ChunkBody} (hs : s.Linked) (hsheet : s.sheet i = .ok sheet)
    (ht : b.columnTarget? = some sheet.target) (hid : after.id = sheet.id) (hafter : after.Linked)
    (hretains : sheet.Retains (fun id => id ∉ b.editedIds) after)
    (hagain : plain → ∀ t g, t.sheet i = .ok { sheet with frame := g } →
      sheet.frame.AlikeBut (sheet.Freed (b.footprint.Spares sheet.id)) g →
      ∃ again, run t = .ok (.onSheet t i again [b])
        ∧ after.AlikeBut (b.footprint.Spares sheet.id) again) :
    Change.Covered plain run s (.onSheet s i after [b]) := by
  refine .onSheet hs hsheet hid hafter ?_ ?_ fun hplain t g _ => hagain hplain t g
  · simp [Footprint.touched, ChunkBody.writes_column ht, Dictionary.keys, Sheet.target]
  · intro col hcol id hcolid hleaves
    exact hretains col hcol id hcolid (ChunkBody.not_mem_editedIds ht hleaves)

/-! ### Adding, deleting and renaming -/

theorem AddColumn.covered {e : AddColumn} (hs : s.Linked) (h : e.run s = .ok c) :
    c.Covered plain e.run s := by
  unfold AddColumn.run at h
  simp only [bind_eq_ok, throw_ite_eq_ok, pure_eq_ok] at h
  obtain ⟨sheet, hsheet, hfree, frame, hframe, rfl⟩ := h
  have hlinked := hs.sheets sheet (State.sheet_mem hsheet)
  have hnew : e.header ∉ sheet.headers :=
    (Frame.insertColumns_apart hframe).2 e.header (List.mem_singleton.mpr rfl)
  have hcolumns : (sheet.columns.insert e.header).2.Linked frame.headers :=
    (hlinked.columns.insert hnew).mono fun k hk => (Frame.mem_headers_insertColumns hframe).mpr hk
  -- every header with an id keeps it, for the new one had none
  have hkeeps : ∀ {k i}, sheet.columns.id? k = some i →
      (sheet.columns.insert e.header).2.id? k = some i := by
    intro k i hk
    have hne : e.header ≠ k := by
      rintro rfl
      exact hfree (by simp [hk])
    rw [ColumnIds.id?_insert, if_neg hne, hk]
  refine .column hs hsheet rfl rfl ⟨(Frame.headers_insertColumns hframe).2, hcolumns⟩ ?_ ?_
  · intro col hcol id hid _
    exact ⟨Frame.mem_insertColumns hframe hcol, hkeeps hid⟩
  · intro _ t g ht hg
    obtain ⟨again, hagain, halike⟩ := hg.insertColumns hframe
    refine ⟨_, ?_, .of_frame (halike.mono ?_)⟩
    · unfold AddColumn.run
      simp only [bind_eq_ok, throw_ite_eq_ok, pure_eq_ok]
      refine ⟨_, ht, hfree, again, ?_, ?_⟩
      · rw [hg.width_eq, hg.height]
        exact hagain
      · rw [hg.width_eq]
        rfl
    · rintro k - ⟨id, hid, hspared⟩
      exact ⟨id, hkeeps hid, hspared⟩

theorem DeleteColumns.covered {e : DeleteColumns} (hs : s.Linked) (h : e.run s = .ok c) :
    c.Covered plain e.run s := by
  unfold DeleteColumns.run at h
  simp only [bind_eq_ok, throw_ite_eq_ok, pure_eq_ok] at h
  obtain ⟨hsome, sheet, hsheet, headers, hheaders, rfl⟩ := h
  have hids := Sheet.headersFor_eq_ok.mp hheaders
  have hlinked := hs.sheets sheet (State.sheet_mem hsheet)
  have hdrop : (sheet.frame.drop headers).headers = sheet.headers.filter fun k => k ∉ headers :=
    Frame.headers_drop _ _
  have hcolumns := hlinked.columns.drop hids
  rw [← hdrop] at hcolumns
  have hnd : (sheet.frame.drop headers).headers.Nodup := by
    rw [hdrop]
    exact hlinked.headers.filter _
  refine .column hs hsheet rfl rfl ⟨hnd, hcolumns⟩ ?_ ?_
  · intro col hcol id hid (hkept : id ∉ e.columns.eraseDups)
    -- the header of a deleted id leads back to that id
    have hheader : col.header ∉ headers := by
      intro hmem
      obtain ⟨j, hj, hjk⟩ := exists_of_mem_right hids hmem
      rw [hlinked.columns.back hjk, Option.some.injEq] at hid
      exact hkept (hid ▸ hj)
    refine ⟨Frame.mem_drop hcol hheader, ?_⟩
    exact (hlinked.columns.id?_removeAll hids (nodup_eraseDups _) hheader).trans hid
  · intro _ t g ht hg
    refine ⟨_, ?_, .of_frame ((hg.drop headers).mono ?_)⟩
    · unfold DeleteColumns.run
      simp only [bind_eq_ok, throw_ite_eq_ok, pure_eq_ok]
      exact ⟨hsome, _, ht, headers, hheaders, rfl⟩
    · rintro k hk ⟨id, hid, hspared⟩
      rw [hdrop, List.mem_filter, decide_eq_true_eq] at hk
      refine ⟨id, ?_, hspared⟩
      exact (hlinked.columns.id?_removeAll hids (nodup_eraseDups _) hk.2).trans hid

/-- Renaming the column of an id moves no other id that has a column. -/
theorem Sheet.Linked.id?_rename {sheet : Sheet} {id i : ColumnId} {old new k : Header}
    (hs : sheet.Linked) (hid : sheet.columns.header? id = some old) (hnew : new ∉ sheet.headers)
    (hk : k ∈ sheet.headers) (hi : sheet.columns.id? k = some i) (hne : i ≠ id) :
    k ≠ old ∧ (sheet.columns.rename id new).2.id? k = some i := by
  have hkold : k ≠ old := by
    rintro rfl
    rw [hs.columns.back hid, Option.some.injEq] at hi
    exact hne hi.symm
  have hknew : new ≠ k := fun he => hnew (he ▸ hk)
  rw [ColumnIds.id?_rename hid, if_neg hknew, if_neg (Ne.symm hkold)]
  exact ⟨hkold, hi⟩

theorem RenameColumn.covered {e : RenameColumn} (hs : s.Linked) (h : e.run s = .ok c) :
    c.Covered plain e.run s := by
  unfold RenameColumn.run at h
  simp only [bind_eq_ok] at h
  obtain ⟨sheet, hsheet, old, hold, h⟩ := h
  split at h
  · next hsame =>
    simp only [pure_eq_ok] at h
    subst h
    refine .none hs fun t ht => ?_
    obtain ⟨sk, hsk, halike⟩ := ht.sheet hsheet
    obtain ⟨g, rfl, -⟩ := halike.exists_frame
    unfold RenameColumn.run
    simp only [bind_eq_ok]
    exact ⟨_, hsk, old, hold, by rw [if_pos hsame]; rfl⟩
  · next hdiffer =>
    simp only [throw_ite_eq_ok, bind_eq_ok, pure_eq_ok, RenameColumn.after] at h
    obtain ⟨hfilled, hfree, -, ⟨frame, hframe, rfl⟩, rfl⟩ := h
    have hlinked := hs.sheets sheet (State.sheet_mem hsheet)
    have hheader := Sheet.header_eq_ok.mp hold
    obtain ⟨hheaders, hnd, -⟩ := Frame.headers_withHeaders hframe
    -- had another column the new header, it would stand twice now
    have hnew : e.header ∉ sheet.headers := by
      intro hin
      have hsame := List.inj_on_of_nodup_map hnd hin (hlinked.columns.live hheader)
      rw [if_pos rfl, if_neg (Ne.symm hdiffer)] at hsame
      exact hdiffer (hsame rfl).symm
    have hcolumns := hlinked.columns.rename hheader hnew
    rw [← hheaders] at hcolumns
    have hndframe : frame.headers.Nodup := by rwa [hheaders]
    refine .column hs hsheet rfl rfl ⟨hndframe, hcolumns⟩ ?_ ?_
    · intro col hcol id hid hnot
      obtain ⟨hkold, hkeep⟩ := hlinked.id?_rename hheader hnew (Frame.header_mem hcol) hid
        (by simpa [ChunkBody.editedIds] using hnot)
      exact ⟨Frame.mem_withHeaders hframe hcol (if_neg hkold), hkeep⟩
    · intro _ t g ht hg
      -- the renamed column is not spared, so what is free stays free
      have hfreed : ∀ k ∈ sheet.headers,
          sheet.Freed ((ChunkBody.renameColumn sheet.target e.column old e.header).footprint.Spares
            sheet.id) k →
          ∃ id, (sheet.columns.rename e.column e.header).2.id?
              (if k = old then e.header else k) = some id
            ∧ (ChunkBody.renameColumn sheet.target e.column old e.header).footprint.Spares
              sheet.id id := by
        rintro k hk ⟨id, hid, hspared⟩
        have hnot := ChunkBody.not_mem_editedIds (t := sheet.target) rfl hspared.leaves
        obtain ⟨hkold, hkeep⟩ := hlinked.id?_rename hheader hnew hk hid
          (by simpa [ChunkBody.editedIds] using hnot)
        rw [if_neg hkold]
        exact ⟨id, hkeep, hspared⟩
      obtain ⟨again, hagain, halike⟩ := hg.withHeaders (q := Sheet.Freed
        { sheet with columns := (sheet.columns.rename e.column e.header).2 } _) hfreed hframe
      refine ⟨_, ?_, .of_frame halike⟩
      unfold RenameColumn.run
      simp only [bind_eq_ok, RenameColumn.after]
      refine ⟨_, ht, old, hold, ?_⟩
      rw [if_neg hdiffer]
      simp only [throw_ite_eq_ok, bind_eq_ok, pure_eq_ok]
      exact ⟨hfilled, hfree, _, ⟨again, hagain, rfl⟩, rfl⟩

/-! ### Formulas -/

namespace Formula

theorem mem_firstOccurrences {hs : List Header} {k : Header} :
    k ∈ firstOccurrences hs ↔ k ∈ hs := by
  have key : ∀ (hs seen : List Header),
      k ∈ hs.foldl (fun seen h => if h ∈ seen then seen else seen ++ [h]) seen
        ↔ k ∈ seen ∨ k ∈ hs := by
    intro hs
    induction hs with
    | nil => simp
    | cons h rest ih =>
      intro seen
      rw [List.foldl_cons, ih, List.mem_cons]
      split
      · next hin =>
        constructor
        · tauto
        · rintro (hk | rfl | hk)
          · exact .inl hk
          · exact .inl hin
          · exact .inr hk
      · rw [List.mem_append, List.mem_singleton, or_assoc]
  unfold firstOccurrences
  rw [key]
  simp

variable {f g : Frame}

mutual

/-- A formula is evaluated alike on frames with the columns that it names. -/
theorem eval_congr : (e : Formula) → (∀ k ∈ e.columns, g.column? k = f.column? k) →
    eval g e = eval f e
  | .number _, _ | .text _, _ | .bool _, _ => rfl
  | .column k, h => by
    rw [eval, eval, h k (List.mem_singleton.mpr rfl)]
  | .negate e, h => by
    rw [eval, eval, eval_congr e h]
  | .binary o l r, h => by
    have hl := eval_congr l fun k hk => h k (List.mem_append_left _ hk)
    have hr := eval_congr r fun k hk => h k (List.mem_append_right _ hk)
    rw [eval, eval, hl, hr]
  | .call p args, h => by
    rw [eval, eval, evalAll_congr args h]

theorem evalAll_congr : (es : List Formula) → (∀ k ∈ columnsOfAll es, g.column? k = f.column? k) →
    evalAll g es = evalAll f es
  | [], _ => rfl
  | e :: rest, h => by
    have hfirst := eval_congr e fun k hk => h k (List.mem_append_left _ hk)
    have hrest := evalAll_congr rest fun k hk => h k (List.mem_append_right _ hk)
    rw [evalAll, evalAll, hfirst, hrest]

end

/-- The branch of a choice names no other columns. -/
theorem columns_selected {e branch : Formula} (h : selected? e = some branch) {k : Header}
    (hk : k ∈ branch.columns) : k ∈ e.columns := by
  unfold selected? at h
  split at h
  · next c a b =>
    obtain ⟨holds, -, rfl⟩ := Option.map_eq_some_iff.mp h
    simp only [columns, columnsOfAll, List.append_nil, List.mem_append]
    cases holds
    · exact .inr (.inr hk)
    · exact .inr (.inl hk)
  · cases h

/-- The column of a formula depends on the columns that it names, and on the height. -/
theorem evalColumn_eq {free : Header → Prop} (hg : f.AlikeBut free g) {e : Formula}
    (hfree : ∀ k ∈ e.columns, ¬ free k) (header : Header) :
    e.evalColumn g header = e.evalColumn f header := by
  have hcolumns : ∀ k ∈ e.columns, g.column? k = f.column? k := fun k hk =>
    hg.column?_eq (hfree k hk)
  have hwhole : evalWhole g e = evalWhole f e := by
    unfold evalWhole
    rw [eval_congr e hcolumns]
    cases hselected : selected? e with
    | none => rfl
    | some branch =>
      have hbranch := eval_congr branch fun k hk => hcolumns k (columns_selected hselected hk)
      dsimp only
      rw [hbranch]
  unfold evalColumn
  rw [hwhole, hg.isEmpty_eq, hg.height]

/-- How names are read depends on the headers. -/
theorem readings_eq (hheaders : g.headers = f.headers) : g.readings = f.readings := by
  funext names
  unfold Frame.readings
  rw [hheaders]

theorem variants_eq (hheaders : g.headers = f.headers) : variants g = variants f := by
  funext e
  unfold variants
  rw [readings_eq hheaders]

mutual

theorem spread_eq (hheaders : g.headers = f.headers) : (e : Formula) → spread g e = spread f e
  | .number _ | .text _ | .bool _ | .column _ => rfl
  | .negate e => by
    rw [spread, spread, spread_eq hheaders e]
  | .binary o l r => by
    rw [spread, spread, spread_eq hheaders l, spread_eq hheaders r, variants_eq hheaders]
  | .call p args => by
    rw [spread, spread, spreadAll_eq hheaders args, variants_eq hheaders]

theorem spreadAll_eq (hheaders : g.headers = f.headers) :
    (es : List Formula) → spreadAll g es = spreadAll f es
  | [] => rfl
  | e :: rest => by
    rw [spreadAll, spreadAll, spread_eq hheaders e, spreadAll_eq hheaders rest]

end

mutual

theorem withNames_id : (e : Formula) → e.withNames id = e
  | .number _ | .text _ | .bool _ | .column _ => rfl
  | .negate e => by rw [withNames, withNames_id e]
  | .binary o l r => by rw [withNames, withNames_id l, withNames_id r]
  | .call p args => by rw [withNames, allWithNames_id args]

theorem allWithNames_id : (es : List Formula) → allWithNames id es = es
  | [] => rfl
  | e :: rest => by rw [allWithNames, withNames_id e, allWithNames_id rest]

end

theorem variants_of_verbatim {e : Formula} (h : ∀ k ∈ e.columns, isPattern k = false) :
    variants f e = .ok [e] := by
  rw [variants, Frame.readings_of_verbatim h]
  show Except.ok [e.withNames id] = Except.ok [e]
  rw [withNames_id]

theorem columns_joinAll {es : List Formula} {e : Formula} (h : joinAll es = .ok e) :
    e.columns = columnsOfAll es := by
  unfold joinAll at h
  split at h
  · cases h
  · obtain rfl := Except.ok.inj h
    simp [columns, columnsOfAll]
  · obtain rfl := Except.ok.inj h
    rfl

mutual

/-- Where no name is a pattern, texts that are joined keep their names. -/
theorem columns_spread : (e : Formula) → (∀ k ∈ e.columns, isPattern k = false) →
    ∀ {e'}, spread f e = .ok e' → e'.columns = e.columns
  | .number _, _, _, h | .text _, _, _, h | .bool _, _, _, h | .column _, _, _, h => by
    rw [← Except.ok.inj h]
  | .negate e, hplain, _, h => by
    simp only [spread, bind_eq_ok, pure_eq_ok] at h
    obtain ⟨x, hx, rfl⟩ := h
    show x.columns = e.columns
    exact columns_spread e hplain hx
  | .binary o l r, hplain, _, h => by
    simp only [spread, bind_eq_ok] at h
    obtain ⟨x, hx, y, hy, h⟩ := h
    have hl := columns_spread l (fun k hk => hplain k (List.mem_append_left _ hk)) hx
    have hr := columns_spread r (fun k hk => hplain k (List.mem_append_right _ hk)) hy
    show _ = l.columns ++ r.columns
    rw [← hl, ← hr]
    split at h
    · simp only [columns] at hplain
      rw [← hl, ← hr, List.forall_mem_append] at hplain
      rw [variants_of_verbatim hplain.1, variants_of_verbatim hplain.2] at h
      have hjoined : joinAll [x, y] = .ok _ := h
      rw [columns_joinAll hjoined]
      simp [columnsOfAll]
    · obtain rfl := Except.ok.inj h
      rfl
  | .call p args, hplain, _, h => by
    simp only [spread, bind_eq_ok] at h
    obtain ⟨xs, hxs, h⟩ := h
    have hargs := columnsOfAll_spreadAll args hplain hxs
    show _ = columnsOfAll args
    rw [← hargs]
    split at h
    · simp only [columns] at hplain
      rw [← hargs, columnsOfAll_eq_flatMap] at hplain
      have hvariants : xs.mapM (variants f) = .ok (xs.map fun x => [x]) :=
        mapM_eq_ok_map fun x hx => variants_of_verbatim fun k hk =>
          hplain k (List.mem_flatMap.mpr ⟨x, hx, hk⟩)
      simp only [hvariants, bind_eq_ok, Except.ok.injEq, exists_eq_left'] at h
      split at h
      · cases h
      · obtain rfl := Except.ok.inj h
        show columnsOfAll (xs.map fun x => [x]).flatten = columnsOfAll xs
        rw [← List.flatMap_def, List.flatMap_singleton']
    · obtain rfl := Except.ok.inj h
      rfl

theorem columnsOfAll_spreadAll : (es : List Formula) →
    (∀ k ∈ columnsOfAll es, isPattern k = false) →
    ∀ {es'}, spreadAll f es = .ok es' → columnsOfAll es' = columnsOfAll es
  | [], _, _, h => by
    rw [← Except.ok.inj h]
  | e :: rest, hplain, _, h => by
    simp only [spreadAll, bind_eq_ok, pure_eq_ok] at h
    obtain ⟨x, hx, xs, hxs, rfl⟩ := h
    have hfirst := columns_spread e (fun k hk => hplain k (List.mem_append_left _ hk)) hx
    have hrest := columnsOfAll_spreadAll rest (fun k hk => hplain k (List.mem_append_right _ hk))
      hxs
    rw [columnsOfAll, columnsOfAll, hfirst, hrest]

end

/-- The columns of a formula without patterns depend on the columns that it names. -/
theorem evalColumns_eq {free : Header → Prop} (hg : f.AlikeBut free g) {e : Formula}
    (hfree : ∀ k ∈ e.columns, ¬ free k) (hplain : ∀ k ∈ e.columns, isPattern k = false)
    (header : Header) : e.evalColumns g header = e.evalColumns f header := by
  unfold evalColumns
  rw [spread_eq hg.headers_eq]
  cases hspread : spread f e with
  | error fault => rfl
  | ok e' =>
    have hcolumns : e'.columns = e.columns := columns_spread e hplain hspread
    rw [← hcolumns] at hfree hplain
    show (variants g e' >>= _) = (variants f e' >>= _)
    rw [variants_of_verbatim hplain, variants_of_verbatim hplain]
    exact mapM_congr fun x hx => by
      rw [List.mem_singleton.mp hx, evalColumn_eq hg hfree]

end Formula

/-! ### Filling columns -/

/-- A sheet of which columns are filled is linked. -/
theorem Sheet.Linked.fill {sheet : Sheet} {columns : List Column} {frame : Frame}
    (hs : sheet.Linked) (hframe : sheet.frame.withColumns columns = .ok frame)
    (hin : ∀ c ∈ columns, c.header ∈ sheet.headers) :
    (sheet.withData frame sheet.columns).Linked := by
  have hheaders : frame.headers = sheet.headers := Frame.headers_withColumns hframe hin
  have hnd : frame.headers.Nodup := by
    rw [hheaders]
    exact hs.headers
  refine ⟨hnd, hs.columns.mono fun k hk => ?_⟩
  show k ∈ frame.headers
  rwa [hheaders]

/-- Filling the column of an id leaves those with other ids as they are. -/
theorem Sheet.Linked.retains_fill {sheet : Sheet} {columns : List Column} {frame : Frame}
    {id : ColumnId} {header : Header} (hs : sheet.Linked)
    (hframe : sheet.frame.withColumns columns = .ok frame)
    (hid : sheet.columns.header? id = some header) (hall : ∀ c ∈ columns, c.header = header) :
    sheet.Retains (fun i => i ∉ [id]) (sheet.withData frame sheet.columns) := by
  intro col hcol i hi hne
  refine ⟨Frame.mem_withColumns hframe hcol fun d hd he => hne ?_, hi⟩
  rw [he, hall d hd, hs.columns.back hid, Option.some.injEq] at hi
  exact List.mem_singleton.mpr hi.symm

theorem SetFormula.covered {e : SetFormula} (hs : s.Linked) (h : e.run s = .ok c) :
    c.Covered s.Verbatim e.run s := by
  unfold SetFormula.run at h
  simp only [bind_eq_ok] at h
  obtain ⟨sheet, hsheet, header, hheader, h⟩ := h
  split at h
  · simp at h
  · next f hparse =>
    simp only [bind_eq_ok, pure_eq_ok] at h
    obtain ⟨columns, heval, frame, hframe, rfl⟩ := h
    have hall : ∀ c ∈ columns, c.header = header := Formula.header_of_evalColumns heval
    have hlinked := hs.sheets sheet (State.sheet_mem hsheet)
    have hid := Sheet.header_eq_ok.mp hheader
    obtain ⟨hnd, hcolumns⟩ := hlinked.fill hframe fun c hc =>
      hall c hc ▸ hlinked.columns.live hid
    refine .column hs hsheet rfl rfl ⟨hnd, hcolumns⟩ (hlinked.retains_fill hframe hid hall) ?_
    intro hverbatim t g ht hg
    -- the columns that the formula names are read, so they are not spared
    have hreads : ∀ k ∈ f.columns, ¬ sheet.Freed ((ChunkBody.setFormula sheet.target e.column
        header (f.code sheet.name) (f.dependencies.filterMap sheet.columns.id?)
        ).footprint.Spares sheet.id) k := by
      rintro k hk ⟨id, hkid, hspared⟩
      have hnot := (ChunkBody.spares_column (t := sheet.target) rfl hspared).2
      refine hnot (List.mem_filterMap.mpr ⟨k, ?_, hkid⟩)
      exact Formula.mem_firstOccurrences.mpr hk
    have hplain : ∀ k ∈ f.columns, isPattern k = false := fun k hk =>
      (hverbatim sheet (State.sheet_mem hsheet)).frame k (Formula.columns_of_parse hparse hk)
    obtain ⟨again, hagain, halike⟩ := hg.withColumns hframe
    refine ⟨_, ?_, .of_frame halike⟩
    unfold SetFormula.run
    simp only [bind_eq_ok]
    refine ⟨_, ht, header, hheader, ?_⟩
    have hheaders : Sheet.headers { sheet with frame := g } = sheet.headers := hg.headers_eq
    rw [hheaders, hparse]
    simp only [bind_eq_ok, pure_eq_ok]
    exact ⟨columns, (Formula.evalColumns_eq hg hreads hplain header).trans heval, again, hagain, rfl⟩

theorem ChangeType.covered {e : ChangeType} (hs : s.Linked) (h : e.run s = .ok c) :
    c.Covered s.Verbatim e.run s := by
  unfold ChangeType.run at h
  simp only [bind_eq_ok] at h
  obtain ⟨sheet, hsheet, header, hheader, column, hcolumn, h⟩ := h
  have hlinked := hs.sheets sheet (State.sheet_mem hsheet)
  split at h
  · next hsame =>
    simp only [pure_eq_ok] at h
    subst h
    refine .none hs fun t ht => ?_
    -- the cells may differ, but only the type of the column counts
    obtain ⟨sk, hsk, halike⟩ := ht.sheet hsheet
    obtain ⟨g, rfl, hg⟩ := halike.exists_frame
    obtain ⟨d, hd, hcd⟩ := Sheet.column_alike hg hcolumn
    unfold ChangeType.run
    simp only [bind_eq_ok]
    exact ⟨_, hsk, header, hheader, d, hd, by rw [hcd.dtype, if_pos hsame]; rfl⟩
  · next hdiffer =>
    simp only [bind_eq_ok, pure_eq_ok] at h
    obtain ⟨columns, hconverted, frame, hframe, rfl⟩ := h
    have hid : sheet.columns.header? e.column = some column.header := Sheet.column_eq_ok hcolumn
    have hall : ∀ c ∈ columns, c.header = column.header := header_of_converted hconverted
    obtain ⟨hnd, hcolumns⟩ := hlinked.fill hframe fun c hc =>
      hall c hc ▸ hlinked.columns.live hid
    refine .column hs hsheet rfl rfl ⟨hnd, hcolumns⟩ (hlinked.retains_fill hframe hid hall) ?_
    intro hverbatim t g ht hg
    have hread : ¬ (ChunkBody.changeType sheet.target e.column header [Retype.statement sheet.name
        header (ValueKind.ofType column.dtype) e.kind]).footprint.Spares sheet.id e.column :=
      fun hspared => (ChunkBody.spares_column (t := sheet.target) rfl hspared).1
        (List.mem_singleton.mpr rfl)
    have hsame : Sheet.column { sheet with frame := g } e.column = .ok column :=
      (hlinked.column_eq hg hread).trans hcolumn
    have hplain : isPattern column.header = false :=
      (hverbatim sheet (State.sheet_mem hsheet)).frame _ (hlinked.columns.live hid)
    -- the column that is converted is the same, and the only one
    have hcast : converted g column e.kind = .ok columns := by
      rw [converted_of_verbatim hplain (Sheet.column_in_frame hcolumn)] at hconverted
      rwa [converted_of_verbatim hplain (Sheet.column_in_frame hsame)]
    obtain ⟨again, hagain, halike⟩ := hg.withColumns hframe
    refine ⟨_, ?_, .of_frame halike⟩
    unfold ChangeType.run
    simp only [bind_eq_ok]
    refine ⟨_, ht, header, hheader, column, hsame, ?_⟩
    rw [if_neg hdiffer]
    simp only [bind_eq_ok, pure_eq_ok]
    exact ⟨columns, hcast, again, hagain, rfl⟩

end SheetScript
