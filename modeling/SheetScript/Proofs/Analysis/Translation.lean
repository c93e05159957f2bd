import SheetScript.Proofs.Analysis.Following
import SheetScript.Proofs.Analysis.Mentions
import SheetScript.Proofs.Reshaping

/-! # The translator follows the notes

  The translator sees the edits of an analysis as they are stored, and no state.
  Of renamings it knows all that the notes on the sheets know, and it takes headers
  for the columns for which they stand by the notes.

  Main statement: `Translator.Follows.observe`, the translator follows an accepted
  edit, of whatever kind.
-/

namespace SheetScript

/-! ### Parameters that are looked at -/

theorem Json.object_of_field? {j a : Json} {field : String} (h : j.field? field = some a) :
    ∃ p, j = .object p := by
  cases j with
  | object p => exact ⟨p, rfl⟩
  | _ => cases h

/-- There is an item for every text of a list. -/
theorem Json.length_texts? {j : Json} {ss : List String} (h : j.texts? = some ss) :
    j.items?.map List.length = some ss.length := by
  obtain ⟨items, hitems, hread⟩ := Option.bind_eq_some_iff.mp h
  rw [hitems, Option.map_some, Option.some.injEq]
  clear h hitems
  induction items generalizing ss with
  | nil =>
    obtain rfl : [] = ss := by simpa using hread
    rfl
  | cons item rest ih =>
    simp only [List.mapM_cons, Option.bind_eq_bind, Option.bind_eq_some_iff, Option.pure_def,
      Option.some.injEq] at hread
    obtain ⟨_, -, later, hlater, rfl⟩ := hread
    rw [List.length_cons, List.length_cons, ih hlater]

theorem Params.object_of_need {α : Type} {j : Json} {field : String} {read : Json → Option α}
    {a : α} (h : need j field read = .ok a) : ∃ p, j = .object p := by
  cases j with
  | object p => exact ⟨p, rfl⟩
  | _ => cases h

/-- The parameters of a stored import or restriction of headers stand under their
  names.  The translator cannot read them otherwise, and does not complain. -/
def StoredEdit.Named (s : StoredEdit) : Prop :=
  ∀ k, EditKind.ofName? s.kind = some k → k = .importFiles ∨ k = .restrictHeaders →
    ∃ p, s.params = .object p

theorem StoredEdit.Named.of_object {s : StoredEdit} {p : List (String × Json)}
    (h : s.params = .object p) : s.Named :=
  fun _ _ _ => ⟨p, h⟩

/-- The kinds of edits of which the translator looks at the parameters. -/
def EditKind.isObserved : EditKind → Bool
  | .importFiles | .renameColumn | .pivot | .merge | .duplicateSheet | .deleteSheet
  | .restrictHeaders => true
  | _ => false

/-- Where the translator looks at parameters, they stand under their names. -/
theorem StoredEdit.Named.object {s : StoredEdit} {k : EditKind} {t t' : Translator}
    (hnamed : s.Named) (hk : EditKind.ofName? s.kind = some k)
    (h : t.observeKind s.params k = .ok t') (hobserved : k.isObserved = true) :
    ∃ p, s.params = .object p := by
  cases k with
  | importFiles => exact hnamed _ hk (.inl rfl)
  | restrictHeaders => exact hnamed _ hk (.inr rfl)
  | pivot =>
    unfold Translator.observeKind at h
    dsimp only at h
    split at h
    · next j hj =>
      obtain ⟨_, hfield, -⟩ := Option.bind_eq_some_iff.mp hj
      exact Json.object_of_field? hfield
    · simp only [bind_eq_ok] at h
      obtain ⟨_, hi, -⟩ := h
      exact Params.object_of_need hi
  | renameColumn | merge | duplicateSheet | deleteSheet =>
    simp only [Translator.observeKind, bind_eq_ok] at h
    obtain ⟨_, hi, -⟩ := h
    exact Params.object_of_need hi
  | _ => cases hobserved

theorem State.lt_of_sheet {s : State} {i : Nat} {sheet : Sheet} (h : s.sheet i = .ok sheet) :
    i < s.sheets.length := by
  obtain ⟨left, right, heq, hlen⟩ := State.sheet_eq_ok h
  rw [heq, List.length_append, List.length_cons]
  omega

/-- An import adds as many sheets as there are files. -/
theorem ImportFiles.length_run {e : ImportFiles} {d : Disk} {s : State} {c : Change}
    (h : e.run d s = .ok c) : (c.state.sheets.drop s.sheets.length).length = e.files.length := by
  obtain ⟨new, hsheets, hnew⟩ := ImportFiles.sheets_run h
  rw [hsheets, List.drop_left, hnew.length_eq]

/-! ### The translator -/

/-- What is read of the items can be changed before or after it is read. -/
theorem map_modify_of_comm {α β : Type} {g : α → β} {f : α → α} {k : β → β}
    (h : ∀ a, g (f a) = k (g a)) (l : List α) (i : Nat) :
    (l.modify i f).map g = (l.map g).modify i k := by
  refine List.ext_getElem? fun j => ?_
  simp only [List.getElem?_map, List.getElem?_modify]
  cases l[j]? with
  | none => rfl
  | some a => split <;> simp [h]

/-- What is read of notes on the sheets of a state changes with those on one sheet. -/
theorem Notes.map_onSheet {ns : Notes} {s : State} {i : Nat} {f : SheetNotes → Sheet → SheetNotes}
    {g : Dictionary Header ColumnId → Dictionary Header ColumnId}
    (hlength : ns.length = s.sheets.length)
    (h : ∀ n sheet, (f n sheet).renamed = g n.renamed) :
    (ns.onSheet s i f).map SheetNotes.renamed = (ns.map SheetNotes.renamed).modify i g := by
  unfold onSheet
  split
  · exact map_modify_of_comm (fun n => h n _) ns i
  · next hnone =>
    have hi : s.sheets.length ≤ i := List.getElem?_eq_none_iff.mp hnone
    rw [List.modify_eq_self (by rwa [List.length_map, hlength])]

namespace Translator

/-- The translator knows the renamings of the notes. -/
def Follows (t : Translator) (ns : Notes) : Prop := t.sheets = ns.map SheetNotes.renamed

variable {t t' : Translator} {ns : Notes} {p : List (String × Json)}

theorem sheets_padded {i : Nat} (hi : i < t.sheets.length) : (t.padded i).sheets = t.sheets := by
  have hnone : i + 1 - t.sheets.length = 0 := by omega
  simp [padded, hnone]

namespace Follows

theorem length_eq (hf : t.Follows ns) : t.sheets.length = ns.length := by
  rw [hf, List.length_map]

/-- The translator takes headers for what they stand for. -/
theorem translate (hf : t.Follows ns) : t.translate = ns.meaning := by
  funext i h
  unfold Translator.translate Notes.meaning SheetNotes.meaning
  rw [hf, List.getElem?_map]
  cases ns[i]? <;> rfl

/-- Notes on a sheet that change without renaming are none of the translator's concern. -/
theorem modify (hf : t.Follows ns) {i : Nat} {f : SheetNotes → SheetNotes}
    (h : ∀ n, (f n).renamed = n.renamed) : t.Follows (ns.modify i f) := by
  unfold Follows at *
  rw [map_modify_of_comm (k := id) h, List.modify_id, hf]

theorem onSheet (hf : t.Follows ns) {s : State} {i : Nat} {f : SheetNotes → Sheet → SheetNotes}
    (h : ∀ n sheet, (f n sheet).renamed = n.renamed) : t.Follows (ns.onSheet s i f) := by
  unfold Notes.onSheet
  split
  · exact hf.modify fun n => h n _
  · exact hf

/-- What the translator learns of a sheet the notes on the sheet hold. -/
theorem update (hf : t.Follows ns) {s : State} (hlength : ns.length = s.sheets.length) {i : Nat}
    (hi : i < ns.length) {g : Dictionary Header ColumnId → Dictionary Header ColumnId}
    {f : SheetNotes → Sheet → SheetNotes} (h : ∀ n sheet, (f n sheet).renamed = g n.renamed) :
    (t.update i g).Follows (ns.onSheet s i f) := by
  have hlt : i < t.sheets.length := by rwa [hf.length_eq]
  show (t.padded i).sheets.modify i g = _
  rw [sheets_padded hlt, hf]
  exact (Notes.map_onSheet hlength h).symm

/-- New sheets. -/
theorem append (hf : t.Follows ns) {new : Notes} {sheets : List (Dictionary Header ColumnId)}
    (h : sheets = new.map SheetNotes.renamed) :
    (⟨t.sheets ++ sheets⟩ : Translator).Follows (ns ++ new) := by
  unfold Follows at *
  rw [hf, h, List.map_append]

/-! ### Edits -/

theorem renameColumn {e : RenameColumn} {s : State} (hf : t.Follows ns)
    (hlength : ns.length = s.sheets.length) (hx : RenameColumn.ofJson? (.object p) = some e)
    (hlt : e.sheet < ns.length) (h : t.observeKind (.object p) .renameColumn = .ok t') :
    t'.Follows
      (ns.onSheet s e.sheet fun n sheet => n.rename sheet.columns e.column e.header) := by
  simp only [RenameColumn.ofJson?, Option.bind_eq_bind, Option.bind_eq_some_iff, Option.pure_def,
    Option.some.injEq] at hx
  obtain ⟨r, hr, i, hi, id, hid, header, hheader, rfl⟩ := hx
  rw [Json.need_eq hr (by decide)] at hi hid hheader
  simp only [observeKind, bind_eq_ok, pure_eq_ok, Params.need_eq_ok] at h
  obtain ⟨_, hi', text, htext, _, hheader', rfl⟩ := h
  obtain rfl := Option.some.inj (hi.symm.trans hi')
  obtain rfl := Option.some.inj (hheader.symm.trans hheader')
  -- an id is read as the text that the translator reads
  have hsame : id = ⟨text⟩ := by
    obtain ⟨j, hj, htext⟩ := Option.bind_eq_some_iff.mp htext
    rw [hj] at hid
    obtain ⟨_, hread, rfl⟩ := Option.map_eq_some_iff.mp hid
    rw [← Option.some.inj (htext.symm.trans hread)]
  subst hsame
  exact hf.update hlength hlt fun _ _ => rfl

/-- The index of a sheet in parameters that consist of nothing else. -/
theorem need_sheetIndex {i j : Nat} (hx : Json.sheetIndex? (.object p) = some i)
    (h : Params.need (.object p) "sheet_index" Json.index? = .ok j) : j = i := by
  obtain ⟨r, hr, hi⟩ := Option.bind_eq_some_iff.mp hx
  rw [Json.need_eq hr (by decide), Params.need_eq_ok.mp h] at hi
  exact Option.some.inj hi

theorem duplicateSheet {i : Nat} (hf : t.Follows ns)
    (hx : Json.sheetIndex? (.object p) = some i) (hlt : i < ns.length)
    (h : t.observeKind (.object p) .duplicateSheet = .ok t') :
    t'.Follows (ns ++ [ns[i]?.getD {}]) := by
  simp only [observeKind, bind_eq_ok, pure_eq_ok] at h
  obtain ⟨j, hj, rfl⟩ := h
  obtain rfl := need_sheetIndex hx hj
  have hpadded : (t.padded j).Follows ns := (sheets_padded (hf.length_eq ▸ hlt)).trans hf
  refine hpadded.append ?_
  rw [hpadded, List.getElem?_map]
  cases ns[j]? <;> rfl

theorem deleteSheet {i : Nat} (hf : t.Follows ns)
    (hx : Json.sheetIndex? (.object p) = some i)
    (h : t.observeKind (.object p) .deleteSheet = .ok t') : t'.Follows (ns.eraseIdx i) := by
  simp only [observeKind, bind_eq_ok, pure_eq_ok] at h
  obtain ⟨j, hj, rfl⟩ := h
  obtain rfl := need_sheetIndex hx hj
  show t.sheets.eraseIdx j = _
  rw [hf, List.eraseIdx_map]

theorem importFiles {e : ImportFiles} {new : List Sheet} (hf : t.Follows ns)
    (hx : ImportFiles.ofJson? (.object p) = some e) (hnew : new.length = e.files.length)
    (h : t.observeKind (.object p) .importFiles = .ok t') :
    t'.Follows (ns ++ new.map e.notes) := by
  simp only [ImportFiles.ofJson?, Option.bind_eq_bind, Option.bind_eq_some_iff, Option.pure_def,
    Option.some.injEq] at hx
  obtain ⟨r, hr, files, hfiles, legacyIds, -, rfl⟩ := hx
  rw [Json.need_eq hr (by decide)] at hfiles
  obtain ⟨j, hj, htexts⟩ := Option.bind_eq_some_iff.mp hfiles
  obtain rfl := Except.ok.inj h
  refine hf.append ?_
  have hcount : ((((Json.object p).field? "file_names").bind Json.items?).map List.length).getD 0
      = files.length := by
    have hfield : (Json.object p).field? "file_names" = some j := hj
    rw [hfield]
    show (j.items?.map List.length).getD 0 = _
    rw [Json.length_texts? htexts]
    rfl
  rw [hcount, ← hnew, List.map_map, ← List.map_const']
  refine List.map_congr_left fun sheet _ => ?_
  show [] = (ImportFiles.notes _ sheet).renamed
  unfold ImportFiles.notes
  split <;> rfl

theorem merge {e : Merge} (hf : t.Follows ns) (hx : Merge.ofJson? (.object p) = some e)
    (hleft : e.left < ns.length) (hright : e.right < ns.length)
    (h : t.observeKind (.object p) .merge = .ok t') : t'.Follows (ns ++ [({} : SheetNotes)]) := by
  simp only [Merge.ofJson?, Option.bind_eq_bind, Option.bind_eq_some_iff, Option.pure_def,
    Option.some.injEq] at hx
  obtain ⟨r, hr, _, -, one, hone, two, htwo, _, -, _, -, _, -, rfl⟩ := hx
  rw [Json.need_eq hr (by decide)] at hone htwo
  simp only [observeKind, bind_eq_ok, pure_eq_ok, Params.need_eq_ok] at h
  obtain ⟨_, hone', _, htwo', rfl⟩ := h
  obtain rfl := Option.some.inj (hone.symm.trans hone')
  obtain rfl := Option.some.inj (htwo.symm.trans htwo')
  have hlt : max one two < t.sheets.length := by
    rw [hf.length_eq]
    exact Nat.max_lt.mpr ⟨hleft, hright⟩
  have hpadded : (t.padded (max one two)).Follows ns := (sheets_padded hlt).trans hf
  exact hpadded.append rfl

theorem pivot {e : Pivot} {s : State} (hf : t.Follows ns)
    (hlength : ∀ i, e.destination = some i → ns.length = s.sheets.length)
    (hx : Pivot.ofJson? (.object p) = some e) (hsource : e.sheet < ns.length)
    (hdestination : ∀ i, e.destination = some i → i < ns.length)
    (h : t.observeKind (.object p) .pivot = .ok t') :
    t'.Follows (match e.destination with
      | some i => ns.onSheet s i fun _ sheet => SheetNotes.inspect {} sheet.columns
      | none => ns ++ [{}]) := by
  simp only [Pivot.ofJson?, Option.bind_eq_bind, Option.bind_eq_some_iff, Option.pure_def,
    Option.some.injEq] at hx
  obtain ⟨r, hr, i, hi, _, -, _, -, _, -, _, -, target, htarget, _, -, rfl⟩ := hx
  rw [Json.need_eq hr (by decide)] at hi
  -- the translator reads the same index, or none where there is none
  have hread : ((Json.object p).field? "destination_sheet_index").bind Json.index? = target := by
    unfold Json.Record.optional at htarget
    rw [Json.get?_of_record? hr (by decide)] at htarget
    show (Dictionary.get? p "destination_sheet_index").bind Json.index? = target
    split at htarget
    · next hnone =>
      rw [hnone]
      exact Option.some.inj htarget
    · next hnull =>
      rw [hnull]
      exact Option.some.inj htarget
    · next j _ hj =>
      obtain ⟨k, hk, rfl⟩ := Option.map_eq_some_iff.mp htarget
      rw [hj]
      exact hk
  simp only [observeKind, hread] at h
  cases target with
  | some target =>
    obtain rfl := Except.ok.inj h
    exact hf.update (hlength target rfl) (hdestination target rfl) fun _ _ => rfl
  | none =>
    simp only [bind_eq_ok, pure_eq_ok, Params.need_eq_ok] at h
    obtain ⟨_, hi', rfl⟩ := h
    obtain rfl := Option.some.inj (hi.symm.trans hi')
    have hpadded : (t.padded i).Follows ns :=
      (sheets_padded (by rwa [hf.length_eq])).trans hf
    exact hpadded.append rfl

theorem restrictHeaders {e : RestrictHeaders} {sheets : List Sheet} (hf : t.Follows ns)
    (hx : RestrictHeaders.ofJson? (.object p) = some e) (hlength : ns.length = sheets.length)
    (h : t.observeKind (.object p) .restrictHeaders = .ok t') :
    t'.Follows (List.zipWith e.notes ns sheets) := by
  simp only [RestrictHeaders.ofJson?, Option.bind_eq_bind, Option.bind_eq_some_iff,
    Option.pure_def, Option.some.injEq] at hx
  obtain ⟨r, hr, resets, hresets, rfl⟩ := hx
  have hread : resets = true ↔ (Json.object p).field? "move_to_deprecated_id_algorithm"
      = some (.bool true) := by
    rw [Json.Record.orElse, Json.get?_of_record? hr (by decide)] at hresets
    show _ ↔ Dictionary.get? p "move_to_deprecated_id_algorithm" = _
    cases hj : Dictionary.get? p "move_to_deprecated_id_algorithm" with
    | none =>
      rw [hj] at hresets
      simp [← Option.some.inj hresets]
    | some j =>
      rw [hj] at hresets
      cases j with
      | bool b => simp [← Option.some.inj hresets]
      | _ => cases hresets
  -- what is read of the notes does not depend on the sheets
  have hmap : ∀ (f : SheetNotes → Dictionary Header ColumnId),
      (∀ n sheet, (RestrictHeaders.notes ⟨resets⟩ n sheet).renamed = f n) →
      (List.zipWith (RestrictHeaders.notes ⟨resets⟩) ns sheets).map SheetNotes.renamed
        = ns.map f := by
    intro f hsame
    clear hf h
    induction ns generalizing sheets with
    | nil => rfl
    | cons n rest ih =>
      cases sheets with
      | nil => cases hlength
      | cons sheet sheets =>
        rw [List.zipWith_cons_cons, List.map_cons, List.map_cons, hsame,
          ih (Nat.succ.inj hlength)]
  unfold Follows at *
  cases resets with
  | true =>
    simp only [observeKind, hread.mp rfl, Except.ok.injEq] at h
    rw [hmap (fun _ => []) fun _ _ => rfl, ← h, hf, List.map_map]
    rfl
  | false =>
    have hsame : t = t' := by
      unfold observeKind at h
      dsimp only at h
      split at h
      · next htrue => cases hread.mpr htrue
      · exact Except.ok.inj h
    rw [hmap SheetNotes.renamed fun n sheet => SheetNotes.renamed_restrict _ _ _, ← hsame, hf]

/-- The translator follows an accepted edit as the notes do. -/
theorem observe {stored : StoredEdit} {e : Edit} {s : State} {c : Change} {d : Disk}
    (hf : t.Follows ns) (hlength : ns.length = s.sheets.length) (hnamed : stored.Named)
    (hx : stored.edit = .ok e) (hc : e.change d s = .ok c) (h : t.observe stored = .ok t') :
    t'.Follows (ns.after s c.state e) := by
  obtain ⟨k, hk, -, hx⟩ := StoredEdit.edit_eq_ok hx
  unfold Translator.observe at h
  rw [hk] at h
  dsimp only at h
  have hlt : ∀ {i sheet}, s.sheet i = .ok sheet → i < ns.length := fun hsheet => by
    rw [hlength]
    exact State.lt_of_sheet hsheet
  cases k with
  | importFiles =>
    obtain ⟨p, hp⟩ := hnamed.object hk h rfl
    obtain ⟨e, he, rfl⟩ := Option.map_eq_some_iff.mp hx
    rw [hp] at he h
    exact hf.importFiles he (ImportFiles.length_run hc) h
  | addColumn =>
    obtain ⟨e, -, rfl⟩ := Option.map_eq_some_iff.mp hx
    obtain rfl := Except.ok.inj h
    exact hf.onSheet fun _ _ => SheetNotes.renamed_add _ _ _
  | renameColumn =>
    obtain ⟨p, hp⟩ := hnamed.object hk h rfl
    obtain ⟨e, he, rfl⟩ := Option.map_eq_some_iff.mp hx
    rw [hp] at he h
    obtain ⟨i, -, hrewrites⟩ := Edit.reshapes hc
    simp only [Edit.change, RenameColumn.run, bind_eq_ok] at hc
    obtain ⟨sheet, hsheet, -⟩ := hc
    exact hf.renameColumn (hlength.trans hrewrites.length_eq.symm) he (hlt hsheet) h
  | pivot =>
    obtain ⟨p, hp⟩ := hnamed.object hk h rfl
    obtain ⟨e, he, rfl⟩ := Option.map_eq_some_iff.mp hx
    rw [hp] at he h
    have hreshapes := Edit.reshapes hc
    simp only [Edit.change, Pivot.run, bind_eq_ok] at hc
    obtain ⟨source, hsource, l, -, f, -, hc⟩ := hc
    refine hf.pivot (fun i hi => ?_) he (hlt hsource) (fun i hi => ?_) h
    · simp only [Edit.Reshapes, hi] at hreshapes
      exact hlength.trans hreshapes.length_eq.symm
    · rw [hi] at hc
      simp only [bind_eq_ok] at hc
      obtain ⟨target, htarget, -⟩ := hc
      exact hlt htarget
  | merge =>
    obtain ⟨p, hp⟩ := hnamed.object hk h rfl
    obtain ⟨e, he, rfl⟩ := Option.map_eq_some_iff.mp hx
    rw [hp] at he h
    simp only [Edit.change, Merge.run, bind_eq_ok] at hc
    obtain ⟨one, hone, two, htwo, -⟩ := hc
    exact hf.merge he (hlt hone) (hlt htwo) h
  | oneHot =>
    obtain ⟨e, -, rfl⟩ := Option.map_eq_some_iff.mp hx
    obtain rfl := Except.ok.inj h
    exact hf.onSheet fun _ _ => SheetNotes.renamed_addAll _ _ _
  | promoteRow =>
    obtain ⟨e, -, rfl⟩ := Option.map_eq_some_iff.mp hx
    obtain rfl := Except.ok.inj h
    exact hf.onSheet fun _ _ => SheetNotes.renamed_inspect _ _
  | duplicateSheet =>
    obtain ⟨p, hp⟩ := hnamed.object hk h rfl
    obtain ⟨i, hi, rfl⟩ := Option.map_eq_some_iff.mp hx
    rw [hp] at hi h
    simp only [Edit.change, DuplicateSheet.run, bind_eq_ok] at hc
    obtain ⟨source, hsource, -⟩ := hc
    exact hf.duplicateSheet hi (hlt hsource) h
  | deleteSheet =>
    obtain ⟨p, hp⟩ := hnamed.object hk h rfl
    obtain ⟨i, hi, rfl⟩ := Option.map_eq_some_iff.mp hx
    rw [hp] at hi h
    exact hf.deleteSheet hi h
  | restrictHeaders =>
    obtain ⟨p, hp⟩ := hnamed.object hk h rfl
    obtain ⟨e, he, rfl⟩ := Option.map_eq_some_iff.mp hx
    rw [hp] at he h
    exact hf.restrictHeaders he hlength h
  | _ =>
    -- the other kinds give no header and no sheet away
    obtain ⟨e, -, rfl⟩ := Option.map_eq_some_iff.mp hx
    obtain rfl := Except.ok.inj h
    exact hf

end Follows

end Translator

end SheetScript
