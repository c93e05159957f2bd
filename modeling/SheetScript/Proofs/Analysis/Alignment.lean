import SheetScript.Proofs.Analysis.Resolution
import SheetScript.Proofs.Untouched

/-! # The translator is aligned with the sheets

  An upgrade sees edits and no sheets, and the translator keeps its maps in a list that it
  rearranges from what the edits say of themselves.  Here every sheet that is ever there
  has a map of its own, under its id, which only renamings, copies and pivot tables
  change.  The list of the translator is the list of these maps in the order of the sheets.

  - `Translator.observe_maps`: what an accepted edit does to the list of maps.
  - `Overrides.map_after`: it does the same to the maps of the sheets.
  - `RenamedIn`: the column of a sheet was the target of a renaming since the sheet was made.
  - Main statement: `Analysis.translator_aligned`.
-/

namespace SheetScript

/-! ### Maps in a list -/

/-- The parameters of a stored import stand under their names. -/
def StoredEdit.NamesFiles (s : StoredEdit) : Prop :=
  EditKind.ofName? s.kind = some .importFiles → ∃ p, s.params = .object p

/-- Whether the translator is told that all columns get new ids. -/
def StoredEdit.forgets (s : StoredEdit) : Bool :=
  match s.params.field? "move_to_deprecated_id_algorithm" with
  | some (.bool true) => true
  | _ => false

/-- What an edit does to a list that holds a map for every sheet. -/
def Edit.rearrange (forgets : Bool) (maps : List (Dictionary Header ColumnId)) :
    Edit → List (Dictionary Header ColumnId)
  | .renameColumn e => maps.modify e.sheet fun m => Dictionary.insert m e.header e.column
  | .duplicateSheet e => maps ++ [maps[e.sheet]?.getD []]
  | .deleteSheet e => maps.eraseIdx e.sheet
  | .importFiles e => maps ++ List.replicate e.files.length []
  | .merge _ => maps ++ [[]]
  | .pivot e =>
    match e.destination with
    | some i => maps.modify i fun _ => []
    | none => maps ++ [[]]
  | .restrictHeaders _ => if forgets then maps.map fun _ => [] else maps
  | _ => maps

namespace Translator

variable {t t' : Translator} {stored : StoredEdit} {e : Edit} {s : State} {c : Change} {d : Disk}

theorem observe_restrictHeaders (t : Translator)
    (hk : EditKind.ofName? stored.kind = some .restrictHeaders) :
    t.observe stored
      = .ok ⟨if stored.forgets then t.sheets.map fun _ => [] else t.sheets⟩ := by
  simp only [observe, hk, observeKind]
  unfold StoredEdit.forgets
  cases stored.params.field? "move_to_deprecated_id_algorithm" with
  | none => rfl
  | some j =>
    cases j with
    | bool b => cases b <;> rfl
    | _ => rfl

/-- The translator rearranges its maps as an accepted edit does with the maps of sheets. -/
theorem observe_maps (hlength : t.sheets.length = s.sheets.length) (hfiles : stored.NamesFiles)
    (hx : stored.edit = .ok e) (hc : e.change d s = .ok c) (h : t.observe stored = .ok t') :
    t'.sheets = e.rearrange stored.forgets t.sheets := by
  obtain ⟨k, hk, -, hread⟩ := StoredEdit.edit_eq_ok hx
  -- the maps are those of notes on the sheets
  obtain ⟨ns, hns, hcount⟩ : ∃ ns : Notes, ns.map SheetNotes.renamed = t.sheets
      ∧ ns.length = s.sheets.length :=
    ⟨t.sheets.map fun m => ⟨m, []⟩, by simp [Function.comp_def], by rw [List.length_map, hlength]⟩
  have hf : t.Follows ns := hns.symm
  have hnotes : k ≠ .restrictHeaders →
      t'.sheets = (ns.after s c.state e).map SheetNotes.renamed := by
    intro hother
    refine hf.observe hcount (fun k' hk' hor => ?_) hx hc h
    obtain rfl := Option.some.inj (hk.symm.trans hk')
    exact hfiles (hk.trans (congrArg some (hor.resolve_right hother)))
  rw [← hns]
  cases k with
  | restrictHeaders =>
    obtain ⟨r, -, rfl⟩ := Option.map_eq_some_iff.mp hread
    rw [observe_restrictHeaders t hk] at h
    obtain rfl := Except.ok.inj h
    rw [hns]
    rfl
  | renameColumn =>
    obtain ⟨r, -, rfl⟩ := Option.map_eq_some_iff.mp hread
    rw [hnotes (by decide)]
    obtain ⟨i, hi, hrewrites⟩ := Edit.reshapes hc
    exact Notes.map_onSheet (hcount.trans hrewrites.length_eq.symm) fun _ _ => rfl
  | duplicateSheet =>
    obtain ⟨i, -, rfl⟩ := Option.map_eq_some_iff.mp hread
    rw [hnotes (by decide)]
    show (ns ++ [ns[i]?.getD {}]).map _ = ns.map _ ++ [(ns.map _)[i]?.getD []]
    rw [List.map_append, List.getElem?_map]
    cases ns[i]? <;> rfl
  | deleteSheet =>
    obtain ⟨i, -, rfl⟩ := Option.map_eq_some_iff.mp hread
    rw [hnotes (by decide)]
    exact (List.eraseIdx_map _ _ _).symm
  | importFiles =>
    obtain ⟨r, -, rfl⟩ := Option.map_eq_some_iff.mp hread
    rw [hnotes (by decide)]
    have hempty : ∀ sheet, (r.notes sheet).renamed = [] := by
      intro sheet
      unfold ImportFiles.notes
      split <;> rfl
    show (ns ++ (c.state.sheets.drop s.sheets.length).map r.notes).map _
      = ns.map _ ++ List.replicate r.files.length []
    rw [List.map_append, List.map_map, ← ImportFiles.length_run hc, ← List.map_const']
    simp only [Function.comp_def, hempty]
  | merge =>
    obtain ⟨r, -, rfl⟩ := Option.map_eq_some_iff.mp hread
    rw [hnotes (by decide)]
    exact List.map_append
  | pivot =>
    obtain ⟨r, -, rfl⟩ := Option.map_eq_some_iff.mp hread
    rw [hnotes (by decide)]
    have hreshapes := Edit.reshapes hc
    simp only [Notes.after, Edit.rearrange, Edit.Reshapes] at hreshapes ⊢
    cases hdestination : r.destination with
    | some i =>
      rw [hdestination] at hreshapes
      exact Notes.map_onSheet (hcount.trans hreshapes.length_eq.symm) fun _ _ => rfl
    | none => exact List.map_append
  | _ =>
    -- the translator does not look at the other kinds
    obtain ⟨r, -, rfl⟩ := Option.map_eq_some_iff.mp hread
    simp only [observe, hk] at h
    obtain rfl : t = t' := Except.ok.inj h
    rw [hns]
    rfl

end Translator

/-! ### Maps of sheets -/

/-- A map for every sheet that is ever there: which headers of it renamings gave to which
  columns. -/
abbrev Overrides := SheetId → Dictionary Header ColumnId

namespace Overrides

/-- The map of a sheet changed, if there is such a sheet. -/
def modify (o : Overrides) (sheet : Option Sheet)
    (f : Dictionary Header ColumnId → Dictionary Header ColumnId) : Overrides :=
  match sheet with
  | some sheet => Function.update o sheet.id (f (o sheet.id))
  | none => o

/-- The maps after a step that was stored as an edit.  A renaming is noted for its sheet,
  a copy has what its source has, and a pivot table starts anew. -/
def after (o : Overrides) (stored : StoredEdit) (step : Step) : Overrides :=
  match step.edit with
  | .renameColumn e =>
    o.modify step.before.sheets[e.sheet]? fun m => Dictionary.insert m e.header e.column
  | .duplicateSheet e =>
    o.modify step.after.sheets.getLast? fun _ =>
      (step.before.sheets[e.sheet]?.map fun source => o source.id).getD []
  | .pivot e => o.modify (e.destination.bind fun i => step.before.sheets[i]?) fun _ => []
  | .restrictHeaders _ => if stored.forgets then fun _ => [] else o
  | _ => o

/-- The maps after some steps, each with the edit as it was stored. -/
def along (history : List (StoredEdit × Step)) : Overrides :=
  history.foldl (fun o p => o.after p.1 p.2) fun _ => []

variable {o : Overrides} {s t : State} {sheets : List Sheet} {id : SheetId} {sheet : Sheet}

theorem modify_apply (o : Overrides) (sheet : Sheet)
    (f : Dictionary Header ColumnId → Dictionary Header ColumnId) (id : SheetId) :
    o.modify (some sheet) f id = if id = sheet.id then f (o id) else o id := by
  unfold modify
  by_cases hid : id = sheet.id
  · subst hid
    simp
  · simp [hid]

/-- Sheets at an index have their maps at that index. -/
theorem map_modify (o : Overrides) (hnd : (sheets.map Sheet.id).Nodup) (i : Nat)
    (f : Dictionary Header ColumnId → Dictionary Header ColumnId) :
    (sheets.map fun sheet => o sheet.id).modify i f
      = sheets.map fun sheet => o.modify sheets[i]? f sheet.id := by
  refine List.ext_getElem? fun j => ?_
  simp only [List.getElem?_map, List.getElem?_modify]
  cases hj : sheets[j]? with
  | none => rfl
  | some sheet =>
    cases hi : sheets[i]? with
    | none =>
      have hne : i ≠ j := by
        rintro rfl
        rw [hi] at hj
        cases hj
      simp [modify, hne]
    | some target =>
      have hlt : i < (sheets.map Sheet.id).length := by
        rw [List.length_map]
        exact (List.getElem?_eq_some_iff.mp hi).1
      have hsame : i = j ↔ sheet.id = target.id := by
        rw [← List.getElem?_inj hlt hnd, List.getElem?_map, List.getElem?_map, hi, hj]
        simp [eq_comm]
      simp only [Option.map_some, modify_apply, ← hsame, Option.map_eq_map]

/-- Sheets under the same ids have the same maps. -/
theorem map_eq_of_ids (o : Overrides) {others : List Sheet}
    (h : others.map Sheet.id = sheets.map Sheet.id) :
    (others.map fun sheet => o sheet.id) = sheets.map fun sheet => o sheet.id := by
  have hmap := congrArg (List.map o) h
  rwa [List.map_map, List.map_map] at hmap

/-- New sheets have no maps yet. -/
theorem map_grown {new : List Sheet} (hunused : ∀ id : SheetId, s.nextId ≤ id.number → o id = [])
    (h : s.Grows new t) :
    (t.sheets.map fun sheet => o sheet.id)
      = (s.sheets.map fun sheet => o sheet.id) ++ List.replicate new.length [] := by
  rw [h.sheets, List.map_append, ← List.map_const']
  congr 1
  exact List.map_congr_left fun sheet hsheet => hunused _ (h.numbered sheet hsheet)

/-- A copy is the last of the sheets, and the others have the maps that they had. -/
theorem map_copied {copy : Sheet} (hs : s.Distinct) (h : s.Grows [copy] t)
    (f : Dictionary Header ColumnId → Dictionary Header ColumnId) :
    (t.sheets.map fun sheet => o.modify t.sheets.getLast? f sheet.id)
      = (s.sheets.map fun sheet => o sheet.id) ++ [f (o copy.id)] := by
  rw [h.sheets, List.getLast?_concat, List.map_append]
  congr 1
  · refine List.map_congr_left fun sheet hsheet => ?_
    have hbelow := hs.below sheet hsheet
    have habove := h.numbered copy (List.mem_singleton_self _)
    have hne : sheet.id ≠ copy.id := by
      intro hid
      rw [hid] at hbelow
      omega
    rw [modify_apply, if_neg hne]
  · simp [modify_apply]

/-- A step does to the maps of the sheets what its edit does to a list of them. -/
theorem map_after (o : Overrides) (stored : StoredEdit) {step : Step} (hs : step.before.Distinct)
    (hunused : ∀ id : SheetId, step.before.nextId ≤ id.number → o id = [])
    (h : step.edit.Reshapes step.before step.after) :
    step.edit.rearrange stored.forgets (step.before.sheets.map fun sheet => o sheet.id)
      = step.after.sheets.map fun sheet => o.after stored step sheet.id := by
  obtain ⟨id, e, s, t, chunks⟩ := step
  dsimp only at *
  -- an edit changes one map, adds or takes away maps at their places, or leaves them as
  -- they are
  cases e with
  | renameColumn e =>
    obtain ⟨i, -, hrewrites⟩ := h
    simp only [Edit.rearrange, after]
    rw [map_eq_of_ids _ hrewrites.ids]
    exact map_modify o hs.ids _ _
  | duplicateSheet e =>
    obtain ⟨copy, hgrows⟩ := h
    simp only [Edit.rearrange, after]
    rw [map_copied hs hgrows, List.getElem?_map]
  | deleteSheet e =>
    show (s.sheets.map _).eraseIdx e.sheet = t.sheets.map fun sheet => o sheet.id
    rw [h.1, List.eraseIdx_map]
  | importFiles e =>
    obtain ⟨new, hgrows, hlength⟩ := h
    show _ = t.sheets.map fun sheet => o sheet.id
    rw [map_grown hunused hgrows, hlength]
    rfl
  | merge e =>
    obtain ⟨new, hgrows⟩ := h
    show _ = t.sheets.map fun sheet => o sheet.id
    rw [map_grown hunused hgrows]
    rfl
  | pivot e =>
    cases hdestination : e.destination with
    | some i =>
      simp only [Edit.Reshapes, hdestination] at h
      simp only [Edit.rearrange, after, hdestination, Option.bind_some]
      rw [map_eq_of_ids _ h.ids]
      exact map_modify o hs.ids _ _
    | none =>
      simp only [Edit.Reshapes, hdestination] at h
      obtain ⟨new, hgrows⟩ := h
      simp only [Edit.rearrange, after, hdestination, Option.bind_none, modify]
      rw [map_grown hunused hgrows]
      rfl
  | restrictHeaders e =>
    have hids := Edit.ids_restricted h.1
    simp only [Edit.rearrange, after]
    split
    · rw [List.map_map]
      exact (map_eq_of_ids (fun _ => []) hids).symm
    · exact (map_eq_of_ids o hids).symm
  | drawChart e | exportSheets e =>
    show _ = t.sheets.map fun sheet => o sheet.id
    rw [h.sheets, List.append_nil]
    rfl
  | _ =>
    obtain ⟨i, -, hrewrites⟩ := h
    exact (map_eq_of_ids o hrewrites.ids).symm

end Overrides

/-! ### Targets of renamings -/

/-- The step makes the sheet: there was none under its id, or a pivot table takes its
  place. -/
def Step.Remakes (step : Step) (id : SheetId) : Prop :=
  id ∉ step.before.sheets.map Sheet.id
    ∨ ∃ e i sheet, step.edit = .pivot e ∧ e.destination = some i
      ∧ step.before.sheets[i]? = some sheet ∧ sheet.id = id

/-- Since a sheet was made, one of the steps renamed a column of it, or of the sheet of
  which it is a copy before it was copied. -/
inductive RenamedIn : List Step → SheetId → ColumnId → Prop where
  | renamed {steps : List Step} {step : Step} {e : RenameColumn} {sheet : Sheet}
      (hedit : step.edit = .renameColumn e)
      (hsheet : step.before.sheets[e.sheet]? = some sheet) :
      RenamedIn (steps ++ [step]) sheet.id e.column
  | copied {steps : List Step} {step : Step} {e : DuplicateSheet} {source copy : Sheet}
      {column : ColumnId} (hedit : step.edit = .duplicateSheet e)
      (hsource : step.before.sheets[e.sheet]? = some source)
      (hcopy : step.after.sheets = step.before.sheets ++ [copy])
      (h : RenamedIn steps source.id column) : RenamedIn (steps ++ [step]) copy.id column
  | later {steps : List Step} {step : Step} {id : SheetId} {column : ColumnId}
      (hkept : ¬ step.Remakes id) (h : RenamedIn steps id column) :
      RenamedIn (steps ++ [step]) id column

/-- The translator holds the maps of the sheets in their order, and every column in the map
  of a sheet was the target of a renaming. -/
structure Translator.Aligned (t : Translator) (o : Overrides) (s : State) (steps : List Step) :
    Prop where
  sheets : t.sheets = s.sheets.map fun sheet => o sheet.id
  /-- Sheets that are still to come start without anything. -/
  unused : ∀ id : SheetId, s.nextId ≤ id.number → o id = []
  renamed : ∀ sheet ∈ s.sheets, ∀ entry ∈ o sheet.id, RenamedIn steps sheet.id entry.2

namespace Overrides

variable {o : Overrides} {stored : StoredEdit} {step : Step} {steps : List Step} {id : SheetId}
  {entry : Header × ColumnId}

/-- What is in a map that may have been changed. -/
theorem mem_modify {sheet : Option Sheet}
    {f : Dictionary Header ColumnId → Dictionary Header ColumnId}
    (h : entry ∈ o.modify sheet f id) :
    (∃ sk, sheet = some sk ∧ sk.id = id ∧ entry ∈ f (o id))
      ∨ (∀ sk, sheet = some sk → sk.id ≠ id) ∧ entry ∈ o id := by
  cases sheet with
  | none => exact .inr ⟨fun sk hsk => (by cases hsk), h⟩
  | some sk =>
    rw [modify_apply] at h
    by_cases hid : id = sk.id
    · rw [if_pos hid] at h
      exact .inl ⟨sk, rfl, hid.symm, h⟩
    · rw [if_neg hid] at h
      refine .inr ⟨fun sk' hsk' => ?_, h⟩
      obtain rfl := Option.some.inj hsk'
      exact Ne.symm hid

/-- What is in the map of a sheet after a step comes from a renaming, from the sheet of
  which it is a copy, or was there before; then no pivot table took its place. -/
theorem mem_after (h : entry ∈ o.after stored step id) :
    (∃ e sheet, step.edit = .renameColumn e ∧ step.before.sheets[e.sheet]? = some sheet
        ∧ sheet.id = id ∧ entry = (e.header, e.column))
      ∨ (∃ e source copy, step.edit = .duplicateSheet e
        ∧ step.before.sheets[e.sheet]? = some source ∧ step.after.sheets.getLast? = some copy
        ∧ copy.id = id ∧ entry ∈ o source.id)
      ∨ entry ∈ o id ∧ ∀ e i sheet, step.edit = .pivot e → e.destination = some i →
        step.before.sheets[i]? = some sheet → sheet.id ≠ id := by
  unfold after at h
  cases hedit : step.edit with
  | renameColumn e =>
    simp only [hedit] at h
    rcases mem_modify h with ⟨sheet, hsheet, hid, hentry⟩ | ⟨-, hentry⟩
    · rcases Dictionary.mem_of_mem_insert hentry with hnew | hold
      · exact .inl ⟨e, sheet, rfl, hsheet, hid, hnew⟩
      · exact .inr (.inr ⟨hold, by simp⟩)
    · exact .inr (.inr ⟨hentry, by simp⟩)
  | duplicateSheet e =>
    simp only [hedit] at h
    rcases mem_modify h with ⟨copy, hcopy, hid, hentry⟩ | ⟨-, hentry⟩
    · cases hsource : step.before.sheets[e.sheet]? with
      | none =>
        rw [hsource] at hentry
        cases hentry
      | some source =>
        rw [hsource] at hentry
        exact .inr (.inl ⟨e, source, copy, rfl, hsource, hcopy, hid, hentry⟩)
    · exact .inr (.inr ⟨hentry, by simp⟩)
  | pivot e =>
    simp only [hedit] at h
    rcases mem_modify h with ⟨sheet, -, -, hentry⟩ | ⟨hother, hentry⟩
    · cases hentry
    · refine .inr (.inr ⟨hentry, fun e' i sheet he hi hsheet => hother sheet ?_⟩)
      obtain rfl := Edit.pivot.inj he
      rw [hi, Option.bind_some, hsheet]
  | restrictHeaders e =>
    simp only [hedit] at h
    split at h
    · cases h
    · exact .inr (.inr ⟨h, by simp⟩)
  | _ =>
    simp only [hedit] at h
    exact .inr (.inr ⟨h, by simp⟩)

/-- Sheets that are still to come start without anything after a step too. -/
theorem after_eq_nil (hs : step.before.Distinct) (ht : step.after.Distinct)
    (h : step.edit.Reshapes step.before step.after)
    (hunused : ∀ id : SheetId, step.before.nextId ≤ id.number → o id = [])
    (hid : step.after.nextId ≤ id.number) : o.after stored step id = [] := by
  refine List.eq_nil_iff_forall_not_mem.mpr fun entry hentry => ?_
  rcases mem_after hentry with ⟨e, sheet, -, hsheet, rfl, -⟩
    | ⟨e, source, copy, -, -, hcopy, rfl, -⟩ | ⟨hold, -⟩
  · have hbelow := hs.below sheet (List.mem_of_getElem? hsheet)
    have hnext := h.nextId_le
    omega
  · have hbelow := ht.below copy (List.mem_of_getLast? hcopy)
    omega
  · rw [hunused id (h.nextId_le.trans hid)] at hold
    cases hold

/-- What is in the map of a sheet after a step was the target of a renaming, if that is so
  before the step. -/
theorem renamedIn_after {sheet : Sheet} (h : step.edit.Reshapes step.before step.after)
    (hunused : ∀ id : SheetId, step.before.nextId ≤ id.number → o id = [])
    (hrenamed : ∀ sheet ∈ step.before.sheets, ∀ entry ∈ o sheet.id,
      RenamedIn steps sheet.id entry.2)
    (hknown : step.before.nextId ≤ sheet.id.number ∨ sheet.id ∈ step.before.sheets.map Sheet.id)
    (hentry : entry ∈ o.after stored step sheet.id) :
    RenamedIn (steps ++ [step]) sheet.id entry.2 := by
  rcases mem_after hentry with ⟨e, target, hedit, htarget, hid, rfl⟩
    | ⟨e, source, copy, hedit, hsource, hcopy, hid, hold⟩ | ⟨hold, hkept⟩
  · rw [← hid]
    exact .renamed hedit htarget
  · rw [hedit] at h
    obtain ⟨last, hgrows⟩ := h
    rw [hgrows.sheets, List.getLast?_concat, Option.some.injEq] at hcopy
    rw [← hid, ← hcopy]
    exact .copied hedit hsource hgrows.sheets
      (hrenamed source (List.mem_of_getElem? hsource) entry hold)
  · -- a new sheet has no map, so the sheet was there before
    have hbefore : sheet.id ∈ step.before.sheets.map Sheet.id := by
      refine hknown.resolve_left fun hnew => ?_
      rw [hunused _ hnew] at hold
      cases hold
    obtain ⟨old, hmem, hid⟩ := List.mem_map.mp hbefore
    rw [← hid] at hold hkept hbefore ⊢
    refine .later (fun hremakes => ?_) (hrenamed old hmem entry hold)
    rcases hremakes with hnot | ⟨e, i, target, hedit, hi, htarget, hsame⟩
    · exact hnot hbefore
    · exact hkept e i target hedit hi htarget hsame

end Overrides

theorem State.after_concat (s : State) (steps : List Step) (step : Step) :
    s.after (steps ++ [step]) = step.after := by
  simp [State.after]

namespace Translator.Aligned

variable {t t' : Translator} {o : Overrides} {stored : StoredEdit} {s : State} {step : Step}
  {steps : List Step} {us : List StoredEdit}

theorem start (s : State) : (ofCount s.sheets.length).Aligned (fun _ => []) s [] where
  sheets := (List.map_const' ..).symm
  unused := fun _ _ => rfl
  renamed := fun _ _ _ hentry => absurd hentry List.not_mem_nil

/-- An accepted step keeps the translator aligned. -/
theorem observe {d : Disk} (h : t.Aligned o s steps) (hs : s.Distinct)
    (hrun : Step.run d step.id step.edit s = .ok step) (hx : stored.edit = .ok step.edit)
    (hfiles : stored.NamesFiles) (hobserve : t.observe stored = .ok t') :
    t'.Aligned (o.after stored step) step.after (steps ++ [step]) := by
  obtain rfl := Step.before_eq hrun
  obtain ⟨c, hc, hstep⟩ := Step.run_eq_ok hrun
  have hafter : step.after = c.state := by rw [hstep]
  have hshape := Edit.reshapes hc
  have hdistinct := hshape.distinct hs
  obtain ⟨survivors, new, hsheets, hkeeps⟩ := Edit.exists_keeps hs hc
  rw [← hafter] at hshape hdistinct hsheets
  refine ⟨?_, fun id hid => Overrides.after_eq_nil hs hdistinct hshape h.unused hid,
    fun sheet hsheet entry hentry => ?_⟩
  · have hlength : t.sheets.length = step.before.sheets.length := by
      rw [h.sheets, List.length_map]
    rw [observe_maps hlength hfiles hx hc hobserve, h.sheets,
      Overrides.map_after o stored hs h.unused hshape]
  · have hknown : step.before.nextId ≤ sheet.id.number
        ∨ sheet.id ∈ step.before.sheets.map Sheet.id := by
      rw [hsheets] at hsheet
      rcases List.mem_append.mp hsheet with hsurvives | hnew
      · exact .inr (hkeeps.order.subset (List.mem_map_of_mem hsurvives))
      · exact .inl (hkeeps.fresh sheet hnew).2
    exact Overrides.renamedIn_after hshape h.unused h.renamed hknown hentry

/-- The translator is aligned after edits that were replayed. -/
theorem along (hs : s.Distinct) (hx : us.mapM StoredEdit.edit = .ok (steps.map Step.edit))
    (ha : s.Accepts steps) (hfiles : ∀ b ∈ us, b.NamesFiles)
    (hobserve : us.foldlM Translator.observe (ofCount s.sheets.length) = .ok t) :
    t.Aligned (Overrides.along (us.zip steps)) (s.after steps) steps := by
  -- the induction is on the end of the log, since renamings are looked for backwards
  induction steps using List.reverseRecOn generalizing us t with
  | nil =>
    obtain rfl : us = [] := List.forall₂_nil_right_iff.mp (mapM_eq_ok.mp hx)
    obtain rfl := Except.ok.inj hobserve
    exact .start s
  | append_singleton steps step ih =>
    have hlength := (mapM_eq_ok.mp hx).length_eq
    rcases List.eq_nil_or_concat us with rfl | ⟨us, stored, rfl⟩
    · simp at hlength
    rw [List.concat_eq_append] at *
    simp only [List.length_append, List.length_map, List.length_singleton, Nat.add_right_cancel_iff]
      at hlength
    simp only [List.mapM_append, List.mapM_cons, List.mapM_nil, bind_eq_ok, pure_eq_ok,
      List.map_append, List.map_cons, List.map_nil] at hx
    obtain ⟨es, hes, _, ⟨e, he, _, rfl, rfl⟩, hx⟩ := hx
    obtain ⟨rfl, hlast⟩ := List.append_inj' hx rfl
    obtain rfl : e = step.edit := List.singleton_inj.mp hlast
    simp only [List.foldlM_append, List.foldlM_cons, List.foldlM_nil, bind_eq_ok, pure_eq_ok]
      at hobserve
    obtain ⟨mid, hmid, t, hlater, rfl⟩ := hobserve
    obtain ⟨haccepts, ⟨disk, -, hrun⟩, -⟩ := State.acceptsOn_append.mp ha
    rw [List.forall_mem_append, List.forall_mem_singleton] at hfiles
    have hnext := (ih hes haccepts hfiles.1 hmid).observe (hs.after haccepts) hrun he hfiles.2 hlater
    have hzip : (us ++ [stored]).zip (steps ++ [step]) = us.zip steps ++ [(stored, step)] :=
      List.zip_append hlength
    rw [hzip, State.after_concat, Overrides.along, List.foldl_append]
    exact hnext

end Translator.Aligned

/-! ### Analyses -/

namespace Analysis

variable {t : Translator} {s : State} {steps : List Step}

/-- The imports of an upgraded list name their files exactly if those of the list do. -/
theorem namesFiles_upgradeSteps {old us : List StoredEdit} (h : upgradeSteps t old = .ok us) :
    (∀ b ∈ us, b.NamesFiles) ↔ ∀ b ∈ old, b.NamesFiles := by
  induction old generalizing t us with
  | nil =>
    obtain rfl := Except.ok.inj h
    exact Iff.rfl
  | cons first rest ih =>
    rw [upgradeSteps] at h
    simp only [bind_eq_ok, pure_eq_ok] at h
    obtain ⟨block, hblock, mid, -, us, hus, rfl⟩ := h
    rw [List.forall_mem_append, List.forall_mem_cons, ih hus]
    rcases StoredEdit.params_upgrade hblock with rfl | ⟨hobject, hall⟩
    · rw [List.forall_mem_singleton]
    · have hfirst : first.NamesFiles := fun _ => hobject
      have hlast : ∀ b ∈ block, b.NamesFiles := fun b hb _ => hall b hb
      rw [iff_true_intro hfirst, iff_true_intro hlast]

/-- The first edits of an upgraded analysis are observed without a complaint. -/
theorem observe_take {a u : Analysis} {count : Nat} (h : a.upgrade count = .ok u) (k : Nat) :
    ∃ t, (u.steps.take k).foldlM Translator.observe (.ofCount count) = .ok t := by
  obtain ⟨us, hus, rfl⟩ := upgrade_eq_ok.mp h
  rw [← List.append_nil a.steps] at hus
  obtain ⟨vs, ws, t, -, ht, hws, rfl⟩ := upgradeSteps_append hus
  obtain rfl : [] = ws := Except.ok.inj hws
  have hall : (a.preface ++ (vs ++ [])).foldlM Translator.observe (.ofCount count) = .ok t := by
    simp only [List.append_nil, List.foldlM_append, bind_eq_ok]
    exact ⟨_, observe_preface a count, ht⟩
  rw [← List.take_append_drop k (a.preface ++ (vs ++ [])), List.foldlM_append, bind_eq_ok] at hall
  obtain ⟨mid, hmid, -⟩ := hall
  exact ⟨mid, hmid⟩

/-- An import whose parameters do not stand under their names adds sheets of which the
  translator learns nothing. -/
theorem not_aligned_of_unnamed {t t' : Translator} {stored : StoredEdit} {step : Step} {d : Disk}
    {o o' : Overrides} {before after : List Step} (h : t.Aligned o step.before before)
    (hrun : Step.run d step.id step.edit step.before = .ok step)
    (hx : stored.edit = .ok step.edit) (hobserve : t.observe stored = .ok t')
    (hunnamed : ¬ stored.NamesFiles) : ¬ t'.Aligned o' step.after after := by
  intro h'
  obtain ⟨hkind, hparams⟩ := Classical.not_imp.mp hunnamed
  obtain ⟨k, hk, -, hread⟩ := StoredEdit.edit_eq_ok hx
  obtain rfl := Option.some.inj (hk.symm.trans hkind)
  obtain ⟨e, -, hedit⟩ := Option.map_eq_some_iff.mp hread
  -- the translator finds no files
  have hfield : stored.params.field? "file_names" = none := by
    cases hj : stored.params.field? "file_names" with
    | none => rfl
    | some j => exact absurd (Json.object_of_field? hj) hparams
  have hsame : t' = t := by
    simp only [Translator.observe, hk, Translator.observeKind, hfield, Option.bind_none,
      Option.map_none, Option.getD_none, List.replicate_zero, List.append_nil] at hobserve
    exact (Except.ok.inj hobserve).symm
  -- but there is at least one
  obtain ⟨c, hc, hstep⟩ := Step.run_eq_ok hrun
  have hafter : step.after = c.state := by rw [hstep]
  rw [← hedit] at hc
  obtain ⟨new, hgrows, hlength⟩ := Edit.reshapes hc
  have hsome : e.files ≠ [] := by
    simp only [Edit.change, ImportFiles.run, throw_ite_eq_ok] at hc
    simpa using hc.1
  have hbefore := congrArg List.length h.sheets
  have hnow := congrArg List.length h'.sheets
  rw [hsame, hafter, hgrows.sheets] at hnow
  simp only [List.length_map, List.length_append] at hbefore hnow
  have hpositive := List.length_pos_of_ne_nil hsome
  omega

/-- The translator is aligned with the sheets at every place of an upgraded analysis that
  is replayed, exactly if the parameters of all imports stand under their names. -/
theorem translator_aligned {a u : Analysis} (hs : s.Initial)
    (hup : a.upgrade s.sheets.length = .ok u) (hx : u.edits = .ok (steps.map Step.edit))
    (ha : s.Accepts steps) :
    (∀ k, ∃ t, (u.steps.take k).foldlM Translator.observe (.ofCount s.sheets.length) = .ok t
        ∧ t.Aligned (Overrides.along ((u.steps.take k).zip (steps.take k)))
          (s.after (steps.take k)) (steps.take k))
      ↔ ∀ stored ∈ a.steps, stored.NamesFiles := by
  have hdistinct := hs.sound_native.1.distinct
  have hedits := mapM_eq_ok.mp hx
  have hfiles : (∀ b ∈ u.steps, b.NamesFiles) ↔ ∀ b ∈ a.steps, b.NamesFiles := by
    obtain ⟨us, hus, rfl⟩ := upgrade_eq_ok.mp hup
    have hpreface : ∀ b ∈ a.preface, b.NamesFiles := by
      unfold preface
      split
      · exact fun b hb => List.mem_singleton.mp hb ▸ fun _ => ⟨_, rfl⟩
      · exact fun b hb => by cases hb
    rw [List.forall_mem_append, namesFiles_upgradeSteps hus]
    exact and_iff_right hpreface
  rw [← hfiles]
  constructor
  · intro hall b hb
    -- the translator counts no file of such an import, so it loses the sheets there
    by_contra hunnamed
    obtain ⟨k, hk, rfl⟩ := List.mem_iff_getElem.mp hb
    have hlt : k < steps.length := by
      have hlength := hedits.length_eq
      rw [List.length_map] at hlength
      omega
    have hedit : u.steps[k].edit = .ok steps[k].edit := by
      have hget := hedits.get hk (by rwa [List.length_map])
      simpa using hget
    obtain ⟨t, ht, haligned⟩ := hall k
    obtain ⟨t', ht', haligned'⟩ := hall (k + 1)
    have haccepts := ha.take (k + 1)
    rw [List.take_succ_eq_append_getElem hlt] at haccepts haligned'
    obtain ⟨-, ⟨disk, -, hrun⟩, -⟩ := State.acceptsOn_append.mp haccepts
    rw [List.take_succ_eq_append_getElem hk] at ht'
    simp only [List.foldlM_append, List.foldlM_cons, List.foldlM_nil, bind_eq_ok, pure_eq_ok] at ht'
    obtain ⟨mid, hmid, next, hnext, rfl⟩ := ht'
    obtain rfl : t = mid := Except.ok.inj (ht.symm.trans hmid)
    rw [State.after_concat] at haligned'
    have hbefore := Step.before_eq hrun
    rw [← hbefore] at haligned hrun
    exact not_aligned_of_unnamed haligned hrun hedit hnext hunnamed haligned'
  · intro hnames k
    obtain ⟨t, ht⟩ := observe_take hup k
    refine ⟨t, ht, ?_⟩
    refine Translator.Aligned.along hdistinct (mapM_eq_ok.mpr ?_) (ha.take k) (fun b hb => ?_) ht
    · rw [List.map_take]
      exact List.forall₂_take k hedits
    · exact hnames b (List.mem_of_mem_take hb)

end Analysis

/-! ### A sample

  A column is renamed and its sheet copied, and the copy is merged.  A file is imported
  by parameters that stand in a list instead of under their names. -/

namespace Sample

/-- An import of which the parameters are a list. -/
def listed : Analysis :=
  ⟨"0.4.0", [⟨2, "simple_import", .array [.array [.string "f.csv"]]⟩]⟩

end Sample

namespace Analysis

/-- In the end the copy is known to have the renamed column, as the renamed sheet is. -/
theorem translator_aligned_copied :
    ∃ u, Sample.copied.upgrade Sample.state.sheets.length = .ok u
      ∧ (u.steps.foldlM Translator.observe (.ofCount Sample.state.sheets.length)).map
          Translator.sheets = .ok [[("D", ⟨"B"⟩)], [], [("D", ⟨"B"⟩)], []]
      ∧ ∀ k, ∃ t, (u.steps.take k).foldlM Translator.observe
            (.ofCount Sample.state.sheets.length) = .ok t
        ∧ t.Aligned
          (Overrides.along ((u.steps.take k).zip ((Sample.loaded Sample.copied).take k)))
          (Sample.state.after ((Sample.loaded Sample.copied).take k))
          ((Sample.loaded Sample.copied).take k) := by
  obtain ⟨u, hup, hx, ha⟩ :=
    Sample.accepts_loaded Sample.copied (by decide) (by decide)
  have hmaps : ((Sample.copied.upgrade Sample.state.sheets.length).bind fun u =>
      (u.steps.foldlM Translator.observe (.ofCount Sample.state.sheets.length)).map
        Translator.sheets) = .ok [[("D", ⟨"B"⟩)], [], [("D", ⟨"B"⟩)], []] := by
    decide
  have hnames : ∀ stored ∈ Sample.copied.steps, stored.NamesFiles := by
    unfold Sample.copied
    simp only [List.forall_mem_cons]
    refine ⟨?_, ?_, ?_, ?_, fun _ hnone => absurd hnone List.not_mem_nil⟩ <;> exact fun _ => ⟨_, rfl⟩
  rw [hup] at hmaps
  exact ⟨u, hup, hmaps, (translator_aligned Sample.initial hup hx ha).mpr hnames⟩

/-- The translator knows of two sheets, and there are three. -/
theorem translator_misses_import :
    ∃ u t, Sample.listed.upgrade Sample.state.sheets.length = .ok u
      ∧ u.edits = .ok ((Sample.loadedFrom RestrictHeaders.Sample.spaced Sample.listed).map Step.edit)
      ∧ Sample.state.Accepts (Sample.loadedFrom RestrictHeaders.Sample.spaced Sample.listed)
      ∧ u.steps.foldlM Translator.observe (.ofCount Sample.state.sheets.length) = .ok t
      ∧ t.sheets.length = 2
      ∧ (Sample.state.after
          (Sample.loadedFrom RestrictHeaders.Sample.spaced Sample.listed)).sheets.length = 3 := by
  obtain ⟨u, hup, hx, ha⟩ :=
    Sample.accepts_loadedFrom RestrictHeaders.Sample.spaced Sample.listed (by decide)
      (by decide)
  have hcount : ((Sample.listed.upgrade Sample.state.sheets.length).bind fun u =>
      (u.steps.foldlM Translator.observe (.ofCount Sample.state.sheets.length)).map
        fun t => t.sheets.length) = .ok 2 := by
    decide
  rw [hup] at hcount
  obtain ⟨t, ht, hlength⟩ := map_eq_ok.mp hcount
  exact ⟨u, t, hup, hx, ha, ht, hlength, by decide⟩

end Analysis

end SheetScript
