import SheetScript.Proofs.Coverage.Links
import SheetScript.Proofs.Desk.Faults
import SheetScript.Proofs.Steps

/-! # What edits emit

  The blocks that edits emit declare their sheets in order, and write a sheet wholly
  or, of a sheet that stays, leave the columns alone that they do not write.  So every
  chunk of accepted steps is one that the step could emit for the desk where it runs.

  - `Edit.emits`: the blocks of one edit.
  - `State.Sound.means`: the chunks of accepted steps.
-/

namespace SheetScript

open Symbolic

/-! ### Footprints of blocks -/

/-- Sheets are in order, and no sheet is written in part. -/
structure Footprint.Whole (f : Footprint) : Prop where
  ordered : f.Ordered
  writes : ∀ s ids, Dictionary.get? f.writes s ≠ some (.only ids)

namespace Footprint.Whole

variable {f : Footprint}

theorem empty : ({} : Footprint).Whole := ⟨ordered_empty, fun _ _ h => by cases h⟩

theorem read (h : f.Whole) (s : SheetId) (c : ColumnSet) : (f.read s c).Whole :=
  ⟨h.ordered.read s c, h.writes⟩

theorem write (h : f.Whole) (s : SheetId) : (f.write s .all).Whole := by
  refine ⟨h.ordered.write s .all, fun t ids => ?_⟩
  show Dictionary.get? (f.writes.add s .all) t ≠ _
  rw [ColumnAccess.get?_add_all]
  split
  · exact fun h => by cases h
  · exact h.writes t ids

theorem create (h : f.Whole) (s : SheetId) : (f.create s).Whole :=
  ⟨h.ordered.congr rfl rfl, h.writes⟩

theorem foldl {α : Type} {φ : Footprint → α → Footprint} (hφ : ∀ f a, f.Whole → (φ f a).Whole)
    (h : f.Whole) (l : List α) : (l.foldl φ f).Whole := by
  induction l generalizing f with
  | nil => exact h
  | cons a rest ih => exact ih (hφ f a h)

/-- Nor is a sheet made or deleted in part. -/
theorem effectiveWrites (h : f.Whole) (s : SheetId) (ids : Roster ColumnId) :
    Dictionary.get? f.effectiveWrites s ≠ some (.only ids) := by
  rw [get?_effectiveWrites]
  split
  · exact fun h => by cases h
  · exact h.writes s ids

end Footprint.Whole

/-! ### Edits -/

/-- The blocks of the code are in order, and retain what they do not write. -/
def Change.Emits (s : State) (c : Change) : Prop :=
  ∀ k, .block k ∈ c.code → k.footprint.Ordered ∧ s.desk.Retains k

section Edits

variable {s : State} {c : Change}

theorem Change.Emits.of_not_block {next : State} {code : List ChunkBody}
    (h : ∀ b ∈ code, b.isBlock = false) : Change.Emits s ⟨next, code⟩ := by
  intro k hk
  cases h _ hk

theorem Change.Emits.of_whole {next : State} {code : List ChunkBody}
    (h : ∀ k, .block k ∈ code → k.footprint.Whole) : Change.Emits s ⟨next, code⟩ := by
  intro k hk
  exact ⟨(h k hk).ordered, fun o _ ids hids => absurd hids ((h k hk).effectiveWrites _ ids)⟩

theorem Change.Emits.of_block {next : State} {b : Block} (h : b.footprint.Whole) :
    Change.Emits s ⟨next, [.block b]⟩ := by
  refine .of_whole fun k hk => ?_
  obtain rfl : k = b := ChunkBody.block.inj (List.mem_singleton.mp hk)
  exact h

theorem ImportFiles.emits {e : ImportFiles} {d : Disk} (h : e.run d s = .ok c) : c.Emits s := by
  unfold ImportFiles.run at h
  simp only [throw_ite_eq_ok, bind_eq_ok, pure_eq_ok] at h
  obtain ⟨-, ⟨next, sheets⟩, -, rfl⟩ := h
  exact .of_block (Footprint.Whole.empty.foldl (fun _ _ h => h.create _) sheets)

theorem AddColumn.emits {e : AddColumn} (h : e.run s = .ok c) : c.Emits s := by
  unfold AddColumn.run at h
  simp only [bind_eq_ok, throw_ite_eq_ok, pure_eq_ok] at h
  obtain ⟨sheet, -, -, frame, -, rfl⟩ := h
  exact .of_not_block (List.forall_mem_singleton.mpr rfl)

theorem DeleteColumns.emits {e : DeleteColumns} (h : e.run s = .ok c) : c.Emits s := by
  unfold DeleteColumns.run at h
  simp only [bind_eq_ok, throw_ite_eq_ok, pure_eq_ok] at h
  obtain ⟨-, sheet, -, headers, -, rfl⟩ := h
  exact .of_not_block (List.forall_mem_singleton.mpr rfl)

theorem RenameColumn.emits {e : RenameColumn} (h : e.run s = .ok c) : c.Emits s := by
  unfold RenameColumn.run at h
  simp only [bind_eq_ok] at h
  obtain ⟨sheet, -, old, -, h⟩ := h
  split at h
  · simp only [pure_eq_ok] at h
    exact h ▸ .of_not_block (List.forall_mem_nil _)
  · simp only [throw_ite_eq_ok, bind_eq_ok, pure_eq_ok] at h
    obtain ⟨-, -, -, after, -, rfl⟩ := h
    exact .of_not_block (List.forall_mem_singleton.mpr rfl)

theorem MoveColumn.emits {e : MoveColumn} (h : e.run s = .ok c) : c.Emits s := by
  unfold MoveColumn.run at h
  simp only [bind_eq_ok] at h
  obtain ⟨sheet, -, source, -, h⟩ := h
  split at h
  · simp only [pure_eq_ok] at h
    exact h ▸ .of_not_block (List.forall_mem_nil _)
  · simp only [bind_eq_ok, pure_eq_ok] at h
    obtain ⟨frame, -, header, -, rfl⟩ := h
    exact .of_block ((Footprint.Whole.empty.read _ _).write _)

theorem SetFormula.emits {e : SetFormula} (h : e.run s = .ok c) : c.Emits s := by
  unfold SetFormula.run at h
  simp only [bind_eq_ok] at h
  obtain ⟨sheet, -, header, -, h⟩ := h
  split at h
  · simp at h
  · simp only [bind_eq_ok, pure_eq_ok] at h
    obtain ⟨columns, -, frame, -, rfl⟩ := h
    exact .of_not_block (List.forall_mem_singleton.mpr rfl)

theorem ChangeType.emits {e : ChangeType} (h : e.run s = .ok c) : c.Emits s := by
  unfold ChangeType.run at h
  simp only [bind_eq_ok] at h
  obtain ⟨sheet, -, header, -, column, -, h⟩ := h
  split at h
  · simp only [pure_eq_ok] at h
    exact h ▸ .of_not_block (List.forall_mem_nil _)
  · simp only [bind_eq_ok, pure_eq_ok] at h
    obtain ⟨converted, -, frame, -, rfl⟩ := h
    exact .of_not_block (List.forall_mem_singleton.mpr rfl)

theorem FilterRows.emits {e : FilterRows} (h : e.run s = .ok c) : c.Emits s := by
  unfold FilterRows.run at h
  simp only [bind_eq_ok] at h
  obtain ⟨sheet, -, header, -, column, -, p, -, h⟩ := h
  cases p with
  | none =>
    simp only [pure_eq_ok] at h
    exact h ▸ .of_not_block (List.forall_mem_nil _)
  | some p =>
    simp only [bind_eq_ok, pure_eq_ok] at h
    obtain ⟨tested, -, mask, -, rfl⟩ := h
    refine .of_whole fun k hk => ?_
    obtain ⟨m, -, hm⟩ := List.mem_map.mp hk
    cases hm
    exact (Footprint.Whole.empty.read _ _).write _

theorem SortRows.emits {e : SortRows} (h : e.run s = .ok c) : c.Emits s := by
  unfold SortRows.run at h
  simp only [bind_eq_ok] at h
  obtain ⟨sheet, -, header, -, h⟩ := h
  have hsorted : ∀ {descending}, e.sorted s sheet descending = .ok c → c.Emits s := by
    intro descending h
    simp only [SortRows.sorted, bind_eq_ok, pure_eq_ok] at h
    obtain ⟨header, -, frame, -, rfl⟩ := h
    exact .of_block ((Footprint.Whole.empty.read _ _).write _)
  cases horder : e.order with
  | unsorted =>
    simp only [horder, pure_eq_ok] at h
    exact h ▸ .of_not_block (List.forall_mem_nil _)
  | ascending | descending =>
    rw [horder] at h
    exact hsorted h

theorem PromoteRow.emits {e : PromoteRow} (h : e.run s = .ok c) : c.Emits s := by
  unfold PromoteRow.run at h
  simp only [bind_eq_ok, throw_ite_eq_ok] at h
  obtain ⟨sheet, -, -, headers, -, h⟩ := h
  split at h
  · simp at h
  · simp only [bind_eq_ok, pure_eq_ok] at h
    obtain ⟨frame, -, rfl⟩ := h
    exact .of_block ((Footprint.Whole.empty.read _ _).write _)

/-- The ids of columns that are added one after the other are those that they have then. -/
theorem OneHot.register_fst {names : List Header} (hnd : names.Nodup) (m : ColumnIds) :
    (OneHot.register m names).1
      = names.map (names.foldl (fun m v => (m.insert v).2) m).columnOf := by
  have hfold : ∀ acc : List ColumnId × ColumnIds,
      (names.foldl (fun (acc : List ColumnId × ColumnIds) v =>
        (acc.1 ++ [(acc.2.insert v).1], (acc.2.insert v).2)) acc).1
      = acc.1 ++ names.map (names.foldl (fun m v => (m.insert v).2) acc.2).columnOf := by
    clear m
    induction names with
    | nil => exact fun acc => (List.append_nil _).symm
    | cons v rest ih =>
      intro acc
      obtain ⟨hv, hrest⟩ := List.nodup_cons.mp hnd
      -- what comes later leaves the id of the first
      have hfirst : (rest.foldl (fun m v => (m.insert v).2) (acc.2.insert v).2).columnOf v
          = (acc.2.insert v).1 := by
        rw [ColumnIds.columnOf, ColumnIds.id?_insertAll_of_not_mem _ hv, ColumnIds.id?_insert,
          if_pos rfl, Option.getD_some]
      rw [List.foldl_cons, ih hrest, List.map_cons, List.foldl_cons, hfirst, List.append_assoc,
        List.singleton_append]
  exact hfold ([], m)

/-- New columns apart, the columns stand as they stood. -/
theorem OneHot.retains {sheet : Sheet} {columns : ColumnIds} {names headers : List Header}
    {split : Nat} (hs : sheet.Sound) (hcolumns : columns.Sound (names ++ sheet.headers))
    (hsame : ∀ k ∈ sheet.headers, columns.columnOf k = sheet.columns.columnOf k)
    (hnew : ∀ v ∈ names, v ∉ sheet.headers)
    (hheaders : headers = sheet.headers.take split ++ names ++ sheet.headers.drop split) :
    (headers.map fun k => (columns.columnOf k, k)).filter
        (fun c => c.1 ∉ names.map columns.columnOf)
      = sheet.idsWithHeaders.filter fun c => c.1 ∉ names.map columns.columnOf := by
  have hold : ∀ k ∈ sheet.headers, columns.columnOf k ∉ names.map columns.columnOf := by
    intro k hk hin
    obtain ⟨v, hv, hvk⟩ := List.mem_map.mp hin
    have heq := hcolumns.columnOf_injective (List.mem_append_left _ hv)
      (List.mem_append_right _ hk) hvk
    exact hnew v hv (heq ▸ hk)
  have hkeep : headers.filter (fun k => columns.columnOf k ∉ names.map columns.columnOf)
      = sheet.headers := by
    have hin : ∀ l : List Header, (∀ k ∈ l, k ∈ sheet.headers) →
        l.filter (fun k => columns.columnOf k ∉ names.map columns.columnOf) = l := by
      intro l hl
      exact List.filter_eq_self.mpr fun k hk => by simpa using hold k (hl k hk)
    have hout : names.filter (fun k => columns.columnOf k ∉ names.map columns.columnOf) = [] := by
      refine List.filter_eq_nil_iff.mpr fun v hv => ?_
      simpa using ⟨v, hv, rfl⟩
    rw [hheaders, List.filter_append, List.filter_append, hout, List.append_nil,
      hin _ fun k hk => List.mem_of_mem_take hk, hin _ fun k hk => List.mem_of_mem_drop hk,
      List.take_append_drop]
  have hpairs : sheet.idsWithHeaders = sheet.headers.map fun k => (columns.columnOf k, k) := by
    rw [hs.idsWithHeaders_eq]
    exact List.map_congr_left fun k hk => by rw [hsame k hk]
  rw [hpairs, List.filter_map, List.filter_map]
  show (headers.filter fun k => columns.columnOf k ∉ names.map columns.columnOf).map _
    = (sheet.headers.filter fun k => columns.columnOf k ∉ names.map columns.columnOf).map _
  rw [hkeep, List.filter_eq_self.mpr fun k hk => by simpa using hold k hk]

theorem OneHot.emits {e : OneHot} (hs : s.Sound) (hp : s.Verbatim) (hnext : c.state.Verbatim)
    (h : e.run s = .ok c) : c.Emits s := by
  obtain ⟨sheet, position, column, frame, hsheet, -, -, hfree, hframe, -, rfl⟩ :=
    OneHot.inserts hp hnext h
  clear hnext h
  have hsound := hs.sheets sheet (State.sheet_mem hsheet)
  obtain ⟨hndnames, hnew, hheaders, hnd, hcolumns⟩ := OneHot.inserted hsound hfree hframe
  have hfst := OneHot.register_fst hndnames sheet.columns
  -- the columns from before keep their ids
  have hsame : ∀ k ∈ sheet.headers,
      ((OneHot.values column).foldl (fun m v => (m.insert v).2) sheet.columns).columnOf k
        = sheet.columns.columnOf k := by
    intro k hk
    rw [ColumnIds.columnOf, ColumnIds.id?_insertAll_of_not_mem _ fun hv => hnew k hv hk]
    rfl
  unfold OneHot.change
  rw [← OneHot.register_snd] at hfst hcolumns hsame
  generalize OneHot.register sheet.columns (OneHot.values column) = acc at *
  have hafter := Sheet.Sound.withData sheet hnd (hcolumns.congr fun k => by
    rw [Frame.mem_headers_insertColumns hframe, OneHot.headers_marks]
    rfl)
  intro k hk
  obtain rfl := ChunkBody.block.inj (List.mem_singleton.mp hk)
  refine ⟨(Footprint.ordered_empty.read _ _).write _ _, fun o ho js hjs x hx => ?_⟩
  obtain rfl := List.mem_singleton.mp ho
  obtain rfl : x = sheet.table :=
    Option.some.inj (hx.symm.trans (hs.desk_sheet (State.sheet_mem hsheet)))
  obtain rfl : Roster.ofList acc.1 = js := by
    have hwritten : Dictionary.get? [(sheet.id, ColumnSet.ofList acc.1)] sheet.id
        = some (.only js) := hjs
    rw [Dictionary.get?_cons, if_pos rfl] at hwritten
    exact ColumnSet.only.inj (Option.some.inj hwritten)
  have htable : (sheet.table.frame.map fun c => (c.id, c.header)) = sheet.idsWithHeaders := by
    simp [Sheet.table, Function.comp_def]
  rw [htable]
  show (Sheet.idsWithHeaders _).filter _ = _
  rw [hafter.idsWithHeaders_eq]
  simp only [Roster.mem_ofList, hfst]
  exact OneHot.retains hsound hcolumns hsame hnew hheaders

theorem DuplicateSheet.emits {e : DuplicateSheet} (h : e.run s = .ok c) : c.Emits s := by
  simp only [DuplicateSheet.run, bind_eq_ok, pure_eq_ok] at h
  obtain ⟨source, -, rfl⟩ := h
  exact .of_not_block (List.forall_mem_singleton.mpr rfl)

theorem DeleteSheet.emits {e : DeleteSheet} (h : e.run s = .ok c) : c.Emits s := by
  simp only [DeleteSheet.run, bind_eq_ok, pure_eq_ok] at h
  obtain ⟨sheet, -, next, -, rfl⟩ := h
  exact .of_not_block (List.forall_mem_singleton.mpr rfl)

theorem RenameSheet.emits {e : RenameSheet} (h : e.run s = .ok c) : c.Emits s := by
  unfold RenameSheet.run at h
  simp only [bind_eq_ok] at h
  obtain ⟨sheet, -, h⟩ := h
  split at h
  · simp only [pure_eq_ok] at h
    exact h ▸ .of_not_block (List.forall_mem_nil _)
  · simp only [throw_ite_eq_ok, pure_eq_ok] at h
    obtain ⟨-, rfl⟩ := h
    exact .of_not_block (List.forall_mem_singleton.mpr rfl)

theorem FormatSheet.emits {e : FormatSheet} (h : e.run s = .ok c) : c.Emits s := by
  simp only [FormatSheet.run, bind_eq_ok, pure_eq_ok] at h
  obtain ⟨sheet, -, headers, -, rfl⟩ := h
  exact .of_not_block (List.forall_mem_nil _)

theorem DrawChart.emits {e : DrawChart} (h : e.run s = .ok c) : c.Emits s := by
  simp only [DrawChart.run, bind_eq_ok, pure_eq_ok] at h
  obtain ⟨sheet, -, code, -, rfl⟩ := h
  exact .of_not_block (List.forall_mem_nil _)

theorem ExportSheets.emits {e : ExportSheets} {d : Disk} (h : (e.run d s).1 = .ok c) :
    c.Emits s := by
  unfold ExportSheets.run at h
  split at h
  · cases h
  · next sheets _ =>
    split at h
    · cases h
    · simp only [map_eq_ok, ExportSheets.block, bind_eq_ok, pure_eq_ok] at h
      obtain ⟨b, ⟨statements, -, rfl⟩, rfl⟩ := h
      exact .of_block (Footprint.Whole.empty.foldl (fun _ _ h => h.read _ _) sheets)

theorem Merge.emits {e : Merge} (h : e.run s = .ok c) : c.Emits s := by
  unfold Merge.run at h
  simp only [bind_eq_ok, pure_eq_ok] at h
  obtain ⟨one, -, two, -, p, -, f, -, rfl⟩ := h
  exact .of_block (((Footprint.Whole.empty.read _ _).read _ _).create _)

theorem Pivot.emits {e : Pivot} (h : e.run s = .ok c) : c.Emits s := by
  unfold Pivot.run at h
  simp only [bind_eq_ok] at h
  obtain ⟨source, -, l, -, f, -, h⟩ := h
  have hblock : ∀ output, (e.block l source output).footprint.Whole := by
    intro output
    unfold Pivot.block
    dsimp only
    split
    · exact (Footprint.Whole.empty.read _ _).write _
    · exact (Footprint.Whole.empty.read _ _).create _
  split at h
  · simp only [bind_eq_ok, pure_eq_ok] at h
    obtain ⟨target, -, headers, -, rfl⟩ := h
    exact .of_block (hblock _)
  · simp only [pure_eq_ok] at h
    subst h
    exact .of_block (hblock _)

theorem RestrictHeaders.emits {e : RestrictHeaders} (h : e.run s = .ok c) : c.Emits s := by
  unfold RestrictHeaders.run at h
  simp only [bind_eq_ok, pure_eq_ok] at h
  obtain ⟨results, -, rfl⟩ := h
  split
  · exact .of_not_block (List.forall_mem_nil _)
  · exact .of_block (Footprint.Whole.empty.foldl (fun _ _ h => h.write _) _)

/-- The blocks of an accepted edit are in order, and retain what they do not write. -/
theorem Edit.emits {e : Edit} {d : Disk} (hs : s.Sound) (h : e.change d s = .ok c)
    (hverbatim : e.selectsByName = true → s.Verbatim ∧ c.state.Verbatim) : c.Emits s := by
  cases e with
  | importFiles e => exact ImportFiles.emits h
  | addColumn e => exact AddColumn.emits h
  | deleteColumns e => exact DeleteColumns.emits h
  | renameColumn e => exact RenameColumn.emits h
  | moveColumn e => exact MoveColumn.emits h
  | setFormula e => exact SetFormula.emits h
  | changeType e => exact ChangeType.emits h
  | filterRows e => exact FilterRows.emits h
  | sortRows e => exact SortRows.emits h
  | pivot e => exact Pivot.emits h
  | merge e => exact Merge.emits h
  | oneHot e => exact OneHot.emits hs (hverbatim rfl).1 (hverbatim rfl).2 h
  | promoteRow e => exact PromoteRow.emits h
  | duplicateSheet e => exact DuplicateSheet.emits h
  | deleteSheet e => exact DeleteSheet.emits h
  | renameSheet e => exact RenameSheet.emits h
  | formatSheet e => exact FormatSheet.emits h
  | drawChart e => exact DrawChart.emits h
  | exportSheets e => exact ExportSheets.emits h
  | restrictHeaders e => exact RestrictHeaders.emits h

end Edits

/-! ### Steps -/

theorem Symbolic.FramesAlike.columns_eq {τ σ : Type} {f : SymbolicFrame τ} {g : SymbolicFrame σ}
    (h : FramesAlike True f g) :
    (f.map fun c => (c.id, c.header)) = g.map fun c => (c.id, c.header) := by
  induction h with
  | nil => rfl
  | cons hce _ ih => rw [List.map_cons, List.map_cons, ih, hce.1, hce.2 trivial]

namespace Symbolic.Desk

variable {τ σ : Type} {d : Desk τ} {e : Desk σ}

/-- Where columns stand does not depend on their values. -/
theorem Retains.alike {k : Block} (hr : d.Retains k) (h : d.Alike True e) : e.Retains k := by
  intro o ho ids hids y hy
  obtain ⟨x, hx, -, hframes⟩ := h.symm.table hy
  rw [hr o ho ids hids x hx, FramesAlike.columns_eq hframes]

/-- Whether steps could have emitted chunks one after the other. -/
def AllMean (I : Interpretation τ) : Desk τ → List Chunk → Prop
  | _, [] => True
  | d, c :: rest => d.Means c.body ∧ AllMean I (d.step I c.body) rest

end Symbolic.Desk

variable {τ : Type} {I : Interpretation τ} {s : State} {steps : List Step} {d : Desk τ}

/-- Chunks of accepted steps are ones that steps could have emitted, on every desk that
  looks like the first state. -/
theorem State.Sound.means (hs : s.Sound) (ha : s.Accepts steps)
    (hregular : ∀ step ∈ steps, step.Regular) (hids : ∀ step ∈ steps, step.ResetsNative)
    (hd : s.desk.Alike True d) : d.AllMean I (Script.chunksOf steps) := by
  induction steps generalizing s d with
  | nil => trivial
  | cons step rest ih =>
    obtain ⟨⟨disk, -, hrun⟩, hrest⟩ := ha
    have hfirst := hregular step List.mem_cons_self
    obtain ⟨hsound, -, hfits, hdesk⟩ := hs.lead (I := I) hrun hfirst
      (fun _ => hids step List.mem_cons_self) hd
    have hlater := ih hsound hrest (fun k hk => hregular k (List.mem_cons_of_mem _ hk))
      (fun k hk => hids k (List.mem_cons_of_mem _ hk)) hdesk
    obtain ⟨⟨state, code⟩, hc, hafter, hcode, -, hleads⟩ := hfirst.follows hs hrun
    have hemits := Edit.emits hs hc fun hnamed => by
      obtain ⟨hbefore, hlast⟩ := hfirst.verbatim hnamed
      exact ⟨Step.before_eq hrun ▸ hbefore, hafter ▸ hlast⟩
    have hchunks : Script.chunksOf (step :: rest) = step.chunks ++ Script.chunksOf rest := by
      simp [Script.chunksOf]
    rw [hchunks, hcode]
    rw [hcode] at hfits hlater
    cases hleads with
    | idle => exact hlater
    | chunk =>
      obtain ⟨hfit, -⟩ := hfits trivial
      refine ⟨hfit.means fun k hk => ?_, hlater⟩
      obtain ⟨hordered, hretains⟩ := hemits k (hk ▸ List.mem_singleton_self _)
      exact ⟨hordered, hretains.alike hd⟩

end SheetScript
