import SheetScript.Proofs.Edit.Columns
import SheetScript.Proofs.Edit.LegacyHeaders
import SheetScript.Proofs.Edit.Sheets
import SheetScript.Proofs.Edit.Tables
import SheetScript.Proofs.Replay
import SheetScript.Script

/-! # Steps and their chunks

  Steps that were accepted one after the other leave sound states, and their
  chunks lead from the desk of the first state to that of the last.

  - `Edit.follows`: what one edit does, its code does.
  - `State.Sound.leads`: what steps do, their chunks do, on every desk that looks
    like the first state.
-/

namespace SheetScript

open Symbolic

namespace Edit

/-- Whether an edit imports files under ids that need not differ. -/
def usesLegacyIds : Edit → Bool
  | .importFiles e => e.legacyIds
  | _ => false

/-- Whether an edit gives every column a new id. -/
def resetsIds : Edit → Bool
  | .restrictHeaders e => e.resetsIds
  | _ => false

/-- Whether the columns of a sheet are those that the headers registered for it stand for in
  expressions. -/
def selectsByName : Edit → Bool
  | .oneHot _ => true
  | .pivot e => e.destination.isSome
  | _ => false

/-- The code of an accepted edit does to the desk what the edit does to the
  state. -/
theorem follows {e : Edit} {d : Disk} {s : State} {c : Change} (hs : s.Sound)
    (h : e.change d s = .ok c)
    (hapart : e.usesLegacyIds = true → ∀ sh ∈ c.state.sheets, sh.columnIds.Nodup)
    (hverbatim : e.selectsByName = true → s.Verbatim ∧ c.state.Verbatim) :
    c.Follows (e.resetsIds = true → s.Native) s := by
  cases e with
  | importFiles e => exact ImportFiles.follows hs h hapart
  | addColumn e => exact AddColumn.follows hs h
  | deleteColumns e => exact DeleteColumns.follows hs h
  | renameColumn e => exact RenameColumn.follows hs h
  | moveColumn e => exact MoveColumn.follows hs h
  | setFormula e => exact SetFormula.follows hs h
  | changeType e => exact ChangeType.follows hs h
  | filterRows e => exact FilterRows.follows hs h
  | sortRows e => exact SortRows.follows hs h
  | pivot e => exact Pivot.follows hs (fun hd => (hverbatim hd).1) h
  | merge e => exact Merge.follows hs h
  | oneHot e => exact OneHot.follows hs (hverbatim rfl).1 (hverbatim rfl).2 h
  | promoteRow e => exact PromoteRow.follows hs h
  | duplicateSheet e => exact DuplicateSheet.follows hs h
  | deleteSheet e => exact DeleteSheet.follows hs h
  | renameSheet e => exact RenameSheet.follows hs h
  | formatSheet e => exact FormatSheet.follows hs h
  | drawChart e => exact DrawChart.follows hs h
  | exportSheets e => exact ExportSheets.follows hs h
  | restrictHeaders e => exact RestrictHeaders.follows hs h

/-- Columns are selected by expressions in a block. -/
theorem block_of_selectsByName {e : Edit} {d : Disk} {s : State} {c : Change}
    (hnamed : e.selectsByName = true) (h : e.change d s = .ok c) : ∃ b, c.code = [.block b] := by
  cases e with
  | oneHot e =>
    obtain ⟨_, _, _, _, _, _, -, -, -, -, -, -, -, -, rfl⟩ := OneHot.run_eq_ok.mp h
    exact ⟨_, rfl⟩
  | pivot e =>
    obtain ⟨i, hi⟩ := Option.isSome_iff_exists.mp hnamed
    unfold change Pivot.run at h
    simp only [hi, bind_eq_ok, pure_eq_ok] at h
    obtain ⟨_, -, _, -, _, -, _, -, _, -, rfl⟩ := h
    exact ⟨_, rfl⟩
  | _ => cases hnamed

end Edit

/-! ### What is asked of steps -/

/-- If the step imports files under legacy ids, no sheet has an id twice then. -/
def Step.IdsApart (step : Step) : Prop :=
  step.edit.usesLegacyIds = true → ∀ sh ∈ step.after.sheets, sh.columnIds.Nodup

theorem Step.IdsApart.of_native {step : Step} (h : step.edit.usesLegacyIds = false) :
    step.IdsApart := by
  intro hl
  rw [h] at hl
  cases hl

/-- If the step selects columns by expressions, no header before or after it is a pattern
  there. -/
def Step.Verbatim (step : Step) : Prop :=
  step.edit.selectsByName = true → step.before.Verbatim ∧ step.after.Verbatim

instance (step : Step) : Decidable step.Verbatim :=
  inferInstanceAs (Decidable (step.edit.selectsByName = true → _))

/-- What that says of the change of an accepted step. -/
theorem Step.Verbatim.of_change {step : Step} {disk : Disk} {id : StepId} {e : Edit} {s : State}
    {c : Change} (h : step.Verbatim) (hrun : Step.run disk id e s = .ok step)
    (hc : e.change disk s = .ok c) :
    e.selectsByName = true → s.Verbatim ∧ c.state.Verbatim := by
  intro hnamed
  obtain ⟨c', hc', rfl⟩ := Step.run_eq_ok hrun
  obtain rfl : c = c' := Except.ok.inj (hc.symm.trans hc')
  exact h hnamed

/-- The registered columns of all sheets stay those of the frames. -/
structure Step.Regular (step : Step) : Prop where
  apart : step.IdsApart
  verbatim : step.Verbatim

theorem Step.Regular.of_native {step : Step} (h : step.edit.usesLegacyIds = false)
    (hverbatim : step.Verbatim) : step.Regular :=
  ⟨.of_native h, hverbatim⟩

/-- If the step resets ids, then ids that the headers would get anyway. -/
def Step.ResetsNative (step : Step) : Prop := step.edit.resetsIds = true → step.before.Native

/-- Ids are reset only before a chunk is emitted by another step. -/
def Step.ResetsFirst (steps : List Step) : Prop :=
  steps.Pairwise fun earlier later => later.edit.resetsIds = true → earlier.chunks = []

instance {steps : List Step} : Decidable (Step.ResetsFirst steps) :=
  inferInstanceAs (Decidable (steps.Pairwise fun earlier later =>
    later.edit.resetsIds = true → earlier.chunks = []))

/-- States that look alike have native ids together. -/
theorem State.Native.of_alike {s t : State} (hs : s.Sound) (ht : t.Sound)
    (h : s.desk.Alike True t.desk) (hn : s.Native) : t.Native := by
  intro sh hsh
  obtain ⟨x, hx, hname, hframes⟩ := h.symm.table (ht.desk_sheet hsh)
  obtain ⟨old, hold, -, rfl⟩ := hs.desk_eq_some.mp hx
  have hold' := hs.sheets old hold
  have hsh' := ht.sheets sh hsh
  have hheaders := FramesAlike.headers_eq hframes
  have hids := FramesAlike.ids_eq hframes trivial
  rw [hsh'.table_headers, hold'.table_headers] at hheaders
  rw [hsh'.table_ids, hold'.table_ids, hsh'.columnIds_eq, hold'.columnIds_eq, hheaders] at hids
  intro k hk
  have hkold : k ∈ old.headers := hheaders ▸ hk
  rw [hheaders, ← hn old hold k hkold, hsh'.columns.id?_eq hk, hold'.columns.id?_eq hkold]
  exact congrArg some (List.map_inj_left.mp hids k hkold)

section Runs

variable {τ : Type} {I : Interpretation τ} {ids : Prop} {s : State} {step : Step}
  {steps : List Step} {d : Desk τ} {disk : Disk}

/-- The change of an accepted step, which its chunks follow. -/
theorem Step.Regular.follows (hregular : step.Regular) (hs : s.Sound)
    (hrun : Step.run disk step.id step.edit s = .ok step) :
    ∃ c, step.edit.change disk s = .ok c ∧ step.after = c.state
      ∧ step.chunks = c.code.map (fun body => ⟨step.id, body⟩)
      ∧ c.Follows (step.edit.resetsIds = true → s.Native) s := by
  obtain ⟨c, hc, hstep⟩ := Step.run_eq_ok hrun
  have hafter : step.after = c.state := by rw [hstep]
  refine ⟨c, hc, hafter, congrArg Step.chunks hstep, ?_⟩
  exact Edit.follows hs hc (hafter ▸ hregular.apart) (hregular.verbatim.of_change hrun hc)

/-- Columns are selected by expressions in blocks only. -/
theorem State.Accepts.verbatim_of_columns (ha : s.Accepts steps)
    (hcolumns : ∀ c ∈ Script.chunksOf steps, c.body.isBlock = false) :
    ∀ step ∈ steps, step.Verbatim := by
  intro step hstep hnamed
  obtain ⟨disk, -, hrun⟩ := ha.runs step hstep
  obtain ⟨c, hc, heq⟩ := Step.run_eq_ok hrun
  obtain ⟨b, hb⟩ := Edit.block_of_selectsByName hnamed hc
  have hchunks : step.chunks = c.code.map fun body => ⟨step.id, body⟩ := congrArg Step.chunks heq
  have hmem : (⟨step.id, .block b⟩ : Chunk) ∈ Script.chunksOf steps := by
    refine List.mem_flatMap.mpr ⟨step, hstep, ?_⟩
    rw [hchunks, hb]
    exact List.mem_singleton_self _
  cases hcolumns _ hmem

/-- A step without code leaves native ids alone. -/
theorem State.Sound.native_after (hs : s.Sound)
    (hrun : Step.run disk step.id step.edit s = .ok step) (hregular : step.Regular)
    (hnil : step.chunks = []) (hnative : s.Native) : step.after.Sound ∧ step.after.Native := by
  obtain ⟨⟨state, code⟩, -, hafter, hchunks, hnext, hleads⟩ := hregular.follows hs hrun
  rw [hafter]
  cases hleads with
  | idle halike =>
    exact ⟨hnext, State.Native.of_alike hs hnext (halike.weaken fun _ _ => hnative) hnative⟩
  | chunk hfits halike =>
    rw [hchunks] at hnil
    cases hnil

/-- Resets before all chunks find native ids. -/
theorem Step.ResetsFirst.resetsNative (hs : s.Sound) (hnative : s.Native) (ha : s.Accepts steps)
    (hregular : ∀ step ∈ steps, step.Regular) (hfirst : Step.ResetsFirst steps) :
    ∀ step ∈ steps, step.ResetsNative := by
  induction steps generalizing s with
  | nil => exact fun _ hmem => by cases hmem
  | cons step rest ih =>
    obtain ⟨⟨disk, -, hrun⟩, hrest⟩ := ha
    obtain ⟨hstep, hlater⟩ := List.pairwise_cons.mp hfirst
    intro later hmem hresets
    rcases List.mem_cons.mp hmem with rfl | hmem
    · rw [Step.before_eq hrun]
      exact hnative
    · obtain ⟨hsound, hafter⟩ := hs.native_after hrun (hregular step List.mem_cons_self)
        (hstep later hmem hresets) hnative
      exact ih hsound hafter hrest (fun k hk => hregular k (List.mem_cons_of_mem _ hk)) hlater later
        hmem hresets

/-- What one accepted step does, its chunks do on every desk that looks like the state
  before. -/
theorem State.Sound.lead (hs : s.Sound) (hrun : Step.run disk step.id step.edit s = .ok step)
    (hregular : step.Regular) (hids : ids → step.ResetsNative) (hd : s.desk.Alike ids d) :
    step.after.Sound ∧ d.AllRun I step.chunks ∧ (ids → d.AllFit I step.chunks)
      ∧ step.after.desk.Alike ids (d.run I step.chunks) := by
  obtain ⟨⟨state, code⟩, -, hafter, hchunks, hnext, hleads⟩ := hregular.follows hs hrun
  unfold Step.ResetsNative at hids
  rw [Step.before_eq hrun] at hids
  rw [hafter]
  cases hleads with
  | idle halike =>
    rw [hchunks]
    exact ⟨hnext, trivial, fun _ => trivial, (halike.weaken hids).symm.trans hd⟩
  | chunk hfits halike =>
    rw [hchunks]
    exact ⟨hnext, ⟨hd.runs hfits.1, trivial⟩, fun hi => ⟨hd.fits hi hfits, trivial⟩,
      (halike.weaken hids).symm.trans (hd.step _)⟩

/-- Chunks of accepted steps fit one after the other, on every desk that looks like
  the first state, and the desk looks like the last state then. -/
theorem State.Sound.leads (hs : s.Sound) (ha : s.Accepts steps)
    (hregular : ∀ step ∈ steps, step.Regular) (hids : ids → ∀ step ∈ steps, step.ResetsNative)
    (hd : s.desk.Alike ids d) :
    (s.after steps).Sound ∧ d.AllRun I (Script.chunksOf steps)
      ∧ (ids → d.AllFit I (Script.chunksOf steps))
      ∧ (s.after steps).desk.Alike ids (d.run I (Script.chunksOf steps)) := by
  induction steps generalizing s d with
  | nil => exact ⟨hs, trivial, fun _ => trivial, hd⟩
  | cons step rest ih =>
    obtain ⟨⟨disk, -, hrun⟩, hrest⟩ := ha
    obtain ⟨hsound, hruns, hfits, hdesk⟩ := hs.lead (I := I) hrun
      (hregular step List.mem_cons_self) (fun hi => hids hi step List.mem_cons_self) hd
    obtain ⟨hlast, hrunsRest, hfitsRest, halike⟩ := ih hsound hrest
      (fun later hmem => hregular later (List.mem_cons_of_mem _ hmem))
      (fun hi later hmem => hids hi later (List.mem_cons_of_mem _ hmem)) hdesk
    have hchunks : Script.chunksOf (step :: rest) = step.chunks ++ Script.chunksOf rest := by
      simp [Script.chunksOf]
    rw [State.after_cons, hchunks, Desk.run_append]
    exact ⟨hlast, (Desk.allRun_append _ _).mpr ⟨hruns, hrunsRest⟩,
      fun hi => (Desk.allFit_append _ _).mpr ⟨hfits hi, hfitsRest hi⟩, halike⟩

end Runs

/-! ### A sample

  Two tables are merged between two formulas for one column.  The merge takes the
  given columns of the first table, with the rewritten column or without it. -/

namespace Sample

/-- A table with two rows. -/
def table (name : String) (headers : List Header) : String × Frame :=
  (name, ⟨headers.map fun h => ⟨h, .int64, [.int 1, .int 2]⟩, 2⟩)

/-- Two tables with a common column. -/
def inputs : List (String × Frame) := [table "df1" ["A", "B"], table "df2" ["A", "C"]]

/-- The state of the two tables. -/
def state : State := (State.ofInputs inputs).toOption.getD {}

/-- The edits around the merge, with two renamings behind them. -/
def edits (merged : List ColumnId) : List (StepId × Edit) :=
  [(.generated 0, .restrictHeaders ⟨true⟩),
   (.generated 1, .setFormula ⟨0, ⟨"B"⟩, "=A", none⟩),
   (.generated 2, .merge ⟨.inner, 0, 1, [(⟨"A"⟩, ⟨"A"⟩)], merged, [⟨"A"⟩, ⟨"C"⟩]⟩),
   (.generated 3, .setFormula ⟨0, ⟨"B"⟩, "=A+A", none⟩),
   (.generated 4, .renameColumn ⟨1, ⟨"C"⟩, "D"⟩),
   (.generated 5, .renameColumn ⟨1, ⟨"C"⟩, "E"⟩)]

/-- The steps of the edits. -/
def steps (merged : List ColumnId) : List Step :=
  (Step.replay {} state (edits merged)).1.toOption.getD []

/-- The merge leaves the rewritten column out. -/
def partly : List Step := steps [⟨"A"⟩]

/-- The merge takes the rewritten column. -/
def wholly : List Step := steps [⟨"A"⟩, ⟨"B"⟩]

theorem initial : state.Initial := ⟨inputs, by decide, by rfl⟩

theorem accepts {merged : List ColumnId}
    (h : (Step.replay {} state (edits merged)).1.toBool = true) : state.Accepts (steps merged) :=
  State.accepts_of_replay h

/-- Either way the edits are accepted, and ids are the usual ones. -/
theorem usual : ∀ merged ∈ ([[⟨"A"⟩], [⟨"A"⟩, ⟨"B"⟩]] : List (List ColumnId)),
    (Step.replay {} state (edits merged)).1.toBool = true
      ∧ (∀ step ∈ steps merged, step.edit.usesLegacyIds = false)
      ∧ (∀ step ∈ steps merged, step.Verbatim) ∧ Step.ResetsFirst (steps merged) := by
  decide +kernel

theorem usual_partly : (Step.replay {} state (edits [⟨"A"⟩])).1.toBool = true
    ∧ (∀ step ∈ partly, step.edit.usesLegacyIds = false) ∧ (∀ step ∈ partly, step.Verbatim)
    ∧ Step.ResetsFirst partly :=
  usual _ List.mem_cons_self

theorem usual_wholly : (Step.replay {} state (edits [⟨"A"⟩, ⟨"B"⟩])).1.toBool = true
    ∧ (∀ step ∈ wholly, step.edit.usesLegacyIds = false) ∧ (∀ step ∈ wholly, step.Verbatim)
    ∧ Step.ResetsFirst wholly :=
  usual _ (List.mem_cons_of_mem _ List.mem_cons_self)

theorem accepts_partly : state.Accepts partly := accepts usual_partly.1

theorem accepts_wholly : state.Accepts wholly := accepts usual_wholly.1

theorem legacy_partly : ∀ step ∈ partly, step.edit.usesLegacyIds = false := usual_partly.2.1

theorem legacy_wholly : ∀ step ∈ wholly, step.edit.usesLegacyIds = false := usual_wholly.2.1

theorem verbatim_partly : ∀ step ∈ partly, step.Verbatim := usual_partly.2.2.1

theorem first_partly : Step.ResetsFirst partly := usual_partly.2.2.2

theorem verbatim_wholly : ∀ step ∈ wholly, step.Verbatim := usual_wholly.2.2.1

theorem first_wholly : Step.ResetsFirst wholly := usual_wholly.2.2.2

/-- Values that tell from which columns they come. -/
def origins : Interpretation (List String) where
  input _ id := [id.text]
  value _ reads := "value" :: reads.flatMap fun v => v.getD []
  retyped _ v := "type" :: v
  seen _ reads _ := reads.flatMap fun r => (r.frame.getD []).flatMap SymbolicColumn.value
  produced seen id := id.text :: seen

/-! Headers are patterns where expressions read them: of two columns the first is encoded, and the
  second, whose header matches none, is not selected again.  It stays registered and is renamed. -/

/-- A table with a header that is a pattern. -/
def unmatchedInputs : List (String × Frame) :=
  [("df1", ⟨[⟨"A", .text, [.text "x"]⟩, ⟨"^Z$", .int64, [.int 1]⟩], 1⟩)]

/-- The state of the table. -/
def unmatched : State := (State.ofInputs unmatchedInputs).toOption.getD {}

/-- The encoding of the first column and the renaming of the second. -/
def unmatchedEdits : List (StepId × Edit) :=
  [(.generated 0, .oneHot ⟨0, ⟨"A"⟩⟩), (.generated 1, .renameColumn ⟨0, ⟨"^Z$"⟩, "b"⟩)]

/-- The steps of these edits. -/
def unmatchedSteps : List Step := (Step.replay {} unmatched unmatchedEdits).1.toOption.getD []

theorem initial_unmatched : unmatched.Initial := ⟨unmatchedInputs, by decide, by rfl⟩

theorem accepts_unmatched : unmatched.Accepts unmatchedSteps :=
  State.accepts_of_replay (by decide +kernel)

theorem legacy_unmatched : ∀ step ∈ unmatchedSteps, step.edit.usesLegacyIds = false := by
  decide +kernel

theorem first_unmatched : Step.ResetsFirst unmatchedSteps := by decide +kernel

end Sample

end SheetScript
