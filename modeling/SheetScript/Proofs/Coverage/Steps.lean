import SheetScript.Proofs.Coverage.LegacyHeaders
import SheetScript.Proofs.Steps

/-! # Footprints cover what steps do

  The footprints of a step's chunks say all that other chunks have to know about it.
  They name every sheet and column that the step changes, and every column on which
  its outcome depends.

  - `Edit.covered`: one edit is covered by its code, kind by kind.
  - `State.Linked.after`: ids stay linked along accepted steps, also where an import
    under legacy ids gives two columns of a sheet one id.
  - `State.Initial.footprints_cover`: so the chunks of every step that is accepted
    after some others cover the step.

  Expressions take headers that are patterns for other columns than the footprints say,
  so the headers before a step that reads columns by expressions must not be patterns.
-/

namespace SheetScript

namespace Edit

/-- Whether the outcome is made of columns that their headers stand for in expressions, and not
  of a whole sheet. -/
def readsByName : Edit → Bool
  | .setFormula _ | .changeType _ | .merge _ | .pivot _ => true
  | _ => false

/-- An accepted edit is covered by its code. -/
theorem covered {e : Edit} {d : Disk} {s : State} {c : Change} (hs : s.Linked)
    (h : e.change d s = .ok c)
    (hverbatim : e.selectsByName = true → s.Verbatim ∧ c.state.Verbatim) :
    c.Covered (e.readsByName = true → s.Verbatim) (fun t => e.change d t) s := by
  cases e with
  | importFiles e => exact ImportFiles.covered hs h
  | addColumn e => exact AddColumn.covered hs h
  | deleteColumns e => exact DeleteColumns.covered hs h
  | renameColumn e => exact RenameColumn.covered hs h
  | moveColumn e => exact MoveColumn.covered hs h
  | setFormula e => exact (SetFormula.covered hs h).weaken fun hread => hread rfl
  | changeType e => exact (ChangeType.covered hs h).weaken fun hread => hread rfl
  | filterRows e => exact FilterRows.covered hs h
  | sortRows e => exact SortRows.covered hs h
  | pivot e =>
    exact (Pivot.covered hs (fun hd => (hverbatim hd).1) h).weaken fun hread => hread rfl
  | merge e => exact (Merge.covered hs h).weaken fun hread => hread rfl
  | oneHot e => exact OneHot.covered hs (hverbatim rfl).1 (hverbatim rfl).2 h
  | promoteRow e => exact PromoteRow.covered hs h
  | duplicateSheet e => exact DuplicateSheet.covered hs h
  | deleteSheet e => exact DeleteSheet.covered hs h
  | renameSheet e => exact RenameSheet.covered hs h
  | formatSheet e => exact FormatSheet.covered hs h
  | drawChart e => exact DrawChart.covered hs h
  | exportSheets e => exact ExportSheets.covered hs h
  | restrictHeaders e => exact RestrictHeaders.covered hs h

end Edit

namespace State

variable {s : State} {steps : List Step}

theorem Sound.linked (hs : s.Sound) : s.Linked where
  ids := hs.ids
  below := hs.below
  sheets := fun sh hsh => ⟨(hs.sheets sh hsh).headers, (hs.sheets sh hsh).columns.linked⟩

/-- Accepted steps keep ids linked. -/
theorem Linked.after (hs : s.Linked) (ha : s.Accepts steps)
    (hverbatim : ∀ step ∈ steps, step.Verbatim) : (s.after steps).Linked := by
  induction steps generalizing s with
  | nil => exact hs
  | cons step rest ih =>
    obtain ⟨⟨disk, -, hrun⟩, hrest⟩ := ha
    obtain ⟨hstep, hlater⟩ := List.forall_mem_cons.mp hverbatim
    obtain ⟨c, hc, hsame⟩ := Step.run_eq_ok hrun
    have hafter : step.after = c.state := by rw [hsame]
    have hnext : step.after.Linked := by
      rw [hafter]
      exact (Edit.covered hs hc (hstep.of_change hrun hc)).linked
    rw [after_cons]
    exact ih hnext hrest hlater

/-- The chunks of a step that is accepted after some others, from named tables, cover
  what it does.  Sheets that no chunk touches keep their names and frames; on touched
  sheets that survive, columns that no chunk writes keep their headers and cells; and on
  a state that differs only in cells of columns that the chunks neither read nor write
  the step is accepted with the same chunks, and its outcome differs only there.

  No header is a pattern where columns are selected by expressions, nor, for the last, where
  they are read by expressions. -/
theorem Initial.footprints_cover {d : Disk} {id : StepId} {e : Edit} {step : Step}
    (hs : s.Initial) (ha : s.Accepts steps) (hbefore : ∀ step ∈ steps, step.Verbatim)
    (hrun : Step.run d id e (s.after steps) = .ok step) (hstep : step.Verbatim) :
    let before := s.after steps
    let code := step.chunks.map Chunk.body
    (∀ sh ∈ before.sheets, ¬ Code.Touches code sh.id →
        ∃ sk ∈ step.after.sheets, sk.id = sh.id ∧ sk.name = sh.name ∧ sk.frame = sh.frame)
      ∧ (∀ sh ∈ before.sheets, ∀ sk ∈ step.after.sheets, sk.id = sh.id →
          Code.Touches code sh.id → sh.Retains (Code.Leaves code sh.id) sk)
      ∧ ((e.readsByName = true → before.Verbatim) →
          ∀ other, before.AlikeBut (Code.Spares code) other →
          ∃ again, Step.run d id e other = .ok again ∧ again.chunks = step.chunks
            ∧ step.after.AlikeBut (Code.Spares code) again.after) := by
  intro before code
  obtain ⟨hsound, -⟩ := hs.sound_native
  obtain ⟨c, hc, hsame⟩ := Step.run_eq_ok hrun
  have hlinked := hsound.linked.after ha hbefore
  have hcovered := Edit.covered hlinked hc (hstep.of_change hrun hc)
  have hcode : code = c.code := by
    show step.chunks.map Chunk.body = c.code
    rw [hsame, List.map_map]
    exact List.map_id' c.code
  have hafter : step.after = c.state := by rw [hsame]
  rw [hcode, hafter]
  refine ⟨hcovered.untouched, hcovered.unwritten, fun hread other hother => ?_⟩
  obtain ⟨again, hagain, hchunks, halike⟩ := hcovered.determined hread other hother
  refine ⟨⟨id, e, other, again.state, again.code.map fun body => ⟨id, body⟩⟩, ?_, ?_, halike⟩
  · simp only [Step.run, bind_eq_ok, pure_eq_ok]
    exact ⟨again, hagain, rfl⟩
  · rw [hsame, hchunks]

end State

/-! ### A sample

  The merge of the two tables takes over all but the second column of the first one,
  whose cells make no difference. -/

namespace Sample

/-- The steps before the merge. -/
def unmerged : List Step := partly.take 2

/-- The merge that leaves the second column of the first table out. -/
def merging : Edit := .merge ⟨.inner, 0, 1, [(⟨"A"⟩, ⟨"A"⟩)], [⟨"A"⟩], [⟨"A"⟩, ⟨"C"⟩]⟩

/-- The step of the merge. -/
def merged : Step :=
  (Step.run {} (.generated 2) merging (state.after unmerged)).toOption.getD default

/-- The state before the merge, with other cells in that column. -/
def otherwise : State :=
  let before := state.after unmerged
  { before with sheets := before.sheets.map fun sh =>
    { sh with frame := { sh.frame with columns := sh.frame.columns.map fun c =>
      if c.header = "B" then { c with cells := [.int 7, .int 8] } else c } } }

theorem footprints_merged : (merged.chunks.map Chunk.body).map ChunkBody.footprint =
    [{ reads := [(⟨0⟩, .only [⟨"A"⟩]), (⟨1⟩, .only [⟨"A"⟩, ⟨"C"⟩])]
       creates := [⟨2⟩]
       binds := [.variable "df_merge"] }] := by
  decide +kernel

/-- The second column of the first table is neither read nor written. -/
theorem spares_merged : Code.Spares (merged.chunks.map Chunk.body) ⟨0⟩ ⟨"B"⟩ := by
  intro b hb c hc
  have hfoot := List.mem_map_of_mem (f := ChunkBody.footprint) hb
  rw [footprints_merged, List.mem_singleton] at hfoot
  rw [hfoot] at hc
  simp [Footprint.Accesses, Footprint.effectiveWrites, Dictionary.insert] at hc
  exact ⟨_, hc, by decide⟩

/-- The states differ in that column only. -/
theorem alike_otherwise : (state.after unmerged).AlikeBut
    (Code.Spares (merged.chunks.map Chunk.body)) otherwise := by
  have hsheets : ∀ sh ∈ (state.after unmerged).sheets, ∀ c ∈ sh.frame.columns,
      c.header = "B" → sh.id = ⟨0⟩ ∧ sh.columns.id? "B" = some ⟨"B"⟩ ∧ c.cells.length = 2 := by
    decide +kernel
  refine ⟨rfl, ?_⟩
  unfold otherwise
  rw [List.forall₂_map_right_iff, List.forall₂_same]
  intro sh hsh
  refine .of_frame ⟨rfl, ?_⟩
  rw [List.forall₂_map_right_iff, List.forall₂_same]
  intro c hc
  split
  · next hheader =>
    obtain ⟨hid, hcolumn, hlength⟩ := hsheets sh hsh c hc hheader
    refine ⟨rfl, rfl, hlength.symm, .inl ⟨⟨"B"⟩, ?_, ?_⟩⟩
    · rw [hheader, hcolumn]
    · rw [hid]
      exact spares_merged
  · exact .refl c

end Sample

theorem State.Initial.footprints_cover_merged :
    let before := Sample.state.after Sample.unmerged
    let code := Sample.merged.chunks.map Chunk.body
    Sample.state.Initial ∧ Sample.state.Accepts Sample.unmerged
      ∧ (∀ step ∈ Sample.unmerged, step.Verbatim)
      ∧ Step.run {} (.generated 2) Sample.merging before = .ok Sample.merged
      ∧ Sample.merged.Verbatim
      ∧ Sample.otherwise.sheets.map Sheet.frame ≠ before.sheets.map Sheet.frame
      ∧ before.Verbatim ∧ before.AlikeBut (Code.Spares code) Sample.otherwise
      ∧ (∀ sh ∈ before.sheets, ¬ Code.Touches code sh.id →
        ∃ sk ∈ Sample.merged.after.sheets, sk.id = sh.id ∧ sk.name = sh.name
          ∧ sk.frame = sh.frame)
      ∧ (∀ sh ∈ before.sheets, ∀ sk ∈ Sample.merged.after.sheets, sk.id = sh.id →
          Code.Touches code sh.id → sh.Retains (Code.Leaves code sh.id) sk)
      ∧ ∃ again, Step.run {} (.generated 2) Sample.merging Sample.otherwise = .ok again
          ∧ again.chunks = Sample.merged.chunks
          ∧ Sample.merged.after.AlikeBut (Code.Spares code) again.after := by
  have haccepts : Sample.state.Accepts Sample.unmerged := Sample.accepts_partly.take 2
  have hbefore : ∀ step ∈ Sample.unmerged, step.Verbatim := fun step hstep =>
    Sample.verbatim_partly step (List.mem_of_mem_take hstep)
  have hrun : Step.run {} (.generated 2) Sample.merging (Sample.state.after Sample.unmerged)
      = .ok Sample.merged := eq_ok_of_toBool (by decide +kernel) default
  have hstep : Sample.merged.Verbatim := by decide +kernel
  have hread : (Sample.state.after Sample.unmerged).Verbatim := by decide +kernel
  obtain ⟨huntouched, hunwritten, hdetermined⟩ :=
    State.Initial.footprints_cover Sample.initial haccepts hbefore hrun hstep
  exact ⟨Sample.initial, haccepts, hbefore, hrun, hstep, by decide +kernel, hread,
    Sample.alike_otherwise, huntouched, hunwritten,
    hdetermined (fun _ => hread) Sample.otherwise Sample.alike_otherwise⟩

namespace Sample

/-- The step of the encoding. -/
def encoded : Step :=
  (Step.run {} (.generated 0) (.oneHot ⟨0, ⟨"A"⟩⟩) unmatched).toOption.getD default

theorem footprints_encoded : (encoded.chunks.map Chunk.body).map ChunkBody.footprint =
    [{ reads := [(⟨0⟩, .all)], writes := [(⟨0⟩, .only [⟨"x"⟩])], binds := [.variable "df1"] }] := by
  decide +kernel

end Sample

/-- A column whose header is a pattern can be lost to an encoding of another one: the code says
  that it writes the new column only. -/
theorem State.Initial.footprints_cover_encoded :
    let code := Sample.encoded.chunks.map Chunk.body
    Sample.unmatched.Initial
      ∧ Step.run {} (.generated 0) (.oneHot ⟨0, ⟨"A"⟩⟩) Sample.unmatched = .ok Sample.encoded
      ∧ Code.Touches code ⟨0⟩ ∧ Code.Leaves code ⟨0⟩ ⟨"^Z$"⟩
      ∧ Sample.unmatched.sheets.map (fun sh => (sh.id, sh.columns.id? "^Z$", sh.headers))
        = [(⟨0⟩, some ⟨"^Z$"⟩, ["A", "^Z$"])]
      ∧ Sample.encoded.after.sheets.map (fun sh => (sh.id, sh.headers)) = [(⟨0⟩, ["A", "x"])] := by
  have hwrites : ∀ b ∈ Sample.encoded.chunks.map Chunk.body,
      b.footprint.effectiveWrites = [(⟨0⟩, .only [⟨"x"⟩])] := by
    intro b hb
    have hmem := List.mem_map_of_mem (f := ChunkBody.footprint) hb
    rw [Sample.footprints_encoded, List.mem_singleton] at hmem
    rw [hmem]
    decide
  have hsome : Sample.encoded.chunks.map Chunk.body ≠ [] := by decide +kernel
  refine ⟨Sample.initial_unmatched, eq_ok_of_toBool (by decide +kernel) default, ?_, ?_,
    by decide +kernel, by decide +kernel⟩
  · obtain ⟨b, hb⟩ := List.exists_mem_of_ne_nil _ hsome
    exact ⟨b, hb, by rw [Footprint.touched, hwrites b hb]; decide⟩
  · intro b hb c hc
    rw [hwrites b hb, List.mem_singleton] at hc
    obtain rfl : c = .only [⟨"x"⟩] := congrArg Prod.snd hc
    exact ⟨_, rfl, by decide⟩

end SheetScript
