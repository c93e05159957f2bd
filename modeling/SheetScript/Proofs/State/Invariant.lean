import SheetScript.Proofs.Steps

/-! # What every reachable state satisfies

  However a state was reached, its sheets are told apart by their names and by
  their ids, its charts hang on sheets that are there, and on every sheet the map
  from ids to headers and the map from headers to ids undo each other on exactly the
  columns of the frame.

  `Edit.follows` keeps `State.Sound` from one edit to the next, so the run lemma
  `State.Initial.sound_after` is an induction over the steps; the rest reads off
  what soundness says of names, ids, charts and columns.
-/

namespace SheetScript

/-! ### Names of variables -/

/-- A word of letters, digits and underscores that does not start with a digit and
  that the script does not reserve. -/
structure Naming.IsIdentifier (name : String) : Prop where
  word : ∃ c rest, name.toList = c :: rest ∧ (c.isAlpha = true ∨ c = '_')
    ∧ ∀ d ∈ rest, d.isAlpha = true ∨ d.isDigit = true ∨ d = '_'
  free : name ∉ Naming.keywords

theorem Naming.IsIdentifier.of_isVariableName {name : String}
    (h : Naming.isVariableName name = true) : Naming.IsIdentifier name := by
  unfold Naming.isVariableName at h
  split at h
  · cases h
  · next c rest hname =>
    simp only [Bool.and_eq_true, decide_eq_true_eq, List.all_eq_true] at h
    obtain ⟨⟨hstart, hrest⟩, hfree⟩ := h
    refine ⟨⟨c, rest, hname, ?_, ?_⟩, hfree⟩
    · simpa [Naming.isNameStart] using hstart
    · intro d hd
      have hpart := hrest d hd
      simpa [Naming.isNamePart, Char.isAlphanum, or_assoc] using hpart

/-! ### Reachable states -/

namespace State

variable {s : State} {steps : List Step}

/-- Accepted steps lead from a sound state to a sound state. -/
theorem Sound.after (hs : s.Sound) (ha : s.Accepts steps)
    (hregular : ∀ step ∈ steps, step.Regular) : (s.after steps).Sound := by
  induction steps generalizing s with
  | nil => exact hs
  | cons step rest ih =>
    obtain ⟨⟨disk, -, hrun⟩, hrest⟩ := ha
    obtain ⟨c, -, hafter, -, hfollows⟩ := (hregular step List.mem_cons_self).follows hs hrun
    have hnext : step.after.Sound := by
      rw [hafter]
      exact hfollows.sound
    rw [after_cons]
    exact ih hnext hrest fun later hmem => hregular later (List.mem_cons_of_mem _ hmem)

/-- In every state that accepted steps lead to from named tables, names and ids tell
  the sheets apart, charts belong to sheets, and the columns that are registered are
  those of the frames, as long as no header is a pattern where a step selects columns by
  expressions. -/
theorem Initial.invariant_after (hs : s.Initial) (ha : s.Accepts steps)
    (hlegacy : ∀ step ∈ steps, step.edit.usesLegacyIds = false)
    (hverbatim : ∀ step ∈ steps, step.Verbatim) :
    let last := s.after steps
    last.names.Nodup
      ∧ (∀ name ∈ last.names, Naming.IsIdentifier name)
      ∧ (last.sheets.map Sheet.id).Nodup
      ∧ (∀ sh ∈ last.sheets, sh.id.number < last.nextId)
      ∧ (∀ chart ∈ last.charts, ∃ sh ∈ last.sheets, sh.id = chart.2.sheet)
      ∧ ∀ sh ∈ last.sheets,
          sh.frame.headers.Nodup
            ∧ (∀ id h, sh.columns.header? id = some h ↔ sh.columns.id? h = some id)
            ∧ (∀ h, h ∈ sh.frame.headers ↔ ∃ id, sh.columns.id? h = some id)
            ∧ (∀ id, sh.columns.contains id = true → id ∈ sh.columns.issued)
            ∧ (∀ id ∈ Dictionary.keys sh.formulas, sh.columns.contains id = true) := by
  intro last
  obtain ⟨hsound, -⟩ := hs.sound_native
  have hlast : last.Sound := hsound.after ha fun step hmem =>
    .of_native (hlegacy step hmem) (hverbatim step hmem)
  refine ⟨hlast.names, ?_, hlast.ids, hlast.below, hlast.charts, ?_⟩
  · intro name hname
    obtain ⟨sh, hsh, rfl⟩ := mem_names.mp hname
    exact .of_isVariableName (hlast.named sh hsh)
  · intro sh hsh
    have hsheet := hlast.sheets sh hsh
    refine ⟨hsheet.headers, fun id h => hsheet.columns.inverse, fun h => ?_, fun id hid => ?_,
      hsheet.formulas⟩
    · rw [← Option.isSome_iff_exists]
      exact hsheet.columns.live.symm
    · obtain ⟨h, hh⟩ := ColumnIds.contains_iff.mp hid
      exact hsheet.columns.issued hh

end State

/-! ### A sample

  A header that old analyses did not allow is restricted, so its column gets another
  id and takes its formula along; a row of the other table becomes its headers while
  the ids stay; a reserved word is asked for as a name. -/

namespace Sample

/-- Two tables, the first of which has a blank in a header. -/
def ledger : List (String × Frame) :=
  [("sales", ⟨[⟨"day", .int64, [.int 1, .int 2]⟩, ⟨"net value", .int64, [.int 5, .int 6]⟩], 2⟩),
   ("rates", ⟨[⟨"day", .int64, [.int 3, .int 1]⟩, ⟨"rate", .text, [.text "x", .text "y"]⟩], 2⟩)]

/-- The state of the ledger. -/
def ledgerState : State := (State.ofInputs ledger).toOption.getD {}

/-- Edits that change ids, headers, names, formulas and charts. -/
def ledgerEdits : List (StepId × Edit) :=
  [(.generated 0, .setFormula ⟨0, ⟨"net value"⟩, "=day+`net value`", none⟩),
   (.generated 1, .drawChart { key := "bars", kind := .bar, sheet := 1 }),
   (.generated 2, .restrictHeaders ⟨false⟩),
   (.generated 3, .promoteRow ⟨1, 0⟩),
   (.generated 4, .duplicateSheet ⟨0⟩),
   (.generated 5, .renameSheet ⟨2, "for"⟩),
   (.generated 6, .deleteSheet ⟨0⟩)]

/-- The steps of these edits. -/
def ledgerSteps : List Step := (Step.replay {} ledgerState ledgerEdits).1.toOption.getD []

end Sample

theorem State.Initial.invariant_after_ledger :
    let last := Sample.ledgerState.after Sample.ledgerSteps
    Sample.ledgerState.Initial ∧ Sample.ledgerState.Accepts Sample.ledgerSteps
      ∧ (∀ step ∈ Sample.ledgerSteps, step.edit.usesLegacyIds = false)
      ∧ (∀ step ∈ Sample.ledgerSteps, step.Verbatim)
      ∧ last.names = ["rates", "for_df"]
      ∧ last.sheets.map Sheet.headers = [["3", "x"], ["day", "net_value"]]
      ∧ last.sheets.map Sheet.columnIds = [[⟨"day"⟩, ⟨"rate"⟩], [⟨"day"⟩, ⟨"net_value"⟩]]
      ∧ last.names.Nodup
      ∧ (∀ name ∈ last.names, Naming.IsIdentifier name)
      ∧ (last.sheets.map Sheet.id).Nodup
      ∧ (∀ sh ∈ last.sheets, sh.id.number < last.nextId)
      ∧ (∀ chart ∈ last.charts, ∃ sh ∈ last.sheets, sh.id = chart.2.sheet)
      ∧ ∀ sh ∈ last.sheets,
          sh.frame.headers.Nodup
            ∧ (∀ id h, sh.columns.header? id = some h ↔ sh.columns.id? h = some id)
            ∧ (∀ h, h ∈ sh.frame.headers ↔ ∃ id, sh.columns.id? h = some id)
            ∧ (∀ id, sh.columns.contains id = true → id ∈ sh.columns.issued)
            ∧ (∀ id ∈ Dictionary.keys sh.formulas, sh.columns.contains id = true) := by
  have hinitial : Sample.ledgerState.Initial := ⟨Sample.ledger, by decide, by rfl⟩
  have haccepts : Sample.ledgerState.Accepts Sample.ledgerSteps := State.accepts_of_replay
    (by decide +kernel)
  have hlegacy : ∀ step ∈ Sample.ledgerSteps, step.edit.usesLegacyIds = false := by
    decide +kernel
  have hverbatim : ∀ step ∈ Sample.ledgerSteps, step.Verbatim := by decide +kernel
  exact ⟨hinitial, haccepts, hlegacy, hverbatim, by decide +kernel, by decide +kernel,
    by decide +kernel, State.Initial.invariant_after hinitial haccepts hlegacy hverbatim⟩

/-- A column whose header is a pattern can be lost to an encoding of another one: it is
  registered under its id and stands in no frame. -/
theorem State.Initial.invariant_after_unmatched :
    let encoded := Sample.unmatchedSteps.take 1
    Sample.unmatched.Initial ∧ Sample.unmatched.Accepts encoded
      ∧ (∀ step ∈ encoded, step.edit.usesLegacyIds = false)
      ∧ (Sample.unmatched.after encoded).sheets.map
          (fun sh => (sh.frame.headers, sh.columns.id? "^Z$"))
        = [(["A", "x"], some ⟨"^Z$"⟩)] := by
  exact ⟨Sample.initial_unmatched, Sample.accepts_unmatched.take 1,
    fun step hstep => Sample.legacy_unmatched step (List.mem_of_mem_take hstep),
    by decide +kernel⟩

end SheetScript
