import SheetScript.Proofs.Desk.Simulation
import SheetScript.Proofs.Steps
import SheetScript.Symbolic.Verification

/-! # The chunks play the session back

  On the machine the chunks of accepted steps run without a fault and leave what
  the steps left: every sheet of the last state under its name, with its headers,
  and nothing else.

  The desk that the machine shows looks like the last state, so what the machine
  holds is read off sheet by sheet.
-/

namespace SheetScript

open Symbolic

/-! ### What the machine of a state holds -/

namespace Symbolic.Shows

variable {τ : Type} {m : Machine τ} {d : Desk τ} {s : State} {ids : Prop} {n : String}
  {t : SheetId} {o : Nat}

/-- Every sheet of the state is there, under its name. -/
theorem sheet (h : Shows m d) (hs : s.Sound) (hd : s.desk.Alike ids d) {sh : Sheet}
    (hsh : sh ∈ s.sheets) :
    ∃ o, Dictionary.get? m.bindings sh.name = some o ∧ Dictionary.get? m.sheets sh.id = some o
      ∧ (m.frame o).map SymbolicColumn.header = sh.headers := by
  obtain ⟨x, hx, hname, hframes⟩ := hd.table (hs.desk_sheet hsh)
  obtain ⟨o, ho, hbound, -⟩ := h.table hx
  refine ⟨o, ?_, ho, ?_⟩
  · rw [← hname] at hbound
    exact hbound
  · rw [h.frame_eq hx ho]
    have hheaders := FramesAlike.headers_eq hframes
    rw [(hs.sheets sh hsh).table_headers] at hheaders
    exact hheaders.symm

/-- No sheet is there that the state does not have. -/
theorem sheet_of_live (h : Shows m d) (hs : s.Sound) (hd : s.desk.Alike ids d)
    (ho : Dictionary.get? m.sheets t = some o) : ∃ sh ∈ s.sheets, sh.id = t := by
  obtain ⟨x, hx⟩ := h.live ho
  obtain ⟨y, hy, -⟩ := hd.symm.table hx
  obtain ⟨sh, hsh, hid, -⟩ := hs.desk_eq_some.mp hy
  exact ⟨sh, hsh, hid⟩

/-- The variables are the names of the sheets. -/
theorem mem_bindings (h : Shows m d) (hs : s.Sound) (hd : s.desk.Alike ids d) :
    n ∈ Dictionary.keys m.bindings ↔ n ∈ s.names := by
  rw [← Dictionary.get?_isSome_iff, Option.isSome_iff_exists]
  constructor
  · rintro ⟨o, ho⟩
    obtain ⟨t, x, hx, rfl, -⟩ := h.bound ho
    obtain ⟨y, hy, hname, -⟩ := hd.symm.table hx
    obtain ⟨sh, hsh, -, rfl⟩ := hs.desk_eq_some.mp hy
    exact State.mem_names.mpr ⟨sh, hsh, hname.symm⟩
  · intro hn
    obtain ⟨sh, hsh, rfl⟩ := State.mem_names.mp hn
    obtain ⟨o, hbound, -⟩ := h.sheet hs hd hsh
    exact ⟨o, hbound⟩

/-- The frames of all sheets are bound. -/
theorem isBound (h : Shows m d) {e : SheetId × Nat} (he : e ∈ m.sheets) : m.isBound e.2 = true := by
  have ho := h.sheets.get?_eq_some_iff.mpr he
  obtain ⟨x, hx⟩ := h.live ho
  unfold Machine.isBound
  rw [decide_eq_true_iff]
  exact Dictionary.mem_values.mpr ⟨x.name, Dictionary.mem_of_get? (h.held hx ho).1⟩

/-- The headers on the machine are those of the sheets. -/
theorem layout_eq (h : Shows m d) (hs : s.Sound) (hd : s.desk.Alike ids d) :
    ((m.sheets.filter fun e => m.isBound e.2).map fun e =>
        (e.1, (m.frame e.2).map SymbolicColumn.header))
      = Dictionary.ofList (s.sheets.map fun sh => (sh.id, sh.headers)) := by
  rw [List.filter_eq_self.mpr fun e he => h.isBound he]
  show Dictionary.mapValues (fun o => (m.frame o).map SymbolicColumn.header) m.sheets = _
  refine Dictionary.ext_get? (h.sheets.mapValues _) (Dictionary.ascending_ofList _) fun t => ?_
  rw [Dictionary.get?_ofList_map _ hs.ids, Dictionary.get?_mapValues]
  cases hfind : s.sheets.find? fun sh => sh.id = t with
  | some sh =>
    obtain rfl : sh.id = t := by simpa using List.find?_some hfind
    obtain ⟨o, -, ho, hheaders⟩ := h.sheet hs hd (List.mem_of_find?_eq_some hfind)
    rw [ho, Option.map_some, Option.map_some, hheaders]
  | none =>
    cases ho : Dictionary.get? m.sheets t with
    | none => rfl
    | some o =>
      obtain ⟨sh, hsh, hid⟩ := h.sheet_of_live hs hd ho
      simpa [hid] using List.find?_eq_none.mp hfind sh hsh

end Symbolic.Shows

/-! ### Playing steps back -/

variable {τ : Type} {s : State} {steps : List Step}

/-- A machine that ran the chunks of accepted steps shows a desk that looks like the
  last state. -/
theorem State.Initial.shows (I : Interpretation τ) (hs : s.Initial) (ha : s.Accepts steps)
    (hregular : ∀ step ∈ steps, step.Regular) :
    (s.after steps).Sound ∧ ∃ d : Desk τ, (s.after steps).desk.Alike False d
      ∧ Shows (Machine.run I s.inputLayout (Script.chunksOf steps)) d := by
  obtain ⟨hsound, -⟩ := hs.sound_native
  have hlooks : s.desk.Alike True (Desk.ofLayout I s.inputLayout) := hsound.desk_layout
  -- ids may be reset at any time, so the desk and the state need not agree on them
  obtain ⟨hlast, hruns, -, halike⟩ := hsound.leads (I := I) ha
    hregular False.elim (hlooks.weaken False.elim)
  exact ⟨hlast, _, halike, (hsound.starts.1.run (hlooks.tidy hsound.tidy) hruns).1⟩

/-- The chunks of accepted steps run without a fault and bind exactly the names of the
  last state, each to the frame of its sheet; the layout has an entry for each sheet. -/
theorem Script.chunks_simulate (I : Interpretation τ) (hs : s.Initial) (ha : s.Accepts steps)
    (hlegacy : ∀ step ∈ steps, step.edit.usesLegacyIds = false)
    (hverbatim : ∀ step ∈ steps, step.Verbatim) :
    let last := s.after steps
    let m := Machine.run I s.inputLayout (Script.chunksOf steps)
    m.faults = []
      ∧ (∀ n, n ∈ Dictionary.keys m.bindings ↔ n ∈ last.names)
      ∧ (∀ sh ∈ last.sheets, ∃ o, Dictionary.get? m.bindings sh.name = some o
          ∧ Dictionary.get? m.sheets sh.id = some o
          ∧ (m.frame o).map SymbolicColumn.header = sh.headers)
      ∧ (last.sheets.map Sheet.id).Nodup
      ∧ columnLayout s.inputLayout (Script.chunksOf steps)
          = .ok (Dictionary.ofList (last.sheets.map fun sh => (sh.id, sh.headers))) := by
  intro last m
  have hregular : ∀ step ∈ steps, step.Regular := fun step hmem =>
    .of_native (hlegacy step hmem) (hverbatim step hmem)
  obtain ⟨hlast, d, hd, hshow⟩ := hs.shows I ha hregular
  obtain ⟨-, e, he, hprint⟩ := hs.shows Fingerprint.interpretation ha hregular
  refine ⟨hshow.faults, fun n => hshow.mem_bindings hlast hd, fun sh hsh => hshow.sheet hlast hd hsh,
    hlast.ids, ?_⟩
  unfold columnLayout
  dsimp only
  rw [hprint.faults]
  exact congrArg Except.ok (hprint.layout_eq hlast he)

theorem Script.chunks_simulate_wholly :
    let last := Sample.state.after Sample.wholly
    let m := Machine.run Sample.origins Sample.state.inputLayout (chunksOf Sample.wholly)
    Sample.state.Initial ∧ Sample.state.Accepts Sample.wholly
      ∧ (∀ step ∈ Sample.wholly, step.edit.usesLegacyIds = false)
      ∧ (∀ step ∈ Sample.wholly, step.Verbatim)
      ∧ last.names = ["df1", "df2", "df_merge"]
      ∧ last.sheets.map Sheet.headers = [["A", "B"], ["A", "E"], ["A", "B", "C"]]
      ∧ m.faults = []
      ∧ (∀ n, n ∈ Dictionary.keys m.bindings ↔ n ∈ last.names)
      ∧ (∀ sh ∈ last.sheets, ∃ o, Dictionary.get? m.bindings sh.name = some o
          ∧ Dictionary.get? m.sheets sh.id = some o
          ∧ (m.frame o).map SymbolicColumn.header = sh.headers)
      ∧ (last.sheets.map Sheet.id).Nodup
      ∧ columnLayout Sample.state.inputLayout (chunksOf Sample.wholly)
          = .ok (Dictionary.ofList (last.sheets.map fun sh => (sh.id, sh.headers))) := by
  exact ⟨Sample.initial, Sample.accepts_wholly, Sample.legacy_wholly, Sample.verbatim_wholly,
    by decide +kernel, by decide +kernel,
    chunks_simulate Sample.origins Sample.initial Sample.accepts_wholly Sample.legacy_wholly
      Sample.verbatim_wholly⟩

/-- The chunks of accepted steps fault where a step selects a header that is a pattern: the
  column `^Z$` is encoded away and renamed afterwards, and the layout is an error. -/
theorem Script.chunks_simulate_unmatched :
    let chunks := chunksOf Sample.unmatchedSteps
    Sample.unmatched.Initial ∧ Sample.unmatched.Accepts Sample.unmatchedSteps
      ∧ (∀ step ∈ Sample.unmatchedSteps, step.edit.usesLegacyIds = false)
      ∧ (Machine.run Sample.origins Sample.unmatched.inputLayout chunks).faults ≠ []
      ∧ (columnLayout Sample.unmatched.inputLayout chunks).toBool = false := by
  exact ⟨Sample.initial_unmatched, Sample.accepts_unmatched, Sample.legacy_unmatched,
    by decide +kernel, by decide +kernel⟩

end SheetScript
