import SheetScript.Proofs.RestrictedHeaders
import SheetScript.Proofs.Reshaping
import SheetScript.Proofs.State.Invariant

/-! # Sheets that an edit does not declare

  Every edit declares the indexes of the sheets that it writes, from its parameters
  alone.  It puts another sheet in the place of a declared one, takes a declared one
  out, or adds sheets at the end.  Only the edit that restricts headers declares
  nothing and goes through all sheets.

  - `RestrictHeaders.sheetAfter_eq_self_iff`: when restricting leaves a sheet alone.
  - `State.Initial.undeclared_untouched`: the sheets that are not declared survive
    every edit, in their order and before all new ones, and are the same exactly if
    no header had to be restricted.
-/

namespace SheetScript

/-! ### Restricting headers -/

namespace RestrictHeaders

open Naming (legacyHeader)

variable {e : RestrictHeaders} {sheet after : Sheet} {rs : List Renaming} {taken rest : List Header}

theorem renamings_of_legacy (hlegal : ∀ h ∈ rest, legacyHeader h = h) :
    renamings taken rest = [] := by
  induction rest with
  | nil => rfl
  | cons h rest ih =>
    rw [List.forall_mem_cons] at hlegal
    rw [renamings, if_pos hlegal.1, ih hlegal.2]

/-- A sheet stays as it is exactly if no header has to be restricted and, where ids are
  reset, the ids and formulas are those that come out. -/
theorem sheetAfter_eq_self_iff (h : e.sheetAfter sheet = .ok (after, rs)) :
    after = sheet ↔ (∀ h ∈ sheet.headers, legacyHeader h = h)
      ∧ (e.resetsIds = true →
        reset sheet.headers (sheet.columns, sheet.formulas) = (sheet.columns, sheet.formulas)) := by
  unfold sheetAfter at h
  dsimp only at h
  by_cases hlegal : ∀ h ∈ sheet.headers, legacyHeader h = h
  · rw [renamings_of_legacy hlegal] at h
    cases hresets : e.resetsIds with
    | false =>
      simp only [hresets, List.isEmpty_nil, Bool.not_false, Bool.and_self, if_true, pure_eq_ok,
        Prod.mk.injEq] at h
      obtain ⟨rfl, -⟩ := h
      refine iff_of_true rfl ⟨hlegal, fun htrue => ?_⟩
      cases htrue
    | true =>
      simp only [hresets, List.isEmpty_nil, Bool.not_true, Bool.and_false, Bool.false_eq_true,
        if_false, if_true, List.foldl_nil, bind_eq_ok, pure_eq_ok, Prod.mk.injEq] at h
      obtain ⟨frame, hframe, rfl, -⟩ := h
      obtain rfl : frame = sheet.frame := Frame.eq_of_withHeaders hframe fun _ => rfl
      constructor
      · intro hsame
        have hcolumns := congrArg Sheet.columns hsame
        have hformulas := congrArg Sheet.formulas hsame
        exact ⟨hlegal, fun _ => Prod.ext hcolumns hformulas⟩
      · rintro ⟨-, hsame⟩
        have hlabels := hsame rfl
        show ({ sheet with
          columns := (reset sheet.headers (sheet.columns, sheet.formulas)).1
          formulas := (reset sheet.headers (sheet.columns, sheet.formulas)).2 } : Sheet) = sheet
        rw [hlabels]
  · -- the header that has to be restricted is another one afterwards
    obtain ⟨k, hk, hother⟩ : ∃ k ∈ sheet.headers, legacyHeader k ≠ k := by simpa using hlegal
    have hchanged : renamed (renamings sheet.headers sheet.headers) k ≠ k := fun he =>
      hother (he ▸ legacy_renamed hk)
    have hnonempty : renamings sheet.headers sheet.headers ≠ [] := fun hnil =>
      hchanged (by rw [hnil, renamed_nil])
    simp only [List.isEmpty_eq_false_iff.mpr hnonempty, Bool.false_and, Bool.false_eq_true, if_false,
      bind_eq_ok, pure_eq_ok, Prod.mk.injEq] at h
    obtain ⟨frame, hframe, rfl, -⟩ := h
    refine ⟨fun hsame => absurd ?_ hchanged, fun hboth => absurd hboth.1 hlegal⟩
    have hheaders : frame.headers = sheet.headers := congrArg Sheet.headers hsame
    rw [(Frame.headers_withHeaders hframe).1] at hheaders
    exact List.map_inj_left.mp (hheaders.trans (List.map_id _).symm) k hk

end RestrictHeaders

/-! ### Survivors -/

namespace Edit

/-- Whether a sheet that the edit does not declare stays as it is.  Only an edit that
  restricts headers can change such a sheet: headers that are not restricted yet, and
  ids and formulas that do not follow the headers where ids are reset. -/
def Leaves (sheet : Sheet) : Edit → Prop
  | .restrictHeaders e => (∀ h ∈ sheet.headers, Naming.legacyHeader h = h)
      ∧ (e.resetsIds = true → RestrictHeaders.reset sheet.headers (sheet.columns, sheet.formulas)
          = (sheet.columns, sheet.formulas))
  | _ => True

/-- Some sheets of a state survive an edit, in their order, and other sheets are new. -/
structure Keeps (e : Edit) (s : State) (survivors new : List Sheet) : Prop where
  order : (survivors.map Sheet.id).Sublist (s.sheets.map Sheet.id)
  /-- New sheets have ids that were not handed out before. -/
  fresh : ∀ sheet ∈ new, sheet.id ∉ s.sheets.map Sheet.id ∧ s.nextId ≤ sheet.id.number
  /-- A sheet that is not declared survives under its id, and it is the same exactly if
  the edit leaves it as it is. -/
  undeclared : ∀ i sheet, s.sheets[i]? = some sheet → i ∉ e.editedSheets →
    ∃ sk ∈ survivors, sk.id = sheet.id ∧ (sk = sheet ↔ e.Leaves sheet)

variable {e : Edit} {s t : State}

namespace Keeps

theorem of_rewritesAt {i : Nat} (h : s.RewritesAt i t) (hi : i ∈ e.editedSheets)
    (hleaves : ∀ sheet, e.Leaves sheet) : e.Keeps s t.sheets [] where
  order := by rw [h.ids]
  fresh := fun _ hnew => absurd hnew List.not_mem_nil
  undeclared := by
    intro j sheet hsheet hj
    have hne : j ≠ i := fun he => hj (he ▸ hi)
    have hkept : t.sheets[j]? = some sheet := (h.same j hne).trans hsheet
    exact ⟨sheet, List.mem_of_getElem? hkept, rfl, iff_of_true rfl (hleaves sheet)⟩

theorem of_grows {new : List Sheet} (hs : s.Distinct) (h : s.Grows new t)
    (hleaves : ∀ sheet, e.Leaves sheet) : e.Keeps s s.sheets new where
  order := .refl _
  fresh := by
    intro sheet hnew
    have habove := h.numbered sheet hnew
    refine ⟨fun hold => ?_, habove⟩
    obtain ⟨old, hmem, hid⟩ := List.mem_map.mp hold
    have hbelow := hs.below old hmem
    rw [hid] at hbelow
    omega
  undeclared := by
    intro j sheet hsheet _
    exact ⟨sheet, List.mem_of_getElem? hsheet, rfl, iff_of_true rfl (hleaves sheet)⟩

theorem of_eraseIdx {i : Nat} (h : t.sheets = s.sheets.eraseIdx i) (hi : i ∈ e.editedSheets)
    (hleaves : ∀ sheet, e.Leaves sheet) : e.Keeps s t.sheets [] where
  order := by
    rw [h]
    exact (List.eraseIdx_sublist _ _).map _
  fresh := fun _ hnew => absurd hnew List.not_mem_nil
  undeclared := by
    intro j sheet hsheet hj
    have hkept : sheet ∈ t.sheets := by
      rw [h, List.mem_eraseIdx_iff_getElem?]
      exact ⟨j, fun he => hj (he ▸ hi), hsheet⟩
    exact ⟨sheet, hkept, rfl, iff_of_true rfl (hleaves sheet)⟩

theorem of_restricted {e : RestrictHeaders} (h : List.Forall₂
      (fun sheet after => ∃ rs, e.sheetAfter sheet = .ok (after, rs)) s.sheets t.sheets) :
    (Edit.restrictHeaders e).Keeps s t.sheets [] where
  order := by rw [ids_restricted h]
  fresh := fun _ hnew => absurd hnew List.not_mem_nil
  undeclared := by
    intro j sheet hsheet _
    have hmem := List.mem_of_getElem? hsheet
    obtain ⟨after, hin, rs, hafter⟩ := exists_of_mem_left h hmem
    exact ⟨after, hin, (id_sheetAfter hafter).1, RestrictHeaders.sheetAfter_eq_self_iff hafter⟩

end Keeps

/-- After an accepted edit the sheets that survive stand before the new ones. -/
theorem exists_keeps {d : Disk} {c : Change} (hs : s.Distinct) (h : e.change d s = .ok c) :
    ∃ survivors new, c.state.sheets = survivors ++ new ∧ e.Keeps s survivors new := by
  have hshape := reshapes h
  cases e with
  | importFiles e =>
    obtain ⟨new, hgrows, -⟩ := hshape
    exact ⟨s.sheets, new, hgrows.sheets, .of_grows hs hgrows fun _ => trivial⟩
  | merge e | duplicateSheet e =>
    obtain ⟨new, hgrows⟩ := hshape
    exact ⟨s.sheets, [new], hgrows.sheets, .of_grows hs hgrows fun _ => trivial⟩
  | drawChart e | exportSheets e =>
    exact ⟨s.sheets, [], hshape.sheets, .of_grows hs hshape fun _ => trivial⟩
  | pivot e =>
    cases hdestination : e.destination with
    | some i =>
      simp only [Reshapes, hdestination] at hshape
      have hi : i ∈ (Edit.pivot e).editedSheets := by simp [editedSheets, hdestination]
      exact ⟨_, [], (List.append_nil _).symm, .of_rewritesAt hshape hi fun _ => trivial⟩
    | none =>
      simp only [Reshapes, hdestination] at hshape
      obtain ⟨new, hgrows⟩ := hshape
      exact ⟨s.sheets, [new], hgrows.sheets, .of_grows hs hgrows fun _ => trivial⟩
  | deleteSheet e =>
    have hi : e.sheet ∈ (Edit.deleteSheet e).editedSheets := List.mem_cons_self
    exact ⟨_, [], (List.append_nil _).symm, .of_eraseIdx hshape.1 hi fun _ => trivial⟩
  | restrictHeaders e => exact ⟨_, [], (List.append_nil _).symm, .of_restricted hshape.1⟩
  | _ =>
    -- the other kinds declare the one sheet that they may rewrite
    obtain ⟨i, hi, hrewrites⟩ := hshape
    have hmem := hi ▸ List.mem_singleton_self i
    exact ⟨_, [], (List.append_nil _).symm, .of_rewritesAt hrewrites hmem fun _ => trivial⟩

end Edit

/-- The sheets that a step does not declare survive it in their order and before all new
  sheets.  Each of them stays as it is, unless the step restricts headers: then it does so
  exactly if its headers were restricted and its ids and formulas follow them already. -/
theorem State.Initial.undeclared_untouched {d : Disk} {id : StepId} {e : Edit} {s : State}
    {steps : List Step} {step : Step} (hs : s.Initial) (ha : s.Accepts steps)
    (hrun : Step.run d id e (s.after steps) = .ok step) :
    ∃ survivors new, step.after.sheets = survivors ++ new
      ∧ e.Keeps (s.after steps) survivors new := by
  obtain ⟨hsound, -⟩ := hs.sound_native
  obtain ⟨c, hc, hstep⟩ := Step.run_eq_ok hrun
  have hafter : step.after = c.state := by rw [hstep]
  rw [hafter]
  exact Edit.exists_keeps (hsound.distinct.after ha) hc

/-! ### A sample

  Headers are restricted in the ledger, where one of the headers has a blank. -/

namespace Sample

/-- The step that restricts the headers of the ledger, after a formula and a chart. -/
def restricting : Step :=
  (Step.run {} (.generated 2) (.restrictHeaders ⟨false⟩)
    (ledgerState.after (ledgerSteps.take 2))).toOption.getD default

theorem run_restricting : Step.run {} (.generated 2) (.restrictHeaders ⟨false⟩)
    (ledgerState.after (ledgerSteps.take 2)) = .ok restricting :=
  eq_ok_of_toBool (by decide +kernel) default

end Sample

/-- The second sheet is left as it is, and the first one is not. -/
theorem State.Initial.undeclared_untouched_ledger :
    let e := Edit.restrictHeaders ⟨false⟩
    let before := Sample.ledgerState.after (Sample.ledgerSteps.take 2)
    Sample.ledgerState.Initial ∧ Sample.ledgerState.Accepts (Sample.ledgerSteps.take 2)
      ∧ Step.run {} (.generated 2) e before = .ok Sample.restricting
      ∧ before.sheets.map Sheet.headers = [["day", "net value"], ["day", "rate"]]
      ∧ Sample.restricting.after.sheets.map Sheet.headers = [["day", "net_value"], ["day", "rate"]]
      ∧ ∃ survivors new, Sample.restricting.after.sheets = survivors ++ new
        ∧ e.Keeps before survivors new := by
  have hinitial : Sample.ledgerState.Initial := ⟨Sample.ledger, by decide, by rfl⟩
  have haccepts : Sample.ledgerState.Accepts Sample.ledgerSteps := State.accepts_of_replay
    (by decide +kernel)
  exact ⟨hinitial, haccepts.take 2, Sample.run_restricting, by decide +kernel, by decide +kernel,
    State.Initial.undeclared_untouched hinitial (haccepts.take 2) Sample.run_restricting⟩

/-- The step declares no sheet, and the first sheet is not among those that it leaves. -/
theorem State.Initial.undeclared_rewritten :
    let e := Edit.restrictHeaders ⟨false⟩
    let before := Sample.ledgerState.after (Sample.ledgerSteps.take 2)
    ∃ step sheet, Step.run {} (.generated 2) e before = .ok step ∧ before.sheets[0]? = some sheet
      ∧ 0 ∉ e.editedSheets ∧ sheet ∉ step.after.sheets := by
  obtain ⟨sheet, hsheet, hheaders⟩ : ∃ sheet,
      (Sample.ledgerState.after (Sample.ledgerSteps.take 2)).sheets[0]? = some sheet
        ∧ sheet.headers = ["day", "net value"] :=
    (Option.map_eq_some_iff (f := Sheet.headers)).mp (by decide +kernel)
  have hnone : ∀ sk ∈ Sample.restricting.after.sheets, sk.headers ≠ ["day", "net value"] := by
    decide +kernel
  exact ⟨_, sheet, Sample.run_restricting, hsheet, by decide,
    fun hin => hnone sheet hin hheaders⟩

end SheetScript
