import SheetScript.Proofs.Desk.Elsewhere
import SheetScript.Proofs.Desk.Faults

/-! # What a chunk depends on

  A chunk goes by the tables of the sheets that it does not bypass, by who holds the
  names that it takes, and, if it is a block, by what it sees.  On two desks that agree
  on these it does the same to its sheets.

  - `Desk.step_congr`: what it does.
  - `Desk.Runs.congr`, `Desk.Matches.congr` and `Desk.Means.congr`: what it asks for.
  - `Desk.holds_step`: names that a chunk does not take stay with their sheets.
-/

namespace SheetScript.Symbolic.Desk

variable {τ : Type} {I : Interpretation τ} {d e : Desk τ} {b : ChunkBody} {s : SheetId}

/-- Whether the variable of a sheet has the name. -/
def Holds (d : Desk τ) (n : String) (s : SheetId) : Prop := ∃ x, d s = some x ∧ x.name = n

/-- Two desks with the same tables on the sheets that a chunk does not bypass. -/
def AgreeFor (b : ChunkBody) (d e : Desk τ) : Prop := ∀ s, ¬ b.Bypasses s → d s = e s

theorem AgreeFor.symm (h : AgreeFor b d e) : AgreeFor b e d := fun s hs => (h s hs).symm

section Congr

variable (h : AgreeFor b d e)
include h

theorem AgreeFor.column {t : Target} (ht : b.columnTarget? = some t) : d t.sheet = e t.sheet :=
  h _ fun hb => (bypasses_column ht).mp hb rfl

theorem AgreeFor.output {k : Block} (hk : b = .block k) {o : BlockOutput} (ho : o ∈ k.outputs) :
    d o.sheet = e o.sheet := by
  subst hk
  exact h _ fun hb => hb o ho rfl

/-- A chunk makes the same of the sheets that it does not bypass. -/
theorem step_congr (hseen : ∀ k, b = .block k → d.seen I k = e.seen I k) :
    AgreeFor b (d.step I b) (e.step I b) := by
  intro s hs
  induction b using ChunkBody.kind_cases with
  | column b t ht =>
    obtain rfl : t.sheet = s := by
      by_contra hne
      exact hs ((bypasses_column ht).mpr hne)
    rw [step_column ht, step_column ht, edit, edit, set_self, set_self, h _ hs]
  | duplicateSheet source copy =>
    have hsource : d source.sheet = e source.sheet := h _ fun hb => hb.1 rfl
    by_cases hc : s = copy.sheet
    · subst hc
      simp only [step, set_self, hsource]
    · simp only [step, set_ne _ _ hc, h s hs]
  | deleteSheet t =>
    by_cases ht : s = t.sheet
    · subst ht
      simp only [step, set_self]
    · exact absurd (Ne.symm ht) hs
  | renameSheet u old new =>
    by_cases hu : s = u
    · subst hu
      simp only [step, set_self, h _ hs]
    · exact absurd (Ne.symm hu) hs
  | block k =>
    simp only [step]
    cases ho : k.outputs.find? fun o => o.sheet = s with
    | none => exact h s hs
    | some o =>
      have hsame := h.output rfl (List.mem_of_find?_eq_some ho)
      simp only [output, hseen k rfl, hsame]

/-- A chunk means the same columns. -/
theorem Matches.congr (hm : d.Matches b) : e.Matches b := by
  induction b using ChunkBody.kind_cases with
  | column b t ht =>
    rw [matches_column ht, ← h.column ht]
    exact (matches_column ht d).mp hm
  | duplicateSheet | deleteSheet | renameSheet => exact fun _ ht => by cases ht
  | block k =>
    refine ⟨hm.ids, hm.access, hm.touches, fun u hu => ?_, fun o ho hc => ?_⟩
    · obtain ⟨hnone, o, ho, rfl⟩ := hm.created u hu
      rw [h.output rfl ho] at hnone
      exact ⟨hnone, o, ho, rfl⟩
    · rw [← h.output rfl ho]
      exact hm.kept o ho hc

/-- A step could have emitted the chunk for either desk. -/
theorem Means.congr (hm : d.Means b) : e.Means b := by
  induction b using ChunkBody.kind_cases with
  | column b t ht => exact (means_column ht).mpr (Matches.congr h ((means_column ht).mp hm))
  | duplicateSheet source copy =>
    have hnone : d copy.sheet = none := hm
    show e copy.sheet = none
    rw [← h _ fun hb => hb.2 rfl, hnone]
  | deleteSheet t => trivial
  | renameSheet u old new => exact hm
  | block k =>
    refine ⟨Matches.congr h hm.block, hm.deletes, hm.sheets, hm.names, hm.headers,
      fun o ho x hx => ?_, hm.ordered, fun o ho is his x hx => ?_⟩
    · rw [← h.output rfl ho] at hx
      exact hm.named o ho x hx
    · rw [← h.output rfl ho] at hx
      exact hm.retains o ho is his x hx

omit h in
theorem Free.congr {n : String} (hn : ∀ s, d.Holds n s ↔ e.Holds n s) (hf : d.Free n) :
    e.Free n := by
  intro s x hx hxn
  obtain ⟨y, hy, hyn⟩ := (hn s).mpr ⟨x, hx, hxn⟩
  exact hf s y hy hyn

omit h in
theorem Reserved.congr {n : String} (hn : ∀ s, d.Holds n s ↔ e.Holds n s) (hs : d s = e s)
    (hr : d.Reserved n s) : e.Reserved n s := by
  intro t x hx
  constructor
  · rintro rfl
    rw [← hs] at hx
    exact (hr t x hx).mp rfl
  · intro hxn
    obtain ⟨y, hy, hyn⟩ := (hn t).mpr ⟨x, hx, hxn⟩
    exact (hr t y hy).mpr hyn

/-- A chunk runs, too, if the names that it takes are with the same sheets. -/
theorem Runs.congr (hn : ∀ n, .variable n ∈ b.footprint.binds → ∀ s, d.Holds n s ↔ e.Holds n s)
    (hr : d.Runs b) : e.Runs b := by
  induction b using ChunkBody.kind_cases with
  | column b t ht =>
    rw [runs_column ht, ← h.column ht]
    exact (runs_column ht d).mp hr
  | duplicateSheet source copy =>
    obtain ⟨hx, hnone, hfree⟩ := hr
    rw [h source.sheet fun hb => hb.1 rfl] at hx
    rw [h copy.sheet fun hb => hb.2 rfl] at hnone
    exact ⟨hx, hnone, hfree.congr (hn _ (ChunkBody.binds_duplicateSheet source copy))⟩
  | deleteSheet t =>
    obtain ⟨x, hx, hxn⟩ := hr
    rw [h t.sheet fun hb => hb rfl] at hx
    exact ⟨x, hx, hxn⟩
  | renameSheet u old new =>
    obtain ⟨hx, hfree⟩ := hr
    rw [h u fun hb => hb rfl] at hx
    exact ⟨hx, hfree.congr (hn _ (ChunkBody.binds_renameSheet u old new).2)⟩
  | block k =>
    exact ⟨hr.deletes, hr.sheets, hr.names, hr.headers, fun o ho =>
      (hr.reserved o ho).congr (hn _ (ChunkBody.binds_block ho)) (h.output rfl ho)⟩

end Congr

/-! ### Names -/

/-- A name that a chunk does not take is not given to another sheet. -/
theorem name_was {n : String} (hf : d.Fits b) (hn : .variable n ∉ b.footprint.binds)
    (hs : (d.step I b).Holds n s) : d.Holds n s := by
  obtain ⟨hr, -⟩ := hf
  obtain ⟨x, hx, rfl⟩ := hs
  induction b using ChunkBody.kind_cases with
  | column b t ht =>
    obtain ⟨y, hy, -⟩ := (runs_column ht d).mp hr
    rw [step_column ht, edit_eq hy] at hx
    obtain ⟨rfl, rfl⟩ | ⟨-, hx⟩ := set_some_eq_some.mp hx
    · exact ⟨y, hy, rfl⟩
    · exact ⟨x, hx, rfl⟩
  | duplicateSheet source copy =>
    obtain ⟨⟨y, hy, -⟩, -⟩ := hr
    simp only [step, hy, Option.map_some] at hx
    obtain ⟨-, rfl⟩ | ⟨-, hx⟩ := set_some_eq_some.mp hx
    · exact absurd (ChunkBody.binds_duplicateSheet source copy) hn
    · exact ⟨x, hx, rfl⟩
  | deleteSheet t => exact ⟨x, (set_none_eq_some.mp hx).2, rfl⟩
  | renameSheet u old new =>
    obtain ⟨⟨y, hy, -⟩, -⟩ := hr
    simp only [step, hy, Option.map_some] at hx
    obtain ⟨-, rfl⟩ | ⟨-, hx⟩ := set_some_eq_some.mp hx
    · exact absurd (ChunkBody.binds_renameSheet u old new).2 hn
    · exact ⟨x, hx, rfl⟩
  | block k =>
    obtain ⟨o, ho, rfl, rfl⟩ | ⟨-, hx⟩ := step_block_cases hr.sheets hx
    · exact absurd (ChunkBody.binds_block ho) hn
    · exact ⟨x, hx, rfl⟩

/-- A name that a chunk does not take stays with its sheet. -/
theorem holds_step {n : String} (hf : d.Fits b) (hn : .variable n ∉ b.footprint.binds)
    (s : SheetId) : (d.step I b).Holds n s ↔ d.Holds n s := by
  constructor
  · exact name_was hf hn
  · rintro ⟨x, hx, hxn⟩
    exact name_kept hf hn hx hxn

end SheetScript.Symbolic.Desk
