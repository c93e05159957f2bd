import SheetScript.Proofs.State.Sheets
import SheetScript.Styler

/-! # When a styler can be written

  The filters of a conditional format hold whatever value they were given, and it is
  read only when the styler is written.  Of a sound sheet nothing else can keep the
  styler from being written: every column that a format speaks of has a type and a
  header, or is gone and left out.
-/

namespace SheetScript

/-! ### Filters -/

/-- Whether a filter compares with what it needs: a number or a moment. -/
def Filter.IsReadable (f : Filter) : Prop :=
  match f.condition with
  | .number _ => ∃ x, f.numberValue = .ok x
  | .moment _ => ∃ m, f.momentValue = .ok m
  | .text _ | .truth _ | .empty | .notEmpty => True

theorem Filter.exists_code {target : String} {t : DType} {f : Filter} :
    (∃ mask, f.code target t = .ok mask) ↔ f.IsReadable := by
  obtain ⟨condition, value⟩ := f
  cases condition with
  | number c =>
    simp only [code, IsReadable, map_eq_ok]
    unfold numberCode numberValue
    cases value <;> simp [number?]
  | moment c => simp [code, IsReadable]
  | text m => cases m <;> simp [code, IsReadable]
  | truth b => simp [code, IsReadable]
  | empty => simp [code, IsReadable]
  | notEmpty => simp [code, IsReadable]

/-! ### Sheets -/

namespace Sheet

variable {sh : Sheet} {id : ColumnId} {h : Header}

/-- Whether the filters that color cells are readable, as far as they apply to the
  columns that they are meant for. -/
def FormatReadable (sh : Sheet) : Prop :=
  ∀ c ∈ sh.format.conditional, c.colors.isEmpty = false →
    ∀ id ∈ c.columns, ∀ t, sh.dtype id = .ok t →
      ∀ f ∈ c.filters, f.condition.appliesTo t = true → f.IsReadable

theorem Sound.exists_dtype (hs : sh.Sound) (hid : sh.columns.header? id = some h) :
    ∃ t, sh.dtype id = .ok t := by
  obtain ⟨c, hc⟩ := Frame.exists_column (hs.columns.mem hid)
  refine ⟨c.dtype, ?_⟩
  simp only [dtype, column, bind_eq_ok, pure_eq_ok, header_eq_ok]
  exact ⟨c, ⟨h, hid, hc⟩, rfl⟩

theorem exists_conditionalPart {style : String} {f : Filter} {t : DType}
    (ht : sh.dtype id = .ok t) :
    (∃ part, Styler.conditionalPart sh style id h f = .ok part)
      ↔ (f.condition.appliesTo t = true → f.IsReadable) := by
  rw [← @Filter.exists_code "series" t]
  simp only [Styler.conditionalPart, ht, bind_eq_ok, Except.ok.injEq, exists_eq_left']
  split
  · next happlies => simp [happlies]
  · next happlies => simp [happlies]

/-- A conditional format without colors needs no code, and a column that is gone has
  none. -/
theorem Sound.exists_conditionalParts (hs : sh.Sound) {c : ConditionalFormat} :
    (∃ parts, Styler.conditionalParts sh c = .ok parts)
      ↔ (c.colors.isEmpty = false → ∀ id ∈ c.columns, ∀ t, sh.dtype id = .ok t →
          ∀ f ∈ c.filters, f.condition.appliesTo t = true → f.IsReadable) := by
  unfold Styler.conditionalParts
  split
  · next hempty => simp [hempty]
  · next hcolors =>
    simp only [bind_eq_ok, pure_eq_ok]
    rw [exists_comm]
    simp only [exists_and_left, exists_eq', and_true, exists_mapM_eq_ok]
    rw [Bool.not_eq_true] at hcolors
    simp only [hcolors, true_imp_iff]
    refine forall₂_congr fun id _ => ?_
    cases hid : sh.columns.header? id with
    | none =>
      -- then there is no type to apply to either
      have hnone : ∀ t, sh.dtype id ≠ .ok t := by
        intro t ht
        simp only [dtype, column, bind_eq_ok, header_eq_ok, hid] at ht
        obtain ⟨_, ⟨_, hheader, -⟩, -⟩ := ht
        cases hheader
      simp [hnone]
    | some h =>
      obtain ⟨t, ht⟩ := hs.exists_dtype hid
      simp only [exists_mapM_eq_ok, exists_conditionalPart ht]
      simp [ht]

theorem Sound.exists_numberPart (hs : sh.Sound) (hid : id ∈ sh.columnIds) :
    ∃ part, Styler.numberPart sh id = .ok part := by
  obtain ⟨k, hk⟩ := hs.mem_columnIds.mp hid
  obtain ⟨t, ht⟩ := hs.exists_dtype hk
  unfold Styler.numberPart
  split
  · exact ⟨none, rfl⟩
  · simp only [ht, header_eq_ok.mpr hk, bind, Except.bind]
    split
    · exact ⟨_, rfl⟩
    · exact ⟨_, rfl⟩

/-- Of a sound sheet, only an unreadable value keeps the styler from being written. -/
theorem Sound.exists_styler (hs : sh.Sound) :
    (∃ c, Styler.code sh = .ok c) ↔ sh.FormatReadable := by
  have hnumbers : ∃ parts, sh.columnIds.mapM (Styler.numberPart sh) = .ok parts :=
    exists_mapM_eq_ok.mpr fun id hid => hs.exists_numberPart hid
  have hconditional : (∃ parts, sh.format.conditional.mapM (Styler.conditionalParts sh) = .ok parts)
      ↔ sh.FormatReadable := by
    rw [exists_mapM_eq_ok]
    exact forall₂_congr fun c _ => hs.exists_conditionalParts
  unfold Styler.code
  split
  · next hempty =>
    -- a format that shows nowhere has no conditional part
    have hnil : sh.format.conditional = [] := by
      simp only [SheetFormat.isEmpty, Bool.and_eq_true, List.isEmpty_iff] at hempty
      exact hempty.2
    simp [FormatReadable, hnil]
  · rw [← hconditional]
    constructor
    · rintro ⟨c, hc⟩
      simp only [bind_eq_ok] at hc
      obtain ⟨parts, hparts, -⟩ := hc
      exact ⟨parts, hparts⟩
    · rintro ⟨parts, hparts⟩
      obtain ⟨numbers, hnumbers⟩ := hnumbers
      simp only [hparts, hnumbers, bind, Except.bind]
      split
      · exact ⟨none, rfl⟩
      · exact ⟨_, rfl⟩

end Sheet

end SheetScript
