import SheetScript.Edit.Retype
import SheetScript.Proofs.Decimal.Double
import SheetScript.Proofs.Edit.Columns

/-! # Seconds as moments and durations

  A column of numbers that becomes one of moments or of durations is taken as seconds.  The
  conversion keeps the whole seconds only and multiplies them by a million in words of 64
  bits.  So a cell is wrong, and not missing, exactly if the number has a fraction of a
  microsecond or more, or if its whole seconds fit a word and their microseconds do not.

  Main statement: `ChangeType.run_seconds`.
-/

namespace SheetScript

open Decimal

/-! ### Words of 64 bits -/

namespace DType

variable {n : Int}

theorem int64_fits_iff : DType.int64.fits n = true ↔ -2 ^ 63 ≤ n ∧ n < 2 ^ 63 := by
  simp [fits]

theorem int64_wrap_of_fits (h : DType.int64.fits n = true) : DType.int64.wrap n = n := by
  rw [int64_fits_iff] at h
  exact Int.bmod_eq_of_le_mul_two (by omega) (by omega)

/-- What does not fit is off by a multiple of `2 ^ 64`. -/
theorem le_abs_int64_wrap_sub (h : DType.int64.fits n = false) :
    2 ^ 64 ≤ |DType.int64.wrap n - n| := by
  have hlo : -2 ^ 63 ≤ DType.int64.wrap n := Int.le_bmod (by decide)
  have hhi : DType.int64.wrap n < 2 ^ 63 := Int.bmod_lt (by decide)
  have hne : DType.int64.wrap n - n ≠ 0 := by
    intro heq
    rw [← Bool.not_eq_true, int64_fits_iff] at h
    omega
  have hdvd : (2 ^ 64 : Int) ∣ DType.int64.wrap n - n := Int.dvd_bmod_sub_self
  exact Int.le_of_dvd (abs_pos.mpr hne) ((dvd_abs _ _).mpr hdvd)

end DType

/-! ### One cell -/

namespace Cell

/-- The number in a cell; there is none in a missing one, and none if it is not finite. -/
def number? : Cell → Option ℚ
  | .int n => some n
  | .float x => (ofFloat x).value?
  | _ => none

/-- Whether a cell holds that many seconds: in microseconds, to the precision of one, or not at
  all if these do not fit 64 bits. -/
def HoldsSeconds (v : ℚ) : Cell → Prop
  | .int n => |n - v * 1000000| < 1
  | .missing => ¬ (-2 ^ 63 ≤ v * 1000000 ∧ v * 1000000 < 2 ^ 63)
  | _ => False

/-- Whether a cell is what a cell of a number becomes, if the number is taken as seconds. -/
def IsSecondsOf (result c : Cell) : Prop :=
  match c.number? with
  | some v => result.HoldsSeconds v
  | none => result = .missing

end Cell

namespace Retype

variable {t : DType} {c : Cell} {v : ℚ}

theorem microseconds_of_number (h : c.number? = some v) :
    microseconds t c = if DType.int64.fits (truncated v) = true
      then .int (DType.int64.wrap (truncated v * 1000000)) else .missing := by
  have hcast : Cell.cast t .int64 c = Cell.ofInt? .int64 (some (truncated v)) := by
    cases c with
    | missing | bool b | text s => cases h
    | int n =>
      obtain rfl : (n : ℚ) = v := Option.some.inj h
      simp [Cell.cast, truncated]
    | float x =>
      rw [Cell.number?] at h
      simp [Cell.cast, wholePart?_eq, h]
  rw [microseconds, hcast, Cell.ofInt?]
  by_cases hfits : DType.int64.fits (truncated v) = true
  · rw [if_pos hfits, if_pos hfits]
  · rw [if_neg hfits, if_neg hfits]

theorem microseconds_of_no_number (ht : t.isNumeric = true) (hholds : t.holds c = true)
    (h : c.number? = none) : microseconds t c = .missing := by
  cases c with
  | missing => rfl
  | bool b | text s => cases t <;> cases ht <;> cases hholds
  | int n => cases h
  | float x =>
    rw [Cell.number?] at h
    simp [microseconds, Cell.cast, wholePart?_eq, h, Cell.ofInt?]

/-- Whether a number of seconds comes through: it has less than a microsecond beside its whole
  seconds, and their microseconds fit 64 bits, unless not even the seconds do. -/
def KeepsSeconds (v : ℚ) : Prop :=
  DType.int64.fits (truncated v) = true →
    |v - truncated v| * 1000000 < 1 ∧ DType.int64.fits (truncated v * 1000000) = true

/-- Seconds that do not fit 64 bits are missing, and so they should be. -/
theorem not_fits_of_truncated (h : DType.int64.fits (truncated v) = false) :
    ¬ (-2 ^ 63 ≤ v * 1000000 ∧ v * 1000000 < 2 ^ 63) := by
  rw [← Bool.not_eq_true, DType.int64_fits_iff, not_and_or, not_le, not_lt] at h
  rintro ⟨hlo, hhi⟩
  obtain ⟨hbelow, habove⟩ := abs_lt.mp (abs_sub_truncated_lt v)
  obtain h | h := h
  · have hleast : (truncated v : ℚ) < -2 ^ 63 := by exact_mod_cast h
    linarith
  · have hmost : (2 ^ 63 : ℚ) ≤ truncated v := by exact_mod_cast h
    linarith

theorem holdsSeconds_iff (h : c.number? = some v) :
    (microseconds t c).HoldsSeconds v ↔ KeepsSeconds v := by
  rw [microseconds_of_number h, KeepsSeconds]
  have hscale : |(truncated v * 1000000 : ℚ) - v * 1000000| = |v - truncated v| * 1000000 := by
    rw [← sub_mul, abs_mul, abs_sub_comm, abs_of_pos (by norm_num : (0 : ℚ) < 1000000)]
  by_cases hfits : DType.int64.fits (truncated v) = true
  · rw [if_pos hfits, Cell.HoldsSeconds, imp_iff_right hfits]
    by_cases hproduct : DType.int64.fits (truncated v * 1000000) = true
    · rw [DType.int64_wrap_of_fits hproduct]
      push_cast
      rw [hscale, and_iff_left hproduct]
    · -- the word is too far off for any fraction to make up for it
      refine iff_of_false (fun hclose => ?_) (fun hkeeps => hproduct hkeeps.2)
      rw [Bool.not_eq_true] at hproduct
      have hfar := DType.le_abs_int64_wrap_sub hproduct
      generalize DType.int64.wrap (truncated v * 1000000) = w at hclose hfar
      have hfar' : (2 ^ 64 : ℚ) ≤ |(w : ℚ) - truncated v * 1000000| := by exact_mod_cast hfar
      have htriangle := abs_sub_le (w : ℚ) (v * 1000000) (truncated v * 1000000)
      rw [abs_sub_comm (v * 1000000), hscale] at htriangle
      linarith [abs_sub_truncated_lt v]
  · rw [if_neg hfits]
    exact iff_of_true (not_fits_of_truncated (Bool.not_eq_true _ ▸ hfits))
      fun h => absurd h hfits

/-- What becomes of a cell is right exactly if its number comes through. -/
theorem isSecondsOf_iff (ht : t.isNumeric = true) (hholds : t.holds c = true) :
    (microseconds t c).IsSecondsOf c ↔ ∀ v, c.number? = some v → KeepsSeconds v := by
  unfold Cell.IsSecondsOf
  cases h : c.number? with
  | none => exact iff_of_true (microseconds_of_no_number ht hholds h) fun v hv => by cases hv
  | some v =>
    refine (holdsSeconds_iff h).trans ⟨fun hkeeps w hw => ?_, fun hkeeps => hkeeps v rfl⟩
    exact Option.some.inj hw ▸ hkeeps

/-- The statement that takes a series as seconds. -/
def secondsStatement (df : String) (header : Header) (goal : ValueKind) : String :=
  let target := df ++ "[" ++ Literal.text header ++ "]"
  let call := if goal = .span then "pd.to_timedelta(" else "pd.to_datetime("
  target ++ " = " ++ (call ++ target ++ ", unit='s', errors='coerce')")

/-- The type of a column of moments or of durations. -/
def secondsType : ValueKind → DType
  | .span => .duration
  | _ => .datetime

variable {column : Column} {goal : ValueKind}

theorem column_seconds (ht : column.dtype.isNumeric = true)
    (hgoal : goal = .moment ∨ goal = .span) :
    Retype.column column goal
      = .ok (mapped column (secondsType goal) (microseconds column.dtype)) := by
  unfold Retype.column
  obtain rfl | rfl := hgoal <;> cases hdtype : column.dtype <;>
    first | rfl | exact absurd (hdtype ▸ ht) (by decide)

theorem statement_seconds (ht : column.dtype.isNumeric = true)
    (hgoal : goal = .moment ∨ goal = .span) (df : String) (header : Header) :
    statement df header (ValueKind.ofType column.dtype) goal
      = secondsStatement df header goal := by
  obtain rfl | rfl := hgoal <;> cases hdtype : column.dtype <;>
    first | rfl | exact absurd (hdtype ▸ ht) (by decide)

theorem ofType_ne_seconds (ht : column.dtype.isNumeric = true)
    (hgoal : goal = .moment ∨ goal = .span) : ValueKind.ofType column.dtype ≠ goal := by
  obtain rfl | rfl := hgoal <;> cases hdtype : column.dtype <;>
    first | decide | exact absurd (hdtype ▸ ht) (by decide)

end Retype

/-! ### The edit -/

/-- A column that is filled is found under its header. -/
theorem Frame.column_withColumn {f : Frame} {c : Column} (h : c.header ∈ f.headers) :
    (f.withColumn c).column c.header = .ok c := by
  obtain ⟨d, hd⟩ := exists_column (headers_withColumn h ▸ h)
  obtain ⟨hmem, hheader⟩ := column_eq_ok hd
  rw [withColumn, if_pos h] at hmem
  obtain ⟨b, -, rfl⟩ := List.mem_map.mp hmem
  rw [hd]
  split at hheader
  · rename_i hb
    rw [if_pos hb]
  · contradiction

namespace ChangeType

variable {e : ChangeType} {s : State} {sheet : Sheet} {header : Header} {column : Column}

/-- A column of numbers becomes one of moments or of durations: the code takes it as seconds,
  and so does the session, cell by cell, but for the numbers that it does not keep;
  the header must be no pattern. -/
theorem run_seconds (hplain : isPattern header = false) (hsheet : s.sheet e.sheet = .ok sheet)
    (hheader : sheet.header e.column = .ok header) (hcolumn : sheet.column e.column = .ok column)
    (ht : column.dtype.isNumeric = true) (hgoal : e.kind = .moment ∨ e.kind = .span)
    (hcells : ∀ x ∈ column.cells, column.dtype.holds x = true) :
    ∃ after cells,
      e.run s = .ok ⟨s.replace e.sheet after,
          [.changeType sheet.target e.column header
            [Retype.secondsStatement sheet.name header e.kind]]⟩
      ∧ after.column e.column = .ok ⟨header, Retype.secondsType e.kind, cells⟩
      ∧ List.Forall₂ (fun x y =>
          y.IsSecondsOf x ↔ ∀ v, x.number? = some v → Retype.KeepsSeconds v)
        column.cells cells := by
  have hlookup : sheet.frame.column header = .ok column := by
    rw [Sheet.column, hheader] at hcolumn
    exact hcolumn
  obtain ⟨hmem, rfl⟩ := Frame.column_eq_ok hlookup
  -- the column that takes the place of the old one, and the sheet with it
  let seconds := Retype.mapped column (Retype.secondsType e.kind)
    (Retype.microseconds column.dtype)
  have hseconds : converted sheet.frame column e.kind = .ok [seconds] :=
    (converted_of_verbatim hplain hlookup).mpr ⟨seconds, Retype.column_seconds ht hgoal, rfl⟩
  let filled := sheet.withData (sheet.frame.withColumn seconds) sheet.columns
  let after := { filled with formulas := Dictionary.erase filled.formulas e.column }
  have hrun : e.run s = .ok (.onSheet s e.sheet after
      [.changeType sheet.target e.column column.header
        [Retype.statement sheet.name column.header (ValueKind.ofType column.dtype) e.kind]]) := by
    simp only [run, bind_eq_ok]
    refine ⟨sheet, hsheet, column.header, hheader, column, hcolumn, ?_⟩
    rw [if_neg (Retype.ofType_ne_seconds ht hgoal)]
    simp only [bind_eq_ok]
    exact ⟨[seconds], hseconds, _, Frame.withColumns_singleton sheet.frame seconds, rfl⟩
  rw [Retype.statement_seconds ht hgoal] at hrun
  refine ⟨after, seconds.cells, hrun, ?_, ?_⟩
  · have hin : column.header ∈ sheet.frame.headers := Frame.header_mem hmem
    rw [Sheet.column, bind_eq_ok]
    exact ⟨column.header, hheader, Frame.column_withColumn (c := seconds) hin⟩
  · refine List.forall₂_map_right_iff.mpr (List.forall₂_same.mpr ?_)
    exact fun x hx => Retype.isSecondsOf_iff ht (hcells x hx)

namespace Sample

/-- Two columns of numbers of seconds. -/
def times : State :=
  .add {} "df1" ⟨[⟨"A", .float64, [.float 1.5, .float 90]⟩,
    ⟨"B", .int64, [.int 9223372036855, .missing]⟩], 2⟩

/-- The first one, as moments. -/
def moments : ChangeType := ⟨0, ⟨"A"⟩, .number, .moment⟩

/-- The second one, as durations. -/
def durations : ChangeType := ⟨0, ⟨"B"⟩, .whole, .span⟩

theorem number?_half : (Cell.float 1.5).number? = some (3 / 2) := by
  have hread : ofFloat 1.5 = .finite false ⟨3 * 2 ^ 51, -52, false⟩ := by decide
  norm_num [Cell.number?, hread, Reading.value?, signed, Binary.value]

end Sample

/-- Two numbers of seconds, of which the one with a fraction does not come through. -/
theorem run_seconds_fraction :
    isPattern "A" = false
      ∧ ∃ after x y, Sample.moments.run Sample.times = .ok ⟨Sample.times.replace 0 after,
        [.changeType ⟨⟨0⟩, "df1"⟩ ⟨"A"⟩ "A" [Retype.secondsStatement "df1" "A" .moment]]⟩
      ∧ after.column ⟨"A"⟩ = .ok ⟨"A", .datetime, [x, y]⟩
      ∧ ¬ x.IsSecondsOf (.float 1.5) ∧ y.IsSecondsOf (.float 90) := by
  have hplain : isPattern "A" = false := by decide
  have hsheet : Sample.times.sheet 0 = .ok Sample.times.sheets.head! := rfl
  have hheader : Sample.times.sheets.head!.header ⟨"A"⟩ = .ok "A" := by decide
  have hseconds : Sample.times.sheets.head!.column ⟨"A"⟩
      = .ok ⟨"A", .float64, [.float 1.5, .float 90]⟩ := by decide
  obtain ⟨after, cells, hrun, hcolumn, hcells⟩ := run_seconds (e := Sample.moments) hplain hsheet
    hheader hseconds rfl (.inl rfl) (by decide)
  obtain ⟨x, rest, hx, hrest, rfl⟩ := List.forall₂_cons_left_iff.mp hcells
  obtain ⟨y, rest, hy, hnil, rfl⟩ := List.forall₂_cons_left_iff.mp hrest
  obtain rfl := List.forall₂_nil_left_iff.mp hnil
  have hninety : (Cell.float 90).number? = some 90 := by
    have hread : ofFloat 90 = .finite false ⟨45 * 2 ^ 47, -46, false⟩ := by decide
    norm_num [Cell.number?, hread, Reading.value?, signed, Binary.value]
  refine ⟨hplain, after, x, y, hrun, hcolumn, fun h => ?_, hy.mpr fun v hv => ?_⟩
  · have := (hx.mp h _ Sample.number?_half (by decide +kernel)).1
    norm_num [truncated] at this
  · obtain rfl := Option.some.inj (hninety.symm.trans hv)
    exact fun _ => ⟨by norm_num [truncated], by decide⟩

/-- Half a second is lost, and the microseconds of more seconds than fit become a duration
  that is negative. -/
theorem run_seconds_lost :
    (do (← (← Sample.moments.run Sample.times).state.sheet 0).column ⟨"A"⟩)
        = .ok ⟨"A", .datetime, [.int 1000000, .int 90000000]⟩
      ∧ ¬ (Cell.int 1000000).IsSecondsOf (.float 1.5)
      ∧ (do (← (← Sample.durations.run Sample.times).state.sheet 0).column ⟨"B"⟩)
        = .ok ⟨"B", .duration, [.int (-9223372036854551616), .missing]⟩
      ∧ ¬ (Cell.int (-9223372036854551616)).IsSecondsOf (.int 9223372036855) := by
  refine ⟨by decide, ?_, by decide, ?_⟩
  · norm_num [Cell.IsSecondsOf, Sample.number?_half, Cell.HoldsSeconds]
  · norm_num [Cell.IsSecondsOf, Cell.number?, Cell.HoldsSeconds]

end ChangeType

end SheetScript
