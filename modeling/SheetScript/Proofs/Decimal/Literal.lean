import SheetScript.Literal
import SheetScript.Proofs.Decimal.Binary
import SheetScript.Proofs.Decimal.Rounding
import SheetScript.Proofs.Decimal.Written

/-! # Number literals

  A literal of the script is a decimal, or a call for what no decimal stands for.  The
  script rounds a decimal with a point or an exponent to the nearest number, but a whole
  number without them stays what it is, however large.  So a literal that is rounded to a
  number denotes that number unless it is another whole number, and below `2 ^ 53` there is
  no other whole number that is rounded to it.

  Main statements: `number_roundsTo` and `floatText_roundsTo`, that literals are rounded to
  what they are written for; `number_injective`; and `RoundsTo.denotes_of_small`.
-/

namespace SheetScript.Literal

open Decimal

/-! ### What literals denote -/

/-- A literal whose decimal is rounded to the number, or the call that gives it. -/
def RoundsTo (s : String) : Reading → Prop
  | .nan => s = "float('nan')"
  | .infinite negative => s = if negative then "float('-inf')" else "float('inf')"
  | r => ∃ w, decimal? s = some w ∧ r.Nearest w.value

/-- A literal that denotes exactly the number: a whole number is the number itself, and any
  other decimal is rounded to it. -/
def Denotes (s : String) (r : Reading) : Prop :=
  RoundsTo s r ∧ ∀ w, decimal? s = some w → w.whole = true → r.value? = some w.value

variable {s : String} {r r' : Reading} {x y : Float} {n : Int} {w : Written}

theorem roundsTo_of_value (h : decimal? s = some w) (hvalue : r.value? = some w.value) :
    RoundsTo s r := by
  cases r with
  | nan => cases hvalue
  | infinite negative => cases hvalue
  | zero negative => exact ⟨w, h, Reading.nearest_value hvalue⟩
  | finite negative b => exact ⟨w, h, Reading.nearest_value hvalue⟩

theorem denotes_of_value (h : decimal? s = some w) (hvalue : r.value? = some w.value) :
    Denotes s r := by
  refine ⟨roundsTo_of_value h hvalue, fun w' h' _ => ?_⟩
  rw [h] at h'
  rwa [← Option.some.inj h']

/-- An integer of 64 bits is rounded to the number that is nearest to it. -/
theorem intText_roundsTo (hn : n.natAbs < 2 ^ 64) (h : r.Nearest n) : RoundsTo (intText n) r := by
  have hw := decimal?_intText n
  cases r with
  | nan => exact absurd h id
  | infinite negative =>
    have hbeyond := Reading.two_pow_le_beyond.trans h
    have habs : |(n : ℚ)| < 2 ^ 64 := by
      rw [← Int.cast_abs, ← Nat.cast_natAbs]
      exact_mod_cast hn
    have hle : signed negative (n : ℚ) ≤ |(n : ℚ)| := by
      cases negative with
      | false => exact le_abs_self _
      | true => exact neg_le_abs _
    linarith
  | zero negative | finite negative b => exact ⟨_, hw, h⟩

/-- A number under a layout is rounded to the number. -/
theorem render_roundsTo (l : Layout) (h : x.isFinite = true) :
    RoundsTo (l.render (ofFloat x)) (ofFloat x) := by
  obtain ⟨negative, hx⟩ | ⟨negative, b, hx⟩ := ofFloat_of_isFinite h
  · rw [hx]
    exact roundsTo_of_value (decimal?_render_zero l negative) rfl
  · have hb := isDouble_of_ofFloat hx
    rw [hx]
    refine ⟨_, decimal?_render l negative b, ?_⟩
    rw [Reading.Nearest, signed_signed]
    exact hb.nearest_shortest

/-- A number is rounded to what it is written for. -/
theorem number_roundsTo (x : Float) : RoundsTo (number x) (ofFloat x) := by
  unfold number
  by_cases hnan : x.isNaN = true
  · rw [if_pos hnan, isNaN_iff.mp hnan]
    exact rfl
  · by_cases hinf : x.isInf = true
    · rw [if_neg hnan, if_pos hinf]
      obtain ⟨negative, hx⟩ := isInf_iff.mp hinf
      cases negative with
      | false =>
        have hpos : x = 1.0 / 0.0 := ofFloat_inj (hx.trans (by decide))
        subst hpos
        rw [if_pos (by decide), hx]
        rfl
      | true =>
        have hneg : x = -1.0 / 0.0 := ofFloat_inj (hx.trans (by decide))
        subst hneg
        rw [if_neg (by decide), hx]
        rfl
    · rw [if_neg hnan, if_neg hinf]
      split
      · rename_i hwhole
        rw [Bool.and_eq_true] at hwhole
        exact roundsTo_of_value (decimal?_intText _) (value?_of_isWhole hwhole.1)
      · exact render_roundsTo .plain
          (isFinite_iff.mpr ⟨Bool.eq_false_iff.mpr hnan, Bool.eq_false_iff.mpr hinf⟩)

/-- A number in JSON is rounded to what it is written for. -/
theorem floatText_roundsTo (h : x.isFinite = true) : RoundsTo (Json.floatText x) (ofFloat x) := by
  rw [Json.floatText, if_pos h]
  exact render_roundsTo .json h

/-- A number in JSON shows a point or an exponent. -/
theorem exists_decimal?_floatText (h : x.isFinite = true) :
    ∃ w, decimal? (Json.floatText x) = some w ∧ w.whole = false := by
  rw [Json.floatText, if_pos h, jsonText]
  obtain ⟨negative, hx⟩ | ⟨negative, b, hx⟩ := ofFloat_of_isFinite h
  · rw [hx]
    exact ⟨_, decimal?_render_zero .json negative, rfl⟩
  · rw [hx]
    exact ⟨_, decimal?_render .json negative b, by simp [Layout.json]⟩

/-- So a number in JSON denotes what it is written for. -/
theorem floatText_denotes (h : x.isFinite = true) : Denotes (Json.floatText x) (ofFloat x) := by
  refine ⟨floatText_roundsTo h, ?_⟩
  intro w hw hwhole
  obtain ⟨w', hw', hpoint⟩ := exists_decimal?_floatText h
  obtain rfl : w' = w := Option.some.inj (hw'.symm.trans hw)
  rw [hpoint] at hwhole
  cases hwhole

/-! ### One literal, one number -/

theorem decimal?_word (r : Reading) (h : r = .nan ∨ ∃ negative, r = .infinite negative)
    (hs : RoundsTo s r) : decimal? s = none := by
  obtain rfl | ⟨negative, rfl⟩ := h
  · rw [show s = "float('nan')" from hs]
    decide
  · cases negative with
    | false =>
      rw [show s = "float('inf')" from hs]
      decide
    | true =>
      rw [show s = "float('-inf')" from hs]
      decide

/-- What is rounded at all is no word. -/
theorem RoundsTo.nearest (h : RoundsTo s r) (hw : decimal? s = some w) : r.Nearest w.value := by
  cases r with
  | nan => rw [decimal?_word _ (.inl rfl) h] at hw; cases hw
  | infinite negative => rw [decimal?_word _ (.inr ⟨negative, rfl⟩) h] at hw; cases hw
  | zero negative =>
    obtain ⟨w', hw', hnearest⟩ := h
    rw [hw] at hw'
    rwa [Option.some.inj hw']
  | finite negative b =>
    obtain ⟨w', hw', hnearest⟩ := h
    rw [hw] at hw'
    rwa [Option.some.inj hw']

/-- A literal is rounded to one number, but for the sign of zero. -/
theorem RoundsTo.unique (hr : r.IsDouble) (hr' : r'.IsDouble) (h : RoundsTo s r)
    (h' : RoundsTo s r') : r.unsigned = r'.unsigned := by
  cases hs : decimal? s with
  | some w => exact (h.nearest hs).unique hr hr' (h'.nearest hs)
  | none =>
    have hword {r : Reading} (h : RoundsTo s r) :
        r = .nan ∨ ∃ negative, r = .infinite negative := by
      cases r with
      | nan => exact .inl rfl
      | infinite negative => exact .inr ⟨negative, rfl⟩
      | zero negative | finite negative b =>
        obtain ⟨w, hw, -⟩ := h
        rw [hs] at hw
        cases hw
    have hnan (negative : Bool) :
        "float('nan')" ≠ if negative then "float('-inf')" else "float('inf')" := by
      cases negative <;> decide
    obtain rfl | ⟨m, rfl⟩ := hword h <;> obtain rfl | ⟨n, rfl⟩ := hword h'
    · rfl
    · exact absurd ((Eq.symm h).trans h') (hnan n)
    · exact absurd ((Eq.symm h').trans h) (hnan m)
    · have hwords : (if m then "float('-inf')" else "float('inf')")
          = if n then "float('-inf')" else "float('inf')" := (Eq.symm h).trans h'
      cases m <;> cases n <;> first | rfl | exact absurd hwords (by decide)

/-- Numbers of one literal are one number, but for the sign of zero. -/
theorem number_injective (h : number x = number y) :
    (ofFloat x).unsigned = (ofFloat y).unsigned :=
  RoundsTo.unique (isDouble_ofFloat x) (isDouble_ofFloat y) (number_roundsTo x)
    (h ▸ number_roundsTo y)

/-! ### Small numbers -/

/-- A whole number that is rounded to a number below `2 ^ 53` is the number. -/
theorem eq_value_of_nearest {b : Binary} {n : Int} (hexponent : b.exponent ≤ 0)
    (h : b.Nearest n) : (n : ℚ) = b.value := by
  obtain ⟨k, hk⟩ := Int.eq_ofNat_of_zero_le (show 0 ≤ -b.exponent by omega)
  have hpos := two_zpow_pos b.exponent
  have hn : (n : ℚ) = ((n * 2 ^ k : Int) : ℚ) * 2 ^ b.exponent := by
    rw [show b.exponent = -(k : Int) by omega, zpow_neg, zpow_natCast]
    push_cast
    field_simp
  have hless : |((n * 2 ^ k - b.mantissa : Int) : ℚ)| < 1 := by
    have hhalf := h.abs_sub_le
    rw [hn, Binary.value, ← sub_mul, abs_mul, abs_of_pos hpos] at hhalf
    rw [Int.cast_sub, Int.cast_natCast]
    by_contra hge
    nlinarith
  have hzero : n * 2 ^ k - (b.mantissa : Int) = 0 := by
    rw [← Int.abs_lt_one_iff]
    exact_mod_cast hless
  rw [hn, Binary.value]
  congr 1
  have : n * 2 ^ k = (b.mantissa : Int) := by omega
  rw [this, Int.cast_natCast]

theorem exists_int_of_whole (h : decimal? s = some w) (hwhole : w.whole = true) :
    ∃ n : Int, w.value = n := by
  unfold decimal? at h
  dsimp only at h
  rw [Option.map_eq_some_iff] at h
  obtain ⟨w', h, rfl⟩ := h
  unfold unsignedDecimal? at h
  dsimp only at h
  split at h
  · split at h
    · cases h
    · cases h
      generalize natOfDigits ((takeSign s.toList).2.takeWhile isDigit) = n
      exact ⟨if (takeSign s.toList).1 then -(n : Int) else n, by simp [signed]⟩
  · split at h
    · cases h
    · split at h <;>
      · rw [Option.map_eq_some_iff] at h
        obtain ⟨e, -, rfl⟩ := h
        cases hwhole

/-- Numbers below `2 ^ 53` have no places before the point that they lack. -/
theorem exponent_nonpos {b : Binary} (hb : IsDouble b) (h : b.value < 2 ^ 53) :
    b.exponent ≤ 0 := by
  by_contra hpos
  have hfull : 2 ^ 52 ≤ b.mantissa := hb.full.resolve_left (by omega)
  have hscale : (2 : ℚ) ^ (1 : Int) ≤ 2 ^ b.exponent :=
    zpow_le_zpow_right₀ (by norm_num) (by omega)
  have hmantissa : (2 : ℚ) ^ 52 ≤ b.mantissa := by exact_mod_cast hfull
  unfold Binary.value at h
  rw [zpow_one] at hscale
  nlinarith

/-- A literal that is rounded to a number below `2 ^ 53` denotes it. -/
theorem RoundsTo.denotes_of_small (h : RoundsTo s r) (hr : r.IsDouble)
    (hsmall : ∀ v, r.value? = some v → |v| < 2 ^ 53) : Denotes s r := by
  refine ⟨h, fun w hw hwhole => ?_⟩
  obtain ⟨n, hn⟩ := exists_int_of_whole hw hwhole
  have hnearest := h.nearest hw
  rw [hn] at hnearest ⊢
  cases r with
  | nan => exact absurd hnearest id
  | infinite negative => rw [decimal?_word _ (.inr ⟨negative, rfl⟩) h] at hw; cases hw
  | zero negative =>
    rw [Reading.Nearest] at hnearest
    have hless : |(n : ℚ)| < 1 := lt_of_le_of_lt hnearest Reading.halfLeast_lt_one
    have hzero : n = 0 := Int.abs_lt_one_iff.mp (by exact_mod_cast hless)
    rw [hzero]
    rfl
  | finite negative b =>
    have hvalue : |signed negative b.value| = b.value := by
      have hpos := Binary.value_pos (hr negative b rfl).pos
      cases negative with
      | false => exact abs_of_pos hpos
      | true => exact (abs_neg b.value).trans (abs_of_pos hpos)
    have hexponent := exponent_nonpos (hr negative b rfl) (hvalue ▸ hsmall _ rfl)
    rw [Reading.Nearest] at hnearest
    have hsigned : b.Nearest ((if negative then -n else n : Int) : ℚ) := by
      cases negative <;> simpa [signed] using hnearest
    have heq := eq_value_of_nearest hexponent hsigned
    rw [Reading.value?, ← heq]
    cases negative <;> simp [signed]

end SheetScript.Literal
