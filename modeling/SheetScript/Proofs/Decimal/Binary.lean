import Mathlib
import SheetScript.Decimal.Shortest

/-! # Rounding to binary numbers

  The numbers of double precision leave gaps between them, and a rational number in a gap
  is rounded to the nearer end, from the middle to the end with the even mantissa.  So the
  rational numbers that are rounded to one number make an interval around it, and the
  intervals of two numbers have nothing in common.

  The shortest decimal of a number is rounded to the number: among the 20 grids that are
  tried the last one is finer than half of the last place, so the search ends, and it ends
  with a decimal in the interval around the number.

  Main statements: `Binary.rounds_iff`, that the test in the search for shortest decimals
  is this interval, `IsDouble.eq_of_nearest`, that no rational number is rounded to two
  numbers, and `IsDouble.nearest_shortest`.
-/

namespace SheetScript.Decimal

/-! ### Powers -/

theorem powerPart_pos {base : Nat} (h : 0 < base) (n : Int) : 0 < powerPart base n :=
  Nat.pow_pos h

theorem cast_powerPart_pos {base : Nat} (h : 0 < base) (n : Int) :
    (0 : ℚ) < powerPart base n := by
  exact_mod_cast powerPart_pos h n

/-- A power is the quotient of its two parts, of which one is one. -/
theorem zpow_eq_div {base : Nat} (h : 0 < base) (n : Int) :
    (base : ℚ) ^ n = powerPart base n / powerPart base (-n) := by
  have hbase : (base : ℚ) ≠ 0 := by exact_mod_cast h.ne'
  have hsplit : n = n.toNat - ((-n).toNat : Int) := by omega
  conv_lhs => rw [hsplit]
  rw [zpow_sub₀ hbase, zpow_natCast, zpow_natCast]
  simp [powerPart]

theorem two_zpow_pos (e : Int) : (0 : ℚ) < 2 ^ e := zpow_pos (by norm_num) e

/-- Digits behind a number make its exponent less. -/
theorem mul_two_pow_mul_zpow (q : ℚ) (k : Nat) (e : Int) :
    q * 2 ^ k * 2 ^ (e - k) = q * 2 ^ e := by
  rw [mul_assoc, ← zpow_natCast, ← zpow_add₀ (by norm_num), add_sub_cancel]

theorem ten_zpow_pos (k : Int) : (0 : ℚ) < 10 ^ k := zpow_pos (by norm_num) k

/-! ### Numbers and the intervals around them -/

namespace Binary

/-- The number itself. -/
def value (b : Binary) : ℚ := b.mantissa * 2 ^ b.exponent

/-- Half of the distance to the next number below, in quarters of the last place. -/
def quartersBelow (b : Binary) : Nat := if b.narrowBelow then 1 else 2

/-- The lower end of the interval around the number. -/
def lower (b : Binary) : ℚ := (4 * b.mantissa - b.quartersBelow) / 4 * 2 ^ b.exponent

/-- The upper end of the interval around the number, half of the last place above it. -/
def upper (b : Binary) : ℚ := (4 * b.mantissa + 2) / 4 * 2 ^ b.exponent

/-- A rational number that is rounded to `b`: it lies between the ends of the interval, and
  on them only if the mantissa is even. -/
def Nearest (b : Binary) (q : ℚ) : Prop :=
  if b.mantissa % 2 = 0 then b.lower ≤ q ∧ q ≤ b.upper else b.lower < q ∧ q < b.upper

variable {a b : Binary} {q : ℚ}

theorem quartersBelow_bounds (b : Binary) : 1 ≤ b.quartersBelow ∧ b.quartersBelow ≤ 2 := by
  unfold quartersBelow
  split <;> omega

theorem value_pos (h : 0 < b.mantissa) : 0 < b.value :=
  mul_pos (by exact_mod_cast h) (two_zpow_pos _)

/-- The number as a quotient of whole numbers. -/
theorem value_eq_div (b : Binary) :
    b.value = ((b.mantissa * powerPart 2 b.exponent : Nat) : ℚ)
      / (powerPart 2 (-b.exponent) : Nat) := by
  have htwo := zpow_eq_div (by decide : 0 < 2) b.exponent
  rw [value]
  push_cast at htwo ⊢
  rw [htwo, mul_div_assoc]

theorem lower_lt_value (b : Binary) : b.lower < b.value := by
  have hquarters : (1 : ℚ) ≤ b.quartersBelow := by exact_mod_cast b.quartersBelow_bounds.1
  exact mul_lt_mul_of_pos_right (by linarith) (two_zpow_pos _)

theorem value_lt_upper (b : Binary) : b.value < b.upper :=
  mul_lt_mul_of_pos_right (by linarith) (two_zpow_pos _)

theorem Nearest.bounds (h : b.Nearest q) : b.lower ≤ q ∧ q ≤ b.upper := by
  unfold Nearest at h
  split at h
  · exact h
  · exact ⟨h.1.le, h.2.le⟩

theorem nearest_of_between (hlower : b.lower < q) (hupper : q < b.upper) : b.Nearest q := by
  unfold Nearest
  split
  · exact ⟨hlower.le, hupper.le⟩
  · exact ⟨hlower, hupper⟩

theorem nearest_of_even (heven : b.mantissa % 2 = 0) (hlower : b.lower ≤ q)
    (hupper : q ≤ b.upper) : b.Nearest q := by
  unfold Nearest
  rw [if_pos heven]
  exact ⟨hlower, hupper⟩

/-- A number is rounded to itself. -/
theorem nearest_value (b : Binary) : b.Nearest b.value :=
  nearest_of_between b.lower_lt_value b.value_lt_upper

/-- What is rounded to a number differs from it by half of the last place at most. -/
theorem Nearest.abs_sub_le (h : b.Nearest q) : |q - b.value| ≤ 2 ^ b.exponent / 2 := by
  have hpos := two_zpow_pos b.exponent
  have hquarters : (b.quartersBelow : ℚ) ≤ 2 := by exact_mod_cast b.quartersBelow_bounds.2
  obtain ⟨hlower, hupper⟩ := h.bounds
  unfold lower at hlower
  unfold upper at hupper
  unfold value
  rw [abs_le]
  constructor <;> nlinarith

/-! ### The test of the search -/

/-- A common denominator of the multiples of `2 ^ e` and of `10 ^ k`. -/
def denominator (e k : Int) : ℚ := powerPart 2 (-e) * powerPart 10 (-k)

theorem denominator_pos (e k : Int) : 0 < denominator e k := by
  exact mul_pos (cast_powerPart_pos (by decide) _) (cast_powerPart_pos (by decide) _)

theorem cast_binary (c : Nat) (e k : Int) :
    ((c * (powerPart 2 e * powerPart 10 (-k)) : Nat) : ℚ) = c * 2 ^ e * denominator e k := by
  have htwo := zpow_eq_div (by decide : 0 < 2) e
  have hpos := cast_powerPart_pos (by decide : 0 < 2) (-e)
  push_cast at htwo ⊢
  rw [htwo, denominator]
  field_simp

theorem cast_decimal (d : Nat) (e k : Int) :
    ((d * powerPart 10 k * powerPart 2 (-e) : Nat) : ℚ) = d * 10 ^ k * denominator e k := by
  have hten := zpow_eq_div (by decide : 0 < 10) k
  have hpos := cast_powerPart_pos (by decide : 0 < 10) (-k)
  push_cast at hten ⊢
  rw [hten, denominator]
  field_simp

/-- The test in the search for shortest decimals is the interval around the number. -/
theorem rounds_iff (h : 0 < b.mantissa) (c : Nat) (k : Int) :
    b.rounds c k = true ↔ b.Nearest (c * 10 ^ k) := by
  have hscale := denominator_pos b.exponent k
  have hx : ((4 * c * powerPart 10 k * powerPart 2 (-b.exponent) : Nat) : ℚ)
      = 4 * (c * 10 ^ k) * denominator b.exponent k := by
    rw [cast_decimal]
    push_cast
    ring
  have hlower : (((4 * b.mantissa - b.quartersBelow)
        * (powerPart 2 b.exponent * powerPart 10 (-k)) : Nat) : ℚ)
      = 4 * b.lower * denominator b.exponent k := by
    have hquarters := b.quartersBelow_bounds
    rw [cast_binary, Nat.cast_sub (by omega), lower]
    push_cast
    ring
  have hupper : (((4 * b.mantissa + 2)
        * (powerPart 2 b.exponent * powerPart 10 (-k)) : Nat) : ℚ)
      = 4 * b.upper * denominator b.exponent k := by
    rw [cast_binary, upper]
    push_cast
    ring
  have hle (x y : ℚ) : 4 * x * denominator b.exponent k ≤ 4 * y * denominator b.exponent k
      ↔ x ≤ y := by
    rw [mul_le_mul_iff_left₀ hscale, mul_le_mul_iff_right₀ (by norm_num)]
  have hlt (x y : ℚ) : 4 * x * denominator b.exponent k < 4 * y * denominator b.exponent k
      ↔ x < y := by
    rw [mul_lt_mul_iff_left₀ hscale, mul_lt_mul_iff_right₀ (by norm_num)]
  unfold rounds Nearest
  rw [show (if b.narrowBelow then 1 else 2) = b.quartersBelow from rfl]
  simp only [beq_iff_eq]
  split
  · rw [Bool.and_eq_true, decide_eq_true_eq, decide_eq_true_eq, ← Nat.cast_le (α := ℚ),
      ← Nat.cast_le (α := ℚ), hlower, hupper, hx, hle, hle]
  · rw [Bool.and_eq_true, decide_eq_true_eq, decide_eq_true_eq, ← Nat.cast_lt (α := ℚ),
      ← Nat.cast_lt (α := ℚ), hlower, hupper, hx, hlt, hlt]

end Binary

/-! ### Double precision -/

/-- A number of double precision that is not zero: the mantissa is full unless the exponent
  is the least one, and the next number below is near where the mantissa is a power of
  two. -/
structure IsDouble (b : Binary) : Prop where
  pos : 0 < b.mantissa
  lt : b.mantissa < 2 ^ 53
  least : -1074 ≤ b.exponent
  most : b.exponent ≤ 971
  full : b.exponent = -1074 ∨ 2 ^ 52 ≤ b.mantissa
  narrow : b.narrowBelow = true ↔ b.mantissa = 2 ^ 52 ∧ b.exponent ≠ -1074

namespace IsDouble

variable {a b : Binary} {q : ℚ}

/-- A power of two is at least twice a lesser one. -/
theorem two_mul_zpow_le {e e' : Int} (h : e < e') : 2 * (2 : ℚ) ^ e ≤ 2 ^ e' := by
  rw [← zpow_one_add₀ (by norm_num : (2 : ℚ) ≠ 0)]
  exact zpow_le_zpow_right₀ (by norm_num) (by omega)

/-- The lesser number does not have the greater exponent. -/
theorem exponent_le (ha : IsDouble a) (hb : IsDouble b) (h : a.value ≤ b.value) :
    a.exponent ≤ b.exponent := by
  by_contra hlt
  have hfull : 2 ^ 52 ≤ a.mantissa := ha.full.resolve_left (by have := hb.least; omega)
  have hstep := two_mul_zpow_le (lt_of_not_ge hlt)
  have hpos := two_zpow_pos b.exponent
  have hmantissa : (b.mantissa : ℚ) < 2 ^ 53 := by exact_mod_cast hb.lt
  have hvalue : (2 : ℚ) ^ 52 * (2 * 2 ^ b.exponent) ≤ a.value := by
    refine mul_le_mul (by exact_mod_cast hfull) hstep (by positivity) (by positivity)
  have hother : b.value < 2 ^ 53 * 2 ^ b.exponent := mul_lt_mul_of_pos_right hmantissa hpos
  linarith

/-- The interval around a number lies below that around a greater one; if they have an end
  in common, one of the mantissas is odd. -/
theorem upper_le_lower (ha : IsDouble a) (hb : IsDouble b) (h : a.value < b.value) :
    a.upper < b.lower ∨ a.upper = b.lower ∧ (a.mantissa % 2 = 1 ∨ b.mantissa % 2 = 1) := by
  have hpos := two_zpow_pos a.exponent
  obtain heq | hlt := (exponent_le ha hb h.le).eq_or_lt
  · -- Of one exponent the ends are half of a place from the numbers, and these a place apart.
    have hmantissa : a.mantissa < b.mantissa := by
      unfold Binary.value at h
      rw [← heq] at h
      exact_mod_cast lt_of_mul_lt_mul_right h hpos.le
    have hwide : b.quartersBelow = 2 := by
      have hnarrow : b.narrowBelow ≠ true := fun hb' => by
        have := hb.narrow.mp hb'
        have := ha.full
        omega
      simp [Binary.quartersBelow, hnarrow]
    unfold Binary.upper Binary.lower
    rw [hwide, ← heq]
    obtain hnext | hbeyond : b.mantissa = a.mantissa + 1 ∨ a.mantissa + 2 ≤ b.mantissa := by
      omega
    · right
      refine ⟨?_, by omega⟩
      rw [hnext]
      push_cast
      ring
    · left
      have hgap : (a.mantissa : ℚ) + 2 ≤ b.mantissa := by exact_mod_cast hbeyond
      exact mul_lt_mul_of_pos_right (by push_cast; linarith) hpos
  · have hstep := two_mul_zpow_le hlt
    have hgreatest : (a.mantissa : ℚ) ≤ 2 ^ 53 - 1 := by
      have : (a.mantissa : ℚ) + 1 ≤ 2 ^ 53 := by exact_mod_cast ha.lt
      linarith
    have hfull : 2 ^ 52 ≤ b.mantissa := hb.full.resolve_left (by have := ha.least; omega)
    unfold Binary.upper Binary.lower
    obtain hpower | hbeyond := hfull.eq_or_lt
    · -- The greater number is a power of two, and the gap below it is one of the lesser.
      have hnarrow : b.quartersBelow = 1 := by
        have := hb.narrow.mpr ⟨hpower.symm, by have := ha.least; omega⟩
        simp [Binary.quartersBelow, this]
      rw [hnarrow, ← hpower]
      have hlower : (2 ^ 53 - 1 / 2 : ℚ) * 2 ^ a.exponent
          ≤ (4 * (2 ^ 52 : Nat) - (1 : Nat)) / 4 * 2 ^ b.exponent := by
        push_cast
        linarith
      obtain hlast | hless : a.mantissa = 2 ^ 53 - 1 ∨ a.mantissa + 2 ≤ 2 ^ 53 := by
        have := ha.lt
        omega
      · have hupper : (4 * (a.mantissa : ℚ) + 2) / 4 = 2 ^ 53 - 1 / 2 := by
          rw [hlast]
          norm_num
        rw [hupper]
        obtain hsame | hbelow := hlower.eq_or_lt
        · exact .inr ⟨hsame, .inl (by omega)⟩
        · exact .inl hbelow
      · left
        have hmantissa : (a.mantissa : ℚ) + 2 ≤ 2 ^ 53 := by exact_mod_cast hless
        exact lt_of_lt_of_le (mul_lt_mul_of_pos_right (by linarith) hpos) hlower
    · left
      have hmantissa : (2 : ℚ) ^ 52 + 1 ≤ b.mantissa := by exact_mod_cast hbeyond
      have hquarters : (b.quartersBelow : ℚ) ≤ 2 := by exact_mod_cast b.quartersBelow_bounds.2
      calc (4 * (a.mantissa : ℚ) + 2) / 4 * 2 ^ a.exponent
          ≤ (2 ^ 53 - 1 / 2) * 2 ^ a.exponent :=
            mul_le_mul_of_nonneg_right (by linarith) hpos.le
        _ < (2 ^ 52 + 1 / 2) * (2 * 2 ^ a.exponent) := by nlinarith
        _ ≤ (2 ^ 52 + 1 / 2) * 2 ^ b.exponent := mul_le_mul_of_nonneg_left hstep (by norm_num)
        _ ≤ (4 * b.mantissa - b.quartersBelow) / 4 * 2 ^ b.exponent :=
            mul_le_mul_of_nonneg_right (by linarith) (two_zpow_pos _).le

/-- Numbers of double precision are equal if their values are. -/
theorem eq_of_value_eq (ha : IsDouble a) (hb : IsDouble b) (h : a.value = b.value) : a = b := by
  have hexponent : a.exponent = b.exponent :=
    le_antisymm (exponent_le ha hb h.le) (exponent_le hb ha h.ge)
  have hmantissa : a.mantissa = b.mantissa := by
    unfold Binary.value at h
    rw [hexponent] at h
    exact_mod_cast mul_right_cancel₀ (two_zpow_pos _).ne' h
  have hnarrow : a.narrowBelow = b.narrowBelow := by
    rw [Bool.eq_iff_iff, ha.narrow, hb.narrow, hmantissa, hexponent]
  cases a
  cases b
  simp_all

/-- No rational number is rounded to a number and to a greater one. -/
theorem not_nearest_of_lt (ha : IsDouble a) (hb : IsDouble b) (h : a.value < b.value)
    (hqa : a.Nearest q) : ¬ b.Nearest q := by
  intro hqb
  have hupper := hqa.bounds.2
  have hlower := hqb.bounds.1
  obtain hlt | ⟨heq, hodd⟩ := upper_le_lower ha hb h
  · linarith
  · -- The number in the common end is not rounded to where the mantissa is odd.
    unfold Binary.Nearest at hqa hqb
    obtain hodd | hodd := hodd
    · rw [if_neg (by omega)] at hqa
      linarith [hqa.2]
    · rw [if_neg (by omega)] at hqb
      linarith [hqb.1]

/-- No rational number is rounded to two numbers. -/
theorem eq_of_nearest (ha : IsDouble a) (hb : IsDouble b) (hqa : a.Nearest q)
    (hqb : b.Nearest q) : a = b := by
  obtain h | h | h := lt_trichotomy a.value b.value
  · exact absurd hqb (not_nearest_of_lt ha hb h hqa)
  · exact eq_of_value_eq ha hb h
  · exact absurd hqa (not_nearest_of_lt hb ha h hqb)

end IsDouble

namespace Binary

variable {b : Binary} {k : Int} {c : Nat}

/-! ### The grid of a power of ten -/

theorem ratio_pos (b : Binary) (k : Int) : 0 < (b.ratio k).2 :=
  Nat.mul_pos (powerPart_pos (by decide) _) (powerPart_pos (by decide) _)

/-- Numerator and denominator make the quotient of the number and the power. -/
theorem ratio_eq (b : Binary) (k : Int) :
    ((b.ratio k).1 : ℚ) = b.value / 10 ^ k * (b.ratio k).2 := by
  have htwo := zpow_eq_div (by decide : 0 < 2) b.exponent
  have hten := zpow_eq_div (by decide : 0 < 10) k
  have hpos := cast_powerPart_pos (by decide : 0 < 2) (-b.exponent)
  have hpos' := cast_powerPart_pos (by decide : 0 < 10) k
  have hpos'' := cast_powerPart_pos (by decide : 0 < 10) (-k)
  push_cast at htwo hten
  unfold ratio value
  push_cast
  rw [htwo, hten]
  field_simp

/-- The number lies below a power of ten if its numerator does below its denominator. -/
theorem ratio_lt_iff (b : Binary) (k : Int) :
    (b.ratio k).1 < (b.ratio k).2 ↔ b.value < 10 ^ k := by
  have hpos : (0 : ℚ) < (b.ratio k).2 := by exact_mod_cast b.ratio_pos k
  rw [← Nat.cast_lt (α := ℚ), ratio_eq, mul_lt_iff_lt_one_left hpos, div_lt_one (ten_zpow_pos k)]

/-- The neighbours of the number on the grid. -/
theorem between_neighbours (b : Binary) (k : Int) :
    ((b.ratio k).1 / (b.ratio k).2 : Nat) * 10 ^ k ≤ b.value
      ∧ b.value < (((b.ratio k).1 / (b.ratio k).2 + 1 : Nat) : ℚ) * 10 ^ k := by
  have hten := ten_zpow_pos k
  have hpos : (0 : ℚ) < (b.ratio k).2 := by exact_mod_cast b.ratio_pos k
  have hvalue : b.value = ((b.ratio k).1 : ℚ) / (b.ratio k).2 * 10 ^ k := by
    rw [ratio_eq]
    field_simp
  rw [hvalue]
  constructor
  · exact mul_le_mul_of_nonneg_right Nat.cast_div_le hten.le
  · refine mul_lt_mul_of_pos_right ?_ hten
    rw [div_lt_iff₀ hpos]
    exact_mod_cast Nat.lt_mul_of_div_lt (Nat.lt_succ_self _) (b.ratio_pos k)

/-- What is found on a grid is rounded to the number. -/
theorem rounds_of_onGrid (h : b.onGrid k = some c) : b.rounds c k = true := by
  unfold onGrid at h
  dsimp only at h
  split at h
  · rename_i hlow hhigh
    rw [Bool.and_eq_true] at hlow
    cases h
    split
    · exact hlow.1
    · exact hhigh
  · rename_i hlow _
    rw [Bool.and_eq_true] at hlow
    cases h
    exact hlow.1
  · rename_i hhigh
    cases h
    exact hhigh
  · cases h

theorem onGrid_isSome (h : b.rounds ((b.ratio k).1 / (b.ratio k).2 + 1) k = true) :
    (b.onGrid k).isSome = true := by
  unfold onGrid
  dsimp only
  rw [h]
  split <;> simp_all

end Binary

/-! ### The order of magnitude -/

/-- The guess of the number of digits is not too high. -/
theorem ten_zpow_guess_le {n : Int} (hleast : -1074 ≤ n) (hmost : n ≤ 1023) :
    (10 : ℚ) ^ (n * 30103 / 100000) ≤ 10 * 2 ^ n := by
  -- There are few exponents, and for each of them it is a comparison of whole numbers.
  have hall : ∀ i : Nat, i < 2098 → powerPart 10 (((i : Int) - 1074) * 30103 / 100000)
      * powerPart 2 (-((i : Int) - 1074))
      ≤ 10 * powerPart 2 ((i : Int) - 1074)
        * powerPart 10 (-(((i : Int) - 1074) * 30103 / 100000)) := by
    decide +kernel
  have hn : ((n + 1074).toNat : Int) - 1074 = n := by omega
  have hle := hall (n + 1074).toNat (by omega)
  rw [hn] at hle
  have htwo := zpow_eq_div (by decide : 0 < 2) n
  have hten := zpow_eq_div (by decide : 0 < 10) (n * 30103 / 100000)
  have hpos := cast_powerPart_pos (by decide : 0 < 2) (-n)
  have hpos' := cast_powerPart_pos (by decide : 0 < 10) (-(n * 30103 / 100000))
  push_cast at htwo hten
  rw [htwo, hten, ← mul_div_assoc, div_le_div_iff₀ hpos' hpos]
  exact_mod_cast hle

/-- The power above a number is at most ten times the number. -/
theorem IsDouble.ten_zpow_magnitude_le {b : Binary} (hb : IsDouble b) :
    (10 : ℚ) ^ b.magnitude ≤ 10 * b.value := by
  have hmantissa := (Nat.log2_eq_iff hb.pos.ne').mp rfl
  have hlog : b.mantissa.log2 < 53 := (Nat.log2_lt hb.pos.ne').mpr hb.lt
  have hpower : (2 : ℚ) ^ ((b.mantissa.log2 : Int) + b.exponent) ≤ b.value := by
    rw [zpow_add₀ (by norm_num), zpow_natCast]
    exact mul_le_mul_of_nonneg_right (by exact_mod_cast hmantissa.1) (two_zpow_pos _).le
  have hguess := ten_zpow_guess_le (n := (b.mantissa.log2 : Int) + b.exponent)
    (by have := hb.least; omega) (by have := hb.most; omega)
  have hnext (k : Int) (h : ¬ (b.ratio k).1 < (b.ratio k).2) :
      (10 : ℚ) ^ (k + 1) ≤ 10 * b.value := by
    rw [Binary.ratio_lt_iff, not_lt] at h
    rw [zpow_add_one₀ (by norm_num), mul_comm]
    linarith
  unfold Binary.magnitude
  simp only [decide_eq_true_eq]
  split
  · linarith
  · rename_i hfirst
    split
    · exact hnext _ hfirst
    · rename_i hsecond
      have := hnext _ hsecond
      rwa [add_assoc] at this

/-- The last grid that is tried is finer than half of the last place. -/
theorem IsDouble.ten_zpow_lt {b : Binary} (hb : IsDouble b) :
    (10 : ℚ) ^ (b.magnitude - 20) < 2 ^ b.exponent / 2 := by
  have hpos := two_zpow_pos b.exponent
  have hvalue : b.value < 2 ^ 53 * 2 ^ b.exponent :=
    mul_lt_mul_of_pos_right (by exact_mod_cast hb.lt) hpos
  have hmagnitude := hb.ten_zpow_magnitude_le
  rw [zpow_sub₀ (by norm_num)]
  rw [div_lt_iff₀ (by norm_num)]
  norm_num
  linarith

/-! ### The end of the search -/

/-- Moving zeros into the exponent keeps the value. -/
theorem stripZeros_value (fuel d : Nat) (e : Int) :
    ((stripZeros fuel d e).1 : ℚ) * 10 ^ (stripZeros fuel d e).2 = d * 10 ^ e := by
  induction fuel generalizing d e with
  | zero => rfl
  | succ fuel ih =>
    unfold stripZeros
    split
    · rename_i h
      rw [Bool.and_eq_true, beq_iff_eq] at h
      rw [ih, zpow_add_one₀ (by norm_num)]
      have hten : (d : ℚ) = 10 * (d / 10 : Nat) := by
        exact_mod_cast (Nat.mul_div_cancel' (Nat.dvd_of_mod_eq_zero h.1)).symm
      rw [hten]
      ring
    · rfl

/-- The shortest decimal of a number is rounded to the number. -/
theorem IsDouble.nearest_shortest {b : Binary} (hb : IsDouble b) :
    b.Nearest (b.shortest.1 * 10 ^ b.shortest.2) := by
  have hlast : (b.onGrid (b.magnitude - 20)).isSome = true := by
    have hbetween := b.between_neighbours (b.magnitude - 20)
    have hgrid := hb.ten_zpow_lt
    refine Binary.onGrid_isSome ((Binary.rounds_iff hb.pos _ _).mpr ?_)
    refine Binary.nearest_of_between (lt_trans b.lower_lt_value hbetween.2) ?_
    have hupper : b.upper = b.value + 2 ^ b.exponent / 2 := by
      rw [Binary.upper, Binary.value]
      ring
    rw [hupper]
    push_cast
    linarith [hbetween.1]
  unfold Binary.shortest
  dsimp only
  split
  · rename_i c k h
    obtain ⟨n, -, hn⟩ := List.exists_of_findSome?_eq_some h
    rw [Option.map_eq_some_iff] at hn
    obtain ⟨c', hc', hpair⟩ := hn
    cases hpair
    rw [stripZeros_value]
    exact (Binary.rounds_iff hb.pos _ _).mp (Binary.rounds_of_onGrid hc')
  · rename_i h
    rw [List.findSome?_eq_none_iff] at h
    have := h 19 (by simp)
    rw [Option.map_eq_none_iff] at this
    rw [show b.magnitude - ((19 + 1 : Nat) : Int) = b.magnitude - 20 from rfl] at this
    rw [this] at hlast
    cases hlast

end SheetScript.Decimal
