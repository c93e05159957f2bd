import SheetScript.Proofs.Decimal.Double

/-! # Rounding

  The library drops the digits that a mantissa has too many, rounds what is left to the
  nearest and from the middle to the even, and drops the digit into which rounding may have
  carried.  The result is the nearest number.  A whole number is converted this way, once
  or, if it is small, before a product with one.

  Main statements: `roundWithAccuracy_exact` and `ofInt_nearest`.
-/

namespace SheetScript.Decimal

open Float.Model

/-! ### Shifts -/

/-- A number without its last `k` binary digits, rounded to the nearest and from the middle
  to the even. -/
def halfEven (m k : Nat) : Nat :=
  if 2 * (m % 2 ^ k) < 2 ^ k then m / 2 ^ k
  else if 2 * (m % 2 ^ k) = 2 ^ k then m / 2 ^ k + m / 2 ^ k % 2
  else m / 2 ^ k + 1

/-- Shifting keeps the first digit that is dropped, and whether any digit follows it. -/
theorem shiftRight_exact (m k : Nat) :
    (⟨m, false, false⟩ : UnpackedFloat.ExtendedMantissa) >>> k
      = ⟨m / 2 ^ k, decide (2 ^ k ≤ 2 * (m % 2 ^ k)), decide (2 * (m % 2 ^ k) % 2 ^ k ≠ 0)⟩ := by
  show Nat.repeat UnpackedFloat.ExtendedMantissa.shiftRightOne k _ = _
  induction k with
  | zero => simp [Nat.repeat, Nat.mod_one]
  | succ k ih =>
    have hrest := Nat.mod_lt m (Nat.two_pow_pos k)
    have hbit := Nat.mod_two_eq_zero_or_one (m / 2 ^ k)
    have hsplit := Nat.mod_pow_succ (b := 2) (k := k) (x := m)
    have hdouble : 2 * (m % 2 ^ (k + 1)) % 2 ^ (k + 1) = 2 * (m % 2 ^ k) := by
      rw [Nat.pow_succ', Nat.mul_mod_mul_left, Nat.mod_mul_left_mod]
    rw [Nat.repeat, ih]
    unfold UnpackedFloat.ExtendedMantissa.shiftRightOne
    rw [UnpackedFloat.ExtendedMantissa.mk.injEq, hdouble, hsplit, Nat.pow_succ,
      Nat.div_div_eq_div_mul]
    generalize m % 2 ^ k = rest at *
    generalize 2 ^ k = power at *
    refine ⟨rfl, ?_, ?_⟩
    · rw [Bool.eq_iff_iff]
      obtain h | h := hbit <;> simp [h] <;> omega
    · rw [Bool.eq_iff_iff]
      obtain h | h := Nat.lt_or_ge (2 * rest) power
      · simp [Nat.mod_eq_of_lt h, Nat.not_le.mpr h]
      · simp [h]
        omega

/-- The digits that are kept decide how a number is rounded. -/
theorem roundedMantissa_shiftRight (m k : Nat) :
    ((⟨m, false, false⟩ : UnpackedFloat.ExtendedMantissa) >>> k).roundedMantissa
      = halfEven m k := by
  have hrest := Nat.mod_lt m (Nat.two_pow_pos k)
  rw [shiftRight_exact]
  unfold UnpackedFloat.ExtendedMantissa.roundedMantissa halfEven
  generalize m / 2 ^ k = quotient
  generalize m % 2 ^ k = rest at *
  generalize 2 ^ k = power at *
  obtain h | h := Nat.lt_or_ge (2 * rest) power
  · rw [if_pos h, decide_eq_false (Nat.not_le.mpr h)]
    cases decide (2 * rest % power ≠ 0) <;> rfl
  · have hmod : 2 * rest % power = 2 * rest - power := by
      rw [Nat.mod_eq_sub_mod h, Nat.mod_eq_of_lt (by omega)]
    rw [if_neg (Nat.not_lt.mpr h), decide_eq_true h, hmod]
    split
    · rw [decide_eq_false (by omega)]
      rfl
    · rw [decide_eq_true (by omega)]
      rfl

/-! ### The nearest number -/

/-- The number with a mantissa of 53 digits, or with the least of 54. -/
def carried (m : Nat) (e : Int) : Binary :=
  if m = 2 ^ 53 then ⟨2 ^ 52, e + 1, true⟩ else ⟨m, e, m == 2 ^ 52 && e != -1074⟩

theorem halfEven_bounds {m k : Nat} (hleast : 2 ^ 52 ≤ m / 2 ^ k) (hlt : m / 2 ^ k < 2 ^ 53) :
    2 ^ 52 ≤ halfEven m k ∧ halfEven m k ≤ 2 ^ 53 := by
  unfold halfEven
  split
  · omega
  · split <;> omega

theorem carried_isDouble {m : Nat} {e : Int} (hm : 2 ^ 52 ≤ m ∧ m ≤ 2 ^ 53) (hleast : -1074 ≤ e)
    (hmost : e ≤ 970) : IsDouble (carried m e) := by
  unfold carried
  split
  · constructor <;> simp <;> omega
  · constructor <;> simp <;> omega

theorem carried_even {m : Nat} {e : Int} (h : m % 2 = 0) : (carried m e).mantissa % 2 = 0 := by
  unfold carried
  split
  · norm_num
  · exact h

theorem carried_value (m : Nat) (e : Int) : (carried m e).value = m * 2 ^ e := by
  unfold carried
  split
  · rename_i h
    rw [h, Binary.value, zpow_add_one₀ (by norm_num)]
    push_cast
    ring
  · rfl

theorem carried_upper {m : Nat} {e : Int} (h : m < 2 ^ 53) :
    (carried m e).upper = (m + 1 / 2) * 2 ^ e := by
  unfold carried
  rw [if_neg h.ne, Binary.upper]
  ring

theorem carried_lower {m : Nat} {e : Int} (h : 2 ^ 52 < m) :
    (carried m e).lower = (m - 1 / 2) * 2 ^ e := by
  unfold carried
  split
  · rename_i hm
    rw [hm, Binary.lower, zpow_add_one₀ (by norm_num)]
    norm_num [Binary.quartersBelow]
    ring
  · have hwide : Binary.quartersBelow ⟨m, e, m == 2 ^ 52 && e != -1074⟩ = 2 := by
      have hne : (m == 2 ^ 52) = false := by simpa using h.ne'
      rw [Binary.quartersBelow, hne, Bool.false_and]
      rfl
    rw [Binary.lower, hwide]
    push_cast
    ring

/-- Rounding the digits of a number gives the nearest one. -/
theorem carried_nearest {m k : Nat} {e : Int} (hleast : 2 ^ 52 ≤ m / 2 ^ k)
    (hlt : m / 2 ^ k < 2 ^ 53) :
    (carried (halfEven m k) (e + k)).Nearest (m * 2 ^ e) := by
  have hpos := two_zpow_pos e
  have hscale : (2 : ℚ) ^ (e + k) = 2 ^ k * 2 ^ e := by
    rw [zpow_add₀ (by norm_num), zpow_natCast, mul_comm]
  have hsplit : (m : ℚ) = 2 ^ k * (m / 2 ^ k : Nat) + (m % 2 ^ k : Nat) := by
    exact_mod_cast (Nat.div_add_mod m (2 ^ k)).symm
  have hrest : ((m % 2 ^ k : Nat) : ℚ) < 2 ^ k := by
    exact_mod_cast Nat.mod_lt m (Nat.two_pow_pos k)
  have hrest_nonneg : (0 : ℚ) ≤ (m % 2 ^ k : Nat) := Nat.cast_nonneg _
  have hdown : (carried (m / 2 ^ k) (e + k)).lower < m * 2 ^ e := by
    refine lt_of_lt_of_le (Binary.lower_lt_value _) ?_
    rw [carried_value, hscale, hsplit]
    nlinarith
  have hup : (m : ℚ) * 2 ^ e < (carried (m / 2 ^ k + 1) (e + k)).upper := by
    refine lt_trans ?_ (Binary.value_lt_upper _)
    rw [carried_value, hscale, hsplit]
    push_cast
    nlinarith
  have hupper := carried_upper (e := e + k) hlt
  have hlower := carried_lower (e := e + k) (Nat.lt_succ_of_le hleast)
  rw [hscale] at hupper hlower
  push_cast at hlower
  -- The ends of the interval are half of a place away from what is left of the digits.
  unfold halfEven
  split
  · rename_i hless
    have hless : 2 * ((m % 2 ^ k : Nat) : ℚ) < 2 ^ k := by exact_mod_cast hless
    refine Binary.nearest_of_between hdown ?_
    rw [hupper, hsplit]
    nlinarith
  · split
    · rename_i hmiddle
      have hmiddle : 2 * ((m % 2 ^ k : Nat) : ℚ) = 2 ^ k := by exact_mod_cast hmiddle
      obtain heven | hodd := Nat.mod_two_eq_zero_or_one (m / 2 ^ k)
      · rw [heven, Nat.add_zero]
        refine Binary.nearest_of_even (carried_even heven) hdown.le ?_
        rw [hupper, hsplit]
        nlinarith
      · rw [hodd]
        refine Binary.nearest_of_even (carried_even (by omega)) ?_ hup.le
        rw [hlower, hsplit]
        nlinarith
    · rename_i hless hmiddle
      have hgreater : (2 : ℚ) ^ k < 2 * (m % 2 ^ k : Nat) := by
        exact_mod_cast (by omega : 2 ^ k < 2 * (m % 2 ^ k))
      refine Binary.nearest_of_between ?_ hup
      rw [hlower, hsplit]
      nlinarith

theorem shiftToTargetExponent_exact {m k : Nat} {e : Int} (h : m.log2 = 52 + k)
    (hleast : -1074 ≤ e + k) :
    UnpackedFloat.shiftToTargetExponent .binary64 m e .exact
      = ((⟨m, false, false⟩ : UnpackedFloat.ExtendedMantissa) >>> k, e + k) := by
  have htarget : Format.binary64.targetExponent (totalExponent m e) = e + k := by
    have hleast' : Format.binary64.minExponent = -1074 := by decide
    have hbits : Format.binary64.mantissaBits = 53 := rfl
    unfold Format.targetExponent totalExponent
    rw [h, hleast', hbits]
    push_cast
    omega
  unfold UnpackedFloat.shiftToTargetExponent UnpackedFloat.shiftToExponent
  dsimp only
  rw [htarget, show (e + k - e).toNat = k by omega]
  rfl

/-- What a whole number `m` times `2 ^ e` is rounded to, as far as it is not below the normal
  numbers: the nearest number, of about the same exponent. -/
structure Rounded (b : Binary) (m : Nat) (e : Int) : Prop where
  isDouble : IsDouble b
  nearest : b.Nearest (m * 2 ^ e)
  full : 2 ^ 52 ≤ b.mantissa
  least : m.log2 + e - 52 ≤ b.exponent
  most : b.exponent ≤ m.log2 + e - 51

/-- A whole number of 53 binary digits or more, times a power of two, is rounded to the
  nearest number. -/
theorem roundWithAccuracy_exact (s : UnpackedFloat.Sign) {m : Nat} {e : Int}
    (hm : 2 ^ 52 ≤ m) (hleast : -1022 ≤ m.log2 + e) (hmost : m.log2 + e ≤ 1022) :
    ∃ b, Rounded b m e ∧ ∃ h,
      UnpackedFloat.roundWithAccuracy .binary64 s m e .exact
        = .finite s b.mantissa b.exponent h := by
  have hne : m ≠ 0 := by omega
  obtain ⟨k, hk⟩ : ∃ k, m.log2 = 52 + k := Nat.exists_eq_add_of_le ((Nat.le_log2 hne).mpr hm)
  have hquotient : 2 ^ 52 ≤ m / 2 ^ k ∧ m / 2 ^ k < 2 ^ 53 := by
    have hlog := (Nat.log2_eq_iff hne).mp hk
    rw [Nat.le_div_iff_mul_le (Nat.two_pow_pos k), Nat.div_lt_iff_lt_mul (Nat.two_pow_pos k),
      ← Nat.pow_add, ← Nat.pow_add]
    exact ⟨hlog.1, by rw [show 53 + k = 52 + k + 1 by omega]; exact hlog.2⟩
  have hhalf := halfEven_bounds hquotient.1 hquotient.2
  have hdouble := carried_isDouble (e := e + k) hhalf (by omega) (by omega)
  -- Rounding may have carried into a digit more, and the second shift drops it.
  have hcarried : (UnpackedFloat.shiftToTargetExponent .binary64 (halfEven m k) (e + k)
        .exact).1.mantissa = (carried (halfEven m k) (e + k)).mantissa
      ∧ (UnpackedFloat.shiftToTargetExponent .binary64 (halfEven m k) (e + k) .exact).2
        = (carried (halfEven m k) (e + k)).exponent := by
    unfold carried
    split
    · rename_i hcarry
      rw [hcarry, shiftToTargetExponent_exact (k := 1) (by rw [Nat.log2_two_pow]) (by omega),
        shiftRight_exact]
      exact ⟨by norm_num, rfl⟩
    · rw [shiftToTargetExponent_exact (k := 0) ?_ (by omega), shiftRight_exact]
      · exact ⟨by simp, by simp⟩
      · rw [Nat.log2_eq_iff (by omega)]
        exact ⟨hhalf.1, by omega⟩
  have hrounded : Rounded (carried (halfEven m k) (e + k)) m e := by
    refine ⟨hdouble, carried_nearest hquotient.1 hquotient.2, ?_, ?_, ?_⟩
    all_goals
      unfold carried
      split <;> dsimp only <;> omega
  refine ⟨_, hrounded, hdouble.pos, ?_⟩
  unfold UnpackedFloat.roundWithAccuracy
  rw [shiftToTargetExponent_exact hk (by omega)]
  dsimp only
  rw [roundedMantissa_shiftRight]
  rw [dif_neg]
  · rw [UnpackedFloat.finite.injEq]
    exact ⟨rfl, hcarried⟩
  · rw [hcarried.1]
    exact hdouble.pos.ne'

/-! ### Whole numbers -/

theorem log2_shiftLeft {n : Nat} (hn : n ≠ 0) (k : Nat) : (n <<< k).log2 = n.log2 + k := by
  rw [Nat.shiftLeft_eq]
  induction k with
  | zero => simp
  | succ k ih =>
    rw [Nat.pow_succ, ← Nat.mul_assoc, Nat.mul_comm, Nat.log2_two_mul (by positivity), ih]
    rfl

/-- A positive whole number is rounded to the nearest number. -/
theorem round_nat (s : UnpackedFloat.Sign) {n : Nat} (hn : 0 < n) (hmost : n.log2 ≤ 1022) :
    ∃ b, Rounded b n 0 ∧ ∃ h,
      UnpackedFloat.round .binary64 s n 0 = .finite s b.mantissa b.exponent h := by
  have hlog := log2_shiftLeft hn.ne' (52 - n.log2)
  have hprecise : 2 ^ 52 ≤ n <<< (52 - n.log2) := by
    rw [← Nat.le_log2 (by simp [Nat.shiftLeft_eq, hn.ne']), hlog]
    omega
  have hshift : (0 - Format.binary64.targetExponent (totalExponent n 0)).toNat
      = 52 - n.log2 := by
    have hleast : Format.binary64.minExponent = -1074 := by decide
    have hbits : Format.binary64.mantissaBits = 53 := rfl
    unfold Format.targetExponent totalExponent
    rw [hleast, hbits]
    omega
  obtain ⟨b, hb, hround⟩ :=
    roundWithAccuracy_exact s (e := 0 - ((52 - n.log2 : Nat) : Int)) hprecise (by omega) (by omega)
  have hleast := hb.least
  have hmost := hb.most
  refine ⟨b, ⟨hb.isDouble, ?_, hb.full, by omega, by omega⟩, ?_⟩
  · have hnearest := hb.nearest
    rw [Nat.shiftLeft_eq, Nat.cast_mul, Nat.cast_pow, Nat.cast_two, mul_two_pow_mul_zpow]
      at hnearest
    exact hnearest
  · unfold UnpackedFloat.round UnpackedFloat.decreaseExponent
    dsimp only
    rw [hshift]
    exact hround

/-- A number that is read is unpacked. -/
theorem unpack_of_ofFloat {x : Float} {s : UnpackedFloat.Sign} {b : Binary} (hb : IsDouble b)
    (h : ofFloat x = .finite (s == .negative) b) :
    x.toModel.unpack = .finite s b.mantissa b.exponent hb.pos := by
  have hnarrow := hb.narrow
  refine ofUnpacked_inj ?_
  rw [← ofFloat_eq, h, ofUnpacked, Reading.finite.injEq]
  obtain ⟨m, e, narrow⟩ := b
  rw [Binary.mk.injEq]
  refine ⟨rfl, rfl, rfl, ?_⟩
  rw [Bool.eq_iff_iff]
  simpa using hnarrow

theorem ofFloat_one (h : 0 < Float.exactlyRepresentablePowersOfTen.size) :
    ofFloat Float.exactlyRepresentablePowersOfTen[0] = .finite false ⟨2 ^ 52, -52, true⟩ := by
  revert h
  decide

/-- A product with one is the number itself. -/
theorem ofFloat_mul_one {x y : Float} {b : Binary} (hb : IsDouble b) (hfull : 2 ^ 52 ≤ b.mantissa)
    (hleast : -1074 ≤ b.exponent) (hmost : b.exponent ≤ 970)
    (hx : ofFloat x = .finite false b) (hy : ofFloat y = .finite false ⟨2 ^ 52, -52, true⟩) :
    ofFloat (x * y) = .finite false b := by
  have hone : IsDouble ⟨2 ^ 52, -52, true⟩ := by constructor <;> norm_num
  have hlog : (b.mantissa * 2 ^ 52).log2 = 52 + 52 := by
    rw [← Nat.shiftLeft_eq, log2_shiftLeft hb.pos.ne',
      (Nat.log2_eq_iff hb.pos.ne').mpr ⟨hfull, hb.lt⟩]
  have hprecise : 2 ^ 52 ≤ b.mantissa * 2 ^ 52 := Nat.le_mul_of_pos_left _ hb.pos
  obtain ⟨b', hb', h', hround⟩ :=
    roundWithAccuracy_exact .positive (e := b.exponent - (52 : Nat)) hprecise (by omega) (by omega)
  -- The product itself is a number, and rounding leaves it alone.
  have hsame : b' = b := by
    have hnearest := hb'.nearest
    rw [Nat.cast_mul, Nat.cast_pow, Nat.cast_two, mul_two_pow_mul_zpow] at hnearest
    exact hb'.isDouble.eq_of_nearest hb hnearest b.nearest_value
  subst hsame
  have hproduct : x * y = .ofModel (.pack (.finite .positive b'.mantissa b'.exponent h')) := by
    rw [← hround]
    show Float.ofModel (.pack (UnpackedFloat.mul .binary64 x.toModel.unpack y.toModel.unpack)) = _
    rw [unpack_of_ofFloat (s := .positive) hb hx, unpack_of_ofFloat (s := .positive) hone hy]
    rfl
  rw [hproduct]
  exact ofFloat_pack hb .positive h'

/-- A positive whole number as a floating-point number is the nearest one. -/
theorem ofFloat_ofNat {n : Nat} (hn : 0 < n) (hlt : n < 2 ^ 64) :
    ∃ b, ofFloat (Float.ofNat n) = .finite false b ∧ b.Nearest n := by
  have hlog : n.log2 < 64 := (Nat.log2_lt hn.ne').mpr hlt
  show ∃ b, ofFloat (Float.ofScientific n false 0) = _ ∧ _
  unfold Float.ofScientific
  split
  · -- Small enough for a table of powers of ten: the number is multiplied by the zeroth.
    obtain ⟨b, hb, h, hround⟩ := round_nat .positive hn (by omega)
    have hleast := hb.least
    have hmost := hb.most
    have hconverted : ofFloat n.toUInt64.toFloat = .finite false b := by
      have hpositive : compare (n : Int) 0 = .gt := by
        rw [compare_gt_iff_gt]
        omega
      have hofNat : UnpackedFloat.ofNat .binary64 n.toUInt64.toNat
          = .finite .positive b.mantissa b.exponent h := by
        rw [← hround, UInt64.toNat_ofNat_of_lt' hlt, UnpackedFloat.ofNat, UnpackedFloat.ofInt,
          UnpackedFloat.normalize, hpositive]
        rfl
      show ofFloat (.ofModel (.pack (UnpackedFloat.ofNat .binary64 n.toUInt64.toNat))) = _
      rw [hofNat]
      exact ofFloat_pack hb.isDouble .positive h
    refine ⟨b, ?_, by simpa using hb.nearest⟩
    exact ofFloat_mul_one hb.isDouble hb.full (by omega) (by omega) hconverted (ofFloat_one _)
  · have hprecise : 2 ^ 52 ≤ (n <<< 53) * 1 := by
      rw [Nat.mul_one, Nat.shiftLeft_eq]
      omega
    have hlog' : ((n <<< 53) * 1).log2 = n.log2 + 53 := by
      rw [Nat.mul_one, log2_shiftLeft hn.ne']
    obtain ⟨b, hb, h, hround⟩ :=
      roundWithAccuracy_exact .positive (e := 0 - (53 : Nat)) hprecise (by omega) (by omega)
    have hscientific : UnpackedFloat.ofScientific .binary64 n 0
        = .finite .positive b.mantissa b.exponent h := by
      rw [← hround, UnpackedFloat.ofScientific, dif_neg hn.ne', if_neg (by norm_num),
        if_neg (by simp), if_pos (le_refl _)]
      rfl
    refine ⟨b, ?_, ?_⟩
    · show ofFloat (.ofModel (.pack (UnpackedFloat.ofScientific .binary64 n 0))) = _
      rw [hscientific]
      exact ofFloat_pack hb.isDouble .positive h
    · have hnearest := hb.nearest
      rw [Nat.mul_one, Nat.shiftLeft_eq, Nat.cast_mul, Nat.cast_pow, Nat.cast_two,
        mul_two_pow_mul_zpow] at hnearest
      simpa using hnearest

theorem ofFloat_neg {x : Float} {b : Binary} (h : ofFloat x = .finite false b) :
    ofFloat (Float.neg x) = .finite true b := by
  have hb := isDouble_of_ofFloat h
  have hneg : Float.neg x = .ofModel (.pack (.finite .negative b.mantissa b.exponent hb.pos)) := by
    show Float.ofModel (.pack x.toModel.unpack.neg) = _
    rw [unpack_of_ofFloat (s := .positive) hb h]
    rfl
  rw [hneg]
  exact ofFloat_pack hb .negative hb.pos

theorem ofFloat_abs {x : Float} {negative : Bool} {b : Binary}
    (h : ofFloat x = .finite negative b) : ofFloat x.abs = .finite false b := by
  have hb := isDouble_of_ofFloat h
  have habs : x.abs = .ofModel (.pack (.finite .positive b.mantissa b.exponent hb.pos)) := by
    show Float.ofModel (.pack x.toModel.unpack.abs) = _
    cases negative with
    | false => rw [unpack_of_ofFloat (s := .positive) hb h]; rfl
    | true => rw [unpack_of_ofFloat (s := .negative) hb h]; rfl
  rw [habs]
  exact ofFloat_pack hb .positive hb.pos

/-- The lesser of two positive numbers does not have the greater exponent. -/
theorem exponent_le_of_lt {x y : Float} {a b : Binary} (hx : ofFloat x = .finite false a)
    (hy : ofFloat y = .finite false b) (h : x < y) : a.exponent ≤ b.exponent := by
  have hlt : x.toModel.unpack.lt y.toModel.unpack = true := by
    have hdecide : decide (x.toModel < y.toModel) = true := h
    rw [decide_eq_true_eq] at hdecide
    exact hdecide
  rw [unpack_of_ofFloat (s := .positive) (isDouble_of_ofFloat hx) hx,
    unpack_of_ofFloat (s := .positive) (isDouble_of_ofFloat hy) hy] at hlt
  unfold UnpackedFloat.lt at hlt
  dsimp only [UnpackedFloat.compare] at hlt
  simp [Ordering.then_eq_lt, compare_lt_iff_lt] at hlt
  omega

/-- A whole number as a floating-point number is the nearest one. -/
theorem ofInt_nearest {n : Int} (h : n.natAbs < 2 ^ 64) : (ofFloat (Float.ofInt n)).Nearest n := by
  cases n with
  | ofNat n =>
    obtain rfl | hn := Nat.eq_zero_or_pos n
    · have hzero : ofFloat (Float.ofInt (.ofNat 0)) = .zero false := by decide
      rw [hzero]
      exact Reading.nearest_value rfl
    · obtain ⟨b, hb, hnearest⟩ := ofFloat_ofNat hn h
      rw [Float.ofInt, hb]
      exact_mod_cast hnearest
  | negSucc n =>
    obtain ⟨b, hb, hnearest⟩ := ofFloat_ofNat (Nat.succ_pos n) h
    rw [Float.ofInt, ofFloat_neg hb, Reading.Nearest, signed, if_pos rfl, Int.cast_negSucc, neg_neg]
    exact_mod_cast hnearest

end SheetScript.Decimal
