import SheetScript.Decimal.Text
import SheetScript.Proofs.Decimal.Binary

/-! # Numbers of double precision

  A number is read from the fields of its bits, and the library unpacks it from the same
  bits.  Both say the same, so a number that is packed is read as it was, and numbers that
  are read alike are alike.  A reading has a value, and no rational number is rounded to
  two readings, but for the sign of zero.

  Main statements: `ofFloat_eq`, `ofFloat_inj` and `ofFloat_pack`; `Reading.Nearest.unique`;
  and `wholePart?_eq`.
-/

namespace SheetScript.Decimal

open Float.Model

/-! ### Fields -/

/-- The number with an exponent field, a fraction field and a sign. -/
def ofFields (exponent fraction : Nat) (negative : Bool) : Reading :=
  if exponent = 2047 then if fraction = 0 then .infinite negative else .nan
  else if exponent = 0 then
    if fraction = 0 then .zero negative else .finite negative ⟨fraction, -1074, false⟩
  else
    .finite negative ⟨2 ^ 52 + fraction, exponent - 1075, fraction == 0 && 1 < exponent⟩

theorem readBits_eq (n : Nat) :
    readBits 52 11 n = ofFields (n / 2 ^ 52 % 2 ^ 11) (n % 2 ^ 52) (n / 2 ^ 63 % 2 == 1) := by
  unfold readBits ofFields
  dsimp only [Nat.pow_eq]
  rw [show 2 ^ 52 * 2 ^ 11 = 2 ^ 63 from rfl]
  generalize n / 2 ^ 52 % 2 ^ 11 = exponent
  simp only [beq_iff_eq]
  split
  · rfl
  · split
    · rfl
    · rw [Reading.finite.injEq, Binary.mk.injEq]
      refine ⟨rfl, rfl, ?_, rfl⟩
      norm_num
      omega

theorem isDouble_of_ofFields {exponent fraction : Nat} {negative negative' : Bool} {b : Binary}
    (hexponent : exponent < 2 ^ 11) (hfraction : fraction < 2 ^ 52)
    (h : ofFields exponent fraction negative = .finite negative' b) : IsDouble b := by
  unfold ofFields at h
  split at h
  · split at h <;> cases h
  · split at h
    · split at h
      · cases h
      · cases h
        constructor <;> simp <;> omega
    · cases h
      constructor <;> simp <;> omega

/-- A number that is finite and not zero is one of double precision. -/
theorem isDouble_of_ofFloat {x : Float} {negative : Bool} {b : Binary}
    (h : ofFloat x = .finite negative b) : IsDouble b := by
  rw [ofFloat, readBits_eq] at h
  exact isDouble_of_ofFields (Nat.mod_lt _ (by decide)) (Nat.mod_lt _ (by decide)) h

/-! ### Unpacking -/

theorem toNat_unpackMantissa (b : BitVec 64) :
    (@UnpackedFloat.unpackMantissa .binary64 b).toNat = b.toNat % 2 ^ 52 := by
  simp [UnpackedFloat.unpackMantissa, BitVec.extractLsb_toNat]

theorem toNat_unpackExponent (b : BitVec 64) :
    (@UnpackedFloat.unpackExponent .binary64 b).toNat = b.toNat / 2 ^ 52 % 2 ^ 11 := by
  simp [UnpackedFloat.unpackExponent, BitVec.extractLsb_toNat, Nat.shiftRight_eq_div_pow]

theorem toNat_unpackSign (b : BitVec 64) :
    (@UnpackedFloat.unpackSign .binary64 b).toNat = b.toNat / 2 ^ 63 % 2 := by
  simp [UnpackedFloat.unpackSign, BitVec.extractLsb_toNat, Nat.shiftRight_eq_div_pow]

theorem ofBitVec_negative (b : BitVec 1) :
    (UnpackedFloat.Sign.ofBitVec b == .negative) = (b.toNat == 1) := by
  revert b
  decide

/-- The bits of a full mantissa, of which the first is not written. -/
theorem toNat_full (v : BitVec 52) : (1#1 ++ v).toNat = 2 ^ 52 + v.toNat := by
  rw [BitVec.toNat_append, Nat.shiftLeft_eq, Nat.mul_comm]
  exact (Nat.two_pow_add_eq_or_of_lt v.isLt 1).symm

theorem exponentBias_eq : Format.binary64.exponentBias = 1023 := by decide

/-- The reading of an unpacked number. -/
def ofUnpacked : UnpackedFloat → Reading
  | .notANumber => .nan
  | .infinity s => .infinite (s == .negative)
  | .zero s => .zero (s == .negative)
  | .finite s m e _ => .finite (s == .negative) ⟨m, e, m == 2 ^ 52 && e != -1074⟩

/-- Bits are read as what they are unpacked to. -/
theorem readBits_toNat (b : BitVec 64) :
    readBits 52 11 b.toNat = ofUnpacked (UnpackedFloat.unpack .binary64 b) := by
  have hlargest : @UnpackedFloat.unpackExponent .binary64 b = -BitVec.ofNat 11 1
      ↔ (@UnpackedFloat.unpackExponent .binary64 b).toNat = 2047 := by
    rw [← BitVec.toNat_inj]
    rfl
  have hleast : @UnpackedFloat.unpackExponent .binary64 b = 0#11
      ↔ (@UnpackedFloat.unpackExponent .binary64 b).toNat = 0 := by
    rw [← BitVec.toNat_inj]
    rfl
  have hzero : @UnpackedFloat.unpackMantissa .binary64 b = 0#52
      ↔ (@UnpackedFloat.unpackMantissa .binary64 b).toNat = 0 := by
    rw [← BitVec.toNat_inj]
    rfl
  have hfraction := (@UnpackedFloat.unpackMantissa .binary64 b).isLt
  have hfull := toNat_full (@UnpackedFloat.unpackMantissa .binary64 b)
  rw [readBits_eq, ← toNat_unpackExponent, ← toNat_unpackMantissa, ← toNat_unpackSign,
    ← ofBitVec_negative]
  unfold ofFields UnpackedFloat.unpack
  dsimp only
  generalize (@UnpackedFloat.unpackExponent .binary64 b).toNat = exponent at *
  simp only [hlargest, hleast]
  -- The greatest exponent is that of no numbers, the least one that of zero and of numbers
  -- without a first digit that goes without saying.
  split
  · simp only [hzero]
    split <;> rfl
  · split
    · simp only [hzero]
      split
      · rfl
      · dsimp only [ofUnpacked]
        generalize (@UnpackedFloat.unpackMantissa .binary64 b).toNat = fraction at *
        rw [exponentBias_eq, Reading.finite.injEq, Binary.mk.injEq]
        refine ⟨rfl, rfl, by simp; omega, ?_⟩
        have : (fraction == 2 ^ 52) = false := by simpa using hfraction.ne
        rw [this, Bool.false_and]
    · dsimp only [ofUnpacked]
      rw [hfull, exponentBias_eq, Reading.finite.injEq, Binary.mk.injEq]
      generalize (@UnpackedFloat.unpackMantissa .binary64 b).toNat = fraction at *
      refine ⟨rfl, rfl, by simp, ?_⟩
      rw [Bool.eq_iff_iff]
      simp
      omega

theorem ofFloat_eq (x : Float) : ofFloat x = ofUnpacked x.toModel.unpack :=
  readBits_toNat x.toModel.toBits.toBitVec

theorem ofUnpacked_inj {u v : UnpackedFloat} (h : ofUnpacked u = ofUnpacked v) : u = v := by
  have hsign : ∀ s t : UnpackedFloat.Sign, (s == .negative) = (t == .negative) → s = t := by
    rintro (_ | _) (_ | _) h <;> first | rfl | cases h
  cases u <;> cases v <;> simp_all [ofUnpacked]
  all_goals exact hsign _ _ (by first | exact h | exact h.1)

/-- A number is what it is read as. -/
theorem ofFloat_inj {x y : Float} (h : ofFloat x = ofFloat y) : x = y := by
  rw [ofFloat_eq, ofFloat_eq] at h
  have hbits := (UnpackedFloat.unpack_inj_of_valid x.toModel.valid y.toModel.valid).mp
    (ofUnpacked_inj h)
  exact Float.toBits_inj.mp (UInt64.toBitVec_inj.mp hbits)

theorem isNaN_iff {x : Float} : x.isNaN = true ↔ ofFloat x = .nan := by
  rw [ofFloat_eq]
  show x.toModel.unpack.isNaN = true ↔ _
  cases x.toModel.unpack <;> simp [ofUnpacked, UnpackedFloat.isNaN]

theorem isInf_iff {x : Float} : x.isInf = true ↔ ∃ negative, ofFloat x = .infinite negative := by
  rw [ofFloat_eq]
  show x.toModel.unpack.isInf = true ↔ _
  cases x.toModel.unpack <;> simp [ofUnpacked, UnpackedFloat.isInf]

theorem isFinite_iff {x : Float} : x.isFinite = true ↔ x.isNaN = false ∧ x.isInf = false := by
  show x.toModel.unpack.isFinite = true
    ↔ x.toModel.unpack.isNaN = false ∧ x.toModel.unpack.isInf = false
  cases x.toModel.unpack <;>
    simp [UnpackedFloat.isFinite, UnpackedFloat.isNaN, UnpackedFloat.isInf]

/-- What is neither no number nor infinite is zero or finite. -/
theorem ofFloat_of_isFinite {x : Float} (h : x.isFinite = true) :
    (∃ negative, ofFloat x = .zero negative) ∨ ∃ negative b, ofFloat x = .finite negative b := by
  obtain ⟨hnan, hinf⟩ := isFinite_iff.mp h
  cases hx : ofFloat x with
  | nan => rw [isNaN_iff.mpr hx] at hnan; cases hnan
  | infinite negative => rw [isInf_iff.mpr ⟨negative, hx⟩] at hinf; cases hinf
  | zero negative => exact .inl ⟨negative, rfl⟩
  | finite negative b => exact .inr ⟨negative, b, rfl⟩

/-! ### Packing -/

theorem readBits_packComponents (s : UnpackedFloat.Sign) (exponent : BitVec 11)
    (mantissa : BitVec 52) :
    readBits 52 11 (UnpackedFloat.packComponents .binary64 s exponent mantissa).toNat
      = ofFields exponent.toNat mantissa.toNat (s == .negative) := by
  rw [readBits_eq, ← toNat_unpackExponent, ← toNat_unpackMantissa, ← toNat_unpackSign,
    UnpackedFloat.unpackExponent_packComponents, UnpackedFloat.unpackMantissa_packComponents,
    UnpackedFloat.unpackSign_packComponents, ← ofBitVec_negative,
    UnpackedFloat.Sign.ofBitVec_toBitVec]

/-- A number of double precision is read as it was packed. -/
theorem ofFloat_pack {b : Binary} (hb : IsDouble b) (s : UnpackedFloat.Sign)
    (h : 0 < b.mantissa) :
    ofFloat (.ofModel (.pack (.finite s b.mantissa b.exponent h)))
      = .finite (s == .negative) b := by
  obtain ⟨m, e, narrow⟩ := b
  obtain ⟨-, hlt, hleast, hmost, hfull, hnarrow⟩ := hb
  dsimp only at h hlt hleast hmost hfull hnarrow
  have hnormal : m.log2 + 1 = Format.binary64.mantissaBits ↔ 2 ^ 52 ≤ m := by
    have hlog := Nat.log2_lt h.ne' (k := 53)
    have hlog' := Nat.le_log2 h.ne' (k := 52)
    rw [show Format.binary64.mantissaBits = 53 from rfl]
    omega
  have hbiased : (e + (Format.binary64.exponentBias : Int)
      + Format.binary64.mantissaBitsWithoutImplicit).toNat = (e + 1075).toNat := by
    rw [exponentBias_eq]
    congr 1
    simp
    omega
  show readBits 52 11 (UnpackedFloat.pack .binary64 (.finite s m e h)).toNat = _
  unfold UnpackedFloat.pack
  dsimp only
  rw [hbiased, if_neg (by simp; omega)]
  by_cases hm : 2 ^ 52 ≤ m
  · -- The first digit of a full mantissa is left out of its field.
    rw [if_pos (hnormal.mpr hm), readBits_packComponents, BitVec.toNat_ofNat, BitVec.toNat_ofNat,
      Nat.mod_eq_of_lt (by omega : (e + 1075).toNat < 2 ^ 11)]
    unfold ofFields
    rw [if_neg (by omega), if_neg (by omega), Reading.finite.injEq, Binary.mk.injEq]
    refine ⟨rfl, by omega, by omega, ?_⟩
    rw [Bool.eq_iff_iff, hnarrow]
    simp
    omega
  · obtain rfl := hfull.resolve_right hm
    rw [if_neg (mt hnormal.mp hm), readBits_packComponents, BitVec.toNat_ofNat, BitVec.toNat_ofNat,
      Nat.mod_eq_of_lt (by omega : m < 2 ^ 52)]
    have hwide : narrow = false := by simpa using hnarrow
    simp [ofFields, h.ne', hwide]

/-! ### Values -/

/-- A number with a sign. -/
def signed (negative : Bool) (q : ℚ) : ℚ := if negative then -q else q

theorem signed_signed (negative : Bool) (q : ℚ) : signed negative (signed negative q) = q := by
  cases negative
  · rfl
  · exact neg_neg q

namespace Reading

/-- The number itself, if it has an end. -/
def value? : Reading → Option ℚ
  | .zero _ => some 0
  | .finite negative b => some (signed negative b.value)
  | _ => none

/-- Half of the least positive number. -/
def halfLeast : ℚ := 2 ^ (-1074 : Int) / 2

/-- Half of the last place above the greatest number. -/
def beyond : ℚ := (2 ^ 53 - 1 / 2) * 2 ^ (971 : Int)

/-- A rational number that is rounded to the reading: to zero up to half of the least number,
  to an infinite one from half of the last place above the greatest number on. -/
def Nearest : Reading → ℚ → Prop
  | .nan, _ => False
  | .infinite negative, q => beyond ≤ signed negative q
  | .zero _, q => |q| ≤ halfLeast
  | .finite negative b, q => b.Nearest (signed negative q)

/-- The reading up to the sign of zero. -/
def unsigned : Reading → Reading
  | .zero _ => .zero false
  | r => r

/-- A reading of double precision. -/
def IsDouble (r : Reading) : Prop := ∀ negative b, r = .finite negative b → Decimal.IsDouble b

theorem halfLeast_pos : 0 < halfLeast := half_pos (two_zpow_pos _)

theorem halfLeast_lt_one : halfLeast < 1 := by
  have hle : (2 : ℚ) ^ (-1074 : Int) ≤ 2 ^ (0 : Int) :=
    zpow_le_zpow_right₀ (by norm_num) (by norm_num)
  rw [zpow_zero] at hle
  unfold halfLeast
  linarith [two_zpow_pos (-1074)]

theorem halfLeast_lt_beyond : halfLeast < beyond := by
  have hle : (2 : ℚ) ^ (-1074 : Int) ≤ 2 ^ (971 : Int) :=
    zpow_le_zpow_right₀ (by norm_num) (by norm_num)
  have hpos := two_zpow_pos 971
  unfold halfLeast beyond
  generalize (2 : ℚ) ^ (-1074 : Int) = least at *
  generalize (2 : ℚ) ^ (971 : Int) = greatest at *
  linarith

theorem two_pow_le_beyond : (2 : ℚ) ^ 64 ≤ beyond := by
  have hle : (2 : ℚ) ^ (64 : Int) ≤ 2 ^ (971 : Int) :=
    zpow_le_zpow_right₀ (by norm_num) (by norm_num)
  have hpos := two_zpow_pos 971
  unfold beyond
  rw [show (2 : ℚ) ^ 64 = 2 ^ (64 : Int) from rfl]
  generalize (2 : ℚ) ^ (971 : Int) = greatest at *
  nlinarith

variable {r : Reading} {q : ℚ}

/-- A number is rounded to itself. -/
theorem nearest_value (h : r.value? = some q) : r.Nearest q := by
  cases r with
  | nan => cases h
  | infinite negative => cases h
  | zero negative =>
    cases h
    rw [Nearest, abs_zero]
    exact halfLeast_pos.le
  | finite negative b =>
    cases h
    rw [Nearest, signed_signed]
    exact b.nearest_value

end Reading

namespace IsDouble

variable {b : Binary} {q : ℚ}

/-- What is rounded to a positive number is not rounded to zero. -/
theorem lt_of_nearest (hb : IsDouble b) (h : b.Nearest q) : Reading.halfLeast < q := by
  have hscale : (2 : ℚ) ^ (-1074 : Int) ≤ 2 ^ b.exponent :=
    zpow_le_zpow_right₀ (by norm_num) hb.least
  have hpos := two_zpow_pos (-1074)
  have hquarters : (b.quartersBelow : ℚ) ≤ 2 := by exact_mod_cast b.quartersBelow_bounds.2
  unfold Reading.halfLeast
  generalize (2 : ℚ) ^ (-1074 : Int) = least at *
  obtain hone | htwo : b.mantissa = 1 ∨ 2 ≤ b.mantissa := by
    have := hb.pos
    omega
  · -- The interval of the least number starts at half of it, and its mantissa is odd.
    unfold Binary.Nearest at h
    rw [hone, if_neg (by decide)] at h
    refine lt_of_le_of_lt ?_ h.1
    rw [Binary.lower, hone]
    push_cast
    nlinarith
  · have hmantissa : (2 : ℚ) ≤ b.mantissa := by exact_mod_cast htwo
    refine lt_of_lt_of_le ?_ h.bounds.1
    rw [Binary.lower]
    nlinarith

/-- What is rounded to a number is not rounded to an infinite one. -/
theorem lt_most_of_nearest (hb : IsDouble b) (h : b.Nearest q) :
    q < Reading.beyond := by
  have hscale : (2 : ℚ) ^ b.exponent ≤ 2 ^ (971 : Int) :=
    zpow_le_zpow_right₀ (by norm_num) hb.most
  have hpos := two_zpow_pos b.exponent
  unfold Reading.beyond
  generalize (2 : ℚ) ^ (971 : Int) = greatest at *
  obtain hlast | hless : b.mantissa = 2 ^ 53 - 1 ∨ b.mantissa + 2 ≤ 2 ^ 53 := by
    have := hb.lt
    omega
  · -- The interval of the greatest number ends there, and its mantissa is odd.
    unfold Binary.Nearest at h
    rw [hlast, if_neg (by decide)] at h
    refine lt_of_lt_of_le h.2 ?_
    rw [Binary.upper, hlast]
    push_cast
    linarith
  · have hmantissa : (b.mantissa : ℚ) + 2 ≤ 2 ^ 53 := by exact_mod_cast hless
    refine lt_of_le_of_lt h.bounds.2 ?_
    rw [Binary.upper]
    nlinarith

end IsDouble

/-- No rational number is rounded to two numbers, but for the sign of zero. -/
theorem Reading.Nearest.unique {r r' : Reading} {q : ℚ} (hr : r.IsDouble) (hr' : r'.IsDouble)
    (h : r.Nearest q) (h' : r'.Nearest q) : r.unsigned = r'.unsigned := by
  have hleast := Reading.halfLeast_pos
  have hgreatest := Reading.halfLeast_lt_beyond
  have hsign (negative : Bool) (x : ℚ) : signed negative x ≤ |x| := by
    cases negative
    · exact le_abs_self x
    · exact neg_le_abs x
  -- A number that is positive under a sign is so under no other.
  have hsame {m n : Bool} {x : ℚ} (hm : 0 < signed m x) (hn : 0 < signed n x) : m = n := by
    cases m <;> cases n <;> simp [signed] at hm hn ⊢ <;> linarith
  cases r with
  | nan => exact absurd h id
  | infinite m =>
    cases r' with
    | nan => exact absurd h' id
    | infinite n =>
      simp only [Reading.Nearest] at h h'
      rw [hsame (lt_of_lt_of_le (by linarith) h) (lt_of_lt_of_le (by linarith) h')]
    | zero n =>
      simp only [Reading.Nearest] at h h'
      linarith [hsign m q]
    | finite n b =>
      simp only [Reading.Nearest] at h h'
      have hpos := (hr' n b rfl).lt_of_nearest h'
      have hlt := (hr' n b rfl).lt_most_of_nearest h'
      obtain rfl : m = n := hsame (x := q) (by linarith) (by linarith)
      linarith
  | zero m =>
    cases r' with
    | nan => exact absurd h' id
    | infinite n =>
      simp only [Reading.Nearest] at h h'
      linarith [hsign n q]
    | zero n => rfl
    | finite n b =>
      simp only [Reading.Nearest] at h h'
      linarith [hsign n q, (hr' n b rfl).lt_of_nearest h']
  | finite m a =>
    have hpos := (hr m a rfl).lt_of_nearest h
    cases r' with
    | nan => exact absurd h' id
    | infinite n =>
      simp only [Reading.Nearest] at h h'
      have hlt := (hr m a rfl).lt_most_of_nearest h
      obtain rfl : m = n := hsame (x := q) (by linarith) (by linarith)
      linarith
    | zero n =>
      simp only [Reading.Nearest] at h h'
      linarith [hsign m q]
    | finite n b =>
      simp only [Reading.Nearest] at h h'
      have hpos' := (hr' n b rfl).lt_of_nearest h'
      obtain rfl : m = n := hsame (x := q) (by linarith) (by linarith)
      rw [(hr m a rfl).eq_of_nearest (hr' m b rfl) h h']

/-- What is read has double precision. -/
theorem isDouble_ofFloat (x : Float) : (ofFloat x).IsDouble :=
  fun _ _ h => isDouble_of_ofFloat h

/-! ### Whole parts -/

/-- A rational number without its fraction. -/
def truncated (v : ℚ) : Int := if 0 ≤ v then ⌊v⌋ else ⌈v⌉

theorem abs_sub_truncated_lt (v : ℚ) : |v - truncated v| < 1 := by
  unfold truncated
  rw [abs_lt]
  split
  · constructor <;> linarith [Int.floor_le v, Int.lt_floor_add_one v]
  · constructor <;> linarith [Int.le_ceil v, Int.ceil_lt_add_one v]

theorem truncated_neg (v : ℚ) : truncated (-v) = -truncated v := by
  unfold truncated
  obtain hneg | rfl | hpos := lt_trichotomy v 0
  · rw [if_pos (by linarith), if_neg (by linarith), Int.floor_neg]
  · simp
  · rw [if_neg (by linarith), if_pos (by linarith), Int.ceil_neg]

/-- The whole part of a number is its value without the fraction. -/
theorem wholePart?_eq (x : Float) : wholePart? x = (ofFloat x).value?.map truncated := by
  unfold wholePart?
  split
  · rename_i hx
    rw [hx, Reading.value?, Option.map_some]
    decide
  · rename_i negative b hx
    have hfloor : truncated b.value
        = ((b.mantissa * powerPart 2 b.exponent / powerPart 2 (-b.exponent) : Nat) : Int) := by
      rw [truncated, b.value_eq_div, if_pos (by positivity)]
      exact Rat.floor_natCast_div_natCast _ _
    rw [hx, Reading.value?, Option.map_some]
    cases negative with
    | false => exact congrArg some hfloor.symm
    | true => exact congrArg some ((truncated_neg _).trans (congrArg Neg.neg hfloor)).symm
  · rename_i hzero hfinite
    cases hx : ofFloat x with
    | nan | infinite negative => rfl
    | zero negative => exact absurd hx (hzero negative)
    | finite negative b => exact absurd hx (hfinite negative b)

/-- A number without a fraction has a whole value. -/
theorem exists_value?_of_isWhole {x : Float} (h : isWhole x = true) :
    ∃ n : Int, (ofFloat x).value? = some (n : ℚ) := by
  unfold isWhole at h
  split at h
  · rename_i hx
    exact ⟨0, by rw [hx]; simp [Reading.value?]⟩
  · rename_i negative b hx
    rw [beq_iff_eq] at h
    have hpos := cast_powerPart_pos (by decide : 0 < 2) (-b.exponent)
    have hvalue : b.value
        = ((b.mantissa * powerPart 2 b.exponent / powerPart 2 (-b.exponent) : Nat) : ℚ) := by
      rw [Nat.cast_div (Nat.dvd_of_mod_eq_zero h) hpos.ne', b.value_eq_div]
    generalize b.mantissa * powerPart 2 b.exponent / powerPart 2 (-b.exponent) = n at hvalue
    refine ⟨if negative then -(n : Int) else n, ?_⟩
    rw [hx, Reading.value?, hvalue]
    cases negative <;> simp [signed]
  · cases h

/-- The whole part of a number without a fraction is the number. -/
theorem value?_of_isWhole {x : Float} (h : isWhole x = true) :
    (ofFloat x).value? = some (((wholePart? x).getD 0 : Int) : ℚ) := by
  obtain ⟨n, hn⟩ := exists_value?_of_isWhole h
  rw [wholePart?_eq, hn, Option.map_some, Option.getD_some, truncated, Int.floor_intCast,
    Int.ceil_intCast, ite_self]

end SheetScript.Decimal
