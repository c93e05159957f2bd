import SheetScript.Decimal.Text
import SheetScript.Proofs.Decimal
import SheetScript.Proofs.Decimal.Double

/-! # What decimals stand for

  A decimal in the script is digits, perhaps with a point and with an exponent, behind a
  sign if it is negative.  It stands for a rational number.  Without point and exponent it
  is a whole number and stands for itself; with one of them the script rounds it to a number
  of double precision.

  Main statements: `unsignedDecimal?_body` and `decimal?_render`, that a layout of digits
  stands for what it lays out, and `decimal?_intText`.
-/

namespace SheetScript.Decimal

/-! ### Reading -/

/-- What a decimal stands for. -/
structure Written where
  value : ℚ
  /-- There is neither a point nor an exponent. -/
  whole : Bool
  deriving DecidableEq

/-- What a decimal without a sign stands for; it starts with a digit.  A whole number other
  than zero does not start with a zero. -/
def unsignedDecimal? (cs : List Char) : Option Written :=
  let digits := cs.takeWhile isDigit
  match cs.dropWhile isDigit with
  | [] =>
    if digits = [] ∨ digits.head? = some '0' ∧ digits.all (· == '0') = false then none
    else some ⟨natOfDigits digits, true⟩
  | c :: rest =>
    if digits = [] then none
    else if c = '.' then
      let fraction := rest.takeWhile isDigit
      (exponentPart? (rest.dropWhile isDigit)).map fun (e : Int) =>
        ⟨natOfDigits (digits ++ fraction) * 10 ^ (e - (fraction.length : Int)), false⟩
    else (exponentPart? (c :: rest)).map fun (e : Int) => ⟨natOfDigits digits * 10 ^ e, false⟩

/-- What a decimal stands for. -/
def decimal? (s : String) : Option Written :=
  let cs := takeSign s.toList
  (unsignedDecimal? cs.2).map fun w => { w with value := signed cs.1 w.value }

/-! ### Digits -/

theorem takeWhile_digits {ds : List Char} (rest : List Char) (h : ds.all isDigit = true)
    (hrest : rest.head?.all (fun c => !isDigit c) = true) :
    (ds ++ rest).takeWhile isDigit = ds ∧ (ds ++ rest).dropWhile isDigit = rest := by
  refine span_append h fun c hc => ?_
  rw [Option.mem_def.mp hc] at hrest
  simpa using hrest

theorem natOfDigits_append (ds es : List Char) :
    natOfDigits (ds ++ es) = natOfDigits ds * 10 ^ es.length + natOfDigits es := by
  have happend := Nat.ofDigitChars_append (b := 10) (l := ds) (m := es) 0
  rw [Nat.ofDigitChars_eq_ofDigitChars_zero (l := es)] at happend
  show Nat.ofDigitChars 10 (ds ++ es) 0 = _
  rw [happend, Nat.mul_comm]
  rfl

theorem natOfDigits_zeros (k : Nat) : natOfDigits (List.replicate k '0') = 0 :=
  Nat.ofDigitChars_replicate_zero

theorem all_zeros (k : Nat) : (List.replicate k '0').all isDigit = true := by
  rw [List.all_replicate]
  simp [isDigit]

theorem nat?_digitsOf (n : Nat) : nat? (digitsOf n) = some n := by
  obtain ⟨c, ds, hds, -⟩ := exists_digitsOf n
  have hne : (digitsOf n).isEmpty = false := by rw [hds]; rfl
  rw [nat?, hne, all_digitsOf, natOfDigits_digitsOf]
  rfl

/-- Digits have no sign. -/
theorem takeSign_of_isDigit {c : Char} {cs : List Char} (h : isDigit c = true) :
    takeSign (c :: cs) = (false, c :: cs) := by
  unfold takeSign
  split
  · rename_i hc
    cases hc
    exact absurd h (by decide)
  · rename_i hc
    cases hc
    exact absurd h (by decide)
  · rfl

theorem takeSign_digitsOf (n : Nat) : takeSign (digitsOf n) = (false, digitsOf n) := by
  obtain ⟨c, ds, hds, hc⟩ := exists_digitsOf n
  rw [hds]
  exact takeSign_of_isDigit hc

theorem intText_toList (n : Int) :
    (intText n).toList = if n < 0 then '-' :: digitsOf n.natAbs else digitsOf n.natAbs := by
  cases n with
  | ofNat n => simp [intText, natText]
  | negSucc n => simp [intText, natText, Int.negSucc_lt_zero]

/-- An integer is read back from its text, also behind a plus sign. -/
theorem int?_intText (plus : Bool) (n : Int) :
    int? ((if plus && decide (0 < n) then ['+'] else []) ++ (intText n).toList) = some n := by
  rw [intText_toList]
  unfold int?
  by_cases hneg : n < 0
  · have hsign : (plus && decide (0 < n)) = false := by
      rw [decide_eq_false (by omega), Bool.and_false]
    rw [if_pos hneg, hsign, if_neg Bool.false_ne_true, List.nil_append, takeSign]
    dsimp only
    rw [nat?_digitsOf]
    exact congrArg some (by dsimp only; rw [if_pos rfl]; omega)
  · have hsign : takeSign ((if plus && decide (0 < n) then ['+'] else []) ++ digitsOf n.natAbs)
        = (false, digitsOf n.natAbs) := by
      split
      · rfl
      · exact takeSign_digitsOf _
    rw [if_neg hneg, hsign]
    dsimp only
    rw [nat?_digitsOf]
    exact congrArg some (by dsimp only; rw [if_neg Bool.false_ne_true]; omega)

/-! ### Layouts -/

/-- Digits and zeros alone. -/
theorem unsignedDecimal?_whole (d k : Nat) :
    unsignedDecimal? (digitsOf d ++ List.replicate k '0') = some ⟨d * 10 ^ k, true⟩ := by
  have hdigits : (digitsOf d ++ List.replicate k '0').all isDigit = true := by
    rw [List.all_append, all_digitsOf, all_zeros, Bool.and_self]
  obtain ⟨htake, hdrop⟩ := takeWhile_digits [] hdigits rfl
  rw [List.append_nil] at htake hdrop
  have hne : digitsOf d ≠ [] := Nat.toDigits_ne_nil
  have hhead : ¬ (digitsOf d ++ List.replicate k '0' = [] ∨
      (digitsOf d ++ List.replicate k '0').head? = some '0'
        ∧ (digitsOf d ++ List.replicate k '0').all (· == '0') = false) := by
    rintro (hnil | ⟨hzero, hall⟩)
    · simp [hne] at hnil
    · rw [List.head?_append_of_ne_nil _ hne] at hzero
      by_cases hd : d = 0
      · subst hd
        simp [digitsOf] at hall
      · exact head_digitsOf d hd hzero
  unfold unsignedDecimal?
  dsimp only
  rw [htake, hdrop]
  dsimp only
  rw [if_neg hhead, natOfDigits_append, natOfDigits_zeros, natOfDigits_digitsOf,
    List.length_replicate]
  push_cast
  rw [add_zero]

/-- Digits with a point among them, before an exponent or the end. -/
theorem unsignedDecimal?_pointed {whole fraction : List Char} (rest : List Char)
    (hwhole : whole.all isDigit = true) (hfraction : fraction.all isDigit = true)
    (hne : whole ≠ []) (hrest : rest.head?.all (fun c => !isDigit c) = true) :
    unsignedDecimal? (whole ++ '.' :: (fraction ++ rest)) = (exponentPart? rest).map fun e =>
      ⟨natOfDigits (whole ++ fraction) * 10 ^ (e - (fraction.length : Int)), false⟩ := by
  obtain ⟨htake, hdrop⟩ := takeWhile_digits ('.' :: (fraction ++ rest)) hwhole rfl
  obtain ⟨htake', hdrop'⟩ := takeWhile_digits rest hfraction hrest
  unfold unsignedDecimal?
  dsimp only
  rw [htake, hdrop]
  dsimp only
  rw [if_neg hne, if_pos rfl, htake', hdrop']

/-- Digits before an exponent. -/
theorem unsignedDecimal?_scaled {digits : List Char} (rest : List Char)
    (hdigits : digits.all isDigit = true) (hne : digits ≠ []) :
    unsignedDecimal? (digits ++ 'e' :: rest) = (exponentPart? ('e' :: rest)).map fun e =>
      ⟨natOfDigits digits * 10 ^ e, false⟩ := by
  obtain ⟨htake, hdrop⟩ := takeWhile_digits ('e' :: rest) hdigits rfl
  unfold unsignedDecimal?
  dsimp only
  rw [htake, hdrop]
  dsimp only
  rw [if_neg hne, if_neg (by decide)]

/-- Whether a layout writes digits in their places. -/
def Layout.inPlace (l : Layout) (digits : Nat) (exponent : Int) : Bool :=
  let magnitude : Int := (digitsOf digits).length + exponent
  (l.above.all fun a => a < magnitude) && (l.upTo.all fun b => magnitude ≤ b)

/-- Digits that end before the point, with a zero behind it. -/
theorem unsignedDecimal?_pointZero (d k : Nat) :
    unsignedDecimal? (digitsOf d ++ List.replicate k '0' ++ ['.', '0'])
      = some ⟨d * 10 ^ k, false⟩ := by
  have hzeros : (digitsOf d ++ List.replicate k '0').all isDigit = true := by
    rw [List.all_append, all_digitsOf, all_zeros, Bool.and_self]
  have hne : digitsOf d ++ List.replicate k '0' ≠ [] := by
    simp [digitsOf, Nat.toDigits_ne_nil]
  have hpointed := unsignedDecimal?_pointed [] hzeros (rfl : ['0'].all isDigit = true) hne rfl
  have hvalue : ((natOfDigits (digitsOf d ++ List.replicate k '0' ++ ['0']) : Nat) : ℚ)
      * 10 ^ ((0 : Int) - (['0'].length : Int)) = d * 10 ^ k := by
    rw [natOfDigits_append, natOfDigits_append, natOfDigits_zeros, natOfDigits_digitsOf,
      List.length_replicate, show natOfDigits ['0'] = 0 from rfl]
    push_cast
    norm_num
    ring
  rw [List.append_nil] at hpointed
  rw [hpointed, exponentPart?, Option.map_some, hvalue]

/-- Digits with the point among them. -/
theorem unsignedDecimal?_among {d : Nat} {e : Int} (hneg : e < 0)
    (hpos : 0 < (digitsOf d).length + e) :
    unsignedDecimal? ((digitsOf d).take ((digitsOf d).length + e).toNat
        ++ '.' :: (digitsOf d).drop ((digitsOf d).length + e).toNat)
      = some ⟨d * 10 ^ e, false⟩ := by
  have hmem : ∀ c ∈ digitsOf d, isDigit c = true := List.all_eq_true.mp (all_digitsOf d)
  have htake : ((digitsOf d).take ((digitsOf d).length + e).toNat).all isDigit = true :=
    List.all_eq_true.mpr fun c hc => hmem c (List.mem_of_mem_take hc)
  have hdrop : ((digitsOf d).drop ((digitsOf d).length + e).toNat).all isDigit = true :=
    List.all_eq_true.mpr fun c hc => hmem c (List.mem_of_mem_drop hc)
  have hne : (digitsOf d).take ((digitsOf d).length + e).toNat ≠ [] := by
    rw [ne_eq, List.take_eq_nil_iff, not_or]
    exact ⟨by omega, Nat.toDigits_ne_nil⟩
  have hpointed := unsignedDecimal?_pointed [] htake hdrop hne rfl
  have hplaces : (0 : Int)
      - (((digitsOf d).drop ((digitsOf d).length + e).toNat).length : Int) = e := by
    rw [List.length_drop]
    omega
  rw [List.append_nil] at hpointed
  rw [hpointed, exponentPart?, Option.map_some, List.take_append_drop, natOfDigits_digitsOf,
    hplaces]

/-- Digits behind the point, with zeros between the point and them. -/
theorem unsignedDecimal?_behind {d : Nat} {e : Int} (h : (digitsOf d).length + e ≤ 0) :
    unsignedDecimal? ('0' :: '.' :: (List.replicate (-((digitsOf d).length + e)).toNat '0'
        ++ digitsOf d)) = some ⟨d * 10 ^ e, false⟩ := by
  have hfraction : (List.replicate (-((digitsOf d).length + e)).toNat '0'
      ++ digitsOf d).all isDigit = true := by
    rw [List.all_append, all_zeros, all_digitsOf, Bool.and_self]
  have hpointed := unsignedDecimal?_pointed [] (rfl : ['0'].all isDigit = true) hfraction
    (List.cons_ne_nil _ _) rfl
  have hplaces : (0 : Int) - ((List.replicate (-((digitsOf d).length + e)).toNat '0'
      ++ digitsOf d).length : Int) = e := by
    rw [List.length_append, List.length_replicate]
    omega
  have hvalue : natOfDigits (['0'] ++ (List.replicate (-((digitsOf d).length + e)).toNat '0'
      ++ digitsOf d)) = d := by
    rw [natOfDigits_append, natOfDigits_append, natOfDigits_zeros, natOfDigits_digitsOf,
      show natOfDigits ['0'] = 0 from rfl]
    omega
  rw [List.append_nil, exponentPart?, Option.map_some, hplaces, hvalue] at hpointed
  exact hpointed

/-- The letter and the exponent behind it. -/
theorem exponentPart?_intText (plus : Bool) (n : Int) :
    exponentPart? ('e' :: ((if plus && decide (0 < n) then ['+'] else []) ++ (intText n).toList))
      = some n :=
  int?_intText plus n

/-- Digits under a layout stand for what they were laid out for, and for a whole number if
  they are in their places, end before the point and show none. -/
theorem unsignedDecimal?_body (l : Layout) (d : Nat) (e : Int) :
    unsignedDecimal? (l.body d e)
      = some ⟨d * 10 ^ e, l.inPlace d e && decide (0 ≤ e) && !l.pointZero⟩ := by
  have hdigits := all_digitsOf d
  have hne : digitsOf d ≠ [] := Nat.toDigits_ne_nil
  unfold Layout.body
  dsimp only
  rw [show ((l.above.all fun a => a < (digitsOf d).length + e)
    && (l.upTo.all fun b => (digitsOf d).length + e ≤ b)) = l.inPlace d e from rfl]
  cases l.inPlace d e with
  | true =>
    rw [if_pos rfl, Bool.true_and]
    split
    · -- The digits end before the point.
      rename_i hnonneg
      obtain ⟨k, rfl⟩ := Int.eq_ofNat_of_zero_le hnonneg
      rw [Int.toNat_natCast, decide_eq_true hnonneg, Bool.true_and, zpow_natCast]
      cases l.pointZero with
      | false => simpa using unsignedDecimal?_whole d k
      | true => exact unsignedDecimal?_pointZero d k
    · rename_i hneg
      rw [decide_eq_false hneg, Bool.false_and]
      split
      · rename_i hpos
        exact unsignedDecimal?_among (by omega) hpos
      · rename_i hsmall
        exact unsignedDecimal?_behind (by omega)
  | false =>
    -- The point is behind the first digit, if there are more.
    rw [if_neg Bool.false_ne_true, Bool.false_and, Bool.false_and]
    generalize hmagnitude : (digitsOf d).length + e - 1 = n
    have hexponent := exponentPart?_intText l.plusSign n
    cases hds : digitsOf d with
    | nil => exact absurd hds hne
    | cons c rest =>
      rw [hds] at hdigits hmagnitude
      have hvalue : natOfDigits (c :: rest) = d := by rw [← hds, natOfDigits_digitsOf]
      cases rest with
      | nil =>
        have hscaled := unsignedDecimal?_scaled ((if l.plusSign && decide (0 < n) then ['+']
          else []) ++ (intText n).toList) hdigits (by simp)
        rw [hexponent, Option.map_some, hvalue] at hscaled
        rw [show e = n by simp at hmagnitude; omega]
        exact hscaled
      | cons c' rest =>
        rw [List.all_cons, Bool.and_eq_true] at hdigits
        have hfirst : [c].all isDigit = true := by simpa using hdigits.1
        have hpointed := unsignedDecimal?_pointed
          ('e' :: ((if l.plusSign && decide (0 < n) then ['+'] else []) ++ (intText n).toList))
          hfirst hdigits.2 (by simp) rfl
        rw [hexponent, Option.map_some, List.singleton_append, List.singleton_append, hvalue]
          at hpointed
        rw [show e = n - ((c' :: rest).length : Int) by simp at hmagnitude ⊢; omega]
        simpa using hpointed

/-! ### Signs -/

theorem exists_isDigit_of_unsignedDecimal? {cs : List Char} {w : Written}
    (h : unsignedDecimal? cs = some w) : ∃ c rest, cs = c :: rest ∧ isDigit c = true := by
  have hne : cs.takeWhile isDigit ≠ [] := by
    intro hnil
    unfold unsignedDecimal? at h
    dsimp only at h
    rw [hnil] at h
    split at h <;> simp at h
  cases cs with
  | nil => exact absurd rfl hne
  | cons c rest =>
    refine ⟨c, rest, rfl, ?_⟩
    by_contra hc
    rw [List.takeWhile_cons_of_neg hc] at hne
    exact hne rfl

/-- A decimal behind its sign. -/
theorem decimal?_signed {cs : List Char} {w : Written} (negative : Bool)
    (h : unsignedDecimal? cs = some w) :
    decimal? (String.ofList ((if negative then ['-'] else []) ++ cs))
      = some ⟨signed negative w.value, w.whole⟩ := by
  have hsign : takeSign ((if negative then ['-'] else []) ++ cs) = (negative, cs) := by
    obtain ⟨c, rest, rfl, hc⟩ := exists_isDigit_of_unsignedDecimal? h
    cases negative with
    | true => rfl
    | false => exact takeSign_of_isDigit hc
  unfold decimal?
  rw [String.toList_ofList, hsign]
  dsimp only
  rw [h, Option.map_some]

/-- An integer stands for itself. -/
theorem decimal?_intText (n : Int) : decimal? (intText n) = some ⟨n, true⟩ := by
  have hdigits := unsignedDecimal?_whole n.natAbs 0
  rw [List.replicate_zero, List.append_nil, pow_zero, mul_one] at hdigits
  have htext : intText n
      = String.ofList ((if decide (n < 0) then ['-'] else []) ++ digitsOf n.natAbs) := by
    rw [← String.toList_inj, intText_toList, String.toList_ofList]
    by_cases hneg : n < 0 <;> simp [hneg]
  rw [htext, decimal?_signed _ hdigits, signed]
  by_cases hneg : n < 0
  · have hcast : ((n.natAbs : Nat) : ℚ) = -(n : ℚ) := by
      rw [Nat.cast_natAbs, abs_of_neg hneg, Int.cast_neg]
    rw [if_pos (by simpa using hneg), hcast, neg_neg]
  · have hcast : ((n.natAbs : Nat) : ℚ) = n := by
      rw [Nat.cast_natAbs, abs_of_nonneg (not_lt.mp hneg)]
    rw [if_neg (by simpa using hneg), hcast]

/-- A number under a layout stands for its shortest decimal. -/
theorem decimal?_render (l : Layout) (negative : Bool) (b : Binary) :
    decimal? (l.render (.finite negative b))
      = some ⟨signed negative (b.shortest.1 * 10 ^ b.shortest.2),
          l.inPlace b.shortest.1 b.shortest.2 && decide (0 ≤ b.shortest.2) && !l.pointZero⟩ :=
  decimal?_signed negative (unsignedDecimal?_body l b.shortest.1 b.shortest.2)

theorem decimal?_render_zero (l : Layout) (negative : Bool) :
    decimal? (l.render (.zero negative)) = some ⟨0, !l.pointZero⟩ := by
  have hzero : unsignedDecimal? ('0' :: if l.pointZero then ['.', '0'] else [])
      = some ⟨0, !l.pointZero⟩ := by
    cases l.pointZero with
    | false => simpa [digitsOf] using unsignedDecimal?_whole 0 0
    | true => simpa [digitsOf] using unsignedDecimal?_pointZero 0 0
  have hsigned := decimal?_signed negative hzero
  rwa [show signed negative (0 : ℚ) = 0 by cases negative <;> simp [signed]] at hsigned

end SheetScript.Decimal
