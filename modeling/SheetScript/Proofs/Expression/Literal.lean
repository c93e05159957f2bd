import Mathlib.Data.List.Basic
import SheetScript.Proofs.Decimal
import SheetScript.Proofs.Expression.Token

/-!
# Words and literals as tokens

  The name of a variable, a text in quotes and a number are one token each.  A
  number is a run of digits, perhaps with a point and more digits, behind a sign
  if it is negative; what is no number, or has no end, is written as a call.

  Main statements: `State.feed_name`, `Cuts.text`, `Numeral.cuts` and
  `Literal.number_cases`.
-/

namespace SheetScript.Expression

/-! ### Words -/

namespace State

theorem start_of_isNameStart {c : Char} (h : Naming.isNameStart c = true) :
    start c = some ([], .word [c]) := by
  have hsigns : c ∉ ['*', '=', '!', '<', '>'] := by
    intro hc
    simp only [List.mem_cons, List.not_mem_nil, or_false] at hc
    rcases hc with rfl | rfl | rfl | rfl | rfl <;> exact absurd h (by decide)
  unfold start
  split
  all_goals first | exact absurd h (by decide) | rw [if_neg hsigns, if_pos h]

theorem feed_word (w cs : List Char) (h : cs.all Naming.isNamePart = true) :
    (State.word w).feed cs = some ([], .word (w ++ cs)) := by
  induction cs generalizing w with
  | nil => simp [feed]
  | cons c rest ih =>
    rw [List.all_cons, Bool.and_eq_true] at h
    simp [feed, step, h.1, ih (w ++ [c]) h.2]

theorem feed_name {s : String} (h : Naming.isVariableName s = true) :
    State.blank.feed s.toList = some ([], .word s.toList) := by
  unfold Naming.isVariableName at h
  cases hs : s.toList with
  | nil => simp [hs] at h
  | cons c rest =>
    simp only [hs, Bool.and_eq_true] at h
    simp [feed, step, start_of_isNameStart h.1.1, feed_word [c] rest h.1.2]

end State

theorem exists_nameStart {s : String} (h : Naming.isVariableName s = true) :
    ∃ c, s.toList.head? = some c ∧ Naming.isNameStart c = true := by
  unfold Naming.isVariableName at h
  cases hs : s.toList with
  | nil => simp [hs] at h
  | cons c rest =>
    simp only [hs, Bool.and_eq_true] at h
    exact ⟨c, rfl, h.1.1⟩

theorem not_keyword {s : String} (h : Naming.isVariableName s = true) : s ∉ Naming.keywords := by
  unfold Naming.isVariableName at h
  split at h
  · cases h
  · simp only [Bool.and_eq_true, decide_eq_true_eq] at h
    exact h.2

theorem wordToken?_name {s : String} (h : Naming.isVariableName s = true) :
    wordToken? s.toList = some (.name s) := by
  have hs := not_keyword h
  have hif : s ≠ "if" := by rintro rfl; exact hs (by decide)
  have helse : s ≠ "else" := by rintro rfl; exact hs (by decide)
  have hconstant : s ∉ constants := by
    intro hc
    simp only [constants, List.mem_cons, List.not_mem_nil, or_false] at hc
    rcases hc with rfl | rfl | rfl <;> exact hs (by decide)
  simp [wordToken?, hif, helse, hconstant, hs]

/-- A name before an index or a member of it. -/
theorem Cuts.name {s b : String} {us : List Token} {firm : Bool}
    (h : Naming.isVariableName s = true) (hb : Cuts firm b us)
    (hstart : b.toList.head? = some '[' ∨ b.toList.head? = some '.') :
    Cuts firm (s ++ b) (.name s :: us) := by
  have hstep (c : Char) (hc : c = '[' ∨ c = '.') : (State.word s.toList).step c =
      (State.start c).map fun r => ([.name s] ++ r.1, r.2) := by
    have hpart : Naming.isNamePart c = false := by rcases hc with rfl | rfl <;> decide
    rcases hc with rfl | rfl <;>
      simp [State.step, State.complete, State.start, wordToken?_name h, hpart]
  have hcuts : Cuts firm (s ++ b) ([] ++ ([.name s] ++ us)) := by
    apply Cuts.append_open (State.feed_name h) hb
    rcases hstart with hstart | hstart
    · exact ⟨'[', hstart, hstep _ (.inl rfl)⟩
    · exact ⟨'.', hstart, hstep _ (.inr rfl)⟩
  exact hcuts

/-- The name of an argument before an argument that starts with a name. -/
theorem Cuts.argumentName {s b : String} {ts us : List Token} {firm : Bool} {w : List Char}
    {t : Token} (hs : State.blank.feed s.toList = some (ts, .assigned w))
    (ht : argumentToken? w = some t) (hb : Cuts firm b us)
    (hstart : ∃ c ∈ b.toList.head?, Naming.isNameStart c = true) :
    Cuts firm (s ++ b) (ts ++ t :: us) := by
  obtain ⟨c, hc, hname⟩ := hstart
  have hne : c ≠ '=' := by rintro rfl; exact absurd hname (by decide)
  have hstep : (State.assigned w).step c =
      (State.start c).map fun r => ([t] ++ r.1, r.2) := by
    cases hstart : State.start c <;> simp [State.step, State.complete, hne, ht, hstart]
  exact Cuts.append_open hs hb ⟨c, hc, hstep⟩

/-! ### Texts -/

theorem State.feed_escape (acc : List Char) (c : Char) :
    (State.quoted acc).feed (Literal.escape c) = some ([], .quoted (acc ++ [c])) := by
  unfold Literal.escape
  split
  case h_6 hslash hquote hline _ hreturn =>
    have hslash : c ≠ '\\' := hslash
    have hquote : c ≠ '\'' := hquote
    have hline : c ≠ '\n' := hline
    have hreturn : c ≠ '\x0d' := hreturn
    simp [feed, step, hslash, hquote, hline, hreturn]
  all_goals simp [feed, step, unescape?]

/-- Quoting is undone character by character. -/
theorem State.feed_quoted (acc cs : List Char) :
    (State.quoted acc).feed (cs.flatMap Literal.escape) = some ([], .quoted (acc ++ cs)) := by
  induction cs generalizing acc with
  | nil => simp [feed]
  | cons c rest ih =>
    rw [List.flatMap_cons, feed_append, feed_escape]
    simp [ih (acc ++ [c])]

theorem Cuts.text (firm : Bool) (s : String) : Cuts firm (Literal.text s) [.text s] := by
  apply Cuts.of_feed
  have hs := State.feed_quoted [] s.toList
  have hend : (State.quoted s.toList).feed ['\''] = some ([.text s], .blank) := by
    simp [State.feed, State.step]
  rw [Literal.text, String.toList_ofList, List.cons_append, State.feed]
  simp [State.step, State.start, State.feed_append, hs, hend]

/-! ### Numbers -/

/-- Digits, perhaps with a point and digits behind it.  Without a point only
  zero starts with a zero. -/
def Numeral (cs : List Char) : Prop :=
  (cs ≠ [] ∧ cs.all Decimal.isDigit = true ∧
    (cs.head? = some '0' → cs.all (· == '0') = true)) ∨
  ∃ whole fraction, cs = whole ++ '.' :: fraction ∧ whole ≠ [] ∧ fraction ≠ [] ∧
    whole.all Decimal.isDigit = true ∧ fraction.all Decimal.isDigit = true

/-- A numeral starts with a digit. -/
theorem Numeral.head_isDigit {cs : List Char} (h : Numeral cs) :
    ∃ c rest, cs = c :: rest ∧ Decimal.isDigit c = true := by
  rcases h with ⟨hne, hdigits, _⟩ | ⟨whole, fraction, rfl, hwhole, _, hdigits, _⟩
  · cases cs with
    | nil => exact absurd rfl hne
    | cons c rest =>
      rw [List.all_cons, Bool.and_eq_true] at hdigits
      exact ⟨c, rest, rfl, hdigits.1⟩
  · cases whole with
    | nil => exact absurd rfl hwhole
    | cons c rest =>
      rw [List.all_cons, Bool.and_eq_true] at hdigits
      exact ⟨c, _, rfl, hdigits.1⟩

theorem isAlpha_of_isDigit {c : Char} (h : c.isDigit = true) : c.isAlpha = false := by
  have hnine : c.val ≤ '9'.val := of_decide_eq_true (Bool.and_eq_true_iff.mp h).2
  have hbelow (a : Char) (ha : '9'.val < a.val) : ¬ a.val ≤ c.val :=
    UInt32.not_le.mpr (UInt32.lt_of_le_of_lt hnine ha)
  have hupper : c.isUpper = false := decide_eq_false fun h => hbelow 'A' (by decide) h.1
  have hlower : c.isLower = false :=
    Bool.and_eq_false_iff.mpr (.inl (decide_eq_false (hbelow 'a' (by decide))))
  exact Bool.or_eq_false_iff.mpr ⟨hupper, hlower⟩

namespace State

theorem start_of_isDigit {c : Char} (h : Decimal.isDigit c = true) :
    start c = some ([], .digits [c]) := by
  have hsigns : c ∉ ['*', '=', '!', '<', '>'] := by
    intro hc
    simp only [List.mem_cons, List.not_mem_nil, or_false] at hc
    rcases hc with rfl | rfl | rfl | rfl | rfl <;> exact absurd h (by decide)
  have hname : Naming.isNameStart c = false := by
    have hline : c ≠ '_' := by rintro rfl; exact absurd h (by decide)
    rw [Naming.isNameStart, isAlpha_of_isDigit h]
    simp [hline]
  unfold start
  split
  all_goals first
    | exact absurd h (by decide)
    | rw [if_neg hsigns, if_neg (by simp [hname]), if_pos h]

theorem feed_digits (w cs : List Char) (h : cs.all Decimal.isDigit = true) :
    (State.digits w).feed cs = some ([], .digits (w ++ cs)) := by
  induction cs generalizing w with
  | nil => simp [feed]
  | cons c rest ih =>
    rw [List.all_cons, Bool.and_eq_true] at h
    simp [feed, step, h.1, ih (w ++ [c]) h.2]

theorem feed_fraction (w cs : List Char) (h : cs.all Decimal.isDigit = true) :
    (State.fraction w).feed cs = some ([], .fraction (w ++ cs)) := by
  induction cs generalizing w with
  | nil => simp [feed]
  | cons c rest ih =>
    rw [List.all_cons, Bool.and_eq_true] at h
    simp [feed, step, h.1, ih (w ++ [c]) h.2]

/-- A run of digits leaves the machine behind digits. -/
theorem feed_whole {cs : List Char} (hne : cs ≠ []) (h : cs.all Decimal.isDigit = true) :
    State.blank.feed cs = some ([], .digits cs) := by
  cases cs with
  | nil => exact absurd rfl hne
  | cons c rest =>
    rw [List.all_cons, Bool.and_eq_true] at h
    simp [feed, step, start_of_isDigit h.1, feed_digits [c] rest h.2]

end State

/-- A numeral leaves the machine behind its digits, or behind those of its fraction. -/
theorem Numeral.feed {cs : List Char} (h : Numeral cs) :
    (State.blank.feed cs = some ([], .digits cs) ∧
      integerToken? cs = some (.number (String.ofList cs))) ∨
    State.blank.feed cs = some ([], .fraction cs) := by
  rcases h with ⟨hne, hdigits, hzero⟩ | ⟨whole, fraction, rfl, hwhole, hfraction, hw, hf⟩
  · refine .inl ⟨State.feed_whole hne hdigits, ?_⟩
    rw [integerToken?, if_neg]
    rintro ⟨hhead, hall⟩
    exact hall (hzero hhead)
  · cases fraction with
    | nil => exact absurd rfl hfraction
    | cons c rest =>
      rw [List.all_cons, Bool.and_eq_true] at hf
      have hpoint : Decimal.isDigit '.' = false := by decide
      have hrest := State.feed_fraction (whole ++ ['.', c]) rest hf.2
      right
      rw [State.feed_append, State.feed_whole hwhole hw]
      simp [State.feed, State.step, hpoint, hf.1, hrest]

theorem Numeral.cuts {cs : List Char} (h : Numeral cs) :
    Cuts false (String.ofList cs) [.number (String.ofList cs)] := by
  apply Cuts.of_tokens
  rw [tokens?_eq_some_iff, String.toList_ofList]
  rcases h.feed with ⟨hfeed, htoken⟩ | hfeed
  · exact ⟨[], .digits cs, [.number (String.ofList cs)], hfeed, by simp [State.finish, htoken], rfl⟩
  · exact ⟨[], .fraction cs, [.number (String.ofList cs)], hfeed, rfl, rfl⟩

/-! ### Number literals -/

/-- Zeros behind the digits of a number do not spoil them. -/
theorem Numeral.digits_append_zeros (n k : Nat) :
    Numeral (Decimal.digitsOf n ++ List.replicate k '0') := by
  have hne : Decimal.digitsOf n ≠ [] := Nat.toDigits_ne_nil
  refine .inl ⟨by simp [hne], ?_, ?_⟩
  · rw [List.all_append, Decimal.all_digitsOf, Bool.true_and, List.all_replicate]
    simp [Decimal.isDigit]
  · intro hhead
    rw [List.head?_append_of_ne_nil _ hne] at hhead
    have hn : n = 0 := by
      by_contra hn
      exact Decimal.head_digitsOf n hn hhead
    subst hn
    rw [List.all_append, Decimal.digitsOf, Nat.toDigits_zero, List.all_replicate]
    simp

theorem Numeral.digitsOf (n : Nat) : Numeral (Decimal.digitsOf n) := by
  simpa using Numeral.digits_append_zeros n 0

/-- Digits in their places are a numeral. -/
theorem Numeral.body (digits : Nat) (exponent : Int) :
    Numeral (Decimal.Layout.plain.body digits exponent) := by
  have hdigits := Decimal.all_digitsOf digits
  have hsplit (k : Nat) : ((Decimal.digitsOf digits).take k).all Decimal.isDigit = true ∧
      ((Decimal.digitsOf digits).drop k).all Decimal.isDigit = true := by
    rw [List.all_eq_true] at hdigits
    constructor <;> rw [List.all_eq_true] <;> intro c hc
    · exact hdigits c (List.mem_of_mem_take hc)
    · exact hdigits c (List.mem_of_mem_drop hc)
  have hlength : 0 < (Decimal.digitsOf digits).length := Nat.length_toDigits_pos
  unfold Decimal.Layout.body
  simp only [Decimal.Layout.plain, Option.all_none, Bool.and_self, if_true, Bool.false_eq_true,
    if_false, List.append_nil]
  split
  · exact Numeral.digits_append_zeros _ _
  · rename_i hneg
    split
    · rename_i hpos
      refine .inr ⟨_, _, rfl, ?_, ?_, (hsplit _).1, (hsplit _).2⟩
      · rw [ne_eq, List.take_eq_nil_iff, not_or]
        constructor
        · omega
        · exact List.ne_nil_of_length_pos hlength
      · rw [ne_eq, List.drop_eq_nil_iff]
        omega
    · refine .inr ⟨['0'], _, rfl, by simp, ?_, by decide, ?_⟩
      · intro hnil
        rw [List.append_eq_nil_iff] at hnil
        exact absurd hnil.2 (List.ne_nil_of_length_pos hlength)
      · rw [List.all_append, hdigits, List.all_replicate]
        simp [Decimal.isDigit]

section Format

open Float.Model

theorem toNat_exponent (x : Float) :
    (@UnpackedFloat.unpackExponent .binary64 x.toBits.toBitVec).toNat =
      x.toBits.toNat / Nat.pow 2 52 % Nat.pow 2 11 := by
  simp [UnpackedFloat.unpackExponent, BitVec.extractLsb_toNat, Nat.shiftRight_eq_div_pow]

/-- The largest exponent of a format is kept for what is no number or has no end. -/
theorem unpack_of_largest {spec : Format} {b : BitVec spec.numBits}
    (h : UnpackedFloat.unpackExponent b = -BitVec.ofNat spec.exponentBits 1) :
    UnpackedFloat.unpack spec b = .notANumber ∨
      ∃ sign, UnpackedFloat.unpack spec b = .infinity sign := by
  unfold UnpackedFloat.unpack
  rw [if_pos h]
  split
  · exact .inr ⟨_, rfl⟩
  · exact .inl rfl

/-- A number that has an end is zero or finite in its format. -/
theorem ofFloat_cases {x : Float} (hnan : x.isNaN = false) (hinf : x.isInf = false) :
    (∃ negative, Decimal.ofFloat x = .zero negative) ∨
      ∃ negative value, Decimal.ofFloat x = .finite negative value := by
  have hexponent : x.toBits.toNat / Nat.pow 2 52 % Nat.pow 2 11 ≠ Nat.pow 2 11 - 1 := by
    intro heq
    rw [← toNat_exponent] at heq
    have hlargest : @UnpackedFloat.unpackExponent .binary64 x.toModel.toBits.toBitVec =
        -BitVec.ofNat Format.binary64.exponentBits 1 := BitVec.eq_of_toNat_eq heq
    have hfinite : (x.toModel.unpack).isNaN = false ∧ (x.toModel.unpack).isInf = false :=
      ⟨hnan, hinf⟩
    rw [Float.Model.unpack] at hfinite
    rcases unpack_of_largest hlargest with hunpack | ⟨sign, hunpack⟩
    · rw [hunpack] at hfinite
      cases hfinite.1
    · rw [hunpack] at hfinite
      cases hfinite.2
  unfold Decimal.ofFloat Decimal.readBits
  have hlast : (x.toBits.toNat / Nat.pow 2 52 % Nat.pow 2 11 == Nat.pow 2 11 - 1) = false := by
    simpa using hexponent
  simp only [hlast, Bool.false_eq_true, if_false]
  split
  · split
    · exact .inl ⟨_, rfl⟩
    · exact .inr ⟨_, _, rfl⟩
  · exact .inr ⟨_, _, rfl⟩

end Format

/-- The digits of a number in its place, behind a sign if it is negative. -/
def signedDigits (negative : Bool) (digits : List Char) : String :=
  String.ofList (if negative then '-' :: digits else digits)

/-- How a number is written that has an end. -/
theorem number_cases {x : Float} (hnan : x.isNaN = false) (hinf : x.isInf = false) :
    ∃ negative digits, Literal.number x = signedDigits negative digits ∧ Numeral digits := by
  unfold Literal.number
  rw [hnan, hinf]
  simp only [Bool.false_eq_true, if_false]
  split
  · cases (Decimal.wholePart? x).getD 0 with
    | ofNat n => exact ⟨false, _, rfl, Numeral.digitsOf n⟩
    | negSucc n =>
      refine ⟨true, _, ?_, Numeral.digitsOf (n + 1)⟩
      simp [Decimal.intText, Decimal.natText, signedDigits]
  · rcases ofFloat_cases hnan hinf with ⟨negative, h⟩ | ⟨negative, value, h⟩
    · refine ⟨negative, ['0'], ?_, .inl (by decide)⟩
      cases negative <;>
        simp [Decimal.plainText, h, Decimal.Layout.render, Decimal.Layout.plain, signedDigits]
    · refine ⟨negative, _, ?_, Numeral.body value.shortest.1 value.shortest.2⟩
      cases negative <;> simp [Decimal.plainText, h, Decimal.Layout.render, signedDigits]

end SheetScript.Expression
