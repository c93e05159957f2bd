import SheetScript.Calendar
import SheetScript.Proofs.Decimal.Literal
import SheetScript.Proofs.Filter.Combination
import SheetScript.Proofs.Json.Reading

/-! # Values of filters

  A filter compares with a number, once in the predicate, where it is a number of double
  precision, and once in the mask, where it is a literal.  The literal is always rounded to
  the number of the predicate.  It need not denote it: a whole number of JSON is written as
  it was given, also where the predicate had to round it, and a text is written as the
  shortest decimal of its number, which can be another whole number.

  A filter also compares with a moment.  The parts of a moment that is read are in their
  bounds, so its microseconds fit a word of 64 bits.

  Main statements: `Filter.mask_denotes_number` and `Moment.bounds_of_parse?`.
-/

namespace SheetScript

open Decimal

/-! ### When a literal is exact -/

/-- A number whose shortest decimal is the number itself, if that decimal is whole. -/
def Decimal.Reading.ShowsWhole : Reading → Prop
  | .finite _ b => 0 ≤ b.shortest.2 → (b.shortest.1 * 10 ^ b.shortest.2 : ℚ) = b.value
  | _ => True

namespace Literal

variable {x : Float}

/-- A shortest decimal below `2 ^ 53` that is whole is the number. -/
theorem showsWhole_of_small {b : Binary} (hb : IsDouble b) (hexponent : b.exponent ≤ 0)
    (negative : Bool) : (Reading.finite negative b).ShowsWhole := by
  intro hwhole
  obtain ⟨k, hk⟩ := Int.eq_ofNat_of_zero_le hwhole
  have hnearest := hb.nearest_shortest
  rw [hk, zpow_natCast] at hnearest ⊢
  have hint : ((b.shortest.1 : ℚ) * 10 ^ k) = ((b.shortest.1 * 10 ^ k : Int) : ℚ) := by
    push_cast
    rfl
  rw [hint] at hnearest ⊢
  exact eq_value_of_nearest hexponent hnearest

/-- The literal of a number denotes it exactly if its shortest decimal is not another whole
  number. -/
theorem number_denotes_iff (x : Float) :
    Denotes (number x) (ofFloat x) ↔ (ofFloat x).ShowsWhole := by
  have hrounds := number_roundsTo x
  cases hx : ofFloat x with
  | nan =>
    refine iff_of_true ⟨hx ▸ hrounds, fun w hw => ?_⟩ trivial
    rw [decimal?_word _ (.inl hx) hrounds] at hw
    cases hw
  | infinite negative =>
    refine iff_of_true ⟨hx ▸ hrounds, fun w hw => ?_⟩ trivial
    rw [decimal?_word _ (.inr ⟨negative, hx⟩) hrounds] at hw
    cases hw
  | zero negative =>
    refine iff_of_true ?_ trivial
    rw [← hx]
    refine hrounds.denotes_of_small (isDouble_ofFloat x) fun v hv => ?_
    rw [hx] at hv
    cases hv
    norm_num
  | finite negative b =>
    have hb := isDouble_of_ofFloat hx
    have hnan : x.isNaN = false := by
      rw [← Bool.not_eq_true, isNaN_iff, hx]
      exact nofun
    have hinf : x.isInf = false := by
      rw [← Bool.not_eq_true, isInf_iff, hx]
      exact nofun
    rw [number, hnan, hinf, if_neg Bool.false_ne_true, if_neg Bool.false_ne_true]
    split
    · -- Written in digits, so below `10 ^ 15`, where whole numbers have no other beside them.
      rename_i hwhole
      rw [Bool.and_eq_true, decide_eq_true_eq] at hwhole
      have hvalue := value?_of_isWhole hwhole.1
      rw [hx] at hvalue
      have hlimit : ofFloat 1e15 = .finite false ⟨8000000000000000, -3, false⟩ := by
        decide
      have hexponent := exponent_le_of_lt (ofFloat_abs hx) hlimit hwhole.2
      exact iff_of_true (denotes_of_value (decimal?_intText _) hvalue)
        (showsWhole_of_small hb (le_trans hexponent (by norm_num)) negative)
    -- the shortest decimal has no point exactly if its exponent is not negative
    · have hrender := decimal?_render .plain negative b
      rw [plainText, hx]
      have hfinite : x.isFinite = true := isFinite_iff.mpr ⟨hnan, hinf⟩
      have hplain := render_roundsTo .plain hfinite
      rw [hx] at hplain
      constructor
      · intro hdenotes hwhole
        have hvalue := hdenotes.2 _ hrender (by simp [Layout.inPlace, Layout.plain, hwhole])
        rw [Reading.value?, Option.some.injEq] at hvalue
        have hsigned := congrArg (signed negative) hvalue
        rw [signed_signed, signed_signed] at hsigned
        exact hsigned.symm
      · intro hshows
        refine ⟨hplain, fun w hw hwhole => ?_⟩
        rw [hrender] at hw
        cases hw
        have hexponent : 0 ≤ b.shortest.2 := by
          simpa [Layout.inPlace, Layout.plain] using hwhole
        rw [Reading.value?, hshows hexponent]

end Literal

/-! ### Predicate and mask -/

namespace Filter

/-- A value as a JSON text can hold it: a whole number has 64 bits, and any other number is
  finite. -/
def HoldsNumber (f : Filter) : Prop :=
  match f.value with
  | .int n => Json.leastInt ≤ n ∧ n ≤ Json.greatestInt
  | .float x => x.isFinite = true
  | _ => True

/-- Whether the number in the mask is the number `x` in the predicate, and not just rounded to
  it: a whole number of JSON has to be `x` itself, and so has the shortest decimal of the
  number of a text, if it is whole. -/
def KeepsNumber (f : Filter) (x : Float) : Prop :=
  match f.value with
  | .int n => (ofFloat x).value? = some n
  | .float _ => True
  | _ => (ofFloat x).ShowsWhole

variable {f : Filter} {x : Float}

theorem exists_numberLiteral (hholds : f.HoldsNumber) (h : f.numberValue = .ok x) :
    ∃ literal, f.numberCode = .ok literal ∧ Literal.RoundsTo literal (ofFloat x)
      ∧ (Literal.Denotes literal (ofFloat x) ↔ f.KeepsNumber x) := by
  have hnumber := numberValue_eq_ok.mp h
  unfold HoldsNumber at hholds
  unfold numberCode KeepsNumber
  cases hvalue : f.value with
  | int n =>
    rw [hvalue] at hnumber hholds
    obtain rfl : Float.ofInt n = x := Option.some.inj hnumber
    have hbits : n.natAbs < 2 ^ 64 := by
      unfold Json.leastInt Json.greatestInt at hholds
      omega
    refine ⟨_, rfl, Literal.intText_roundsTo hbits (ofInt_nearest hbits), ?_⟩
    constructor
    · intro hdenotes
      exact hdenotes.2 _ (decimal?_intText n) rfl
    · exact Literal.denotes_of_value (decimal?_intText n)
  | float y =>
    rw [hvalue] at hnumber hholds
    obtain rfl : y = x := Option.some.inj hnumber
    exact ⟨_, rfl, Literal.floatText_roundsTo hholds,
      iff_of_true (Literal.floatText_denotes hholds) trivial⟩
  | null | bool b | array items | object fields =>
    rw [hvalue] at hnumber
    cases hnumber
  | string s =>
    -- The mask has the literal of the number that was read, not the text.
    refine ⟨_, ?_, Literal.number_roundsTo x, Literal.number_denotes_iff x⟩
    rw [h]
    rfl

/-- The mask and the predicate of a filter that compares with a number: the literal in the mask
  is rounded to the number in the predicate, and below `2 ^ 53` it denotes that number. -/
theorem mask_denotes_number (hholds : f.HoldsNumber) (h : f.numberValue = .ok x) :
    ∃ literal, f.numberCode = .ok literal
      ∧ (∀ c, f.condition = .number c → ∀ target t header, t.isNumeric = true →
          f.code target t = .ok (target ++ " " ++ c.sign ++ " " ++ literal)
            ∧ f.test header t = .ok (.number c x))
      ∧ Literal.RoundsTo literal (ofFloat x)
      ∧ (Literal.Denotes literal (ofFloat x) ↔ f.KeepsNumber x)
      ∧ ((∀ v, (ofFloat x).value? = some v → |v| < 2 ^ 53)
          → Literal.Denotes literal (ofFloat x)) := by
  obtain ⟨literal, hcode, hrounds, hdenotes⟩ := exists_numberLiteral hholds h
  refine ⟨literal, hcode, ?_, hrounds, hdenotes, ?_⟩
  · intro c hc target t header ht
    refine ⟨?_, test_eq_ok.mpr ⟨?_, .number hc (numberValue_eq_ok.mp h)⟩⟩
    · rw [code, hc]
      dsimp only
      rw [hcode]
      rfl
    · rw [hc]
      exact ht
  · exact hrounds.denotes_of_small (isDouble_ofFloat x)

/-- A text that is a number, with white space around it. -/
theorem mask_denotes_number_text :
    ∃ literal, numberCode ⟨.number .greater, .string " 7.5 "⟩ = .ok literal
      ∧ Literal.RoundsTo literal (ofFloat 7.5) :=
  have hholds : HoldsNumber ⟨.number .greater, .string " 7.5 "⟩ := trivial
  have hnumber : numberValue ⟨.number .greater, .string " 7.5 "⟩ = .ok 7.5 := by
    decide
  let ⟨literal, hcode, _, hrounds, _⟩ := mask_denotes_number hholds hnumber
  ⟨literal, hcode, hrounds⟩

/-- The least whole number above zero that is not a number of double precision: the mask has
  all its digits, and the predicate the number before it. -/
theorem mask_keeps_digits :
    let f : Filter := ⟨.number .exactly, .int 9007199254740993⟩
    let x : Float := 9007199254740992
    f.HoldsNumber ∧ f.code "series" .int64 = .ok "series == 9007199254740993"
      ∧ f.test "A" .int64 = .ok (.number .exactly x)
      ∧ decimal? "9007199254740993" = some ⟨9007199254740993, true⟩
      ∧ (ofFloat x).value? = some 9007199254740992
      ∧ ¬ Literal.Denotes "9007199254740993" (ofFloat x) := by
  have hdecimal : decimal? "9007199254740993" = some ⟨9007199254740993, true⟩ := by
    decide
  have hvalue : (ofFloat 9007199254740992).value? = some 9007199254740992 := by
    have hx : ofFloat 9007199254740992 = .finite false ⟨2 ^ 52, 1, true⟩ := by decide
    rw [hx]
    norm_num [Reading.value?, signed, Binary.value]
  refine ⟨⟨by decide, by decide⟩, by decide, by decide, hdecimal, hvalue, ?_⟩
  intro hdenotes
  have heq := hvalue.symm.trans (hdenotes.2 _ hdecimal rfl)
  norm_num at heq

end Filter

/-! ### Moments -/

/-- The days of a date that exists are few enough for microseconds in 64 bits. -/
theorem Civil.toDays_bounds {c : Civil} (h : c.inRange = true) :
    -100000000 ≤ c.toDays ∧ c.toDays ≤ 100000000 := by
  unfold inRange at h
  simp only [Bool.and_eq_true, decide_eq_true_eq] at h
  obtain ⟨⟨⟨⟨⟨hleast, hgreatest⟩, -⟩, -⟩, -⟩, hday⟩ := h
  have hdays : c.day ≤ 31 := by
    refine Nat.le_trans hday ?_
    unfold daysIn
    split
    · split <;> omega
    all_goals omega
  unfold toDays
  dsimp only
  have hshifted := Nat.mod_lt (c.month + 9) (by decide : 0 < 12)
  generalize (c.month + 9) % 12 = shifted at hshifted
  rw [Int.fdiv_eq_ediv_of_nonneg _ (by decide)]
  split <;> omega

namespace Moment

/-- The time of day is within its bounds. -/
def Parts.Timed (p : Parts) : Prop := p.hour ≤ 23 ∧ p.minute ≤ 59 ∧ p.second ≤ 60

theorem bounded?_le {least greatest : Nat} {cs : List Char} {r : Nat × List Char}
    (h : bounded? least greatest cs = some r) : r.1 ≤ greatest := by
  have hbounds := (Option.filter_eq_some_iff.mp h).2
  rw [Bool.and_eq_true, decide_eq_true_eq, decide_eq_true_eq] at hbounds
  exact hbounds.2

/-- Reading a part keeps the time of day within its bounds. -/
theorem Item.read_timed {i : Item} {p : Parts} {cs : List Char} {r : Parts × List Char}
    (hp : p.Timed) (h : i.read p cs = some r) : r.1.Timed := by
  obtain ⟨hhour, hminute, hsecond⟩ := hp
  cases i with
  | hour | minute | second =>
    obtain ⟨n, hn, rfl⟩ := Option.map_eq_some_iff.mp h
    have hle := bounded?_le hn
    constructor <;> simp_all
  | year | month | day =>
    obtain ⟨n, hn, rfl⟩ := Option.map_eq_some_iff.mp h
    exact ⟨hhour, hminute, hsecond⟩
  | space =>
    obtain rfl := Option.some.inj h
    exact ⟨hhour, hminute, hsecond⟩
  | literal c =>
    cases cs with
    | nil => cases h
    | cons d rest =>
      simp only [read] at h
      split at h
      · obtain rfl := Option.some.inj h
        exact ⟨hhour, hminute, hsecond⟩
      · cases h

theorem readItems_timed {items : List Item} {p q : Parts} {cs : List Char} (hp : p.Timed)
    (h : readItems items p cs = some q) : q.Timed := by
  induction items generalizing p cs with
  | nil =>
    simp only [readItems] at h
    split at h
    · exact Option.some.inj h ▸ hp
    · cases h
  | cons i rest ih =>
    obtain ⟨r, hr, h⟩ := Option.bind_eq_some_iff.mp h
    exact ih (i.read_timed hp hr) h

/-- The microseconds of a moment that is read fit a word of 64 bits. -/
theorem bounds_of_parse? {text : String} {m : Moment} (h : parse? text = some m) :
    -2 ^ 63 ≤ m.toMicroseconds ∧ m.toMicroseconds < 2 ^ 63 := by
  obtain ⟨items, -, hitems⟩ := List.exists_of_findSome?_eq_some h
  obtain ⟨p, hp, hm⟩ := Option.bind_eq_some_iff.mp hitems
  have htimed := readItems_timed ⟨by decide, by decide, by decide⟩ hp
  unfold ofParts? at hm
  dsimp only at hm
  split at hm
  · rename_i hrange
    obtain rfl := Option.some.inj hm
    have hdays := Civil.toDays_bounds hrange
    obtain ⟨hhour, hminute, hsecond⟩ := htimed
    unfold toMicroseconds
    dsimp only
    omega
  · cases hm

end Moment

end SheetScript
