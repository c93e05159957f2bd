import SheetScript.Proofs.Expression.Phrase
import SheetScript.Proofs.Filter.Grammar
import SheetScript.Proofs.Outcomes

/-! # Texts of masks

  How the text of a mask is put together from the texts of its parts, and how the
  numbers of filters are written: in digits, perhaps with a sign and an exponent.

  Main statements: `Spells.compared` and `Spells.combined` on masks, and `Spells.number`
  on numbers.
-/

namespace SheetScript

namespace Mask

variable {f g signed : Bool} {s s' : String} {m a b : Tree} {o : BoolOperator}

/-! ### Phrases -/

namespace Derives

variable {ts us : List Token}

theorem single (h : Derives (operandOf o) ts m) : Derives (.level o) ts m := by
  simpa using Derives.level h (.noOperand o m)

/-- An operand of `&` is one of `|` as well. -/
theorem operandOf (h : Derives (.operand false) ts m) : Derives (Mask.operandOf o) ts m := by
  cases o with
  | and => exact h
  | or => exact Derives.single (o := .and) h

theorem mask (h : Derives (.level o) ts m) : Derives .mask ts m := by
  cases o with
  | and => exact .uncompared (Derives.single (o := .or) h)
  | or => exact .uncompared h

theorem operand_mask (h : Derives (.operand false) ts m) : Derives .mask ts m :=
  h.operandOf.single.mask (o := .and)

end Derives

/-- Without brackets a comparison is of all that stands beside its sign. -/
example : Reads "~a & b == c" (.compared .equal
    (.combined .and (.complement (.plain (.name "a"))) (.plain (.name "b")))
    (.plain (.name "c"))) := by
  have hname (signed : Bool) (n : String) :
      Derives (.operand signed) ([Expression.Token.name n].map .plain) (.plain (.name n)) := by
    refine .plain ?_ (by simp)
    cases signed with
    | true => exact (Expression.Derives.name n).factor_of_atom
    | false => exact (Expression.Derives.name n).factor_of_atom.summand
  have hboth := Derives.level (o := .and) (.complement (hname true "a"))
    (.operand (hname false "b") (.noOperand _ _))
  exact ⟨_, by decide, .compared (by decide) (.single (o := .or) hboth)
    (hname false "c").operandOf.single⟩

/-- A text of a phrase; behind a firm one no token is open. -/
def Spells (firm : Bool) (p : Phrase) (s : String) (m : Tree) : Prop :=
  ∃ ts, Cuts firm s ts ∧ Derives p ts m

namespace Spells

/-- A mask is all that its text stands for. -/
theorem reads_iff (h : Spells f .mask s m) (m' : Tree) : Reads s m' ↔ m' = m := by
  obtain ⟨ts, hs, hm⟩ := h
  have hreads : Reads s m := ⟨ts, hs.tokens, hm⟩
  constructor
  · intro h'
    exact h'.unique hreads
  · rintro rfl
    exact hreads

theorem mask (h : Spells f (.operand false) s m) : Spells false .mask s m := by
  obtain ⟨ts, hs, hm⟩ := h
  exact ⟨ts, hs.loose, hm.operand_mask⟩

/-- An expression without a bracket at its head. -/
theorem plain {t : Expression.Token} {ts : List Expression.Token} {e : Expression}
    (hs : Cuts f s ((t :: ts).map .plain)) (ht : t ≠ .opening)
    (he : Expression.Derives .factor (t :: ts) e) : Spells f (.operand signed) s (.plain e) := by
  refine ⟨_, hs, .plain ?_ ht⟩
  cases signed with
  | true => exact he
  | false => exact he.summand

/-- An expression of one token. -/
theorem atom {t : Expression.Token} {e : Expression} (hs : Cuts f s [.plain t]) (ht : t ≠ .opening)
    (he : Expression.Derives .atom [t] e) : Spells f (.operand signed) s (.plain e) := by
  have htokens : Cuts f s ([t].map .plain) := hs
  exact plain htokens ht he.factor_of_atom

/-- A text in quotes. -/
theorem text (g signed : Bool) (value : String) :
    Spells g (.operand signed) (Literal.text value) (.plain (.text value)) :=
  atom (Cuts.of_expression (Expression.Cuts.text g value)) (by simp) (.text value)

/-- A word that is no keyword. -/
theorem word {w : String} (h : Expression.tokens? w = some [.name w]) :
    Spells false (.operand signed) w (.plain (.name w)) :=
  atom (Cuts.of_expression (Expression.Cuts.of_tokens h)) (by simp) (.name w)

/-- One of the words that stand for a value. -/
theorem constant {w : String} (h : Expression.tokens? w = some [.constant w]) :
    Spells false (.operand signed) w (.plain (.constant w)) :=
  atom (Cuts.of_expression (Expression.Cuts.of_tokens h)) (by simp) (.constant w)

theorem complement (h : Spells f (.operand true) s m) :
    Spells f (.operand signed) ("~" ++ s) (.complement m) := by
  obtain ⟨ts, hs, hm⟩ := h
  have hsign : Cuts true "~" [.complement] := Cuts.of_feed rfl
  exact ⟨_, hsign.append hs, .complement hm⟩

theorem bracketed (h : Spells f .mask s m) (g signed : Bool) :
    Spells g (.operand signed) ("(" ++ s ++ ")") m := by
  obtain ⟨ts, hs, hm⟩ := h
  exact ⟨_, hs.bracketed, .bracketed hm⟩

theorem compared {c : Operator} (hc : c ∈ Expression.comparisons)
    (h : Spells true (.operand false) s a) (h' : Spells f (.operand false) s' b) :
    Spells false .mask (s ++ (" " ++ c.code ++ " ") ++ s') (.compared c a b) := by
  obtain ⟨ts, hs, ha⟩ := h
  obtain ⟨us, hs', hb⟩ := h'
  have hjoin : c ≠ .join := by
    rintro rfl
    exact absurd hc (by decide)
  have hsign := Expression.Operand.cuts_operator c
  rw [if_neg hjoin] at hsign
  have hcuts := (hs.append (Cuts.of_expression hsign)).append hs'
  refine ⟨_, hcuts.loose, ?_⟩
  simpa using Derives.compared hc ha.operandOf.single hb.operandOf.single

end Spells

/-! ### Combined masks -/

theorem Cuts.sign (o : BoolOperator) : Cuts true (sign o) [.combining o] := by
  cases o <;> exact Cuts.of_feed rfl

/-- Masks in brackets behind the first one, each behind the sign of the operator. -/
theorem exists_tail {parts : List String} {ms : List Tree}
    (h : List.Forall₂ (Spells false .mask) parts ms) (a : Tree) :
    ∃ us, Derives (.tail o a) us (ms.foldl (.combined o) a) ∧
      ∀ {s : String} {ts : List Token}, Cuts true s ts →
        Cuts true ((sign o).intercalate (s :: parts.map fun p => "(" ++ p ++ ")")) (ts ++ us) := by
  induction h generalizing a with
  | nil =>
    refine ⟨[], .noOperand o a, ?_⟩
    intro s ts hs
    simpa using hs
  | @cons part m parts ms hpart _ ih =>
    obtain ⟨vs, hvs, hm⟩ := hpart.bracketed true false
    obtain ⟨us, hus, hcuts⟩ := ih (.combined o a m)
    refine ⟨.combining o :: (vs ++ us), .operand hm.operandOf hus, ?_⟩
    intro s ts hs
    have hfirst := hs.append (Cuts.sign o)
    rw [List.map_cons, String.intercalate_cons_cons]
    simpa using hfirst.append (hcuts hvs)

/-- Masks in brackets with signs between them group to the left. -/
theorem Spells.combined {part : String} {parts : List String} {ms : List Tree}
    (h : Spells f .mask part m) (hparts : List.Forall₂ (Spells false .mask) parts ms) :
    Spells false .mask (combined o (part :: parts)) (ms.foldl (.combined o) m) := by
  obtain ⟨ts, hts, hm⟩ := h.bracketed true false
  obtain ⟨us, hus, hcuts⟩ := exists_tail (o := o) hparts m
  exact ⟨_, (hcuts hts).loose, (Derives.level hm.operandOf hus).mask⟩

/-! ### Numbers -/

/-- A numeral with an exponent. -/
def Exponential (cs : List Char) : Prop :=
  ∃ mantissa sign digits, cs = mantissa ++ 'e' :: (sign ++ digits) ∧ Expression.Numeral mantissa ∧
    (sign = [] ∨ sign = ['+'] ∨ sign = ['-']) ∧ digits ≠ [] ∧ digits.all Decimal.isDigit = true

namespace State

theorem signToken?_of_isDigit {c : Char} (h : Decimal.isDigit c = true) : signToken? c = none := by
  unfold signToken?
  split <;> simp_all [Decimal.isDigit]

theorem feed_exponent (w cs : List Char) (h : cs.all Decimal.isDigit = true) :
    (State.exponent w).feed cs = some ([], .exponent (w ++ cs)) := by
  induction cs generalizing w with
  | nil => simp [feed]
  | cons c rest ih =>
    rw [List.all_cons, Bool.and_eq_true] at h
    simp [feed, step, inText, signToken?_of_isDigit h.1, goOn, h.1, ih (w ++ [c]) h.2]

/-- Behind a numeral and the letter the machine is behind the letter. -/
theorem feed_mark {cs : List Char} (h : Expression.Numeral cs) :
    (State.plain .blank).feed (cs ++ ['e']) = some ([], .mark (cs ++ ['e'])) := by
  rcases h.feed with ⟨hfeed, -⟩ | hfeed
  · simp [feed_append, feed_plain hfeed, feed, step, inText, signToken?, goOn]
  · simp [feed_append, feed_plain hfeed, feed, step, inText, signToken?, goOn]

/-- The exponent behind its letter. -/
theorem feed_exponentPart {w sign digits : List Char}
    (hsign : sign = [] ∨ sign = ['+'] ∨ sign = ['-']) (hne : digits ≠ [])
    (hdigits : digits.all Decimal.isDigit = true) :
    (State.mark w).feed (sign ++ digits) = some ([], .exponent (w ++ (sign ++ digits))) := by
  obtain ⟨c, rest, rfl⟩ := List.exists_cons_of_ne_nil hne
  rw [List.all_cons, Bool.and_eq_true] at hdigits
  obtain ⟨hc, hrest⟩ := hdigits
  have hnone := signToken?_of_isDigit hc
  rcases hsign with rfl | rfl | rfl
  · simp [feed, step, inText, hnone, goOn, hc, feed_exponent _ _ hrest]
  all_goals
    have hstep (d : Char) (hd : d = '+' ∨ d = '-') : (State.mark w).step d
        = some ([], .markSign (w ++ [d])) := by
      rcases hd with rfl | rfl <;> rfl
    have hdigit (v : List Char) : (State.markSign v).step c = some ([], .exponent (v ++ [c])) := by
      simp [step, inText, hnone, goOn, hc]
    simp [feed, hstep, hdigit, feed_exponent _ _ hrest]

end State

theorem Exponential.cuts {cs : List Char} (h : Exponential cs) :
    Cuts false (String.ofList cs) [.plain (.number (String.ofList cs))] := by
  obtain ⟨mantissa, sign, digits, rfl, hmantissa, hsign, hne, hdigits⟩ := h
  have hfeed := State.feed_append (.plain .blank) (mantissa ++ ['e']) (sign ++ digits)
  rw [State.feed_mark hmantissa, Option.bind_some,
    State.feed_exponentPart hsign hne hdigits] at hfeed
  have htext : mantissa ++ 'e' :: (sign ++ digits) = mantissa ++ ['e'] ++ (sign ++ digits) := by
    simp
  rw [htext]
  exact ⟨tokens?_eq_some_iff.mpr ⟨[], _, _, by simpa using hfeed, rfl, by simp⟩, nofun⟩

/-- A letter and an exponent, whose plus sign can be shown. -/
theorem exists_exponentPart (plus : Bool) (e : Int) :
    ∃ sign digits, (if plus && decide (0 < e) then ['+'] else []) ++ (Decimal.intText e).toList
        = sign ++ digits ∧
      (sign = [] ∨ sign = ['+'] ∨ sign = ['-']) ∧ digits ≠ [] ∧
      digits.all Decimal.isDigit = true := by
  have hne (n : Nat) : Decimal.digitsOf n ≠ [] := Nat.toDigits_ne_nil
  cases e with
  | ofNat n =>
    refine ⟨if plus && decide (0 < Int.ofNat n) then ['+'] else [], Decimal.digitsOf n, ?_, ?_,
      hne n, Decimal.all_digitsOf n⟩
    · simp [Decimal.intText, Decimal.natText]
    · split
      · exact .inr (.inl rfl)
      · exact .inl rfl
  | negSucc n =>
    -- a negative exponent shows its own sign only
    have hsign : ¬ 0 < Int.negSucc n := by omega
    refine ⟨['-'], Decimal.digitsOf (n + 1), ?_, .inr (.inr rfl), hne _, Decimal.all_digitsOf _⟩
    simp [hsign, Decimal.intText, Decimal.natText]

/-- Digits with a point behind the first one, if there are more. -/
theorem numeral_mantissa (n : Nat) :
    Expression.Numeral (match Decimal.digitsOf n with
      | d :: e :: rest => d :: '.' :: e :: rest
      | short => short) := by
  have hdigits := Decimal.all_digitsOf n
  obtain ⟨c, ds, hds, hc⟩ := Decimal.exists_digitsOf n
  rw [hds] at hdigits ⊢
  cases ds with
  | nil =>
    refine .inl ⟨by simp, hdigits, ?_⟩
    simp
  | cons d rest =>
    rw [List.all_cons, Bool.and_eq_true] at hdigits
    exact .inr ⟨[c], d :: rest, rfl, by simp, by simp, by simp [hc], hdigits.2⟩

/-- The digits of a number in a layout, in their places or with an exponent. -/
theorem body_cases (l : Decimal.Layout) (digits : Nat) (exponent : Int) :
    Expression.Numeral (l.body digits exponent) ∨ Exponential (l.body digits exponent) := by
  have hne : Decimal.digitsOf digits ≠ [] := Nat.toDigits_ne_nil
  have hplain := Expression.Numeral.body digits exponent
  unfold Decimal.Layout.body at hplain ⊢
  simp only [Decimal.Layout.plain, Option.all_none, Bool.and_self, if_true, Bool.false_eq_true,
    if_false, List.append_nil] at hplain
  dsimp only
  split
  · -- in their places the digits are those without a layout, up to a point at the end
    left
    split
    · next hexponent =>
      rw [if_pos hexponent] at hplain
      split
      · refine .inr ⟨_, ['0'], rfl, by simp [hne], by simp, ?_, by decide⟩
        simp [Decimal.all_digitsOf, Decimal.isDigit]
      · rwa [List.append_nil]
    · next hexponent =>
      rw [if_neg hexponent] at hplain
      exact hplain
  · right
    obtain ⟨sign, ds, htext, hsign, hds, hdigits⟩ :=
      exists_exponentPart l.plusSign ((Decimal.digitsOf digits).length + exponent - 1)
    refine ⟨_, sign, ds, ?_, numeral_mantissa digits, hsign, hds, hdigits⟩
    exact congrArg (fun part => _ ++ 'e' :: part) htext

/-- Digits with an exponent or without are one token. -/
theorem cuts_number {cs : List Char} (h : Expression.Numeral cs ∨ Exponential cs) :
    Cuts false (String.ofList cs) [.plain (.number (String.ofList cs))] := by
  rcases h with h | h
  · exact Cuts.of_expression h.cuts
  · exact h.cuts

namespace Spells

/-- Digits behind a sign if the number is negative. -/
theorem signedDigits (signed negative : Bool) {cs : List Char}
    (h : Expression.Numeral cs ∨ Exponential cs) :
    ∃ e, Spells false (.operand signed) (Expression.signedDigits negative cs) (.plain e) := by
  have hdigits := cuts_number h
  have hnumber : Expression.Derives .atom [.number (String.ofList cs)]
      (.number (String.ofList cs)) := .number _
  cases negative with
  | false => exact ⟨_, atom hdigits (by simp) hnumber⟩
  | true =>
    have hsign : Cuts true "-" [.plain (.operator .subtract)] := Cuts.of_feed rfl
    have hnegative : Cuts false ("-" ++ String.ofList cs)
        ([Expression.Token.operator .subtract, .number (String.ofList cs)].map .plain) :=
      hsign.append hdigits
    have htext : Expression.signedDigits true cs = "-" ++ String.ofList cs := by
      simp [Expression.signedDigits]
    rw [htext]
    exact ⟨_, plain hnegative (by simp) (.negated hnumber.factor_of_atom)⟩

/-- A call of a function, or of a member of a module, of a text. -/
theorem call {pre v : String} {n : String} {w : Expression} {us : List Expression.Token}
    (hpre : Expression.Cuts true pre (.name n :: us ++ [.opening]))
    (hw : ∀ {ts e}, Expression.Derives (.trailers w) ts e →
      Expression.Derives (.trailers (.name n)) (us ++ ts) e) :
    Spells g (.operand signed) (pre ++ Literal.text v ++ ")")
      (.plain (Expression.invoke w [.text v])) := by
  have hcuts := (hpre.append (Expression.Cuts.text true v)).append (Expression.Cuts.closing g)
  have htext : Expression.Derives .expression [.text v] (.text v) :=
    (Expression.Derives.text v).factor_of_atom.whole
  have hcall : Expression.Derives .primary
      (.name n :: (us ++ .opening :: ([.text v] ++ [.closing])))
      (Expression.invoke w [.text v]) := .primary (.name n) (hw htext.call_one)
  refine plain (Cuts.of_expression ?_) (by simp) (.unsigned (.base hcall))
  simpa using hcuts

theorem floatCall (v : String) :
    Spells g (.operand signed) ("float(" ++ Literal.text v ++ ")")
      (.plain (Expression.invoke (.name "float") [.text v])) := by
  have hpre : Expression.Cuts true "float(" (.name "float" :: [] ++ [.opening]) :=
    Expression.Cuts.of_feed rfl
  exact call hpre id

theorem intText (n : Int) : ∃ e, Spells false (.operand signed) (Decimal.intText n) (.plain e) := by
  have hnumeral (k : Nat) : Expression.Numeral (Decimal.digitsOf k) ∨
      Exponential (Decimal.digitsOf k) := .inl (Expression.Numeral.digitsOf k)
  cases n with
  | ofNat k => exact signedDigits signed false (hnumeral k)
  | negSucc k =>
    obtain ⟨e, he⟩ := signedDigits signed true (hnumeral (k + 1))
    refine ⟨e, ?_⟩
    simpa [Decimal.intText, Decimal.natText, Expression.signedDigits] using he

theorem floatText (x : Float) :
    ∃ e, Spells false (.operand signed) (Json.floatText x) (.plain e) := by
  unfold Json.floatText
  split
  · -- what is no number, or has no end, would be a word
    unfold Decimal.jsonText Decimal.Layout.render
    split
    · exact ⟨_, word (by decide)⟩
    · next negative _ =>
      cases negative with
      | false => exact ⟨_, word (by decide)⟩
      | true =>
        have hcuts : Expression.Cuts false "-inf" [.operator .subtract, .name "inf"] :=
          Expression.Cuts.of_tokens (by decide)
        have hname : Expression.Derives .factor [.name "inf"] (.name "inf") :=
          (Expression.Derives.name "inf").factor_of_atom
        exact ⟨_, plain (Cuts.of_expression hcuts) (by simp) (.negated hname)⟩
    · next negative _ =>
      have hzero : Expression.Numeral ['0', '.', '0'] :=
        .inr ⟨['0'], ['0'], rfl, by simp, by simp, by decide, by decide⟩
      obtain ⟨e, he⟩ := signedDigits signed negative (.inl hzero)
      refine ⟨e, ?_⟩
      cases negative <;> exact he
    · next negative value _ =>
      obtain ⟨e, he⟩ := signedDigits signed negative
        (body_cases .json value.shortest.1 value.shortest.2)
      refine ⟨e, ?_⟩
      cases negative <;> exact he
  · exact ⟨_, word (by decide)⟩

theorem literal (x : Float) :
    ∃ e, Spells false (.operand signed) (Literal.number x) (.plain e) := by
  have hcall (v : String) : ∃ e, Spells false (.operand signed) ("float(" ++ Literal.text v ++ ")")
      (.plain e) := ⟨_, floatCall v⟩
  by_cases hnan : x.isNaN = true
  · rw [Literal.number, if_pos hnan]
    exact hcall "nan"
  · by_cases hinf : x.isInf = true
    · rw [Literal.number, if_neg hnan, if_pos hinf]
      split
      · exact hcall "inf"
      · exact hcall "-inf"
    · obtain ⟨negative, digits, htext, hdigits⟩ :=
        Expression.number_cases (Bool.eq_false_iff.mpr hnan) (Bool.eq_false_iff.mpr hinf)
      rw [htext]
      exact signedDigits signed negative (.inl hdigits)

/-- The number of a filter is a literal. -/
theorem number (signed : Bool) {filter : Filter} {n : String} (h : filter.numberCode = .ok n) :
    ∃ e, Spells false (.operand signed) n (.plain e) := by
  unfold Filter.numberCode at h
  split at h
  · cases h
    exact intText _
  · cases h
    exact floatText _
  · obtain ⟨x, -, rfl⟩ := map_eq_ok.mp h
    exact literal x

end Spells

end Mask
end SheetScript
