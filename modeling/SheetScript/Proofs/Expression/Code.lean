import Mathlib.Data.List.Forall2
import SheetScript.Proofs.Expression.Formula

/-!
# The code of a formula as an expression

  The text that a formula has in the script is an expression of the script
  language, and `Formula.reading` is its tree: by the structure of the formula,
  the text of every part is put together from the texts of its own parts.

  Main statement: `Formula.reads_code`.
-/

namespace SheetScript.Formula

open Expression

variable {df : String}

/-! ### Constants -/

theorem operand_number (x : Float) :
    Operand false (Literal.number x) fun w => reading df w (.number x) := by
  have hfloat : Cuts true "float(" [.name "float", .opening] := Cuts.of_feed rfl
  -- what is no number, or has no end, is a call of a function on its name
  have hcall (name : String) (s : String) (hs : s = "float(" ++ Literal.text name ++ ")")
      (hx : Literal.number x = s) (hm : magnitude x = invoke (.name "float") [.text name]) :
      Operand false (Literal.number x) fun w => reading df w (.number x) := by
    have hsign : isNegativeLiteral x = false := by
      simp [isNegativeLiteral, hx, hs]
    have htext : Spells true .expression (Literal.text name) (.text name) :=
      (Spells.text name).operand.expression
    have hspells : Spells false .primary s (magnitude x) := by
      rw [hm, hs]
      exact Spells.call_one hfloat htext
    simp only [reading, hsign, hx]
    exact hspells.operand
  by_cases hnan : x.isNaN = true
  · exact hcall "nan" "float('nan')" rfl
      (by rw [Literal.number, if_pos hnan]) (by rw [magnitude, if_pos hnan])
  by_cases hinf : x.isInf = true
  · by_cases hpos : 0 < x
    · exact hcall "inf" "float('inf')" rfl
        (by rw [Literal.number, if_neg hnan, if_pos hinf, if_pos hpos])
        (by rw [magnitude, if_neg hnan, if_pos hinf, if_pos hpos])
    · exact hcall "-inf" "float('-inf')" rfl
        (by rw [Literal.number, if_neg hnan, if_pos hinf, if_neg hpos])
        (by rw [magnitude, if_neg hnan, if_pos hinf, if_neg hpos])
  · obtain ⟨negative, digits, hx, hdigits⟩ :=
      number_cases (eq_false_of_ne_true hnan) (eq_false_of_ne_true hinf)
    obtain ⟨c, rest, rfl, hc⟩ := hdigits.head_isDigit
    have hne : c ≠ '-' := by rintro rfl; exact absurd hc (by decide)
    have hsign : isNegativeLiteral x = negative := by
      cases negative <;> simp [isNegativeLiteral, hx, signedDigits, hne]
    have hmagnitude : magnitude x = .number (String.ofList (c :: rest)) := by
      rw [magnitude, if_neg hnan, if_neg hinf, hx]
      cases negative <;> simp [signedDigits, hne]
    have hspells := (Spells.numeral hdigits).operand
    simp only [reading, hsign, hmagnitude]
    cases negative with
    | false =>
      rw [hx]
      exact hspells
    | true =>
      have htext : Literal.number x = "-" ++ String.ofList (c :: rest) := by
        rw [hx, ← String.toList_inj]
        simp [signedDigits]
      rw [htext]
      exact hspells.negated

theorem operand_bool (b : Bool) :
    Operand false (codeAt df false (.bool b)) fun w => reading df w (.bool b) := by
  cases b with
  | true =>
    have hcuts : Cuts false "True" [.constant "True"] := Cuts.of_tokens rfl
    have hspells : Spells false .primary "True" (.constant "True") :=
      ⟨_, hcuts, (Derives.constant "True").primary_of_atom⟩
    simpa only [codeAt, reading] using hspells.operand
  | false =>
    have hcuts : Cuts false "False" [.constant "False"] := Cuts.of_tokens rfl
    have hspells : Spells false .primary "False" (.constant "False") :=
      ⟨_, hcuts, (Derives.constant "False").primary_of_atom⟩
    simpa only [codeAt, reading] using hspells.operand

/-! ### Lists of formulas -/

theorem filledCodes_eq_map (args : List Formula) :
    filledCodes df args = args.map fun e =>
      if isConstant e then codeAt df false e else codeAt df false e ++ ".fillna(0)" := by
  induction args with
  | nil => rw [filledCodes, List.map_nil]
  | cons e rest ih => rw [filledCodes, ih, List.map_cons]

theorem filledCodes_of_areConstant {args : List Formula} (h : areConstant args = true) :
    filledCodes df args = codesAt df false args := by
  induction args with
  | nil => rw [filledCodes, codesAt]
  | cons e rest ih =>
    rw [areConstant, Bool.and_eq_true] at h
    rw [filledCodes, codesAt, if_pos h.1, ih h.2]

theorem textCodes_eq_map (args : List Formula) :
    textCodes df args = args.map (textCode df) := by
  induction args with
  | nil => rw [textCodes, List.map_nil]
  | cons e rest ih => rw [textCodes, ih, List.map_cons]

/-! ### The two ways to write a formula -/

/-- What is proved of a formula: alone its text is an expression, and as an
  operand it can have something behind it. -/
structure Written (df : String) (e : Formula) : Prop where
  operand : Operand (!isConstant e) (codeAt df false e) fun w => reading df w e
  alone : Spells false .expression (codeAt df true e) (reading df id e)

/-- What needs no brackets is written in one way. -/
theorem Written.of_operand {e : Formula} (h : codeAt df true e = codeAt df false e)
    (ho : Operand (!isConstant e) (codeAt df false e) fun w => reading df w e) :
    Written df e where
  operand := ho
  alone := by
    rw [h]
    exact ho.expression.loose

/-- Operators are written in brackets but for those that stand alone. -/
theorem Written.of_alone {e : Formula} {t : Expression}
    (h : codeAt df false e = bracketed (codeAt df true e))
    (hr : ∀ w, reading df w e = w t) (ha : Spells false .expression (codeAt df true e) t) :
    Written df e where
  operand := by
    have hspells : Spells (!isConstant e) .primary (bracketed (codeAt df true e)) t := ha.bracketed
    simpa only [h, hr] using hspells.operand
  alone := by
    rw [hr]
    exact ha

/-- A summand of a sum. -/
theorem Written.filled {e : Formula} (h : Written df e) :
    Spells false .factor
      (if isConstant e then codeAt df false e else codeAt df false e ++ ".fillna(0)")
      (used (isConstant e) (filled e) fun v => reading df v e) := by
  have hfillna : Cuts true ".fillna(0)" [.dot, .name "fillna", .opening, .number "0", .closing] :=
    Cuts.of_feed rfl
  have hzero : Derives .expression [.number "0"] (.number "0") :=
    (Derives.unsigned (.base (Derives.number "0").primary_of_atom)).whole
  have htrailers (b : Expression) : Derives (.trailers b) _ (method b "fillna" [.number "0"]) :=
    .member hzero.call_one
  cases hconstant : isConstant e with
  | true =>
    simpa only [used, Formula.filled, hconstant, if_true] using h.operand.factor.loose
  | false =>
    have hoperand := h.operand
    rw [hconstant] at hoperand
    have hmethod := (hoperand.trailers hfillna htrailers).factor.loose
    have huse : Formula.filled e = fun t => method t "fillna" [.number "0"] := by
      funext t
      simp [Formula.filled, hconstant]
    simp only [used, huse, Bool.false_eq_true, if_false]
    exact hmethod

/-- The text of a formula's text. -/
theorem Written.text {e : Formula} (h : Written df e) :
    Spells false .factor (textCode df e)
      (used (isConstant e) (asText e) fun v => reading df v e) := by
  have hstr : Cuts true "str(" [.name "str", .opening] := Cuts.of_feed rfl
  have hastype : Cuts true ".astype(str)" [.dot, .name "astype", .opening, .name "str", .closing] :=
    Cuts.of_feed rfl
  have hname : Derives .expression [.name "str"] (.name "str") :=
    (Derives.unsigned (.base (Derives.name "str").primary_of_atom)).whole
  have htrailers (b : Expression) : Derives (.trailers b) _ (method b "astype" [.name "str"]) :=
    .member hname.call_one
  have hquoted (s : String) : Spells false .factor (Literal.text s) (.text s) :=
    (Spells.text s).operand.factor
  -- a constant is made a text by a function, and a column by a method
  have hgeneral (hcode : textCode df e = if isConstant e then "str(" ++ codeAt df true e ++ ")"
        else codeAt df false e ++ ".astype(str)")
      (huse : ∀ t, asText e t =
        if isConstant e then invoke (.name "str") [t] else method t "astype" [.name "str"]) :
      Spells false .factor (textCode df e)
        (used (isConstant e) (asText e) fun v => reading df v e) := by
    rw [hcode]
    cases hconstant : isConstant e with
    | true =>
      have hcall : Spells true .primary ("str(" ++ codeAt df true e ++ ")")
          (invoke (.name "str") [reading df id e]) := Spells.call_one hstr h.alone
      simp only [used, huse, hconstant, if_true]
      exact hcall.operand.factor.loose
    | false =>
      have hoperand := h.operand
      rw [hconstant] at hoperand
      have hmethod := (hoperand.trailers hastype htrailers).factor.loose
      have huse : asText e = fun t => method t "astype" [.name "str"] := by
        funext t
        simp [huse, hconstant]
      simp only [used, huse, Bool.false_eq_true, if_false]
      exact hmethod
  cases e with
  | text s => simpa [textCode, used, asText, isConstant] using hquoted s
  | number x => simpa [textCode, used, asText, isConstant] using hquoted (Literal.number x)
  | bool b => exact hgeneral (by simp [textCode, isConstant]) fun t => by simp [asText]
  | column h =>
    exact hgeneral (by simp [textCode, isConstant, isColumn, codeAt]) fun t => by simp [asText]
  | negate e => exact hgeneral (by simp [textCode, isColumn]) fun t => by simp [asText]
  | binary o l r => exact hgeneral (by simp [textCode, isColumn]) fun t => by simp [asText]
  | call f args => exact hgeneral (by simp [textCode, isColumn]) fun t => by simp [asText]

/-! ### Functions -/

/-- A function of a constant is called on what stands in its brackets. -/
theorem spells_applied {f : Function} (hf : isMethod f = true) {args : List Formula}
    (hconstant : areConstant args = true) {s : String} {t : Expression}
    (hs : (codesAt df true args).headD "None" = s) (h : Spells false .expression s t) :
    Spells false .primary (codeAt df false (.call f args))
      (applied f (roundDigits args) true t) := by
  have hdigits : Spells false .expression (Decimal.natText (roundDigits args))
      (.number (Decimal.natText (roundDigits args))) :=
    (Spells.numeral (Numeral.digitsOf _)).operand.expression
  have hstr : Spells true .primary ("str(" ++ s ++ ")") (invoke (.name "str") [t]) :=
    Spells.call_one (Cuts.of_feed rfl) h
  -- a constant has no rows, so a function is called on it and no method of a column
  cases f with
  | sum | concat | choose => cases hf
  | abs =>
    have habs : Cuts true "abs(" [.name "abs", .opening] := Cuts.of_feed rfl
    simp only [codeAt, hconstant, hs, if_true]
    exact Spells.call_one habs h
  | round =>
    have hround : Cuts true "round(" [.name "round", .opening] := Cuts.of_feed rfl
    have hfloat : Cuts true "float(" [.name "float", .opening] := Cuts.of_feed rfl
    have hinner : Spells false .primary ("float(" ++ s ++ ")") (invoke (.name "float") [t]) :=
      Spells.call_one hfloat h
    have hcall := Spells.call_two hround hinner.operand.expression hdigits (k := false)
    have hcode : codeAt df false (.call .round args) = "round(" ++ ("float(" ++ s ++ ")") ++ ", " ++
        Decimal.natText (roundDigits args) ++ ")" := by
      simp only [codeAt, hconstant, hs, if_true, ← String.toList_inj]
      simp
    rw [hcode]
    exact hcall
  | upper =>
    have hupper : Cuts false ".upper()" [.dot, .name "upper", .opening, .closing] :=
      Cuts.of_feed rfl
    have hcode : codeAt df false (.call .upper args) = ("str(" ++ s ++ ")") ++ ".upper()" := by
      simp only [codeAt, hconstant, hs, if_true, ← String.toList_inj]
      simp
    rw [hcode]
    exact hstr.trailers hupper fun b => .member (.call (.noTrailer _))
  | lower =>
    have hlower : Cuts false ".lower()" [.dot, .name "lower", .opening, .closing] :=
      Cuts.of_feed rfl
    have hcode : codeAt df false (.call .lower args) = ("str(" ++ s ++ ")") ++ ".lower()" := by
      simp only [codeAt, hconstant, hs, if_true, ← String.toList_inj]
      simp
    rw [hcode]
    exact hstr.trailers hlower fun b => .member (.call (.noTrailer _))
  | length =>
    have hlen : Cuts true "len(" [.name "len", .opening] := Cuts.of_feed rfl
    have hcode : codeAt df false (.call .length args) = "len(" ++ ("str(" ++ s ++ ")") ++ ")" := by
      simp only [codeAt, hconstant, hs, if_true, ← String.toList_inj]
      simp
    rw [hcode]
    exact Spells.call_one hlen hstr.operand.expression

/-- What a function calls on its argument if that has columns. -/
theorem exists_method {f : Function} (hf : isMethod f = true) (digits : Nat) :
    ∃ m ms, Cuts true m ms ∧
      (∀ b, Derives (.trailers b) ms (applied f digits false b)) ∧
      ∀ args, areConstant args = false → roundDigits args = digits →
        codeAt df false (.call f args) = (codesAt df false args).headD "None" ++ m := by
  have hname (s : String) : Derives .expression [.name s] (.name s) :=
    (Derives.unsigned (.base (Derives.name s).primary_of_atom)).whole
  have hnumber (s : String) : Derives .expression [.number s] (.number s) :=
    (Derives.unsigned (.base (Derives.number s).primary_of_atom)).whole
  -- methods of texts are called on the cells as texts
  have hastype (b : Expression) : Derives (.trailers b)
      [.dot, .name "astype", .opening, .name "str", .closing, .dot, .name "str"]
      (.member (method b "astype" [.name "str"]) "str") :=
    .member ((hname "str").call_one.trailers_append (.member (.noTrailer _)))
  have hsecond (name : String) (b : Expression) : Derives (.trailers b)
      ([.dot, .name "astype", .opening, .name "str", .closing, .dot, .name "str"] ++
        [.dot, .name name, .opening, .closing])
      (method (.member (method b "astype" [.name "str"]) "str") name []) :=
    (hastype b).trailers_append (.member (.call (.noTrailer _)))
  cases f with
  | sum | concat | choose => cases hf
  | abs =>
    have habs : Cuts true ".abs()" [.dot, .name "abs", .opening, .closing] :=
      Cuts.of_feed rfl
    refine ⟨_, _, habs, fun b => .member (.call (.noTrailer _)), ?_⟩
    intro args hconstant _
    simp only [codeAt, hconstant, Bool.false_eq_true, if_false]
  | round =>
    have hpre : Cuts true ".astype(float).round(" [.dot, .name "astype", .opening, .name "float",
        .closing, .dot, .name "round", .opening] := Cuts.of_feed rfl
    have hdigits : Cuts false (Decimal.natText digits) [.number (Decimal.natText digits)] :=
      (Numeral.digitsOf digits).cuts
    refine ⟨_, _, hdigits.enclosed hpre (Cuts.closing true) rfl, ?_, ?_⟩
    · intro b
      exact .member ((hname "float").call_one.trailers_append
        (.member (hnumber (Decimal.natText digits)).call_one))
    · intro args hconstant hround
      simp only [codeAt, hconstant, hround, Bool.false_eq_true, if_false, ← String.toList_inj]
      simp
  | upper =>
    refine ⟨".astype(str).str.upper()", _, Cuts.of_feed rfl, hsecond "upper", ?_⟩
    intro args hconstant _
    simp only [codeAt, hconstant, Bool.false_eq_true, if_false]
  | lower =>
    refine ⟨".astype(str).str.lower()", _, Cuts.of_feed rfl, hsecond "lower", ?_⟩
    intro args hconstant _
    simp only [codeAt, hconstant, Bool.false_eq_true, if_false]
  | length =>
    refine ⟨".astype(str).str.len()", _, Cuts.of_feed rfl, hsecond "len", ?_⟩
    intro args hconstant _
    simp only [codeAt, hconstant, Bool.false_eq_true, if_false]

/-! ### Formulas -/

/-- Formulas with plus signs between them, in brackets. -/
theorem written_total {f : Function} {args : List Formula} {code : Formula → String}
    {t : Formula → Expression}
    (hcode : ∀ alone, codeAt df alone (.call f args) =
      bracketed (" + ".intercalate (args.map code)))
    (hr : ∀ w, reading df w (.call f args) = w (total (args.map t)))
    (h : ∀ a ∈ args, Spells false .factor (code a) (t a)) (hne : args ≠ []) :
    Written df (.call f args) := by
  have hall : List.Forall₂ (Spells false .factor) (args.map code) (args.map t) := by
    rw [List.forall₂_map_left_iff, List.forall₂_map_right_iff, List.forall₂_same]
    exact h
  have hspells : Spells (!isConstant (.call f args)) .primary
      (bracketed (" + ".intercalate (args.map code))) (total (args.map t)) :=
    (Spells.total hall (by simpa using hne)).bracketed
  apply Written.of_operand
  · rw [hcode, hcode]
  · simpa only [hcode, hr] using hspells.operand

theorem written_binary {o : Operator} {l r : Formula} (hl : Written df l) (hr : Written df r) :
    Written df (.binary o l r) := by
  -- most operators stand between the texts of their sides
  have hgeneral (hpower : o ≠ .power) (hjoin : o ≠ .join) : Written df (.binary o l r) := by
    have hcode (alone : Bool) : codeAt df alone (.binary o l r) =
        if alone then codeAt df false l ++ " " ++ o.code ++ " " ++ codeAt df false r
        else bracketed (codeAt df false l ++ " " ++ o.code ++ " " ++ codeAt df false r) := by
      rw [codeAt]
      exact fun h => hjoin h
    have hbinary := (hl.operand.binary hpower hjoin hr.operand).loose
    apply Written.of_alone
    · rw [hcode, hcode]
      rfl
    · intro w
      rw [reading]
      · exact fun h => hjoin h
      · exact fun h => hpower h
    · rw [hcode]
      exact hbinary
  cases o with
  | join =>
    have hboth : List.Forall₂ (Spells false .factor) [textCode df l, textCode df r] _ :=
      .cons hl.text (.cons hr.text .nil)
    have hsum := Spells.total hboth (by simp)
    rw [String.intercalate_cons_cons, String.intercalate_singleton] at hsum
    apply Written.of_alone
    · simp [codeAt]
    · intro w
      rw [reading]
    · simpa [codeAt, total] using hsum
  | power =>
    have hpower := (hl.operand.power hr.operand).loose
    have hcode (alone : Bool) : codeAt df alone (.binary .power l r) =
        if alone then codeAt df false l ++ " ** " ++ codeAt df false r
        else bracketed (codeAt df false l ++ " ** " ++ codeAt df false r) := by
      rw [codeAt]
      · simp [Operator.code, String.append_assoc]
      · decide
    apply Written.of_alone
    · rw [hcode, hcode]
      rfl
    · intro w
      rw [reading]
    · rw [hcode]
      exact hpower
  | _ => exact hgeneral (by decide) (by decide)

/-- A choice is written in brackets if its condition is constant, and else as a
  method. -/
theorem written_choose {c a b : Formula} (hc : Written df c) (ha : Written df a)
    (hb : Written df b) (hdf : Naming.isVariableName df = true) :
    Written df (.call .choose [c, a, b]) := by
  have hr (w : Expression → Expression) : reading df w (.call .choose [c, a, b]) =
      w (if isConstant c then
          .conditional (reading df id a) (reading df id c) (reading df id b)
        else kept df (reading df id a) (reading df id c) (reading df id b)) := by
    rw [reading, readings_eq_map]
    simp only [List.map_cons, List.map_nil, chosen, used_self]
  have hcode (alone : Bool) : codeAt df alone (.call .choose [c, a, b]) =
      if isConstant c then
        "(" ++ codeAt df false a ++ " if " ++ codeAt df false c ++ " else " ++ codeAt df false b ++ ")"
      else
        "pd.Series(" ++ codeAt df true a ++ ", index=" ++ df ++ ".index).where(" ++
          codeAt df true c ++ ", " ++ codeAt df true b ++ ")" := by
    conv_lhs => unfold codeAt
    simp only [codesAt]
  apply Written.of_operand
  · rw [hcode, hcode]
  · simp only [hr, hcode]
    cases hconstant : isConstant c with
    | true =>
      have hspells : Spells (!isConstant (.call .choose [c, a, b])) .primary _ _ :=
        Spells.conditional ha.operand.factor hc.operand.factor hb.operand.factor
      exact hspells.operand
    | false =>
      have hfirm : isConstant (.call .choose [c, a, b]) = false := by
        simp [isConstant, areConstant, hconstant]
      rw [hfirm]
      exact (Spells.kept hdf ha.alone hc.alone hb.alone).operand

theorem written_method {f : Function} {args : List Formula} (hf : isMethod f = true)
    (hcalled : wellCalled (.call f args) = true) (ih : ∀ a ∈ args, Written df a) :
    Written df (.call f args) := by
  obtain ⟨a, rest, rfl, hrest⟩ := method_arguments hf hcalled
  have ha := ih a List.mem_cons_self
  have halone : codeAt df true (.call f (a :: rest)) = codeAt df false (.call f (a :: rest)) := by
    cases f with
    | sum | concat | choose => cases hf
    | abs | round | upper | lower | length => simp only [codeAt]
  apply Written.of_operand halone
  have hsame : isConstant (.call f (a :: rest)) = isConstant a := areConstant_method hrest
  rw [hsame]
  cases hconstant : isConstant a with
  | true =>
    have hargs : areConstant (a :: rest) = true := by rw [areConstant_method hrest, hconstant]
    have hhead : (codesAt df true (a :: rest)).headD "None" = codeAt df true a := by
      rw [codesAt, List.headD_cons]
    have hspells := spells_applied hf hargs hhead ha.alone
    simp only [reading_call_method hf, hargs, if_true, headReading]
    exact hspells.operand
  | false =>
    have hargs : areConstant (a :: rest) = false := by rw [areConstant_method hrest, hconstant]
    obtain ⟨m, ms, hm, htrailers, hcode⟩ := exists_method hf (roundDigits (a :: rest))
    have hoperand := ha.operand
    rw [hconstant] at hoperand
    rw [hcode _ hargs rfl, codesAt, List.headD_cons]
    simp only [reading_call_method hf, hargs, Bool.false_eq_true, if_false, headReading]
    exact hoperand.trailers hm htrailers

/-- The text of every formula is an expression. -/
theorem written (hdf : Naming.isVariableName df = true) {e : Formula}
    (h : wellCalled e = true) : Written df e := by
  -- the texts of the parts of a formula are expressions, and its own is put together of them
  induction e using Formula.induction with
  | number x =>
    apply Written.of_operand
    · simp only [codeAt]
    · rw [codeAt]
      exact operand_number x
  | text s =>
    apply Written.of_operand
    · simp only [codeAt]
    · simpa only [codeAt, reading] using (Spells.text s).operand
  | bool b =>
    apply Written.of_operand
    · cases b <;> simp only [codeAt]
    · exact operand_bool b
  | column header =>
    apply Written.of_operand
    · simp only [codeAt]
    · simp only [codeAt, reading]
      exact (Spells.column hdf header).operand
  | negate e ih =>
    have he := (ih h).operand
    apply Written.of_operand
    · simp only [codeAt]
    · simp only [codeAt, reading]
      exact he.negated
  | binary o l r ihl ihr =>
    simp only [wellCalled, Bool.and_eq_true] at h
    exact written_binary (ihl h.1) (ihr h.2)
  | call f args ih =>
    have hargs (a : Formula) (ha : a ∈ args) : Written df a := ih a ha (wellCalled_of_mem h ha)
    have hne : args ≠ [] := by
      rintro rfl
      simp only [wellCalled, Bool.and_eq_true] at h
      exact absurd (pos_of_accepts h.1.1) (Nat.lt_irrefl 0)
    by_cases hf : isMethod f = true
    · exact written_method hf h hargs
    · cases f with
      | sum =>
        refine written_total ?_ ?_ (fun a ha => (hargs a ha).filled) hne
        · intro alone
          rw [codeAt, ← filledCodes_eq_map]
          split
          · rename_i hconstant
            rw [filledCodes_of_areConstant hconstant]
          · rfl
        · intro w
          rw [reading, readings_eq_map]
      | concat =>
        refine written_total ?_ ?_ (fun a ha => (hargs a ha).text) hne
        · intro alone
          rw [codeAt, textCodes_eq_map]
        · intro w
          rw [reading, readings_eq_map]
      | choose =>
        obtain ⟨c, a, b, rfl⟩ := choose_arguments h
        exact written_choose (hargs c (by simp)) (hargs a (by simp)) (hargs b (by simp)) hdf
      | abs | round | upper | lower | length => exact absurd rfl hf

/-- The text of a formula in the script is read as one tree. -/
theorem reads_code (hdf : Naming.isVariableName df = true) {e : Formula}
    (h : wellCalled e = true) : Reads (code df e) (reading df id e) := by
  obtain ⟨ts, hts, hderives⟩ := (written hdf h).alone
  exact ⟨ts, hts.tokens, hderives⟩

end SheetScript.Formula
