import SheetScript.Proofs.Filter.Rows
import SheetScript.Proofs.Filter.Values
import SheetScript.Proofs.Table.Order
import SheetScript.Proofs.Workbook.Call
import SheetScript.Workbook.Plan

/-! # Filters as rules

  The formula of a rule tells what a filter asks of a cell: the condition, and the value up to
  the sign of a zero.  Of a moment it tells the date only.  So filters with one formula keep
  the same rows, unless they compare with two moments of one day.

  Main statement: `Workbook.rule_keeps_test`.
-/

namespace SheetScript.Workbook

open Call

/-! ### Formulas -/

/-- What a rule compares: the cell, or the length of its text. -/
inductive Measure where
  | cell
  | length
  deriving DecidableEq, Repr

/-- How a measure is written. -/
def Measure.formula (cell : String) : Measure → String
  | .cell => cell
  | .length => "LEN(TRIM(" ++ cell ++ "))"

/-- What a rule says of a cell. -/
inductive RuleForm where
  | compared (m : Measure) (c : Comparison) (value : String)
  | matched (m : TextMatch) (text : String)
  deriving DecidableEq, Repr

namespace RuleForm

/-- The formula for a cell. -/
def formula (cell : String) : RuleForm → String
  | .compared m c value => m.formula cell ++ comparisonSign c ++ value
  | .matched m text => matchFormula m cell (quotedText text)

/-- What the rule of a filter says, if the value of the filter can be read. -/
def of? (f : Filter) : Option RuleForm :=
  match f.condition with
  | .number c => f.numberValue.toOption.map fun x => .compared .cell c (Literal.number x)
  | .text m => some (.matched m f.textValue)
  | .truth b => some (.compared .cell .exactly (if b then "TRUE" else "FALSE"))
  | .empty => some (.compared .length .exactly "0")
  | .notEmpty => some (.compared .length .greater "0")
  | .moment c => f.momentValue.toOption.map fun m => .compared .cell c (dateText m.date)

theorem ruleFormula_eq (cell : String) (t : DType) (f : Filter) :
    ruleFormula cell t f
      = if f.condition.appliesTo t then (of? f).map (formula cell) else none := by
  unfold ruleFormula of?
  split
  · cases f.condition with
    | number c | moment c =>
      dsimp only
      rw [Option.map_map]
      rfl
    | text m => rfl
    | truth b =>
      have htext : cell ++ (if b then "=TRUE" else "=FALSE")
          = cell ++ "=" ++ if b then "TRUE" else "FALSE" := by
        rw [String.append_assoc]
        cases b <;> rfl
      exact congrArg some htext
    | empty | notEmpty =>
      simp only [Option.map_some, formula, Measure.formula, String.append_assoc]
      rfl
  · rfl

end RuleForm

/-! ### Reading formulas -/

variable {cell : String} {c c' : Comparison}

theorem comparisonSign_all (c : Comparison) : (comparisonSign c).toList.all isSign = true := by
  cases c <;> rfl

theorem comparisonSign_injective (h : comparisonSign c = comparisonSign c') : c = c' := by
  revert h
  cases c <;> cases c' <;> decide

/-- Without a sign of a comparison. -/
def Signless (value : String) : Prop := ∀ d ∈ value.toList, isSign d = false

variable {value value' : String}

theorem Signless.of_signs (h : value.toList.all (fun d => !isSign d) = true) : Signless value := by
  intro d hd
  simpa using List.all_eq_true.mp h d hd

theorem Signless.of_all (h : value.toList.all isQuiet = true) : Signless value := by
  intro d hd
  have hquiet := List.all_eq_true.mp h d hd
  rw [isQuiet, Bool.and_eq_true] at hquiet
  simpa using hquiet.2

/-- The sign of a comparison ends where its value starts. -/
theorem eq_of_sign_append (hvalue : Signless value) (hvalue' : Signless value')
    (h : comparisonSign c ++ value = comparisonSign c' ++ value') : c = c' ∧ value = value' := by
  have hsign : ∀ (c : Comparison) {value : String}, Signless value →
      ((comparisonSign c ++ value).toList.takeWhile isSign) = (comparisonSign c).toList := by
    intro c value hvalue
    have hnone : value.toList.takeWhile isSign = [] := by
      rw [List.takeWhile_eq_nil_iff]
      intro hpos hsign
      exact absurd hsign (by simp [hvalue _ (List.getElem_mem hpos)])
    rw [String.toList_append,
      List.takeWhile_append_of_pos (List.all_eq_true.mp (comparisonSign_all c)), hnone,
      List.append_nil]
  have hsame := congrArg (fun s : String => s.toList.takeWhile isSign) h
  rw [hsign c hvalue, hsign c' hvalue', String.toList_inj] at hsame
  obtain rfl := comparisonSign_injective hsame
  exact ⟨rfl, (String.append_right_inj _).mp h⟩

/-- What stands behind the last sign of a comparison is its value. -/
theorem value_eq_of_append {left left' : String} (hvalue : Signless value)
    (hvalue' : Signless value')
    (h : left ++ comparisonSign c ++ value = left' ++ comparisonSign c' ++ value') :
    value = value' := by
  have hlast : ∀ (left : String) (c : Comparison) {value : String}, Signless value →
      ((left ++ comparisonSign c ++ value).toList.reverse.takeWhile fun d => !isSign d)
        = value.toList.reverse := by
    intro left c value hvalue
    have hstop : ((comparisonSign c).toList.reverse ++ left.toList.reverse).takeWhile
        (fun d => !isSign d) = [] := by
      cases c <;> rfl
    have hvalue : ∀ d ∈ value.toList.reverse, (!isSign d) = true := by
      intro d hd
      rw [hvalue d (List.mem_reverse.mp hd)]
      rfl
    rw [String.toList_append, String.toList_append, List.reverse_append, List.reverse_append,
      List.takeWhile_append_of_pos hvalue, hstop, List.append_nil]
  have hsame := congrArg (fun s : String => s.toList.reverse.takeWhile fun d => !isSign d) h
  rw [hlast left c hvalue, hlast left' c' hvalue', List.reverse_inj, String.toList_inj] at hsame
  exact hsame

/-- Comparisons of one cell that are written alike are alike. -/
theorem compared_injective {m m' : Measure} (hvalue : Signless value) (hvalue' : Signless value')
    (h : (RuleForm.compared m c value).formula cell
      = (RuleForm.compared m' c' value').formula cell) :
    m = m' ∧ c = c' ∧ value = value' := by
  simp only [RuleForm.formula] at h
  have hsame := value_eq_of_append hvalue hvalue' h
  obtain rfl : m = m' := by
    -- The signs are too short to make up for the call.
    by_contra hne
    have hlength := congrArg String.length h
    have hsign : ∀ c, 1 ≤ (comparisonSign c).length ∧ (comparisonSign c).length ≤ 2 := by
      intro c
      cases c <;> decide
    have hc := hsign c
    have hc' := hsign c'
    have hcall : ("LEN(TRIM(" : String).length = 9 ∧ ("))" : String).length = 2 := by decide
    cases m <;> cases m' <;> first
      | exact hne rfl
      | simp only [Measure.formula, String.length_append, hsame, hcall] at hlength
        omega
  refine ⟨rfl, ?_⟩
  rw [String.append_assoc, String.append_assoc] at h
  exact eq_of_sign_append hvalue hvalue' ((String.append_right_inj _).mp h)

/-! ### Texts in formulas -/

/-- The part between the quotes with every quote once. -/
def unquoted : List Char → List Char
  | '"' :: '"' :: rest => '"' :: unquoted rest
  | d :: rest => d :: unquoted rest
  | [] => []

theorem quotedText_injective {s s' : String} (h : quotedText s = quotedText s') : s = s' := by
  have hread : ∀ cs : List Char,
      unquoted (cs.flatMap fun d => if d == '"' then ['"', '"'] else [d]) = cs := by
    intro cs
    induction cs with
    | nil => rfl
    | cons d cs ih =>
      rw [List.flatMap_cons]
      by_cases hd : d = '"'
      · subst hd
        exact congrArg (List.cons '"') ih
      · rw [if_neg (by simpa using hd), List.singleton_append]
        have hplain : ∀ rest, unquoted (d :: rest) = d :: unquoted rest := by
          intro rest
          rw [unquoted]
          rintro _ rfl
          exact absurd rfl hd
        rw [hplain, ih]
  unfold quotedText at h
  have hbody := List.append_cancel_right (List.cons.inj (String.ofList_injective h)).2
  rw [← String.toList_inj, ← hread s.toList, hbody, hread]

/-- How the formula of a match starts. -/
def matchOpening : TextMatch → List Char
  | .contains => "NOT(ISERROR(F".toList
  | .containsAnyCase => "NOT(ISERROR(S".toList
  | .lacks => "IS".toList
  | .startsWith => "LEF".toList
  | .endsWith => "RI".toList
  | .exactly => "EX".toList
  | .notExactly => "NOT(E".toList

theorem matchOpening_starts (m : TextMatch) (cell text : String) :
    matchOpening m <+: (matchFormula m cell text).toList := by
  have hprefix : ∀ {opening : List Char} {first rest : String}, opening <+: first.toList →
      opening <+: (first ++ rest).toList := by
    intro opening first rest h
    rw [String.toList_append]
    exact List.prefix_append_of_prefix h
  unfold matchFormula
  cases m <;> simp only [String.append_assoc] <;> exact hprefix (by decide)

theorem matchOpening_injective {m m' : TextMatch} {cs : List Char} (h : matchOpening m <+: cs)
    (h' : matchOpening m' <+: cs) : m = m' := by
  have hone := List.prefix_or_prefix_of_prefix h h'
  have hopenings : ∀ m m', matchOpening m <+: matchOpening m' ∨ matchOpening m' <+: matchOpening m →
      m = m' := by
    intro m m'
    cases m <;> cases m' <;> decide
  exact hopenings m m' hone

theorem eq_of_twice {s s' between : String} (h : s ++ (between ++ s) = s' ++ (between ++ s')) :
    s = s' := by
  have hlength := congrArg String.length h
  simp only [String.length_append] at hlength
  have hlists := congrArg String.toList h
  rw [String.toList_append, String.toList_append (s := s')] at hlists
  have hsame : s.toList.length = s'.toList.length := by
    rw [String.length_toList, String.length_toList]
    omega
  exact String.toList_inj.mp (List.append_inj hlists hsame).1

theorem matched_injective {m m' : TextMatch} {s s' : String}
    (h : (RuleForm.matched m s).formula cell = (RuleForm.matched m' s').formula cell) :
    m = m' ∧ s = s' := by
  simp only [RuleForm.formula] at h
  obtain rfl := matchOpening_injective (matchOpening_starts m cell (quotedText s))
    (h ▸ matchOpening_starts m' cell (quotedText s'))
  refine ⟨rfl, quotedText_injective ?_⟩
  unfold matchFormula at h
  cases m <;> simp only [String.append_assoc, String.append_left_inj, String.append_right_inj] at h
  case startsWith | endsWith => exact eq_of_twice h
  all_goals exact h

/-- No match is written like a comparison of a length. -/
theorem length_ne_matched {m : TextMatch} {text : String} :
    (RuleForm.compared .length c value).formula cell ≠ (RuleForm.matched m text).formula cell := by
  intro h
  have hlength : "LEN".toList
      <+: ((RuleForm.compared .length c value).formula cell).toList := by
    rw [RuleForm.formula, Measure.formula, String.append_assoc, String.append_assoc,
      String.append_assoc, String.toList_append]
    exact List.prefix_append_of_prefix (by decide)
  rw [h] at hlength
  have hone := List.prefix_or_prefix_of_prefix hlength
    (matchOpening_starts m cell (quotedText text))
  revert hone
  cases m <;> decide

/-! ### Numbers and dates in formulas -/

theorem signless_number (x : Float) : Signless (Literal.number x) := by
  unfold Literal.number
  split
  · exact .of_signs (by decide)
  · split
    · split <;> exact .of_signs (by decide)
    · split
      · exact .of_all (Quiet.all_intText _)
      · exact .of_all (Quiet.all_render _ _)

theorem toList_dateText (d : Civil) :
    (dateText d).toList = ("DATE(".toList ++ (Decimal.intText d.year).toList
      ++ ',' :: Decimal.digitsOf d.month) ++ ',' :: (Decimal.digitsOf d.day ++ [')']) := by
  simp [dateText, Decimal.natText]

theorem signless_dateText (d : Civil) : Signless (dateText d) := by
  refine .of_all ?_
  rw [toList_dateText]
  simp only [List.all_append, List.all_cons, Quiet.all_intText, Quiet.all_digitsOf]
  decide

/-- A date is read back from its text. -/
theorem dateText_injective {d e : Civil} (h : dateText d = dateText e) : d = e := by
  have hdigits : ∀ n, ',' ∉ Decimal.digitsOf n := fun n hn =>
    absurd (List.all_eq_true.mp (Decimal.all_digitsOf n) ',' hn) (by decide)
  have hlast : ∀ n, ',' ∉ Decimal.digitsOf n ++ [')'] := fun n hn =>
    (List.mem_append.mp hn).elim (hdigits n) (by decide)
  have hnumber : ∀ {m n}, Decimal.digitsOf m = Decimal.digitsOf n → m = n := by
    intro m n hsame
    rw [← Decimal.natOfDigits_digitsOf m, hsame, Decimal.natOfDigits_digitsOf]
  have hlists := congrArg String.toList h
  rw [toList_dateText, toList_dateText] at hlists
  obtain ⟨hfront, hday⟩ := Naming.cut_last (hlast _) (hlast _) hlists
  obtain ⟨hyear, hmonth⟩ := Naming.cut_last (hdigits _) (hdigits _) hfront
  have hread : ∀ n, Decimal.int? (Decimal.intText n).toList = some n := Decimal.int?_intText false
  have hyears := hread d.year
  rw [List.append_cancel_left hyear, hread] at hyears
  obtain ⟨year, month, day⟩ := d
  rw [Civil.mk.injEq]
  exact ⟨(Option.some.inj hyears).symm, hnumber hmonth, hnumber (List.append_cancel_right hday)⟩

/-! ### Filters of one formula -/

namespace RuleForm

variable {t : DType} {f g : Filter} {r r' : RuleForm}

/-- Whether a column of a type can have such a rule. -/
def Fits (t : DType) : RuleForm → Prop
  | .compared .cell _ value => t ≠ .text ∧ Signless value
  | .compared .length _ value => Signless value
  | .matched _ _ => t = .text

/-- The condition that a rule on a column of a type comes from. -/
def condition (t : DType) : RuleForm → Condition
  | .compared .cell c value =>
    if t.isNumeric then .number c else if t = .bool then .truth (value == "TRUE") else .moment c
  | .compared .length c _ => if c = .exactly then .empty else .notEmpty
  | .matched m _ => .text m

theorem fits_of_appliesTo (happly : f.condition.appliesTo t = true) (h : of? f = some r) :
    r.Fits t := by
  unfold of? at h
  cases hcondition : f.condition with
  | number c =>
    rw [hcondition] at h happly
    obtain ⟨x, -, rfl⟩ := Option.map_eq_some_iff.mp h
    refine ⟨?_, signless_number x⟩
    rintro rfl
    cases happly
  | text m =>
    rw [hcondition] at h happly
    obtain rfl := Option.some.inj h
    exact beq_iff_eq.mp happly
  | truth b =>
    rw [hcondition] at h happly
    obtain rfl := Option.some.inj h
    constructor
    · rintro rfl
      cases happly
    · cases b <;> exact .of_signs (by decide)
  | empty | notEmpty =>
    rw [hcondition] at h
    obtain rfl := Option.some.inj h
    exact .of_signs (by decide)
  | moment c =>
    rw [hcondition] at h happly
    obtain ⟨m, -, rfl⟩ := Option.map_eq_some_iff.mp h
    refine ⟨?_, signless_dateText m.date⟩
    rintro rfl
    cases happly

theorem condition_eq (happly : f.condition.appliesTo t = true) (h : of? f = some r) :
    r.condition t = f.condition := by
  unfold of? at h
  cases hcondition : f.condition with
  | number c =>
    rw [hcondition] at h happly
    obtain ⟨x, -, rfl⟩ := Option.map_eq_some_iff.mp h
    exact if_pos happly
  | text m =>
    rw [hcondition] at h
    obtain rfl := Option.some.inj h
    rfl
  | truth b =>
    rw [hcondition] at h happly
    obtain rfl := Option.some.inj h
    obtain rfl : t = .bool := beq_iff_eq.mp happly
    cases b <;> decide
  | empty | notEmpty =>
    rw [hcondition] at h
    obtain rfl := Option.some.inj h
    rfl
  | moment c =>
    rw [hcondition] at h happly
    obtain ⟨m, -, rfl⟩ := Option.map_eq_some_iff.mp h
    cases t <;> first | rfl | cases happly

/-- The formula of a rule on a column of a type tells what the rule says. -/
theorem formula_injective (hr : r.Fits t) (hr' : r'.Fits t)
    (h : r.formula cell = r'.formula cell) : r = r' := by
  cases r with
  | compared m c value =>
    cases r' with
    | compared m' c' value' =>
      have hvalue : Signless value := by
        cases m
        exacts [hr.2, hr]
      have hvalue' : Signless value' := by
        cases m'
        exacts [hr'.2, hr']
      obtain ⟨rfl, rfl, rfl⟩ := compared_injective hvalue hvalue' h
      rfl
    | matched m' text =>
      cases m with
      | cell => exact absurd hr' hr.1
      | length => exact absurd h length_ne_matched
  | matched m text =>
    cases r' with
    | compared m' c' value' =>
      cases m' with
      | cell => exact absurd hr hr'.1
      | length => exact absurd h.symm length_ne_matched
    | matched m' text' =>
      obtain ⟨rfl, rfl⟩ := matched_injective h
      rfl

end RuleForm

/-! ### Tests -/

open Decimal

/-- Two numbers that are one but for the sign of zero. -/
theorem eq_or_zero {x y : Float} (h : (ofFloat x).unsigned = (ofFloat y).unsigned) :
    x = y ∨ ∃ s s', x.toModel.unpack = .zero s ∧ y.toModel.unpack = .zero s' := by
  have hzero : ∀ {z : Float} {negative : Bool}, ofFloat z = .zero negative →
      ∃ s, z.toModel.unpack = .zero s := by
    intro z negative hz
    rw [ofFloat_eq] at hz
    cases hunpack : z.toModel.unpack with
    | zero s => exact ⟨s, rfl⟩
    | notANumber | infinity s | finite s m e hm =>
      rw [hunpack] at hz
      cases hz
  cases hx : ofFloat x with
  | zero negative =>
    cases hy : ofFloat y with
    | zero negative' =>
      obtain ⟨s, hs⟩ := hzero hx
      obtain ⟨s', hs'⟩ := hzero hy
      exact .inr ⟨s, s', hs, hs'⟩
    | nan | infinite negative' | finite negative' b =>
      rw [hx, hy] at h
      cases h
  | nan | infinite negative | finite negative b =>
    refine .inl (ofFloat_inj ?_)
    cases hy : ofFloat y with
    | zero negative' =>
      rw [hx, hy] at h
      cases h
    | nan | infinite negative' | finite negative' b' =>
      rw [hx, hy] at h
      exact hx.trans h

/-- The sign of a zero does not count in a comparison. -/
theorem compareFloat_rounded {x y : Float} (h : (ofFloat x).unsigned = (ofFloat y).unsigned)
    (t : DType) (z : Float) : compareFloat z (t.rounded x) = compareFloat z (t.rounded y) := by
  obtain rfl | ⟨s, s', hx, hy⟩ := eq_or_zero h
  · rfl
  · have hrounded : ∀ {w : Float} {r}, w.toModel.unpack = .zero r → t.rounded w = w := by
      intro w r hw
      unfold DType.rounded single
      rw [hw]
      exact ite_self w
    rw [hrounded hx, hrounded hy]
    rw [compareFloat_eq_unpack, compareFloat_eq_unpack, hx, hy]
    cases z.toModel.unpack with
    | notANumber => rfl
    | infinity r | zero r | finite r m e hm => cases r <;> cases s <;> cases s' <;> rfl

theorem answer_number {x y : Float} (h : (ofFloat x).unsigned = (ofFloat y).unsigned)
    (c : Comparison) (t : DType) (cell : Cell) :
    (CellTest.number c x).answer t cell = (CellTest.number c y).answer t cell := by
  have hrounded : ∀ z w, (CellTest.number c w).answer t z
      = (z.toFloat?.map fun v => c.holds (compareFloat v (t.rounded w))).or
          (CellTest.onMissing c) := by
    intro z w
    rw [CellTest.answer]
    cases z.toFloat? <;> rfl
  rw [hrounded, hrounded]
  simp only [compareFloat_rounded h t]

/-- Two tests that keep the same rows of every column of a type. -/
def SameRows (t : DType) (p q : CellTest) : Prop :=
  ∀ column : Column, column.dtype = t → (∀ x ∈ column.cells, t.holds x = true) →
    (Predicate.test p).rows column = (Predicate.test q).rows column

/-- The moment that a test compares with. -/
def momentOf : CellTest → Option Int
  | .moment _ us => some us
  | _ => none

variable {t : DType} {f g : Filter} {p q : CellTest} {header : Header}

theorem sameRows_of_answer (h : ∀ x, p.answer t x = q.answer t x) : SameRows t p q := by
  rintro column rfl -
  unfold Predicate.rows
  exact List.filterMap_congr fun e _ => by rw [Predicate.answer, Predicate.answer, h]

/-- Of two moments there is one that compares with them differently. -/
theorem exists_holds_ne {us us' : Int} (hne : us ≠ us') (c : Comparison) :
    ∃ n, (n = us ∨ n = us') ∧ c.holds (compare n us) ≠ c.holds (compare n us') := by
  have hself : ∀ n : Int, compare n n = .eq := fun n => compare_eq_iff_eq.mpr rfl
  obtain hlt | hgt := lt_or_gt_of_ne hne
  · have hless := compare_lt_iff_lt.mpr hlt
    have hmore := compare_gt_iff_gt.mpr hlt
    cases c with
    | greater | lessOrEqual => exact ⟨us', .inr rfl, by rw [hmore, hself]; decide⟩
    | greaterOrEqual | less | exactly | notExactly =>
      exact ⟨us, .inl rfl, by rw [hless, hself]; decide⟩
  · have hless := compare_lt_iff_lt.mpr hgt
    have hmore := compare_gt_iff_gt.mpr hgt
    cases c with
    | greater | lessOrEqual => exact ⟨us, .inl rfl, by rw [hmore, hself]; decide⟩
    | greaterOrEqual | less | exactly | notExactly =>
      exact ⟨us', .inr rfl, by rw [hless, hself]; decide⟩

/-- What a test of moments keeps of a column with one of them. -/
theorem rows_moment (c : Comparison) (n us : Int) (header : Header) :
    (Predicate.test (.moment c us)).rows ⟨header, .datetime, [.int n]⟩
      = if c.holds (compare n us) = true then [0] else [] := by
  show List.filterMap _ [(Cell.int n, 0)] = _
  cases hholds : c.holds (compare n us) <;>
    simp [Predicate.answer, CellTest.answer, Cell.cast, hholds]

/-- Rows of moments tell moments apart. -/
theorem eq_of_sameRows {c : Comparison} {us us' : Int} (hus : DType.datetime.fits us = true)
    (hus' : DType.datetime.fits us' = true)
    (h : SameRows .datetime (.moment c us) (.moment c us')) : us = us' := by
  by_contra hne
  obtain ⟨n, hn, hholds⟩ := exists_holds_ne hne c
  have hcell : DType.datetime.holds (.int n) = true := by
    obtain rfl | rfl := hn
    exacts [hus, hus']
  have hrows := h ⟨"", .datetime, [.int n]⟩ rfl (List.forall_mem_singleton.mpr hcell)
  rw [rows_moment, rows_moment] at hrows
  have hsame : ∀ a b : Bool, (if a = true then [0] else [] : List Nat)
      = (if b = true then [0] else []) → a = b := by decide
  exact hholds (hsame _ _ hrows)

theorem fits_of_momentValue {m : Moment} (h : f.momentValue = .ok m) :
    DType.datetime.fits m.toMicroseconds = true := by
  have hbounds := Moment.bounds_of_parse? (Filter.momentValue_eq_ok.mp h)
  simpa [DType.fits] using hbounds

theorem exists_form (h : f.test header t = .ok p) : ∃ r, RuleForm.of? f = some r := by
  unfold RuleForm.of?
  cases (Filter.test_eq_ok.mp h).2 with
  | number hc hx =>
    rw [hc, Filter.numberValue_eq_ok.mpr hx]
    exact ⟨_, rfl⟩
  | moment hc hm =>
    rw [hc, Filter.momentValue_eq_ok.mpr hm]
    exact ⟨_, rfl⟩
  | text hc | truth hc | empty hc | notEmpty hc =>
    rw [hc]
    exact ⟨_, rfl⟩

/-- Filters of one rule have one form. -/
theorem exists_common_form (hf : f.test header t = .ok p) (hg : g.test header t = .ok q)
    (h : ruleFormula cell t f = ruleFormula cell t g) :
    ∃ r, RuleForm.of? f = some r ∧ RuleForm.of? g = some r
      ∧ ruleFormula cell t f = some (r.formula cell) := by
  obtain ⟨happly, -⟩ := Filter.test_eq_ok.mp hf
  obtain ⟨happly', -⟩ := Filter.test_eq_ok.mp hg
  obtain ⟨r, hr⟩ := exists_form hf
  obtain ⟨r', hr'⟩ := exists_form hg
  have hformula : ruleFormula cell t f = some (r.formula cell) := by
    rw [RuleForm.ruleFormula_eq, if_pos happly, hr, Option.map_some]
  have hformula' : ruleFormula cell t g = some (r'.formula cell) := by
    rw [RuleForm.ruleFormula_eq, if_pos happly', hr', Option.map_some]
  obtain rfl : r = r' := RuleForm.formula_injective (RuleForm.fits_of_appliesTo happly hr)
    (RuleForm.fits_of_appliesTo happly' hr')
    (Option.some.inj (hformula.symm.trans (h.trans hformula')))
  exact ⟨r, hr, hr', hformula⟩

/-- Of a moment the form tells the date. -/
theorem date_eq_of_form {r : RuleForm} {m n : Moment} (hr : RuleForm.of? f = some r)
    (hr' : RuleForm.of? g = some r) (hcondition : f.condition = g.condition)
    (hfamily : f.condition.family = .moment) (hm : f.momentValue = .ok m)
    (hn : g.momentValue = .ok n) : m.date = n.date := by
  unfold RuleForm.of? at hr hr'
  rw [← hcondition] at hr'
  cases hc : f.condition with
  | moment c =>
    rw [hc] at hr hr'
    rw [hm] at hr
    rw [hn] at hr'
    have hforms : RuleForm.compared .cell c (dateText m.date)
        = .compared .cell c (dateText n.date) := Option.some.inj (hr.trans hr'.symm)
    exact dateText_injective (RuleForm.compared.inj hforms).2.2
  | number c | text m | truth b | empty | notEmpty =>
    rw [hc] at hfamily
    cases hfamily

/-- Filters of one rule: they have one condition, and ask the same of every column, except that
  of a moment the rule keeps the date only. -/
theorem rule_keeps_test (hf : f.test header t = .ok p) (hg : g.test header t = .ok q)
    (h : ruleFormula cell t f = ruleFormula cell t g) :
    (ruleFormula cell t f).isSome = true ∧ f.condition = g.condition
      ∧ (∀ m n, f.condition.family = .moment → f.momentValue = .ok m → g.momentValue = .ok n →
          m.date = n.date)
      ∧ (momentOf p = momentOf q → SameRows t p q)
      ∧ (t = .datetime → SameRows t p q → momentOf p = momentOf q) := by
  obtain ⟨happly, -⟩ := Filter.test_eq_ok.mp hf
  obtain ⟨happly', -⟩ := Filter.test_eq_ok.mp hg
  obtain ⟨r, hr, hr', hformula⟩ := exists_common_form hf hg h
  have hcondition : f.condition = g.condition :=
    (RuleForm.condition_eq happly hr).symm.trans (RuleForm.condition_eq happly' hr')
  refine ⟨by rw [hformula]; rfl, hcondition, fun m n => date_eq_of_form hr hr' hcondition, ?_⟩
  rw [Filter.test, if_pos happly] at hf
  rw [Filter.test, if_pos happly', ← hcondition] at hg
  unfold RuleForm.of? at hr hr'
  rw [← hcondition] at hr'
  -- Both filters have this condition, and what is left to compare is the value in the form.
  cases hc : f.condition with
  | number c =>
    rw [hc] at hf hg hr hr'
    obtain ⟨x, hx, rfl⟩ := map_eq_ok.mp hf
    obtain ⟨y, hy, rfl⟩ := map_eq_ok.mp hg
    rw [hx] at hr
    rw [hy] at hr'
    have hforms : RuleForm.compared .cell c (Literal.number x)
        = .compared .cell c (Literal.number y) := Option.some.inj (hr.trans hr'.symm)
    have hnumber := Literal.number_injective (RuleForm.compared.inj hforms).2.2
    exact ⟨fun _ => sameRows_of_answer (answer_number hnumber c t), fun _ _ => rfl⟩
  | text m =>
    rw [hc] at hf hg hr hr'
    have hforms : RuleForm.matched m f.textValue = .matched m g.textValue :=
      Option.some.inj (hr.trans hr'.symm)
    have htext := (RuleForm.matched.inj hforms).2
    obtain rfl := Except.ok.inj hf
    obtain rfl := Except.ok.inj hg
    exact ⟨fun _ => sameRows_of_answer fun cell => by rw [htext], fun _ _ => rfl⟩
  | truth b =>
    rw [hc] at hf hg
    obtain rfl := Except.ok.inj hf
    obtain rfl := Except.ok.inj hg
    exact ⟨fun _ => sameRows_of_answer fun cell => rfl, fun _ _ => rfl⟩
  | empty | notEmpty =>
    rw [hc] at hf hg
    obtain rfl := Except.ok.inj hf
    obtain rfl := Except.ok.inj hg
    exact ⟨fun _ => sameRows_of_answer fun cell => rfl, fun _ _ => rfl⟩
  | moment c =>
    rw [hc] at hf hg
    obtain ⟨m, hm, rfl⟩ := map_eq_ok.mp hf
    obtain ⟨n, hn, rfl⟩ := map_eq_ok.mp hg
    refine ⟨fun hmoments => sameRows_of_answer fun cell => ?_, ?_⟩
    · rw [Option.some.inj hmoments]
    · rintro rfl hrows
      exact congrArg some (eq_of_sameRows (fits_of_momentValue hm) (fits_of_momentValue hn) hrows)

namespace Sample

/-- Later than ten in the morning of a day. -/
def afterTen : Filter := ⟨.moment .greater, .string "2020-01-01 10:00:00"⟩

/-- Later than noon of the same day. -/
def afterNoon : Filter := ⟨.moment .greater, .string "2020-01-01 12:00:00"⟩

/-- Eleven o'clock of that day. -/
def eleven : Column := ⟨"A", .datetime, [.int 1577876400000000]⟩

end Sample

/-- Two moments of one day have one rule, but do not keep the same rows. -/
theorem rule_keeps_test_day :
    Sample.afterTen.condition = Sample.afterNoon.condition
      ∧ ¬ SameRows .datetime (.moment .greater 1577872800000000)
          (.moment .greater 1577880000000000) := by
  have hten : Sample.afterTen.test "A" .datetime
      = .ok (.moment .greater 1577872800000000) := by decide
  have hnoon : Sample.afterNoon.test "A" .datetime
      = .ok (.moment .greater 1577880000000000) := by decide
  have hrule : ruleFormula "A2" .datetime Sample.afterTen
      = ruleFormula "A2" .datetime Sample.afterNoon := by decide
  obtain ⟨-, hcondition, -, -, hrows⟩ := rule_keeps_test hten hnoon hrule
  exact ⟨hcondition, fun h => absurd (hrows rfl h) (by decide)⟩

/-- A moment between the two is kept by one of them only. -/
theorem rule_drops_time :
    ruleFormula "A2" .datetime Sample.afterTen = some "A2>DATE(2020,1,1)"
      ∧ ruleFormula "A2" .datetime Sample.afterNoon = some "A2>DATE(2020,1,1)"
      ∧ (Sample.afterTen.test "A" .datetime).map
          (fun p => (Predicate.test p).rows Sample.eleven) = .ok [0]
      ∧ (Sample.afterNoon.test "A" .datetime).map
          (fun p => (Predicate.test p).rows Sample.eleven) = .ok [] := by
  decide

end SheetScript.Workbook
