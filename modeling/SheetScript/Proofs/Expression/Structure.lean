import SheetScript.Formula.Evaluation
import SheetScript.Proofs.Expression.Code
import SheetScript.Proofs.Outcomes

/-!
# The script keeps the structure of a formula

  Every formula that is accepted calls its functions with arguments that they
  take.  Its text in the script is then read as exactly one tree, and that is
  the formula's own operator tree exactly if no operand with a sign is the base
  of a power, or has a method called on it.  So two formulas of one text have
  one tree.  With such an operand the sign moves: `-A ^ B` squares the negative
  of `A`, its text squares `A`.

  Main statements: `Formula.code_keeps_structure` and
  `Formula.code_moves_sign`.
-/

namespace SheetScript.Formula

open Expression

/-! ### Accepted formulas -/

/-- What every reader of `n` steps returns. -/
structure ReadersCallWell (headers : List Header) (n : Nat) : Prop where
  level {l ts e rest} : level headers n l ts = .ok (e, rest) → wellCalled e = true
  chain {l left ts e rest} : wellCalled left = true →
    chain headers n l left ts = .ok (e, rest) → wellCalled e = true
  operand {l ts e rest} : operand headers n l ts = .ok (e, rest) → wellCalled e = true
  power {ts e rest} : power headers n ts = .ok (e, rest) → wellCalled e = true
  signed {ts e rest} : signed headers n ts = .ok (e, rest) → wellCalled e = true
  primary {ts e rest} : primary headers n ts = .ok (e, rest) → wellCalled e = true
  arguments {ts args rest} : arguments headers n ts = .ok (args, rest) →
    allWellCalled args = true
  someArguments {ts args rest} : someArguments headers n ts = .ok (args, rest) →
    allWellCalled args = true

theorem wellCalled_of_resolveName {headers : List Header} {name : String} {e : Formula}
    (h : resolveName headers name = .ok e) : wellCalled e = true := by
  unfold resolveName at h
  split at h
  · cases h; rfl
  · split at h
    · cases h; rfl
    · split at h <;> cases h
      rfl

/-- A call is checked where it is read. -/
theorem wellCalled_of_checkedCall {f : Function} {name : String} {args : List Formula}
    {e : Formula} (hargs : allWellCalled args = true) (h : checkedCall f name args = .ok e) :
    wellCalled e = true := by
  unfold checkedCall at h
  split at h
  · cases h
  · rename_i haccepts
    split at h
    · cases h
    · rename_i hround
      cases h
      have haccepts : f.accepts args.length = true := by simpa using haccepts
      have hdigits : (f != .round || args[1]?.all isNatural) = true := by
        by_cases hf : f = .round
        · simpa [hf] using hround
        · simp [hf]
      simp [wellCalled, haccepts, hdigits, hargs]

theorem readersCallWell (headers : List Header) (n : Nat) : ReadersCallWell headers n := by
  -- the readers call each other, so all of them are followed at once
  induction n with
  | zero => constructor <;> intros <;> rename_i h <;> cases h
  | succ n ih =>
    constructor
    case level =>
      intro l ts e rest h
      simp only [level, bind_eq_ok] at h
      obtain ⟨⟨first, ts'⟩, hfirst, hchain⟩ := h
      exact ih.chain (ih.operand hfirst) hchain
    case chain =>
      intro l left ts e rest hleft h
      unfold Formula.chain at h
      split at h
      · split at h
        · simp only [bind_eq_ok] at h
          obtain ⟨⟨right, ts'⟩, hright, hchain⟩ := h
          refine ih.chain ?_ hchain
          simp [wellCalled, hleft, ih.operand hright]
        · cases h
          exact hleft
      · cases h
        exact hleft
    case operand =>
      intro l ts e rest h
      unfold Formula.operand at h
      split at h
      · exact ih.level h
      · exact ih.power h
    case power =>
      intro ts e rest h
      simp only [Formula.power, bind_eq_ok] at h
      obtain ⟨⟨base, ts'⟩, hbase, h⟩ := h
      split at h
      · simp only [bind_eq_ok] at h
        obtain ⟨⟨exponent, ts''⟩, hexponent, h⟩ := h
        cases h
        simp [wellCalled, ih.signed hbase, ih.power hexponent]
      · cases h
        exact ih.signed hbase
    case signed =>
      intro ts e rest h
      unfold Formula.signed at h
      split at h
      · simp only [bind_eq_ok] at h
        obtain ⟨⟨operand, ts'⟩, hoperand, h⟩ := h
        cases h
        have hwell := ih.signed hoperand
        simpa only [wellCalled] using hwell
      · exact ih.signed h
      · exact ih.primary h
    case primary =>
      intro ts e rest h
      unfold Formula.primary at h
      split at h
      · cases h
      · cases h; rfl
      · cases h; rfl
      · split at h <;> cases h
        rfl
      · simp only [bind_eq_ok] at h
        obtain ⟨⟨inner, ts'⟩, hinner, ts'', _, h⟩ := h
        cases h
        exact ih.level hinner
      · split at h
        · cases h
        · simp only [bind_eq_ok] at h
          obtain ⟨⟨args, ts'⟩, hargs, ts'', _, call, hcall, h⟩ := h
          cases h
          exact wellCalled_of_checkedCall (ih.arguments hargs) hcall
      · simp only [bind_eq_ok] at h
        obtain ⟨named, hnamed, h⟩ := h
        cases h
        exact wellCalled_of_resolveName hnamed
      · cases h
    case arguments =>
      intro ts args rest h
      unfold Formula.arguments at h
      split at h
      · cases h; rfl
      · cases h; rfl
      · exact ih.someArguments h
    case someArguments =>
      intro ts args rest h
      simp only [Formula.someArguments, bind_eq_ok] at h
      obtain ⟨⟨first, ts'⟩, hfirst, h⟩ := h
      split at h
      · simp only [bind_eq_ok] at h
        obtain ⟨⟨more, ts''⟩, hmore, h⟩ := h
        cases h
        simp [allWellCalled, ih.level hfirst, ih.someArguments hmore]
      · cases h
        simp [allWellCalled, ih.level hfirst]

/-- Every accepted formula calls its functions with arguments that they take. -/
theorem wellCalled_of_parse {text : String} {headers : List Header} {e : Formula}
    (h : parse text headers = .ok e) : wellCalled e = true := by
  unfold parse at h
  simp only [] at h
  split at h
  · cases h; rfl
  · simp only [bind_eq_ok] at h
    obtain ⟨ts, _, h⟩ := h
    simp only [ofTokens, bind_eq_ok] at h
    obtain ⟨⟨e', rest⟩, hlevel, h⟩ := h
    split at h <;> cases h
    exact (readersCallWell headers _).level hlevel

/-- A formula is accepted if its tokens are those of a formula. -/
theorem parse_of_tokens {text : String} {headers : List Header} {ts : List Formula.Token}
    {e : Formula} (hblank : (body text).all Text.isBlank = false)
    (hts : tokens (body text) = .ok ts) (h : ofTokens headers ts = .ok e) :
    parse text headers = .ok e := by
  unfold parse
  simp only [hblank, Bool.false_eq_true, if_false, hts]
  exact h

/-! ### One tree -/

/-- The text of an accepted formula over a dataframe is read as exactly one tree.
  It is the formula's own exactly if no operand with a sign is the base of a
  power or has a method called on it; and formulas of one text that are so have
  one tree. -/
theorem code_keeps_structure {df text : String} {headers : List Header} {e : Formula}
    (hdf : Naming.isVariableName df = true) (h : parse text headers = .ok e) :
    (∃! t, Reads (e.code df) t) ∧ (Reads (e.code df) (e.tree df) ↔ e.signsApart = true) ∧
      ∀ {text' : String} {headers' : List Header} {e' : Formula},
        parse text' headers' = .ok e' → e.signsApart = true → e'.signsApart = true →
        e'.code df = e.code df → e'.tree df = e.tree df := by
  have hcalled := wellCalled_of_parse h
  have hreads := reads_code hdf hcalled
  have hown {e : Formula} (hcalled : e.wellCalled = true) (happart : e.signsApart = true) :
      Reads (e.code df) (e.tree df) := by
    rw [← (reading_eq_tree_iff hcalled).2 happart]
    exact reads_code hdf hcalled
  refine ⟨⟨_, hreads, fun t ht => ht.unique hreads⟩, ⟨?_, hown hcalled⟩, ?_⟩
  · intro htree
    exact (reading_eq_tree_iff hcalled).1 (hreads.unique htree)
  · intro text' headers' e' h' happart happart' hcode
    have htree' := hown (wellCalled_of_parse h') happart'
    rw [hcode] at htree'
    exact htree'.unique (hown hcalled happart)

namespace Sample

/-- A choice between a power and a text that `joined` makes of two columns. -/
def choice (joined : Formula) : Formula :=
  .call .choose [.binary .greater (.column "A") (.column "B"),
    .binary .power (.call .round [.binary .subtract (.column "A") (.column "B")])
      (.negate (.column "B")),
    .call .upper [joined]]

/-- The choice with an operator that joins the columns. -/
def operator : Formula := choice (.binary .join (.column "A") (.column "B"))

/-- The choice with a function that does. -/
def function : Formula := choice (.call .concat [.column "A", .column "B"])

/-- The texts of the two choices as tokens. -/
theorem tokens_choices :
    tokens (body "=IF(A>B,ROUND(A-B)^-B,UPPER(A&B))") = .ok
        [.name "IF", .opening, .name "A", .operator .greater, .name "B", .comma, .name "ROUND",
         .opening, .name "A", .operator .subtract, .name "B", .closing, .operator .power,
         .operator .subtract, .name "B", .comma, .name "UPPER", .opening, .name "A",
         .operator .join, .name "B", .closing, .closing]
      ∧ tokens (body "=IF(A>B,ROUND(A-B)^-B,UPPER(CONCAT(A,B)))") = .ok
        [.name "IF", .opening, .name "A", .operator .greater, .name "B", .comma, .name "ROUND",
         .opening, .name "A", .operator .subtract, .name "B", .closing, .operator .power,
         .operator .subtract, .name "B", .comma, .name "UPPER", .opening, .name "CONCAT", .opening,
         .name "A", .comma, .name "B", .closing, .closing, .closing] := by
  decide +kernel

theorem parse_operator :
    parse "=IF(A>B,ROUND(A-B)^-B,UPPER(A&B))" ["A", "B"] = .ok operator :=
  parse_of_tokens rfl tokens_choices.1 rfl

theorem parse_function :
    parse "=IF(A>B,ROUND(A-B)^-B,UPPER(CONCAT(A,B)))" ["A", "B"] = .ok function :=
  parse_of_tokens rfl tokens_choices.2 rfl

theorem code_function : function.code "df1" = operator.code "df1" := by
  have hjoined (alone : Bool) : codeAt "df1" alone (.call .upper
      [.call .concat [.column "A", .column "B"]]) =
      codeAt "df1" alone (.call .upper [.binary .join (.column "A") (.column "B")]) := by
    simp [codeAt, codesAt, areConstant, isConstant, textCodes]
  unfold function operator choice code
  conv_lhs => unfold codeAt
  conv_rhs => unfold codeAt
  simp only [codesAt, hjoined]

end Sample

/-- The theorem on a formula whose power has a sign in its exponent, and on
  another formula of the same text. -/
theorem code_keeps_structure_choice :
    Naming.isVariableName "df1" = true ∧
    parse "=IF(A>B,ROUND(A-B)^-B,UPPER(A&B))" ["A", "B"] = .ok Sample.operator ∧
    (∃! t, Reads (Sample.operator.code "df1") t) ∧
    Reads (Sample.operator.code "df1") (Sample.operator.tree "df1") ∧
    Sample.function.tree "df1" = Sample.operator.tree "df1" := by
  have hdf : Naming.isVariableName "df1" = true := rfl
  obtain ⟨hone, hown, hsame⟩ := code_keeps_structure hdf Sample.parse_operator
  exact ⟨hdf, Sample.parse_operator, hone, hown.2 rfl,
    hsame Sample.parse_function rfl rfl Sample.code_function⟩

/-! ### A sign that moves -/

namespace Sample

/-- The negative of a column, squared. -/
def squared : Formula := .binary .power (.negate (.column "A")) (.number 2)

/-- The texts of a power and of two sums as tokens. -/
theorem tokens_constants :
    tokens (body "=-A^2") = .ok [.operator .subtract, .name "A", .operator .power, .number 2]
      ∧ tokens (body "=A+SUM(TRUE,TRUE)") = .ok
        [.name "A", .operator .add, .name "SUM", .opening, .name "TRUE", .comma, .name "TRUE",
         .closing]
      ∧ tokens (body "=A+(TRUE+TRUE)") = .ok
        [.name "A", .operator .add, .opening, .name "TRUE", .operator .add, .name "TRUE",
         .closing] := by
  decide +kernel

theorem parse_squared : parse "=-A^2" ["A"] = .ok squared :=
  parse_of_tokens rfl tokens_constants.1 rfl

/-- A column and two constants, which `added` adds. -/
def increased (added : Formula) : Formula := .binary .add (.column "A") added

/-- The constants are the arguments of a sum. -/
def summed : Formula := increased (.call .sum [.bool true, .bool true])

/-- The constants are the operands of an operator. -/
def plus : Formula := increased (.binary .add (.bool true) (.bool true))

theorem parse_summed : parse "=A+SUM(TRUE,TRUE)" ["A"] = .ok summed :=
  parse_of_tokens rfl tokens_constants.2.1 rfl

theorem parse_plus : parse "=A+(TRUE+TRUE)" ["A"] = .ok plus :=
  parse_of_tokens rfl tokens_constants.2.2 rfl

theorem code_summed : summed.code "df1" = plus.code "df1" := by
  simp [summed, plus, increased, code, codeAt, codesAt, areConstant, isConstant, Operator.code,
    Operator.sign]

/-- A frame with one column of small numbers. -/
def frame : Frame := ⟨[⟨"A", .uint8, [.int 254, .int 3]⟩], 2⟩

theorem evalColumn_summed : evalColumn frame "B" summed ≠ evalColumn frame "B" plus := by
  have hsummed : evalColumn frame "B" summed = .ok ⟨"B", .int32, [.int 256, .int 5]⟩ := by
    decide
  have hplus : evalColumn frame "B" plus = .ok ⟨"B", .uint32, [.int 256, .int 5]⟩ := by
    decide
  rw [hsummed, hplus]
  nofun

end Sample

/-- The text of a formula with a sign in the base of a power is read with the
  sign before the power.  And two formulas of one text can have different
  columns: a sum of constants has a type of its own. -/
theorem code_moves_sign :
    (∃ e, parse "=-A^2" ["A"] = .ok e ∧
      e.tree "df1" = .binary .power (.negated (Expression.column "df1" "A"))
        (tree "df1" (.number 2)) ∧
      ¬ Reads (e.code "df1") (e.tree "df1") ∧
      ∃ exponent, Reads (e.code "df1")
        (.negated (.binary .power (Expression.column "df1" "A") exponent))) ∧
    ∃ e e', parse "=A+SUM(TRUE,TRUE)" ["A"] = .ok e ∧ parse "=A+(TRUE+TRUE)" ["A"] = .ok e' ∧
      e.code "df1" = e'.code "df1" ∧
      ∃ f : Frame, evalColumn f "B" e ≠ evalColumn f "B" e' := by
  have hdf : Naming.isVariableName "df1" = true := rfl
  have hreads : Reads (Sample.squared.code "df1") (reading "df1" id Sample.squared) :=
    reads_code hdf (wellCalled_of_parse Sample.parse_squared)
  constructor
  · refine ⟨_, Sample.parse_squared, rfl, ?_, reading "df1" id (.number 2), hreads⟩
    intro htree
    -- one of the two trees is a power and the other the negative of one
    have hsame := hreads.unique htree
    cases hsame
  · exact ⟨_, _, Sample.parse_summed, Sample.parse_plus, Sample.code_summed, Sample.frame,
      Sample.evalColumn_summed⟩

end SheetScript.Formula
