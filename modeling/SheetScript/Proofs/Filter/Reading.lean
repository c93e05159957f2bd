import SheetScript.Proofs.Filter.Rows
import SheetScript.Proofs.Filter.Phrase

/-! # What masks say

  The code of one filter reads as one mask: a comparison of the series with a literal, a
  call of a method of the series, or two of these combined.  The mask of a filter list
  puts brackets around what it combines, so however many signs the code of a filter has,
  the mask reads as the tree of the list.  The predicate is made from the same tree.

  A single entry stands for itself, without brackets, and an empty group for nothing, in
  the mask as in the predicate.

  Main statements: `Filter.Asks.spells` on one filter, `Mask.spells_text` on a list, and
  `FilterRows.mask_agrees` on what a session accepts.
-/

namespace SheetScript

/-- The operator that a comparison is in code. -/
def Comparison.operator : Comparison → Operator
  | .greater => .greater
  | .greaterOrEqual => .greaterOrEqual
  | .less => .less
  | .lessOrEqual => .lessOrEqual
  | .exactly => .equal
  | .notExactly => .notEqual

theorem Comparison.sign_eq (c : Comparison) : c.sign = c.operator.code := by cases c <;> rfl

theorem Comparison.operator_mem (c : Comparison) : c.operator ∈ Expression.comparisons := by
  cases c <;> decide

namespace Mask

/-! ### Conditions as masks -/

/-- A call with further arguments that are `False`. -/
def refusing (call : Expression) (names : List String) : Expression :=
  names.foldl (fun c name => .argument c (some name) (.constant "False")) call

/-- A call of a text method of a series. -/
def textMethod (series : Expression) (name value : String) (options : List String) : Expression :=
  refusing (Expression.method (.member series "str") name [.text value]) options

/-- A series compared with a literal. -/
def against (series : Expression) (o : Operator) (literal : Expression) : Tree :=
  .compared o (.plain series) (.plain literal)

/-- How a text is matched against the values of a series. -/
def ofMatch (series : Expression) (value : String) : TextMatch → Tree
  | .contains => .plain (textMethod series "contains" value ["na", "regex"])
  | .containsAnyCase => .plain (textMethod series "contains" value ["case", "na", "regex"])
  | .lacks => .complement (.plain (textMethod series "contains" value ["case", "na", "regex"]))
  | .startsWith => .plain (textMethod series "startswith" value ["na"])
  | .endsWith => .plain (textMethod series "endswith" value ["na"])
  | .exactly => against series .equal (.text value)
  | .notExactly => against series .notEqual (.text value)

/-- The method of a series that tells the missing values, or the others; among texts the
  empty one counts as missing. -/
def missing (series : Expression) (t : DType) (name : String) (operator : BoolOperator)
    (o : Operator) : Tree :=
  let called := .plain (Expression.method series name [])
  if t = .text then .combined operator called (against series o (.text "")) else called

/-- A moment that is read from a text. -/
def moment (value : String) : Expression :=
  Expression.method (.name "pd") "to_datetime" [.text value]

end Mask

/-- The masks that ask of a series what the test of a filter asks of a cell. -/
inductive Filter.Says (series : Expression) (t : DType) (f : Filter) : CellTest → Mask.Tree → Prop
  | number {c x n e} : f.condition = .number c → Filter.number? f.value = some x →
      f.numberCode = .ok n → Mask.Reads n (.plain e) →
      f.Says series t (.number c x) (Mask.against series c.operator e)
  | text {m} : f.condition = .text m →
      f.Says series t (.text m f.textValue) (Mask.ofMatch series f.textValue m)
  | truth {b} : f.condition = .truth b →
      f.Says series t (.truth b)
        (Mask.against series .equal (.constant (if b then "True" else "False")))
  | empty : f.condition = .empty →
      f.Says series t .empty (Mask.missing series t "isna" .or .equal)
  | notEmpty : f.condition = .notEmpty →
      f.Says series t .notEmpty (Mask.missing series t "notnull" .and .notEqual)
  | moment {c m} : f.condition = .moment c → Moment.parse? (Text.trim f.textValue) = some m →
      f.Says series t (.moment c m.toMicroseconds)
        (Mask.against series c.operator (Mask.moment f.textValue))

/-- The code of a filter says one thing. -/
theorem Filter.Says.unique {series : Expression} {t : DType} {f : Filter} {q q' : CellTest}
    {m m' : Mask.Tree} (h : f.Says series t q m) (h' : f.Says series t q' m') :
    q = q' ∧ m = m' := by
  cases h with
  | number hc hx hn he =>
    cases h' with
    | number hc' hx' hn' he' =>
      obtain rfl := Condition.number.inj (hc.symm.trans hc')
      obtain rfl := Option.some.inj (hx.symm.trans hx')
      obtain rfl := Except.ok.inj (hn.symm.trans hn')
      obtain rfl := Mask.Tree.plain.inj (he.unique he')
      exact ⟨rfl, rfl⟩
    | _ => simp_all
  | moment hc hm =>
    cases h' with
    | moment hc' hm' =>
      obtain rfl := Condition.moment.inj (hc.symm.trans hc')
      obtain rfl := Option.some.inj (hm.symm.trans hm')
      exact ⟨rfl, rfl⟩
    | _ => simp_all
  | text | truth | empty | notEmpty => cases h' <;> simp_all

namespace Mask

/-! ### The series -/

/-- A text of a series, to which a method can be added. -/
def Series (target : String) (series : Expression) : Prop :=
  ∃ t ts, Expression.Cuts true target (t :: ts) ∧ t ≠ .opening ∧
    Expression.Derives .primary (t :: ts) series

/-- The column of a dataframe is a series. -/
theorem Series.column {df : String} (hdf : Naming.isVariableName df = true) (header : Header) :
    Series (df ++ "[" ++ Literal.text header ++ "]") (Expression.column df header) :=
  ⟨_, _, Expression.Cuts.column hdf header, by simp, Expression.Derives.column df header⟩

/-- The tokens of further arguments that are `False`. -/
def refusedTokens (names : List String) : List Expression.Token :=
  names.flatMap fun name => [.comma, .argumentName name, .constant "False"]

theorem derives_refusing (named : Bool) (call : Expression) (names : List String) :
    Expression.Derives (.more named call) (refusedTokens names) (refusing call names) := by
  have hfalse : Expression.Derives .expression [.constant "False"] (.constant "False") :=
    (Expression.Derives.constant "False").factor_of_atom.whole
  induction names generalizing named call with
  | nil => exact .noArgument named call
  | cons name rest ih =>
    exact .nextArgument (.namedArgument hfalse (ih true _))

namespace Series

variable {target : String} {series : Expression} {signed f : Bool}

theorem operand (h : Series target series) :
    Spells true (.operand signed) target (.plain series) := by
  obtain ⟨t, ts, hcuts, ht, hderives⟩ := h
  exact .plain (Cuts.of_expression hcuts) ht (.unsigned (.base hderives))

/-- What binds to a series. -/
theorem trailers (h : Series target series) {s : String} {us : List Expression.Token}
    {e : Expression} (hs : Expression.Cuts f s us)
    (he : Expression.Derives (.trailers series) us e) :
    Spells f (.operand signed) (target ++ s) (.plain e) := by
  obtain ⟨t, ts, hcuts, ht, hderives⟩ := h
  exact .plain (Cuts.of_expression (hcuts.append hs)) ht
    (.unsigned (.base (hderives.primary_append he)))

/-- A call of a text method. -/
theorem textCall (h : Series target series) {method options : String} {names : List String}
    (hmethod : Expression.Cuts true (".str." ++ method ++ "(")
      [.dot, .name "str", .dot, .name method, .opening])
    (hoptions : Expression.Cuts true (", " ++ options ++ ")") (refusedTokens names ++ [.closing]))
    (filter : Filter) :
    Spells true (.operand signed) (Filter.textCall target method options filter)
      (.plain (textMethod series method filter.textValue names)) := by
  have hcuts := (hmethod.append (Expression.Cuts.text true filter.textValue)).append hoptions
  have hvalue : Expression.Derives .expression [.text filter.textValue]
      (.text filter.textValue) := (Expression.Derives.text _).factor_of_atom.whole
  have hcall : Expression.Derives (.trailers series)
      (.dot :: .name "str" :: .dot :: .name method ::
        .opening :: ([.text filter.textValue] ++ refusedTokens names ++ .closing :: []))
      (textMethod series method filter.textValue names) :=
    .member (.member (.callWith (.argument hvalue (derives_refusing false _ names))
      (.noTrailer _)))
  have htext : Filter.textCall target method options filter = target ++
      (".str." ++ method ++ "(" ++ Literal.text filter.textValue ++ (", " ++ options ++ ")")) := by
    simp [Filter.textCall, String.append_assoc]
  rw [htext]
  exact h.trailers hcuts (by simpa using hcall)

/-- A call of a method without arguments. -/
theorem methodCall (h : Series target series) {method : String}
    (hmethod : Expression.Cuts true ("." ++ method ++ "()")
      [.dot, .name method, .opening, .closing]) :
    Spells true (.operand signed) (target ++ ("." ++ method ++ "()"))
      (.plain (Expression.method series method [])) :=
  h.trailers hmethod (.member (.call (.noTrailer _)))

/-- A comparison with a literal. -/
theorem against (h : Series target series) {o : Operator} (ho : o ∈ Expression.comparisons)
    {s : String} {e : Expression} (hs : Spells f (.operand false) s (.plain e)) :
    Spells false .mask (target ++ (" " ++ o.code ++ " ") ++ s) (Mask.against series o e) :=
  h.operand.compared ho hs

theorem equal (h : Series target series) {s : String} {e : Expression}
    (hs : Spells f (.operand false) s (.plain e)) :
    Spells false .mask (target ++ " == " ++ s) (Mask.against series .equal e) :=
  h.against (by decide : Operator.equal ∈ Expression.comparisons) hs

theorem notEqual (h : Series target series) {s : String} {e : Expression}
    (hs : Spells f (.operand false) s (.plain e)) :
    Spells false .mask (target ++ " != " ++ s) (Mask.against series .notEqual e) :=
  h.against (by decide : Operator.notEqual ∈ Expression.comparisons) hs

/-- The code of a match of texts. -/
theorem spells_match (h : Series target series) {filter : Filter} {m : TextMatch} {t : DType}
    (hm : filter.condition = .text m) :
    ∃ code, filter.code target t = .ok code ∧
      Spells false .mask code (ofMatch series filter.textValue m) := by
  have hcontains : Expression.Cuts true (".str." ++ "contains" ++ "(")
      [.dot, .name "str", .dot, .name "contains", .opening] := Expression.Cuts.of_feed rfl
  have hcase : Expression.Cuts true (", " ++ "case=False, na=False, regex=False" ++ ")")
      (refusedTokens ["case", "na", "regex"] ++ [.closing]) := Expression.Cuts.of_feed rfl
  have hna : Expression.Cuts true (", " ++ "na=False" ++ ")")
      (refusedTokens ["na"] ++ [.closing]) := Expression.Cuts.of_feed rfl
  cases m with
  | contains =>
    have hoptions : Expression.Cuts true (", " ++ "na=False, regex=False" ++ ")")
        (refusedTokens ["na", "regex"] ++ [.closing]) := Expression.Cuts.of_feed rfl
    exact ⟨_, by rw [Filter.code, hm], (h.textCall hcontains hoptions filter).mask⟩
  | containsAnyCase => exact ⟨_, by rw [Filter.code, hm], (h.textCall hcontains hcase filter).mask⟩
  | lacks =>
    exact ⟨_, by rw [Filter.code, hm], (h.textCall hcontains hcase filter).complement.mask⟩
  | startsWith =>
    have hmethod : Expression.Cuts true (".str." ++ "startswith" ++ "(")
        [.dot, .name "str", .dot, .name "startswith", .opening] := Expression.Cuts.of_feed rfl
    exact ⟨_, by rw [Filter.code, hm], (h.textCall hmethod hna filter).mask⟩
  | endsWith =>
    have hmethod : Expression.Cuts true (".str." ++ "endswith" ++ "(")
        [.dot, .name "str", .dot, .name "endswith", .opening] := Expression.Cuts.of_feed rfl
    exact ⟨_, by rw [Filter.code, hm], (h.textCall hmethod hna filter).mask⟩
  | exactly => exact ⟨_, by rw [Filter.code, hm], h.equal (Spells.text false false _)⟩
  | notExactly => exact ⟨_, by rw [Filter.code, hm], h.notEqual (Spells.text false false _)⟩

theorem spells_missing (h : Series target series) (t : DType) (operator : BoolOperator)
    {method : String} {o : Operator} (ho : o ∈ Expression.comparisons)
    (hmethod : Expression.Cuts true ("." ++ method ++ "()")
      [.dot, .name method, .opening, .closing]) :
    Spells false .mask
      (if t = .text then combined operator
        [target ++ ("." ++ method ++ "()"), target ++ (" " ++ o.code ++ " ") ++ Literal.text ""]
      else target ++ ("." ++ method ++ "()"))
      (missing series t method operator o) := by
  have hcall := (h.methodCall hmethod).mask
  unfold missing
  by_cases ht : t = .text
  · rw [if_pos ht, if_pos ht]
    exact hcall.combined (.cons (h.against ho (Spells.text false false "")) .nil)
  · rw [if_neg ht, if_neg ht]
    exact hcall

end Series

end Mask

/-! ### The code of a filter -/

namespace Filter

variable {f : Filter} {q : CellTest} {target : String} {series : Expression}

theorem spells_empty (h : Mask.Series target series) (t : DType) :
    Mask.Spells false .mask
      (if t = .text then "(" ++ target ++ ".isna()) | (" ++ target ++ " == '')"
        else target ++ ".isna()")
      (Mask.missing series t "isna" .or .equal) := by
  have hmethod : Expression.Cuts true ("." ++ "isna" ++ "()")
      [.dot, .name "isna", .opening, .closing] := Expression.Cuts.of_feed rfl
  have htext : "(" ++ target ++ ".isna()) | (" ++ target ++ " == '')" = Mask.combined .or
      [target ++ ("." ++ "isna" ++ "()"),
        target ++ (" " ++ Operator.equal.code ++ " ") ++ Literal.text ""] := by
    apply String.toList_injective
    simp [Mask.combined, Mask.sign, String.intercalate_cons_cons, Operator.code, Literal.text]
  rw [htext]
  exact h.spells_missing t .or (by decide) hmethod

theorem spells_notEmpty (h : Mask.Series target series) (t : DType) :
    Mask.Spells false .mask
      (if t = .text then "(" ++ target ++ ".notnull()) & (" ++ target ++ " != '')"
        else target ++ ".notnull()")
      (Mask.missing series t "notnull" .and .notEqual) := by
  have hmethod : Expression.Cuts true ("." ++ "notnull" ++ "()")
      [.dot, .name "notnull", .opening, .closing] := Expression.Cuts.of_feed rfl
  have htext : "(" ++ target ++ ".notnull()) & (" ++ target ++ " != '')" = Mask.combined .and
      [target ++ ("." ++ "notnull" ++ "()"),
        target ++ (" " ++ Operator.notEqual.code ++ " ") ++ Literal.text ""] := by
    apply String.toList_injective
    simp [Mask.combined, Mask.sign, String.intercalate_cons_cons, Operator.code, Literal.text]
  rw [htext]
  exact h.spells_missing t .and (by decide) hmethod

/-- A filter that is asked has code that says what it asks. -/
theorem Asks.spells (h : f.Asks q) (hseries : Mask.Series target series) (t : DType) :
    ∃ code m, f.code target t = .ok code ∧ Mask.Spells false .mask code m ∧
      f.Says series t q m := by
  have hsigned (o : Operator) (s : String) :
      target ++ " " ++ o.code ++ " " ++ s = target ++ (" " ++ o.code ++ " ") ++ s := by
    simp [String.append_assoc]
  cases h with
  | @number c x hc hx =>
    obtain ⟨n, hn⟩ := exists_numberCode hx
    obtain ⟨e, he⟩ := Mask.Spells.number false hn
    refine ⟨target ++ " " ++ c.sign ++ " " ++ n, _, by simp [code, hc, hn], ?_,
      .number hc hx hn ((he.mask.reads_iff _).mpr rfl)⟩
    rw [c.sign_eq, hsigned]
    exact hseries.against c.operator_mem he
  | @text m hm =>
    obtain ⟨code, hcode, hspells⟩ := hseries.spells_match hm
    exact ⟨code, _, hcode, hspells, .text hm⟩
  | @truth b hb =>
    have hword : Mask.Spells false (.operand false) (if b then "True" else "False")
        (.plain (.constant (if b then "True" else "False"))) := by
      cases b <;> exact .constant (by decide)
    exact ⟨_, _, by rw [code, hb], hseries.equal hword, .truth hb⟩
  | empty he => exact ⟨_, _, by rw [code, he], spells_empty hseries t, .empty he⟩
  | notEmpty he => exact ⟨_, _, by rw [code, he], spells_notEmpty hseries t, .notEmpty he⟩
  | @moment c m hc hm =>
    -- a moment is compared with what the script reads from its text
    have hpre : Expression.Cuts true "pd.to_datetime("
        (.name "pd" :: [.dot, .name "to_datetime"] ++ [.opening]) := Expression.Cuts.of_feed rfl
    have hcall : Mask.Spells false (.operand false)
        ("pd.to_datetime(" ++ Literal.text f.textValue ++ ")") (.plain (Mask.moment f.textValue)) :=
      .call hpre fun htrailers => .member htrailers
    refine ⟨target ++ " " ++ c.sign ++ " pd.to_datetime(" ++ Literal.text f.textValue ++ ")", _,
      by simp [code, hc, momentValue_eq_ok.mpr hm], ?_, .moment hc hm⟩
    have htext : target ++ " " ++ c.sign ++ " pd.to_datetime(" ++ Literal.text f.textValue ++ ")"
        = target ++ (" " ++ c.operator.code ++ " ")
          ++ ("pd.to_datetime(" ++ Literal.text f.textValue ++ ")") := by
      rw [c.sign_eq]
      apply String.toList_injective
      simp
    rw [htext]
    exact hseries.against c.operator_mem hcall

end Filter

/-! ### The mask of a filter list -/

/-- The tree as a mask, each item being one. -/
def Combination.mask {α : Type} (tree : α → Mask.Tree) : Combination α → Mask.Tree
  | .item a => tree a
  | .combined operator left right => .combined operator (left.mask tree) (right.mask tree)

namespace Mask

variable {operator : BoolOperator} {filters : List FilterOrGroup} {code : Filter → String}
  {tree : Filter → Tree}

theorem mask_foldl {α : Type} (tree : α → Tree) (cs : List (Combination α)) (c : Combination α) :
    (cs.foldl (.combined operator) c).mask tree
      = (cs.map (·.mask tree)).foldl (.combined operator) (c.mask tree) := by
  induction cs generalizing c with
  | nil => rfl
  | cons d rest ih => exact ih (.combined operator c d)

/-- Parts that stand for the trees of a list, combined, stand for the tree that they make. -/
theorem spells_combined {parts : List String} {cs : List (Combination Filter)}
    (h : List.Forall₂ (fun part c => Spells false .mask part (c.mask tree)) parts cs)
    {c : Combination Filter} (hc : Combination.join operator cs = some c) :
    Spells false .mask (combined operator parts) (c.mask tree) := by
  cases h with
  | nil => cases hc
  | @cons part first parts rest hfirst hrest =>
    obtain rfl := Option.some.inj hc
    have hparts : List.Forall₂ (Spells false .mask) parts (rest.map (·.mask tree)) :=
      List.forall₂_map_right_iff.mpr hrest
    rw [mask_foldl]
    exact hfirst.combined hparts

/-- A single part stands for itself, without brackets. -/
theorem spells_joined {parts : List String} {cs : List (Combination Filter)}
    (h : List.Forall₂ (fun part c => Spells false .mask part (c.mask tree)) parts cs)
    {mask : String} {c : Combination Filter} (hmask : joined operator parts = some mask)
    (hc : Combination.join operator cs = some c) : Spells false .mask mask (c.mask tree) := by
  cases h with
  | nil => cases hc
  | cons hfirst hrest =>
    cases hrest with
    | nil =>
      obtain rfl := Option.some.inj hmask
      obtain rfl := Option.some.inj hc
      exact hfirst
    | cons hsecond hrest =>
      obtain rfl := Option.some.inj hmask
      exact spells_combined (.cons hfirst (.cons hsecond hrest)) hc

/-- An entry has neither part nor tree, or its part stands for its tree. -/
theorem spells_entry {entry : FilterOrGroup}
    (h : ∀ f ∈ entry.members, Spells false .mask (code f) (tree f)) :
    (entryText code entry = none ∧ Combination.ofEntry entry = none) ∨
      ∃ part c, entryText code entry = some part ∧ Combination.ofEntry entry = some c ∧
        Spells false .mask part (c.mask tree) := by
  cases entry with
  | filter f =>
    have hf : Spells false .mask (code f) (tree f) := h f (by simp [FilterOrGroup.members])
    exact .inr ⟨code f, .item f, rfl, rfl, hf⟩
  | group fs o =>
    cases fs with
    | nil => exact .inl ⟨rfl, rfl⟩
    | cons f rest =>
      have hparts : List.Forall₂ (fun part c => Spells false .mask part (Combination.mask tree c))
          ((f :: rest).map code) ((f :: rest).map .item) := by
        rw [List.forall₂_map_left_iff, List.forall₂_map_right_iff, List.forall₂_same]
        exact h
      exact .inr ⟨_, _, rfl, rfl, spells_combined hparts rfl⟩

theorem spells_entries
    (h : ∀ f ∈ filters.flatMap FilterOrGroup.members, Spells false .mask (code f) (tree f)) :
    List.Forall₂ (fun part c => Spells false .mask part (Combination.mask tree c))
      (filters.filterMap (entryText code)) (filters.filterMap Combination.ofEntry) := by
  induction filters with
  | nil => exact .nil
  | cons entry rest ih =>
    rw [List.flatMap_cons] at h
    have hrest := ih fun f hf => h f (List.mem_append_right _ hf)
    have hentry := spells_entry fun f hf => h f (List.mem_append_left _ hf)
    rcases hentry with ⟨hpart, hc⟩ | ⟨part, c, hpart, hc, hspells⟩
    · rw [List.filterMap_cons_none hpart, List.filterMap_cons_none hc]
      exact hrest
    · rw [List.filterMap_cons_some hpart, List.filterMap_cons_some hc]
      exact .cons hspells hrest

/-- The mask of a list stands for the tree of the list with each filter replaced by what
  its code stands for. -/
theorem spells_text
    (h : ∀ f ∈ filters.flatMap FilterOrGroup.members, Spells false .mask (code f) (tree f))
    {mask : String} {c : Combination Filter} (hmask : text code operator filters = some mask)
    (hc : Combination.ofFilters operator filters = some c) :
    Spells false .mask mask (c.mask tree) :=
  spells_joined (spells_entries h) hmask hc

/-- A predicate and a mask of one filter list agree: they are made from the same tree, of
  the filters of the list in their order.  The predicate has each filter replaced by what
  it asks of a cell; the mask reads as the tree with each filter replaced by what the
  code of the filter alone reads as, which asks the same of the series. -/
def Agrees (target : String) (series : Expression) (header : Header) (t : DType)
    (operator : BoolOperator) (filters : List FilterOrGroup) (q : Predicate) (mask : String) :
    Prop :=
  ∃ (c : Combination Filter) (test : Filter → CellTest) (tree : Filter → Tree),
    Combination.ofFilters operator filters = some c ∧
    c.items = filters.flatMap FilterOrGroup.members ∧
    (∀ f ∈ c.items, f.test header t = .ok (test f) ∧ f.Says series t (test f) (tree f) ∧
      ∃ code, f.code target t = .ok code ∧ ∀ m, Reads code m ↔ m = tree f) ∧
    q = c.predicate test ∧ ∀ m, Reads mask m ↔ m = c.mask tree

variable {target : String} {series : Expression} {header : Header} {t : DType}
  {p : Option Predicate}

/-- A list whose predicate is accepted has a mask, and they agree. -/
theorem exists_ofFilters (hseries : Series target series)
    (h : Predicate.ofFilters header t operator filters = .ok p) :
    ∃ mask, ofFilters target t operator filters = .ok mask ∧ (p = none ↔ mask = none) ∧
      ∀ q ∈ p, ∀ text ∈ mask, Agrees target series header t operator filters q text := by
  have hall : ∀ f ∈ filters.flatMap FilterOrGroup.members, ∃ q code m, f.test header t = .ok q ∧
      f.code target t = .ok code ∧ Spells false .mask code m ∧ f.Says series t q m := by
    intro f hf
    obtain ⟨q, hq⟩ := Predicate.test_of_ofFilters h f hf
    obtain ⟨code, m, hcode⟩ := (Filter.test_eq_ok.mp hq).2.spells hseries t
    exact ⟨q, code, m, hq, hcode⟩
  -- one test, one code and one tree for each filter of the list
  have hsome : Nonempty Tree := ⟨.plain (.name "")⟩
  choose! test code tree htest hcode hspells hmeans using hall
  have hmask : ofFilters target t operator filters = .ok (text code operator filters) :=
    ofFilters_eq_ok hcode
  have hpredicate : p = (Combination.ofFilters operator filters).map (·.predicate test) :=
    Except.ok.inj (h.symm.trans (Predicate.ofFilters_eq_ok htest))
  refine ⟨_, hmask, ?_, ?_⟩
  · rw [hpredicate, Option.map_eq_none_iff, Combination.ofFilters_eq_none, text_eq_none]
  · intro q hq mask hmask
    rw [hpredicate] at hq
    obtain ⟨c, hc, rfl⟩ := Option.map_eq_some_iff.mp hq
    have hitems := Combination.items_ofFilters hc
    refine ⟨c, test, tree, hc, hitems, ?_, rfl, (spells_text hspells hmask hc).reads_iff⟩
    intro f hf
    rw [hitems] at hf
    exact ⟨htest f hf, hmeans f hf, code f, hcode f hf, (hspells f hf).reads_iff⟩

end Mask

/-- A list whose predicate is accepted has a mask.  The predicate asks nothing exactly if
  there is nothing to write, and else the two agree.  So a session that accepts the list
  for a column emits one statement that keeps the rows of the mask, or none if nothing is
  asked; and it accepts the list if the header is no pattern. -/
theorem FilterRows.mask_agrees {df : String} {header : Header} {t : DType}
    {operator : BoolOperator} {filters : List FilterOrGroup} {p : Option Predicate}
    (hdf : Naming.isVariableName df = true)
    (h : Predicate.ofFilters header t operator filters = .ok p) :
    let target := df ++ "[" ++ Literal.text header ++ "]"
    ∃ mask, Mask.ofFilters target t operator filters = .ok mask ∧
      (p = none ↔ mask = none) ∧
      (∀ q ∈ p, ∀ text ∈ mask,
        Mask.Agrees target (Expression.column df header) header t operator filters q text) ∧
      ∀ (s : State) (index : Nat) (id : ColumnId) (sheet : Sheet) (column : Column),
        s.sheet index = .ok sheet → sheet.name = df → sheet.header id = .ok header →
        sheet.column id = .ok column → column.dtype = t →
        (isPattern header = false →
          ∃ change, FilterRows.run ⟨index, id, operator, filters⟩ s = .ok change) ∧
        ∀ change, FilterRows.run ⟨index, id, operator, filters⟩ s = .ok change →
          change.code.map ChunkBody.code
            = mask.toList.map fun text => [df ++ " = " ++ df ++ "[" ++ text ++ "]"] := by
  intro target
  obtain ⟨mask, hmask, hnone, hagrees⟩ := Mask.exists_ofFilters (.column hdf header) h
  refine ⟨mask, hmask, hnone, hagrees, ?_⟩
  rintro s index id sheet column hsheet rfl hheader hcolumn rfl
  cases p with
  | none =>
    -- nothing is asked, so the rows stay and nothing is emitted
    obtain rfl : mask = none := hnone.mp rfl
    have hrun : FilterRows.run ⟨index, id, operator, filters⟩ s = .ok (.none s) := by
      simp only [run, hsheet, hheader, hcolumn, h, bind_eq_ok, Except.ok.injEq, exists_eq_left']
      rfl
    constructor
    · exact fun _ => ⟨_, hrun⟩
    · intro change hchange
      obtain rfl := Except.ok.inj (hrun.symm.trans hchange)
      rfl
  | some q =>
    obtain ⟨text, rfl⟩ := Option.ne_none_iff_exists'.mp (mt hnone.mpr (Option.some_ne_none q))
    constructor
    · exact fun hplain => ⟨_, run_eq_ok hplain hsheet hheader hcolumn h hmask⟩
    · intro change hchange
      simp only [run, hsheet, hheader, hcolumn, h, hmask, bind_eq_ok, Except.ok.injEq,
        exists_eq_left', pure_eq_ok] at hchange
      obtain ⟨tested, -, rfl⟩ := hchange
      rfl

namespace FilterRows

theorem mask_agrees_unnamed :
    let filters := Sample.unnamed.filters
    let names := Expression.column "df1" "name"
    Naming.isVariableName "df1" = true ∧
      (∃ q, Predicate.ofFilters "name" .text .and filters = .ok (some q)) ∧
      ∃ mask, Mask.ofFilters "df1['name']" .text .and filters = .ok (some mask) ∧
        ∀ m, Mask.Reads mask m ↔ m = .combined .and (Mask.ofMatch names "B" .lacks)
          (.combined .or (Mask.ofMatch names "ann" .exactly)
            (Mask.missing names .text "isna" .or .equal)) := by
  intro filters names
  have hdf : Naming.isVariableName "df1" = true := by decide
  have hpredicate : Predicate.ofFilters "name" .text .and filters = .ok (some
      (.combined .and (.test (.text .lacks "B"))
        (.combined .or (.test (.text .exactly "ann")) (.test .empty)))) := rfl
  obtain ⟨mask, hmask, hnone, hagrees, -⟩ := mask_agrees hdf hpredicate
  obtain ⟨text, rfl⟩ := Option.ne_none_iff_exists'.mp (mt hnone.mpr (Option.some_ne_none _))
  obtain ⟨c, test, tree, hc, hitems, hmeans, -, hreads⟩ := hagrees _ rfl _ rfl
  obtain rfl := Option.some.inj hc
  let lacks : Filter := ⟨.text .lacks, .string "B"⟩
  let exactly : Filter := ⟨.text .exactly, .string "ann"⟩
  let empty : Filter := ⟨.empty, .null⟩
  have hall : ∀ f ∈ [lacks, exactly, empty], f.Says names .text (test f) (tree f) :=
    fun f hf => (hmeans f hf).2.1
  have hlacks : tree lacks = Mask.ofMatch names "B" .lacks :=
    ((hall lacks (by simp)).unique (.text rfl)).2
  have hexactly : tree exactly = Mask.ofMatch names "ann" .exactly :=
    ((hall exactly (by simp)).unique (.text rfl)).2
  have hempty : tree empty = Mask.missing names .text "isna" .or .equal :=
    ((hall empty (by simp)).unique (.empty rfl)).2
  refine ⟨hdf, ⟨_, hpredicate⟩, text, hmask, ?_⟩
  rw [← hlacks, ← hexactly, ← hempty]
  exact hreads

end FilterRows

end SheetScript
