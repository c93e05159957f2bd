import SheetScript.Formula.Parser
import SheetScript.Proofs.Expression.Phrase

/-!
# The trees of formulas

  A formula has an operator tree of its own: every operand of its operators and
  every argument of its functions is the tree of the part that stands there
  (`Formula.tree`).  Its text in the script is also read as a tree
  (`Formula.reading`), in which a sign comes after what stands behind its
  operand: a method that is called on it, or an exponent.

  Main statement: the two are equal exactly if no such operand has a sign
  (`Formula.reading_eq_tree_iff`).
-/

namespace SheetScript.Formula

open Expression

/-! ### Formulas as parsing leaves them -/

/-- Formulas by what they are made of; the arguments of a call are a list. -/
@[elab_as_elim]
theorem induction {P : Formula → Prop} (number : ∀ x, P (.number x)) (text : ∀ s, P (.text s))
    (bool : ∀ b, P (.bool b)) (column : ∀ h, P (.column h)) (negate : ∀ e, P e → P (.negate e))
    (binary : ∀ o l r, P l → P r → P (.binary o l r))
    (call : ∀ f args, (∀ a ∈ args, P a) → P (.call f args)) (e : Formula) : P e := by
  apply Formula.rec (motive_1 := P) (motive_2 := fun args => ∀ a ∈ args, P a)
  · exact number
  · exact text
  · exact bool
  · exact column
  · exact negate
  · exact binary
  · exact call
  · exact nofun
  · intro a rest ha hrest b hb
    rcases List.mem_cons.1 hb with rfl | hb
    · exact ha
    · exact hrest b hb

mutual

/-- Whether every function is called with arguments that it takes. -/
def wellCalled : Formula → Bool
  | .negate e => wellCalled e
  | .binary _ l r => wellCalled l && wellCalled r
  | .call f args =>
    f.accepts args.length && (f != .round || args[1]?.all isNatural) && allWellCalled args
  | _ => true

/-- Whether every function in the formulas is called with arguments that it takes. -/
def allWellCalled : List Formula → Bool
  | [] => true
  | e :: rest => wellCalled e && allWellCalled rest

end

theorem allWellCalled_iff {args : List Formula} :
    allWellCalled args = true ↔ ∀ a ∈ args, wellCalled a = true := by
  induction args with
  | nil => simp [allWellCalled]
  | cons e rest ih => simp [allWellCalled, ih]

/-! ### The constructs of the script -/

/-- Whether the literal of a number starts with a sign. -/
def isNegativeLiteral (x : Float) : Bool := (Literal.number x).toList.head? == some '-'

/-- The literal of a number without its sign. -/
def magnitude (x : Float) : Expression :=
  if x.isNaN then invoke (.name "float") [.text "nan"]
  else if x.isInf then invoke (.name "float") [.text (if 0 < x then "inf" else "-inf")]
  else .number (String.ofList ((Literal.number x).toList.dropWhile (· == '-')))

/-- A function of one argument, as a function if that is constant and as a method
  of it otherwise. -/
def applied (f : Function) (digits : Nat) (constant : Bool) (e : Expression) : Expression :=
  match f, constant with
  | .abs, true => invoke (.name "abs") [e]
  | .abs, false => method e "abs" []
  | .round, true =>
    invoke (.name "round") [invoke (.name "float") [e], .number (Decimal.natText digits)]
  | .round, false =>
    method (method e "astype" [.name "float"]) "round" [.number (Decimal.natText digits)]
  | .upper, true => method (invoke (.name "str") [e]) "upper" []
  | .upper, false => method (.member (method e "astype" [.name "str"]) "str") "upper" []
  | .lower, true => method (invoke (.name "str") [e]) "lower" []
  | .lower, false => method (.member (method e "astype" [.name "str"]) "str") "lower" []
  | .length, true => invoke (.name "len") [invoke (.name "str") [e]]
  | .length, false => method (.member (method e "astype" [.name "str"]) "str") "len" []
  | _, _ => e

/-- A summand: missing cells of a column count as zero. -/
def filled (e : Formula) (t : Expression) : Expression :=
  if isConstant e then t else method t "fillna" [.number "0"]

/-- The text of a formula with the tree `t`. -/
def asText : Formula → Expression → Expression
  | .text s, _ => .text s
  | .number x, _ => .text (Literal.number x)
  | e, t => if isConstant e then invoke (.name "str") [t] else method t "astype" [.name "str"]

/-- A choice between two branches. -/
def chosen (df : String) (args : List Formula) (trees : List Expression) : Expression :=
  match args, trees with
  | [condition, _, _], [c, a, b] =>
    if isConstant condition then .conditional a c b else kept df a c b
  | _, _ => .constant "None"

/-! ### The tree of a formula -/

mutual

/-- The operator tree of a formula over the dataframe `df`. -/
def tree (df : String) : Formula → Expression
  | .number x => if isNegativeLiteral x then .negated (magnitude x) else magnitude x
  | .text s => .text s
  | .bool true => .constant "True"
  | .bool false => .constant "False"
  | .column h => Expression.column df h
  | .negate e => .negated (tree df e)
  | .binary .join l r => .binary .add (asText l (tree df l)) (asText r (tree df r))
  | .binary o l r => .binary o (tree df l) (tree df r)
  | .call .sum args => total (trees df filled args)
  | .call .concat args => total (trees df asText args)
  | .call .choose args => chosen df args (trees df (fun _ t => t) args)
  | .call f args =>
    applied f (roundDigits args) (areConstant args)
      ((trees df (fun _ t => t) args).headD (.constant "None"))

/-- The trees of several formulas, each put to a use. -/
def trees (df : String) (use : Formula → Expression → Expression) : List Formula → List Expression
  | [] => []
  | e :: rest => use e (tree df e) :: trees df use rest

end

/-! ### What the text of a formula is read as -/

/-- An operand that is read as `r w` where `w` is made of what follows its signs:
  a use that writes it in brackets is made of the whole operand, a method only of
  what follows the signs. -/
def used (constant : Bool) (use : Expression → Expression)
    (r : (Expression → Expression) → Expression) : Expression :=
  if constant then use (r id) else r use

theorem used_self (constant : Bool) (r : (Expression → Expression) → Expression) :
    used constant (fun t => t) r = r id := by
  cases constant <;> rfl

mutual

/-- What the text of a formula is read as if `w` is made of what follows its
  signs. -/
def reading (df : String) (w : Expression → Expression) : Formula → Expression
  | .number x => if isNegativeLiteral x then .negated (w (magnitude x)) else w (magnitude x)
  | .text s => w (.text s)
  | .bool true => w (.constant "True")
  | .bool false => w (.constant "False")
  | .column h => w (Expression.column df h)
  | .negate e => .negated (reading df w e)
  | .binary .join l r =>
    w (.binary .add (used (isConstant l) (asText l) fun v => reading df v l)
      (used (isConstant r) (asText r) fun v => reading df v r))
  | .binary .power l r => w (reading df (fun b => .binary .power b (reading df id r)) l)
  | .binary o l r => w (.binary o (reading df id l) (reading df id r))
  | .call .sum args => w (total (readings df filled args))
  | .call .concat args => w (total (readings df asText args))
  | .call .choose args => w (chosen df args (readings df (fun _ t => t) args))
  | .call f args =>
    if areConstant args then w (applied f (roundDigits args) true (headReading df id args))
    else headReading df (fun b => w (applied f (roundDigits args) false b)) args

/-- What several formulas are read as, each put to a use. -/
def readings (df : String) (use : Formula → Expression → Expression) :
    List Formula → List Expression
  | [] => []
  | e :: rest => used (isConstant e) (use e) (fun v => reading df v e) :: readings df use rest

/-- What the first of several formulas is read as. -/
def headReading (df : String) (w : Expression → Expression) : List Formula → Expression
  | [] => w (.constant "None")
  | e :: _ => reading df w e

end

theorem trees_eq_map (df : String) (use : Formula → Expression → Expression)
    (args : List Formula) : trees df use args = args.map fun e => use e (tree df e) := by
  induction args with
  | nil => rfl
  | cons e rest ih => rw [trees, ih, List.map_cons]

theorem readings_eq_map (df : String) (use : Formula → Expression → Expression)
    (args : List Formula) : readings df use args =
      args.map fun e => used (isConstant e) (use e) fun v => reading df v e := by
  induction args with
  | nil => rfl
  | cons e rest ih => rw [readings, ih, List.map_cons]

/-- The functions that are methods of an argument with columns. -/
def isMethod : Function → Bool
  | .sum | .concat | .choose => false
  | _ => true

/-- Every function takes an argument. -/
theorem pos_of_accepts {f : Function} {n : Nat} (h : f.accepts n = true) : 0 < n := by
  have hleast : 1 ≤ f.arity.1 := by cases f <;> decide
  simp only [Function.accepts, Bool.and_eq_true, decide_eq_true_eq] at h
  omega

/-- A method has one argument that can have columns, the first. -/
theorem method_arguments {f : Function} {args : List Formula} (hf : isMethod f = true)
    (h : wellCalled (.call f args) = true) :
    ∃ a rest, args = a :: rest ∧ ∀ d ∈ rest, ∃ x, d = .number x := by
  simp only [wellCalled, Bool.and_eq_true] at h
  obtain ⟨⟨haccepts, hround⟩, _⟩ := h
  cases args with
  | nil => exact absurd (pos_of_accepts haccepts) (Nat.lt_irrefl 0)
  | cons a rest =>
    refine ⟨a, rest, rfl, ?_⟩
    cases f with
    | sum | concat | choose => cases hf
    | abs | upper | lower | length =>
      have hlength : rest = [] := by simpa [Function.accepts, Function.arity] using haccepts
      simp [hlength]
    | round =>
      have hlength : rest.length ≤ 1 := by simpa [Function.accepts, Function.arity] using haccepts
      match rest, hlength with
      | [], _ => exact nofun
      | [d], _ =>
        have hnatural : isNatural d = true := by simpa using hround
        cases d with
        | number x => simp
        | _ => cases hnatural

/-- A method is constant if its first argument is. -/
theorem areConstant_method {a : Formula} {rest : List Formula}
    (h : ∀ d ∈ rest, ∃ x, d = .number x) : areConstant (a :: rest) = isConstant a := by
  have hrest : areConstant rest = true := by
    induction rest with
    | nil => rfl
    | cons d rest ih =>
      obtain ⟨x, rfl⟩ := h d List.mem_cons_self
      simpa [areConstant, isConstant] using ih fun e he => h e (List.mem_cons_of_mem _ he)
  rw [areConstant, hrest, Bool.and_true]

/-! ### Where the two trees agree -/

/-- Whether a formula starts with a sign. -/
def isSigned : Formula → Bool
  | .number x => isNegativeLiteral x
  | .negate _ => true
  | _ => false

/-- Whether the method that a use calls on a formula is called on all of it. -/
def receives (e : Formula) : Bool := isConstant e || !isSigned e

mutual

/-- Whether no operand with a sign is the base of a power, or has a method called
  on it. -/
def signsApart : Formula → Bool
  | .negate e => signsApart e
  | .binary .power l r => !isSigned l && signsApart l && signsApart r
  | .binary .join l r => receives l && signsApart l && (receives r && signsApart r)
  | .binary _ l r => signsApart l && signsApart r
  | .call .choose args => allSignsApart args
  | .call _ args => args.all receives && allSignsApart args
  | _ => true

/-- The same for several formulas. -/
def allSignsApart : List Formula → Bool
  | [] => true
  | e :: rest => signsApart e && allSignsApart rest

end

theorem allSignsApart_iff {args : List Formula} :
    allSignsApart args = true ↔ ∀ a ∈ args, signsApart a = true := by
  induction args with
  | nil => simp [allSignsApart]
  | cons e rest ih => simp [allSignsApart, ih]

section Agreement

variable {df : String} {e : Formula}

/-- A sign stays outside of what is made of the operand. -/
theorem reading_of_isSigned (h : isSigned e = true) :
    ∃ r : (Expression → Expression) → Expression, ∀ w, reading df w e = .negated (r w) := by
  cases e with
  | number x =>
    refine ⟨fun w => w (magnitude x), ?_⟩
    intro w
    have hx : isNegativeLiteral x = true := h
    rw [reading, if_pos hx]
  | negate e => exact ⟨fun w => reading df w e, fun w => by rw [reading]⟩
  | text | bool | column | binary | call => cases h

theorem reading_call_method {f : Function} {args : List Formula} (hf : isMethod f = true)
    (w : Expression → Expression) :
    reading df w (.call f args) =
      if areConstant args then w (applied f (roundDigits args) true (headReading df id args))
      else headReading df (fun b => w (applied f (roundDigits args) false b)) args := by
  cases f with
  | sum | concat | choose => cases hf
  | abs | round | upper | lower | length => rw [reading] <;> nofun

theorem tree_call_method {f : Function} {args : List Formula} (hf : isMethod f = true) :
    tree df (.call f args) = applied f (roundDigits args) (areConstant args)
      ((trees df (fun _ t => t) args).headD (.constant "None")) := by
  cases f with
  | sum | concat | choose => cases hf
  | abs | round | upper | lower | length => rw [tree] <;> nofun

/-- What follows a formula is either made of all that its text is read as, or
  its signs come after. -/
theorem reading_cases (df : String) (e : Formula) :
    (∀ w, reading df w e = w (reading df id e)) ∨
      ∃ r : (Expression → Expression) → Expression, ∀ w, reading df w e = .negated (r w) := by
  induction e using Formula.induction with
  | number x =>
    cases hx : isNegativeLiteral x with
    | true => exact .inr (reading_of_isSigned hx)
    | false => exact .inl fun w => by simp [reading, hx]
  | text s => exact .inl fun w => by simp [reading]
  | bool b => exact .inl fun w => by cases b <;> simp [reading]
  | column h => exact .inl fun w => by simp [reading]
  | negate e _ => exact .inr (reading_of_isSigned rfl)
  | binary o l r _ _ => exact .inl fun w => by cases o <;> simp [reading]
  | call f args ih =>
    by_cases hf : isMethod f = true
    · by_cases hconstant : areConstant args = true
      · exact .inl fun w => by simp [reading_call_method hf, hconstant]
      · cases args with
        | nil => exact absurd rfl hconstant
        | cons a rest =>
          have hmethod (w : Expression → Expression) : reading df w (.call f (a :: rest)) =
              reading df (fun b => w (applied f (roundDigits (a :: rest)) false b)) a := by
            rw [reading_call_method hf, if_neg hconstant, headReading]
          rcases ih a List.mem_cons_self with houter | ⟨r, hsign⟩
          · refine .inl fun w => ?_
            have hw := houter fun b => w (applied f (roundDigits (a :: rest)) false b)
            have hid := houter fun b => id (applied f (roundDigits (a :: rest)) false b)
            rw [hmethod, hmethod, hw, hid, id]
          · exact .inr ⟨_, fun w => by rw [hmethod, hsign]⟩
    · refine .inl fun w => ?_
      cases f with
      | sum | concat | choose => simp [reading]
      | abs | round | upper | lower | length => exact absurd rfl hf

theorem wellCalled_of_mem {f : Function} {args : List Formula} {a : Formula}
    (h : wellCalled (.call f args) = true) (ha : a ∈ args) : wellCalled a = true := by
  simp only [wellCalled, Bool.and_eq_true] at h
  exact allWellCalled_iff.1 h.2 a ha

theorem signsApart_of_mem {f : Function} {args : List Formula} {a : Formula}
    (h : signsApart (.call f args) = true) (ha : a ∈ args) : signsApart a = true := by
  have hall : allSignsApart args = true := by
    cases f <;> simp only [signsApart, Bool.and_eq_true] at h <;> first | exact h | exact h.2
  exact allSignsApart_iff.1 hall a ha

theorem receives_of_mem {f : Function} {args : List Formula} {a : Formula}
    (h : signsApart (.call f args) = true) (hf : f ≠ .choose) (ha : a ∈ args) :
    receives a = true := by
  have hall : args.all receives = true := by
    cases f <;> simp only [signsApart, Bool.and_eq_true] at h <;>
      first | exact h.1 | exact absurd rfl hf
  exact List.all_eq_true.1 hall a ha

/-- If signs stand apart, all that is read without a sign is one operand. -/
theorem reading_of_signsApart (hcalled : wellCalled e = true) (h : signsApart e = true)
    (hs : isSigned e = false) (w : Expression → Expression) :
    reading df w e = w (reading df id e) := by
  induction e using Formula.induction generalizing w with
  | number x =>
    have hx : isNegativeLiteral x = false := hs
    simp [reading, hx]
  | negate e _ => cases hs
  | text s => simp [reading]
  | bool b => cases b <;> simp [reading]
  | column h => simp [reading]
  | binary o l r _ _ => cases o <;> simp [reading]
  | call f args ih =>
    by_cases hf : isMethod f = true
    · obtain ⟨a, rest, rfl, hrest⟩ := method_arguments hf hcalled
      rw [reading_call_method hf, reading_call_method hf]
      by_cases hconstant : areConstant (a :: rest) = true
      · rw [if_pos hconstant, if_pos hconstant, id]
      · rw [if_neg hconstant, if_neg hconstant, headReading, headReading]
        have hne : f ≠ .choose := by rintro rfl; cases hf
        have hreceives := receives_of_mem h hne List.mem_cons_self
        rw [areConstant_method hrest] at hconstant
        have hsigned : isSigned a = false := by
          simpa [receives, hconstant] using hreceives
        have ha := ih a List.mem_cons_self (wellCalled_of_mem hcalled List.mem_cons_self)
          (signsApart_of_mem h List.mem_cons_self) hsigned
        have hw := ha fun b => w (applied f (roundDigits (a :: rest)) false b)
        have hid := ha fun b => id (applied f (roundDigits (a :: rest)) false b)
        rw [hw, hid, id]
    · cases f with
      | sum | concat | choose => simp [reading]
      | abs | round | upper | lower | length => exact absurd rfl hf

/-! #### Uses keep what they are made of -/

theorem applied_injective {f : Function} (hf : isMethod f = true) {digits : Nat} {constant : Bool}
    {t t' : Expression} (h : applied f digits constant t = applied f digits constant t') :
    t = t' := by
  cases f with
  | sum | concat | choose => cases hf
  | abs | round | upper | lower | length =>
    cases constant <;> simpa [applied, method, invoke] using h

theorem applied_ne_negated {f : Function} (hf : isMethod f = true) {digits : Nat}
    {constant : Bool} {t t' : Expression} : applied f digits constant t ≠ .negated t' := by
  cases f with
  | sum | concat | choose => cases hf
  | abs | round | upper | lower | length => cases constant <;> simp [applied, method, invoke]

theorem foldl_add_injective {es es' : List Expression} {a a' : Expression}
    (hlength : es.length = es'.length)
    (h : es.foldl (Expression.binary .add) a = es'.foldl (Expression.binary .add) a') :
    a = a' ∧ es = es' := by
  induction es generalizing es' a a' with
  | nil =>
    obtain rfl : es' = [] := List.length_eq_zero_iff.1 hlength.symm
    exact ⟨h, rfl⟩
  | cons e rest ih =>
    cases es' with
    | nil => cases hlength
    | cons e' rest' =>
      have hrest : rest.length = rest'.length := by simpa using hlength
      obtain ⟨hhead, htail⟩ := ih hrest h
      cases hhead
      exact ⟨rfl, by rw [htail]⟩

theorem total_injective {es es' : List Expression} (hlength : es.length = es'.length)
    (h : total es = total es') : es = es' := by
  cases es with
  | nil => exact (List.length_eq_zero_iff.1 hlength.symm).symm
  | cons e rest =>
    cases es' with
    | nil => cases hlength
    | cons e' rest' =>
      have hrest : rest.length = rest'.length := by simpa using hlength
      obtain ⟨rfl, rfl⟩ := foldl_add_injective hrest h
      rfl

theorem kept_injective {a c b a' c' b' : Expression} (h : kept df a c b = kept df a' c' b') :
    (a = a' ∧ c = c') ∧ b = b' := by
  simpa [kept, method, invoke] using h

/-- A use of formulas that hides nothing of their trees, but for those that are
  read as their trees anyway, and that never has a sign of its own. -/
structure Faithful (use : Formula → Expression → Expression) : Prop where
  injective : ∀ {e : Formula} {t t' : Expression}, use e t = use e t' →
    t = t' ∨ signsApart e = true
  ne_negated : ∀ {e : Formula} {t t' : Expression}, isConstant e = false →
    use e t ≠ .negated t'

theorem faithful_asText : Faithful asText where
  injective := by
    intro e t t' h
    cases e with
    | number | text => exact .inr rfl
    | bool b | column b | negate b | binary o l r | call f args =>
      simp only [asText] at h
      split at h <;> exact .inl (by simpa [method, invoke] using h)
  ne_negated := by
    intro e t t' hconstant h
    cases e with
    | number | text | bool => cases hconstant
    | column b | negate b | binary o l r | call f args =>
      simp [asText, hconstant, method, invoke] at h

theorem faithful_filled : Faithful filled where
  injective := by
    intro e t t' h
    unfold filled at h
    split at h <;> exact .inl (by simpa [method, invoke] using h)
  ne_negated := by
    intro e t t' hconstant h
    simp [filled, hconstant, method, invoke] at h

/-- What is read without a sign is made of one operand without a sign. -/
theorem reading_ne_negated {w : Expression → Expression} {t : Expression}
    (h : reading df w e = t) (ht : ∀ t', t ≠ .negated t') :
    isSigned e = false ∧ ∀ w', reading df w' e = w' (reading df id e) := by
  constructor
  · cases hs : isSigned e with
    | false => rfl
    | true =>
      obtain ⟨r, hr⟩ := reading_of_isSigned hs
      exact absurd (h.symm.trans (hr w)) (ht _)
  · rcases reading_cases df e with houter | ⟨r, hr⟩
    · exact houter
    · exact absurd (h.symm.trans (hr w)) (ht _)

theorem used_eq_iff {use : Formula → Expression → Expression} (huse : Faithful use)
    (hcalled : wellCalled e = true) (ih : reading df id e = tree df e ↔ signsApart e = true) :
    used (isConstant e) (use e) (fun v => reading df v e) = use e (tree df e) ↔
      receives e = true ∧ signsApart e = true := by
  cases hconstant : isConstant e with
  | true =>
    have hreceives : receives e = true := by simp [receives, hconstant]
    simp only [used, if_true, hreceives, true_and]
    constructor
    · intro h
      rcases huse.injective h with h | h
      · exact ih.1 h
      · exact h
    · intro h
      rw [ih.2 h]
  | false =>
    have hreceives : receives e = !isSigned e := by simp [receives, hconstant]
    simp only [used, Bool.false_eq_true, if_false, hreceives, Bool.not_eq_true']
    constructor
    · intro h
      obtain ⟨hsigned, houter⟩ := reading_ne_negated h fun t => huse.ne_negated hconstant
      rw [houter (use e)] at h
      refine ⟨hsigned, ?_⟩
      rcases huse.injective h with h | h
      · exact ih.1 h
      · exact h
    · rintro ⟨hsigned, h⟩
      rw [reading_of_signsApart hcalled h hsigned, ih.2 h]

theorem total_readings_iff {use : Formula → Expression → Expression} (huse : Faithful use)
    {args : List Formula} (hcalled : ∀ a ∈ args, wellCalled a = true)
    (ih : ∀ a ∈ args, reading df id a = tree df a ↔ signsApart a = true) :
    total (readings df use args) = total (trees df use args) ↔
      args.all receives = true ∧ allSignsApart args = true := by
  have hlength : (readings df use args).length = (trees df use args).length := by
    rw [readings_eq_map, trees_eq_map, List.length_map, List.length_map]
  have hsame : total (readings df use args) = total (trees df use args) ↔
      readings df use args = trees df use args := ⟨total_injective hlength, fun h => by rw [h]⟩
  rw [hsame, readings_eq_map, trees_eq_map, List.map_inj_left, allSignsApart_iff, List.all_eq_true,
    ← forall₂_and]
  refine forall₂_congr fun a ha => used_eq_iff huse (hcalled a ha) (ih a ha)

theorem choose_arguments {args : List Formula} (h : wellCalled (.call .choose args) = true) :
    ∃ c a b, args = [c, a, b] := by
  have hlength : args.length = 3 := by
    simp only [wellCalled, Bool.and_eq_true] at h
    have haccepts : Function.choose.accepts args.length = true := h.1.1
    rw [Function.accepts, Bool.and_eq_true] at haccepts
    have hleast : 3 ≤ args.length := of_decide_eq_true haccepts.1
    have hgreatest : args.length ≤ 3 := of_decide_eq_true haccepts.2
    omega
  exact List.length_eq_three.1 hlength

theorem signsApart_method {f : Function} {a : Formula} {rest : List Formula}
    (hf : isMethod f = true) (hrest : ∀ d ∈ rest, ∃ x, d = .number x) :
    signsApart (.call f (a :: rest)) = (receives a && signsApart a) := by
  have hreceives : rest.all receives = true := by
    rw [List.all_eq_true]
    intro d hd
    obtain ⟨x, rfl⟩ := hrest d hd
    rfl
  have hapart : allSignsApart rest = true := by
    rw [allSignsApart_iff]
    intro d hd
    obtain ⟨x, rfl⟩ := hrest d hd
    rfl
  cases f with
  | sum | concat | choose => cases hf
  | abs | round | upper | lower | length =>
    simp [signsApart, allSignsApart, hreceives, hapart]

theorem reading_method_iff {f : Function} {args : List Formula} (hf : isMethod f = true)
    (hcalled : wellCalled (.call f args) = true)
    (ih : ∀ a ∈ args, reading df id a = tree df a ↔ signsApart a = true) :
    reading df id (.call f args) = tree df (.call f args) ↔ signsApart (.call f args) = true := by
  obtain ⟨a, rest, rfl, hrest⟩ := method_arguments hf hcalled
  have ha := ih a List.mem_cons_self
  rw [signsApart_method hf hrest, reading_call_method hf, tree_call_method hf,
    areConstant_method hrest, headReading, headReading, trees, List.headD_cons]
  cases hconstant : isConstant a with
  | true =>
    have hreceives : receives a = true := by simp [receives, hconstant]
    simp only [if_true, id, hreceives, Bool.true_and]
    rw [← ha]
    exact ⟨applied_injective hf, fun h => by rw [h]⟩
  | false =>
    have hreceives : receives a = !isSigned a := by simp [receives, hconstant]
    simp only [Bool.false_eq_true, if_false, id, hreceives, Bool.and_eq_true, Bool.not_eq_true']
    constructor
    · intro h
      obtain ⟨hsigned, houter⟩ := reading_ne_negated h fun t => applied_ne_negated hf
      rw [houter] at h
      exact ⟨hsigned, ha.1 (applied_injective hf h)⟩
    · rintro ⟨hsigned, h⟩
      rw [reading_of_signsApart (wellCalled_of_mem hcalled List.mem_cons_self) h hsigned, ha.2 h]

/-- The text of a formula is read as the formula's own tree exactly if signs
  stand apart. -/
theorem reading_eq_tree_iff (hcalled : wellCalled e = true) :
    reading df id e = tree df e ↔ signsApart e = true := by
  induction e using Formula.induction with
  | number x => simp [reading, tree, signsApart]
  | text s => simp [reading, tree, signsApart]
  | bool b => cases b <;> simp [reading, tree, signsApart]
  | column h => simp [reading, tree, signsApart]
  | negate e ih =>
    simp only [reading, tree, signsApart, Expression.negated.injEq]
    exact ih hcalled
  | binary o l r ihl ihr =>
    simp only [wellCalled, Bool.and_eq_true] at hcalled
    have hl := ihl hcalled.1
    have hr := ihr hcalled.2
    cases o with
    | join =>
      have hjoin := (used_eq_iff faithful_asText hcalled.1 hl).and
        (used_eq_iff faithful_asText hcalled.2 hr)
      simpa [reading, tree, signsApart] using hjoin
    | power =>
      simp only [reading, tree, signsApart, Bool.and_eq_true, Bool.not_eq_true', id]
      constructor
      · intro h
        -- a sign before the base is read as one before the power
        obtain ⟨hsigned, houter⟩ := reading_ne_negated h nofun
        rw [houter, Expression.binary.injEq] at h
        exact ⟨⟨hsigned, hl.1 h.2.1⟩, hr.1 h.2.2⟩
      · rintro ⟨⟨hsigned, happart⟩, happart'⟩
        rw [reading_of_signsApart hcalled.1 happart hsigned, hl.2 happart, hr.2 happart']
    | _ =>
      have hboth := hl.and hr
      simpa [reading, tree, signsApart] using hboth
  | call f args ih =>
    have hargs (a : Formula) (ha : a ∈ args) : wellCalled a = true := wellCalled_of_mem hcalled ha
    have iha (a : Formula) (ha : a ∈ args) := ih a ha (hargs a ha)
    cases f with
    | sum =>
      simpa [reading, tree, signsApart] using total_readings_iff faithful_filled hargs iha
    | concat =>
      simpa [reading, tree, signsApart] using total_readings_iff faithful_asText hargs iha
    | choose =>
      obtain ⟨c, a, b, rfl⟩ := choose_arguments hcalled
      have hthree := ((iha c (by simp)).and (iha a (by simp))).and (iha b (by simp))
      rw [reading, tree, readings_eq_map, trees_eq_map, signsApart, id]
      simp only [List.map_cons, List.map_nil, chosen, allSignsApart, used_self, Bool.and_true]
      cases isConstant c with
      | true => simpa [and_comm, and_assoc, and_left_comm] using hthree
      | false =>
        have hkept {x y z x' y' z' : Expression} :
            kept df x y z = kept df x' y' z' ↔ (x = x' ∧ y = y') ∧ z = z' :=
          ⟨kept_injective, fun h => by rw [h.1.1, h.1.2, h.2]⟩
        simpa [hkept, and_comm, and_assoc, and_left_comm] using hthree
    | abs | round | upper | lower | length => exact reading_method_iff rfl hcalled iha

end Agreement

end SheetScript.Formula
