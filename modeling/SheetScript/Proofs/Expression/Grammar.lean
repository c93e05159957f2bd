import SheetScript.Proofs.Expression.Token

/-!
# Script expressions

  The trees of expressions and the grammar of the script language that says
  which tokens stand for which tree.  Members, indices and calls bind most,
  then a power, whose base cannot have a sign and whose exponent can, then a
  sign, products, sums, comparisons and the conditional.  Brackets leave no
  trace in a tree.

  Main statement: a list of tokens is the text of one tree at most
  (`Derives.unique`).
-/

namespace SheetScript

/-- An expression of the script. -/
inductive Expression where
  | name (s : String)
  | constant (s : String)
  | number (digits : String)
  | text (s : String)
  | negated (operand : Expression)
  | binary (o : Operator) (left right : Expression)
  /-- One more comparison in a chain. -/
  | chained (chain : Expression) (o : Operator) (right : Expression)
  | conditional (value condition otherwise : Expression)
  | member (object : Expression) (name : String)
  | item (object index : Expression)
  /-- A call without arguments. -/
  | called (f : Expression)
  /-- A call with one argument more. -/
  | argument (call : Expression) (name : Option String) (value : Expression)
  deriving DecidableEq, Repr

namespace Expression

/-- The levels whose operators group to the left. -/
inductive Level where
  | sum
  | product
  deriving DecidableEq, Repr

/-- The operators of a level. -/
def Level.operators : Level → List Operator
  | .sum => [.add, .subtract]
  | .product => [.multiply, .divide]

/-- The operators that compare. -/
def comparisons : List Operator :=
  [.equal, .notEqual, .less, .greater, .lessOrEqual, .greaterOrEqual]

/-- The phrases of the grammar.  Some go on with an expression that was read. -/
inductive Phrase where
  | expression
  | comparison
  /-- Further comparisons behind `left`. -/
  | chain (left : Expression)
  | level (l : Level)
  /-- Further operands of a level behind `left`. -/
  | tail (l : Level) (left : Expression)
  | factor
  | power
  | primary
  /-- Members, indices and calls behind `object`. -/
  | trailers (object : Expression)
  | atom
  /-- One argument of `call` or more; behind a named one all are `named`. -/
  | arguments (named : Bool) (call : Expression)
  /-- Further arguments of `call`, each behind a comma. -/
  | more (named : Bool) (call : Expression)
  deriving DecidableEq, Repr

/-- The phrases between the operators of a level. -/
def Level.operand : Level → Phrase
  | .sum => .level .product
  | .product => .factor

/-- The tokens of a phrase and what they stand for. -/
inductive Derives : Phrase → List Token → Expression → Prop where
  | name (s : String) : Derives .atom [.name s] (.name s)
  | constant (s : String) : Derives .atom [.constant s] (.constant s)
  | number (s : String) : Derives .atom [.number s] (.number s)
  | text (s : String) : Derives .atom [.text s] (.text s)
  | bracketed {ts e} : Derives .expression ts e →
      Derives .atom (.opening :: (ts ++ [.closing])) e
  | primary {ts us a e} : Derives .atom ts a → Derives (.trailers a) us e →
      Derives .primary (ts ++ us) e
  | noTrailer (a : Expression) : Derives (.trailers a) [] a
  | member {a s ts e} : Derives (.trailers (.member a s)) ts e →
      Derives (.trailers a) (.dot :: .name s :: ts) e
  | item {a i ts us e} : Derives .expression ts i → Derives (.trailers (.item a i)) us e →
      Derives (.trailers a) (.openingIndex :: (ts ++ .closingIndex :: us)) e
  | call {a ts e} : Derives (.trailers (.called a)) ts e →
      Derives (.trailers a) (.opening :: .closing :: ts) e
  | callWith {a c ts us e} : Derives (.arguments false (.called a)) ts c →
      Derives (.trailers c) us e →
      Derives (.trailers a) (.opening :: (ts ++ .closing :: us)) e
  | argument {c v ts us e} : Derives .expression ts v →
      Derives (.more false (.argument c none v)) us e →
      Derives (.arguments false c) (ts ++ us) e
  | namedArgument {named c k v ts us e} : Derives .expression ts v →
      Derives (.more true (.argument c (some k) v)) us e →
      Derives (.arguments named c) (.argumentName k :: (ts ++ us)) e
  | noArgument (named : Bool) (c : Expression) : Derives (.more named c) [] c
  | nextArgument {named c ts e} : Derives (.arguments named c) ts e →
      Derives (.more named c) (.comma :: ts) e
  | base {ts e} : Derives .primary ts e → Derives .power ts e
  | exponent {ts us b x} : Derives .primary ts b → Derives .factor us x →
      Derives .power (ts ++ .operator .power :: us) (.binary .power b x)
  | negated {ts e} : Derives .factor ts e →
      Derives .factor (.operator .subtract :: ts) (.negated e)
  | unsigned {ts e} : Derives .power ts e → Derives .factor ts e
  | level {l ts us a e} : Derives (Level.operand l) ts a → Derives (.tail l a) us e →
      Derives (.level l) (ts ++ us) e
  | noOperand (l : Level) (a : Expression) : Derives (.tail l a) [] a
  | operand {l o ts us a b e} : o ∈ Level.operators l → Derives (Level.operand l) ts b →
      Derives (.tail l (.binary o a b)) us e → Derives (.tail l a) (.operator o :: (ts ++ us)) e
  | uncompared {ts e} : Derives (.level .sum) ts e → Derives .comparison ts e
  | compared {o ts us vs a b e} : o ∈ comparisons → Derives (.level .sum) ts a →
      Derives (.level .sum) us b → Derives (.chain (.binary o a b)) vs e →
      Derives .comparison (ts ++ .operator o :: (us ++ vs)) e
  | chainEnd (a : Expression) : Derives (.chain a) [] a
  | chained {o ts us a b e} : o ∈ comparisons → Derives (.level .sum) ts b →
      Derives (.chain (.chained a o b)) us e → Derives (.chain a) (.operator o :: (ts ++ us)) e
  | unconditional {ts e} : Derives .comparison ts e → Derives .expression ts e
  | conditional {ts us vs a c b} : Derives .comparison ts a → Derives .comparison us c →
      Derives .expression vs b →
      Derives .expression (ts ++ .ifWord :: (us ++ .elseWord :: vs)) (.conditional a c b)

/-- The text of an expression. -/
def Reads (s : String) (e : Expression) : Prop := ∃ ts, tokens? s = some ts ∧ Derives .expression ts e

/-! ### How phrases begin and end -/

/-- Whether a token begins an expression without a sign. -/
def Token.beginsAtom : Token → Bool
  | .name _ | .constant _ | .number _ | .text _ | .opening => true
  | _ => false

/-- Whether a token is the name of an argument. -/
def Token.namesArgument : Token → Bool
  | .argumentName _ => true
  | _ => false

/-- Whether a phrase can begin with a token.  Phrases that go on can be empty. -/
def Phrase.begins : Phrase → Token → Bool
  | .atom, t | .primary, t | .power, t => t.beginsAtom
  | .factor, t | .level _, t | .comparison, t | .expression, t =>
    t.beginsAtom || t == .operator .subtract
  | .arguments _ _, t => t.namesArgument || t.beginsAtom || t == .operator .subtract
  | _, _ => true

/-- Whether a phrase goes on with what was read. -/
def Phrase.goesOn : Phrase → Bool
  | .chain _ | .tail _ _ | .trailers _ | .more _ _ => true
  | _ => false

theorem Derives.begins {p : Phrase} {ts : List Token} {e : Expression} (h : Derives p ts e)
    (hp : p.goesOn = false) : ∃ t us, ts = t :: us ∧ p.begins t = true := by
  induction h with
  | name s | constant s | number s | text s => exact ⟨_, _, rfl, rfl⟩
  | bracketed _ _ => exact ⟨_, _, rfl, rfl⟩
  | noTrailer | noArgument | noOperand | chainEnd => cases hp
  | member | item | call | callWith | nextArgument | operand | chained => cases hp
  | namedArgument => exact ⟨_, _, rfl, rfl⟩
  | negated => exact ⟨_, _, rfl, rfl⟩
  | base _ ih => exact ih rfl
  | primary _ _ ih _ | exponent _ _ ih _ =>
    obtain ⟨t, us, rfl, ht⟩ := ih rfl
    exact ⟨t, _, rfl, ht⟩
  | unsigned _ ih =>
    obtain ⟨t, us, rfl, ht⟩ := ih rfl
    have hatom : t.beginsAtom = true := ht
    exact ⟨t, us, rfl, by simp [Phrase.begins, hatom]⟩
  | @level l _ _ _ _ _ _ ih _ =>
    cases l with
    | sum | product =>
      obtain ⟨t, us, rfl, ht⟩ := ih rfl
      exact ⟨t, _, rfl, ht⟩
  | uncompared _ ih | unconditional _ ih => exact ih rfl
  | compared _ _ _ _ ih _ _ | conditional _ _ _ ih _ _ =>
    obtain ⟨t, us, rfl, ht⟩ := ih rfl
    exact ⟨t, _, rfl, ht⟩
  | argument _ _ ih _ =>
    obtain ⟨t, us, rfl, ht⟩ := ih rfl
    have hfirst : (t.beginsAtom || t == .operator .subtract) = true := ht
    exact ⟨t, _, rfl, by simp only [Phrase.begins, Bool.or_assoc, hfirst, Bool.or_true]⟩

/-- How much a token binds that stands behind a phrase; a token of rank zero
  belongs to no phrase that it stands behind. -/
def Token.rank : Token → Nat
  | .dot | .opening | .openingIndex => 7
  | .operator .power => 6
  | .operator .multiply | .operator .divide => 5
  | .operator .add | .operator .subtract => 4
  | .operator .join => 0
  | .operator _ => 3
  | .ifWord => 2
  | .comma => 1
  | _ => 0

/-- The least rank of a token that goes on with a phrase. -/
def Phrase.rank : Phrase → Nat
  | .atom => 8
  | .primary | .trailers _ => 7
  | .power | .factor => 6
  | .level .product | .tail .product _ => 5
  | .level .sum | .tail .sum _ => 4
  | .comparison | .chain _ => 3
  | .expression => 2
  | .arguments _ _ | .more _ _ => 1

/-- Whether a phrase is over before `rest`. -/
def Ends (p : Phrase) (rest : List Token) : Prop := ∀ t ∈ rest.head?, t.rank < p.rank

theorem Ends.cons_iff {p : Phrase} {t : Token} {rest : List Token} :
    Ends p (t :: rest) ↔ t.rank < p.rank := by simp [Ends]

theorem not_ends_cons {p : Phrase} {t : Token} {rest : List Token} (h : p.rank ≤ t.rank) :
    ¬ Ends p (t :: rest) := by
  rw [Ends.cons_iff]
  exact Nat.not_lt.mpr h

theorem Ends.mono {p q : Phrase} {rest : List Token} (h : Ends p rest) (hpq : p.rank ≤ q.rank) :
    Ends q rest := fun t ht => Nat.lt_of_lt_of_le (h t ht) hpq

theorem rank_level {l : Level} {o : Operator} (ho : o ∈ l.operators) :
    (Token.operator o).rank = (Phrase.level l).rank := by
  cases l <;> simp only [Level.operators, List.mem_cons, List.not_mem_nil, or_false] at ho <;>
    rcases ho with rfl | rfl <;> rfl

theorem rank_comparison {o : Operator} (ho : o ∈ comparisons) : (Token.operator o).rank = 3 := by
  simp only [comparisons, List.mem_cons, List.not_mem_nil, or_false] at ho
  rcases ho with rfl | rfl | rfl | rfl | rfl | rfl <;> rfl

/-- What goes on with the operands of a level begins with one of its operators. -/
theorem Derives.tail_ends {l : Level} {a e : Expression} {ts rest : List Token}
    (h : Derives (.tail l a) ts e) (hr : Ends (.level l) rest) : Ends l.operand (ts ++ rest) := by
  cases h with
  | noOperand =>
    apply hr.mono
    cases l <;> decide
  | operand ho _ _ =>
    rw [List.cons_append, Ends.cons_iff, rank_level ho]
    cases l <;> decide

/-- What goes on with a comparison begins with an operator that compares. -/
theorem Derives.chain_ends {a e : Expression} {ts rest : List Token}
    (h : Derives (.chain a) ts e) (hr : Ends .comparison rest) :
    Ends (.level .sum) (ts ++ rest) := by
  cases h with
  | chainEnd => exact hr.mono (by decide)
  | chained ho _ _ =>
    rw [List.cons_append, Ends.cons_iff, rank_comparison ho]
    decide

/-- What goes on with arguments begins with a comma. -/
theorem Derives.more_ends {named : Bool} {c e : Expression} {ts rest : List Token}
    (h : Derives (.more named c) ts e) (hr : Ends (.more named c) rest) :
    Ends .expression (ts ++ rest) := by
  cases h with
  | noArgument => exact hr.mono (by decide : 1 ≤ 2)
  | nextArgument _ =>
    rw [List.cons_append, Ends.cons_iff]
    decide

/-! ### One tree for one text -/

/-- At the head of a list of tokens the phrase is `ts` and stands for `e`, as far
  as it is over behind `ts`. -/
def Only (p : Phrase) (ts : List Token) (e : Expression) : Prop :=
  ∀ {ts' rest rest' : List Token} {e' : Expression}, Derives p ts' e' →
    ts ++ rest = ts' ++ rest' → Ends p rest → Ends p rest' → ts = ts' ∧ e = e'

namespace Only

variable {ts us vs : List Token} {a b c e i v x : Expression}

theorem bracketed (h : Only .expression ts e) : Only .atom (.opening :: (ts ++ [.closing])) e := by
  intro ts' rest rest' e' h' heq _ _
  cases h' with
  | name | constant | number | text => cases heq
  | @bracketed us e' h' =>
    have heq : ts ++ .closing :: rest = us ++ .closing :: rest' := by simpa using heq
    obtain ⟨rfl, rfl⟩ := h h' heq (Ends.cons_iff.2 (by decide)) (Ends.cons_iff.2 (by decide))
    exact ⟨rfl, rfl⟩

theorem primary (ha : Only .atom ts a) (he : Only (.trailers a) us e) :
    Only .primary (ts ++ us) e := by
  intro ts' rest rest' e' h' heq hr hr'
  cases h' with
  | @primary vs ws b e' hb h' =>
    simp only [List.append_assoc] at heq
    -- no token goes on with an atom
    have hends (l : List Token) : Ends .atom l := by
      intro t _
      cases t with
      | operator o => cases o <;> decide
      | _ => exact Nat.le_of_ble_eq_true rfl
    obtain ⟨rfl, rfl⟩ := ha hb heq (hends _) (hends _)
    obtain ⟨rfl, rfl⟩ := he h' (List.append_cancel_left heq) hr hr'
    exact ⟨rfl, rfl⟩

/-! #### Members, indices and calls -/

theorem noTrailer : Only (.trailers a) [] a := by
  intro ts' rest rest' e' h' heq hr _
  cases h' with
  | noTrailer => exact ⟨rfl, rfl⟩
  | member | item | call | callWith =>
    rw [show rest = _ from heq, List.cons_append] at hr
    exact absurd hr (not_ends_cons (Nat.le_refl _))

theorem member {s : String} (he : Only (.trailers (.member a s)) ts e) :
    Only (.trailers a) (.dot :: .name s :: ts) e := by
  intro ts' rest rest' e' h' heq hr hr'
  cases h' with
  | noTrailer =>
    rw [show rest' = _ from heq.symm, List.cons_append] at hr'
    exact absurd hr' (not_ends_cons (Nat.le_refl _))
  | @member _ s' us e' h' =>
    have hs : s = s' ∧ ts ++ rest = us ++ rest' := by simpa using heq
    obtain ⟨rfl, htail⟩ := hs
    obtain ⟨rfl, rfl⟩ := he h' htail hr hr'
    exact ⟨rfl, rfl⟩
  | item | call | callWith => cases heq

theorem item (hi : Only .expression ts i) (he : Only (.trailers (.item a i)) us e) :
    Only (.trailers a) (.openingIndex :: (ts ++ .closingIndex :: us)) e := by
  intro ts' rest rest' e' h' heq hr hr'
  cases h' with
  | noTrailer =>
    rw [show rest' = _ from heq.symm, List.cons_append] at hr'
    exact absurd hr' (not_ends_cons (Nat.le_refl _))
  | @item _ j vs ws e' hj h' =>
    have heq : ts ++ .closingIndex :: (us ++ rest) = vs ++ .closingIndex :: (ws ++ rest') := by
      simpa using heq
    obtain ⟨rfl, rfl⟩ := hi hj heq (Ends.cons_iff.2 (by decide)) (Ends.cons_iff.2 (by decide))
    have heq : us ++ rest = ws ++ rest' := by simpa using heq
    obtain ⟨rfl, rfl⟩ := he h' heq hr hr'
    exact ⟨rfl, rfl⟩
  | member | call | callWith => cases heq

/-- Arguments do not begin with the bracket that closes them. -/
theorem arguments_ne_closing {named : Bool} (h : Derives (.arguments named c) ts e)
    {rest rest' : List Token} : ts ++ rest ≠ .closing :: rest' := by
  obtain ⟨t, us, rfl, ht⟩ := h.begins rfl
  rintro ⟨⟩
  simp [Phrase.begins, Token.namesArgument, Token.beginsAtom] at ht

theorem call (he : Only (.trailers (.called a)) ts e) :
    Only (.trailers a) (.opening :: .closing :: ts) e := by
  intro ts' rest rest' e' h' heq hr hr'
  cases h' with
  | noTrailer =>
    rw [show rest' = _ from heq.symm, List.cons_append] at hr'
    exact absurd hr' (not_ends_cons (Nat.le_refl _))
  | @call _ us e' h' =>
    have heq : ts ++ rest = us ++ rest' := by simpa using heq
    obtain ⟨rfl, rfl⟩ := he h' heq hr hr'
    exact ⟨rfl, rfl⟩
  | @callWith _ _ us ws e' hargs _ =>
    have heq : .closing :: (ts ++ rest) = us ++ .closing :: (ws ++ rest') := by simpa using heq
    exact absurd heq.symm (arguments_ne_closing hargs)
  | member | item => cases heq

theorem callWith (hargs : Derives (.arguments false (.called a)) ts c)
    (hc : Only (.arguments false (.called a)) ts c) (he : Only (.trailers c) us e) :
    Only (.trailers a) (.opening :: (ts ++ .closing :: us)) e := by
  intro ts' rest rest' e' h' heq hr hr'
  cases h' with
  | noTrailer =>
    rw [show rest' = _ from heq.symm, List.cons_append] at hr'
    exact absurd hr' (not_ends_cons (Nat.le_refl _))
  | @call _ vs e' _ =>
    have heq : ts ++ .closing :: (us ++ rest) = .closing :: (vs ++ rest') := by simpa using heq
    exact absurd heq (arguments_ne_closing hargs)
  | @callWith _ d vs ws e' hd h' =>
    have heq : ts ++ .closing :: (us ++ rest) = vs ++ .closing :: (ws ++ rest') := by
      simpa using heq
    have hclosing (l : List Token) : Ends (.arguments false (.called a)) (.closing :: l) :=
      Ends.cons_iff.2 Nat.zero_lt_one
    obtain ⟨rfl, rfl⟩ := hc hd heq (hclosing _) (hclosing _)
    have heq : us ++ rest = ws ++ rest' := by simpa using heq
    obtain ⟨rfl, rfl⟩ := he h' heq hr hr'
    exact ⟨rfl, rfl⟩
  | member | item => cases heq

/-! #### Arguments -/

/-- An argument without a name does not begin as one with a name. -/
theorem expression_ne_argumentName (h : Derives .expression ts e) {k : String}
    {rest rest' : List Token} : ts ++ rest ≠ .argumentName k :: rest' := by
  obtain ⟨t, us, rfl, ht⟩ := h.begins rfl
  rintro ⟨⟩
  simp [Phrase.begins, Token.beginsAtom] at ht

theorem argument (hd : Derives .expression ts v) (hm : Derives (.more false (.argument c none v)) us e)
    (hv : Only .expression ts v) (he : Only (.more false (.argument c none v)) us e) :
    Only (.arguments false c) (ts ++ us) e := by
  intro ts' rest rest' e' h' heq hr hr'
  cases h' with
  | @argument _ v' vs ws e' hv' h' =>
    simp only [List.append_assoc] at heq
    obtain ⟨rfl, rfl⟩ := hv hv' heq (hm.more_ends hr) (h'.more_ends hr')
    obtain ⟨rfl, rfl⟩ := he h' (List.append_cancel_left heq) hr hr'
    exact ⟨rfl, rfl⟩
  | namedArgument _ _ =>
    rw [List.append_assoc] at heq
    exact absurd heq (expression_ne_argumentName hd)

theorem namedArgument {named : Bool} {k : String}
    (hm : Derives (.more true (.argument c (some k) v)) us e) (hv : Only .expression ts v)
    (he : Only (.more true (.argument c (some k) v)) us e) :
    Only (.arguments named c) (.argumentName k :: (ts ++ us)) e := by
  intro ts' rest rest' e' h' heq hr hr'
  cases h' with
  | argument hd _ =>
    rw [List.append_assoc] at heq
    exact absurd heq.symm (expression_ne_argumentName hd)
  | @namedArgument _ _ k' v' vs ws e' hv' h' =>
    have hk : k = k' ∧ ts ++ (us ++ rest) = vs ++ (ws ++ rest') := by simpa using heq
    obtain ⟨rfl, htail⟩ := hk
    obtain ⟨rfl, rfl⟩ := hv hv' htail (hm.more_ends hr) (h'.more_ends hr')
    obtain ⟨rfl, rfl⟩ := he h' (List.append_cancel_left htail) hr hr'
    exact ⟨rfl, rfl⟩

theorem noArgument {named : Bool} : Only (.more named c) [] c := by
  intro ts' rest rest' e' h' heq hr _
  cases h' with
  | noArgument => exact ⟨rfl, rfl⟩
  | nextArgument =>
    rw [show rest = _ from heq, List.cons_append] at hr
    exact absurd hr (not_ends_cons (Nat.le_refl _))

theorem nextArgument {named : Bool} (he : Only (.arguments named c) ts e) :
    Only (.more named c) (.comma :: ts) e := by
  intro ts' rest rest' e' h' heq hr hr'
  cases h' with
  | noArgument =>
    rw [show rest' = _ from heq.symm, List.cons_append] at hr'
    exact absurd hr' (not_ends_cons (Nat.le_refl _))
  | @nextArgument _ _ us e' h' =>
    have heq : ts ++ rest = us ++ rest' := by simpa using heq
    obtain ⟨rfl, rfl⟩ := he h' heq hr hr'
    exact ⟨rfl, rfl⟩

/-! #### Powers and signs -/

theorem base (he : Only .primary ts e) : Only .power ts e := by
  intro ts' rest rest' e' h' heq hr hr'
  cases h' with
  | base h' => exact he h' heq (hr.mono (by decide)) (hr'.mono (by decide))
  | @exponent us vs b x hb _ =>
    have heq : ts ++ rest = us ++ .operator .power :: (vs ++ rest') := by simpa using heq
    obtain ⟨rfl, rfl⟩ := he hb heq (hr.mono (by decide)) (Ends.cons_iff.2 (by decide))
    rw [List.append_cancel_left heq, Ends.cons_iff] at hr
    exact absurd hr (by decide)

theorem exponent (hb : Only .primary ts b) (hx : Only .factor us x) :
    Only .power (ts ++ .operator .power :: us) (.binary .power b x) := by
  intro ts' rest rest' e' h' heq hr hr'
  cases h' with
  | base h' =>
    have heq : ts ++ .operator .power :: (us ++ rest) = ts' ++ rest' := by simpa using heq
    obtain ⟨rfl, rfl⟩ := hb h' heq (Ends.cons_iff.2 (by decide)) (hr'.mono (by decide))
    rw [← List.append_cancel_left heq, Ends.cons_iff] at hr'
    exact absurd hr' (by decide)
  | @exponent vs ws b' x' hb' hx' =>
    have heq : ts ++ .operator .power :: (us ++ rest) = vs ++ .operator .power :: (ws ++ rest') := by
      simpa using heq
    obtain ⟨rfl, rfl⟩ := hb hb' heq (Ends.cons_iff.2 (by decide)) (Ends.cons_iff.2 (by decide))
    have heq : us ++ rest = ws ++ rest' := by simpa using heq
    obtain ⟨rfl, rfl⟩ := hx hx' heq hr hr'
    exact ⟨rfl, rfl⟩

/-- A power does not begin with a sign. -/
theorem power_ne_sign (h : Derives .power ts e) {rest rest' : List Token} :
    ts ++ rest ≠ .operator .subtract :: rest' := by
  obtain ⟨t, us, rfl, ht⟩ := h.begins rfl
  rintro ⟨⟩
  simp [Phrase.begins, Token.beginsAtom] at ht

theorem negated (he : Only .factor ts e) :
    Only .factor (.operator .subtract :: ts) (.negated e) := by
  intro ts' rest rest' e' h' heq hr hr'
  cases h' with
  | @negated us e' h' =>
    have heq : ts ++ rest = us ++ rest' := by simpa using heq
    obtain ⟨rfl, rfl⟩ := he h' heq hr hr'
    exact ⟨rfl, rfl⟩
  | unsigned h' => exact absurd heq.symm (power_ne_sign h')

theorem unsigned (hd : Derives .power ts e) (he : Only .power ts e) : Only .factor ts e := by
  intro ts' rest rest' e' h' heq hr hr'
  cases h' with
  | negated => exact absurd heq (power_ne_sign hd)
  | unsigned h' => exact he h' heq hr hr'

/-! #### Operators that group to the left -/

theorem level {l : Level} (hm : Derives (.tail l a) us e) (ha : Only l.operand ts a)
    (he : Only (.tail l a) us e) : Only (.level l) (ts ++ us) e := by
  intro ts' rest rest' e' h' heq hr hr'
  cases h' with
  | @level _ vs ws b e' hb h' =>
    simp only [List.append_assoc] at heq
    obtain ⟨rfl, rfl⟩ := ha hb heq (hm.tail_ends hr) (h'.tail_ends hr')
    have hrank : (Phrase.level l).rank ≤ (Phrase.tail l a).rank := by
      cases l <;> exact Nat.le_refl _
    obtain ⟨rfl, rfl⟩ := he h' (List.append_cancel_left heq) (hr.mono hrank) (hr'.mono hrank)
    exact ⟨rfl, rfl⟩

/-- An operator of a level goes on with its operands. -/
theorem not_ends_tail {l : Level} {o : Operator} (ho : o ∈ l.operators) {rest : List Token} :
    ¬ Ends (.tail l a) (.operator o :: rest) := by
  refine not_ends_cons ?_
  rw [rank_level ho]
  cases l <;> exact Nat.le_refl _

theorem noOperand {l : Level} : Only (.tail l a) [] a := by
  intro ts' rest rest' e' h' heq hr _
  cases h' with
  | noOperand => exact ⟨rfl, rfl⟩
  | operand ho _ _ =>
    rw [show rest = _ from heq, List.cons_append] at hr
    exact absurd hr (not_ends_tail ho)

theorem operand {l : Level} {o : Operator} (ho : o ∈ l.operators)
    (hm : Derives (.tail l (.binary o a b)) us e) (hb : Only l.operand ts b)
    (he : Only (.tail l (.binary o a b)) us e) :
    Only (.tail l a) (.operator o :: (ts ++ us)) e := by
  intro ts' rest rest' e' h' heq hr hr'
  have hrank (d d' : Expression) : (Phrase.tail l d).rank ≤ (Phrase.tail l d').rank ∧
      (Phrase.tail l d).rank ≤ (Phrase.level l).rank := by
    cases l <;> exact ⟨Nat.le_refl _, Nat.le_refl _⟩
  cases h' with
  | noOperand =>
    rw [show rest' = _ from heq.symm, List.cons_append] at hr'
    exact absurd hr' (not_ends_tail ho)
  | @operand _ o' vs ws _ b' e' _ hb' h' =>
    have hsame : o = o' ∧ ts ++ (us ++ rest) = vs ++ (ws ++ rest') := by simpa using heq
    obtain ⟨rfl, htail⟩ := hsame
    obtain ⟨rfl, rfl⟩ := hb hb' htail (hm.tail_ends (hr.mono (hrank a a).2))
      (h'.tail_ends (hr'.mono (hrank a a).2))
    obtain ⟨rfl, rfl⟩ := he h' (List.append_cancel_left htail) (hr.mono (hrank _ _).1)
      (hr'.mono (hrank _ _).1)
    exact ⟨rfl, rfl⟩

/-! #### Comparisons and conditionals -/

theorem uncompared (he : Only (.level .sum) ts e) : Only .comparison ts e := by
  intro ts' rest rest' e' h' heq hr hr'
  cases h' with
  | uncompared h' => exact he h' heq (hr.mono (by decide)) (hr'.mono (by decide))
  | @compared o us vs ws b c e' ho hb _ _ =>
    have hrank := rank_comparison ho
    have heq : ts ++ rest = us ++ .operator o :: (vs ++ (ws ++ rest')) := by simpa using heq
    obtain ⟨rfl, rfl⟩ := he hb heq (hr.mono (by decide))
      (Ends.cons_iff.2 (by rw [hrank]; decide))
    rw [List.append_cancel_left heq, Ends.cons_iff, hrank] at hr
    exact absurd hr (by decide)

theorem compared {o : Operator} (ho : o ∈ comparisons)
    (hm : Derives (.chain (.binary o a b)) vs e) (ha : Only (.level .sum) ts a)
    (hb : Only (.level .sum) us b) (he : Only (.chain (.binary o a b)) vs e) :
    Only .comparison (ts ++ .operator o :: (us ++ vs)) e := by
  intro ts' rest rest' e' h' heq hr hr'
  have hrank := rank_comparison ho
  cases h' with
  | uncompared h' =>
    have heq : ts ++ .operator o :: (us ++ (vs ++ rest)) = ts' ++ rest' := by simpa using heq
    obtain ⟨rfl, rfl⟩ := ha h' heq (Ends.cons_iff.2 (by rw [hrank]; decide))
      (hr'.mono (by decide))
    rw [← List.append_cancel_left heq, Ends.cons_iff, hrank] at hr'
    exact absurd hr' (by decide)
  | @compared o' us' vs' ws' a' b' e' ho' ha' hb' h' =>
    have hrank' := rank_comparison ho'
    have heq : ts ++ .operator o :: (us ++ (vs ++ rest)) =
        us' ++ .operator o' :: (vs' ++ (ws' ++ rest')) := by simpa using heq
    obtain ⟨rfl, rfl⟩ := ha ha' heq (Ends.cons_iff.2 (by rw [hrank]; decide))
      (Ends.cons_iff.2 (by rw [hrank']; decide))
    have hsame : o = o' ∧ us ++ (vs ++ rest) = vs' ++ (ws' ++ rest') := by simpa using heq
    obtain ⟨rfl, htail⟩ := hsame
    obtain ⟨rfl, rfl⟩ := hb hb' htail (hm.chain_ends hr) (h'.chain_ends hr')
    obtain ⟨rfl, rfl⟩ := he h' (List.append_cancel_left htail) hr hr'
    exact ⟨rfl, rfl⟩

theorem chainEnd : Only (.chain a) [] a := by
  intro ts' rest rest' e' h' heq hr _
  cases h' with
  | chainEnd => exact ⟨rfl, rfl⟩
  | chained ho _ _ =>
    rw [show rest = _ from heq, List.cons_append] at hr
    exact absurd hr (not_ends_cons (Nat.le_of_eq (rank_comparison ho).symm))

theorem chained {o : Operator} (ho : o ∈ comparisons)
    (hm : Derives (.chain (.chained a o b)) us e) (hb : Only (.level .sum) ts b)
    (he : Only (.chain (.chained a o b)) us e) :
    Only (.chain a) (.operator o :: (ts ++ us)) e := by
  intro ts' rest rest' e' h' heq hr hr'
  cases h' with
  | chainEnd =>
    rw [show rest' = _ from heq.symm, List.cons_append] at hr'
    exact absurd hr' (not_ends_cons (Nat.le_of_eq (rank_comparison ho).symm))
  | @chained o' vs ws _ b' e' _ hb' h' =>
    have hsame : o = o' ∧ ts ++ (us ++ rest) = vs ++ (ws ++ rest') := by simpa using heq
    obtain ⟨rfl, htail⟩ := hsame
    obtain ⟨rfl, rfl⟩ := hb hb' htail (hm.chain_ends hr) (h'.chain_ends hr')
    obtain ⟨rfl, rfl⟩ := he h' (List.append_cancel_left htail) hr hr'
    exact ⟨rfl, rfl⟩

theorem unconditional (he : Only .comparison ts e) : Only .expression ts e := by
  intro ts' rest rest' e' h' heq hr hr'
  cases h' with
  | unconditional h' => exact he h' heq (hr.mono (by decide)) (hr'.mono (by decide))
  | @conditional us vs ws a c b ha _ _ =>
    have heq : ts ++ rest = us ++ .ifWord :: (vs ++ .elseWord :: (ws ++ rest')) := by
      simpa using heq
    obtain ⟨rfl, rfl⟩ := he ha heq (hr.mono (by decide)) (Ends.cons_iff.2 (by decide))
    rw [List.append_cancel_left heq, Ends.cons_iff] at hr
    exact absurd hr (by decide)

theorem conditional (ha : Only .comparison ts a) (hc : Only .comparison us c)
    (hb : Only .expression vs b) :
    Only .expression (ts ++ .ifWord :: (us ++ .elseWord :: vs)) (.conditional a c b) := by
  intro ts' rest rest' e' h' heq hr hr'
  cases h' with
  | unconditional h' =>
    have heq : ts ++ .ifWord :: (us ++ .elseWord :: (vs ++ rest)) = ts' ++ rest' := by
      simpa using heq
    obtain ⟨rfl, rfl⟩ := ha h' heq (Ends.cons_iff.2 (by decide)) (hr'.mono (by decide))
    rw [← List.append_cancel_left heq, Ends.cons_iff] at hr'
    exact absurd hr' (by decide)
  | @conditional us' vs' ws' a' c' b' ha' hc' hb' =>
    have heq : ts ++ .ifWord :: (us ++ .elseWord :: (vs ++ rest)) =
        us' ++ .ifWord :: (vs' ++ .elseWord :: (ws' ++ rest')) := by simpa using heq
    obtain ⟨rfl, rfl⟩ := ha ha' heq (Ends.cons_iff.2 (by decide)) (Ends.cons_iff.2 (by decide))
    have heq : us ++ .elseWord :: (vs ++ rest) = vs' ++ .elseWord :: (ws' ++ rest') := by
      simpa using heq
    obtain ⟨rfl, rfl⟩ := hc hc' heq (Ends.cons_iff.2 (by decide)) (Ends.cons_iff.2 (by decide))
    have heq : vs ++ rest = ws' ++ rest' := by simpa using heq
    obtain ⟨rfl, rfl⟩ := hb hb' heq hr hr'
    exact ⟨rfl, rfl⟩

end Only

/-- The grammar is unambiguous, also for phrases at the head of more tokens. -/
theorem Derives.unique {p : Phrase} {ts : List Token} {e : Expression} (h : Derives p ts e) :
    Only p ts e := by
  induction h with
  | name s | constant s | number s | text s =>
    intro ts' rest rest' e' h' heq _ _
    -- the first token tells which of the atoms the other phrase is
    cases h'
    all_goals cases heq
    exact ⟨rfl, rfl⟩
  | bracketed _ ih => exact ih.bracketed
  | primary _ _ iha ihe => exact iha.primary ihe
  | noTrailer => exact Only.noTrailer
  | member _ ih => exact ih.member
  | item _ _ ihi ihe => exact ihi.item ihe
  | call _ ih => exact ih.call
  | callWith hargs _ ihc ihe => exact Only.callWith hargs ihc ihe
  | argument hd hm ihv ihe => exact Only.argument hd hm ihv ihe
  | namedArgument _ hm ihv ihe => exact Only.namedArgument hm ihv ihe
  | noArgument => exact Only.noArgument
  | nextArgument _ ih => exact ih.nextArgument
  | base _ ih => exact ih.base
  | exponent _ _ ihb ihx => exact ihb.exponent ihx
  | negated _ ih => exact ih.negated
  | unsigned hd ih => exact Only.unsigned hd ih
  | level _ hm iha ihe => exact Only.level hm iha ihe
  | noOperand => exact Only.noOperand
  | operand ho _ hm ihb ihe => exact Only.operand ho hm ihb ihe
  | uncompared _ ih => exact ih.uncompared
  | compared ho _ _ hm iha ihb ihe => exact Only.compared ho hm iha ihb ihe
  | chainEnd => exact Only.chainEnd
  | chained ho _ hm ihb ihe => exact Only.chained ho hm ihb ihe
  | unconditional _ ih => exact ih.unconditional
  | conditional _ _ _ iha ihc ihb => exact iha.conditional ihc ihb

/-- A text is the text of one expression at most. -/
theorem Reads.unique {s : String} {e e' : Expression} (h : Reads s e) (h' : Reads s e') :
    e = e' := by
  obtain ⟨ts, hts, hd⟩ := h
  obtain ⟨ts', hts', hd'⟩ := h'
  rw [hts] at hts'
  cases hts'
  have hend : Ends .expression [] := nofun
  have hsame : ts ++ [] = ts ++ [] := rfl
  exact (hd.unique hd' hsame hend hend).2

end Expression

end SheetScript
