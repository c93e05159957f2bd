import SheetScript.Proofs.Expression.Grammar
import SheetScript.Proofs.Filter.Token

/-! # Reading masks

  The trees of masks, and the grammar of the script language for them.  The sign `~`
  binds as a minus sign does; the sums of operands without signs of masks bind more than
  `&`, which binds more than `|`; a comparison binds least.  Both `&` and `|` group to
  the left, and brackets leave no trace in a tree.  So `a & b == c` compares what `a & b`
  stands for, and a comparison has to stand in brackets to be an operand of `&`.

  What the language has beyond that is refused: chains of comparisons, members of what
  stands in brackets, and signs of masks within sums and arguments.

  Main statement: a text is the text of one mask at most (`Reads.unique`).
-/

namespace SheetScript.Mask

/-- A mask. -/
inductive Tree where
  /-- An expression without signs of masks. -/
  | plain (e : Expression)
  | complement (operand : Tree)
  | combined (o : BoolOperator) (left right : Tree)
  | compared (o : Operator) (left right : Tree)
  deriving DecidableEq, Repr

/-- The phrases of the grammar.  One of them goes on with a mask that was read. -/
inductive Phrase where
  | mask
  /-- Operands of an operator. -/
  | level (o : BoolOperator)
  /-- Further operands of an operator behind `left`. -/
  | tail (o : BoolOperator) (left : Tree)
  /-- An operand of `&`, or of the sign `~` if it is `signed`. -/
  | operand (signed : Bool)
  deriving DecidableEq, Repr

/-- The phrases between the signs of an operator. -/
def operandOf : BoolOperator → Phrase
  | .or => .level .and
  | .and => .operand false

/-- The operands without signs of masks. -/
def plainPhrase (signed : Bool) : Expression.Phrase := if signed then .factor else .level .sum

/-- The tokens of a phrase and what they stand for. -/
inductive Derives : Phrase → List Token → Tree → Prop where
  | plain {signed t ts e} : Expression.Derives (plainPhrase signed) (t :: ts) e → t ≠ .opening →
      Derives (.operand signed) ((t :: ts).map .plain) (.plain e)
  | complement {signed ts m} : Derives (.operand true) ts m →
      Derives (.operand signed) (.complement :: ts) (.complement m)
  | bracketed {signed ts m} : Derives .mask ts m →
      Derives (.operand signed) (.plain .opening :: (ts ++ [.plain .closing])) m
  | level {o ts us a m} : Derives (operandOf o) ts a → Derives (.tail o a) us m →
      Derives (.level o) (ts ++ us) m
  | noOperand (o : BoolOperator) (a : Tree) : Derives (.tail o a) [] a
  | operand {o ts us a b m} : Derives (operandOf o) ts b →
      Derives (.tail o (.combined o a b)) us m →
      Derives (.tail o a) (.combining o :: (ts ++ us)) m
  | uncompared {ts m} : Derives (.level .or) ts m → Derives .mask ts m
  | compared {o ts us a b} : o ∈ Expression.comparisons → Derives (.level .or) ts a →
      Derives (.level .or) us b →
      Derives .mask (ts ++ .plain (.operator o) :: us) (.compared o a b)

/-- The text of a mask. -/
def Reads (s : String) (m : Tree) : Prop := ∃ ts, tokens? s = some ts ∧ Derives .mask ts m

/-! ### Where phrases end -/

/-- How much a token binds that stands behind a phrase; a token of rank zero
  belongs to no phrase that it stands behind. -/
def Token.rank : Token → Nat
  | .plain t => if 4 ≤ t.rank then 4 else if t.rank = 3 then 1 else 0
  | .combining .and => 3
  | .combining .or => 2
  | .complement => 0

/-- The least rank of a token that goes on with a phrase. -/
def Phrase.rank : Phrase → Nat
  | .operand _ => 4
  | .level .and | .tail .and _ => 3
  | .level .or | .tail .or _ => 2
  | .mask => 1

/-- Whether a phrase is over before `rest`. -/
def Ends (p : Phrase) (rest : List Token) : Prop := ∀ t ∈ rest.head?, t.rank < p.rank

theorem Ends.cons_iff {p : Phrase} {t : Token} {rest : List Token} :
    Ends p (t :: rest) ↔ t.rank < p.rank := by simp [Ends]

theorem not_ends_cons {p : Phrase} {t : Token} {rest : List Token} (h : p.rank ≤ t.rank) :
    ¬ Ends p (t :: rest) := by
  rw [Ends.cons_iff]
  exact Nat.not_lt.mpr h

theorem Ends.mono {p q : Phrase} {rest : List Token} (h : Ends p rest) (hpq : p.rank ≤ q.rank) :
    Ends q rest := fun t ht => Nat.lt_of_lt_of_le (h t ht) hpq

theorem rank_comparison {o : Operator} (ho : o ∈ Expression.comparisons) :
    (Token.plain (.operator o)).rank = 1 := by
  simp [Token.rank, Expression.rank_comparison ho]

theorem rank_tail (o : BoolOperator) (a : Tree) :
    (Phrase.tail o a).rank = (Phrase.level o).rank := by
  cases o <;> rfl

theorem rank_combining (o : BoolOperator) : (Token.combining o).rank = (Phrase.level o).rank := by
  cases o <;> rfl

theorem rank_operandOf (o : BoolOperator) : (Phrase.level o).rank < (operandOf o).rank := by
  cases o <;> decide

/-- What goes on with the operands of an operator begins with it. -/
theorem Derives.tail_ends {o : BoolOperator} {a m : Tree} {ts rest : List Token}
    (h : Derives (.tail o a) ts m) (hr : Ends (.level o) rest) :
    Ends (operandOf o) (ts ++ rest) := by
  cases h with
  | noOperand => exact hr.mono (Nat.le_of_lt (rank_operandOf o))
  | operand _ _ =>
    rw [List.cons_append, Ends.cons_iff, rank_combining]
    exact rank_operandOf o

/-! ### The tokens of expressions -/

/-- The tokens up to the first sign of masks. -/
def plainPart : List Token → List Expression.Token
  | .plain t :: rest => t :: plainPart rest
  | _ => []

theorem plainPart_append (ts : List Expression.Token) (rest : List Token) :
    plainPart (ts.map .plain ++ rest) = ts ++ plainPart rest := by
  induction ts with
  | nil => rfl
  | cons t ts ih => simp [plainPart, ih]

/-- Where an operand is over, so is the expression that it is: a sign of masks goes on with
  no expression, and neither does an operator that compares. -/
theorem Ends.plainPart {signed : Bool} {rest : List Token} (h : Ends (.operand signed) rest) :
    Expression.Ends (plainPhrase signed) (plainPart rest) := by
  have hrank : 4 ≤ (plainPhrase signed).rank := by cases signed <;> decide
  cases rest with
  | nil => exact nofun
  | cons t rest =>
    cases t with
    | complement | combining o => exact nofun
    | plain t =>
      have ht : (Token.plain t).rank < 4 := Ends.cons_iff.mp h
      have hless : t.rank < 4 := by
        by_cases hfour : 4 ≤ t.rank
        · rw [Token.rank, if_pos hfour] at ht
          exact absurd ht (Nat.lt_irrefl 4)
        · omega
      exact Expression.Ends.cons_iff.mpr (Nat.lt_of_lt_of_le hless hrank)

/-! ### One tree for one text -/

/-- At the head of a list of tokens the phrase is `ts` and stands for `m`, as far
  as it is over behind `ts`. -/
def Only (p : Phrase) (ts : List Token) (m : Tree) : Prop :=
  ∀ {ts' rest rest' : List Token} {m' : Tree}, Derives p ts' m' →
    ts ++ rest = ts' ++ rest' → Ends p rest → Ends p rest' → ts = ts' ∧ m = m'

namespace Only

variable {signed : Bool} {o : BoolOperator} {ts us : List Token} {a b m : Tree}

theorem plain {t : Expression.Token} {ts : List Expression.Token} {e : Expression}
    (he : Expression.Derives (plainPhrase signed) (t :: ts) e) (ht : t ≠ .opening) :
    Only (.operand signed) ((t :: ts).map .plain) (.plain e) := by
  intro ts' rest rest' m' h' heq hr hr'
  cases h' with
  | @plain _ t' us e' he' _ =>
    -- up to the first sign of masks both are expressions, and there is one reading of these
    have hparts : t :: ts ++ plainPart rest = t' :: us ++ plainPart rest' := by
      rw [← plainPart_append, ← plainPart_append, heq]
    obtain ⟨hsame, rfl⟩ := he.unique he' hparts hr.plainPart hr'.plainPart
    rw [hsame]
    exact ⟨rfl, rfl⟩
  | complement => cases heq
  | bracketed =>
    -- brackets at the head are those of a mask
    have hhead : Token.plain t = .plain .opening := (List.cons.inj heq).1
    exact absurd (Token.plain.inj hhead) ht

theorem complement (h : Only (.operand true) ts m) :
    Only (.operand signed) (.complement :: ts) (.complement m) := by
  intro ts' rest rest' m' h' heq hr hr'
  cases h' with
  | plain | bracketed => cases heq
  | @complement _ us m' h' =>
    have heq : ts ++ rest = us ++ rest' := by simpa using heq
    obtain ⟨rfl, rfl⟩ := h h' heq hr hr'
    exact ⟨rfl, rfl⟩

theorem bracketed (h : Only .mask ts m) :
    Only (.operand signed) (.plain .opening :: (ts ++ [.plain .closing])) m := by
  intro ts' rest rest' m' h' heq _ _
  cases h' with
  | @plain _ t _ _ _ ht =>
    have hhead : Token.plain .opening = .plain t := (List.cons.inj heq).1
    exact absurd (Token.plain.inj hhead).symm ht
  | complement => cases heq
  | @bracketed _ us m' h' =>
    have heq : ts ++ .plain .closing :: rest = us ++ .plain .closing :: rest' := by simpa using heq
    obtain ⟨rfl, rfl⟩ := h h' heq (Ends.cons_iff.mpr (by decide)) (Ends.cons_iff.mpr (by decide))
    exact ⟨rfl, rfl⟩

/-! #### Operators that combine -/

theorem level (hm : Derives (.tail o a) us m) (ha : Only (operandOf o) ts a)
    (h : Only (.tail o a) us m) : Only (.level o) (ts ++ us) m := by
  intro ts' rest rest' m' h' heq hr hr'
  cases h' with
  | @level _ vs ws b m' hb h' =>
    simp only [List.append_assoc] at heq
    obtain ⟨rfl, rfl⟩ := ha hb heq (hm.tail_ends hr) (h'.tail_ends hr')
    have hrank : (Phrase.level o).rank ≤ (Phrase.tail o a).rank := Nat.le_of_eq (rank_tail o a).symm
    obtain ⟨rfl, rfl⟩ := h h' (List.append_cancel_left heq) (hr.mono hrank) (hr'.mono hrank)
    exact ⟨rfl, rfl⟩

/-- The sign of an operator goes on with its operands. -/
theorem not_ends_tail {rest : List Token} : ¬ Ends (.tail o a) (.combining o :: rest) := by
  apply not_ends_cons
  exact Nat.le_of_eq ((rank_tail o a).trans (rank_combining o).symm)

theorem noOperand : Only (.tail o a) [] a := by
  intro ts' rest rest' m' h' heq hr _
  cases h' with
  | noOperand => exact ⟨rfl, rfl⟩
  | operand =>
    rw [show rest = _ from heq, List.cons_append] at hr
    exact absurd hr not_ends_tail

theorem operand (hm : Derives (.tail o (.combined o a b)) us m) (hb : Only (operandOf o) ts b)
    (h : Only (.tail o (.combined o a b)) us m) :
    Only (.tail o a) (.combining o :: (ts ++ us)) m := by
  intro ts' rest rest' m' h' heq hr hr'
  cases h' with
  | noOperand =>
    rw [show rest' = _ from heq.symm, List.cons_append] at hr'
    exact absurd hr' not_ends_tail
  | @operand _ vs ws _ b' m' hb' h' =>
    have heq : ts ++ (us ++ rest) = vs ++ (ws ++ rest') := by simpa using heq
    have hlevel : (Phrase.tail o a).rank ≤ (Phrase.level o).rank := Nat.le_of_eq (rank_tail o a)
    obtain ⟨rfl, rfl⟩ := hb hb' heq (hm.tail_ends (hr.mono hlevel)) (h'.tail_ends (hr'.mono hlevel))
    have htail : (Phrase.tail o a).rank ≤ (Phrase.tail o (.combined o a b)).rank :=
      Nat.le_of_eq ((rank_tail o a).trans (rank_tail o _).symm)
    obtain ⟨rfl, rfl⟩ := h h' (List.append_cancel_left heq) (hr.mono htail) (hr'.mono htail)
    exact ⟨rfl, rfl⟩

/-! #### Comparisons -/

theorem ends_comparison {c : Operator} (hc : c ∈ Expression.comparisons) (rest : List Token) :
    Ends (.level .or) (.plain (.operator c) :: rest) := by
  rw [Ends.cons_iff, rank_comparison hc]
  decide

theorem not_ends_comparison {c : Operator} (hc : c ∈ Expression.comparisons) {rest : List Token} :
    ¬ Ends .mask (.plain (.operator c) :: rest) :=
  not_ends_cons (Nat.le_of_eq (rank_comparison hc).symm)

theorem uncompared (h : Only (.level .or) ts m) : Only .mask ts m := by
  intro ts' rest rest' m' h' heq hr hr'
  cases h' with
  | uncompared h' => exact h h' heq (hr.mono (by decide)) (hr'.mono (by decide))
  | @compared c us vs a b hc ha _ =>
    have heq : ts ++ rest = us ++ .plain (.operator c) :: (vs ++ rest') := by simpa using heq
    obtain ⟨rfl, rfl⟩ := h ha heq (hr.mono (by decide)) (ends_comparison hc _)
    rw [List.append_cancel_left heq] at hr
    exact absurd hr (not_ends_comparison hc)

theorem compared {c : Operator} (hc : c ∈ Expression.comparisons) (ha : Only (.level .or) ts a)
    (hb : Only (.level .or) us b) :
    Only .mask (ts ++ .plain (.operator c) :: us) (.compared c a b) := by
  intro ts' rest rest' m' h' heq hr hr'
  cases h' with
  | uncompared h' =>
    have heq : ts ++ .plain (.operator c) :: (us ++ rest) = ts' ++ rest' := by simpa using heq
    obtain ⟨rfl, rfl⟩ := ha h' heq (ends_comparison hc _) (hr'.mono (by decide))
    rw [← List.append_cancel_left heq] at hr'
    exact absurd hr' (not_ends_comparison hc)
  | @compared c' vs ws a' b' hc' ha' hb' =>
    have heq : ts ++ .plain (.operator c) :: (us ++ rest)
        = vs ++ .plain (.operator c') :: (ws ++ rest') := by simpa using heq
    obtain ⟨rfl, rfl⟩ := ha ha' heq (ends_comparison hc _) (ends_comparison hc' _)
    have hsame : c = c' ∧ us ++ rest = ws ++ rest' := by simpa using heq
    obtain ⟨rfl, htail⟩ := hsame
    obtain ⟨rfl, rfl⟩ := hb hb' htail (hr.mono (by decide)) (hr'.mono (by decide))
    exact ⟨rfl, rfl⟩

end Only

/-- The grammar is unambiguous, also for phrases at the head of more tokens. -/
theorem Derives.unique {p : Phrase} {ts : List Token} {m : Tree} (h : Derives p ts m) :
    Only p ts m := by
  induction h with
  | plain he ht => exact Only.plain he ht
  | complement _ ih => exact ih.complement
  | bracketed _ ih => exact ih.bracketed
  | level _ hm iha ih => exact Only.level hm iha ih
  | noOperand => exact Only.noOperand
  | operand _ hm ihb ih => exact Only.operand hm ihb ih
  | uncompared _ ih => exact ih.uncompared
  | compared hc _ _ iha ihb => exact Only.compared hc iha ihb

/-- A text is the text of one mask at most. -/
theorem Reads.unique {s : String} {m m' : Tree} (h : Reads s m) (h' : Reads s m') : m = m' := by
  obtain ⟨ts, hts, hd⟩ := h
  obtain ⟨ts', hts', hd'⟩ := h'
  rw [hts] at hts'
  cases hts'
  have hend : Ends .mask [] := nofun
  have hsame : ts ++ [] = ts ++ [] := rfl
  exact (hd.unique hd' hsame hend hend).2

end SheetScript.Mask
