import SheetScript.Formula.Parser

/-! # The grammar of formulas

  Which tokens write which formula over a list of headers.  An operator has a strength: comparisons
  have the least, then come `&`, sums, products and powers; signs bind more than any of them.  What
  an operator combines binds at least as much as it does at its left and more at its right, so that
  operators of one strength group to the left; with powers it is the other way around.

  At the end of a formula closing brackets may be missing, as many as are open there.

  Main statements: a phrase closes the brackets that it opens (`Derives.openBehind_eq`), so that
  the brackets that complete a list of tokens are as many as are open behind it
  (`eq_unclosed_of_derives`).
-/

namespace SheetScript

/-- How much an operator binds. -/
def Operator.strength : Operator → Nat
  | .equal | .notEqual | .less | .greater | .lessOrEqual | .greaterOrEqual => 0
  | .join => 1
  | .add | .subtract => 2
  | .multiply | .divide => 3
  | .power => 4

namespace Formula

/-- How much the operators of a level bind. -/
def Level.strength : Level → Nat
  | .comparison => 0
  | .joining => 1
  | .sum => 2
  | .product => 3

theorem Level.strength_le (l : Level) : l.strength ≤ 3 := by cases l <;> decide

theorem mem_operators_iff {l : Level} {o : Operator} :
    o ∈ l.operators ↔ o.strength = l.strength := by
  cases l <;> cases o <;> decide

theorem strength_of_next {l tighter : Level} (h : l.next = some tighter) :
    tighter.strength = l.strength + 1 := by
  cases l <;> cases h <;> rfl

theorem strength_of_next_eq_none {l : Level} (h : l.next = none) : l.strength = 3 := by
  cases l <;> cases h
  rfl

/-! ### Derivations -/

/-- Whether a function can be called with some arguments: it takes that many, and it rounds to a
  whole number of digits that is given as a number. -/
def Callable (f : Function) (args : List Formula) : Prop :=
  f.accepts args.length = true ∧
    (f = .round → ∀ digits ∈ args[1]?, ∃ x, digits = .number x ∧ 0 ≤ x ∧ Decimal.isWhole x = true)

/-- The tokens of a phrase that binds with at least some strength, and the formula that they write.
  A phrase of strength 5 has signs at most in front of it, one of strength 6 has none. -/
inductive Derives (headers : List Header) : Nat → List Token → Formula → Prop where
  | number (x : Float) : Derives headers 6 [.number x] (.number x)
  | text (s : String) : Derives headers 6 [.text s] (.text s)
  | quotedColumn {h} : h ∈ headers → Derives headers 6 [.quotedName h] (.column h)
  | column {h} : h ∈ headers → Derives headers 6 [.name h] (.column h)
  /-- A name that is no header can stand for a truth value. -/
  | truth {s} (b : Bool) : s ∉ headers → Function.capitals s = (if b then "TRUE" else "FALSE") →
      Derives headers 6 [.name s] (.bool b)
  | bracketed {ts e} : Derives headers 0 ts e → Derives headers 6 (.opening :: (ts ++ [.closing])) e
  /-- The arguments stand between commas. -/
  | call {s f} (args : List (List Token × Formula)) : Function.ofName? s = some f →
      (∀ a ∈ args, Derives headers 0 a.1 a.2) → Callable f (args.map Prod.snd) →
      Derives headers 6
        (.name s :: .opening :: ([Token.comma].intercalate (args.map Prod.fst) ++ [.closing]))
        (.call f (args.map Prod.snd))
  | negated {ts e} : Derives headers 5 ts e →
      Derives headers 5 (.operator .subtract :: ts) (.negate e)
  | signed {ts e} : Derives headers 5 ts e → Derives headers 5 (.operator .add :: ts) e
  | power {ts us a b} : Derives headers 5 ts a → Derives headers 4 us b →
      Derives headers 4 (ts ++ .operator .power :: us) (.binary .power a b)
  | binary {o ts us a b} : o ≠ .power → Derives headers o.strength ts a →
      Derives headers (o.strength + 1) us b →
      Derives headers o.strength (ts ++ .operator o :: us) (.binary o a b)
  | weaken {k ts e} : Derives headers (k + 1) ts e → Derives headers k ts e

/-! ### Open brackets -/

/-- The number of brackets that are open behind a token.  A closing bracket that closes none is of
  no account. -/
def Token.openBehind (n : Nat) : Token → Nat
  | .opening => n + 1
  | .closing => n - 1
  | _ => n

/-- The number of brackets that are open behind some tokens, with `n` open in front of them. -/
def openBehind (n : Nat) (ts : List Token) : Nat := ts.foldl Token.openBehind n

/-- The number of opening brackets that are not closed. -/
def unclosed (ts : List Token) : Nat := openBehind 0 ts

variable {headers : List Header} {k n : Nat} {ts us mid rest zs : List Token} {e : Formula}
  {t : Token}

theorem openBehind_cons (n : Nat) (t : Token) (ts : List Token) :
    openBehind n (t :: ts) = openBehind (t.openBehind n) ts := rfl

theorem openBehind_append (n : Nat) (ts us : List Token) :
    openBehind n (ts ++ us) = openBehind (openBehind n ts) us := List.foldl_append

theorem openBehind_closings (n k : Nat) :
    openBehind n (List.replicate k .closing) = n - k := by
  induction k generalizing n with
  | zero => rfl
  | succ k ih =>
    rw [List.replicate_succ, openBehind_cons, ih, Token.openBehind]
    omega

/-- One more bracket in front is at most one more behind. -/
theorem openBehind_succ_le (n : Nat) (ts : List Token) :
    openBehind (n + 1) ts ≤ openBehind n ts + 1 := by
  induction ts generalizing n with
  | nil => exact Nat.le_refl _
  | cons t ts ih =>
    rw [openBehind_cons, openBehind_cons]
    cases t with
    | opening => exact ih (n + 1)
    | closing =>
      cases n with
      | zero => exact Nat.le_succ _
      | succ n => exact ih n
    | _ => exact ih n

theorem openBehind_intercalate {parts : List (List Token)}
    (h : ∀ ts ∈ parts, openBehind n ts = n) :
    openBehind n ([Token.comma].intercalate parts) = n := by
  induction parts with
  | nil => rfl
  | cons ts parts ih =>
    rw [List.forall_mem_cons] at h
    cases parts with
    | nil =>
      rw [List.intercalate_singleton]
      exact h.1
    | cons us parts =>
      rw [List.intercalate_cons_cons, openBehind_append, openBehind_append, h.1]
      exact ih h.2

/-- A phrase closes the brackets that it opens, and no others. -/
theorem Derives.openBehind_eq (h : Derives headers k ts e) (n : Nat) : openBehind n ts = n := by
  induction h generalizing n with
  | number | text | quotedColumn | column | truth => rfl
  | bracketed _ ih =>
    rw [openBehind_cons, openBehind_append, ih]
    rfl
  | call args _ _ _ ih =>
    have hargs : ∀ ts ∈ args.map Prod.fst, openBehind (n + 1) ts = n + 1 := by
      intro ts hts
      obtain ⟨a, ha, rfl⟩ := List.mem_map.mp hts
      exact ih a ha (n + 1)
    rw [openBehind_cons, openBehind_cons, openBehind_append]
    exact congrArg (· - 1) (openBehind_intercalate hargs)
  | negated _ ih | signed _ ih => exact ih n
  | power _ _ iha ihb | binary _ _ _ iha ihb =>
    rw [openBehind_append, iha, openBehind_cons]
    exact ihb n
  | weaken _ ih => exact ih n

/-- The closing brackets that complete some tokens are as many as are open behind them. -/
theorem eq_unclosed_of_derives (h : Derives headers k (ts ++ List.replicate n .closing) e) :
    n = unclosed ts := by
  have hnone := h.openBehind_eq 0
  have hone := h.openBehind_eq 1
  rw [openBehind_append, openBehind_closings] at hnone hone
  have hle : openBehind 1 ts ≤ openBehind 0 ts + 1 := openBehind_succ_le 0 ts
  unfold unclosed
  omega

/-! ### Tokens in front of a rest -/

/-- The tokens `zs` stand in front of `rest` in `ts`, where closing brackets may be missing at the
  end of `ts`. -/
inductive Supplied : List Token → List Token → List Token → Prop where
  | nil (ts : List Token) : Supplied [] ts ts
  | token (t : Token) {zs ts rest : List Token} :
    Supplied zs ts rest → Supplied (t :: zs) (t :: ts) rest
  | missing {zs : List Token} : Supplied zs [] [] → Supplied (.closing :: zs) [] []

theorem Supplied.append (h : Supplied zs ts mid) (hmid : Supplied us mid rest) :
    Supplied (zs ++ us) ts rest := by
  induction h with
  | nil => exact hmid
  | token t _ ih => exact .token t (ih hmid)
  | missing _ ih =>
    have hrest := ih hmid
    cases hmid with
    | nil => exact .missing hrest
    | missing => exact .missing hrest

theorem Supplied.split (h : Supplied (zs ++ us) ts rest) :
    ∃ mid, Supplied zs ts mid ∧ Supplied us mid rest := by
  induction zs generalizing ts with
  | nil => exact ⟨ts, .nil ts, h⟩
  | cons z zs ih =>
    cases h with
    | token _ h =>
      obtain ⟨mid, hzs, hus⟩ := ih h
      exact ⟨mid, .token z hzs, hus⟩
    | missing h =>
      obtain ⟨mid, hzs, hus⟩ := ih h
      cases hzs with
      | nil => exact ⟨[], .missing (.nil []), hus⟩
      | missing hzs => exact ⟨[], .missing (.missing hzs), hus⟩

/-- A token that is no closing bracket is not supplied where it is missing. -/
theorem Supplied.of_cons (h : Supplied (t :: zs) ts rest) (ht : t ≠ .closing) :
    ∃ us, ts = t :: us ∧ Supplied zs us rest := by
  cases h with
  | token _ h => exact ⟨_, rfl, h⟩
  | missing => exact absurd rfl ht

theorem supplied_nil_iff : Supplied zs ts [] ↔ ∃ n, zs = ts ++ List.replicate n .closing := by
  constructor
  · intro h
    generalize hrest : [] = rest at h
    induction h with
    | nil => exact ⟨0, by simp [← hrest]⟩
    | token t _ ih =>
      obtain ⟨n, rfl⟩ := ih hrest
      exact ⟨n, rfl⟩
    | missing _ ih =>
      obtain ⟨n, rfl⟩ := ih hrest
      exact ⟨n + 1, rfl⟩
  · rintro ⟨n, rfl⟩
    induction ts with
    | nil =>
      induction n with
      | zero => exact .nil []
      | succ n ih => exact .missing ih
    | cons t ts ih => exact .token t ih

/-- What the reader of a closing bracket takes. -/
theorem close_eq_ok_iff : close ts = .ok rest ↔ Supplied [.closing] ts rest := by
  constructor
  · intro h
    unfold close at h
    split at h
    · cases h
      exact .missing (.nil [])
    · cases h
      exact .token _ (.nil _)
    · cases h
  · intro h
    cases h with
    | token _ h =>
      cases h
      rfl
    | missing => rfl

end Formula

end SheetScript
