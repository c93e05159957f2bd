import SheetScript.Filter.Mask
import SheetScript.Proofs.Expression.Token

/-! # Tokens of masks

  A mask is cut into the tokens of expressions and the signs `~`, `&` and `|`.  The
  cutter is the machine for expressions, with two things more: outside of quotes a sign
  of masks completes the token before it, and a number can have an exponent.

  Main statements: a text is cut as the one of an expression if it can be
  (`Cuts.of_expression`), and brackets around a mask leave no token open
  (`Cuts.bracketed`).
-/

namespace SheetScript.Mask

/-- A token of a mask. -/
inductive Token where
  | plain (t : Expression.Token)
  /-- The sign `~`. -/
  | complement
  /-- One of the signs `&` and `|`. -/
  | combining (o : BoolOperator)
  deriving DecidableEq, Repr

/-- What was read of a token that may go on. -/
inductive State where
  | plain (s : Expression.State)
  /-- A number and the letter of its exponent. -/
  | mark (w : List Char)
  /-- A number up to the sign of its exponent. -/
  | markSign (w : List Char)
  | exponent (w : List Char)
  deriving DecidableEq, Repr

/-- The sign of masks that a character is. -/
def signToken? (c : Char) : Option Token :=
  match c with
  | '~' => some .complement
  | '&' => some (.combining .and)
  | '|' => some (.combining .or)
  | _ => none

namespace State

/-- Whether a quoted text is open. -/
def inText : State → Bool
  | .plain (.quoted _) | .plain (.escaped _) => true
  | _ => false

/-- Tokens and a state of the machine for expressions. -/
def lifted (r : List Expression.Token × Expression.State) : List Token × State :=
  (r.1.map .plain, .plain r.2)

/-- The token that the end of the text completes, if one is open. -/
def finish : State → Option (List Token)
  | .plain s => s.finish.map (·.map .plain)
  | .exponent w => some [.plain (.number (String.ofList w))]
  | _ => none

/-- The machine after a character that is no sign of masks. -/
def goOn (s : State) (c : Char) : Option (List Token × State) :=
  match s with
  | .plain (.digits w) =>
    if c = 'e' then some ([], .mark (w ++ [c])) else ((Expression.State.digits w).step c).map lifted
  | .plain (.fraction w) =>
    if c = 'e' then some ([], .mark (w ++ [c]))
    else ((Expression.State.fraction w).step c).map lifted
  | .plain s => (s.step c).map lifted
  | .mark w =>
    if Decimal.isDigit c then some ([], .exponent (w ++ [c]))
    else if c = '+' ∨ c = '-' then some ([], .markSign (w ++ [c]))
    else none
  | .markSign w => if Decimal.isDigit c then some ([], .exponent (w ++ [c])) else none
  -- behind its digits an exponent ends as a fraction does
  | .exponent w =>
    if Decimal.isDigit c then some ([], .exponent (w ++ [c]))
    else ((Expression.State.fraction w).step c).map lifted

/-- The machine after one more character, and the tokens that it completes. -/
def step (s : State) (c : Char) : Option (List Token × State) :=
  match if s.inText then none else signToken? c with
  | some t => s.finish.map fun last => (last ++ [t], .plain .blank)
  | none => s.goOn c

/-- The machine after some characters. -/
def feed (s : State) : List Char → Option (List Token × State)
  | [] => some ([], s)
  | c :: rest => do
    let (ts, s) ← s.step c
    let (more, s) ← feed s rest
    return (ts ++ more, s)

end State

/-- The tokens of a mask. -/
def tokens? (s : String) : Option (List Token) := do
  let (ts, s) ← (State.plain .blank).feed s.toList
  let last ← s.finish
  return ts ++ last

example : tokens? "~a & (b > 1.5e-7)" = some
    [.complement, .plain (.name "a"), .combining .and, .plain .opening, .plain (.name "b"),
     .plain (.operator .greater), .plain (.number "1.5e-7"), .plain .closing] := by decide

/-! ### Texts of expressions -/

namespace State

/-- Outside of quotes an expression has no sign of masks. -/
theorem signToken?_of_step {s : Expression.State} {c : Char}
    {r : List Expression.Token × Expression.State} (h : s.step c = some r)
    (htext : ¬ (State.plain s).inText = true) : signToken? c = none := by
  apply Decidable.byContradiction
  intro hsign
  have hc : c = '~' ∨ c = '&' ∨ c = '|' := by
    unfold signToken? at hsign
    split at hsign <;> simp_all
  have hstart : Expression.State.start c = none := by
    rcases hc with rfl | rfl | rfl <;> rfl
  have hcomplete (t : Option Expression.Token) : Expression.State.complete t c = none := by
    cases t <;> simp [Expression.State.complete, hstart]
  have hpart : Naming.isNamePart c = false ∧ Decimal.isDigit c = false ∧ c ≠ '=' ∧ c ≠ '.' := by
    rcases hc with rfl | rfl | rfl <;> decide
  obtain ⟨hname, hdigit, hequal, hpoint⟩ := hpart
  have hdouble (d : Char) : Expression.doubleToken? d c = none := by
    unfold Expression.doubleToken?
    split <;> simp_all
  -- a sign of masks goes on with no token, and starts none
  have hnone : s.step c = none := by
    cases s with
    | quoted w | escaped w => exact absurd rfl htext
    | _ => simp [Expression.State.step, *]
  rw [hnone] at h
  cases h

/-- Where the machine for expressions goes on, the machine for masks does the same. -/
theorem step_plain {s : Expression.State} {c : Char}
    {r : List Expression.Token × Expression.State} (h : s.step c = some r) :
    (State.plain s).step c = some (lifted r) := by
  have hletter {w : List Char} (hw : s = .digits w ∨ s = .fraction w) : c ≠ 'e' := by
    rintro rfl
    rcases hw with rfl | rfl <;> cases h
  -- only behind a number the two machines differ, and only for the letter of an exponent
  have hgoOn : (State.plain s).goOn c = some (lifted r) := by
    unfold goOn
    split
    · next w heq =>
      obtain rfl := State.plain.inj heq
      rw [if_neg (hletter (.inl rfl)), h]
      rfl
    · next w heq =>
      obtain rfl := State.plain.inj heq
      rw [if_neg (hletter (.inr rfl)), h]
      rfl
    · next s' _ _ heq =>
      obtain rfl := State.plain.inj heq
      rw [h]
      rfl
    all_goals next heq => cases heq
  unfold step
  by_cases htext : (State.plain s).inText = true
  · rw [if_pos htext]
    exact hgoOn
  · rw [if_neg htext, signToken?_of_step h htext]
    exact hgoOn

theorem feed_plain {s s' : Expression.State} {cs : List Char} {ts : List Expression.Token}
    (h : s.feed cs = some (ts, s')) :
    (State.plain s).feed cs = some (ts.map .plain, .plain s') := by
  induction cs generalizing s ts with
  | nil =>
    cases h
    rfl
  | cons c rest ih =>
    simp only [Expression.State.feed, Option.bind_eq_bind, Option.bind_eq_some_iff] at h
    obtain ⟨⟨us, s₁⟩, hstep, ⟨vs, s₂⟩, hrest, heq⟩ := h
    cases heq
    simp [feed, step_plain hstep, lifted, ih hrest]

theorem feed_append (s : State) (a b : List Char) :
    s.feed (a ++ b) = (s.feed a).bind fun r => (r.2.feed b).map fun r' => (r.1 ++ r'.1, r'.2) := by
  induction a generalizing s with
  | nil => simp [feed]
  | cons c rest ih =>
    simp only [List.cons_append, feed, Option.bind_eq_bind]
    cases s.step c with
    | none => rfl
    | some r =>
      simp only [Option.bind_some, ih]
      cases r.2.feed rest with
      | none => rfl
      | some r' => cases h : r'.2.feed b <;> simp [h]

/-- A closing bracket completes what the end of the text does. -/
theorem step_closing {s : State} {last : List Token} (h : s.finish = some last) :
    s.step ')' = some (last ++ [.plain .closing], .plain .blank) := by
  cases s with
  | plain s =>
    obtain ⟨ts, hts, rfl⟩ := Option.map_eq_some_iff.mp h
    have hstep := Expression.State.step_of_finish hts (by decide : ')' ∈ Expression.State.stops)
    simp [step_plain hstep, lifted]
  | exponent w =>
    cases h
    rfl
  | mark w | markSign w => cases h

end State

/-! ### Texts behind each other -/

theorem tokens?_eq_some_iff {s : String} {ts : List Token} :
    tokens? s = some ts ↔ ∃ us s' last, (State.plain .blank).feed s.toList = some (us, s') ∧
      s'.finish = some last ∧ us ++ last = ts := by
  constructor
  · intro h
    simp only [tokens?, Option.bind_eq_bind, Option.bind_eq_some_iff] at h
    obtain ⟨⟨us, s'⟩, hfeed, last, hlast, heq⟩ := h
    exact ⟨us, s', last, hfeed, hlast, by simpa using heq⟩
  · rintro ⟨us, s', last, hfeed, hlast, rfl⟩
    simp [tokens?, hfeed, hlast]

/-- A text is cut into the given tokens; a firm one leaves no token open. -/
structure Cuts (firm : Bool) (s : String) (ts : List Token) : Prop where
  tokens : tokens? s = some ts
  feed : firm = true → (State.plain .blank).feed s.toList = some (ts, .plain .blank)

namespace Cuts

variable {a b : String} {ts us : List Token} {f g : Bool}

theorem of_feed (h : (State.plain .blank).feed a.toList = some (ts, .plain .blank)) :
    Cuts f a ts where
  tokens := tokens?_eq_some_iff.mpr ⟨ts, _, [], h, rfl, by simp⟩
  feed := fun _ => h

theorem loose (h : Cuts f a ts) : Cuts false a ts := ⟨h.tokens, nofun⟩

/-- An expression is cut alike as a mask. -/
theorem of_expression {ts : List Expression.Token} (h : Expression.Cuts f a ts) :
    Cuts f a (ts.map .plain) := by
  constructor
  · obtain ⟨us, s, last, hfeed, hlast, rfl⟩ := Expression.tokens?_eq_some_iff.mp h.tokens
    refine tokens?_eq_some_iff.mpr ⟨_, _, last.map .plain, State.feed_plain hfeed, ?_, by simp⟩
    simp [State.finish, hlast]
  · intro hf
    exact State.feed_plain (h.feed hf)

/-- Nothing is open before what follows a firm text. -/
theorem append (ha : Cuts true a ts) (hb : Cuts g b us) : Cuts g (a ++ b) (ts ++ us) := by
  have hfeed := ha.feed rfl
  constructor
  · obtain ⟨vs, s, last, hv, hs, rfl⟩ := tokens?_eq_some_iff.mp hb.tokens
    refine tokens?_eq_some_iff.mpr ⟨ts ++ vs, s, last, ?_, hs, by simp⟩
    simp [State.feed_append, hfeed, hv]
  · intro hg
    simp [State.feed_append, hfeed, hb.feed hg]

/-- Brackets around a text complete every token of it. -/
theorem bracketed (h : Cuts f a ts) :
    Cuts g ("(" ++ a ++ ")") (.plain .opening :: (ts ++ [.plain .closing])) := by
  obtain ⟨us, s, last, hfeed, hlast, rfl⟩ := tokens?_eq_some_iff.mp h.tokens
  have hopening : Cuts true "(" [.plain .opening] := of_feed rfl
  have hinner : (State.plain .blank).feed (a ++ ")").toList
      = some (us ++ last ++ [.plain .closing], .plain .blank) := by
    simp [State.feed_append, hfeed, State.feed, State.step_closing hlast]
  have hcuts := hopening.append (of_feed hinner : Cuts g (a ++ ")") _)
  simpa [String.append_assoc] using hcuts

end Cuts

end SheetScript.Mask
