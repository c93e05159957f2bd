import SheetScript.Formula.Code
import SheetScript.Naming

/-!
# Tokens of script expressions

  How an expression of the generated script is cut into words and signs.  The
  cutter is a machine that takes one character at a time; a token is complete
  when the next character cannot belong to it.  What the script language knows
  beyond its use in formulas is refused: names of other letters, numbers with
  exponents, texts in double quotes.

  Main statements: a text that leaves the machine between two tokens can be
  followed by anything (`Cuts.append`), and every text by a blank, a comma or a
  closing bracket (`Cuts.append_stop`).
-/

namespace SheetScript.Expression

/-- A token of an expression. -/
inductive Token where
  | name (s : String)
  /-- One of the words `None`, `True` and `False`. -/
  | constant (s : String)
  | number (digits : String)
  | text (s : String)
  /-- The name of an argument, with its equals sign. -/
  | argumentName (s : String)
  | operator (o : Operator)
  | opening
  | closing
  | openingIndex
  | closingIndex
  | comma
  | dot
  | ifWord
  | elseWord
  deriving DecidableEq, Repr

/-- What was read of a token that may go on. -/
inductive State where
  | blank
  | word (w : List Char)
  /-- A word and one equals sign. -/
  | assigned (w : List Char)
  | digits (w : List Char)
  /-- Digits and a point, which a digit has to follow. -/
  | point (w : List Char)
  | fraction (w : List Char)
  | quoted (s : List Char)
  /-- A quoted text up to a backslash. -/
  | escaped (s : List Char)
  /-- The first character of a sign that can have two. -/
  | sign (c : Char)
  deriving DecidableEq, Repr

/-- The words that stand for a value. -/
def constants : List String := ["None", "True", "False"]

/-- The token of a word; keywords without a use in expressions are none. -/
def wordToken? (w : List Char) : Option Token :=
  let s := String.ofList w
  if s = "if" then some .ifWord
  else if s = "else" then some .elseWord
  else if s ∈ constants then some (.constant s)
  else if s ∈ Naming.keywords then none
  else some (.name s)

/-- The token of a word with an equals sign. -/
def argumentToken? (w : List Char) : Option Token :=
  let s := String.ofList w
  if s ∈ Naming.keywords then none else some (.argumentName s)

/-- The token of a run of digits: only zero starts with one. -/
def integerToken? (w : List Char) : Option Token :=
  if w.head? = some '0' ∧ ¬ w.all (· == '0') then none else some (.number (String.ofList w))

/-- The token of a sign of one character, if it can be one. -/
def signToken? (c : Char) : Option Token :=
  match c with
  | '*' => some (.operator .multiply)
  | '<' => some (.operator .less)
  | '>' => some (.operator .greater)
  | _ => none

/-- The token of a sign of two characters. -/
def doubleToken? (c d : Char) : Option Token :=
  match c, d with
  | '*', '*' => some (.operator .power)
  | '=', '=' => some (.operator .equal)
  | '!', '=' => some (.operator .notEqual)
  | '<', '=' => some (.operator .lessOrEqual)
  | '>', '=' => some (.operator .greaterOrEqual)
  | _, _ => none

/-- The character that a backslash and `c` stand for in a quoted text. -/
def unescape? (c : Char) : Option Char :=
  match c with
  | '\\' => some '\\'
  | '\'' => some '\''
  | 'n' => some '\n'
  | 't' => some '\t'
  | 'r' => some '\x0d'
  | _ => none

namespace State

/-- The machine after a character that starts a token, or is one. -/
def start (c : Char) : Option (List Token × State) :=
  match c with
  | ' ' => some ([], .blank)
  | '(' => some ([.opening], .blank)
  | ')' => some ([.closing], .blank)
  | '[' => some ([.openingIndex], .blank)
  | ']' => some ([.closingIndex], .blank)
  | ',' => some ([.comma], .blank)
  | '.' => some ([.dot], .blank)
  | '+' => some ([.operator .add], .blank)
  | '-' => some ([.operator .subtract], .blank)
  | '/' => some ([.operator .divide], .blank)
  | '\'' => some ([], .quoted [])
  | _ =>
    if c ∈ ['*', '=', '!', '<', '>'] then some ([], .sign c)
    else if Naming.isNameStart c then some ([], .word [c])
    else if Decimal.isDigit c then some ([], .digits [c])
    else none

/-- A complete token, and a character behind it. -/
def complete (t : Option Token) (c : Char) : Option (List Token × State) := do
  let t ← t
  let (ts, s) ← start c
  return (t :: ts, s)

/-- The machine after one more character, and the tokens that it completes. -/
def step (s : State) (c : Char) : Option (List Token × State) :=
  match s with
  | .blank => start c
  | .word w =>
    if Naming.isNamePart c then some ([], .word (w ++ [c]))
    else if c = '=' then some ([], .assigned w)
    else if c = '\'' then none
    else complete (wordToken? w) c
  | .assigned w =>
    if c = '=' then (wordToken? w).map fun t => ([t, .operator .equal], .blank)
    else complete (argumentToken? w) c
  | .digits w =>
    if Decimal.isDigit c then some ([], .digits (w ++ [c]))
    else if c = '.' then some ([], .point (w ++ [c]))
    else if Naming.isNamePart c then none
    else complete (integerToken? w) c
  | .point w => if Decimal.isDigit c then some ([], .fraction (w ++ [c])) else none
  | .fraction w =>
    if Decimal.isDigit c then some ([], .fraction (w ++ [c]))
    else if c = '.' ∨ Naming.isNamePart c then none
    else complete (some (.number (String.ofList w))) c
  | .quoted s =>
    if c = '\'' then some ([.text (String.ofList s)], .blank)
    else if c = '\\' then some ([], .escaped s)
    else if c = '\n' ∨ c = '\x0d' then none
    else some ([], .quoted (s ++ [c]))
  | .escaped s => (unescape? c).map fun d => ([], .quoted (s ++ [d]))
  | .sign d =>
    match doubleToken? d c with
    | some t => some ([t], .blank)
    | none => complete (signToken? d) c

/-- The token that the end of the text completes, if one is open. -/
def finish (s : State) : Option (List Token) :=
  match s with
  | .blank => some []
  | .word w => (wordToken? w).map ([·])
  | .digits w => (integerToken? w).map ([·])
  | .fraction w => some [.number (String.ofList w)]
  | .sign c => (signToken? c).map ([·])
  | _ => none

/-- The machine after some characters. -/
def feed (s : State) : List Char → Option (List Token × State)
  | [] => some ([], s)
  | c :: rest => do
    let (ts, s) ← s.step c
    let (more, s) ← feed s rest
    return (ts ++ more, s)

end State

/-- The tokens of an expression. -/
def tokens? (s : String) : Option (List Token) := do
  let (ts, s) ← State.blank.feed s.toList
  let last ← s.finish
  return ts ++ last

example : tokens? "a.b(x, n=10) ** -2.5" = some
    [.name "a", .dot, .name "b", .opening, .name "x", .comma, .argumentName "n", .number "10",
     .closing, .operator .power, .operator .subtract, .number "2.5"] := by decide

/-! ### Texts behind each other -/

namespace State

theorem feed_append (s : State) (a b : List Char) :
    s.feed (a ++ b) = (s.feed a).bind fun r => (r.2.feed b).map fun r' => (r.1 ++ r'.1, r'.2) := by
  induction a generalizing s with
  | nil => simp [feed]
  | cons c rest ih =>
    simp only [List.cons_append, feed, Option.bind_eq_bind]
    cases s.step c with
    | none => rfl
    | some r =>
      simp only [Option.bind_some, ih]
      cases r.2.feed rest with
      | none => rfl
      | some r' => cases h : r'.2.feed b <;> simp [h]

/-- The characters before which every token is complete. -/
def stops : List Char := [' ', ')', ',']

/-- Whether a text starts with a stop. -/
def startsWithStop (s : String) : Bool := s.toList.head?.any (· ∈ stops)

/-- Before a stop an open token is completed as at the end of the text. -/
theorem step_of_finish {s : State} {last : List Token} {c : Char} (h : s.finish = some last)
    (hc : c ∈ stops) : s.step c = (start c).map fun r => (last ++ r.1, r.2) := by
  have hpart : Naming.isNamePart c = false ∧ Decimal.isDigit c = false ∧ c ≠ '=' ∧ c ≠ '\'' ∧
      c ≠ '.' := by
    simp only [stops, List.mem_cons, List.not_mem_nil, or_false] at hc
    rcases hc with rfl | rfl | rfl <;> decide
  obtain ⟨hname, hdigit, heq, hquote, hpoint⟩ := hpart
  have hcomplete (t : Option Token) (ht : t.map ([·]) = some last) :
      complete t c = (start c).map fun r => (last ++ r.1, r.2) := by
    cases t with
    | none => cases ht
    | some t =>
      cases ht
      cases hs : start c <;> simp [complete, hs]
  cases s with
  | blank => cases h; cases hs : start c <;> simp [step, hs]
  | word w => simpa [step, hname, heq, hquote] using hcomplete _ h
  | digits w => simpa [step, hname, hdigit, hpoint] using hcomplete _ h
  | fraction w =>
    have hnumber := hcomplete (some (.number (String.ofList w))) h
    simpa [step, hname, hdigit, hpoint] using hnumber
  | sign d =>
    have hdouble : doubleToken? d c = none := by
      unfold doubleToken?
      split <;> simp_all [stops]
    simpa [step, hdouble] using hcomplete _ h
  | assigned w | point w | quoted w | escaped w => cases h

end State

theorem tokens?_eq_some_iff {s : String} {ts : List Token} :
    tokens? s = some ts ↔ ∃ us s' last, State.blank.feed s.toList = some (us, s') ∧
      s'.finish = some last ∧ us ++ last = ts := by
  constructor
  · intro h
    simp only [tokens?, Option.bind_eq_bind, Option.bind_eq_some_iff] at h
    obtain ⟨⟨us, s'⟩, hfeed, last, hlast, heq⟩ := h
    exact ⟨us, s', last, hfeed, hlast, by simpa using heq⟩
  · rintro ⟨us, s', last, hfeed, hlast, rfl⟩
    simp [tokens?, hfeed, hlast]

/-- A text is cut into the given tokens; a firm one leaves no token open. -/
structure Cuts (firm : Bool) (s : String) (ts : List Token) : Prop where
  tokens : tokens? s = some ts
  feed : firm = true → State.blank.feed s.toList = some (ts, .blank)

namespace Cuts

variable {a b : String} {ts us : List Token} {f g : Bool}

theorem of_feed (h : State.blank.feed a.toList = some (ts, .blank)) : Cuts f a ts where
  tokens := tokens?_eq_some_iff.2 ⟨ts, .blank, [], h, rfl, by simp⟩
  feed := fun _ => h

theorem of_tokens (h : tokens? a = some ts) : Cuts false a ts := ⟨h, nofun⟩

theorem loose (h : Cuts f a ts) : Cuts false a ts := of_tokens h.tokens

/-- Nothing is open before what follows a firm text. -/
theorem append (ha : Cuts true a ts) (hb : Cuts g b us) : Cuts g (a ++ b) (ts ++ us) := by
  have hfeed := ha.feed rfl
  constructor
  · obtain ⟨vs, s, last, hv, hs, rfl⟩ := tokens?_eq_some_iff.1 hb.tokens
    refine tokens?_eq_some_iff.2 ⟨ts ++ vs, s, last, ?_, hs, by simp⟩
    simp [State.feed_append, hfeed, hv]
  · intro hg
    simp [State.feed_append, hfeed, hb.feed hg]

/-- A text leaves the token `last` open, and what follows starts with a character
  that completes it. -/
theorem append_open {s : State} {last : List Token}
    (ha : State.blank.feed a.toList = some (ts, s)) (hb : Cuts g b us)
    (hopen : ∃ c ∈ b.toList.head?, s.step c = (State.start c).map fun r => (last ++ r.1, r.2)) :
    Cuts g (a ++ b) (ts ++ (last ++ us)) := by
  obtain ⟨c, hc, hstep⟩ := hopen
  obtain ⟨rest, hbc⟩ : ∃ rest, b.toList = c :: rest := List.head?_eq_some_iff.1 hc
  -- behind `a` the machine gives the open token of `a` and then what it gives for `b` alone
  have hfeed : s.feed b.toList = (State.blank.feed b.toList).map fun r => (last ++ r.1, r.2) := by
    have hblank : State.blank.step c = State.start c := rfl
    simp only [hbc, State.feed, hstep, hblank]
    cases State.start c with
    | none => rfl
    | some r => cases hr : r.2.feed rest <;> simp [hr]
  constructor
  · obtain ⟨vs, s', last', hv, hs', rfl⟩ := tokens?_eq_some_iff.1 hb.tokens
    refine tokens?_eq_some_iff.2 ⟨ts ++ (last ++ vs), s', last', ?_, hs', by simp⟩
    simp [State.feed_append, ha, hfeed, hv]
  · intro hg
    simp [State.feed_append, ha, hfeed, hb.feed hg]

/-- A stop completes every token. -/
theorem append_stop (ha : Cuts f a ts) (hb : Cuts g b us)
    (hstop : State.startsWithStop b = true) : Cuts g (a ++ b) (ts ++ us) := by
  obtain ⟨vs, s, last, hfeed, hs, rfl⟩ := tokens?_eq_some_iff.1 ha.tokens
  rw [List.append_assoc]
  apply append_open hfeed hb
  unfold State.startsWithStop at hstop
  cases hhead : b.toList.head? with
  | none => simp [hhead] at hstop
  | some c =>
    have hc : c ∈ State.stops := by simpa [hhead] using hstop
    exact ⟨c, rfl, State.step_of_finish hs hc⟩

end Cuts

end SheetScript.Expression
