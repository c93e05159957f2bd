import SheetScript.Table.Frame

/-!
# Names in expressions

  In an expression over a table `*` stands for every column, and a name that starts with `^` and
  ends with `$` for the columns whose headers match it as a regular expression.  Any other name
  stands for the column with that header.

  An expression with such a name is read once for each column that the name stands for, so that
  it may turn into several expressions or into none.  It may have one of these names only.

  Of regular expressions, characters, sets of them, groups, alternatives, repetitions and anchors
  are known here.  Classes of characters by their properties, flags and word boundaries are not,
  and count as unreadable.
-/

namespace SheetScript

/-! ### Patterns -/

/-- Some characters, given by ranges. -/
structure CharSet where
  ranges : List (Char × Char)
  /-- The characters outside the ranges are meant. -/
  isComplement : Bool := false
  deriving DecidableEq, Repr

/-- Whether a character is in a set. -/
def CharSet.has (s : CharSet) (c : Char) : Bool :=
  (s.ranges.any fun r => r.1 ≤ c && c ≤ r.2) != s.isComplement

/-- A pattern of texts. -/
inductive Pattern where
  | empty
  | start
  | stop
  | char (s : CharSet)
  | both (p q : Pattern)
  | either (p q : Pattern)
  /-- At least `least` times and at most `most` times, if that is given. -/
  | repeated (p : Pattern) (least : Nat) (most : Option Nat)
  deriving DecidableEq, Repr

namespace Pattern

/-- The places that up to `n` steps lead to. -/
def upTo (step : List Nat → List Nat) : Nat → List Nat → List Nat
  | 0, places => places
  | n + 1, places => (places ++ upTo step n (step places)).eraseDups

/-- The places in a text behind a match that starts at one of the given places. -/
def behind (text : List Char) : Pattern → List Nat → List Nat
  | .empty, places => places
  | .start, places => places.filter fun i => i == 0
  | .stop, places => places.filter fun i => i == text.length
  | .char s, places => places.filterMap fun i =>
    match text[i]? with
    | some c => if s.has c then some (i + 1) else none
    | none => none
  | .both p q, places => behind text q (behind text p places)
  | .either p q, places => (behind text p places ++ behind text q places).eraseDups
  | .repeated p least most, places =>
    let step (places : List Nat) := behind text p places
    -- a repetition that matches something moves on in the text, so its length is enough
    upTo step (most.elim text.length fun m => m - least) (Nat.repeat step least places)

/-- Whether a pattern matches somewhere in a text. -/
def matchesIn (p : Pattern) (text : String) : Bool :=
  !(behind text.toList p (List.range (text.toList.length + 1))).isEmpty

/-! ### Reading patterns -/

/-- The character of an escape: a mark stands for itself. -/
def escaped? : Char → Option Char
  | 'n' => some '\n'
  | 't' => some '\t'
  | 'r' => some '\x0d'
  | c => if c.val < 128 && !c.isAlphanum && !c.isWhitespace then some c else none

/-- The items of a set up to its closing bracket. -/
def setItems? : List Char → Option (List (Char × Char) × List Char)
  | [] => none
  | ']' :: rest => some ([], rest)
  | '[' :: _ => none
  | '\\' :: c :: rest => do
    let c ← escaped? c
    let (items, rest) ← setItems? rest
    some ((c, c) :: items, rest)
  | a :: '-' :: b :: rest =>
    if b = ']' then some ([(a, a), ('-', '-')], rest)
    else if b = '[' || b = '\\' || b < a then none
    else do
      let (items, rest) ← setItems? rest
      some ((a, b) :: items, rest)
  | c :: rest => do
    let (items, rest) ← setItems? rest
    some ((c, c) :: items, rest)

/-- A set behind its opening bracket. -/
def set? : List Char → Option (CharSet × List Char)
  | '^' :: rest => (setItems? rest).bind fun r => if r.1 = [] then none else some (⟨r.1, true⟩, r.2)
  | rest => (setItems? rest).bind fun r => if r.1 = [] then none else some (⟨r.1, false⟩, r.2)

/-- A number at the head of some characters. -/
def count? (cs : List Char) : Option (Nat × List Char) :=
  let digits := cs.takeWhile Char.isDigit
  if digits.isEmpty then none
  else some (digits.foldl (fun n c => 10 * n + Decimal.digitValue c) 0, cs.dropWhile Char.isDigit)

/-- How often the item before is repeated, behind its opening brace. -/
def bounds? (cs : List Char) : Option ((Nat × Option Nat) × List Char) := do
  let (least, rest) ← count? cs
  match rest with
  | '\x7d' :: rest => some ((least, some least), rest)
  | ',' :: '\x7d' :: rest => some ((least, none), rest)
  | ',' :: rest => do
    let (most, rest) ← count? rest
    match rest with
    | '\x7d' :: rest => if most < least then none else some ((least, some most), rest)
    | _ => none
  | _ => none

/-- An item with the marks of repetition behind it.  Which of several matches is preferred does
  not matter. -/
def withMarks : Nat → Pattern → List Char → Option (Pattern × List Char)
  | 0, _, _ => none
  | fuel + 1, p, cs =>
    let lazily (p : Pattern) (rest : List Char) :=
      match rest with
      | '?' :: rest => withMarks fuel p rest
      | rest => withMarks fuel p rest
    match cs with
    | '*' :: rest => lazily (.repeated p 0 none) rest
    | '+' :: rest => lazily (.repeated p 1 none) rest
    | '?' :: rest => lazily (.repeated p 0 (some 1)) rest
    | '\x7b' :: rest => (bounds? rest).bind fun r => lazily (.repeated p r.1.1 r.1.2) r.2
    | rest => some (p, rest)

mutual

/-- Alternatives up to the end or a closing parenthesis; `fuel` bounds the length. -/
def alternatives? : Nat → List Char → Option (Pattern × List Char)
  | 0, _ => none
  | fuel + 1, cs => do
    let (p, rest) ← sequence? fuel cs
    match rest with
    | '|' :: rest => do
      let (q, rest) ← alternatives? fuel rest
      some (.either p q, rest)
    | rest => some (p, rest)

/-- Items one after the other. -/
def sequence? : Nat → List Char → Option (Pattern × List Char)
  | 0, _ => none
  | fuel + 1, cs =>
    match cs with
    | [] | ')' :: _ | '|' :: _ => some (.empty, cs)
    | cs => do
      let (p, rest) ← item? fuel cs
      let (p, rest) ← withMarks (rest.length + 1) p rest
      let (q, rest) ← sequence? fuel rest
      some (.both p q, rest)

/-- One item without marks of repetition. -/
def item? : Nat → List Char → Option (Pattern × List Char)
  | 0, _ => none
  | fuel + 1, cs =>
    match cs with
    | [] => none
    | '^' :: rest => some (.start, rest)
    | '$' :: rest => some (.stop, rest)
    | '.' :: rest => some (.char ⟨[('\n', '\n')], true⟩, rest)
    | '[' :: rest => (set? rest).map fun r => (.char r.1, r.2)
    | '\\' :: c :: rest => (escaped? c).map fun c => (.char ⟨[(c, c)], false⟩, rest)
    | '(' :: '?' :: ':' :: rest | '(' :: rest => do
      let (p, rest) ← alternatives? fuel rest
      match rest with
      | ')' :: rest => some (p, rest)
      | _ => none
    | c :: rest =>
      if c ∈ ['*', '+', '?', '\x7b', '\\'] then none else some (.char ⟨[(c, c)], false⟩, rest)

end

/-- The pattern of a text, if it can be read. -/
def ofText? (s : String) : Option Pattern :=
  match alternatives? (3 * s.toList.length + 3) s.toList with
  | some (p, []) => some p
  | _ => none

end Pattern

/-! ### Names -/

/-- Whether a name in an expression does not just stand for the column with that header. -/
def isPattern (name : Header) : Bool :=
  name == "*" || (name.toList.head? == some '^' && name.toList.getLast? == some '$')

namespace Frame

/-- The readings of an expression with some names: in each of them every name stands for one
  column. -/
def readings (f : Frame) (names : List Header) : Except Fault (List (Header → Header)) :=
  if "*" ∈ names then .ok (f.headers.map fun h => fun name => if name = "*" then h else name)
  else
    match (names.filter isPattern).eraseDups with
    | [] => .ok [id]
    | [pattern] =>
      match Pattern.ofText? pattern with
      | none => .error (.ofTable .compute)
      | some p =>
        .ok ((f.headers.filter p.matchesIn).map fun h => fun name =>
          if name = pattern then h else name)
    | _ => .error (.ofTable .compute)

/-- The headers that a name stands for. -/
def named (f : Frame) (name : Header) : Except Fault (List Header) := do
  pure ((← f.readings [name]).map fun r => r name)

/-- The headers that some names stand for, one after the other. -/
def namedAll (f : Frame) (names : List Header) : Except Fault (List Header) := do
  pure (← names.mapM f.named).flatten

/-- The headers that some names of one expression stand for, which may have one reading only. -/
def namedOnce (f : Frame) (names : List Header) : Except Fault (List Header) := do
  match ← f.readings names with
  | [r] => pure (names.map r)
  | _ => throw (.ofTable .compute)

/-- The columns that a name stands for, under another header. -/
def namedAs (f : Frame) (name header : Header) : Except Fault (List Column) := do
  (← f.named name).mapM fun h => do pure { ← f.column h with header }

/-- The frame with some columns in place of those with their headers or at the right end; no
  header may be among them twice. -/
def withColumns (f : Frame) (columns : List Column) : Except Fault Frame :=
  if (columns.map Column.header).eraseDups.length = columns.length then
    .ok (columns.foldl withColumn f)
  else .error (.ofTable .compute)

/-- A frame of some columns, unless a header stands for two of them. -/
def distinct (columns : List Column) (height : Nat) : Except Fault Frame :=
  let headers := columns.map Column.header
  if headers.eraseDups.length = headers.length then .ok ⟨columns, height⟩
  else .error (.ofTable .duplicate)

/-- The frame of the columns that some names stand for, each under its new header. -/
def selectAs (f : Frame) (names : List (Header × Header)) : Except Fault Frame := do
  distinct (← names.mapM fun n => f.namedAs n.1 n.2).flatten f.height

/-- The frame of the columns that some names stand for. -/
def selectNamed (f : Frame) (names : List Header) : Except Fault Frame := do
  distinct (← (← f.namedAll names).mapM f.column) f.height

end Frame

end SheetScript
