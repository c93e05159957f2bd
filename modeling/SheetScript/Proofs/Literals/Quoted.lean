import SheetScript.Json.Reader
import SheetScript.Literal

/-! # Texts in quotes

  The script reads a literal in quotes up to the next quote of its kind that stands behind no
  backslash.  There is no line break in it, unless a backslash takes it along, and no zero
  character.  Three quotes of one kind open a literal that only three of them close, and that
  may have line breaks.  With the prefix `r` a literal denotes what stands between the quotes;
  without one its escapes are undone.  Line breaks of all kinds are line feeds before anything
  is read.

  A literal is right if its parts are: each character is written so that it neither opens nor
  closes anything and one character is read back (`Undone`).  That a whole text is read back is
  one induction for both kinds of quotes.  Only the empty text has nothing between its quotes:
  with another quote behind them they are the three that open a long literal.

  Main statements: `quoted?_of_undone`, that what is undone part by part is read back, and
  `read?_text`, that a text in single quotes is, whatever code is behind it, unless that code
  makes three quotes of the two of an empty text.
-/

namespace SheetScript.Literal

/-! ### Lines -/

/-- Some code with a line feed for every line break. -/
def unifyLines : List Char → List Char
  | '\x0d' :: '\n' :: rest => '\n' :: unifyLines rest
  | '\x0d' :: rest => '\n' :: unifyLines rest
  | c :: rest => c :: unifyLines rest
  | [] => []

/-- A character that ends a line. -/
def breaksLine (c : Char) : Bool := c == '\n' || c == '\x0d'

/-- A text in one line. -/
def InLine (cs : List Char) : Prop := ∀ c ∈ cs, breaksLine c = false

theorem unifyLines_cons {c : Char} (h : c ≠ '\x0d') (cs : List Char) :
    unifyLines (c :: cs) = c :: unifyLines cs := by
  rw [unifyLines]
  · intro rest hc
    exact absurd hc h
  · intro hc
    exact absurd hc h

/-- A line break is a line feed, alone or with the one behind it. -/
theorem exists_unifyLines {c : Char} (h : breaksLine c = true) (cs : List Char) :
    ∃ rest, unifyLines (c :: cs) = '\n' :: rest := by
  by_cases hc : c = '\x0d'
  · subst hc
    cases cs with
    | nil => exact ⟨[], rfl⟩
    | cons d rest =>
      by_cases hd : d = '\n'
      · subst hd
        exact ⟨unifyLines rest, rfl⟩
      · refine ⟨unifyLines (d :: rest), ?_⟩
        rw [unifyLines]
        intro rest' hrest
        exact absurd (List.cons.inj hrest).1 hd
  · obtain rfl : c = '\n' := by simpa [breaksLine, hc] using h
    exact ⟨unifyLines cs, unifyLines_cons hc cs⟩

theorem unifyLines_append {cs : List Char} (h : '\x0d' ∉ cs) (rest : List Char) :
    unifyLines (cs ++ rest) = cs ++ unifyLines rest := by
  induction cs with
  | nil => rfl
  | cons c cs ih =>
    rw [List.mem_cons, not_or] at h
    rw [List.cons_append, unifyLines_cons (Ne.symm h.1), ih h.2, List.cons_append]

theorem unifyLines_eq {cs : List Char} (h : '\x0d' ∉ cs) : unifyLines cs = cs := by
  have happend := unifyLines_append h []
  rwa [List.append_nil, unifyLines, List.append_nil] at happend

theorem InLine.not_mem {cs : List Char} (h : InLine cs) : '\n' ∉ cs ∧ '\x0d' ∉ cs :=
  ⟨fun hmem => absurd (h _ hmem) (by decide), fun hmem => absurd (h _ hmem) (by decide)⟩

/-- Some code as the script reads it. -/
def unified (code : String) : String := String.ofList (unifyLines code.toList)

/-! ### Reading -/

/-- A character that opens and closes a text. -/
def isQuote (c : Char) : Bool := c == '\'' || c == '"'

/-- What stands before the closing quote, and what behind it.  A backslash takes the next
  character along. -/
def body? (quote : Char) : List Char → Option (List Char × List Char)
  | [] => none
  | '\\' :: c :: rest =>
    if c = '\x00' then none
    else (body? quote rest).map fun r => ('\\' :: c :: r.1, r.2)
  | c :: rest =>
    if c = quote then some ([], rest)
    else if c = '\n' ∨ c = '\x00' then none
    else (body? quote rest).map fun r => (c :: r.1, r.2)

/-- The same for a literal that three quotes close. -/
def longBody? (quote : Char) : List Char → Option (List Char × List Char)
  | [] => none
  | '\\' :: c :: rest =>
    if c = '\x00' then none
    else (longBody? quote rest).map fun r => ('\\' :: c :: r.1, r.2)
  | c :: rest =>
    if c = quote ∧ rest.take 2 = [quote, quote] then some ([], rest.drop 2)
    else if c = '\x00' then none
    else (longBody? quote rest).map fun r => (c :: r.1, r.2)

/-- Whether some code starts with three quotes of one kind, which open a long literal. -/
def opensLong : List Char → Bool
  | a :: b :: c :: _ => isQuote a && a == b && b == c
  | _ => false

/-- What stands between the quotes at the head of some code, and the code behind them. -/
def inside? (cs : List Char) : Option (List Char × List Char) :=
  match cs with
  | [] => none
  | quote :: rest =>
    if opensLong cs then longBody? quote (rest.drop 2)
    else if isQuote quote then body? quote rest
    else none

/-- The character whose number some digits write, if there is one. -/
def numbered? (base : Nat) (digits : List Nat) : Option Char :=
  let n := digits.foldl (fun n d => base * n + d) 0
  if n.isValidChar then some (Char.ofNat n) else none

/-- The character of an escape with a number of hexadecimal digits. -/
def hexEscape? (count : Nat) (cs : List Char) : Option Char :=
  if cs.length < count then none
  else ((cs.take count).mapM Json.hexValue?).bind (numbered? 16)

/-- A digit of an octal number. -/
def isOctal (c : Char) : Bool := '0' ≤ c && c ≤ '7'

/-- What an escape denotes, and how many characters it has behind its backslash.  A backslash
  before any other character is one itself.  The names of characters are not known here. -/
def escape? : List Char → Option (List Char × Nat)
  | [] => none
  | '\n' :: _ => some ([], 1)
  | '\\' :: _ => some (['\\'], 1)
  | '\'' :: _ => some (['\''], 1)
  | '"' :: _ => some (['"'], 1)
  | 'a' :: _ => some (['\x07'], 1)
  | 'b' :: _ => some (['\x08'], 1)
  | 'f' :: _ => some (['\x0c'], 1)
  | 'n' :: _ => some (['\n'], 1)
  | 'r' :: _ => some (['\x0d'], 1)
  | 't' :: _ => some (['\t'], 1)
  | 'v' :: _ => some (['\x0b'], 1)
  | 'x' :: rest => (hexEscape? 2 rest).map fun c => ([c], 3)
  | 'u' :: rest => (hexEscape? 4 rest).map fun c => ([c], 5)
  | 'U' :: rest => (hexEscape? 8 rest).map fun c => ([c], 9)
  | 'N' :: _ => none
  | c :: rest =>
    let digits := ((c :: rest).take 3).takeWhile isOctal
    if digits = [] then some (['\\', c], 1)
    else (numbered? 8 (digits.map Decimal.digitValue)).map fun d => ([d], digits.length)

/-- A text with its escapes undone.  The first `taken` characters belong to an escape. -/
def unescape? : Nat → List Char → Option (List Char)
  | _, [] => some []
  | taken + 1, _ :: cs => unescape? taken cs
  | 0, c :: cs =>
    if c = '\\' then do
      let (text, taken) ← escape? cs
      let more ← unescape? taken cs
      pure (text ++ more)
    else (unescape? 0 cs).map fun more => c :: more

/-- What a literal in quotes at the head of some code denotes, and the code behind it. -/
def quoted? : List Char → Option (List Char × List Char)
  | [] => none
  | c :: rest =>
    if c = 'r' ∨ c = 'R' then inside? rest
    else do
      let (body, rest) ← inside? (c :: rest)
      let cs ← unescape? 0 body
      pure (cs, rest)

/-- The text that a literal at the head of some code denotes, and the code behind it. -/
def read? (code : String) : Option (String × String) :=
  (quoted? (unifyLines code.toList)).map fun r => (String.ofList r.1, String.ofList r.2)

variable {quote c : Char} {cs : List Char} {escape : Char → List Char} {s : String}

@[simp] theorem toList_unified (code : String) : (unified code).toList = unifyLines code.toList :=
  String.toList_ofList

theorem unified_eq (h : '\x0d' ∉ s.toList) : unified s = s := by
  rw [unified, unifyLines_eq h, String.ofList_toList]

theorem read?_eq_some {code after : String} :
    read? code = some (s, after)
      ↔ quoted? (unifyLines code.toList) = some (s.toList, after.toList) := by
  rw [read?, Option.map_eq_some_iff]
  constructor
  · rintro ⟨⟨cs, ds⟩, hread, heq⟩
    obtain ⟨rfl, rfl⟩ := Prod.mk.inj heq
    rw [hread, String.toList_ofList, String.toList_ofList]
  · intro hread
    exact ⟨_, hread, by rw [String.ofList_toList, String.ofList_toList]⟩

/-! ### Characters -/

theorem body?_cons (hslash : c ≠ '\\') (hquote : c ≠ quote) (hline : c ≠ '\n') (hzero : c ≠ '\x00')
    (cs : List Char) : body? quote (c :: cs) = (body? quote cs).map fun r => (c :: r.1, r.2) := by
  rw [body?]
  · rw [if_neg hquote, if_neg (by simp [hline, hzero])]
  · intro d rest hc
    exact absurd hc hslash

theorem body?_slash (hzero : c ≠ '\x00') (cs : List Char) :
    body? quote ('\\' :: c :: cs) = (body? quote cs).map fun r => ('\\' :: c :: r.1, r.2) := by
  rw [body?, if_neg hzero]

theorem body?_quote (h : isQuote quote = true) (cs : List Char) :
    body? quote (quote :: cs) = some ([], cs) := by
  rw [body?]
  · rw [if_pos rfl]
  · intro d rest hc
    subst hc
    exact absurd h (by decide)

theorem body?_line (h : isQuote quote = true) (cs : List Char) : body? quote ('\n' :: cs) = none := by
  have hquote : '\n' ≠ quote := by
    rintro rfl
    exact absurd h (by decide)
  rw [body?]
  · rw [if_neg hquote, if_pos (.inl rfl)]
  · intro d rest hc
    exact absurd hc (by decide)

theorem unescape?_cons (h : c ≠ '\\') (cs : List Char) :
    unescape? 0 (c :: cs) = (unescape? 0 cs).map fun more => c :: more := by
  rw [unescape?, if_neg h]

/-- A character that is written so that it neither opens nor closes anything and is not read
  as another one. -/
structure Undone (quote : Char) (escape : Char → List Char) (c : Char) : Prop where
  head : ∃ d more, escape c = d :: more ∧ d ≠ quote
  body : ∀ cs, body? quote (escape c ++ cs)
    = (body? quote cs).map fun r => (escape c ++ r.1, r.2)
  unescaped : ∀ cs, unescape? 0 (escape c ++ cs) = (unescape? 0 cs).map fun more => c :: more

/-- A character stands for itself. -/
theorem undone_self (hescape : escape c = [c]) (hslash : c ≠ '\\') (hquote : c ≠ quote)
    (hline : c ≠ '\n') (hzero : c ≠ '\x00') : Undone quote escape c where
  head := ⟨c, [], hescape, hquote⟩
  body cs := by
    rw [hescape]
    exact body?_cons hslash hquote hline hzero cs
  unescaped cs := by
    rw [hescape]
    exact unescape?_cons hslash cs

/-- A character stands behind a backslash. -/
theorem undone_slash {e : Char} (hquote : isQuote quote = true) (hescape : escape c = ['\\', e])
    (hmeaning : ∀ cs, escape? (e :: cs) = some ([c], 1)) (hzero : e ≠ '\x00') :
    Undone quote escape c where
  head := by
    refine ⟨'\\', [e], hescape, ?_⟩
    rintro rfl
    exact absurd hquote (by decide)
  body cs := by
    rw [hescape]
    exact body?_slash hzero cs
  unescaped cs := by
    rw [hescape, List.cons_append, List.singleton_append, unescape?, if_pos rfl, hmeaning]
    -- the escape takes one character along
    show (unescape? 0 cs).bind (fun more => some ([c] ++ more)) = _
    cases unescape? 0 cs <;> rfl

/-! ### Quotes -/

/-- A literal opens a long one only if the two characters behind its quote are quotes too. -/
theorem inside?_eq (hquote : isQuote quote = true) (h : cs.take 2 ≠ [quote, quote]) :
    inside? (quote :: cs) = body? quote cs := by
  have hshort : opensLong (quote :: cs) = false := by
    unfold opensLong
    split
    · rename_i a b c rest heq
      obtain ⟨rfl, rfl⟩ := List.cons.inj heq
      rw [Bool.and_assoc, hquote, Bool.true_and, ← Bool.not_eq_true]
      intro hsame
      obtain ⟨hb, hc⟩ : quote = b ∧ b = c := by simpa using hsame
      exact h (by rw [← hc, ← hb]; rfl)
    · rfl
  simp [inside?, hshort, hquote]

theorem inside?_long (h : isQuote quote = true) (cs : List Char) :
    inside? (quote :: quote :: quote :: cs) = longBody? quote cs := by
  simp [inside?, opensLong, h]

/-- Three quotes take up at least three characters. -/
theorem length_of_longBody? {r : List Char × List Char} (h : longBody? quote cs = some r) :
    r.2.length + 3 ≤ cs.length := by
  induction cs using longBody?.induct quote generalizing r with
  | case1 => simp [longBody?] at h
  | case2 rest => simp [longBody?] at h
  | case3 c rest hzero ih =>
    rw [longBody?, if_neg hzero, Option.map_eq_some_iff] at h
    obtain ⟨r', hr', rfl⟩ := h
    have hlength := ih hr'
    simp only [List.length_cons]
    omega
  | case4 c rest hpair hclose =>
    rw [longBody?, if_pos hclose] at h
    · obtain rfl := Option.some.inj h
      have htwo := congrArg List.length hclose.2
      simp only [List.length_take, List.length_cons, List.length_nil] at htwo
      simp only [List.length_drop, List.length_cons]
      omega
    · exact hpair
  | case5 rest hpair hclose =>
    rw [longBody?, if_neg hclose, if_pos rfl] at h
    · cases h
    · exact hpair
  | case6 c rest hpair hclose hzero ih =>
    rw [longBody?, if_neg hclose, if_neg hzero, Option.map_eq_some_iff] at h
    · obtain ⟨r', hr', rfl⟩ := h
      have hlength := ih hr'
      simp only [List.length_cons]
      omega
    · exact hpair

theorem quoted?_eq_some (h : isQuote quote = true) {rest : List Char} {r : List Char × List Char} :
    quoted? (quote :: rest) = some r
      ↔ ∃ body, inside? (quote :: rest) = some (body, r.2) ∧ unescape? 0 body = some r.1 := by
  have hraw : ¬ (quote = 'r' ∨ quote = 'R') := by
    rintro (rfl | rfl) <;> exact absurd h (by decide)
  rw [quoted?, if_neg hraw]
  simp only [Option.bind_eq_bind, Option.bind_eq_some_iff, Option.pure_def, Option.some.injEq]
  constructor
  · rintro ⟨⟨body, after⟩, hinside, text, htext, rfl⟩
    exact ⟨body, hinside, htext⟩
  · rintro ⟨body, hinside, htext⟩
    exact ⟨_, hinside, _, htext, rfl⟩

/-- Two quotes with a third one behind them are not all of a literal: what is behind a long one
  is shorter than what is behind its opening quotes. -/
theorem inside?_ne_of_quote (h : isQuote quote = true) (body rest : List Char) :
    inside? (quote :: quote :: quote :: rest) ≠ some (body, quote :: rest) := by
  rw [inside?_long h]
  intro hread
  have hlength := length_of_longBody? hread
  simp only [List.length_cons] at hlength
  omega

theorem take_two_ne_of_head (h : cs.head? ≠ some quote) : cs.take 2 ≠ [quote, quote] := by
  rintro htake
  cases cs with
  | nil => cases htake
  | cons c cs => exact h (congrArg some (List.cons.inj htake).1)

theorem take_two_ne_of_tail (h : cs.head? ≠ some quote) :
    (quote :: cs).take 2 ≠ [quote, quote] := by
  intro htake
  cases cs with
  | nil => cases htake
  | cons c cs => exact h (congrArg some (List.cons.inj (List.cons.inj htake).2).1)

/-- What stands between quotes starts with no two quotes, unless nothing stands there and a
  quote is behind them. -/
theorem take_two_ne (h : ∀ c ∈ cs, Undone quote escape c) {rest : List Char}
    (hrest : ¬ (cs = [] ∧ rest.head? = some quote)) :
    (cs.flatMap escape ++ quote :: rest).take 2 ≠ [quote, quote] := by
  cases cs with
  | nil => exact take_two_ne_of_tail fun hhead => hrest ⟨rfl, hhead⟩
  | cons c cs =>
    obtain ⟨d, more, hescape, hd⟩ := (h c (List.mem_cons_self)).head
    refine take_two_ne_of_head ?_
    rw [List.flatMap_cons, hescape]
    exact fun hhead => hd (Option.some.inj hhead)

/-- What is undone part by part is read back, with the rest, unless it is nothing and a quote
  is behind it. -/
theorem quoted?_of_undone (hquote : isQuote quote = true) (h : ∀ c ∈ cs, Undone quote escape c)
    (rest : List Char) :
    quoted? (quote :: (cs.flatMap escape ++ quote :: rest)) = some (cs, rest)
      ↔ ¬ (cs = [] ∧ rest.head? = some quote) := by
  constructor
  · rintro hread ⟨rfl, hhead⟩
    obtain ⟨after, rfl⟩ := List.head?_eq_some_iff.mp hhead
    obtain ⟨body, hinside, -⟩ := (quoted?_eq_some hquote).mp hread
    exact inside?_ne_of_quote hquote body after hinside
  · intro hrest
    have hbody : body? quote (cs.flatMap escape ++ quote :: rest)
        = some (cs.flatMap escape, rest) := by
      clear hrest
      induction cs with
      | nil => exact body?_quote hquote rest
      | cons c cs ih =>
        rw [List.forall_mem_cons] at h
        rw [List.flatMap_cons, List.append_assoc, h.1.body, ih h.2]
        rfl
    have htext : unescape? 0 (cs.flatMap escape) = some cs := by
      clear hbody hrest
      induction cs with
      | nil => rfl
      | cons c cs ih =>
        rw [List.forall_mem_cons] at h
        rw [List.flatMap_cons, h.1.unescaped, ih h.2]
        rfl
    rw [quoted?_eq_some hquote, inside?_eq hquote (take_two_ne h hrest)]
    exact ⟨_, hbody, htext⟩

/-! ### Texts in single quotes -/

theorem undone_escape (hzero : c ≠ '\x00') : Undone '\'' Literal.escape c := by
  by_cases hslash : c = '\\'
  · subst hslash
    exact undone_slash rfl (e := '\\') rfl (fun cs => rfl) (by decide)
  by_cases hquote : c = '\''
  · subst hquote
    exact undone_slash rfl (e := '\'') rfl (fun cs => rfl) (by decide)
  by_cases hline : c = '\n'
  · subst hline
    exact undone_slash rfl (e := 'n') rfl (fun cs => rfl) (by decide)
  by_cases htab : c = '\t'
  · subst htab
    exact undone_slash rfl (e := 't') rfl (fun cs => rfl) (by decide)
  by_cases hreturn : c = '\x0d'
  · subst hreturn
    exact undone_slash rfl (e := 'r') rfl (fun cs => rfl) (by decide)
  · have hself : Literal.escape c = [c] := by
      rw [Literal.escape]
      all_goals assumption
    exact undone_self hself hslash hquote hline hzero

theorem toList_text (s : String) :
    (text s).toList = '\'' :: (s.toList.flatMap Literal.escape ++ ['\'']) := by
  simp [text]

/-- A text in single quotes is in one line, whatever line breaks it has. -/
theorem inLine_text (s : String) : InLine (text s).toList := by
  have hescape : ∀ c, InLine (Literal.escape c) := by
    intro c
    unfold Literal.escape
    split
    case h_6 hline _ hreturn =>
      have hline : c ≠ '\n' := hline
      have hreturn : c ≠ '\x0d' := hreturn
      simp [InLine, breaksLine, hline, hreturn]
    all_goals simp [InLine, breaksLine]
  intro c hc
  rw [toList_text, List.mem_cons, List.mem_append, List.mem_singleton, List.mem_flatMap] at hc
  rcases hc with rfl | ⟨d, -, hd⟩ | rfl
  · rfl
  · exact hescape d c hd
  · rfl

/-- A text in single quotes is read back, with whatever is behind it, but for an empty one
  before another quote. -/
theorem quoted?_text (h : '\x00' ∉ s.toList) (rest : List Char) :
    quoted? ((text s).toList ++ rest) = some (s.toList, rest)
      ↔ ¬ (s = "" ∧ rest.head? = some '\'') := by
  rw [toList_text, List.cons_append, List.append_assoc, List.singleton_append,
    ← String.toList_eq_nil_iff]
  refine quoted?_of_undone rfl (fun c hc => undone_escape ?_) rest
  rintro rfl
  exact h hc

/-- A line break at the head of some code is no quote, however it is read. -/
theorem head?_unifyLines (h : isQuote quote = true) (cs : List Char) :
    (unifyLines cs).head? = some quote ↔ cs.head? = some quote := by
  cases cs with
  | nil => rfl
  | cons c cs =>
    cases hbreak : breaksLine c with
    | true =>
      obtain ⟨rest, hrest⟩ := exists_unifyLines hbreak cs
      have hquote : ∀ d, breaksLine d = true → d ≠ quote := by
        rintro d hd rfl
        rcases (by simpa [isQuote] using h : d = '\'' ∨ d = '"') with rfl | rfl <;>
          exact absurd hd (by decide)
      simp [hrest, hquote '\n' rfl, hquote c hbreak]
    | false =>
      have hreturn : c ≠ '\x0d' := by
        rintro rfl
        cases hbreak
      rw [unifyLines_cons hreturn, List.head?_cons, List.head?_cons]

theorem read?_text (h : '\x00' ∉ s.toList) (rest : String) :
    read? (text s ++ rest) = some (s, unified rest)
      ↔ ¬ (s = "" ∧ rest.toList.head? = some '\'') := by
  rw [read?_eq_some, String.toList_append, unifyLines_append (inLine_text s).not_mem.2,
    toList_unified, quoted?_text h, head?_unifyLines rfl]

end SheetScript.Literal
