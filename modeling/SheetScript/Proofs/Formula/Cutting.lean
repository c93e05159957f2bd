import SheetScript.Formula.Reference
import SheetScript.Proofs.Outcomes
import Mathlib.Data.List.Induction
import Mathlib.Data.List.TakeWhile

/-! # Cutting texts of formulas

  A token is spelled by a run of characters, and it ends where the next character would
  not belong to it.  That is all there is to say about how a text is cut: it is the pieces of
  a list of tokens, each spelled as it may be and ended by what stands behind it, with blanks
  between them.

  - `Formula.scan_eq_ok`: what is read as one token, and where it ends.
  - `Formula.pieces_eq_ok`: how a whole text is cut.
  - `Formula.tokens_padded`: blanks around a text make no difference.
-/

namespace SheetScript.Formula

variable {c x : Char} {cs run after more pre post lexeme gap : List Char} {p : Char → Bool}

/-! ### Characters and runs of them -/

/-- The table of letters as a list, which is quicker to search than an array by index. -/
theorem isNamePart_eq (c : Char) :
    isNamePart c = (c.isAlphanum || (127 < c.toNat && Text.letterOrDigitRanges.toList.any fun r =>
      r.1 ≤ c.toNat && c.toNat ≤ r.2) || c == '_') := by
  rw [Array.any_toList]
  rfl

/-- A blank stands in no name. -/
theorem isNamePart_of_isBlank (h : Text.isBlank c = true) : isNamePart c = false := by
  have hcodes : ∀ n ∈ List.range' 9 5 ++ [32, 133, 160, 5760] ++ List.range' 8192 11
      ++ [8232, 8233, 8239, 8287, 12288], isNamePart (Char.ofNat n) = false := by
    simp only [isNamePart_eq]
    decide +kernel
  rw [← Char.ofNat_toNat c]
  refine hcodes _ ?_
  simp only [Text.isBlank, Bool.or_eq_true, Bool.and_eq_true, decide_eq_true_eq, beq_iff_eq] at h
  simp only [List.mem_append, List.mem_range'_1, List.mem_cons, List.not_mem_nil, or_false]
  omega

theorem isNamePart_of_isDigit (h : Decimal.isDigit c = true) : isNamePart c = true := by
  have hc : c.isDigit = true := h
  simp [isNamePart, Text.isLetterOrDigit, Char.isAlphanum, hc]

theorem isNumberPart_of_isBlank (h : Text.isBlank c = true) : isNumberPart c = false := by
  rw [← Bool.not_eq_true]
  intro hpart
  rcases Bool.or_eq_true_iff.mp hpart with hdigit | hpoint
  · have hname := isNamePart_of_isBlank h
    rw [isNamePart_of_isDigit hdigit] at hname
    cases hname
  · obtain rfl := beq_iff_eq.mp hpoint
    exact absurd h (by decide)

theorem isBlank_of_isNamePart (h : isNamePart c = true) : Text.isBlank c = false := by
  rw [← Bool.not_eq_true]
  intro hblank
  rw [isNamePart_of_isBlank hblank] at h
  cases h

theorem isBlank_of_isNumberPart (h : isNumberPart c = true) : Text.isBlank c = false := by
  rw [← Bool.not_eq_true]
  intro hblank
  rw [isNumberPart_of_isBlank hblank] at h
  cases h

/-- A run ends where a character does not belong to it. -/
theorem takeWhile_run (hrun : ∀ c ∈ run, p c = true) (hafter : ∀ x ∈ after.head?, p x = false) :
    (run ++ after).takeWhile p = run := by
  have hnone : after.takeWhile p = [] := by
    cases after with
    | nil => rfl
    | cons x after => exact List.takeWhile_cons_of_neg (by simp [hafter x rfl])
  rw [List.takeWhile_append_of_pos hrun, hnone, List.append_nil]

theorem dropWhile_run (hrun : ∀ c ∈ run, p c = true) (hafter : ∀ x ∈ after.head?, p x = false) :
    (run ++ after).dropWhile p = after := by
  have hsplit := List.takeWhile_append_dropWhile (p := p) (l := run ++ after)
  rw [takeWhile_run hrun hafter] at hsplit
  exact List.append_cancel_left hsplit

/-- Every text is a run and what follows. -/
theorem exists_run (p : Char → Bool) (cs : List Char) :
    ∃ run after, cs = run ++ after ∧ (∀ c ∈ run, p c = true) ∧ (∀ x ∈ after.head?, p x = false)
      ∧ cs.takeWhile p = run := by
  refine ⟨cs.takeWhile p, cs.dropWhile p, List.takeWhile_append_dropWhile.symm,
    fun c => List.mem_takeWhile_imp, fun x hx => ?_, rfl⟩
  have hhead := List.head?_dropWhile_not p cs
  rw [hx] at hhead
  exact hhead

/-- A text that does not end before a quote is cut in two by it. -/
theorem exists_quote (h : (cs.takeWhile (· ≠ c)).length < cs.length) :
    ∃ inner after, cs = inner ++ [c] ++ after ∧ c ∉ inner ∧ cs.takeWhile (· ≠ c) = inner := by
  obtain ⟨inner, after, rfl, hinner, hafter, hrun⟩ := exists_run (· ≠ c) cs
  rw [hrun] at h ⊢
  cases after with
  | nil => simp at h
  | cons d after =>
    obtain rfl : d = c := by simpa using hafter d rfl
    exact ⟨inner, after, by simp, fun hd => by simpa using hinner d hd, rfl⟩

/-! ### One token -/

/-- Whether a character right behind a token would belong to it. -/
def Token.goesOn : Token → Char → Bool
  | .name _, x => isNamePart x
  | .number _, x => isNumberPart x
  | .operator o, x => Operator.all.any fun o' => o'.sign.toList == o.sign.toList ++ [x]
  | _, _ => false

/-- The signs of two characters end in one of two. -/
theorem last_of_sign (o : Operator) :
    o.sign.toList.length ≤ 1 ∨ o.sign.toList.getLast? = some '='
      ∨ o.sign.toList.getLast? = some '>' := by
  cases o <;> decide

/-- Only two characters go on with the sign of an operator. -/
theorem Token.equals_or_greater {o : Operator} (h : (Token.operator o).goesOn x = true) :
    x = '=' ∨ x = '>' := by
  obtain ⟨longer, -, hlonger⟩ := List.any_eq_true.mp h
  have hsign := beq_iff_eq.mp hlonger
  have hlength : 1 ≤ o.sign.toList.length := by cases o <;> decide
  rcases last_of_sign longer with hshort | hlast | hlast
  · rw [hsign, List.length_append, List.length_singleton] at hshort
    omega
  · rw [hsign, List.getLast?_concat] at hlast
    exact .inl (Option.some.inj hlast)
  · rw [hsign, List.getLast?_concat] at hlast
    exact .inr (Option.some.inj hlast)

/-- What stands behind a token ends it. -/
def Token.EndsBefore (t : Token) (after : List Char) : Prop := ∀ x ∈ after.head?, t.goesOn x = false

/-- Whether a number can start with these characters. -/
def startsNumber (c : Char) (more : List Char) : Bool :=
  Decimal.isDigit c || (c == '.' && (more.head?.map Decimal.isDigit).getD false)

/-- How a token can be spelled. -/
inductive Spells : List Char → Token → Prop where
  | opening : Spells ['('] .opening
  | closing : Spells [')'] .closing
  | comma : Spells [','] .comma
  | text {q : Char} {inner : List Char} (hq : q = '"' ∨ q = '\'') (hinner : q ∉ inner) :
      Spells (q :: (inner ++ [q])) (.text (String.ofList inner))
  | quotedName {inner : List Char} (hinner : '`' ∉ inner) :
      Spells ('`' :: (inner ++ ['`'])) (.quotedName (String.ofList inner))
  | number {c : Char} {more : List Char} {x : Float} (hc : startsNumber c more = true)
      (hmore : ∀ d ∈ more, isNumberPart d = true) (hx : Decimal.floatOfList? (c :: more) = some x) :
      Spells (c :: more) (.number x)
  | name {c : Char} {more : List Char} (hc : isNamePart c = true)
      (hdigit : Decimal.isDigit c = false) (hmore : ∀ d ∈ more, isNamePart d = true) :
      Spells (c :: more) (.name (String.ofList (c :: more)))
  | operator (o : Operator) : Spells o.sign.toList (.operator o)

variable {t : Token} {position n : Nat} {rest : List Char}

/-- A number starts with what it is made of. -/
theorem startsNumber_run (hrun : ∀ d ∈ run, isNumberPart d = true)
    (hafter : ∀ d ∈ after.head?, isNumberPart d = false) :
    startsNumber c (run ++ after) = startsNumber c run := by
  cases run with
  | cons d run => rfl
  | nil =>
    have hnone : (after.head?.map Decimal.isDigit).getD false = false := by
      cases hhead : after.head? with
      | none => rfl
      | some d =>
        have hpart := hafter d hhead
        exact (Bool.or_eq_false_iff.mp hpart).1
    unfold startsNumber
    rw [List.nil_append, hnone]
    rfl

/-- The operator at the head of a text is spelled there, and ended by what follows. -/
theorem find?_operator {o : Operator}
    (h : (Operator.all.find? fun o => startsWith o.sign cs) = some o) :
    ∃ after, cs = o.sign.toList ++ after ∧ (Token.operator o).EndsBefore after := by
  have hstarts := List.find?_some h
  obtain ⟨after, rfl⟩ := List.isPrefixOf_iff_prefix.mp hstarts
  refine ⟨after, rfl, fun x hx => ?_⟩
  cases after with
  | nil => cases hx
  | cons y after =>
    obtain rfl := Option.some.inj hx
    -- only `<` and `>` can go on, and the longer signs come first
    rw [← Bool.not_eq_true]
    intro hgoes
    obtain ⟨longer, -, hlonger⟩ := List.any_eq_true.mp hgoes
    have hsign := beq_iff_eq.mp hlonger
    cases o <;> cases longer <;> cases hsign <;> cases h

/-- An operator that is ended by what follows is the one at the head of the text. -/
theorem find?_of_ends {o : Operator} (h : (Token.operator o).EndsBefore after) :
    (Operator.all.find? fun o' => startsWith o'.sign (o.sign.toList ++ after)) = some o := by
  cases after with
  | nil => cases o <;> rfl
  | cons x after =>
    have hx := h x rfl
    cases o with
    | less =>
      have hequal : '=' ≠ x := by
        rintro rfl
        exact absurd hx (by decide)
      have hgreater : '>' ≠ x := by
        rintro rfl
        exact absurd hx (by decide)
      simp [Operator.all, Operator.sign, startsWith, List.isPrefixOf, hequal, hgreater]
    | greater =>
      have hequal : '=' ≠ x := by
        rintro rfl
        exact absurd hx (by decide)
      simp [Operator.all, Operator.sign, startsWith, List.isPrefixOf, hequal]
    | _ => rfl

/-- Neither a name nor a number starts as a bracket, a comma or a text does. -/
theorem not_punctuation (h : isNamePart c = true ∨ c = '.') :
    ¬ c = '(' ∧ ¬ c = ')' ∧ ¬ c = ',' ∧ ¬ (c = '"' ∨ c = '\'' ∨ c = '`') := by
  refine ⟨?_, ?_, ?_, ?_⟩
  · rintro rfl; revert h; decide
  · rintro rfl; revert h; decide
  · rintro rfl; revert h; decide
  · rintro (rfl | rfl | rfl) <;> revert h <;> decide

theorem scan_number {x : Float} (hc : startsNumber c run = true)
    (hrun : ∀ d ∈ run, isNumberPart d = true) (hx : Decimal.floatOfList? (c :: run) = some x)
    (hafter : ∀ d ∈ after.head?, isNumberPart d = false) :
    scan position c (run ++ after) = .ok (.number x, run.length) := by
  have hpart : isNamePart c = true ∨ c = '.' := by
    rcases Bool.or_eq_true_iff.mp hc with hdigit | hpoint
    · exact .inl (isNamePart_of_isDigit hdigit)
    · exact .inr (beq_iff_eq.mp (Bool.and_eq_true_iff.mp hpoint).1)
  obtain ⟨hopening, hclosing, hcomma, hquote⟩ := not_punctuation hpart
  have hstarts := (startsNumber_run (c := c) hrun hafter).trans hc
  unfold startsNumber at hstarts
  unfold scan
  rw [if_neg hopening, if_neg hclosing, if_neg hcomma, if_neg hquote, if_pos hstarts]
  simp only [takeWhile_run hrun hafter, hx]

theorem scan_name (hc : isNamePart c = true) (hdigit : Decimal.isDigit c = false)
    (hrun : ∀ d ∈ run, isNamePart d = true) (hafter : ∀ d ∈ after.head?, isNamePart d = false) :
    scan position c (run ++ after) = .ok (.name (String.ofList (c :: run)), run.length) := by
  have hpoint : c ≠ '.' := by
    rintro rfl
    exact absurd hc (by decide)
  obtain ⟨hopening, hclosing, hcomma, hquote⟩ := not_punctuation (.inl hc)
  unfold scan
  rw [if_neg hopening, if_neg hclosing, if_neg hcomma, if_neg hquote,
    if_neg (by simp [hdigit, hpoint]), if_pos hc]
  simp only [takeWhile_run hrun hafter]

theorem scan_quoted {inner : List Char} (hc : c = '"' ∨ c = '\'' ∨ c = '`') (hinner : c ∉ inner) :
    scan position c (inner ++ [c] ++ after)
      = .ok (if c = '`' then .quotedName (String.ofList inner) else .text (String.ofList inner),
          (inner ++ [c]).length) := by
  have hrun : (inner ++ [c] ++ after).takeWhile (· ≠ c) = inner := by
    rw [List.append_assoc]
    exact takeWhile_run (fun d hd => decide_eq_true fun heq => hinner (heq ▸ hd))
      (fun x hx => by simpa using hx.symm)
  have hbrackets : ¬ c = '(' ∧ ¬ c = ')' ∧ ¬ c = ',' := by
    rcases hc with rfl | rfl | rfl <;> decide
  obtain ⟨hopening, hclosing, hcomma⟩ := hbrackets
  have hlt : inner.length < (inner ++ [c] ++ after).length := by simp
  unfold scan
  rw [if_neg hopening, if_neg hclosing, if_neg hcomma, if_pos hc]
  simp only [hrun, if_pos hlt]
  rw [List.length_append, List.length_singleton]

/-- What is read from the head of a text spells the token, and it goes on as far as it can. -/
theorem spells_of_scan (h : scan position c rest = .ok (t, n)) :
    ∃ more after, rest = more ++ after ∧ more.length = n ∧ Spells (c :: more) t
      ∧ t.EndsBefore after := by
  -- the signs come first, then what is quoted, numbers and names, and the operators last
  unfold scan at h
  split at h
  · next hc =>
    cases h
    exact ⟨[], rest, rfl, rfl, hc ▸ .opening, fun _ _ => rfl⟩
  split at h
  · next hc =>
    cases h
    exact ⟨[], rest, rfl, rfl, hc ▸ .closing, fun _ _ => rfl⟩
  split at h
  · next hc =>
    cases h
    exact ⟨[], rest, rfl, rfl, hc ▸ .comma, fun _ _ => rfl⟩
  split at h
  · next hc =>
    dsimp only at h
    split at h
    · next hlt =>
      obtain ⟨inner, after, rfl, hinner, hrun⟩ := exists_quote hlt
      rw [hrun] at h
      cases h
      refine ⟨inner ++ [c], after, rfl, List.length_append, ?_, fun _ _ => ?_⟩
      · split
        · next hd => exact hd ▸ .quotedName (hd ▸ hinner)
        · next hd => exact .text (by tauto) hinner
      · split <;> rfl
    · cases h
  split at h
  · next hc =>
    obtain ⟨run, after, rfl, hmore, hafter, hrun⟩ := exists_run isNumberPart rest
    simp only [hrun] at h
    split at h
    · next x hx =>
      cases h
      have hstarts : startsNumber c run = true := (startsNumber_run hmore hafter).symm.trans hc
      exact ⟨run, after, rfl, rfl, .number hstarts hmore hx, hafter⟩
    · cases h
  split at h
  · next hnumber hc =>
    obtain ⟨run, after, rfl, hmore, hafter, hrun⟩ := exists_run isNamePart rest
    simp only [hrun] at h
    cases h
    -- a digit would have started a number
    have hdigit : Decimal.isDigit c = false := by
      rw [Bool.not_eq_true, Bool.or_eq_false_iff] at hnumber
      exact hnumber.1
    exact ⟨run, after, rfl, rfl, .name hc hdigit hmore, hafter⟩
  · split at h
    · next o ho =>
      cases h
      obtain ⟨after, hcs, hends⟩ := find?_operator ho
      cases hsign : o.sign.toList with
      | nil => cases o <;> cases hsign
      | cons d more =>
        rw [hsign] at hcs
        obtain ⟨rfl, rfl⟩ := List.cons.inj hcs
        have hlength : o.sign.length = more.length + 1 := by
          rw [← String.length_toList, hsign, List.length_cons]
        exact ⟨more, after, rfl, by omega, hsign ▸ .operator o, hends⟩
    · cases h

/-- Every spelling that is ended is read. -/
theorem scan_of_spells (hspells : Spells (c :: more) t) (hends : t.EndsBefore after) :
    scan position c (more ++ after) = .ok (t, more.length) := by
  generalize hcs : c :: more = cs at hspells
  cases hspells with
  | opening | closing | comma =>
    obtain ⟨rfl, rfl⟩ := List.cons.inj hcs
    rfl
  | @text q inner hq hinner =>
    obtain ⟨rfl, rfl⟩ := List.cons.inj hcs
    rw [scan_quoted (by tauto) hinner, if_neg (by rcases hq with rfl | rfl <;> decide)]
  | @quotedName inner hinner =>
    obtain ⟨rfl, rfl⟩ := List.cons.inj hcs
    exact scan_quoted (by decide) hinner
  | number hc hmore hx =>
    obtain ⟨rfl, rfl⟩ := List.cons.inj hcs
    exact scan_number hc hmore hx hends
  | name hc hdigit hmore =>
    obtain ⟨rfl, rfl⟩ := List.cons.inj hcs
    exact scan_name hc hdigit hmore hends
  | operator o =>
    have hlength : o.sign.length - 1 = more.length := by
      rw [← String.length_toList, ← hcs, List.length_cons, Nat.add_sub_cancel]
    have hfind := find?_of_ends hends
    rw [← hcs, List.cons_append] at hfind
    rw [← hlength]
    cases o <;> cases hcs <;> (unfold scan; simp only [hfind]; rfl)

theorem scan_eq_ok : scan position c rest = .ok (t, n)
    ↔ ∃ more after, rest = more ++ after ∧ more.length = n ∧ Spells (c :: more) t
      ∧ t.EndsBefore after := by
  refine ⟨spells_of_scan, ?_⟩
  rintro ⟨more, after, rfl, rfl, hspells, hends⟩
  exact scan_of_spells hspells hends

/-! ### All tokens -/

variable {ps : List Piece} {trailing : List Char}

/-- A text is cut into pieces with blanks behind them. -/
inductive Cut : List Char → List Piece → List Char → Prop where
  | nil {trailing : List Char} (h : ∀ c ∈ trailing, Text.isBlank c = true) :
      Cut trailing [] trailing
  | cons {gap lexeme after trailing : List Char} {t : Token} {ps : List Piece}
      (hgap : ∀ c ∈ gap, Text.isBlank c = true) (hspells : Spells lexeme t)
      (hends : t.EndsBefore after) (hrest : Cut after ps trailing) :
      Cut (gap ++ (lexeme ++ after)) (⟨gap, lexeme, t⟩ :: ps) trailing

/-- A token is spelled by characters of which the first and the last are no blanks. -/
theorem Spells.ends (h : Spells lexeme t) : ∃ c more, lexeme = c :: more
    ∧ Text.isBlank c = false ∧ ∀ d ∈ lexeme.getLast?, Text.isBlank d = false := by
  have hall : ∀ {c : Char} {more : List Char}, (∀ d ∈ c :: more, Text.isBlank d = false) →
      ∃ e rest, c :: more = e :: rest ∧ Text.isBlank e = false
        ∧ ∀ d ∈ (c :: more).getLast?, Text.isBlank d = false := fun h =>
    ⟨_, _, rfl, h _ (List.mem_cons_self ..), fun d hd => h d (List.mem_of_getLast? hd)⟩
  have hquoted : ∀ {q : Char} (inner : List Char), Text.isBlank q = false →
      ∃ e rest, q :: (inner ++ [q]) = e :: rest ∧ Text.isBlank e = false
        ∧ ∀ d ∈ (q :: (inner ++ [q])).getLast?, Text.isBlank d = false := by
    intro q inner hq
    refine ⟨_, _, rfl, hq, fun d hd => ?_⟩
    rw [← List.cons_append, List.getLast?_concat] at hd
    exact Option.some.inj hd ▸ hq
  cases h with
  | opening | closing | comma => exact hall (List.forall_mem_singleton.mpr (by decide))
  | @text q inner hq _ =>
    exact hquoted inner (by rcases hq with rfl | rfl <;> decide)
  | quotedName _ => exact hquoted _ (by decide)
  | @number c more _ hc hmore _ =>
    have hpart : isNumberPart c = true := by
      rcases Bool.or_eq_true_iff.mp hc with hdigit | hpoint
      · exact Bool.or_eq_true_iff.mpr (.inl hdigit)
      · exact Bool.or_eq_true_iff.mpr (.inr (Bool.and_eq_true_iff.mp hpoint).1)
    exact hall (List.forall_mem_cons.mpr ⟨isBlank_of_isNumberPart hpart,
      fun d hd => isBlank_of_isNumberPart (hmore d hd)⟩)
  | name hc _ hmore =>
    exact hall (List.forall_mem_cons.mpr ⟨isBlank_of_isNamePart hc,
      fun d hd => isBlank_of_isNamePart (hmore d hd)⟩)
  | operator o =>
    have hall' : (o.sign.toList.all fun d => !Text.isBlank d) = true := by cases o <;> decide
    have hsign : ∀ d ∈ o.sign.toList, Text.isBlank d = false := by
      simpa only [List.all_eq_true, Bool.not_eq_true'] using hall'
    cases o <;> exact hall hsign

/-- A text is cut in one way only, and that is how it is cut. -/
theorem pieces_eq_ok : pieces position cs = .ok (ps, trailing) ↔ Cut cs ps trailing := by
  constructor
  · intro h
    -- the induction is on the length of the text, of which every token takes a part
    induction hlength : cs.length using Nat.strong_induction_on generalizing position cs ps with
    | _ n ih =>
      obtain ⟨gap, after, rfl, hgap, hafter, hrun⟩ := exists_run Text.isBlank cs
      have hdrop := dropWhile_run hgap hafter
      unfold pieces at h
      simp only [hrun] at h
      split at h
      · next hnil =>
        obtain rfl : after = [] := hdrop.symm.trans hnil
        cases h
        rw [List.append_nil]
        exact .nil hgap
      · next c rest hcons =>
        obtain rfl : after = c :: rest := hdrop.symm.trans hcons
        simp only [bind_eq_ok, Except.ok.injEq, Prod.exists, Prod.mk.injEq] at h
        obtain ⟨t, taken, hscan, more, _, hmore, rfl, rfl⟩ := h
        obtain ⟨run, after, rfl, rfl, hspells, hends⟩ := scan_eq_ok.mp hscan
        rw [List.drop_left] at hmore
        rw [List.take_left, ← List.cons_append]
        refine .cons hgap hspells hends (ih _ ?_ hmore rfl)
        rw [← hlength]
        simp only [List.length_append, List.length_cons]
        omega
  · intro h
    induction h generalizing position with
    | @nil trailing h =>
      have hrun : trailing.takeWhile Text.isBlank = trailing := List.takeWhile_eq_self_iff.mpr h
      have hdrop : trailing.dropWhile Text.isBlank = [] := List.dropWhile_eq_nil_iff.mpr h
      unfold pieces
      simp only [hrun]
      split
      · rfl
      · next hcons =>
        rw [hdrop] at hcons
        cases hcons
    | @cons gap lexeme after trailing t ps hgap hspells hends hrest ih =>
      obtain ⟨c, more, rfl, hc, -⟩ := hspells.ends
      have hhead : ∀ x ∈ (c :: more ++ after).head?, Text.isBlank x = false := fun x hx =>
        Option.some.inj hx ▸ hc
      have hdrop := dropWhile_run hgap hhead
      unfold pieces
      simp only [takeWhile_run hgap hhead]
      split
      · next hnil =>
        rw [hdrop] at hnil
        cases hnil
      · next d rest hcons =>
        have hsame := hcons.symm.trans hdrop
        rw [List.cons_append] at hsame
        obtain ⟨rfl, rfl⟩ := List.cons.inj hsame
        simp only [bind_eq_ok, Except.ok.injEq, Prod.exists, Prod.mk.injEq]
        refine ⟨t, more.length, ?_, ps, trailing, ?_, ?_, rfl⟩
        · exact scan_eq_ok.mpr ⟨more, after, rfl, rfl, hspells, hends⟩
        · rw [List.drop_left]
          exact ih
        · rw [List.take_left]

/-! ### Blanks around a text -/

variable {ts : List Token}

theorem tokens_eq_ok :
    tokens cs = .ok ts ↔ ∃ ps trailing, Cut cs ps trailing ∧ ps.map Piece.token = ts := by
  unfold tokens
  rw [map_eq_ok]
  constructor
  · rintro ⟨⟨ps, trailing⟩, hpieces, hts⟩
    exact ⟨ps, trailing, pieces_eq_ok.mp hpieces, hts⟩
  · rintro ⟨ps, trailing, hcut, hts⟩
    exact ⟨(ps, trailing), pieces_eq_ok.mpr hcut, hts⟩

/-- No token goes on with a blank. -/
theorem Token.goesOn_of_isBlank (t : Token) (h : Text.isBlank x = true) : t.goesOn x = false := by
  cases t with
  | name _ => exact isNamePart_of_isBlank h
  | number _ => exact isNumberPart_of_isBlank h
  | operator o =>
    rw [← Bool.not_eq_true]
    intro hgoes
    obtain rfl | rfl := Token.equals_or_greater hgoes <;> exact absurd h (by decide)
  | _ => rfl

theorem Token.endsBefore_concat (hx : Text.isBlank x = true) :
    t.EndsBefore (after ++ [x]) ↔ t.EndsBefore after := by
  cases after with
  | nil =>
    refine iff_of_true (fun y hy => ?_) nofun
    exact Option.some.inj hy ▸ t.goesOn_of_isBlank hx
  | cons y after => rfl

theorem tokens_cons (hc : Text.isBlank c = true) :
    tokens (c :: cs) = .ok ts ↔ tokens cs = .ok ts := by
  rw [tokens_eq_ok, tokens_eq_ok]
  constructor
  · rintro ⟨ps, trailing, hcut, rfl⟩
    generalize hcs : c :: cs = whole at hcut
    cases hcut with
    | nil h =>
      subst hcs
      exact ⟨[], cs, .nil fun d hd => h d (List.mem_cons_of_mem _ hd), rfl⟩
    | @cons gap lexeme after _ t ps hgap hspells hends hrest =>
      cases gap with
      | nil =>
        obtain ⟨d, more, rfl, hd, -⟩ := hspells.ends
        obtain ⟨rfl, -⟩ := List.cons.inj hcs
        rw [hc] at hd
        cases hd
      | cons d gap =>
        obtain ⟨rfl, rfl⟩ := List.cons.inj hcs
        obtain ⟨-, hgap⟩ := List.forall_mem_cons.mp hgap
        exact ⟨_, trailing, .cons hgap hspells hends hrest, rfl⟩
  · rintro ⟨ps, trailing, hcut, rfl⟩
    cases hcut with
    | nil h => exact ⟨[], c :: cs, .nil (List.forall_mem_cons.mpr ⟨hc, h⟩), rfl⟩
    | cons hgap hspells hends hrest =>
      exact ⟨_, trailing, .cons (List.forall_mem_cons.mpr ⟨hc, hgap⟩) hspells hends hrest, rfl⟩

theorem Cut.concat (hx : Text.isBlank x = true) (h : Cut cs ps trailing) :
    Cut (cs ++ [x]) ps (trailing ++ [x]) := by
  induction h with
  | nil h => exact .nil (List.forall_mem_append.mpr ⟨h, List.forall_mem_singleton.mpr hx⟩)
  | cons hgap hspells hends _ ih =>
    rw [List.append_assoc, List.append_assoc]
    exact .cons hgap hspells ((Token.endsBefore_concat hx).mpr hends) ih

theorem Cut.of_concat (hx : Text.isBlank x = true) (h : Cut (cs ++ [x]) ps trailing) :
    ∃ trailing', Cut cs ps trailing' := by
  generalize hwhole : cs ++ [x] = whole at h
  induction h generalizing cs with
  | nil h =>
    subst hwhole
    exact ⟨cs, .nil (List.forall_mem_append.mp h).1⟩
  | @cons gap lexeme after _ t ps hgap hspells hends _ ih =>
    rcases List.eq_nil_or_concat after with rfl | ⟨after, y, rfl⟩
    · -- the last character would be the last one of a token
      obtain ⟨d, more, hlexeme, -, hlast⟩ := hspells.ends
      have hget := congrArg List.getLast? hwhole
      have hne : lexeme ≠ [] := by simp [hlexeme]
      rw [List.append_nil, List.getLast?_concat, List.getLast?_append_of_ne_nil _ hne] at hget
      have hnot := hlast x hget.symm
      rw [hx] at hnot
      cases hnot
    · rw [List.concat_eq_append, ← List.append_assoc, ← List.append_assoc] at hwhole
      obtain ⟨rfl, hxy⟩ := List.append_inj' hwhole rfl
      obtain rfl := List.singleton_inj.mp hxy
      rw [List.concat_eq_append, Token.endsBefore_concat hx] at hends
      obtain ⟨trailing', hrest⟩ := ih (List.concat_eq_append ..).symm
      rw [List.append_assoc]
      exact ⟨trailing', .cons hgap hspells hends hrest⟩

theorem tokens_concat (hx : Text.isBlank x = true) :
    tokens (cs ++ [x]) = .ok ts ↔ tokens cs = .ok ts := by
  rw [tokens_eq_ok, tokens_eq_ok]
  constructor
  · rintro ⟨ps, trailing, hcut, rfl⟩
    obtain ⟨trailing', hcut'⟩ := hcut.of_concat hx
    exact ⟨ps, trailing', hcut', rfl⟩
  · rintro ⟨ps, trailing, hcut, rfl⟩
    exact ⟨ps, _, hcut.concat hx, rfl⟩

/-- A text has the tokens that it has with blanks around it. -/
theorem tokens_padded (hpre : ∀ c ∈ pre, Text.isBlank c = true)
    (hpost : ∀ c ∈ post, Text.isBlank c = true) :
    tokens (pre ++ (cs ++ post)) = .ok ts ↔ tokens cs = .ok ts := by
  induction pre with
  | nil =>
    induction post using List.reverseRecOn with
    | nil => rw [List.append_nil, List.nil_append]
    | append_singleton post x ih =>
      obtain ⟨hpost, hx⟩ := List.forall_mem_append.mp hpost
      rw [← ih hpost, List.nil_append, List.nil_append, ← List.append_assoc,
        tokens_concat (hx x (List.mem_singleton_self x))]
  | cons c pre ih =>
    obtain ⟨hc, hpre⟩ := List.forall_mem_cons.mp hpre
    rw [List.cons_append, tokens_cons hc, ih hpre]

end SheetScript.Formula
