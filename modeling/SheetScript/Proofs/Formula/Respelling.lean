import SheetScript.Proofs.Formula.Cutting
import SheetScript.Proofs.Formula.Retitling

/-! # Renaming headers in texts

  The text of a formula follows a column that gets another header: every reference to the
  column is replaced by the new name, and no other character changes.  The new text is cut
  where the old one was.  A name could run into its neighbours, but an operator, a comma or
  a bracket stands there, or a blank.

  - `Formula.Respelled`: a text with some references to a header replaced.
  - `Formula.Cut.renamed`: the new text is cut into the pieces of the old one.
  - `Formula.parse_renameReferences`: it is read as the formula with the header renamed.
-/

namespace SheetScript.Formula

variable {old new : Header} {cs cs' after trailing lexeme : List Char} {x : Char} {t : Token}
  {ps : List Piece} {n : Nat}

/-! ### References -/

theorem spells_reference (hquote : '`' ∉ new.toList) :
    Spells (reference new).toList (spelled new) := by
  unfold reference spelled
  split
  · next hbare =>
    unfold isBare at hbare
    split at hbare
    · cases hbare
    · next c more hnew =>
      simp only [Bool.and_eq_true, Bool.not_eq_true', List.all_eq_true] at hbare
      obtain ⟨⟨⟨⟨⟨hc, hmore⟩, hdigit⟩, -⟩, -⟩, -⟩ := hbare
      have hspells := Spells.name hc hdigit hmore
      rwa [← hnew, String.ofList_toList] at hspells
  · have hspells := Spells.quotedName hquote
    rw [String.ofList_toList] at hspells
    rw [String.toList_append, String.toList_append]
    exact hspells

/-- A reference starts as a name does. -/
theorem exists_reference (new : Header) :
    ∃ c more, (reference new).toList = c :: more ∧ (isNamePart c = true ∨ c = '`') := by
  unfold reference
  split
  · next hbare =>
    unfold isBare at hbare
    split at hbare
    · cases hbare
    · next c more hnew =>
      simp only [Bool.and_eq_true] at hbare
      exact ⟨c, more, hnew, .inl hbare.1.1.1.1.1⟩
  · rw [String.toList_append, String.toList_append]
    exact ⟨'`', _, rfl, .inr rfl⟩

theorem lexeme_of_names {next : Option Token} (hspells : Spells lexeme t)
    (hnames : names old t next = true) :
    lexeme = old.toList ∨ lexeme = '`' :: (old.toList ++ ['`']) := by
  cases hspells with
  | name _ _ _ =>
    obtain ⟨heq, -⟩ := Bool.and_eq_true_iff.mp hnames
    exact .inl (by rw [← beq_iff_eq.mp heq, String.toList_ofList])
  | quotedName _ =>
    refine .inr ?_
    rw [← beq_iff_eq.mp hnames, String.toList_ofList]
  | _ => cases hnames

theorem isName_of_names {next : Option Token} (hnames : names old t next = true) :
    t.isName = true := by
  rw [← Bool.not_eq_false]
  intro ht
  rw [names_of_not_isName ht] at hnames
  cases hnames

/-! ### What stays in a text -/

/-- A text with `n` references to `old` replaced by references to `new`, and with all other
  characters kept. -/
inductive Respelled (old new : Header) : List Char → List Char → Nat → Prop where
  | nil : Respelled old new [] [] 0
  | keep {cs cs' : List Char} {n : Nat} (c : Char) (h : Respelled old new cs cs' n) :
      Respelled old new (c :: cs) (c :: cs') n
  | replace {cs cs' written : List Char} {n : Nat}
      (hwritten : written = old.toList ∨ written = '`' :: (old.toList ++ ['`']))
      (h : Respelled old new cs cs' n) :
      Respelled old new (written ++ cs) ((reference new).toList ++ cs') (n + 1)

theorem Respelled.kept (run : List Char) (h : Respelled old new cs cs' n) :
    Respelled old new (run ++ cs) (run ++ cs') n := by
  induction run with
  | nil => exact h
  | cons c run ih => exact .keep c ih

theorem Cut.respelled (old new : Header) (h : Cut cs ps trailing) :
    Respelled old new cs (renamed old new ps ++ trailing) (mentions old (ps.map Piece.token)) := by
  induction h with
  | @nil trailing _ =>
    have hkept : Respelled old new (trailing ++ []) (trailing ++ []) 0 :=
      Respelled.nil.kept trailing
    rwa [List.append_nil] at hkept
  | @cons gap lexeme after trailing t ps _ hspells _ _ ih =>
    rw [renamed, List.append_assoc, List.append_assoc]
    refine .kept gap ?_
    rw [List.map_cons, ← List.head?_map]
    split
    · next hnames =>
      rw [mentions_cons_of_names hnames]
      exact .replace (lexeme_of_names hspells hnames) ih
    · next hnames =>
      rw [mentions_cons_of_not (Bool.not_eq_true _ ▸ hnames)]
      exact ih.kept lexeme

/-! ### How the new text is cut -/

/-- The pieces with those that name `old` replaced. -/
def replacedPieces (old new : Header) : List Piece → List Piece
  | [] => []
  | p :: rest =>
    (if names old p.token (rest.head?.map Piece.token)
      then ⟨p.gap, (reference new).toList, spelled new⟩ else p) :: replacedPieces old new rest

theorem tokens_replacedPieces (old new : Header) (ps : List Piece) :
    (replacedPieces old new ps).map Piece.token = marked old new (ps.map Piece.token) := by
  induction ps with
  | nil => rfl
  | cons p rest ih =>
    rw [replacedPieces, List.map_cons, List.map_cons, marked, ih, List.head?_map]
    congr 1
    split <;> rfl

/-- The new text begins with a blank, with a new name, or as the old one did. -/
theorem Cut.head_renamed (h : Cut cs ps trailing)
    (hx : x ∈ (renamed old new ps ++ trailing).head?) :
    Text.isBlank x = true
      ∨ ∃ p rest, ps = p :: rest
        ∧ (names old p.token (rest.head?.map Piece.token) = true
            ∧ (isNamePart x = true ∨ x = '`')
          ∨ x ∈ cs.head? ∧ Spells p.lexeme p.token ∧ x ∈ p.lexeme.head?) := by
  cases h with
  | nil h => exact .inl (h x (List.mem_of_mem_head? hx))
  | @cons gap lexeme after _ t ps hgap hspells _ _ =>
    rw [renamed, List.append_assoc, List.append_assoc] at hx
    cases gap with
    | cons c gap => exact .inl (Option.some.inj hx ▸ hgap c (List.mem_cons_self ..))
    | nil =>
      refine .inr ⟨_, ps, rfl, ?_⟩
      dsimp only at hx ⊢
      rw [List.nil_append] at hx ⊢
      split at hx
      · next hnames =>
        obtain ⟨c, more, hreference, hc⟩ := exists_reference new
        rw [hreference] at hx
        exact .inl ⟨hnames, Option.some.inj hx ▸ hc⟩
      · obtain ⟨c, more, rfl, -⟩ := hspells.ends
        exact .inr ⟨hx, hspells, hx⟩

/-- No sign of an operator goes on with a name. -/
theorem goesOn_operator (o : Operator) (hx : isNamePart x = true ∨ x = '`') :
    (Token.operator o).goesOn x = false := by
  rw [← Bool.not_eq_true]
  intro hgoes
  obtain rfl | rfl := Token.equals_or_greater hgoes <;> revert hx <;> decide

/-- The signs that stand behind an operand stand in no name. -/
theorem isNamePart_of_spells (hspells : Spells lexeme t) (ht : t.beginsOperand = false)
    (hx : x ∈ lexeme.head?) : isNamePart x = false := by
  cases hspells with
  | closing | comma => exact Option.some.inj hx ▸ (by decide)
  | operator o => cases o <;> exact Option.some.inj hx ▸ (by decide)
  | _ => cases ht

theorem Token.operand_of_isName (ht : t.isName = true) :
    t.endsOperand = true ∧ t.beginsOperand = true := by
  cases t with
  | name _ | quotedName _ => exact ⟨rfl, rfl⟩
  | _ => cases ht

/-- Behind a reference no operand begins. -/
theorem not_beginsOperand_of_names {next : Token} (hnames : names old t (some next) = true)
    (hnext : t.MayPrecede next) : next.beginsOperand = false := by
  rw [← Bool.not_eq_true]
  intro hbegins
  obtain ⟨⟨s, rfl⟩, rfl⟩ :=
    hnext (Token.operand_of_isName (isName_of_names hnames)).1 hbegins
  simp [names] at hnames

/-- In front of a reference no operand ends, so that nothing goes on with a name. -/
theorem goesOn_of_names {next : Token} {behind : Option Token}
    (hnames : names old next behind = true) (hnext : t.MayPrecede next)
    (hx : isNamePart x = true ∨ x = '`') : t.goesOn x = false := by
  have hname := isName_of_names hnames
  have hends : t.endsOperand = false := by
    rw [← Bool.not_eq_true]
    intro hends
    obtain ⟨-, rfl⟩ := hnext hends (Token.operand_of_isName hname).2
    cases hname
  cases t with
  | operator o => exact goesOn_operator o hx
  | opening | comma => rfl
  | _ => cases hends

/-- The new text is cut where the old one was. -/
theorem cut_renamed (old : Header) (hquote : '`' ∉ new.toList) (h : Cut cs ps trailing)
    (hchain : (ps.map Piece.token).IsChain Token.MayPrecede) :
    Cut (renamed old new ps ++ trailing) (replacedPieces old new ps) trailing := by
  induction h with
  | nil h => exact .nil h
  | @cons gap lexeme after trailing t ps hgap hspells hends hrest ih =>
    rw [List.map_cons, List.isChain_cons] at hchain
    obtain ⟨hnext, hchain⟩ := hchain
    rw [renamed, replacedPieces, List.append_assoc, List.append_assoc]
    dsimp only
    split
    · next hnames =>
      refine .cons hgap (spells_reference hquote) (fun x hx => ?_) (ih hchain)
      unfold spelled
      split
      · -- a bare name ends where no other name begins
        rcases hrest.head_renamed hx with hblank | ⟨p, rest, rfl, hhead⟩
        · exact isNamePart_of_isBlank hblank
        · have hbegins := not_beginsOperand_of_names hnames (hnext _ rfl)
          rcases hhead with ⟨hnames', -⟩ | ⟨-, hspells', hx'⟩
          · have hname := (Token.operand_of_isName (isName_of_names hnames')).2
            rw [hbegins] at hname
            cases hname
          · exact isNamePart_of_spells hspells' hbegins hx'
      · rfl
    · refine .cons hgap hspells (fun x hx => ?_) (ih hchain)
      rcases hrest.head_renamed hx with hblank | ⟨p, rest, rfl, hnames' | ⟨hx', -⟩⟩
      · exact t.goesOn_of_isBlank hblank
      · exact goesOn_of_names hnames'.1 (hnext _ rfl) hnames'.2
      · exact hends x hx'

/-! ### Behind the equals sign -/

variable {gap rest : List Char}

theorem ne_equals_of_isBlank (hgap : ∀ c ∈ gap, Text.isBlank c = true) :
    ∀ c ∈ gap, decide (c ≠ '=') = true := by
  intro c hc
  refine decide_eq_true ?_
  rintro rfl
  exact absurd (hgap _ hc) (by decide)

theorem splitEquals_of_equals (hgap : ∀ c ∈ gap, Text.isBlank c = true) (rest : List Char) :
    splitEquals (gap ++ '=' :: rest) = (gap ++ ['='], rest) := by
  have hne := ne_equals_of_isBlank hgap
  have hafter : ∀ d ∈ ('=' :: rest).head?, decide (d ≠ '=') = false := fun d hd =>
    decide_eq_false (not_not.mpr (Option.some.inj hd).symm)
  unfold splitEquals
  simp only [takeWhile_run hne hafter, dropWhile_run hne hafter]
  rw [if_pos (List.all_eq_true.mpr hgap)]

theorem splitEquals_of_ne (hgap : ∀ c ∈ gap, Text.isBlank c = true)
    (hafter : ∀ x ∈ after.head?, Text.isBlank x = false ∧ x ≠ '=') :
    splitEquals (gap ++ after) = ([], gap ++ after) := by
  have hne := ne_equals_of_isBlank hgap
  unfold splitEquals
  simp only [List.takeWhile_append_of_pos hne]
  split
  · rfl
  · next e rest hrest =>
    cases after with
    | nil =>
      rw [List.append_nil] at hrest
      have hnone : gap.dropWhile (fun c => decide (c ≠ '=')) = [] :=
        List.dropWhile_eq_nil_iff.mpr hne
      rw [hrest] at hnone
      cases hnone
    | cons x after =>
      obtain ⟨hblank, hx⟩ := hafter x rfl
      refine if_neg fun hall => ?_
      have hx' : decide (x ≠ '=') = true := decide_eq_true hx
      rw [List.all_append, List.takeWhile_cons, hx', if_pos rfl, List.all_cons, hblank,
        Bool.false_and, Bool.and_false] at hall
      cases hall

/-- A text without the blanks at its ends. -/
theorem trimList_spec (cs : List Char) : ∃ pre post, cs = pre ++ (Text.trimList cs ++ post)
    ∧ (∀ c ∈ pre, Text.isBlank c = true) ∧ (∀ c ∈ post, Text.isBlank c = true)
    ∧ ∀ x ∈ (Text.trimList cs).head?, Text.isBlank x = false := by
  obtain ⟨pre, after, rfl, hpre, hafter, -⟩ := exists_run Text.isBlank cs
  obtain ⟨post, middle, hsplit, hpost, hmiddle, -⟩ := exists_run Text.isBlank after.reverse
  have htrim : Text.trimList (pre ++ after) = middle.reverse := by
    unfold Text.trimList
    rw [dropWhile_run hpre hafter, hsplit, dropWhile_run hpost hmiddle]
  have hback : after = middle.reverse ++ post.reverse := by
    rw [← List.reverse_append, ← hsplit, List.reverse_reverse]
  rw [htrim]
  refine ⟨pre, post.reverse, congrArg (pre ++ ·) hback, hpre,
    fun c hc => hpost c (List.mem_reverse.mp hc), fun x hx => hafter x ?_⟩
  rw [hback, List.head?_append, Option.mem_def.mp hx]
  rfl

/-- What a formula is read from stands behind the equals sign, with blanks around it. -/
theorem body_spec (text : String) :
    ∃ pre post, (splitEquals text.toList).2 = pre ++ (body text ++ post)
    ∧ (∀ c ∈ pre, Text.isBlank c = true) ∧ (∀ c ∈ post, Text.isBlank c = true) := by
  obtain ⟨pre, post, hsplit, hpre, hpost, hhead⟩ := trimList_spec text.toList
  unfold body
  split
  · next rest htrim =>
    rw [htrim, List.cons_append] at hsplit
    rw [hsplit, splitEquals_of_equals hpre]
    exact ⟨[], post, rfl, nofun, hpost⟩
  · next hne =>
    cases htrim : Text.trimList text.toList with
    | nil =>
      have hblank : ∀ c ∈ pre ++ post, Text.isBlank c = true :=
        List.forall_mem_append.mpr ⟨hpre, hpost⟩
      have hnone : splitEquals (pre ++ post ++ []) = ([], pre ++ post ++ []) :=
        splitEquals_of_ne hblank nofun
      rw [List.append_nil] at hnone
      rw [htrim, List.nil_append] at hsplit
      rw [hsplit, hnone]
      exact ⟨pre, post, rfl, hpre, hpost⟩
    | cons x rest =>
      rw [htrim] at hsplit hhead
      have hx : x ≠ '=' := fun heq => hne rest (heq ▸ htrim)
      have hstart : ∀ y ∈ (x :: rest ++ post).head?, Text.isBlank y = false ∧ y ≠ '=' :=
        fun y hy => Option.some.inj hy ▸ ⟨hhead x rfl, hx⟩
      rw [hsplit, splitEquals_of_ne hpre hstart]
      exact ⟨pre, post, rfl, hpre, hpost⟩

/-- A formula is zero if there are only blanks behind the equals sign, and otherwise what the
  tokens there write. -/
theorem parse_eq_ok {text : String} {headers : List Header} {e : Formula} :
    parse text headers = .ok e
      ↔ (∀ c ∈ (splitEquals text.toList).2, Text.isBlank c = true) ∧ e = .number 0
        ∨ (∃ c ∈ (splitEquals text.toList).2, Text.isBlank c = false)
          ∧ ∃ ts, tokens (splitEquals text.toList).2 = .ok ts ∧ ofTokens headers ts = .ok e := by
  obtain ⟨pre, post, hsplit, hpre, hpost⟩ := body_spec text
  rw [hsplit]
  simp only [tokens_padded hpre hpost]
  unfold parse
  dsimp only
  split
  · next hall =>
    have hblank : ∀ c ∈ pre ++ (body text ++ post), Text.isBlank c = true :=
      List.forall_mem_append.mpr
        ⟨hpre, List.forall_mem_append.mpr ⟨List.all_eq_true.mp hall, hpost⟩⟩
    constructor
    · intro h
      exact .inl ⟨hblank, (Except.ok.inj h).symm⟩
    · rintro (⟨-, rfl⟩ | ⟨⟨c, hc, hnot⟩, -⟩)
      · rfl
      · rw [hblank c hc] at hnot
        cases hnot
  · next hall =>
    obtain ⟨c, hc, hnot⟩ : ∃ c ∈ body text, Text.isBlank c = false := by
      simpa using hall
    have hmem : c ∈ pre ++ (body text ++ post) :=
      List.mem_append_right _ (List.mem_append_left _ hc)
    rw [bind_eq_ok]
    constructor
    · intro h
      exact .inr ⟨⟨c, hmem, hnot⟩, h⟩
    · rintro (⟨hblank, -⟩ | ⟨-, h⟩)
      · rw [hblank c hmem] at hnot
        cases hnot
      · exact h

/-! ### Renaming -/

/-- A text that is not blank has tokens, and conversely. -/
theorem Cut.blank_iff (h : Cut cs ps trailing) :
    (∀ c ∈ cs, Text.isBlank c = true) ↔ ps = [] := by
  cases h with
  | nil h => exact iff_of_true h rfl
  | @cons gap lexeme after _ t ps _ hspells _ _ =>
    obtain ⟨c, more, rfl, hc, -⟩ := hspells.ends
    refine iff_of_false (fun hall => ?_) nofun
    have hblank := hall c (List.mem_append_right _ (List.mem_cons_self ..))
    rw [hc] at hblank
    cases hblank

/-- An equals sign at the beginning of a text is found, and nothing else is. -/
theorem splitEquals_cases (cs : List Char) :
    ∃ gap after, cs = gap ++ after ∧ (∀ c ∈ gap, Text.isBlank c = true)
      ∧ ((∃ rest, after = '=' :: rest ∧ splitEquals cs = (gap ++ ['='], rest))
        ∨ (∀ x ∈ after.head?, Text.isBlank x = false ∧ x ≠ '=') ∧ splitEquals cs = ([], cs)) := by
  obtain ⟨gap, after, rfl, hgap, hafter, -⟩ := exists_run Text.isBlank cs
  refine ⟨gap, after, rfl, hgap, ?_⟩
  by_cases hequals : after.head? = some '='
  · obtain ⟨rest, rfl⟩ := List.head?_eq_some_iff.mp hequals
    exact .inl ⟨rest, rfl, splitEquals_of_equals hgap rest⟩
  · have hhead : ∀ x ∈ after.head?, Text.isBlank x = false ∧ x ≠ '=' := fun x hx =>
      ⟨hafter x hx, fun heq => hequals (heq ▸ hx)⟩
    exact .inr ⟨hhead, splitEquals_of_ne hgap hhead⟩

theorem splitEquals_append (cs : List Char) : (splitEquals cs).1 ++ (splitEquals cs).2 = cs := by
  obtain ⟨gap, after, rfl, -, ⟨rest, rfl, hsplit⟩ | ⟨-, hsplit⟩⟩ := splitEquals_cases cs
  · rw [hsplit, List.append_assoc]
    rfl
  · rw [hsplit, List.nil_append]

/-- The new text is split behind the same equals sign. -/
theorem splitEquals_renamed (h : Cut (splitEquals cs).2 ps trailing) :
    splitEquals ((splitEquals cs).1 ++ (renamed old new ps ++ trailing))
      = ((splitEquals cs).1, renamed old new ps ++ trailing) := by
  obtain ⟨gap, after, rfl, hgap, ⟨rest, rfl, hsplit⟩ | ⟨hafter, hsplit⟩⟩ := splitEquals_cases cs
  · rw [hsplit, List.append_assoc]
    exact splitEquals_of_equals hgap _
  · rw [hsplit] at h ⊢
    rw [List.nil_append]
    dsimp only at h
    generalize hcs : gap ++ after = cs at h
    cases h with
    | nil _ =>
      rw [renamed, List.nil_append, ← hcs]
      exact splitEquals_of_ne hgap hafter
    | @cons gap' lexeme behind _ t ps hgap' hspells _ _ =>
      obtain ⟨c, more, rfl, hc, -⟩ := hspells.ends
      -- the token starts where the blanks end
      have hbegin := dropWhile_run hgap fun x hx => (hafter x hx).1
      have hstart : ∀ x ∈ (c :: more ++ behind).head?, Text.isBlank x = false := fun x hx =>
        Option.some.inj hx ▸ hc
      rw [hcs, dropWhile_run hgap' hstart] at hbegin
      rw [renamed, List.append_assoc, List.append_assoc]
      refine splitEquals_of_ne hgap' fun x hx => ?_
      dsimp only at hx
      split at hx
      · obtain ⟨d, rest, hreference, hd⟩ := exists_reference new
        rw [hreference] at hx
        obtain rfl := Option.some.inj hx
        rcases hd with hd | rfl
        · refine ⟨isBlank_of_isNamePart hd, ?_⟩
          rintro rfl
          exact absurd hd (by decide)
        · decide
      · exact hafter x (hbegin ▸ hx)

/-- Behind the equals sign the new text has the new pieces. -/
theorem toList_renameReferences {text : String}
    (h : Cut (splitEquals text.toList).2 ps trailing) :
    (renameReferences text old new).toList
      = (splitEquals text.toList).1 ++ (renamed old new ps ++ trailing) := by
  unfold renameReferences
  simp only [pieces_eq_ok.mpr h, String.toList_ofList, List.append_assoc]

/-- The text with the references replaced is read over the new headers as the formula with the
  header renamed in it. -/
theorem parse_respelled_of_noTruth {text : String} {headers : List Header} {e : Formula}
    (h : parse text headers = .ok e) (hold : old ∈ headers) (hquote : '`' ∉ new.toList)
    (hno : NoTruth headers new) :
    parse (renameReferences text old new) (headers.map (retitle old new))
      = .ok (mapColumns (retitle old new) e) := by
  rw [parse_eq_ok] at h ⊢
  rcases h with ⟨hblank, rfl⟩ | ⟨⟨c, hc, hnot⟩, ts, hts, hformula⟩
  · have hcut := Cut.nil hblank
    rw [toList_renameReferences hcut, splitEquals_renamed hcut]
    exact .inl ⟨hblank, rfl⟩
  · obtain ⟨ps, trailing, hcut, rfl⟩ := tokens_eq_ok.mp hts
    have hformula' := (ofTokens_marked_of_noTruth hold hno hformula).1
    have hcut' := cut_renamed old hquote hcut (mayPrecede_of_ofTokens hformula)
    have hnotblank : ¬ ∀ c ∈ renamed old new ps ++ trailing, Text.isBlank c = true := by
      rw [hcut'.blank_iff]
      intro hnil
      obtain rfl : ps = [] := by
        cases ps with
        | nil => rfl
        | cons p rest => cases hnil
      rw [hcut.blank_iff.mpr rfl c hc] at hnot
      cases hnot
    rw [toList_renameReferences hcut, splitEquals_renamed hcut]
    refine .inr ⟨?_, _, tokens_eq_ok.mpr ⟨_, trailing, hcut', tokens_replacedPieces old new ps⟩,
      hformula'⟩
    simpa using hnotblank

/-- The same if the new header is no word for a truth value. -/
theorem parse_respelled {text : String} {headers : List Header} {e : Formula}
    (h : parse text headers = .ok e) (hold : old ∈ headers) (hquote : '`' ∉ new.toList)
    (htrue : Function.capitals new ≠ "TRUE") (hfalse : Function.capitals new ≠ "FALSE") :
    parse (renameReferences text old new) (headers.map (retitle old new))
      = .ok (mapColumns (retitle old new) e) :=
  parse_respelled_of_noTruth h hold hquote fun _ => ⟨htrue, hfalse⟩

/-- A formula stays what it is when a header is renamed: the text with the references replaced
  is read over the new headers as the formula with the header renamed in it, one reference for
  each place where the formula has the column, and no other character of the text changes. -/
theorem parse_renameReferences {text : String} {headers : List Header} {e : Formula}
    (h : parse text headers = .ok e) (hold : old ∈ headers) (hquote : '`' ∉ new.toList)
    (htrue : Function.capitals new ≠ "TRUE") (hfalse : Function.capitals new ≠ "FALSE") :
    parse (renameReferences text old new) (headers.map (retitle old new))
        = .ok (mapColumns (retitle old new) e)
      ∧ Respelled old new text.toList (renameReferences text old new).toList
          (e.columns.count old) := by
  refine ⟨parse_respelled h hold hquote htrue hfalse, ?_⟩
  have hrespelled : ∀ {ps trailing}, Cut (splitEquals text.toList).2 ps trailing →
      Respelled old new text.toList (renameReferences text old new).toList
        (mentions old (ps.map Piece.token)) := by
    intro ps trailing hcut
    have hkept := (hcut.respelled old new).kept (splitEquals text.toList).1
    rwa [splitEquals_append, ← toList_renameReferences hcut] at hkept
  rw [parse_eq_ok] at h
  rcases h with ⟨hblank, rfl⟩ | ⟨-, ts, hts, hformula⟩
  · exact hrespelled (Cut.nil hblank)
  · obtain ⟨ps, trailing, hcut, rfl⟩ := tokens_eq_ok.mp hts
    have hcount := (ofTokens_marked hold htrue hfalse hformula).2
    exact hcount ▸ hrespelled hcut

namespace Sample

/-- A formula over two columns, the first of which it names in two ways. -/
def text : String := " =IF(B,SUM(A),\"A\")&`A`"

/-- The formula with some header in the place of the first column. -/
def joined (h : Header) : Formula :=
  .binary .join (.call .choose [.column "B", .call .sum [.column h], .text "A"]) (.column h)

theorem parse_text : parse text ["A", "B"] = .ok (joined "A") := by
  have htokens : tokens (splitEquals text.toList).2 = .ok
      [.name "IF", .opening, .name "B", .comma, .name "SUM", .opening, .name "A", .closing, .comma,
       .text "A", .closing, .operator .join, .quotedName "A"] := by decide +kernel
  exact parse_eq_ok.mpr (.inr ⟨⟨'I', by decide, by decide⟩, _, htokens, rfl⟩)

end Sample

/-- The column gets the name of a function that the formula calls.  The text between quotes
  stays, and so does the call. -/
theorem parse_renameReferences_function :
    parse Sample.text ["A", "B"] = .ok (Sample.joined "A")
      ∧ renameReferences Sample.text "A" "SUM" = " =IF(B,SUM(`SUM`),\"A\")&`SUM`"
      ∧ parse " =IF(B,SUM(`SUM`),\"A\")&`SUM`" ["SUM", "B"] = .ok (Sample.joined "SUM")
      ∧ Respelled "A" "SUM" Sample.text.toList " =IF(B,SUM(`SUM`),\"A\")&`SUM`".toList 2 := by
  have hrenamed : renameReferences Sample.text "A" "SUM" = " =IF(B,SUM(`SUM`),\"A\")&`SUM`" := by
    decide +kernel
  have hold : "A" ∈ ["A", "B"] := by decide
  have hquote : '`' ∉ "SUM".toList := by decide
  have h := parse_renameReferences Sample.parse_text hold hquote (by decide) (by decide)
  rw [hrenamed] at h
  exact ⟨Sample.parse_text, hrenamed, h⟩

end SheetScript.Formula
