import SheetScript.Proofs.Expression.Grammar
import SheetScript.Proofs.Expression.Literal

/-!
# Texts of phrases

  How the text of a phrase is put together from the texts of its parts.  Behind
  an operand may stand what binds more than its sign: a method, or an exponent.
  Therefore an operand gives an expression for every such use of it
  (`Operand`): in `-a.abs()` the method is called on `a`, and then comes the
  sign.
-/

namespace SheetScript.Expression

/-- A call of `f` with the given arguments. -/
def invoke (f : Expression) (args : List Expression) : Expression :=
  args.foldl (fun c v => .argument c none v) (.called f)

/-- A call of a method of `object`. -/
def method (object : Expression) (name : String) (args : List Expression) : Expression :=
  invoke (.member object name) args

/-- Expressions with plus signs between them. -/
def total : List Expression → Expression
  | [] => .constant "None"
  | e :: rest => rest.foldl (.binary .add) e

/-! ### Derivations -/

namespace Derives

variable {ts us : List Token} {a b e v : Expression}

theorem trailers_append (h : Derives (.trailers a) ts b) (h' : Derives (.trailers b) us e) :
    Derives (.trailers a) (ts ++ us) e := by
  generalize hp : Phrase.trailers a = p at h
  induction h generalizing a with
  | noTrailer =>
    cases hp
    exact h'
  | member _ ih =>
    cases hp
    exact .member (ih h' rfl)
  | item hi _ _ ih =>
    cases hp
    rw [List.cons_append, List.append_assoc]
    exact .item hi (ih h' rfl)
  | call _ ih =>
    cases hp
    exact .call (ih h' rfl)
  | callWith hargs _ _ ih =>
    cases hp
    rw [List.cons_append, List.append_assoc]
    exact .callWith hargs (ih h' rfl)
  | _ => cases hp

theorem primary_append (h : Derives .primary ts a) (h' : Derives (.trailers a) us e) :
    Derives .primary (ts ++ us) e := by
  cases h with
  | primary hatom htrailers =>
    rw [List.append_assoc]
    exact .primary hatom (htrailers.trailers_append h')

theorem primary_of_atom (h : Derives .atom ts e) : Derives .primary ts e := by
  simpa using Derives.primary h (.noTrailer e)

theorem factor_of_atom (h : Derives .atom ts e) : Derives .factor ts e :=
  .unsigned (.base h.primary_of_atom)

theorem product (h : Derives .factor ts e) : Derives (.level .product) ts e := by
  simpa using Derives.level (l := .product) h (.noOperand .product e)

theorem summand (h : Derives .factor ts e) : Derives (.level .sum) ts e := by
  simpa using Derives.level (l := .sum) h.product (.noOperand .sum e)

theorem compared_factor (h : Derives .factor ts e) : Derives .comparison ts e :=
  .uncompared h.summand

theorem whole (h : Derives .factor ts e) : Derives .expression ts e :=
  .unconditional h.compared_factor

/-- An operator that is no power between two operands. -/
theorem binary {o : Operator} (hpower : o ≠ .power) (hjoin : o ≠ .join)
    (ha : Derives .factor ts a) (hb : Derives .factor us b) :
    Derives .expression (ts ++ .operator o :: us) (.binary o a b) := by
  have hproduct (ho : o ∈ Level.product.operators) :
      Derives .expression (ts ++ .operator o :: us) (.binary o a b) := by
    have htail := Derives.operand ho hb (.noOperand .product (.binary o a b))
    rw [List.append_nil] at htail
    have hlevel := Derives.level (l := .product) ha htail
    simpa using Derives.unconditional (.uncompared (.level hlevel (.noOperand .sum _)))
  have hsum (ho : o ∈ Level.sum.operators) :
      Derives .expression (ts ++ .operator o :: us) (.binary o a b) := by
    have htail := Derives.operand ho hb.product (.noOperand .sum (.binary o a b))
    rw [List.append_nil] at htail
    exact .unconditional (.uncompared (.level ha.product htail))
  have hcomparison (ho : o ∈ comparisons) :
      Derives .expression (ts ++ .operator o :: us) (.binary o a b) := by
    have hcompared := Derives.compared ho ha.summand hb.summand (.chainEnd (.binary o a b))
    rw [List.append_nil] at hcompared
    exact .unconditional hcompared
  cases o with
  | power => exact absurd rfl hpower
  | join => exact absurd rfl hjoin
  | multiply | divide => exact hproduct (by decide)
  | add | subtract => exact hsum (by decide)
  | _ => exact hcomparison (by decide)

theorem argument_last {c : Expression} (h : Derives .expression ts v) :
    Derives (.arguments false c) ts (.argument c none v) := by
  simpa using Derives.argument h (.noArgument false _)

theorem call_one (h : Derives .expression ts v) :
    Derives (.trailers a) (.opening :: (ts ++ [.closing])) (invoke a [v]) :=
  .callWith h.argument_last (.noTrailer _)

theorem call_two (h : Derives .expression ts v) (h' : Derives .expression us e) :
    Derives (.trailers a) (.opening :: (ts ++ .comma :: us ++ [.closing])) (invoke a [v, e]) :=
  .callWith (.argument h (.nextArgument h'.argument_last)) (.noTrailer _)

end Derives

/-! ### Texts -/

/-- A text of a phrase; behind a firm one no token is open. -/
def Spells (firm : Bool) (p : Phrase) (s : String) (e : Expression) : Prop :=
  ∃ ts, Cuts firm s ts ∧ Derives p ts e

/-- What stands behind a primary expression makes a power of it. -/
def Extends (us : List Token) (w : Expression → Expression) : Prop :=
  ∀ {qs : List Token} {b : Expression}, Derives .primary qs b → Derives .power (qs ++ us) (w b)

/-- A text of an operand that stands for `r w` where `w` is made of what follows
  its signs. -/
def Operand (firm : Bool) (s : String) (r : (Expression → Expression) → Expression) : Prop :=
  ∃ ts, Cuts firm s ts ∧
    ∀ {us : List Token} {w : Expression → Expression}, Extends us w →
      Derives .factor (ts ++ us) (r w)

theorem Extends.nil : Extends [] id := by
  intro qs b h
  rw [List.append_nil]
  exact .base h

/-- An exponent. -/
theorem Extends.exponent {ts : List Token} {x : Expression} (h : Derives .factor ts x) :
    Extends (.operator .power :: ts) fun b => .binary .power b x := by
  intro qs b hb
  exact .exponent hb h

theorem Extends.trailers {ts us : List Token} {f w : Expression → Expression}
    (hf : ∀ b, Derives (.trailers b) ts (f b)) (h : Extends us w) :
    Extends (ts ++ us) fun b => w (f b) := by
  intro qs b hb
  rw [← List.append_assoc]
  exact h (hb.primary_append (hf b))

namespace Cuts

variable {f g : Bool} {s pre post : String} {ps ts qs : List Token}

theorem opening : Cuts true "(" [.opening] := of_feed rfl

theorem closing (f : Bool) : Cuts f ")" [.closing] := of_feed rfl

theorem comma : Cuts true ", " [.comma] := of_feed rfl

/-- A text between two others. -/
theorem enclosed (hs : Cuts f s ts) (hpre : Cuts true pre ps) (hpost : Cuts g post qs)
    (hstop : State.startsWithStop post = true) :
    Cuts g (pre ++ s ++ post) (ps ++ ts ++ qs) :=
  (hpre.append hs).append_stop hpost hstop

end Cuts

namespace Spells

variable {f g : Bool} {s s' : String} {e e' : Expression}

theorem operand {s : String} (h : Spells f .primary s e) : Operand f s fun w => w e := by
  obtain ⟨ts, hs, he⟩ := h
  exact ⟨ts, hs, fun hw => .unsigned (hw he)⟩

theorem loose {p : Phrase} (h : Spells f p s e) : Spells false p s e := by
  obtain ⟨ts, hs, he⟩ := h
  exact ⟨ts, hs.loose, he⟩

theorem bracketed (h : Spells f .expression s e) : Spells g .primary (Formula.bracketed s) e := by
  obtain ⟨ts, hs, he⟩ := h
  have hcuts := hs.enclosed .opening (.closing g) rfl
  exact ⟨_, hcuts, (Derives.bracketed he).primary_of_atom⟩

/-- A text in quotes. -/
theorem text (s : String) : Spells g .primary (Literal.text s) (.text s) :=
  ⟨_, Cuts.text g s, (Derives.text s).primary_of_atom⟩

theorem numeral {cs : List Char} (h : Numeral cs) :
    Spells false .primary (String.ofList cs) (.number (String.ofList cs)) :=
  ⟨_, h.cuts, (Derives.number _).primary_of_atom⟩

/-- A call of a function of one argument. -/
theorem call_one {name pre : String} (hpre : Cuts true pre [.name name, .opening])
    (h : Spells f .expression s e) : Spells g .primary (pre ++ s ++ ")") (invoke (.name name) [e]) := by
  obtain ⟨ts, hs, he⟩ := h
  have hcuts := hs.enclosed hpre (.closing g) rfl
  have hcall := Derives.primary (.name name) he.call_one
  exact ⟨_, hcuts, by simpa using hcall⟩

/-- A call of a function of two arguments. -/
theorem call_two {name pre : String} (hpre : Cuts true pre [.name name, .opening])
    (h : Spells f .expression s e) (h' : Spells g .expression s' e') {k : Bool} :
    Spells k .primary (pre ++ s ++ ", " ++ s' ++ ")") (invoke (.name name) [e, e']) := by
  obtain ⟨ts, hs, he⟩ := h
  obtain ⟨ts', hs', he'⟩ := h'
  have hcuts := hs'.enclosed (hs.enclosed hpre .comma rfl) (.closing k) rfl
  refine ⟨_, hcuts, ?_⟩
  have hcall := Derives.primary (.name name) (he.call_two he')
  simpa using hcall

/-- A method, or a member, of what is no operand with a sign. -/
theorem trailers {m : String} {ms : List Token} {w : Expression → Expression}
    (h : Spells true .primary s e) (hm : Cuts g m ms) (hw : ∀ b, Derives (.trailers b) ms (w b)) :
    Spells g .primary (s ++ m) (w e) := by
  obtain ⟨ts, hs, he⟩ := h
  exact ⟨_, hs.append hm, he.primary_append (hw e)⟩

/-- A choice between two operands. -/
theorem conditional {a c b : String} {a' c' b' : Expression} {f₁ f₂ f₃ : Bool}
    (ha : Spells f₁ .factor a a') (hc : Spells f₂ .factor c c') (hb : Spells f₃ .factor b b') :
    Spells g .primary ("(" ++ a ++ " if " ++ c ++ " else " ++ b ++ ")")
      (.conditional a' c' b') := by
  obtain ⟨ts, hts, ha⟩ := ha
  obtain ⟨us, hus, hc⟩ := hc
  obtain ⟨vs, hvs, hb⟩ := hb
  have hif : Cuts true " if " [.ifWord] := Cuts.of_feed rfl
  have helse : Cuts true " else " [.elseWord] := Cuts.of_feed rfl
  have hchoice := hus.enclosed (hts.enclosed .opening hif rfl) helse rfl
  have hcuts := hvs.enclosed hchoice (.closing g) rfl
  refine ⟨_, hcuts, ?_⟩
  have hderives := Derives.conditional ha.compared_factor hc.compared_factor hb.whole
  simpa using (Derives.bracketed hderives).primary_of_atom

end Spells

namespace Operand

variable {f g : Bool} {s s' : String} {r r' : (Expression → Expression) → Expression}

theorem factor (h : Operand f s r) : Spells f .factor s (r id) := by
  obtain ⟨ts, hs, hr⟩ := h
  refine ⟨ts, hs, ?_⟩
  simpa using hr Extends.nil

theorem expression (h : Operand f s r) : Spells f .expression s (r id) := by
  obtain ⟨ts, hs, he⟩ := h.factor
  exact ⟨ts, hs, he.whole⟩

/-- A sign stands before all that is made of the operand. -/
theorem negated (h : Operand f s r) : Operand f ("-" ++ s) fun w => .negated (r w) := by
  obtain ⟨ts, hs, hr⟩ := h
  have hsign : Cuts true "-" [.operator .subtract] := Cuts.of_feed rfl
  exact ⟨_, hsign.append hs, fun hw => .negated (hr hw)⟩

/-- A method is called before the signs of an operand count. -/
theorem trailers {m : String} {ms : List Token} {w : Expression → Expression}
    (h : Operand true s r) (hm : Cuts g m ms) (hw : ∀ b, Derives (.trailers b) ms (w b)) :
    Operand g (s ++ m) fun w' => r fun b => w' (w b) := by
  obtain ⟨ts, hs, hr⟩ := h
  refine ⟨_, hs.append hm, ?_⟩
  intro us w' hw'
  rw [List.append_assoc]
  exact hr (Extends.trailers hw hw')

/-- How the script writes an operator between two operands. -/
theorem cuts_operator (o : Operator) :
    Cuts true (" " ++ o.code ++ " ") [.operator (if o = .join then .add else o)] := by
  cases o <;> exact Cuts.of_feed rfl

theorem binary {o : Operator} (hpower : o ≠ .power) (hjoin : o ≠ .join) (h : Operand f s r)
    (h' : Operand g s' r') :
    Spells g .expression (s ++ " " ++ o.code ++ " " ++ s') (.binary o (r id) (r' id)) := by
  obtain ⟨ts, hs, he⟩ := h.factor
  obtain ⟨us, hs', he'⟩ := h'.factor
  have hop := cuts_operator o
  rw [if_neg hjoin] at hop
  have hcuts := (hs.append_stop hop (by cases o <;> rfl)).append hs'
  refine ⟨_, ?_, Derives.binary hpower hjoin he he'⟩
  simpa [String.append_assoc] using hcuts

/-- The base of a power stands without its signs. -/
theorem power (h : Operand f s r) (h' : Operand g s' r') :
    Spells g .expression (s ++ " ** " ++ s') (r fun b => .binary .power b (r' id)) := by
  obtain ⟨ts, hs, hr⟩ := h
  obtain ⟨us, hs', he'⟩ := h'.factor
  have hop : Cuts true " ** " [.operator .power] := Cuts.of_feed rfl
  have hcuts := (hs.append_stop hop rfl).append hs'
  refine ⟨_, hcuts, ?_⟩
  have hpower := (hr (Extends.exponent he')).whole
  simpa using hpower

end Operand

/-! ### Sums -/

/-- Summands behind the first one. -/
theorem exists_tail {ss : List String} {es : List Expression}
    (h : List.Forall₂ (Spells false .factor) ss es) (a : Expression) :
    ∃ us, Derives (.tail .sum a) us (es.foldl (.binary .add) a) ∧
      ∀ {f : Bool} {s : String} {ts : List Token}, Cuts f s ts →
        Cuts false (" + ".intercalate (s :: ss)) (ts ++ us) := by
  induction h generalizing a with
  | nil =>
    refine ⟨[], .noOperand .sum a, ?_⟩
    intro f s ts hs
    rw [List.append_nil, String.intercalate_singleton]
    exact hs.loose
  | @cons s₁ e₁ ss es hfirst _ ih =>
    obtain ⟨us₁, hs₁, he₁⟩ := hfirst
    obtain ⟨us, hus, hcuts⟩ := ih (.binary .add a e₁)
    refine ⟨.operator .add :: (us₁ ++ us), .operand (by decide) he₁.product hus, ?_⟩
    intro f s ts hs
    have hplus : Cuts true " + " [.operator .add] := Cuts.of_feed rfl
    have hhead := hs.append_stop hplus rfl
    rw [String.intercalate_cons_cons]
    simpa using hhead.append (hcuts hs₁)

/-- Operands with plus signs between them. -/
theorem Spells.total {ss : List String} {es : List Expression}
    (h : List.Forall₂ (Spells false .factor) ss es) (hne : ss ≠ []) :
    Spells false .expression (" + ".intercalate ss) (total es) := by
  cases h with
  | nil => exact absurd rfl hne
  | cons hfirst hrest =>
    obtain ⟨ts, hs, he⟩ := hfirst
    obtain ⟨us, hus, hcuts⟩ := exists_tail hrest _
    exact ⟨_, hcuts hs, .unconditional (.uncompared (.level he.product hus))⟩

/-! ### The dataframe -/

/-- The column of a dataframe under a header. -/
def column (df : String) (header : String) : Expression := .item (.name df) (.text header)

/-- The tokens of a column. -/
def columnTokens (df header : String) : List Token :=
  [.name df, .openingIndex, .text header, .closingIndex]

theorem Cuts.column {df : String} (hdf : Naming.isVariableName df = true) (header : String) :
    Cuts true (df ++ "[" ++ Literal.text header ++ "]") (columnTokens df header) := by
  have hopening : Cuts true "[" [.openingIndex] := Cuts.of_feed rfl
  have hclosing : Cuts true "]" [.closingIndex] := Cuts.of_feed rfl
  have hindex := (hopening.append (Cuts.text true header)).append hclosing
  have hcuts := Cuts.name hdf hindex (.inl (by simp))
  simpa [columnTokens, String.append_assoc] using hcuts

theorem Derives.column (df header : String) :
    Derives .primary (columnTokens df header) (column df header) := by
  have htext : Derives .expression [.text header] (.text header) :=
    (Derives.text header).factor_of_atom.whole
  exact .primary (.name df) (.item htext (.noTrailer _))

theorem Spells.column {df : String} (hdf : Naming.isVariableName df = true) (header : String) :
    Spells true .primary (df ++ "[" ++ Literal.text header ++ "]") (column df header) :=
  ⟨_, Cuts.column hdf header, Derives.column df header⟩

/-- A column of `value` along the index of a dataframe, kept where a condition
  holds and replaced elsewhere. -/
def kept (df : String) (value condition otherwise : Expression) : Expression :=
  method (.argument (method (.name "pd") "Series" [value]) (some "index")
    (.member (.name df) "index")) "where" [condition, otherwise]

theorem Spells.kept {df a c b : String} (hdf : Naming.isVariableName df = true)
    {a' c' b' : Expression} {f₁ f₂ f₃ : Bool} (ha : Spells f₁ .expression a a')
    (hc : Spells f₂ .expression c c') (hb : Spells f₃ .expression b b') :
    Spells true .primary
      ("pd.Series(" ++ a ++ ", index=" ++ df ++ ".index).where(" ++ c ++ ", " ++ b ++ ")")
      (kept df a' c' b') := by
  obtain ⟨ts, hts, ha⟩ := ha
  obtain ⟨us, hus, hc⟩ := hc
  obtain ⟨vs, hvs, hb⟩ := hb
  have hseries : Cuts true "pd.Series(" [.name "pd", .dot, .name "Series", .opening] :=
    Cuts.of_feed rfl
  have hwhere : Cuts true ".index).where(" [.dot, .name "index", .closing, .dot, .name "where",
      .opening] := Cuts.of_feed rfl
  have hmember : Derives .expression [.name df, .dot, .name "index"]
      (.member (.name df) "index") :=
    (Derives.unsigned (.base (.primary (.name df) (.member (.noTrailer _))))).whole
  -- the name of an argument is cut off together with its equals sign
  have hindex : Cuts true (", index=" ++ (df ++ ".index).where(")) ([.comma] ++
      .argumentName "index" :: .name df :: [.dot, .name "index", .closing, .dot, .name "where",
        .opening]) := by
    have hopen : State.blank.feed ", index=".toList =
        some ([.comma], .assigned "index".toList) := rfl
    have hname : argumentToken? "index".toList = some (.argumentName "index") := rfl
    apply Cuts.argumentName hopen hname (Cuts.name hdf hwhere (.inr rfl))
    obtain ⟨c, hc, hstart⟩ := exists_nameStart hdf
    refine ⟨c, ?_, hstart⟩
    rw [String.toList_append, Option.mem_def, List.head?_append, hc, Option.some_or]
  have hstop : State.startsWithStop (", index=" ++ (df ++ ".index).where(")) = true := by
    simp [State.startsWithStop, State.stops]
  have hleft := (hts.enclosed hseries hindex hstop).append
    (hus.append_stop .comma rfl)
  have hcuts := (hleft.append hvs).append_stop (.closing true) rfl
  have harguments : Derives (.arguments false (.called (.member (.name "pd") "Series")))
      (ts ++ .comma :: .argumentName "index" :: ([.name df, .dot, .name "index"] ++ []))
      (.argument (invoke (.member (.name "pd") "Series") [a']) (some "index")
        (.member (.name df) "index")) :=
    .argument ha (.nextArgument (.namedArgument hmember (.noArgument true _)))
  have htrailers : Derives (.trailers (.name "pd")) _ (Expression.kept df a' c' b') :=
    .member (.callWith harguments (.member (hc.call_two hb)))
  refine ⟨_, ?_, .primary (.name "pd") htrailers⟩
  simpa [String.append_assoc] using hcuts

end SheetScript.Expression
