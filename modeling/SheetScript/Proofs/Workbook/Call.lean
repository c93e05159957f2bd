import SheetScript.Proofs.Decimal
import SheetScript.Proofs.Naming
import SheetScript.Workbook.Code

/-! # Reading calls

  A call is read without knowing what its arguments are: it is cut into the texts in quotes
  and the characters outside of them, and a name before an equals sign outside of quotes is
  that of an argument.

  Main statements: literals are cut into one text, or into signs without an equals sign
  (`Cuts.text`, `Quiet.value`), and the argument of a name is the one that was written with
  it (`lookup_written`).
-/

namespace SheetScript.Call

/-- A part of a call. -/
inductive Piece where
  | text (s : String)
  /-- A character outside of quotes. -/
  | sign (c : Char)
  deriving DecidableEq, Repr

/-- Where in a call a character stands; of a text in quotes the part before it is known. -/
inductive Place where
  | outside
  | inside (quote : Char) (read : List Char)
  /-- After a backslash. -/
  | escaped (quote : Char) (read : List Char)
  deriving DecidableEq, Repr

/-- What a character after a backslash stands for. -/
def unescape : Char → Char
  | 'n' => '\n'
  | 't' => '\t'
  | 'r' => '\x0d'
  | c => c

namespace Place

/-- What a character completes, and where the next one stands. -/
def step : Place → Char → List Piece × Place
  | .outside, c =>
    if c = '\'' ∨ c = '"' then ([], .inside c []) else ([.sign c], .outside)
  | .inside quote read, c =>
    if c = '\\' then ([], .escaped quote read)
    else if c = quote then ([.text (String.ofList read)], .outside)
    else ([], .inside quote (read ++ [c]))
  | .escaped quote read, c => ([], .inside quote (read ++ [unescape c]))

/-- What characters complete one after the other, and where the next one stands. -/
def feed (p : Place) : List Char → List Piece × Place
  | [] => ([], p)
  | c :: cs => ((p.step c).1 ++ ((p.step c).2.feed cs).1, ((p.step c).2.feed cs).2)

theorem feed_append (p : Place) (a b : List Char) :
    p.feed (a ++ b) = ((p.feed a).1 ++ ((p.feed a).2.feed b).1, ((p.feed a).2.feed b).2) := by
  induction a generalizing p with
  | nil => rfl
  | cons c a ih => simp [feed, ih]

end Place

/-- The pieces of a call. -/
def pieces (s : String) : List Piece := (Place.outside.feed s.toList).1

/-- The named arguments among some pieces, each with all that follows its equals sign; `name` is
  what was read of a name. -/
def argumentsFrom (name : List Char) : List Piece → List (String × List Piece)
  | [] => []
  | .text _ :: rest => argumentsFrom [] rest
  | .sign c :: rest =>
    if c = '=' then (String.ofList name, rest) :: argumentsFrom [] rest
    else argumentsFrom (if Naming.isNamePart c then name ++ [c] else []) rest

/-- What follows the equals sign of an argument of a call. -/
def argument? (call name : String) : Option (List Piece) :=
  (argumentsFrom [] (pieces call)).lookup name

/-! ### Cutting -/

/-- A text that is cut into some pieces and leaves no quotes open. -/
def Cuts (s : String) (ps : List Piece) : Prop := Place.outside.feed s.toList = (ps, .outside)

variable {s t : String} {ps qs : List Piece}

theorem Cuts.pieces_eq (h : Cuts s ps) : pieces s = ps := congrArg Prod.fst h

theorem Cuts.unique (h : Cuts s ps) (h' : Cuts s qs) : ps = qs :=
  h.pieces_eq.symm.trans h'.pieces_eq

theorem Cuts.append (hs : Cuts s ps) (ht : Cuts t qs) : Cuts (s ++ t) (ps ++ qs) := by
  unfold Cuts at *
  rw [String.toList_append, Place.feed_append, hs]
  dsimp only
  rw [ht]

theorem Cuts.empty : Cuts "" [] := rfl

/-- A character that neither opens nor closes a text. -/
def isBare (c : Char) : Bool := c != '\'' && c != '"'

/-- Without quotes every character is a piece. -/
theorem Cuts.signs (h : s.toList.all isBare = true) : Cuts s (s.toList.map .sign) := by
  unfold Cuts
  generalize s.toList = cs at h
  induction cs with
  | nil => rfl
  | cons c cs ih =>
    rw [List.all_cons, Bool.and_eq_true] at h
    have hc : ¬ (c = '\'' ∨ c = '"') := by simpa [isBare] using h.1
    simp [Place.feed, Place.step, hc, ih h.2]

/-- Quoting is undone if the escaping of every character is. -/
theorem Cuts.quoted {quote : Char} {escape : Char → List Char} (hquote : quote = '\'' ∨ quote = '"')
    (hescape : ∀ read c,
      (Place.inside quote read).feed (escape c) = ([], .inside quote (read ++ [c]))) (s : String) :
    Cuts (String.ofList (quote :: s.toList.flatMap escape ++ [quote])) [.text s] := by
  have hinside : ∀ (read cs : List Char), (Place.inside quote read).feed (cs.flatMap escape)
      = ([], .inside quote (read ++ cs)) := by
    intro read cs
    induction cs generalizing read with
    | nil => simp [Place.feed]
    | cons c cs ih =>
      rw [List.flatMap_cons, Place.feed_append, hescape]
      simp [ih (read ++ [c])]
  have hopen : Place.outside.step quote = ([], .inside quote []) := if_pos hquote
  have hslash : quote ≠ '\\' := by
    obtain rfl | rfl := hquote <;> decide
  have hclose : (Place.inside quote s.toList).feed [quote] = ([.text s], .outside) := by
    simp [Place.feed, Place.step, hslash]
  rw [Cuts, String.toList_ofList, List.cons_append, Place.feed, hopen, Place.feed_append, hinside]
  simp only [List.nil_append, hclose]

theorem Cuts.text (s : String) : Cuts (Literal.text s) [.text s] := by
  refine Cuts.quoted (.inl rfl) (fun read c => ?_) s
  unfold Literal.escape
  split
  case h_6 hslash hquote _ _ _ =>
    have hslash : c ≠ '\\' := hslash
    have hquote : c ≠ '\'' := hquote
    simp [Place.feed, Place.step, hslash, hquote]
  all_goals simp [Place.feed, Place.step, unescape]

theorem Cuts.doubleQuoted (s : String) : Cuts (Literal.doubleQuoted s) [.text s] := by
  refine Cuts.quoted (.inr rfl) (fun read c => ?_) s
  by_cases hquote : c = '"'
  · subst hquote
    rfl
  · by_cases hslash : c = '\\'
    · subst hslash
      rfl
    · simp [Place.feed, Place.step, hquote, hslash]

/-! ### Values of arguments -/

/-- A text whose quotes are closed, without an equals sign outside of them. -/
def Quiet (s : String) : Prop := ∃ ps, Cuts s ps ∧ Piece.sign '=' ∉ ps

/-- A character of which the signs of comparisons are made. -/
def isSign (c : Char) : Bool := c == '<' || c == '=' || c == '>'

/-- Neither a quote nor of a comparison. -/
def isQuiet (c : Char) : Bool := isBare c && !isSign c

theorem eq_of_not_isQuiet {c : Char} (h : ¬ isQuiet c = true) :
    c = '\'' ∨ c = '"' ∨ c = '<' ∨ c = '=' ∨ c = '>' := by
  by_contra hnot
  simp only [not_or] at hnot
  exact h (by simp [isQuiet, isBare, isSign, hnot])

namespace Quiet

theorem append (hs : Quiet s) (ht : Quiet t) : Quiet (s ++ t) := by
  obtain ⟨ps, hs, hps⟩ := hs
  obtain ⟨qs, ht, hqs⟩ := ht
  exact ⟨ps ++ qs, hs.append ht, by simp [hps, hqs]⟩

theorem of_all (h : s.toList.all isQuiet = true) : Quiet s := by
  have hchars : ∀ c ∈ s.toList, isQuiet c = true := List.all_eq_true.mp h
  refine ⟨_, Cuts.signs (List.all_eq_true.mpr fun c hc => ?_), ?_⟩
  · exact (Bool.and_eq_true_iff.mp (hchars c hc)).1
  · rw [List.mem_map]
    rintro ⟨c, hc, heq⟩
    obtain rfl := Piece.sign.inj heq
    exact absurd (hchars _ hc) (by decide)

theorem of_feed (h : (Place.outside.feed s.toList).2 = .outside ∧ Piece.sign '=' ∉ pieces s) :
    Quiet s :=
  ⟨pieces s, Prod.ext rfl h.1, h.2⟩

theorem text (s : String) : Quiet (Literal.text s) := ⟨_, .text s, by simp⟩

theorem doubleQuoted (s : String) : Quiet (Literal.doubleQuoted s) := ⟨_, .doubleQuoted s, by simp⟩

theorem intercalate {separator : String} {items : List String} (hseparator : Quiet separator)
    (hitems : ∀ s ∈ items, Quiet s) : Quiet (separator.intercalate items) := by
  induction items with
  | nil => exact of_all rfl
  | cons a rest ih =>
    cases rest with
    | nil => exact hitems a (by simp)
    | cons b rest =>
      rw [String.intercalate_cons_cons]
      exact ((hitems a (by simp)).append hseparator).append (ih fun s hs => hitems s (by simp [hs]))

theorem listOf {items : List String} (hitems : ∀ s ∈ items, Quiet s) :
    Quiet (Literal.listOf items) :=
  ((of_all rfl).append (intercalate (of_all rfl) hitems)).append (of_all rfl)

/-! ### Numbers -/

theorem all_of_isMark {cs : List Char} (h : cs.all Decimal.isMark = true) :
    cs.all isQuiet = true := by
  rw [List.all_eq_true] at h ⊢
  intro c hc
  by_contra hnot
  obtain rfl | rfl | rfl | rfl | rfl := eq_of_not_isQuiet hnot <;>
    exact absurd (h _ hc) (by decide)

theorem all_digitsOf (n : Nat) : (Decimal.digitsOf n).all isQuiet = true :=
  all_of_isMark (Decimal.all_isMark (Decimal.all_digitsOf n))

theorem all_intText (n : Int) : (Decimal.intText n).toList.all isQuiet = true :=
  all_of_isMark (Decimal.all_intText n)

theorem all_render (l : Decimal.Layout) (r : Decimal.Reading) :
    (l.render r).toList.all isQuiet = true := by
  cases r with
  | nan =>
    rw [Decimal.Layout.render]
    rfl
  | infinite negative =>
    rw [Decimal.Layout.render]
    cases negative <;> rfl
  | zero negative => exact all_of_isMark (Decimal.all_render_zero l negative)
  | finite negative b => exact all_of_isMark (Decimal.all_render_finite l negative b)

theorem floatText (x : Float) : Quiet (Json.floatText x) := by
  refine of_all ?_
  unfold Json.floatText
  split
  · exact all_render _ _
  · rfl

/-! ### JSON values -/

mutual

theorem value : ∀ j : Json, Quiet (Literal.value j)
  | .null => of_all rfl
  | .bool true => of_all rfl
  | .bool false => of_all rfl
  | .int n => of_all (all_intText n)
  | .float x => floatText x
  | .string s => text s
  | .array items => listOf (valueItems items)
  | .object fields =>
    ((of_all rfl).append (intercalate (of_all rfl) (valueFields fields))).append (of_all rfl)

theorem valueItems : ∀ items : List Json, ∀ s ∈ Literal.valueItems items, Quiet s
  | [] => by simp [Literal.valueItems]
  | j :: rest => by
    rw [Literal.valueItems, List.forall_mem_cons]
    exact ⟨value j, valueItems rest⟩

theorem valueFields : ∀ fields : List (String × Json), ∀ s ∈ Literal.valueFields fields, Quiet s
  | [] => by simp [Literal.valueFields]
  | (name, j) :: rest => by
    rw [Literal.valueFields, List.forall_mem_cons]
    exact ⟨((text name).append (of_all rfl)).append (value j), valueFields rest⟩

end

end Quiet

/-! ### Arguments -/

/-- Without an equals sign there is no argument, and the name before it is forgotten. -/
theorem argumentsFrom_append (name : List Char) (hps : Piece.sign '=' ∉ ps) (qs : List Piece) :
    ∃ name', argumentsFrom name (ps ++ qs) = argumentsFrom name' qs := by
  induction ps generalizing name with
  | nil => exact ⟨name, rfl⟩
  | cons p ps ih =>
    rw [List.mem_cons, not_or] at hps
    cases p with
    | text s => exact ih [] hps.2
    | sign c =>
      have hc : c ≠ '=' := fun h => hps.1 (h ▸ rfl)
      rw [List.cons_append, argumentsFrom, if_neg hc]
      exact ih _ hps.2

/-- A name before an equals sign is that of an argument. -/
theorem argumentsFrom_name {cs : List Char} (hname : cs.all Naming.isNamePart = true)
    (read : List Char) :
    argumentsFrom read (cs.map .sign ++ .sign '=' :: qs)
      = (String.ofList (read ++ cs), qs) :: argumentsFrom [] qs := by
  induction cs generalizing read with
  | nil => simp [argumentsFrom]
  | cons c cs ih =>
    rw [List.all_cons, Bool.and_eq_true] at hname
    have hc : c ≠ '=' := by
      rintro rfl
      exact absurd hname.1 (by decide)
    rw [List.map_cons, List.cons_append, argumentsFrom, if_neg hc, if_pos hname.1, ih hname.2]
    simp

/-- An argument with its name. -/
def named (argument : String × String) : String := argument.1 ++ "=" ++ argument.2

/-- An argument behind another one. -/
def written (argument : String × String) : String := ", \n        " ++ named argument

/-- Arguments that are written one after the other. -/
theorem intercalate_named (a : String × String) (rest : List (String × String)) :
    ", \n        " ++ ", \n        ".intercalate ((a :: rest).map named)
      = String.join ((a :: rest).map written) := by
  induction rest generalizing a with
  | nil => simp [String.join_cons, written]
  | cons b rest ih =>
    rw [List.map_cons, List.map_cons, String.intercalate_cons_cons, List.map_cons,
      String.join_cons, ← ih b, List.map_cons, written]
    simp only [String.append_assoc]

/-- Of arguments that are written one after the other, the first one of a name is found, and
  what follows its equals sign starts with its value. -/
theorem lookup_written {arguments : List (String × String)} {closing : String}
    (hnames : ∀ a ∈ arguments, a.1.toList.all Naming.isNamePart = true)
    (hvalues : ∀ a ∈ arguments, Quiet a.2) (hclosing : Quiet closing) :
    ∃ ps, Cuts (String.join (arguments.map written) ++ closing) ps ∧ ∀ read name,
      match arguments.lookup name with
      | none => (argumentsFrom read ps).lookup name = none
      | some value => ∃ vs more, Cuts value vs
          ∧ (argumentsFrom read ps).lookup name = some (vs ++ more) := by
  induction arguments with
  | nil =>
    obtain ⟨ps, hcut, hps⟩ := hclosing
    refine ⟨ps, Cuts.empty.append hcut, fun read name => ?_⟩
    obtain ⟨read', hread⟩ := argumentsFrom_append read hps []
    rw [List.append_nil] at hread
    rw [List.lookup_nil, hread]
    rfl
  | cons a rest ih =>
    rw [List.forall_mem_cons] at hnames hvalues
    obtain ⟨vs, hvalue, hvs⟩ := hvalues.1
    obtain ⟨ps, hcut, hlookup⟩ := ih hnames.2 hvalues.2
    have hname : Cuts a.1 (a.1.toList.map .sign) := by
      refine Cuts.signs (List.all_eq_true.mpr fun c hc => ?_)
      have hpart := List.all_eq_true.mp hnames.1 c hc
      rw [isBare, Bool.and_eq_true, bne_iff_ne, bne_iff_ne]
      constructor <;> rintro rfl <;> exact absurd hpart (by decide)
    have hseparator : Cuts ", \n        " (", \n        ".toList.map .sign) :=
      Cuts.signs rfl
    have hequals : Cuts "=" [.sign '='] := rfl
    refine ⟨(", \n        ".toList.map .sign ++ ((a.1.toList.map .sign ++ [.sign '=']) ++ vs))
      ++ ps, ?_, fun read name => ?_⟩
    · rw [List.map_cons, String.join_cons, String.append_assoc]
      exact (hseparator.append ((hname.append hequals).append hvalue)).append hcut
    · -- The separator is no part of a name, and the value has no name in it.
      obtain ⟨read', hskip⟩ := argumentsFrom_append [] hvs ps
      have hblank : ∀ qs, argumentsFrom read (", \n        ".toList.map .sign ++ qs)
          = argumentsFrom [] qs := fun qs => rfl
      have hfirst : argumentsFrom read
          ((", \n        ".toList.map .sign ++ ((a.1.toList.map .sign ++ [.sign '=']) ++ vs))
            ++ ps) = (a.1, vs ++ ps) :: argumentsFrom read' ps := by
        rw [List.append_assoc, hblank]
        simp only [List.append_assoc, List.cons_append]
        rw [argumentsFrom_name hnames.1]
        simp only [List.nil_append, hskip, String.ofList_toList]
      rw [hfirst, List.lookup_cons, List.lookup_cons]
      cases name == a.1 with
      | true => exact ⟨vs, ps, hvalue, rfl⟩
      | false => exact hlookup read' name

end SheetScript.Call
