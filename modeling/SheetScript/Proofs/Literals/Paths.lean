import SheetScript.Proofs.Literals.Quoted
import SheetScript.Proofs.Workbook.Formatting

/-! # Paths and names in double quotes

  A path is written raw unless it holds a single quote or ends with a backslash.  A raw literal
  has no way to write a line break: it ends at one, or the reader makes a line feed of it, unless
  it is a line feed that a backslash takes along.  In double quotes only the quote and the
  backslash are marked, so a line break ends the literal too.

  So which texts are read back is told by their line breaks alone, for paths by `keepsBreaks`
  and for texts in double quotes by `InLine`.

  Main statements: `read?_path`, `read?_doubleQuoted`, and `names_read_back` with where the
  names of a tab and its columns stand in the call that formats it.
-/

namespace SheetScript.Literal

variable {c : Char} {cs : List Char} {p s : String}

/-! ### Raw literals -/

/-- A path that is not written raw. -/
def IsEscaped (p : String) : Prop := '\'' ∈ p.toList ∨ p.toList.getLast? = some '\\'

/-- Whether the only line breaks are line feeds that a backslash takes along. -/
def keepsBreaks : List Char → Bool
  | '\\' :: c :: rest => c != '\x0d' && keepsBreaks rest
  | c :: rest => !breaksLine c && keepsBreaks rest
  | [] => true

theorem getLast?_of_cons (h : (c :: cs).getLast? ≠ some '\\') : cs.getLast? ≠ some '\\' := by
  cases cs with
  | nil => simp
  | cons d cs => rwa [List.getLast?_cons_cons] at h

/-- A raw literal is closed by its own quote and keeps its text if it keeps the line breaks. -/
theorem body?_raw (hzero : '\x00' ∉ cs) (hquote : '\'' ∉ cs) (hlast : cs.getLast? ≠ some '\\')
    (rest : List Char) :
    body? '\'' (unifyLines (cs ++ '\'' :: rest)) = some (cs, unifyLines rest)
      ↔ keepsBreaks cs = true := by
  induction cs using keepsBreaks.induct with
  | case1 c cs ih =>
    rw [List.mem_cons, List.mem_cons, not_or, not_or] at hzero hquote
    have ih := ih hzero.2.2 hquote.2.2 (getLast?_of_cons (getLast?_of_cons hlast))
    rw [List.cons_append, List.cons_append, unifyLines_cons (by decide), keepsBreaks]
    by_cases hc : c = '\x0d'
    · -- behind the backslash stands a line feed then
      subst hc
      obtain ⟨after, hafter⟩ := exists_unifyLines (c := '\x0d') rfl (cs ++ '\'' :: rest)
      rw [hafter, body?_slash (by decide)]
      simp
    · rw [unifyLines_cons hc, body?_slash (Ne.symm hzero.2.1)]
      simp [hc, ← ih, Prod.ext_iff]
  | case2 c cs hpair ih =>
    rw [List.mem_cons, not_or] at hzero hquote
    have ih := ih hzero.2 hquote.2 (getLast?_of_cons hlast)
    have hslash : c ≠ '\\' := by
      rintro rfl
      cases cs with
      | nil => exact hlast rfl
      | cons d cs => exact hpair d cs rfl rfl
    rw [List.cons_append, keepsBreaks]
    · cases hbreak : breaksLine c with
      | true =>
        obtain ⟨after, hafter⟩ := exists_unifyLines hbreak (cs ++ '\'' :: rest)
        rw [hafter, body?_line rfl]
        simp
      | false =>
        have hne : c ≠ '\n' ∧ c ≠ '\x0d' := by simpa [breaksLine] using hbreak
        rw [unifyLines_cons hne.2, body?_cons hslash (Ne.symm hquote.1) hne.1 (Ne.symm hzero.1)]
        simp [← ih, Prod.ext_iff]
    · exact hpair
  | case3 =>
    rw [List.nil_append, unifyLines_cons (by decide), body?_quote rfl]
    simp [keepsBreaks]

theorem toList_path (h : ¬ IsEscaped p) :
    (path p).toList = 'r' :: '\'' :: (p.toList ++ ['\'']) := by
  obtain ⟨hquote, hlast⟩ := not_or.mp h
  simp [path, hquote, hlast, String.toList_append]

theorem path_of_isEscaped (h : IsEscaped p) : path p = text p := by
  rw [path, if_pos (by simpa [IsEscaped] using h)]

/-- A path is read back if it is escaped, and otherwise if it keeps its line breaks; an empty
  one, unless a quote is behind it. -/
theorem read?_path (h : '\x00' ∉ p.toList) (rest : String) :
    read? (path p ++ rest) = some (p, unified rest)
      ↔ (IsEscaped p ∨ keepsBreaks p.toList = true)
        ∧ ¬ (p = "" ∧ rest.toList.head? = some '\'') := by
  by_cases hescaped : IsEscaped p
  · rw [path_of_isEscaped hescaped, read?_text h]
    simp [hescaped]
  · have hcode : unifyLines (path p ++ rest).toList
        = 'r' :: '\'' :: unifyLines (p.toList ++ '\'' :: rest.toList) := by
      rw [String.toList_append, toList_path hescaped, List.cons_append, List.cons_append,
        List.append_assoc, List.singleton_append, unifyLines_cons (by decide),
        unifyLines_cons (by decide)]
    have hraw : ∀ cs, quoted? ('r' :: '\'' :: cs) = inside? ('\'' :: cs) := fun cs => rfl
    have hplain := not_or.mp hescaped
    rw [read?_eq_some, hcode, hraw, toList_unified, or_iff_right hescaped]
    by_cases hlong : p = "" ∧ rest.toList.head? = some '\''
    · refine iff_of_false ?_ (fun h => h.2 hlong)
      obtain ⟨rfl, hhead⟩ := hlong
      obtain ⟨after, hafter⟩ := List.head?_eq_some_iff.mp hhead
      have hlines : unifyLines (rest.toList) = '\'' :: unifyLines after := by
        rw [hafter, unifyLines_cons (by decide)]
      have hempty : "".toList ++ '\'' :: rest.toList = '\'' :: rest.toList := rfl
      rw [hempty, unifyLines_cons (by decide), hlines]
      exact inside?_ne_of_quote rfl [] _
    · rw [and_iff_left hlong, ← body?_raw h hplain.1 hplain.2, inside?_eq rfl]
      -- a raw path has no quote, so only an empty one has a quote in front of it
      rw [← String.toList_inj] at hlong
      cases hp : p.toList with
      | nil =>
        rw [hp] at hlong
        have hhead : (unifyLines rest.toList).head? ≠ some '\'' := by
          rw [Ne, head?_unifyLines rfl]
          exact fun hhead => hlong ⟨rfl, hhead⟩
        rw [List.nil_append, unifyLines_cons (by decide)]
        exact take_two_ne_of_tail hhead
      | cons c cs =>
        rw [hp, List.mem_cons, not_or] at hplain
        refine take_two_ne_of_head ?_
        rw [Ne, head?_unifyLines rfl, List.cons_append, List.head?_cons, Option.some.injEq]
        exact Ne.symm hplain.1.1

/-! ### Double quotes -/

/-- A character in double quotes. -/
def escapeDouble (c : Char) : List Char := if c == '"' || c == '\\' then ['\\', c] else [c]

theorem toList_doubleQuoted (s : String) :
    (doubleQuoted s).toList = '"' :: (s.toList.flatMap escapeDouble ++ ['"']) := by
  rw [doubleQuoted, String.toList_ofList]
  rfl

theorem undone_escapeDouble (hzero : c ≠ '\x00') (hline : breaksLine c = false) :
    Undone '"' escapeDouble c := by
  have hne : c ≠ '\n' ∧ c ≠ '\x0d' := by simpa [breaksLine] using hline
  by_cases hquote : c = '"'
  · subst hquote
    exact undone_slash rfl (e := '"') rfl (fun cs => rfl) (by decide)
  by_cases hslash : c = '\\'
  · subst hslash
    exact undone_slash rfl (e := '\\') rfl (fun cs => rfl) (by decide)
  · exact undone_self (by simp [escapeDouble, hquote, hslash]) hslash hquote hne.1 hzero

theorem not_mem_escapeDouble (h : breaksLine c = false) : '\x0d' ∉ escapeDouble c := by
  have hne : c ≠ '\x0d' := by
    rintro rfl
    cases h
  unfold escapeDouble
  split <;> simp [Ne.symm hne]

/-- A text that is not in one line is not empty, and no quote is written first. -/
theorem head?_escapeDouble (h : ¬ InLine cs) (rest : List Char) :
    (unifyLines (cs.flatMap escapeDouble ++ rest)).head? ≠ some '"' := by
  rw [Ne, head?_unifyLines rfl]
  cases cs with
  | nil => exact absurd (List.forall_mem_nil _) h
  | cons c cs =>
    rw [List.flatMap_cons, List.append_assoc]
    unfold escapeDouble
    split
    · simp
    · rename_i hplain
      have hquote : c ≠ '"' := by
        rintro rfl
        exact hplain rfl
      simpa using hquote

/-- A line break ends the literal before its quote. -/
theorem body?_break (hzero : '\x00' ∉ cs) (h : ¬ InLine cs) (rest : List Char) :
    body? '"' (unifyLines (cs.flatMap escapeDouble ++ rest)) = none := by
  induction cs with
  | nil => exact absurd (List.forall_mem_nil _) h
  | cons c cs ih =>
    rw [List.mem_cons, not_or] at hzero
    rw [List.flatMap_cons, List.append_assoc]
    cases hbreak : breaksLine c with
    | true =>
      have hself : escapeDouble c = [c] := by
        have hcases : c = '\n' ∨ c = '\x0d' := by
          unfold breaksLine at hbreak
          simpa using hbreak
        obtain rfl | rfl := hcases <;> rfl
      obtain ⟨after, hafter⟩ := exists_unifyLines hbreak (cs.flatMap escapeDouble ++ rest)
      rw [hself, List.singleton_append, hafter, body?_line rfl]
    | false =>
      have hrest : ¬ InLine cs := fun hcs => h (List.forall_mem_cons.mpr ⟨hbreak, hcs⟩)
      rw [unifyLines_append (not_mem_escapeDouble hbreak),
        (undone_escapeDouble (Ne.symm hzero.1) hbreak).body, ih hzero.2 hrest]
      rfl

/-- A text in double quotes is read back if it is in one line; an empty one, unless a quote is
  behind it. -/
theorem read?_doubleQuoted (h : '\x00' ∉ s.toList) (rest : String) :
    read? (doubleQuoted s ++ rest) = some (s, unified rest)
      ↔ InLine s.toList ∧ ¬ (s = "" ∧ rest.toList.head? = some '"') := by
  have hcode : unifyLines (doubleQuoted s ++ rest).toList
      = '"' :: unifyLines (s.toList.flatMap escapeDouble ++ '"' :: rest.toList) := by
    rw [String.toList_append, toList_doubleQuoted, List.cons_append, List.append_assoc,
      List.singleton_append, unifyLines_cons (by decide)]
  rw [read?_eq_some, hcode, toList_unified]
  by_cases hline : InLine s.toList
  · have hreturn : '\x0d' ∉ s.toList.flatMap escapeDouble := by
      rw [List.mem_flatMap]
      rintro ⟨c, hc, hmem⟩
      exact not_mem_escapeDouble (hline c hc) hmem
    have hundone : ∀ c ∈ s.toList, Undone '"' escapeDouble c := fun c hc =>
      undone_escapeDouble (fun hzero => h (hzero ▸ hc)) (hline c hc)
    have hread := quoted?_of_undone rfl hundone (unifyLines rest.toList)
    rw [head?_unifyLines rfl, String.toList_eq_nil_iff] at hread
    rw [unifyLines_append hreturn, unifyLines_cons (by decide), hread, and_iff_right hline]
  · have hshort : inside? ('"' :: unifyLines (s.toList.flatMap escapeDouble ++ '"' :: rest.toList))
        = none := by
      rw [inside?_eq rfl (take_two_ne_of_head (head?_escapeDouble hline _)), body?_break h hline]
    refine iff_of_false ?_ fun hread => hline hread.1
    rw [quoted?_eq_some rfl, hshort]
    rintro ⟨body, hbody, -⟩
    cases hbody

/-! ### Names in a call -/

/-- A part of some code. -/
def Occurs (part code : String) : Prop := ∃ before after, code = before ++ (part ++ after)

namespace Occurs

variable {part code : String}

theorem append_left (h : Occurs part code) (front : String) : Occurs part (front ++ code) := by
  obtain ⟨before, after, rfl⟩ := h
  exact ⟨front ++ before, after, String.append_assoc.symm⟩

theorem append_right (h : Occurs part code) (back : String) : Occurs part (code ++ back) := by
  obtain ⟨before, after, rfl⟩ := h
  exact ⟨before, after ++ back, by simp only [String.append_assoc]⟩

theorem intercalate {separator item : String} {items : List String} (h : Occurs part item)
    (hitem : item ∈ items) : Occurs part (separator.intercalate items) := by
  induction items with
  | nil => cases hitem
  | cons a rest ih =>
    rw [List.mem_cons] at hitem
    cases rest with
    | nil =>
      obtain rfl : item = a := hitem.resolve_right (List.not_mem_nil)
      simpa using h
    | cons b rest =>
      rw [String.intercalate_cons_cons]
      rcases hitem with rfl | hitem
      · exact (h.append_right separator).append_right _
      · exact (ih hitem).append_left _

end Occurs

end SheetScript.Literal

namespace SheetScript.Workbook

open Literal

variable {sh : Sheet} {tab df code : String}

/-- The parts of a call. -/
theorem exists_arguments (h : formattingCall tab df sh = .ok (some code)) :
    ∃ numbers arguments, sh.columnIds.mapM (numberItem sh) = .ok numbers
      ∧ arguments = colorArguments sh.format
        ++ blockArgument "conditional_formats" "[" "]"
            (sh.format.conditional.filterMap (conditionalItem sh))
        ++ blockArgument "number_formats" "\x7b" "\x7d" (numbers.filterMap id)
      ∧ code = "    add_formatting_to_excel_sheet(writer, " ++ doubleQuoted tab ++ ", " ++ df
        ++ ", \n        " ++ ", \n        ".intercalate arguments ++ "\n    )" := by
  unfold formattingCall at h
  split at h
  · cases h
  · rw [bind_eq_ok] at h
    obtain ⟨numbers, hnumbers, h⟩ := h
    dsimp only at h
    split at h
    · cases h
    · cases h
      exact ⟨numbers, _, hnumbers, rfl, rfl⟩

/-- The name of the tab is the second argument of the call. -/
theorem exists_tab (h : formattingCall tab df sh = .ok (some code)) :
    ∃ after, code = "    add_formatting_to_excel_sheet(writer, " ++ (doubleQuoted tab ++ after) := by
  obtain ⟨numbers, arguments, -, -, rfl⟩ := exists_arguments h
  refine ⟨", " ++ df ++ ", \n        " ++ ", \n        ".intercalate arguments ++ "\n    )", ?_⟩
  simp only [String.append_assoc]

theorem occurs_blockArgument {item part : String} {items : List String} (hitem : item ∈ items)
    (h : Occurs part item) (name opening closing : String) :
    ∃ argument ∈ blockArgument name opening closing items, Occurs part argument := by
  have hne : items.isEmpty = false := List.isEmpty_eq_false_iff.mpr (List.ne_nil_of_mem hitem)
  rw [blockArgument, hne]
  refine ⟨_, List.mem_singleton_self _, ?_⟩
  exact (((h.intercalate hitem).append_left _).append_right _).append_right _

/-- The header of a column with a number format stands in the call. -/
theorem occurs_header (hs : sh.Sound) (h : formattingCall tab df sh = .ok (some code))
    {e : Column × NumberFormat} (he : e ∈ sh.formatted) :
    Occurs (doubleQuoted e.1.header) code := by
  obtain ⟨numbers, arguments, hnumbers, rfl, rfl⟩ := exists_arguments h
  obtain ⟨items, hitems, hpairs⟩ := mapM_numberItem hs
  obtain rfl : items = numbers := Except.ok.inj (hitems.symm.trans hnumbers)
  have hpair : pairText (e.1.header, e.2.inWorkbook) ∈ items.filterMap id := by
    rw [hpairs]
    exact List.mem_map_of_mem he
  have hheader : Occurs (doubleQuoted e.1.header) (pairText (e.1.header, e.2.inWorkbook)) :=
    ⟨"", ": " ++ text e.2.inWorkbook, by simp [pairText, String.append_assoc]⟩
  obtain ⟨argument, hargument, hoccurs⟩ :=
    occurs_blockArgument hpair hheader "number_formats" "\x7b" "\x7d"
  exact ((hoccurs.intercalate (List.mem_append_right _ hargument)).append_left _).append_right _

/-- Paths, and the names that a call has in double quotes, are read back as far as their line
  breaks are kept.  A path is, if it is escaped or has no line breaks but line feeds behind a
  backslash.  The name of a tab and the headers of its number formats stand in the call in
  double quotes, and each of them is read back, whatever code is behind it, exactly if it is in
  one line.  Only an empty path or name is not, if a quote of its kind is behind it. -/
theorem names_read_back {p name : String} (hp : '\x00' ∉ p.toList)
    (hname : '\x00' ∉ name.toList) :
    (∀ rest, read? (path p ++ rest) = some (p, unified rest)
      ↔ (IsEscaped p ∨ keepsBreaks p.toList = true)
        ∧ ¬ (p = "" ∧ rest.toList.head? = some '\''))
    ∧ (∀ rest, read? (doubleQuoted name ++ rest) = some (name, unified rest)
      ↔ InLine name.toList ∧ ¬ (name = "" ∧ rest.toList.head? = some '"'))
    ∧ ∀ (sh : Sheet) (tab df code : String), sh.Sound →
      formattingCall tab df sh = .ok (some code) →
        (∃ after, code
          = "    add_formatting_to_excel_sheet(writer, " ++ (doubleQuoted tab ++ after))
        ∧ ∀ e ∈ sh.formatted, Occurs (doubleQuoted e.1.header) code :=
  ⟨read?_path hp, read?_doubleQuoted hname,
    fun _ _ _ _ hs h => ⟨exists_tab h, fun _ => occurs_header hs h⟩⟩

namespace Sample

/-- A sheet whose header has quotes and a backslash. -/
def quotedHeader : Sheet :=
  { Sheet.ofFrame ⟨0⟩ "df1" ⟨[⟨"\"net\"\\day", .int64, [.int 3]⟩], 1⟩ with
    format := { numbers := [(⟨"\"net\"\\day"⟩, ⟨.currency, none⟩)] } }

end Sample

/-- A path with backslashes and a header with quotes. -/
theorem names_read_back_quotedHeader :
    ('\x00' ∉ "C:\\data\\a.csv".toList ∧ '\x00' ∉ "\"net\"\\day".toList
        ∧ Sample.quotedHeader.Sound)
      ∧ read? (path "C:\\data\\a.csv" ++ ")") = some ("C:\\data\\a.csv", ")")
      ∧ read? (doubleQuoted "\"net\"\\day" ++ ": '$0.00'") = some ("\"net\"\\day", ": '$0.00'")
      ∧ ∃ code, formattingCall "df1" "df1" Sample.quotedHeader = .ok (some code)
        ∧ Occurs (doubleQuoted "\"net\"\\day") code := by
  have hpath : '\x00' ∉ "C:\\data\\a.csv".toList := by decide
  have hheader : '\x00' ∉ "\"net\"\\day".toList := by decide
  have hsound : Sample.quotedHeader.Sound := by
    have hframe := Sheet.Sound.ofFrame ⟨0⟩ "df1" (f := Sample.quotedHeader.frame) (by decide)
    exact ⟨hframe.headers, hframe.columns, hframe.formulas⟩
  have hformatted : (⟨"\"net\"\\day", .int64, [.int 3]⟩, ⟨.currency, none⟩)
      ∈ Sample.quotedHeader.formatted := by decide
  have hcode : ∃ code, formattingCall "df1" "df1" Sample.quotedHeader = .ok (some code) := by
    have hpresent : present (argumentTable Sample.quotedHeader) ≠ [] := by decide
    rw [formattingCall_eq hsound, callWith, if_neg hpresent]
    exact ⟨_, rfl⟩
  obtain ⟨code, hcode⟩ := hcode
  obtain ⟨hpaths, hnames, hcalls⟩ := names_read_back hpath hheader
  have hread := (hpaths ")").mpr ⟨.inr (by decide), by simp⟩
  have hread' := (hnames ": '$0.00'").mpr ⟨by simp [InLine, breaksLine], by simp⟩
  rw [unified_eq (by decide)] at hread hread'
  have hoccurs := (hcalls _ "df1" "df1" code hsound hcode).2 _ hformatted
  exact ⟨⟨hpath, hheader, hsound⟩, hread, hread', code, hcode, hoccurs⟩

/-- A line feed is lost: neither a path nor a name in double quotes that has one is read. -/
theorem line_break_lost :
    '\x00' ∉ "a\nb".toList ∧ read? (path "a\nb") = none ∧ read? (doubleQuoted "a\nb") = none := by
  decide

end SheetScript.Workbook
