import SheetScript.Proofs.State.Sheets
import SheetScript.Proofs.Workbook.Call
import SheetScript.Workbook.Plan

/-! # The plan and the call of a tab

  The plan says what the session writes to a tab, and the call what the script does.  Their
  colors agree.  Both walk over the columns that have a number format, but the plan leaves
  out those that do not hold numbers, and the call does not.

  Main statement: `Workbook.plan_call`.
-/

namespace SheetScript

namespace Colors

variable {c : Colors}

theorem eq_of_isEmpty (h : c.isEmpty = true) : c = {} := by
  obtain ⟨font, fill⟩ := c
  rw [isEmpty, Bool.and_eq_true, Option.isNone_iff_eq_none, Option.isNone_iff_eq_none] at h
  obtain ⟨rfl, rfl⟩ := h
  rfl

theorem getD_eq_of_all {o : Option Colors} (h : o.all isEmpty = true) : o.getD {} = {} := by
  cases o with
  | none => rfl
  | some c => exact eq_of_isEmpty h

end Colors

namespace Sheet

variable {s : Sheet} {c : Column}

/-- The number format that a sheet has for a column. -/
def numberFormat? (s : Sheet) (c : Column) : Option NumberFormat :=
  Dictionary.get? s.format.numbers (s.columns.columnOf c.header)

/-- The columns that have a number format, from left to right. -/
def formatted (s : Sheet) : List (Column × NumberFormat) :=
  s.frame.columns.filterMap fun c => (s.numberFormat? c).map fun f => (c, f)

/-- A column is found by its id. -/
theorem Sound.column_columnOf (hs : s.Sound) (hc : c ∈ s.frame.columns) :
    s.header (s.columns.columnOf c.header) = .ok c.header
      ∧ s.column (s.columns.columnOf c.header) = .ok c := by
  have hin : c.header ∈ s.headers := Frame.header_mem hc
  have hheader : s.header (s.columns.columnOf c.header) = .ok c.header :=
    header_eq_ok.mpr (hs.columns.inverse.mpr (hs.columns.id?_eq hin))
  obtain ⟨d, hd⟩ := Frame.exists_column hin
  obtain ⟨hmem, heq⟩ := Frame.column_eq_ok hd
  obtain rfl := List.inj_on_of_nodup_map hs.headers hmem hc heq
  refine ⟨hheader, ?_⟩
  rw [column, bind_eq_ok]
  exact ⟨_, hheader, hd⟩

theorem Sound.columnIds_eq_map (hs : s.Sound) :
    s.columnIds = s.frame.columns.map fun c => s.columns.columnOf c.header := by
  rw [hs.columnIds_eq, Sheet.headers, Frame.headers, List.map_map]
  rfl

end Sheet

namespace Workbook

open Call

variable {s : Sheet} {tab df : String}

/-! ### Plans -/

/-- The number formats of a plan are those of the columns of numbers. -/
theorem numberFormats_eq (hs : s.Sound) :
    ∃ numbers, numberFormats s = .ok numbers
      ∧ numbers.map (fun e => (s.headers[e.1]?, e.2))
        = (s.formatted.filter fun e => e.1.dtype.isNumeric).map
            fun e => (some e.1.header, e.2.inWorkbook) := by
  let number (e : Column × Nat) : Option (Nat × String) := (s.numberFormat? e.1).bind fun f =>
    if e.1.dtype.isNumeric then some (e.2, f.inWorkbook) else none
  refine ⟨(s.frame.columns.zipIdx.map number).filterMap id, ?_, ?_⟩
  · have hids := hs.columnIds_eq_map
    simp only [numberFormats, bind_eq_ok, pure_eq_ok]
    refine ⟨s.frame.columns.zipIdx.map number, ?_, rfl⟩
    rw [mapM_eq_ok, hids, List.zipIdx_map, List.forall₂_map_left_iff, List.forall₂_map_right_iff,
      List.forall₂_same]
    rintro ⟨c, i⟩ he
    have hdtype : s.dtype (s.columns.columnOf c.header) = .ok c.dtype := by
      rw [Sheet.dtype, (hs.column_columnOf (List.fst_mem_of_mem_zipIdx he)).2]
      rfl
    dsimp only [Prod.map, number, Sheet.numberFormat?]
    cases Dictionary.get? s.format.numbers (s.columns.columnOf c.header) with
    | none => rfl
    | some f =>
      rw [hdtype]
      rfl
  · -- Both sides pick from the columns, the left one with their places.
    rw [List.filterMap_map, List.map_filterMap, Sheet.formatted, List.filter_filterMap,
      List.map_filterMap]
    have hfst : s.frame.columns = s.frame.columns.zipIdx.map Prod.fst :=
      (List.zipIdx_map_fst 0 _).symm
    conv_rhs => rw [hfst, List.filterMap_map]
    refine List.filterMap_congr fun e he => ?_
    have hheader : s.headers[e.2]? = some e.1.header := by
      rw [Sheet.headers, Frame.headers, List.getElem?_map, List.mem_zipIdx_iff_getElem?.mp he]
      rfl
    dsimp only [Function.comp, id, number]
    cases s.numberFormat? e.1 with
    | none => rfl
    | some f => cases hnumeric : e.1.dtype.isNumeric <;> simp [Option.filter, hnumeric, hheader]

/-- Every column that a rule names and that is left has a type. -/
theorem exists_rulesOf (s : Sheet) (c : ConditionalFormat) : ∃ rules, rulesOf s c = .ok rules := by
  have hrule : ∀ f, ∀ id ∈ c.columns, ∃ rule, rulesFor s c.colors f id = .ok rule := by
    intro f id _
    unfold rulesFor
    split
    · exact ⟨_, rfl⟩
    · rename_i index hindex
      simp only [Sheet.columnIndex, bind_eq_ok] at hindex
      obtain ⟨header, hheader, hindex⟩ := hindex
      split at hindex
      · rename_i i hi
        obtain ⟨column, hcolumn⟩ :=
          Frame.exists_column (List.mem_of_getElem? (Frame.index?_eq_some hi))
        have hdtype : s.dtype id = .ok column.dtype := by
          rw [Sheet.dtype, Sheet.column, hheader, bind_eq_ok]
          exact ⟨column, hcolumn, rfl⟩
        rw [hdtype]
        exact ⟨_, rfl⟩
      · cases hindex
  unfold rulesOf
  split
  · exact ⟨_, rfl⟩
  · obtain ⟨rules, hrules⟩ := exists_mapM_eq_ok.mpr
      fun f (_ : f ∈ c.filters) => exists_mapM_eq_ok.mpr (hrule f)
    rw [hrules]
    exact ⟨_, rfl⟩

/-- The colors of a style. -/
def NamedStyle.colorsOf (style : Option NamedStyle) : Colors :=
  (style.map NamedStyle.colors).getD {}

theorem NamedStyle.colorsOf_of? (name : String) (c : Colors) : colorsOf (of? name c) = c := by
  unfold of?
  split
  · rename_i h
    exact (Colors.eq_of_isEmpty h).symm
  · rfl

/-- Every sound sheet has a plan. -/
theorem exists_plan (hs : s.Sound) (tab : String) :
    ∃ p, plan tab s = .ok p ∧ numberFormats s = .ok p.numbers
      ∧ NamedStyle.colorsOf p.header = s.format.header
      ∧ NamedStyle.colorsOf p.even = s.format.rows.even.getD {}
      ∧ NamedStyle.colorsOf p.odd = s.format.rows.odd.getD {} := by
  obtain ⟨numbers, hnumbers, -⟩ := numberFormats_eq hs
  obtain ⟨rules, hrules⟩ := exists_mapM_eq_ok.mpr
    fun c (_ : c ∈ s.format.conditional) => exists_rulesOf s c
  refine ⟨{
    header := NamedStyle.of? (tab ++ "_Header") s.format.header
    even := NamedStyle.of? (tab ++ "_Even") (s.format.rows.even.getD {})
    odd := NamedStyle.of? (tab ++ "_Odd") (s.format.rows.odd.getD {})
    numbers := numbers
    rules := if s.frame.height = 0 then [] else rules.flatten }, ?_, hnumbers,
    NamedStyle.colorsOf_of? _ _, NamedStyle.colorsOf_of? _ _, NamedStyle.colorsOf_of? _ _⟩
  simp only [plan, hnumbers, hrules]
  split <;> rfl

/-! ### Calls -/

/-- The value of an argument that takes several lines, if it has items. -/
def blockValue? (opening closing : String) (items : List String) : Option String :=
  if items.isEmpty then none
  else some (opening ++ "\n            " ++ ", \n            ".intercalate items
    ++ "\n        " ++ closing)

/-- The item of a column in the number formats of a call. -/
def pairText (p : String × String) : String := Literal.doubleQuoted p.1 ++ ": " ++ Literal.text p.2

/-- The arguments that a call can have. -/
def argumentTable (s : Sheet) : List (String × Option String) :=
  let f := s.format
  let even := f.rows.even.getD {}
  let odd := f.rows.odd.getD {}
  [("header_background_color", f.header.fill.map Literal.text),
    ("header_font_color", f.header.font.map Literal.text),
    ("even_background_color", even.fill.map Literal.text),
    ("even_font_color", even.font.map Literal.text),
    ("odd_background_color", odd.fill.map Literal.text),
    ("odd_font_color", odd.font.map Literal.text),
    ("conditional_formats", blockValue? "[" "]" (f.conditional.filterMap (conditionalItem s))),
    ("number_formats", blockValue? "\x7b" "\x7d"
      (s.formatted.map fun e => pairText (e.1.header, e.2.inWorkbook)))]

/-- The names of the arguments. -/
def argumentNames : List String :=
  ["header_background_color", "header_font_color", "even_background_color", "even_font_color",
    "odd_background_color", "odd_font_color", "conditional_formats", "number_formats"]

/-- The arguments that a call has. -/
def present (table : List (String × Option String)) : List (String × String) :=
  table.filterMap fun e => e.2.map fun v => (e.1, v)

/-- The call with some arguments, if there are any. -/
def callWith (tab df : String) (arguments : List (String × String)) : Option String :=
  if arguments = [] then none
  else
    some ("    add_formatting_to_excel_sheet(writer, " ++ Literal.doubleQuoted tab ++ ", " ++ df
      ++ (String.join (arguments.map written) ++ "\n    )"))

theorem present_nil : present [] = [] := rfl

theorem present_cons (name : String) (value : Option String)
    (table : List (String × Option String)) :
    present ((name, value) :: table) = (value.map fun v => (name, v)).toList ++ present table := by
  cases value <;> rfl

theorem lookup_present {table : List (String × Option String)} (hnd : (table.map Prod.fst).Nodup)
    (name : String) : (present table).lookup name = (table.lookup name).join := by
  induction table with
  | nil => rfl
  | cons e rest ih =>
    rw [List.map_cons, List.nodup_cons] at hnd
    obtain ⟨key, value⟩ := e
    rw [present_cons, List.lookup_cons]
    cases hname : name == key with
    | false =>
      cases value with
      | none => exact ih hnd.2
      | some v =>
        rw [← ih hnd.2]
        simp [List.lookup_cons, hname]
    | true =>
      cases value with
      | none =>
        obtain rfl := beq_iff_eq.mp hname
        have hnone : rest.lookup name = none := by
          rw [List.lookup_eq_none_iff]
          intro p hp
          rw [bne_iff_ne]
          rintro rfl
          exact hnd.1 (List.mem_map.mpr ⟨p, hp, rfl⟩)
        rw [Option.map_none, Option.toList_none, List.nil_append, ih hnd.2, hnone]
        rfl
      | some v => simp [List.lookup_cons, hname]

theorem map_colorArgument (name : String) (color : Option String) :
    colorArgument name color
      = (((color.map Literal.text).map fun v => (name, v)).toList).map named := by
  cases color <;> rfl

theorem map_blockArgument (name opening closing : String) (items : List String) :
    blockArgument name opening closing items
      = (((blockValue? opening closing items).map fun v => (name, v)).toList).map named := by
  unfold blockArgument blockValue?
  split
  · rfl
  · simp [named, String.append_assoc]

/-- The items of the number formats are those of the columns that have one. -/
theorem mapM_numberItem (hs : s.Sound) :
    ∃ items, s.columnIds.mapM (numberItem s) = .ok items ∧ items.filterMap id
      = s.formatted.map fun e => pairText (e.1.header, e.2.inWorkbook) := by
  refine ⟨s.frame.columns.map fun c => (s.numberFormat? c).map fun f =>
    pairText (c.header, f.inWorkbook), ?_, ?_⟩
  · have hids := hs.columnIds_eq_map
    rw [mapM_eq_ok, hids, List.forall₂_map_left_iff, List.forall₂_map_right_iff,
      List.forall₂_same]
    intro c hc
    unfold numberItem Sheet.numberFormat?
    cases Dictionary.get? s.format.numbers (s.columns.columnOf c.header) with
    | none => rfl
    | some f =>
      rw [(hs.column_columnOf hc).1]
      rfl
  · rw [Sheet.formatted, List.map_filterMap, List.filterMap_map]
    refine List.filterMap_congr fun c _ => ?_
    dsimp only [Function.comp, id]
    cases s.numberFormat? c <;> rfl

theorem formattingCall_eq (hs : s.Sound) (tab df : String) :
    formattingCall tab df s = .ok (callWith tab df (present (argumentTable s))) := by
  obtain ⟨items, hitems, hpairs⟩ := mapM_numberItem hs
  have harguments : colorArguments s.format
      ++ blockArgument "conditional_formats" "[" "]"
          (s.format.conditional.filterMap (conditionalItem s))
      ++ blockArgument "number_formats" "\x7b" "\x7d" (items.filterMap id)
        = (present (argumentTable s)).map named := by
    rw [hpairs]
    simp only [colorArguments, map_colorArgument, map_blockArgument, argumentTable, present_cons,
      present_nil, List.map_append, List.append_assoc, List.append_nil]
  unfold formattingCall
  split
  · -- A format that shows nowhere has no arguments.
    rename_i hempty
    simp only [SheetFormat.isEmpty, SheetFormat.hasTableStyles, RowColors.isEmpty,
      Bool.and_eq_true, Bool.not_eq_true', Bool.or_eq_false_iff, Bool.not_eq_false',
      List.isEmpty_iff] at hempty
    obtain ⟨⟨⟨hheader, heven, hodd⟩, hnumbers⟩, hconditional⟩ := hempty
    have hformatted : s.formatted = [] := by
      rw [Sheet.formatted, List.filterMap_eq_nil_iff]
      intro c _
      rw [Sheet.numberFormat?, hnumbers]
      rfl
    rw [argumentTable, Colors.eq_of_isEmpty hheader, Colors.getD_eq_of_all heven,
      Colors.getD_eq_of_all hodd, hconditional, hformatted]
    rfl
  · simp only [hitems, bind_eq_ok]
    refine ⟨items, rfl, ?_⟩
    rw [harguments]
    cases present (argumentTable s) with
    | nil => rfl
    | cons a rest =>
      rw [callWith, if_neg (List.cons_ne_nil a rest), ← intercalate_named]
      simp only [String.append_assoc]
      rfl

/-! ### What a call says -/

/-- The color that a call has for an argument. -/
def colorIn? (call : Option String) (name : String) : Option String :=
  match call.bind (argument? · name) with
  | some (.text color :: _) => some color
  | _ => none

/-- The colors that a call has for the header, or for the rows of one kind. -/
def colorsIn (call : Option String) (part : String) : Colors :=
  ⟨colorIn? call (part ++ "_font_color"), colorIn? call (part ++ "_background_color")⟩

/-- The items of a dictionary of texts, up to its end. -/
def textItems : List Piece → List (String × String)
  | .text key :: .sign ':' :: .sign ' ' :: .text value :: rest => (key, value) :: textItems rest
  | .sign '\x7d' :: _ => []
  | _ :: rest => textItems rest
  | [] => []

/-- The headers and number formats that a call has. -/
def numbersIn (call : Option String) : List (String × String) :=
  match call.bind (argument? · "number_formats") with
  | some (.sign '\x7b' :: rest) => textItems rest
  | _ => []

theorem quiet_of_isVariableName (h : Naming.isVariableName df = true) : Quiet df := by
  have hpart : ∀ c, Naming.isNameStart c = true ∨ Naming.isNamePart c = true →
      isQuiet c = true := by
    intro c hc
    by_contra hnot
    obtain rfl | rfl | rfl | rfl | rfl := eq_of_not_isQuiet hnot <;> exact absurd hc (by decide)
  refine Quiet.of_all (List.all_eq_true.mpr fun c hc => hpart c ?_)
  unfold Naming.isVariableName at h
  split at h
  · cases h
  · rename_i d rest hcs
    simp only [Bool.and_eq_true] at h
    rw [hcs, List.mem_cons] at hc
    obtain rfl | hc := hc
    · exact .inl h.1.1
    · exact .inr (List.all_eq_true.mp h.1.2 c hc)

theorem quiet_blockValue? {opening closing v : String} {items : List String}
    (hopening : Quiet opening) (hclosing : Quiet closing) (hitems : ∀ s ∈ items, Quiet s)
    (h : blockValue? opening closing items = some v) : Quiet v := by
  unfold blockValue? at h
  split at h
  · cases h
  · obtain rfl := Option.some.inj h
    have hseparator : Quiet ", \n            " := .of_all rfl
    have hlist := hseparator.intercalate hitems
    exact (((hopening.append (.of_all rfl)).append hlist).append (.of_all rfl)).append hclosing

theorem quiet_pairText (p : String × String) : Quiet (pairText p) :=
  ((Quiet.doubleQuoted p.1).append (.of_all rfl)).append (.text p.2)

theorem quiet_filterItem (f : Filter) : Quiet (filterItem f) := by
  have hkey : Quiet "\x7b'condition': " := .of_feed (by decide)
  have hvalue : Quiet ", 'value': " := .of_feed (by decide)
  have hclose : Quiet "\x7d" := .of_all rfl
  exact (((hkey.append (.text f.condition.name)).append hvalue).append (.value f.value)).append
    hclose

theorem quiet_conditionalItem {c : ConditionalFormat} {v : String}
    (h : conditionalItem s c = some v) : Quiet v := by
  have hcolor : ∀ o : Option String, Quiet ((o.map Literal.text).getD "None") := by
    intro o
    cases o with
    | none => exact .of_all rfl
    | some color => exact .text color
  have hcolumns : Quiet "\x7b'columns': " := .of_feed (by decide)
  have hfilters : Quiet ", 'filters': " := .of_feed (by decide)
  have hfont : Quiet ", 'font_color': " := .of_feed (by decide)
  have hfill : Quiet ", 'background_color': " := .of_feed (by decide)
  have hclose : Quiet "\x7d" := .of_all rfl
  unfold conditionalItem at h
  dsimp only at h
  split at h
  · cases h
  · obtain rfl := Option.some.inj h
    have hnames : Quiet (Literal.list (c.columns.filterMap s.columns.header?)) :=
      .listOf (List.forall_mem_map.mpr fun header _ => .text header)
    have hitems : Quiet (Literal.listOf (c.filters.map filterItem)) :=
      .listOf (List.forall_mem_map.mpr fun f _ => quiet_filterItem f)
    exact (((((((hcolumns.append hnames).append hfilters).append hitems).append hfont).append
      (hcolor c.colors.font)).append hfill).append (hcolor c.colors.fill)).append hclose

theorem quiet_of_mem_argumentTable {e : String × Option String} {v : String}
    (he : e ∈ argumentTable s) (hv : e.2 = some v) : Quiet v := by
  have hcolor : ∀ o : Option String, o.map Literal.text = some v → Quiet v := by
    intro o ho
    obtain ⟨color, -, rfl⟩ := Option.map_eq_some_iff.mp ho
    exact .text color
  simp only [argumentTable, List.mem_cons, List.not_mem_nil, or_false] at he
  obtain rfl | rfl | rfl | rfl | rfl | rfl | rfl | rfl := he
  case inr.inr.inr.inr.inr.inr.inl =>
    refine quiet_blockValue? (.of_all rfl) (.of_all rfl) (fun item hitem => ?_) hv
    obtain ⟨c, -, hc⟩ := List.mem_filterMap.mp hitem
    exact quiet_conditionalItem hc
  case inr.inr.inr.inr.inr.inr.inr =>
    refine quiet_blockValue? (.of_all rfl) (.of_all rfl) (fun item hitem => ?_) hv
    obtain ⟨e, -, rfl⟩ := List.mem_map.mp hitem
    exact quiet_pairText _
  all_goals exact hcolor _ hv

/-- The arguments of a call are those of the table that have a value. -/
theorem argument?_callWith (hdf : Naming.isVariableName df = true) (s : Sheet)
    (tab name : String) :
    match ((argumentTable s).lookup name).join with
    | none => (callWith tab df (present (argumentTable s))).bind (argument? · name) = none
    | some value => ∃ vs more, Cuts value vs
        ∧ (callWith tab df (present (argumentTable s))).bind (argument? · name)
          = some (vs ++ more) := by
  have hkeys : (argumentTable s).map Prod.fst = argumentNames := rfl
  have hnd : ((argumentTable s).map Prod.fst).Nodup := hkeys ▸ (by decide)
  have hnames : ∀ name ∈ (argumentTable s).map Prod.fst,
      name.toList.all Naming.isNamePart = true := hkeys ▸ (by decide)
  have hvalues := fun e (he : e ∈ argumentTable s) v => quiet_of_mem_argumentTable (v := v) he
  generalize argumentTable s = table at hnd hnames hvalues
  rw [← lookup_present hnd]
  unfold callWith
  by_cases hempty : present table = []
  · rw [if_pos hempty, hempty]
    rfl
  · rw [if_neg hempty]
    have hmem : ∀ a ∈ present table, ∃ e ∈ table, e.1 = a.1 ∧ e.2 = some a.2 := by
      intro a ha
      obtain ⟨e, he, hvalue⟩ := List.mem_filterMap.mp ha
      obtain ⟨v, hv, rfl⟩ := Option.map_eq_some_iff.mp hvalue
      exact ⟨e, he, rfl, hv⟩
    have hparts : ∀ a ∈ present table, a.1.toList.all Naming.isNamePart = true := by
      intro a ha
      obtain ⟨e, he, hname, -⟩ := hmem a ha
      exact hname ▸ hnames e.1 (List.mem_map_of_mem he)
    have hquiets : ∀ a ∈ present table, Quiet a.2 := by
      intro a ha
      obtain ⟨e, he, -, hvalue⟩ := hmem a ha
      exact hvalues e he a.2 hvalue
    have hclosing : Quiet "\n    )" := .of_all rfl
    obtain ⟨ps, hcut, hlookup⟩ := lookup_written hparts hquiets hclosing
    have hhead : Quiet ("    add_formatting_to_excel_sheet(writer, "
        ++ Literal.doubleQuoted tab ++ ", " ++ df) :=
      (((Quiet.of_all rfl).append (.doubleQuoted tab)).append (.of_all rfl)).append
        (quiet_of_isVariableName hdf)
    -- The opening has no equals sign, so the first name is that of the first argument.
    obtain ⟨hs, hhead, hquiet⟩ := hhead
    obtain ⟨read, hread⟩ := argumentsFrom_append [] hquiet ps
    have hfound := hlookup read name
    rw [Option.bind_some, argument?, (hhead.append hcut).pieces_eq, hread]
    exact hfound

/-- The number formats of a call are read back. -/
theorem textItems_pairs (pairs : List (String × String)) :
    ∃ ps, Cuts (", \n            ".intercalate (pairs.map pairText) ++ ("\n        " ++ "\x7d")) ps
      ∧ ∀ more, textItems (ps ++ more) = pairs := by
  induction pairs with
  | nil =>
    refine ⟨"\n        \x7d".toList.map .sign, ?_, fun more => rfl⟩
    exact Cuts.signs rfl
  | cons p rest ih =>
    obtain ⟨ps, hcut, htextItems⟩ := ih
    have hpair : Cuts (pairText p) [.text p.1, .sign ':', .sign ' ', .text p.2] :=
      ((Cuts.doubleQuoted p.1).append (Cuts.signs (s := ": ") rfl)).append (.text p.2)
    cases rest with
    | nil =>
      refine ⟨_, hpair.append hcut, fun more => ?_⟩
      show p :: textItems (ps ++ more) = _
      rw [htextItems]
    | cons q rest =>
      have hseparator : Cuts ", \n            " (", \n            ".toList.map .sign) :=
        Cuts.signs rfl
      refine ⟨[.text p.1, .sign ':', .sign ' ', .text p.2]
        ++ (", \n            ".toList.map .sign ++ ps), ?_, fun more => ?_⟩
      · rw [List.map_cons, List.map_cons, String.intercalate_cons_cons, String.append_assoc,
          String.append_assoc]
        exact hpair.append (hseparator.append hcut)
      · show p :: textItems (ps ++ more) = _
        rw [htextItems]

theorem colorIn?_eq (hdf : Naming.isVariableName df = true) {name : String}
    {color : Option String} (h : (argumentTable s).lookup name = some (color.map Literal.text)) :
    colorIn? (callWith tab df (present (argumentTable s))) name = color := by
  have hread := argument?_callWith hdf s tab name
  rw [h] at hread
  unfold colorIn?
  cases color with
  | none => rw [show _ = none from hread]
  | some c =>
    obtain ⟨vs, more, hcut, hfound⟩ := hread
    obtain rfl : [.text c] = vs := (Cuts.text c).unique hcut
    rw [hfound]
    rfl

theorem numbersIn_eq (hdf : Naming.isVariableName df = true) (s : Sheet) (tab : String) :
    numbersIn (callWith tab df (present (argumentTable s)))
      = s.formatted.map fun e => (e.1.header, e.2.inWorkbook) := by
  have hread := argument?_callWith hdf s tab "number_formats"
  have hvalue : (argumentTable s).lookup "number_formats" = some (blockValue? "\x7b" "\x7d"
      ((s.formatted.map fun e => (e.1.header, e.2.inWorkbook)).map pairText)) := by
    rw [List.map_map]
    rfl
  rw [hvalue] at hread
  generalize s.formatted.map (fun e => (e.1.header, e.2.inWorkbook)) = pairs at hread ⊢
  unfold numbersIn
  cases pairs with
  | nil => rw [show _ = none from hread]
  | cons p rest =>
    obtain ⟨vs, more, hcut, hfound⟩ := hread
    obtain ⟨ps, hpairs, htextItems⟩ := textItems_pairs (p :: rest)
    have hopen : Cuts ("\x7b" ++ "\n            ") ("\x7b\n            ".toList.map .sign) :=
      Cuts.signs rfl
    have hwhole := hopen.append hpairs
    rw [← String.append_assoc, ← String.append_assoc] at hwhole
    obtain rfl := hwhole.unique hcut
    rw [hfound]
    exact htextItems more

/-- The plan and the call of a sheet: they have the same colors, and the call has a number format
  for every column that the sheet has one for, but the plan only for those of numbers. -/
theorem plan_call (hs : s.Sound) (hdf : Naming.isVariableName df = true) (tab : String) :
    ∃ p call, plan tab s = .ok p ∧ formattingCall tab df s = .ok call
      ∧ colorsIn call "header" = NamedStyle.colorsOf p.header
      ∧ colorsIn call "even" = NamedStyle.colorsOf p.even
      ∧ colorsIn call "odd" = NamedStyle.colorsOf p.odd
      ∧ numbersIn call = s.formatted.map (fun e => (e.1.header, e.2.inWorkbook))
      ∧ p.numbers.map (fun e => (s.headers[e.1]?, e.2))
        = (s.formatted.filter fun e => e.1.dtype.isNumeric).map
            (fun e => (some e.1.header, e.2.inWorkbook))
      ∧ (p.numbers.map (fun e => (s.headers[e.1]?, e.2))
          = (numbersIn call).map (fun e => (some e.1, e.2))
        ↔ ∀ e ∈ s.formatted, e.1.dtype.isNumeric = true) := by
  obtain ⟨p, hplan, hnumbers, hheader, heven, hodd⟩ := exists_plan hs tab
  obtain ⟨numbers, hnumbers', hpairs⟩ := numberFormats_eq hs
  obtain rfl : p.numbers = numbers := Except.ok.inj (hnumbers.symm.trans hnumbers')
  refine ⟨p, _, hplan, formattingCall_eq hs tab df, ?_, ?_, ?_, numbersIn_eq hdf s tab, hpairs, ?_⟩
  · rw [hheader, colorsIn, colorIn?_eq hdf rfl, colorIn?_eq hdf rfl]
  · rw [heven, colorsIn, colorIn?_eq hdf rfl, colorIn?_eq hdf rfl]
  · rw [hodd, colorsIn, colorIn?_eq hdf rfl, colorIn?_eq hdf rfl]
  · rw [hpairs, numbersIn_eq hdf s tab, List.map_map]
    constructor
    · intro h
      have hlength := congrArg List.length h
      rw [List.length_map, List.length_map, List.length_filter_eq_length_iff] at hlength
      exact hlength
    · intro hnumeric
      rw [List.filter_eq_self.mpr hnumeric]
      rfl

namespace Sample

/-- A sheet whose two columns have a number format, of which one holds texts. -/
def prices : Sheet :=
  { Sheet.ofFrame ⟨0⟩ "df1" ⟨[⟨"name", .text, [.text "tea"]⟩, ⟨"price", .int64, [.int 3]⟩], 1⟩ with
    format := {
      header := ⟨some "#ffffff", none⟩
      numbers := [(⟨"name"⟩, ⟨.currency, none⟩), (⟨"price"⟩, ⟨.currency, none⟩)] } }

theorem sound_prices : prices.Sound := by
  have hframe := Sheet.Sound.ofFrame ⟨0⟩ "df1" (f := prices.frame) (by decide)
  exact ⟨hframe.headers, hframe.columns, hframe.formulas⟩

end Sample

/-- A sheet with one column of texts and one of numbers. -/
theorem plan_call_prices :
    Sample.prices.Sound ∧ ∃ p call, plan "df1" Sample.prices = .ok p
      ∧ formattingCall "df1" "df1" Sample.prices = .ok call
      ∧ colorsIn call "header" = NamedStyle.colorsOf p.header := by
  have hname : Naming.isVariableName "df1" = true := by decide
  obtain ⟨p, call, hplan, hcall, hheader, -⟩ := plan_call Sample.sound_prices hname "df1"
  exact ⟨Sample.sound_prices, p, call, hplan, hcall, hheader⟩

/-- The call gives a number format to the column of texts, and the plan does not. -/
theorem plan_call_disagree :
    (plan "df1" Sample.prices).map (fun p => p.numbers.map
        fun e => (Sample.prices.headers[e.1]?, e.2)) = .ok [(some "price", "$0.00")]
      ∧ (formattingCall "df1" "df1" Sample.prices).map numbersIn
        = .ok [("name", "$0.00"), ("price", "$0.00")] := by
  constructor
  · decide
  · have hname : Naming.isVariableName "df1" = true := by decide
    rw [formattingCall_eq Sample.sound_prices, Except.map, numbersIn_eq hname]
    decide

end Workbook

end SheetScript
