import SheetScript.Proofs.Descriptions

/-! # What statements assign

  The variable that a statement assigns is read off its text.  Most are the variables of
  the sheets that a chunk leaves.  The others are helpers, which some kinds of edits need
  on the way and no footprint mentions.

  - `Edit.assigns`: the helpers and the sheets of one edit.
  - `State.Accepts.assigns`: the chunks of accepted steps.
  - `Optimizer.assigns_shorten`: shortened chunks assign no other variables.
-/

namespace SheetScript

/-! ### Reading statements

  A statement assigns the variable before its sign of equality, if there is nothing but a
  name before it; so items and attributes of a variable do not count.  A `with` statement
  assigns the variable at its end. -/

namespace Statement

/-- The variable at the end of a `with` statement. -/
def bound? (text : List Char) : Option String :=
  match text.reverse with
  | ':' :: rest =>
    if " sa ".toList.isPrefixOf (rest.dropWhile Naming.isNamePart) then
      some (String.ofList (rest.takeWhile Naming.isNamePart).reverse)
    else none
  | _ => none

/-- The variable that a statement assigns. -/
def assigned? (statement : String) : Option String :=
  let text := statement.toList.dropWhile fun c => c == ' '
  let name := text.takeWhile Naming.isNamePart
  let rest := text.dropWhile Naming.isNamePart
  if " = ".toList.isPrefixOf rest then some (String.ofList name)
  else if name = "with".toList then bound? text
  else none

/-- A text that other text follows. -/
def Starts (s t : String) : Prop := t.toList <+: s.toList

instance (s t : String) : Decidable (Starts s t) := by
  unfold Starts
  infer_instance

namespace Starts

variable {s t u : String}

theorem self (s : String) : Starts s s := List.prefix_rfl

theorem append (h : Starts s t) (u : String) : Starts (s ++ u) t := by
  unfold Starts
  rw [String.toList_append]
  exact h.trans (List.prefix_append _ _)

theorem prepend (h : Starts s t) (u : String) : Starts (u ++ s) (u ++ t) := by
  unfold Starts
  rw [String.toList_append, String.toList_append]
  exact (List.prefix_append_right_inj _).mpr h

/-- However long a text is, its first two parts are at its start. -/
theorem parts (h : Starts s t) (u rest : String) : Starts (u ++ (s ++ rest)) (u ++ t) :=
  (h.append rest).prepend u

end Starts

/-- A name: it is not empty and has only characters of a name. -/
def IsName (n : String) : Prop := n ≠ "" ∧ n.toList.all Naming.isNamePart = true

instance (n : String) : Decidable (IsName n) := by
  unfold IsName
  infer_instance

variable {st n t : String}

theorem IsName.isNamePart (h : IsName n) : ∀ c ∈ n.toList, Naming.isNamePart c = true :=
  List.all_eq_true.mp h.2

theorem IsName.of_isVariableName (h : Naming.isVariableName n = true) : IsName n := by
  unfold Naming.isVariableName at h
  split at h
  · cases h
  · next c rest hn =>
    simp only [Bool.and_eq_true, List.all_eq_true, Naming.isNameStart, Bool.or_eq_true] at h
    obtain ⟨⟨hc, hrest⟩, -⟩ := h
    constructor
    · rintro rfl
      cases hn
    · rw [hn, List.all_eq_true, List.forall_mem_cons]
      refine ⟨?_, hrest⟩
      unfold Naming.isNamePart Char.isAlphanum
      rcases hc with hc | hc <;> simp [hc]

/-- The first name of a statement ends where other text follows. -/
theorem read_name {c : Char} {cs : List Char} (hn : IsName n) (h : Starts st (n ++ t))
    (ht : t.toList = c :: cs) (hc : Naming.isNamePart c = false) :
    let text := st.toList.dropWhile fun c => c == ' '
    text.takeWhile Naming.isNamePart = n.toList
      ∧ ∃ rest, text.dropWhile Naming.isNamePart = t.toList ++ rest := by
  obtain ⟨rest, hst⟩ := h
  have hne := hn.1
  have hall := hn.isNamePart
  have htext : (st.toList.dropWhile fun c => c == ' ') = n.toList ++ (t.toList ++ rest) := by
    rw [← hst, String.toList_append, List.append_assoc]
    cases hlist : n.toList with
    | nil => exact absurd (String.toList_eq_nil_iff.mp hlist) hne
    | cons d ds =>
      -- no name starts with a blank
      have hd : (d == ' ') = false := by
        rw [beq_eq_false_iff_ne]
        rintro rfl
        have hblank := hall ' ' (hlist ▸ List.mem_cons_self)
        cases hblank
      rw [List.cons_append, List.dropWhile_cons, hd]
      rfl
  dsimp only
  rw [htext]
  refine ⟨?_, rest, ?_⟩
  · rw [List.takeWhile_append_of_pos hall, ht, List.cons_append, List.takeWhile_cons, hc]
    simp
  · rw [List.dropWhile_append_of_pos hall, ht, List.cons_append, List.dropWhile_cons, hc]
    simp

/-- A variable that is assigned. -/
theorem assigned?_name (hn : IsName n) (h : Starts st (n ++ " = ")) : assigned? st = some n := by
  obtain ⟨hname, rest, hrest⟩ := read_name hn h rfl rfl
  unfold assigned?
  dsimp only at hname hrest ⊢
  rw [hname, hrest, if_pos (List.isPrefixOf_iff_prefix.mpr (List.prefix_append _ _)),
    String.ofList_toList]

/-- A name before anything else is not assigned. -/
theorem assigned?_other {c : Char} {cs : List Char} (hn : IsName n) (hwith : n ≠ "with")
    (h : Starts st (n ++ t)) (ht : t.toList = c :: cs) (hc : Naming.isNamePart c = false)
    (hblank : c ≠ ' ') : assigned? st = none := by
  obtain ⟨hname, rest, hrest⟩ := read_name hn h ht hc
  have hequal : " = ".toList.isPrefixOf (t.toList ++ rest) = false := by
    rw [ht]
    show ((' ' == c) && _) = false
    rw [beq_eq_false_iff_ne.mpr hblank.symm, Bool.false_and]
  have hkeyword : n.toList ≠ "with".toList := fun heq => hwith (String.toList_inj.mp heq)
  unfold assigned?
  dsimp only at hname hrest ⊢
  rw [hname, hrest, hequal, if_neg Bool.false_ne_true, if_neg hkeyword]

theorem isPrefixOf_blank {d : Char} (hd : d ≠ '=') (rest : List Char) :
    " = ".toList.isPrefixOf (' ' :: d :: rest) = false := by
  show (' ' == ' ' && (('=' == d) && _)) = false
  rw [beq_eq_false_iff_ne.mpr hd.symm, Bool.false_and, Bool.and_false]

/-- Deleting a variable assigns none. -/
theorem assigned?_del (hn : IsName n) : assigned? ("del " ++ n) = none := by
  have hdel : Starts ("del " ++ n) ("del" ++ (" " ++ n)) := by
    rw [← String.append_assoc]
    exact Starts.self _
  have htext : (" " ++ n).toList = ' ' :: n.toList := String.toList_append
  obtain ⟨hname, rest, hrest⟩ := read_name (by decide) hdel htext rfl
  have hne := hn.1
  have hall := hn.isNamePart
  have hequal : " = ".toList.isPrefixOf ((" " ++ n).toList ++ rest) = false := by
    rw [htext]
    cases hlist : n.toList with
    | nil => exact absurd (String.toList_eq_nil_iff.mp hlist) hne
    | cons d ds =>
      refine isPrefixOf_blank ?_ _
      rintro rfl
      cases hall '=' (hlist ▸ List.mem_cons_self)
  unfold assigned?
  dsimp only at hname hrest ⊢
  rw [hname, hrest, hequal, if_neg Bool.false_ne_true, if_neg (by decide)]

/-- Statements in a block are read as others. -/
theorem assigned?_indented (st : String) : assigned? ("    " ++ st) = assigned? st := by
  have htext : (("    " ++ st).toList.dropWhile fun c => c == ' ')
      = st.toList.dropWhile fun c => c == ' ' := by
    rw [String.toList_append]
    rfl
  unfold assigned?
  rw [htext]

/-- The variable of a `with` statement. -/
theorem assigned?_with (hn : IsName n) (first : String)
    (hst : st = "with pd" ++ first ++ " as " ++ n ++ ":") : assigned? st = some n := by
  have hwith : Starts st ("with" ++ " pd") := by
    simp only [hst, String.append_assoc]
    exact Starts.append (by decide) _
  obtain ⟨hname, rest, hrest⟩ := read_name (by decide) hwith rfl rfl
  have hequal : " = ".toList.isPrefixOf (" pd".toList ++ rest) = false :=
    isPrefixOf_blank (by decide) _
  -- the name is read from the end, where only the colon is behind it
  have hreverse : (st.toList.dropWhile fun c => c == ' ').reverse
      = ':' :: (n.toList.reverse ++ (" sa ".toList ++ ("with pd" ++ first).toList.reverse)) := by
    have hfirst : st.toList.dropWhile (fun c => c == ' ') = st.toList := by
      rw [hst]
      simp only [String.toList_append]
      rfl
    rw [hfirst, hst]
    simp
  have hall : ∀ c ∈ n.toList.reverse, Naming.isNamePart c = true := fun c hc =>
    hn.isNamePart c (List.mem_reverse.mp hc)
  have hbound : bound? (st.toList.dropWhile fun c => c == ' ') = some n := by
    unfold bound?
    rw [hreverse]
    show (if " sa ".toList.isPrefixOf ((n.toList.reverse ++ _).dropWhile Naming.isNamePart) then
      some (String.ofList ((n.toList.reverse ++ _).takeWhile Naming.isNamePart).reverse)
      else none) = some n
    rw [List.dropWhile_append_of_pos hall, List.takeWhile_append_of_pos hall]
    show some (String.ofList (n.toList.reverse ++ []).reverse) = some n
    rw [List.append_nil, List.reverse_reverse, String.ofList_toList]
  unfold assigned?
  dsimp only at hname hrest ⊢
  rw [hname, hrest, hequal, if_neg Bool.false_ne_true, if_pos rfl, hbound]

/-! ### Statements on the variable of a sheet -/

section Sheets

variable {df : String} (hdf : Naming.isVariableName df = true)

include hdf

theorem ne_with : df ≠ "with" := by
  rintro rfl
  cases hdf

theorem assigned?_method (h : Starts st (df ++ ".")) : assigned? st = none :=
  assigned?_other (.of_isVariableName hdf) (ne_with hdf) h rfl rfl (by decide)

theorem assigned?_item (h : Starts st (df ++ "[")) : assigned? st = none :=
  assigned?_other (.of_isVariableName hdf) (ne_with hdf) h rfl rfl (by decide)

theorem assigned?_sheet (h : Starts st (df ++ " = ")) : assigned? st = some df :=
  assigned?_name (.of_isVariableName hdf) h

end Sheets

end Statement

/-! ### Chunks -/

namespace ChunkBody

/-- The variables of sheets that a chunk mentions. -/
def sheetNames : ChunkBody → List String
  | .addColumn t .. | .deleteColumns t .. | .renameColumn t .. | .setFormula t ..
  | .changeType t .. | .deleteSheet t => [t.df]
  | .duplicateSheet source copy => [source.df, copy.df]
  | .renameSheet _ old new => [old, new]
  | .block b => b.outputs.map BlockOutput.name

/-- The variables of the sheets that a chunk makes or replaces. -/
def results : ChunkBody → List String
  | .duplicateSheet _ copy => [copy.df]
  | .renameSheet _ _ new => [new]
  | .block b => b.outputs.map BlockOutput.name
  | _ => []

/-- The variables that the statements of a chunk assign besides its results. -/
def strays (b : ChunkBody) : List String :=
  (b.code.filterMap Statement.assigned?).filter fun v => v ∉ b.results

/-- Whether the statements follow from what the chunk says of itself. -/
def isPlain : ChunkBody → Bool
  | .changeType .. | .block _ => false
  | _ => true

variable {b : ChunkBody} {v : String}

theorem mem_strays :
    v ∈ b.strays ↔ (∃ st ∈ b.code, Statement.assigned? st = some v) ∧ v ∉ b.results := by
  simp [strays]

theorem results_subset_sheetNames : b.results ⊆ b.sheetNames := by
  cases b with
  | duplicateSheet source copy => exact List.subset_cons_self _ _
  | renameSheet s old new => exact List.subset_cons_self _ _
  | block b => exact List.Subset.refl _
  | _ => exact List.nil_subset _

theorem strays_eq_nil_iff :
    b.strays = [] ↔ ∀ st ∈ b.code, ∀ v, Statement.assigned? st = some v → v ∈ b.results := by
  rw [List.eq_nil_iff_forall_not_mem]
  simp only [mem_strays, not_and, not_not, forall_exists_index, and_imp]
  constructor
  · exact fun h st hst v hv => h v st hst hv
  · exact fun h v st hst hv => h st hst v hv

open Statement in
/-- A chunk on columns or whole sheets assigns nothing but its result. -/
theorem strays_of_isPlain (hb : b.isPlain = true)
    (hnames : ∀ n ∈ b.sheetNames, Naming.isVariableName n = true) : b.strays = [] := by
  rw [strays_eq_nil_iff]
  have hnone : ∀ {st v}, assigned? st = none → assigned? st = some v → v ∈ b.results := by
    intro st v h hv
    rw [h] at hv
    cases hv
  cases b with
  -- the statement is a call of a method of the sheet
  | addColumn t | deleteColumns t | renameColumn t =>
    have hdf := hnames t.df (List.mem_singleton_self _)
    refine List.forall_mem_singleton.mpr fun v => hnone (assigned?_method hdf ?_)
    simp only [String.append_assoc]
    exact Starts.parts (by decide) _ _
  | setFormula t id header value reads =>
    have hdf := hnames t.df (List.mem_singleton_self _)
    refine List.forall_mem_singleton.mpr fun v => hnone (assigned?_item hdf ?_)
    simp only [String.append_assoc]
    exact Starts.parts (.self _) _ _
  | changeType t id header statements => cases hb
  | duplicateSheet source copy =>
    have hcopy := hnames copy.df (List.mem_cons_of_mem _ (List.mem_singleton_self _))
    refine List.forall_mem_singleton.mpr fun v hv => ?_
    rw [assigned?_sheet hcopy (((Starts.self _).append _).append _)] at hv
    exact List.mem_singleton.mpr (Option.some.inj hv).symm
  | deleteSheet t =>
    have hdf := hnames t.df (List.mem_singleton_self _)
    exact List.forall_mem_singleton.mpr fun v => hnone (assigned?_del (.of_isVariableName hdf))
  | renameSheet s old new =>
    have hold := hnames old List.mem_cons_self
    have hnew := hnames new (List.mem_cons_of_mem _ (List.mem_singleton_self _))
    refine List.forall_mem_cons.mpr ⟨fun v hv => ?_, List.forall_mem_singleton.mpr fun v =>
      hnone (assigned?_del (.of_isVariableName hold))⟩
    rw [assigned?_sheet hnew ((Starts.self _).append _)] at hv
    exact List.mem_singleton.mpr (Option.some.inj hv).symm
  | block b => cases hb

/-- What the statements of a chunk assign, one by one. -/
def Reads (b : ChunkBody) (reads : List (Option String)) : Prop :=
  List.Forall₂ (fun st v => Statement.assigned? st = v) b.code reads

/-- The strays of a chunk are the helpers that are no results. -/
theorem mem_strays_of_reads {reads : List (Option String)} {helpers : List String}
    (h : b.Reads reads) (honly : ∀ v, some v ∈ reads → v ∈ helpers ∨ v ∈ b.results)
    (hall : ∀ v ∈ helpers, some v ∈ reads) : v ∈ b.strays ↔ v ∈ helpers ∧ v ∉ b.results := by
  rw [mem_strays]
  refine and_congr_left fun hv => ⟨?_, fun hhelper => ?_⟩
  · rintro ⟨st, hst, hassigned⟩
    obtain ⟨r, hr, rfl⟩ := exists_of_mem_left h hst
    rw [hassigned] at hr
    exact (honly v hr).resolve_right hv
  · obtain ⟨st, hst, hassigned⟩ := exists_of_mem_right h (hall v hhelper)
    exact ⟨st, hst, hassigned⟩

end ChunkBody

/-! ### Helpers -/

namespace Naming

/-- The helpers that have one name. -/
def helpers : List String := ["tmp_df", "pivot_table", "temp_df", "bool_index_array", "writer"]

/-- The modules that statements use. -/
def modules : List String := ["pd", "np"]

/-- What comes behind the name of a sheet in the name of a helper for it. -/
def helperSuffixes : List String := ["_columns", "_styler"]

/-- Whether the name may be needed for a helper or a module. -/
def isReserved (name : String) : Bool :=
  name ∈ helpers || name ∈ modules
    || helperSuffixes.any fun suffix => suffix.toList.isSuffixOf name.toList

end Naming

/-- The helpers that a kind of merge needs. -/
def MergeKind.helpers : MergeKind → List String
  | .lookup => ["temp_df"]
  | .leftOnly | .rightOnly => ["bool_index_array"]
  | .left | .right | .inner | .outer => []

namespace Edit

/-- The helpers that the code of an edit needs. -/
def helpers (s : State) : Edit → List String
  | .moveColumn e => (s.sheets[e.sheet]?).toList.map fun sheet => sheet.name ++ "_columns"
  | .oneHot _ => ["tmp_df"]
  | .pivot _ => ["tmp_df", "pivot_table"]
  | .merge e => e.kind.helpers
  | .exportSheets e => if e.kind = .workbook then ["writer"] else []
  | _ => []

/-- The names of sheets that come from the user of an edit. -/
def givenNames : Edit → List String
  | .importFiles e => e.files.map fun path => Naming.variableName (ImportFiles.baseName path)
  | .renameSheet e => [Naming.variableName e.name]
  | _ => []

/-- What is assigned by the code of a change, and what its sheets are called. -/
structure Assigns (e : Edit) (s : State) (c : Change) : Prop where
  strays : ∀ b ∈ c.code, ∀ v, v ∈ b.strays ↔ v ∈ e.helpers s ∧ v ∉ b.results
  sheetNames : ∀ b ∈ c.code, ∀ n ∈ b.sheetNames, n ∈ s.names ∨ n ∈ c.state.names
  names : ∀ n ∈ c.state.names,
    n ∈ s.names ∨ n ∈ e.givenNames ∨ Naming.isReserved n = false

end Edit

/-! ### Names that are made for sheets -/

namespace Naming

/-- A reserved name ends in one of the words. -/
theorem reserved_ends {name : String} (h : isReserved name = true) :
    ∃ word ∈ helpers ++ modules ++ helperSuffixes, word.toList <:+ name.toList := by
  simp only [isReserved, Bool.or_eq_true, decide_eq_true_eq, List.any_eq_true,
    List.isSuffixOf_iff_suffix] at h
  rcases h with (h | h) | ⟨suffix, hsuffix, h⟩
  · exact ⟨name, List.mem_append_left _ (List.mem_append_left _ h), List.suffix_rfl⟩
  · exact ⟨name, List.mem_append_left _ (List.mem_append_right _ h), List.suffix_rfl⟩
  · exact ⟨suffix, List.mem_append_right _ hsuffix, h⟩

/-- Numbered names end in a digit, and none of the words does. -/
theorem isReserved_numbered (base : String) (n : Nat) : isReserved (numbered base n) = false := by
  rw [← Bool.not_eq_true]
  intro h
  obtain ⟨word, hword, before, hbefore⟩ := reserved_ends h
  -- the last characters of the word, of the name and of the number are the same one
  have hends : ∀ word ∈ helpers ++ modules ++ helperSuffixes,
      (word.toList.getLast?.any fun c => !c.isDigit) = true := by decide
  obtain ⟨c, hlast, hc⟩ := (Option.any_eq_true _ _).mp (hends word hword)
  rw [Bool.not_eq_true'] at hc
  have htext : (numbered base n).toList = (base ++ "_").toList ++ Nat.toDigits 10 n := by
    simp [numbered, Decimal.natText, Decimal.digitsOf]
  have hdigits : (Nat.toDigits 10 n).getLast? = some c := by
    have hend := congrArg List.getLast? (hbefore.trans htext)
    rw [List.getLast?_append, List.getLast?_append, hlast, Option.some_or,
      List.getLast?_eq_some_getLast Nat.toDigits_ne_nil, Option.some_or] at hend
    rw [List.getLast?_eq_some_getLast Nat.toDigits_ne_nil, ← hend]
  have hdigit := Nat.isDigit_of_mem_toDigits (by decide) (by decide) (List.mem_of_getLast? hdigits)
  rw [hc] at hdigit
  cases hdigit

/-- Nor is a name with something behind it that no word ends in or is the end of. -/
theorem isReserved_append {suffix : String} (base : String)
    (h : ∀ word ∈ helpers ++ modules ++ helperSuffixes,
      ¬ suffix.toList <:+ word.toList ∧ ¬ word.toList <:+ suffix.toList) :
    isReserved (base ++ suffix) = false := by
  rw [← Bool.not_eq_true]
  intro hreserved
  obtain ⟨word, hword, hends⟩ := reserved_ends hreserved
  rw [String.toList_append] at hends
  obtain ⟨hlonger, hshorter⟩ := h word hword
  rcases List.suffix_or_suffix_of_suffix (List.suffix_append _ _) hends with hsuffix | hsuffix
  · exact hlonger hsuffix
  · exact hshorter hsuffix

end Naming

namespace State

variable {s : State} {n : String} {i : Nat} {sheet after : Sheet}

theorem mem_names_replace (h : n ∈ (s.replace i after).names) : n ∈ s.names ∨ n = after.name := by
  obtain ⟨sh, hsh, rfl⟩ := mem_names.mp h
  rcases List.mem_or_eq_of_mem_set hsh with hsh | rfl
  · exact .inl (mem_names.mpr ⟨sh, hsh, rfl⟩)
  · exact .inr rfl

theorem mem_names_of_sheet (h : s.sheet i = .ok sheet) : sheet.name ∈ s.names :=
  mem_names.mpr ⟨sheet, sheet_mem h, rfl⟩

theorem names_push (s : State) (sheet : Sheet) :
    (s.push sheet).names = s.names ++ [sheet.name] := by
  simp [push, names]

theorem uniqueName_cases (s : State) (base : String) :
    s.uniqueName base = Naming.variableName base
      ∨ Naming.isReserved (s.uniqueName base) = false := by
  rcases Naming.firstFree_cases s.names (Naming.variableName base) with h | ⟨k, h⟩
  · exact .inl h
  · refine .inr ?_
    unfold uniqueName
    rw [h]
    exact Naming.isReserved_numbered _ k

/-- The name that is made for a sheet from that of another one is not reserved. -/
theorem isReserved_uniqueName {name suffix : String} (hname : Naming.isVariableName name = true)
    (hsuffix : suffix = "_copy" ∨ suffix = "_pivot") (s : State) :
    Naming.isReserved (s.uniqueName (name ++ suffix)) = false := by
  rcases s.uniqueName_cases (name ++ suffix) with h | h
  · have hvalid : Naming.isVariableName (name ++ suffix) = true := by
      rcases hsuffix with rfl | rfl <;>
        exact Naming.isVariableName_append hname (by decide) (by decide)
    rw [h, Naming.variableName, if_pos hvalid]
    rcases hsuffix with rfl | rfl <;> exact Naming.isReserved_append name (by decide)
  · exact h

end State

/-! ### Edits, kind by kind -/

namespace Edit.Assigns

variable {s : State} {e : Edit} {i : Nat} {sheet after : Sheet}

theorem idle (e : Edit) (s : State) : e.Assigns s (.none s) :=
  ⟨List.forall_mem_nil _, List.forall_mem_nil _, fun _ => .inl⟩

/-- An edit of one sheet, which keeps its name. -/
theorem onSheet {code : List ChunkBody} (hsheet : s.sheet i = .ok sheet)
    (hname : after.name = sheet.name)
    (hcode : ∀ b ∈ code, (∀ n ∈ b.sheetNames, n = sheet.name)
      ∧ ∀ v, v ∈ b.strays ↔ v ∈ e.helpers s ∧ v ∉ b.results) :
    e.Assigns s (.onSheet s i after code) where
  strays b hb := (hcode b hb).2
  sheetNames b hb n hn := .inl ((hcode b hb).1 n hn ▸ State.mem_names_of_sheet hsheet)
  names n hn := by
    rcases State.mem_names_replace hn with hn | rfl
    · exact .inl hn
    · exact .inl (hname ▸ State.mem_names_of_sheet hsheet)

/-- An edit of columns that needs no helper. -/
theorem onColumns {body : ChunkBody} (hs : s.Named) (hsheet : s.sheet i = .ok sheet)
    (hname : after.name = sheet.name) (hplain : body.isPlain = true)
    (hbody : body.sheetNames = [sheet.name]) (hhelpers : e.helpers s = []) :
    e.Assigns s (.onSheet s i after [body]) := by
  refine .onSheet hsheet hname (List.forall_mem_singleton.mpr ⟨?_, fun v => ?_⟩)
  · rw [hbody]
    exact List.forall_mem_singleton.mpr rfl
  · have hstrays : body.strays = [] := by
      refine ChunkBody.strays_of_isPlain hplain ?_
      rw [hbody]
      exact List.forall_mem_singleton.mpr (hs.of_sheet hsheet)
    rw [hstrays, hhelpers]
    simp

/-- A block of one sheet, which assigns helpers and perhaps the sheet. -/
theorem onBlock {b : Block} {reads : List (Option String)} (hsheet : s.sheet i = .ok sheet)
    (hname : after.name = sheet.name) (houtput : b.outputs = [after.blockOutput])
    (hcode : (ChunkBody.block b).Reads reads)
    (honly : ∀ v, some v ∈ reads → v ∈ e.helpers s ∨ v = sheet.name)
    (hall : ∀ v ∈ e.helpers s, some v ∈ reads) :
    e.Assigns s (.onSheet s i after [.block b]) := by
  have hresults : (ChunkBody.block b).results = [sheet.name] := by
    show b.outputs.map BlockOutput.name = _
    rw [houtput, ← hname]
    rfl
  refine .onSheet hsheet hname (List.forall_mem_singleton.mpr ⟨?_, fun v => ?_⟩)
  · show ∀ n ∈ (ChunkBody.block b).results, _
    rw [hresults]
    exact List.forall_mem_singleton.mpr rfl
  · refine ChunkBody.mem_strays_of_reads hcode (fun v hv => (honly v hv).imp_right ?_) hall
    rintro rfl
    exact hresults ▸ List.mem_singleton_self _

/-- An edit that makes a sheet. -/
theorem onNew {body : ChunkBody} {reads : List (Option String)} {next : State} {sheet : Sheet}
    (hnext : next.sheets = s.sheets) (hfresh : Naming.isReserved sheet.name = false)
    (hbody : ∀ n ∈ body.sheetNames, n ∈ s.names ∨ n = sheet.name) (hcode : body.Reads reads)
    (honly : ∀ v, some v ∈ reads → v ∈ e.helpers s ∨ v ∈ body.results)
    (hall : ∀ v ∈ e.helpers s, some v ∈ reads) : e.Assigns s ⟨next.push sheet, [body]⟩ := by
  have hnames : (next.push sheet).names = s.names ++ [sheet.name] := by
    rw [State.names_push, State.names, hnext]
    rfl
  refine ⟨?_, ?_, ?_⟩
  · exact List.forall_mem_singleton.mpr fun v => ChunkBody.mem_strays_of_reads hcode honly hall
  · refine List.forall_mem_singleton.mpr fun n hn => ?_
    rw [hnames, List.mem_append, List.mem_singleton]
    exact (hbody n hn).imp_right .inr
  · intro n hn
    rw [hnames, List.mem_append, List.mem_singleton] at hn
    rcases hn with hn | rfl
    · exact .inl hn
    · exact .inr (.inr hfresh)

end Edit.Assigns

section Edits

open Statement

variable {s : State} {c : Change}

theorem AddColumn.assigns {e : AddColumn} (hs : s.Named) (h : e.run s = .ok c) :
    (Edit.addColumn e).Assigns s c := by
  unfold AddColumn.run at h
  simp only [bind_eq_ok, throw_ite_eq_ok, pure_eq_ok] at h
  obtain ⟨sheet, hsheet, -, frame, -, rfl⟩ := h
  exact .onColumns hs hsheet rfl rfl rfl rfl

theorem DeleteColumns.assigns {e : DeleteColumns} (hs : s.Named) (h : e.run s = .ok c) :
    (Edit.deleteColumns e).Assigns s c := by
  unfold DeleteColumns.run at h
  simp only [bind_eq_ok, throw_ite_eq_ok, pure_eq_ok] at h
  obtain ⟨-, sheet, hsheet, headers, -, rfl⟩ := h
  exact .onColumns hs hsheet rfl rfl rfl rfl

theorem RenameColumn.assigns {e : RenameColumn} (hs : s.Named) (h : e.run s = .ok c) :
    (Edit.renameColumn e).Assigns s c := by
  unfold RenameColumn.run at h
  simp only [bind_eq_ok] at h
  obtain ⟨sheet, hsheet, old, -, h⟩ := h
  split at h
  · simp only [pure_eq_ok] at h
    exact h ▸ .idle _ s
  · simp only [throw_ite_eq_ok, bind_eq_ok, pure_eq_ok, RenameColumn.after] at h
    obtain ⟨-, -, -, ⟨frame, -, rfl⟩, rfl⟩ := h
    exact .onColumns hs hsheet rfl rfl rfl rfl

theorem MoveColumn.assigns {e : MoveColumn} (hs : s.Named) (h : e.run s = .ok c) :
    (Edit.moveColumn e).Assigns s c := by
  unfold MoveColumn.run at h
  simp only [bind_eq_ok] at h
  obtain ⟨sheet, hsheet, source, -, h⟩ := h
  split at h
  · simp only [pure_eq_ok] at h
    exact h ▸ .idle _ s
  · simp only [bind_eq_ok, pure_eq_ok] at h
    obtain ⟨frame, -, header, -, rfl⟩ := h
    have hdf := hs.of_sheet hsheet
    -- the helper takes the other headers, then the moved one, and the sheet selects by it
    have hcolumns : Naming.isVariableName (sheet.name ++ "_columns") = true :=
      Naming.isVariableName_append hdf (by decide) (by decide)
    have hhelpers : Edit.helpers s (.moveColumn e) = [sheet.name ++ "_columns"] := by
      obtain ⟨left, right, heq, hlen⟩ := State.sheet_eq_ok hsheet
      simp [Edit.helpers, heq, ← hlen]
    refine .onBlock hsheet rfl rfl (.cons (assigned?_sheet hcolumns ?_)
      (.cons (assigned?_method hcolumns ?_) (.cons (assigned?_sheet hdf ?_) .nil))) ?_ ?_
    · simp only [String.append_assoc]
      exact Starts.parts (by decide) _ _
    · simp only [String.append_assoc]
      exact Starts.parts (by decide) _ _
    · simp only [String.append_assoc]
      exact Starts.parts (by decide) _ _
    · simp [hhelpers]
    · simp [hhelpers]

theorem SetFormula.assigns {e : SetFormula} (hs : s.Named) (h : e.run s = .ok c) :
    (Edit.setFormula e).Assigns s c := by
  unfold SetFormula.run at h
  simp only [bind_eq_ok] at h
  obtain ⟨sheet, hsheet, header, -, h⟩ := h
  split at h
  · simp at h
  · simp only [bind_eq_ok, pure_eq_ok] at h
    obtain ⟨columns, -, frame, -, rfl⟩ := h
    exact .onColumns hs hsheet rfl rfl rfl rfl

theorem ChangeType.assigns {e : ChangeType} (hs : s.Named) (h : e.run s = .ok c) :
    (Edit.changeType e).Assigns s c := by
  unfold ChangeType.run at h
  simp only [bind_eq_ok] at h
  obtain ⟨sheet, hsheet, header, -, column, -, h⟩ := h
  split at h
  · simp only [pure_eq_ok] at h
    exact h ▸ .idle _ s
  · simp only [bind_eq_ok, pure_eq_ok] at h
    obtain ⟨converted, -, frame, -, rfl⟩ := h
    have hitem : Starts (Retype.statement sheet.name header (.ofType column.dtype) e.kind)
        (sheet.name ++ "[") := by
      simp only [Retype.statement, String.append_assoc]
      exact Starts.parts (.self _) _ _
    refine .onSheet hsheet rfl (List.forall_mem_singleton.mpr
      ⟨List.forall_mem_singleton.mpr rfl, fun v => ChunkBody.mem_strays_of_reads
        (.cons (assigned?_item (hs.of_sheet hsheet) hitem) .nil) ?_ ?_⟩)
    · simp
    · exact List.forall_mem_nil _

theorem FilterRows.assigns {e : FilterRows} (hs : s.Named) (h : e.run s = .ok c) :
    (Edit.filterRows e).Assigns s c := by
  unfold FilterRows.run at h
  simp only [bind_eq_ok] at h
  obtain ⟨sheet, hsheet, header, -, column, -, p, -, h⟩ := h
  cases p with
  | none =>
    simp only [pure_eq_ok] at h
    exact h ▸ .idle _ s
  | some p =>
    simp only [bind_eq_ok, pure_eq_ok] at h
    obtain ⟨tested, -, mask, -, rfl⟩ := h
    cases mask with
    | none => exact .onSheet hsheet rfl (List.forall_mem_nil _)
    | some m =>
      refine .onBlock hsheet rfl rfl (.cons (assigned?_sheet (hs.of_sheet hsheet) ?_) .nil) ?_ ?_
      · simp only [String.append_assoc]
        exact Starts.parts (by decide) _ _
      · simp
      · exact List.forall_mem_nil _

theorem SortRows.assigns {e : SortRows} (hs : s.Named) (h : e.run s = .ok c) :
    (Edit.sortRows e).Assigns s c := by
  unfold SortRows.run at h
  simp only [bind_eq_ok] at h
  obtain ⟨sheet, hsheet, header, -, h⟩ := h
  have hsorted : ∀ {descending}, e.sorted s sheet descending = .ok c →
      (Edit.sortRows e).Assigns s c := by
    intro descending h
    simp only [SortRows.sorted, bind_eq_ok, pure_eq_ok] at h
    obtain ⟨header, -, frame, -, rfl⟩ := h
    refine .onBlock hsheet rfl rfl (.cons (assigned?_sheet (hs.of_sheet hsheet) ?_) .nil) ?_ ?_
    · simp only [String.append_assoc]
      exact Starts.parts (by decide) _ _
    · simp
    · exact List.forall_mem_nil _
  cases horder : e.order with
  | unsorted =>
    simp only [horder, pure_eq_ok] at h
    exact h ▸ .idle _ s
  | ascending | descending =>
    rw [horder] at h
    exact hsorted h

theorem PromoteRow.assigns {e : PromoteRow} (hs : s.Named) (h : e.run s = .ok c) :
    (Edit.promoteRow e).Assigns s c := by
  unfold PromoteRow.run at h
  simp only [bind_eq_ok, throw_ite_eq_ok] at h
  obtain ⟨sheet, hsheet, -, headers, -, h⟩ := h
  split at h
  · simp at h
  · simp only [bind_eq_ok, pure_eq_ok] at h
    obtain ⟨frame, -, rfl⟩ := h
    have hdf := hs.of_sheet hsheet
    refine .onBlock hsheet rfl rfl
      (.cons (assigned?_method hdf ?_) (.cons (assigned?_method hdf ?_) .nil)) ?_ ?_
    · simp only [String.append_assoc]
      exact Starts.parts (by decide) _ _
    · simp only [String.append_assoc]
      exact Starts.parts (by decide) _ _
    · simp
    · exact List.forall_mem_nil _

theorem OneHot.assigns {e : OneHot} (hs : s.Named) (h : e.run s = .ok c) :
    (Edit.oneHot e).Assigns s c := by
  obtain ⟨sheet, header, _, _, _, _, hsheet, -, -, -, -, -, -, -, rfl⟩ := OneHot.run_eq_ok.mp h
  have hhelper : IsName "tmp_df" := by decide
  have hcolumns : assigned? "tmp_df.columns = tmp_df.columns.astype(str)" = none := rfl
  refine .onBlock hsheet rfl rfl (.cons (assigned?_name hhelper ?_) (.cons hcolumns
    (.cons (assigned?_sheet (hs.of_sheet hsheet) ?_) .nil))) ?_ ?_
  · simp only [String.append_assoc]
    exact Starts.append (by decide) _
  · simp only [String.append_assoc]
    exact Starts.parts (by decide) _ _
  · simp [Edit.helpers]
  · simp [Edit.helpers]

theorem DuplicateSheet.assigns {e : DuplicateSheet} (hs : s.Named) (h : e.run s = .ok c) :
    (Edit.duplicateSheet e).Assigns s c := by
  simp only [DuplicateSheet.run, bind_eq_ok, pure_eq_ok] at h
  obtain ⟨source, hsource, rfl⟩ := h
  have hname := hs.of_sheet hsource
  have hcopy := State.Named.mint s (source.name ++ "_copy") source.frame
  refine .onNew rfl (State.isReserved_uniqueName hname (.inl rfl) s) ?_
    (.cons (assigned?_sheet hcopy ?_) .nil) ?_ ?_
  · exact List.forall_mem_cons.mpr ⟨.inl (State.mem_names_of_sheet hsource),
      List.forall_mem_singleton.mpr (.inr rfl)⟩
  · simp only [String.append_assoc]
    exact Starts.parts (by decide) _ _
  · simp [ChunkBody.results, Sheet.target]
  · exact List.forall_mem_nil _

theorem DeleteSheet.assigns {e : DeleteSheet} (hs : s.Named) (h : e.run s = .ok c) :
    (Edit.deleteSheet e).Assigns s c := by
  simp only [DeleteSheet.run, State.remove, bind_eq_ok, pure_eq_ok] at h
  obtain ⟨sheet, hsheet, next, ⟨_, -, rfl⟩, rfl⟩ := h
  have hname := hs.of_sheet hsheet
  refine ⟨List.forall_mem_singleton.mpr fun v => ChunkBody.mem_strays_of_reads
    (.cons (assigned?_del (.of_isVariableName hname)) .nil) ?_ ?_, ?_, ?_⟩
  · simp
  · exact List.forall_mem_nil _
  · exact List.forall_mem_singleton.mpr
      (List.forall_mem_singleton.mpr (.inl (State.mem_names_of_sheet hsheet)))
  · intro n hn
    obtain ⟨sh, hsh, rfl⟩ := State.mem_names.mp hn
    exact .inl (State.mem_names.mpr ⟨sh, List.mem_of_mem_eraseIdx hsh, rfl⟩)

theorem RenameSheet.assigns {e : RenameSheet} (hs : s.Named) (h : e.run s = .ok c) :
    (Edit.renameSheet e).Assigns s c := by
  unfold RenameSheet.run at h
  simp only [bind_eq_ok] at h
  obtain ⟨sheet, hsheet, h⟩ := h
  split at h
  · simp only [pure_eq_ok] at h
    exact h ▸ .idle _ s
  · simp only [throw_ite_eq_ok, pure_eq_ok] at h
    obtain ⟨-, rfl⟩ := h
    have hold := hs.of_sheet hsheet
    have hnew := Naming.isVariableName_variableName e.name
    have hthere : Naming.variableName e.name
        ∈ (s.replace e.sheet { sheet with name := Naming.variableName e.name }).names := by
      obtain ⟨left, right, heq, hlen⟩ := State.sheet_eq_ok hsheet
      simp [State.names, State.replace, heq, ← hlen]
    refine ⟨List.forall_mem_singleton.mpr fun v => ChunkBody.mem_strays_of_reads
      (.cons (assigned?_sheet hnew ((Starts.self _).append _))
        (.cons (assigned?_del (.of_isVariableName hold)) .nil)) ?_ ?_, ?_, ?_⟩
    · simp [ChunkBody.results]
    · exact List.forall_mem_nil _
    · exact List.forall_mem_singleton.mpr (List.forall_mem_cons.mpr
        ⟨.inl (State.mem_names_of_sheet hsheet), List.forall_mem_singleton.mpr (.inr hthere)⟩)
    · intro n hn
      exact (State.mem_names_replace hn).imp_right fun h => .inl (List.mem_singleton.mpr h)

theorem FormatSheet.assigns {e : FormatSheet} (h : e.run s = .ok c) :
    (Edit.formatSheet e).Assigns s c := by
  simp only [FormatSheet.run, bind_eq_ok, pure_eq_ok] at h
  obtain ⟨sheet, hsheet, headers, -, rfl⟩ := h
  exact .onSheet hsheet rfl (List.forall_mem_nil _)

theorem DrawChart.assigns {e : DrawChart} (h : e.run s = .ok c) :
    (Edit.drawChart e).Assigns s c := by
  simp only [DrawChart.run, bind_eq_ok, pure_eq_ok] at h
  obtain ⟨sheet, -, code, -, rfl⟩ := h
  exact ⟨List.forall_mem_nil _, List.forall_mem_nil _, fun n hn => .inl hn⟩

/-- A merge of some kinds looks its partners up with a helper. -/
theorem Merge.reads {e : Merge} {p : Merge.Plan} {one two output : Sheet}
    (houtput : Naming.isVariableName output.name = true) :
    (ChunkBody.block (e.block p one two output)).Reads
      (e.kind.helpers.map some ++ [some output.name]) := by
  have honly : ∀ (this other : String) (columns keys otherKeys : List Header),
      List.Forall₂ (fun st v => assigned? st = v)
        (Merge.onlyStatements output.name this other columns keys otherKeys)
        [some "bool_index_array", some output.name] := by
    intro this other columns keys otherKeys
    have hhelper : IsName "bool_index_array" := by decide
    refine .cons (assigned?_name hhelper ?_) (.cons (assigned?_sheet houtput ?_) .nil)
    · simp only [String.append_assoc]
      exact Starts.append (by decide) _
    · simp only [String.append_assoc]
      exact Starts.parts (by decide) _ _
  show List.Forall₂ _ (e.statements p one two output) _
  unfold Merge.statements
  cases e.kind with
  | leftOnly | rightOnly => exact honly _ _ _ _ _
  | lookup =>
    have hhelper : IsName "temp_df" := by decide
    refine .cons (assigned?_name hhelper ?_) (.cons (assigned?_sheet houtput ?_) .nil)
    · simp only [String.append_assoc]
      exact Starts.append (by decide) _
    · simp only [String.append_assoc]
      exact Starts.parts (.self _) _ _
  | left | right | inner | outer =>
    refine .cons (assigned?_sheet houtput ?_) .nil
    simp only [String.append_assoc]
    exact Starts.parts (.self _) _ _

theorem Merge.assigns {e : Merge} (h : e.run s = .ok c) :
    (Edit.merge e).Assigns s c := by
  unfold Merge.run at h
  simp only [bind_eq_ok, pure_eq_ok] at h
  obtain ⟨one, hone, two, htwo, p, -, f, -, rfl⟩ := h
  have hfresh : Naming.isReserved (s.uniqueName "df_merge") = false := by
    rcases s.uniqueName_cases "df_merge" with h | h
    · rw [h]
      decide
    · exact h
  refine .onNew rfl hfresh (List.forall_mem_singleton.mpr (.inr rfl))
    (Merge.reads (State.Named.mint s "df_merge" f)) ?_ ?_
  · intro v hv
    simpa [Edit.helpers, ChunkBody.results, Merge.block, Sheet.blockOutput] using hv
  · exact fun v hv => List.mem_append_left _ (List.mem_map_of_mem hv)

theorem Pivot.assigns {e : Pivot} (hs : s.Named) (h : e.run s = .ok c) :
    (Edit.pivot e).Assigns s c := by
  unfold Pivot.run at h
  simp only [bind_eq_ok] at h
  obtain ⟨source, hsource, l, -, f, -, h⟩ := h
  have hreads : ∀ {output : Sheet}, Naming.isVariableName output.name = true →
      (ChunkBody.block (e.block l source output)).Reads
        [some "tmp_df", some "pivot_table", some "pivot_table", some output.name] := by
    intro output houtput
    have hfirst : IsName "tmp_df" := by decide
    have hsecond : IsName "pivot_table" := by decide
    refine .cons (assigned?_name hfirst ?_) (.cons (assigned?_name hsecond ?_)
      (.cons (assigned?_name hsecond ?_) (.cons (assigned?_sheet houtput ?_) .nil)))
    · simp only [String.append_assoc]
      exact Starts.append (by decide) _
    · simp only [String.append_assoc]
      exact Starts.append (by decide) _
    · simp only [String.append_assoc]
      exact Starts.append (by decide) _
    · exact Starts.prepend (by decide) _
  -- the table replaces the sheet at the destination, or goes in a new one
  cases hdestination : e.destination with
  | some i =>
    simp only [hdestination, bind_eq_ok, pure_eq_ok] at h
    obtain ⟨target, htarget, headers, -, rfl⟩ := h
    have hname := hs.of_sheet htarget
    refine .onBlock htarget rfl rfl (hreads ?_) ?_ ?_
    · exact hname
    · simp [Edit.helpers, Sheet.withData]
    · simp [Edit.helpers]
  | none =>
    simp only [hdestination, pure_eq_ok] at h
    subst h
    refine .onNew rfl (State.isReserved_uniqueName (hs.of_sheet hsource) (.inr rfl) s) ?_
      (hreads (State.Named.mint s (source.name ++ "_pivot") f)) ?_ ?_
    · exact List.forall_mem_singleton.mpr (.inr rfl)
    · simp [Edit.helpers, ChunkBody.results, Pivot.block, Sheet.blockOutput]
    · simp [Edit.helpers]

/-- The call that formats a tab assigns nothing. -/
theorem assigned?_formattingCall {tab df st : String} {sheet : Sheet}
    (h : Workbook.formattingCall tab df sheet = .ok (some st)) : assigned? st = none := by
  have hcall : ∀ rest, assigned? ("    add_formatting_to_excel_sheet(writer, " ++ rest) = none := by
    intro rest
    have hname : IsName "add_formatting_to_excel_sheet" := by decide
    have hword : Starts "add_formatting_to_excel_sheet(writer, "
        ("add_formatting_to_excel_sheet" ++ "(") := by decide
    have hindent : "    add_formatting_to_excel_sheet(writer, "
        = "    " ++ "add_formatting_to_excel_sheet(writer, " := rfl
    rw [hindent, String.append_assoc, assigned?_indented]
    exact assigned?_other hname (by decide) (hword.append rest) rfl rfl (by decide)
  unfold Workbook.formattingCall at h
  split at h
  · cases h
  · simp only [bind_eq_ok] at h
    obtain ⟨numbers, -, h⟩ := h
    split at h
    · cases h
    · simp only [pure_eq_ok, Option.some.injEq] at h
      rw [← h]
      simp only [String.append_assoc]
      exact hcall _

/-- The statement that opens a workbook assigns the writer. -/
theorem assigned?_opening (path : String) : assigned? ("with pd.ExcelWriter(" ++ path
    ++ ", engine=\"openpyxl\") as writer:") = some "writer" := by
  have hname : IsName "writer" := by decide
  have hfirst : "with pd.ExcelWriter(" = "with pd" ++ ".ExcelWriter(" := rfl
  have hlast : ", engine=\"openpyxl\") as writer:"
      = ", engine=\"openpyxl\")" ++ " as " ++ "writer" ++ ":" := rfl
  refine assigned?_with hname (".ExcelWriter(" ++ path ++ ", engine=\"openpyxl\")") ?_
  rw [hfirst, hlast]
  simp only [String.append_assoc]

/-- Writing a workbook keeps the writer in a helper. -/
theorem ExportSheets.assigned_statements {e : ExportSheets} {sheets : List Sheet}
    {statements : List String}
    (hnames : ∀ sheet ∈ sheets, Naming.isVariableName sheet.name = true)
    (h : e.statements sheets = .ok statements) (v : String) :
    (∃ st ∈ statements, assigned? st = some v) ↔ v ∈ Edit.helpers s (.exportSheets e) := by
  have htab : ∀ t ∈ tabs sheets, Naming.isVariableName t.1.name = true := fun t ht =>
    hnames t.1 (List.of_mem_zip ht).1
  unfold ExportSheets.statements at h
  unfold Edit.helpers
  dsimp only
  cases hkind : e.kind with
  | csv =>
    rw [hkind] at h
    obtain rfl := Except.ok.inj h
    have hnone : ∀ st ∈ (sheets.zip e.paths).map (fun p =>
        p.1.name ++ ".to_csv(" ++ Literal.path p.2 ++ ", index=False)"), assigned? st = none := by
      rw [List.forall_mem_map]
      intro p hp
      refine assigned?_method (hnames p.1 (List.of_mem_zip hp).1) ?_
      simp only [String.append_assoc]
      exact Starts.parts (by decide) _ _
    simp only [reduceCtorEq, if_false, List.not_mem_nil, iff_false, not_exists, not_and]
    intro st hst
    rw [hnone st hst]
    exact fun heq => by cases heq
  | workbook =>
    rw [hkind] at h
    -- formatting adds calls at the end, none of which assigns
    have hformat : ∃ calls, (∀ st ∈ calls, assigned? st = none) ∧ statements
        = ("with pd.ExcelWriter(" ++ Literal.path e.basePath ++ ", engine=\"openpyxl\") as writer:")
          :: ((tabs sheets).map (fun t => "    " ++ t.1.name ++ ".to_excel(writer, sheet_name="
            ++ Json.quoted t.2 ++ ", index=False)") ++ calls) := by
      dsimp only at h
      split at h
      · simp only [bind_eq_ok, pure_eq_ok, mapM_eq_ok] at h
        obtain ⟨formatting, hformatting, rfl⟩ := h
        refine ⟨_, fun st hst => ?_, rfl⟩
        obtain ⟨o, ho, hid⟩ := List.mem_filterMap.mp hst
        obtain rfl : o = some st := hid
        obtain ⟨t, -, hcall⟩ := exists_of_mem_right hformatting ho
        exact assigned?_formattingCall hcall
      · simp only [bind_eq_ok, pure_eq_ok] at h
        obtain ⟨_, rfl, rfl⟩ := h
        exact ⟨[], List.forall_mem_nil _, rfl⟩
    obtain ⟨calls, hcalls, rfl⟩ := hformat
    have hopening := assigned?_opening (Literal.path e.basePath)
    have hrest : ∀ st ∈ (tabs sheets).map (fun t => "    " ++ t.1.name
        ++ ".to_excel(writer, sheet_name=" ++ Json.quoted t.2 ++ ", index=False)") ++ calls,
        assigned? st = none := by
      rw [List.forall_mem_append, List.forall_mem_map]
      refine ⟨fun t ht => ?_, hcalls⟩
      simp only [String.append_assoc, assigned?_indented]
      have hword : ∀ rest, Starts (".to_excel(writer, sheet_name=" ++ rest) "." := fun rest =>
        Starts.append (by decide) rest
      exact assigned?_method (htab t ht) ((hword _).prepend _)
    constructor
    · rintro ⟨st, hst, hv⟩
      rcases List.mem_cons.mp hst with rfl | hst
      · rw [hopening] at hv
        exact List.mem_singleton.mpr (Option.some.inj hv).symm
      · rw [hrest st hst] at hv
        cases hv
    · intro hv
      obtain rfl := List.mem_singleton.mp hv
      exact ⟨_, List.mem_cons_self, hopening⟩

theorem ExportSheets.assigns {e : ExportSheets} {d : Disk} (hs : s.Named)
    (h : (e.run d s).1 = .ok c) : (Edit.exportSheets e).Assigns s c := by
  unfold ExportSheets.run at h
  split at h
  · cases h
  · next sheets hsheets =>
    split at h
    · cases h
    · simp only [map_eq_ok, ExportSheets.block, bind_eq_ok, pure_eq_ok] at h
      obtain ⟨b, ⟨statements, hstatements, rfl⟩, rfl⟩ := h
      unfold ExportSheets.sheetsOf at hsheets
      simp only [throw_ite_eq_ok, mapM_eq_ok] at hsheets
      have hnames : ∀ sheet ∈ sheets, Naming.isVariableName sheet.name = true := by
        intro sheet hsheet
        obtain ⟨i, -, hi⟩ := exists_of_mem_right hsheets.2.2 hsheet
        exact hs.of_sheet hi
      refine ⟨List.forall_mem_singleton.mpr fun v => ?_, ?_, fun n hn => .inl hn⟩
      · rw [ChunkBody.mem_strays]
        exact and_congr_left fun _ => assigned_statements hnames hstatements v
      · exact List.forall_mem_singleton.mpr (List.forall_mem_nil _)

/-- What is known of the sheets after some of the files: they have names of sheets, names
  that files give, or free ones. -/
structure ImportFiles.Added (e : ImportFiles) (s : State) (acc : State × List Sheet) : Prop where
  names : ∀ n ∈ acc.1.names,
    n ∈ s.names ∨ n ∈ Edit.givenNames (.importFiles e) ∨ Naming.isReserved n = false
  sheets : ∀ sheet ∈ acc.2, sheet.name ∈ acc.1.names ∧ Naming.isVariableName sheet.name = true

/-- A file adds a sheet under the name that it gives, unless that one is taken. -/
theorem ImportFiles.Added.addFile {e : ImportFiles} {d : Disk} {path : String}
    {acc later : State × List Sheet} (hpath : path ∈ e.files) (hacc : ImportFiles.Added e s acc)
    (h : e.addFile d acc path = .ok later) : ImportFiles.Added e s later := by
  obtain ⟨s', sheets⟩ := acc
  simp only [ImportFiles.addFile, bind_eq_ok, pure_eq_ok] at h
  obtain ⟨f, -, rfl⟩ := h
  have hname := State.Named.mint s' (ImportFiles.baseName path) f
  have hgiven : s'.uniqueName (ImportFiles.baseName path) ∈ Edit.givenNames (.importFiles e)
      ∨ Naming.isReserved (s'.uniqueName (ImportFiles.baseName path)) = false := by
    refine (s'.uniqueName_cases _).imp_left fun h => ?_
    rw [h]
    exact List.mem_map_of_mem hpath
  -- legacy ids change the columns of the sheet, and not its name
  generalize hsheet : (if e.legacyIds = true then _ else _) = sheet
  have hsame : sheet.name = s'.uniqueName (ImportFiles.baseName path) := by
    rw [← hsheet]
    split <;> rfl
  have hnames : ((s'.mint (s'.uniqueName (ImportFiles.baseName path)) f).2.push sheet).names
      = s'.names ++ [sheet.name] := State.names_push _ _
  refine ⟨fun n hn => ?_, fun other hother => ?_⟩
  · rw [hnames] at hn
    rcases List.mem_append.mp hn with hn | hn
    · exact hacc.names n hn
    · obtain rfl := List.mem_singleton.mp hn
      exact .inr (hsame ▸ hgiven)
  · rw [hnames]
    rcases List.mem_append.mp hother with hother | hother
    · obtain ⟨hmem, hvalid⟩ := hacc.sheets other hother
      exact ⟨List.mem_append_left _ hmem, hvalid⟩
    · obtain rfl := List.mem_singleton.mp hother
      exact ⟨List.mem_append_right _ (List.mem_singleton_self _), hsame ▸ hname⟩

theorem ImportFiles.assigns {e : ImportFiles} {d : Disk} (h : e.run d s = .ok c) :
    (Edit.importFiles e).Assigns s c := by
  unfold ImportFiles.run at h
  simp only [throw_ite_eq_ok, bind_eq_ok, pure_eq_ok] at h
  obtain ⟨-, ⟨next, sheets⟩, hfold, rfl⟩ := h
  have hnone : ImportFiles.Added e s (s, []) := ⟨fun n hn => .inl hn, List.forall_mem_nil _⟩
  have hall : ImportFiles.Added e s (next, sheets) :=
    foldlM_keeps (fun hpath hacc h => hacc.addFile hpath h) hnone hfold
  have hresults : (ChunkBody.block (e.block sheets)).results = sheets.map Sheet.name := by
    show (sheets.map Sheet.blockOutput).map BlockOutput.name = _
    rw [List.map_map]
    rfl
  have hstrays : (ChunkBody.block (e.block sheets)).strays = [] := by
    rw [ChunkBody.strays_eq_nil_iff, hresults]
    show ∀ st ∈ (e.files.zip sheets).map _, _
    rw [List.forall_mem_map]
    intro p hp v hv
    have hsheet := (List.of_mem_zip hp).2
    rw [assigned?_sheet (hall.sheets p.2 hsheet).2] at hv
    · exact List.mem_map.mpr ⟨p.2, hsheet, Option.some.inj hv⟩
    · simp only [String.append_assoc]
      exact Starts.parts (by decide) _ _
  refine ⟨List.forall_mem_singleton.mpr fun v => ?_, List.forall_mem_singleton.mpr ?_, hall.names⟩
  · simp [hstrays, Edit.helpers]
  · show ∀ n ∈ (ChunkBody.block (e.block sheets)).results, _
    rw [hresults, List.forall_mem_map]
    exact fun sheet hsheet => .inr (hall.sheets sheet hsheet).1

theorem RestrictHeaders.assigns {e : RestrictHeaders} (hs : s.Named) (h : e.run s = .ok c) :
    (Edit.restrictHeaders e).Assigns s c := by
  unfold RestrictHeaders.run at h
  simp only [bind_eq_ok, pure_eq_ok, mapM_eq_ok] at h
  obtain ⟨results, hresults, rfl⟩ := h
  have hname : ∀ r ∈ results, r.1.name ∈ s.names := by
    intro r hr
    obtain ⟨sheet, hsheet, hafter⟩ := exists_of_mem_right hresults hr
    rw [RestrictHeaders.name_sheetAfter hafter]
    exact State.mem_names.mpr ⟨sheet, hsheet, rfl⟩
  have hvalid : ∀ n ∈ s.names, Naming.isVariableName n = true := by
    intro n hn
    obtain ⟨sheet, hsheet, rfl⟩ := State.mem_names.mp hn
    exact hs sheet hsheet
  -- only sheets with a header to change are in the code
  set changed := results.filter fun r => !r.2.isEmpty with hchanged
  have hmem : ∀ r ∈ changed, r.1.name ∈ s.names := fun r hr =>
    hname r (List.mem_filter.mp hr).1
  have hblock : (ChunkBody.block (RestrictHeaders.block changed)).results
      = changed.map fun r => r.1.name := by
    show (changed.map fun r => r.1.blockOutput).map BlockOutput.name = _
    rw [List.map_map]
    rfl
  have hstrays : (ChunkBody.block (RestrictHeaders.block changed)).strays = [] := by
    rw [ChunkBody.strays_eq_nil_iff]
    show ∀ st ∈ changed.map _, _
    rw [List.forall_mem_map]
    intro r hr v hv
    have hdot : Starts (RestrictHeaders.statement r.1.name r.2) (r.1.name ++ ".") := by
      simp only [RestrictHeaders.statement, String.append_assoc]
      exact Starts.parts (by decide) _ _
    rw [assigned?_method (hvalid _ (hmem r hr)) hdot] at hv
    cases hv
  have hcode : ∀ b ∈ (if changed.isEmpty then []
      else [ChunkBody.block (RestrictHeaders.block changed)]),
      b = ChunkBody.block (RestrictHeaders.block changed) := by
    split
    · exact List.forall_mem_nil _
    · exact List.forall_mem_singleton.mpr rfl
  refine ⟨fun b hb v => ?_, fun b hb => ?_, fun n hn => ?_⟩
  · rw [hcode b hb, hstrays]
    simp [Edit.helpers]
  · rw [hcode b hb]
    show ∀ n ∈ (ChunkBody.block (RestrictHeaders.block changed)).results, _
    rw [hblock, List.forall_mem_map]
    exact fun r hr => .inl (hmem r hr)
  · obtain ⟨sheet, hsheet, rfl⟩ := State.mem_names.mp hn
    obtain ⟨r, hr, rfl⟩ := List.mem_map.mp hsheet
    exact .inl (hname r hr)

/-- What the code of an accepted edit assigns. -/
theorem Edit.assigns {e : Edit} {d : Disk} (hs : s.Named) (h : e.change d s = .ok c) :
    e.Assigns s c := by
  cases e with
  | importFiles e => exact ImportFiles.assigns h
  | addColumn e => exact AddColumn.assigns hs h
  | deleteColumns e => exact DeleteColumns.assigns hs h
  | renameColumn e => exact RenameColumn.assigns hs h
  | moveColumn e => exact MoveColumn.assigns hs h
  | setFormula e => exact SetFormula.assigns hs h
  | changeType e => exact ChangeType.assigns hs h
  | filterRows e => exact FilterRows.assigns hs h
  | sortRows e => exact SortRows.assigns hs h
  | pivot e => exact Pivot.assigns hs h
  | merge e => exact Merge.assigns h
  | oneHot e => exact OneHot.assigns hs h
  | promoteRow e => exact PromoteRow.assigns hs h
  | duplicateSheet e => exact DuplicateSheet.assigns hs h
  | deleteSheet e => exact DeleteSheet.assigns hs h
  | renameSheet e => exact RenameSheet.assigns hs h
  | formatSheet e => exact FormatSheet.assigns h
  | drawChart e => exact DrawChart.assigns h
  | exportSheets e => exact ExportSheets.assigns hs h
  | restrictHeaders e => exact RestrictHeaders.assigns hs h

end Edits

/-! ### Steps -/

/-- The code of accepted steps is that of edits, whose assignments are known. -/
theorem State.Accepts.assigns {s : State} {steps : List Step} (hs : s.Named)
    (ha : s.Accepts steps) : ∀ step ∈ steps, step.before.Named ∧ step.after.Named
      ∧ step.edit.Assigns step.before ⟨step.after, step.chunks.map Chunk.body⟩ := by
  induction steps generalizing s with
  | nil => exact List.forall_mem_nil _
  | cons step rest ih =>
    obtain ⟨⟨d, -, hrun⟩, hrest⟩ := ha
    obtain ⟨c, hc, hstep⟩ := Step.run_eq_ok hrun
    have hbefore : step.before = s := Step.before_eq hrun
    have hafter : step.after = c.state := by rw [hstep]
    have hcode : step.chunks.map Chunk.body = c.code := by
      rw [hstep, List.map_map]
      exact List.map_id _
    have hnamed : step.after.Named := hafter ▸ (Edit.described hs hc).named
    refine List.forall_mem_cons.mpr ⟨⟨hbefore ▸ hs, hnamed, ?_⟩, ih hnamed hrest⟩
    rw [hbefore, hafter, hcode]
    exact Edit.assigns hs hc

/-! ### Shortening -/

namespace Optimizer

/-- What a rewrite puts in the place of a pair is plain, and is about sheets of the pair. -/
theorem plain_rewriteFor {older newer : ChunkBody} {r : Rewrite}
    (h : rewriteFor older newer = some r) :
    r.Makes fun body => body.isPlain = true
      ∧ ∀ n ∈ body.sheetNames, n ∈ older.sheetNames ∨ n ∈ newer.sheetNames := by
  unfold rewriteFor at h
  split at h
  · -- a formula before the deletion of its column
    split at h <;> cases h
    trivial
  · -- a change of type before the deletion of its column
    split at h <;> cases h
    trivial
  · -- an insertion and the deletion of the column
    split at h
    · simp only [withoutColumn, List.unzip_eq_map] at h
      split at h
      · cases h
        trivial
      · cases h
        exact ⟨rfl, fun n hn => .inr hn⟩
    · cases h
  · -- an insertion and a formula for the column
    split at h <;> cases h
    exact ⟨rfl, fun n hn => .inl hn⟩
  · -- a formula before another one
    split at h <;> cases h
    trivial
  · -- two renamings of a column
    split at h
    · split at h <;> cases h
      · trivial
      · exact ⟨rfl, fun n hn => .inl hn⟩
    · cases h
  · -- two renamings of a sheet
    split at h
    · split at h <;> cases h
      · trivial
      · refine ⟨rfl, List.forall_mem_cons.mpr ⟨.inl List.mem_cons_self, ?_⟩⟩
        exact List.forall_mem_singleton.mpr (.inr (List.mem_cons_of_mem _ List.mem_cons_self))
    · cases h
  · -- a renaming and the deletion of the sheet
    split at h
    · cases h
      exact ⟨rfl, List.forall_mem_singleton.mpr (.inl List.mem_cons_self)⟩
    · exact makes_beforeDeletion h
  · exact makes_beforeDeletion h
  · cases h

/-- Shortened chunks are some of the chunks, or plain ones on sheets of the chunks. -/
theorem assigns_shorten (limit : Nat) {chunks : List Chunk} {names : String → Prop}
    (h : ∀ c ∈ chunks, ∀ n ∈ c.body.sheetNames, names n) :
    ∀ c ∈ (shorten limit chunks).chunks,
      (∀ n ∈ c.body.sheetNames, names n)
        ∧ (c.body.isPlain = true ∨ ∃ k ∈ chunks, k.body = c.body) := by
  refine forall_shorten limit (p := fun body => (∀ n ∈ body.sheetNames, names n)
    ∧ (body.isPlain = true ∨ ∃ k ∈ chunks, k.body = body)) ?_
    fun c hc => ⟨h c hc, .inr ⟨c, hc, rfl⟩⟩
  rintro older newer r hrule ⟨holder, -⟩ ⟨hnewer, -⟩
  have hplain := plain_rewriteFor hrule
  have hboth : ∀ {body : ChunkBody}, (body.isPlain = true
      ∧ ∀ n ∈ body.sheetNames, n ∈ older.sheetNames ∨ n ∈ newer.sheetNames) →
      (∀ n ∈ body.sheetNames, names n)
        ∧ (body.isPlain = true ∨ ∃ k ∈ chunks, k.body = body) :=
    fun h => ⟨fun n hn => (h.2 n hn).elim (holder n) (hnewer n), .inl h.1⟩
  cases r with
  | merge body | replaceNewer body => exact hboth hplain
  | dropOlder | dropBoth => trivial

end Optimizer

end SheetScript
