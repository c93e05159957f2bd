import SheetScript.Proofs.Assignments
import SheetScript.Proofs.Edit.Merge
import SheetScript.Proofs.Expression.Literal

/-! # Columns of unique merges

  A merge that keeps the rows of one sheet without a partner keeps the columns of that
  sheet.  Its last statement picks them by a list of headers, which is read off the text.
  The keys that share the column of their partner are not among the columns of the plan;
  the data and the statement both put them in front of the others, but in opposite orders.

  Main statement: `Merge.unique_columns`.
-/

namespace SheetScript

/-! ### Reading a selection -/

namespace Statement

open Expression

/-- The texts of a list, up to the bracket that closes it. -/
def listed? : List Token → Option (List String)
  | .closingIndex :: _ => some []
  | .text s :: .closingIndex :: _ => some [s]
  | .text s :: .comma :: rest => (listed? rest).map (s :: ·)
  | _ => none

/-- The columns that a statement selects, where it assigns `table[[…]]…` to a variable. -/
def selected? (statement : String) : Option (List String) :=
  let rest := statement.toList.dropWhile Naming.isNamePart
  if " = ".toList.isPrefixOf rest then
    match tokens? (String.ofList (rest.drop " = ".length)) with
    | some (.name _ :: .openingIndex :: .openingIndex :: ts) => listed? ts
    | _ => none
  else none

example : selected? "df_merge = df1[['A', 'B C']][rows.values].reset_index(drop=True)"
    = some ["A", "B C"] := by decide

/-- The tokens between the brackets of a list of texts. -/
def itemTokens : List String → List Token
  | [] => []
  | [s] => [.text s]
  | s :: rest => .text s :: .comma :: itemTokens rest

variable {b : String} {us : List Token} {firm : Bool}

theorem listed?_itemTokens (cols : List String) :
    listed? (itemTokens cols ++ .closingIndex :: us) = some cols := by
  induction cols with
  | nil => rfl
  | cons s rest ih =>
    cases rest with
    | nil => rfl
    | cons t rest =>
      show (listed? (itemTokens (t :: rest) ++ .closingIndex :: us)).map (s :: ·) = _
      rw [ih, Option.map_some]

theorem cuts_items (cols : List String) :
    Cuts true (", ".intercalate (cols.map Literal.text)) (itemTokens cols) := by
  induction cols with
  | nil => exact Cuts.of_feed rfl
  | cons s rest ih =>
    cases rest with
    | nil => exact Cuts.text true s
    | cons t rest =>
      have hcomma : Cuts true ", " [.comma] := Cuts.of_feed (by decide)
      rw [List.map_cons, List.map_cons, String.intercalate_cons_cons, ← List.map_cons]
      exact ((Cuts.text true s).append hcomma).append ih

/-- A list of texts in the code is cut into its texts, whatever stands in them. -/
theorem cuts_list (cols : List String) :
    Cuts true (Literal.list cols) (.openingIndex :: itemTokens cols ++ [.closingIndex]) := by
  have hopening : Cuts true "[" [.openingIndex] := Cuts.of_feed (by decide)
  have hclosing : Cuts true "]" [.closingIndex] := Cuts.of_feed (by decide)
  exact (hopening.append (cuts_items cols)).append hclosing

/-- The selection is read from a statement that picks columns of a table. -/
theorem selected?_columns {st df this : String} (hdf : IsName df)
    (hthis : Naming.isVariableName this = true) (hb : Cuts firm b us) (cols : List String)
    (hst : st = df ++ " = " ++ (this ++ ("[" ++ Literal.list cols ++ b))) :
    selected? st = some cols := by
  have hrest : st.toList.dropWhile Naming.isNamePart
      = " = ".toList ++ (this ++ ("[" ++ Literal.list cols ++ b)).toList := by
    rw [hst, String.toList_append, String.toList_append, List.append_assoc,
      List.dropWhile_append_of_pos hdf.isNamePart]
    rfl
  have hdrop : ∀ cs : List Char, (" = ".toList ++ cs).drop " = ".length = cs :=
    fun cs => List.drop_left
  have hopening : Cuts true "[" [.openingIndex] := Cuts.of_feed (by decide)
  have htokens := (Cuts.name hthis ((hopening.append (cuts_list cols)).append hb)
    (.inl (by simp))).tokens
  unfold selected?
  dsimp only
  rw [hrest, if_pos (List.isPrefixOf_iff_prefix.mpr (List.prefix_append _ _)), hdrop,
    String.ofList_toList, htokens]
  have hitems : itemTokens cols ++ [.closingIndex] ++ us
      = itemTokens cols ++ .closingIndex :: us := by simp
  show listed? (itemTokens cols ++ [.closingIndex] ++ us) = some cols
  rw [hitems, listed?_itemTokens]

end Statement

/-! ### Folded keys -/

namespace Merge

/-- The right keys that share the column of their partner. -/
def Plan.folded (p : Plan) : List Header := p.rightKeys.filter p.isFolded

/-- The headers of the right columns that keep a column of their own. -/
def Plan.rightInputs (p : Plan) : List Header := p.right.map Renaming.input

variable {e : Merge} {one two : Sheet} {p : Plan} {f : Frame}

/-- The right keys without a column of their own are the folded ones. -/
theorem missing_eq_folded (h : e.plan one two = .ok p) :
    (p.rightKeys.filter fun k => k ∉ p.rightInputs) = p.folded := by
  obtain ⟨-, -, -, rs, hrs, hrights⟩ := plan_eq_ok h
  refine List.filter_congr fun k hk => ?_
  -- every key is among the columns that are read
  obtain ⟨id, hid, hheader⟩ := (plan_headers h).2 k (List.mem_append_left _ hk)
  obtain ⟨k', hmem, hheader'⟩ := exists_of_mem_left hrs hid
  obtain rfl : k = k' := Option.some.inj (hheader.symm.trans hheader')
  have hown : k ∈ p.rightInputs ↔ p.isFolded k = false := by
    unfold Plan.rightInputs
    rw [hrights, List.mem_filter]
    simp [hmem]
  cases hfolded : p.isFolded k <;> simp [hown, hfolded]

/-- The script puts the keys that are not there in front, in their order. -/
theorem addMissing_eq {base keys : List Header} (h : (keys.filter fun k => k ∉ base).Nodup) :
    keys.reverse.foldl (fun cols key => if key ∈ cols then cols else key :: cols) base
      = (keys.filter fun k => k ∉ base) ++ base := by
  rw [List.foldl_reverse]
  induction keys with
  | nil => rfl
  | cons key rest ih =>
    rw [List.foldr_cons]
    by_cases hkey : key ∈ base
    · rw [List.filter_cons_of_neg (by simpa using hkey)] at h ⊢
      rw [ih h, if_pos (List.mem_append_right _ hkey)]
    · rw [List.filter_cons_of_pos (by simpa using hkey)] at h ⊢
      obtain ⟨hnew, hrest⟩ := List.nodup_cons.mp h
      have habsent : key ∉ (rest.filter fun k => k ∉ base) ++ base := fun hmem =>
        (List.mem_append.mp hmem).elim hnew hkey
      rw [ih hrest, if_neg habsent, List.cons_append]

theorem scriptColumns_eq (hplan : e.plan one two = .ok p) (hnd : p.folded.Nodup) :
    scriptColumns p = p.folded ++ p.rightInputs := by
  rw [← missing_eq_folded hplan] at hnd ⊢
  exact addMissing_eq hnd

/-- A list without repetitions reads the same backwards only if it is short. -/
theorem eq_reverse_iff {l : List Header} (h : l.Nodup) : l = l.reverse ↔ l.length ≤ 1 := by
  constructor
  · intro heq
    by_contra hlong
    have hlast : l[0] = l[l.length - 1] := by
      conv_lhs => rw [List.getElem_of_eq heq, List.getElem_reverse]
      simp
    have hzero := (h.getElem_inj_iff).mp hlast
    omega
  · intro hshort
    match l, hshort with
    | [], _ => rfl
    | [_], _ => rfl

/-! ### Headers of the data -/

theorem frame_rightOnly (hkind : e.kind = .rightOnly) {one two : Frame}
    (h : e.frame p one two = .ok f) : ∃ right : Frame, right.selectAs (rightOutputs p) = .ok f := by
  unfold frame at h
  simp only [bind_eq_ok, throw_ite_eq_ok, combined, hkind] at h
  obtain ⟨_, -, _, -, _, -, _, -, -, hf⟩ := h
  exact ⟨_, hf⟩

theorem missing_copies :
    ((p.rightKeys.zipIdx.filter fun k => k.1 ∉ p.right.map Renaming.input).reverse.map
      fun k => (rightCopy k.2, k.1)).map Prod.snd
      = (p.rightKeys.filter fun k => k ∉ p.rightInputs).reverse := by
  have hkeys : (p.rightKeys.zipIdx.filter fun k => k.1 ∉ p.right.map Renaming.input).map Prod.fst
      = p.rightKeys.filter fun k => k ∉ p.rightInputs := by
    conv_rhs => rw [← List.zipIdx_map_fst 0 p.rightKeys, List.filter_map]
    rfl
  rw [List.map_map, ← hkeys, ← List.map_reverse]
  rfl

/-- No key is folded twice: each of them is put in front of the data. -/
theorem nodup_folded (hkind : e.kind = .rightOnly) (hplan : e.plan one two = .ok p)
    (h : e.frame p one.frame two.frame = .ok f) : p.folded.Nodup := by
  obtain ⟨right, hright⟩ := frame_rightOnly hkind h
  simp only [Frame.selectAs, rightOutputs, List.mapM_append, bind_eq_ok, pure_eq_ok] at hright
  obtain ⟨_, ⟨keys, hkeys, others, -, rfl⟩, hdistinct⟩ := hright
  have hnd := (Frame.distinct_eq_ok.mp hdistinct).1
  rw [List.flatten_append, List.map_append] at hnd
  -- a copy of a key is one column, which is shown under the key
  have hheaders : keys.flatten.map Column.header = p.folded.reverse := by
    rw [← missing_eq_folded hplan, ← missing_copies]
    refine map_eq_of_forall₂ (flatten_of_forall₂ ((mem_of_forall₂ (mapM_eq_ok.mp hkeys)).imp
      fun n cs hn => ?_)) fun n d (hd : d.header = n.2) => hd
    obtain ⟨hmem, hcs⟩ := hn
    obtain ⟨k, -, rfl⟩ := List.mem_map.mp hmem
    obtain ⟨d, -, rfl⟩ := (Frame.namedAs_of_verbatim (not_isPattern_rightCopy k.2)).mp hcs
    exact ⟨_, rfl, rfl⟩
  rw [hheaders] at hnd
  exact List.nodup_reverse.mp hnd.of_append_left

/-- The headers of the rows without a partner on the right. -/
theorem headers_leftOnly (hplain : ∀ h ∈ p.names, isPattern h = false)
    (hkind : e.kind = .leftOnly) (h : e.frame p one.frame two.frame = .ok f) :
    f.headers = p.left.map Renaming.input := by
  obtain ⟨left, right, -, -, hleft, -, -, -, -, hf⟩ := frame_eq_ok hplain h
  obtain ⟨columns, hcolumns, rfl⟩ := combined_leftOnly two.frame hplain hleft hkind hf
  have hheaders : columns.map Column.header = _ := map_eq_of_forall₂ hcolumns fun _ _ h => h.1
  rw [Frame.headers, hheaders, Plan.outputs, List.map_map]
  rfl

/-- The headers of the rows without a partner on the left: the folded keys from the last to
  the first, and the other columns. -/
theorem headers_rightOnly (hplain : ∀ h ∈ p.names, isPattern h = false)
    (hkind : e.kind = .rightOnly) (hplan : e.plan one two = .ok p)
    (h : e.frame p one.frame two.frame = .ok f) :
    f.headers = p.folded.reverse ++ p.rightInputs := by
  obtain ⟨left, right, -, -, -, hright, -, -, -, hf⟩ := frame_eq_ok hplain h
  obtain ⟨columns, hcolumns, rfl⟩ := combined_rightOnly one.frame hplain hright hkind hf
  have hheaders : columns.map Column.header = _ := map_eq_of_forall₂ hcolumns fun _ _ h => h.1
  have houtputs : (p.outputs one.frame two.frame .rightOnly).map Prod.fst
      = (rightOutputs p).map Prod.snd := by
    rw [Plan.outputs, List.map_map]
    rfl
  rw [Frame.headers, hheaders, houtputs, rightOutputs, List.map_append, missing_copies,
    missing_eq_folded hplan, List.map_map]
  rfl

/-! ### Statement and data -/

/-- The last statement of a unique merge selects its columns. -/
theorem selected_onlyStatements {output this : String}
    (houtput : Naming.isVariableName output = true) (hthis : Naming.isVariableName this = true)
    (other : String) (cols keys otherKeys : List Header) :
    ∃ last, (onlyStatements output this other cols keys otherKeys).getLast? = some last
      ∧ Statement.assigned? last = some output ∧ Statement.selected? last = some cols := by
  have htail : Expression.Cuts false "][bool_index_array.values].reset_index(drop=True)"
      [.closingIndex, .openingIndex, .name "bool_index_array", .dot, .name "values",
        .closingIndex, .dot, .name "reset_index", .opening, .argumentName "drop",
        .constant "True", .closing] := .of_feed (by decide)
  refine ⟨output ++ " = " ++ this ++ "[" ++ Literal.list cols
    ++ "][bool_index_array.values].reset_index(drop=True)", rfl, ?_, ?_⟩
  · refine Statement.assigned?_sheet houtput ?_
    simp only [String.append_assoc]
    exact Statement.Starts.parts (by decide) _ _
  · refine Statement.selected?_columns (.of_isVariableName houtput) hthis htail cols ?_
    simp only [String.append_assoc]

/-- The columns that a unique merge selects in the script.  Where the rows of the left sheet
  are kept they are the columns of the data.  Where those of the right sheet are kept, the
  data has the folded keys in the opposite order, so that the two agree only if there is at
  most one.  What the data has is said for headers that are no patterns. -/
theorem unique_columns {s : State} {c : Change} (hs : s.Named)
    (hkind : e.kind = .leftOnly ∨ e.kind = .rightOnly) (h : e.run s = .ok c) :
    ∃ one two p sheet block last cols,
      s.sheet e.left = .ok one ∧ s.sheet e.right = .ok two ∧ e.plan one two = .ok p
        ∧ c.state.sheets = s.sheets ++ [sheet] ∧ c.code = [.block block]
        ∧ block.statements.getLast? = some last
        ∧ Statement.assigned? last = some sheet.name ∧ Statement.selected? last = some cols
        ∧ (e.kind = .leftOnly → cols = p.left.map Renaming.input)
        ∧ (e.kind = .rightOnly → cols = p.folded ++ p.rightInputs)
        ∧ ((∀ h ∈ p.names, isPattern h = false) →
          (e.kind = .rightOnly → sheet.headers = p.folded.reverse ++ p.rightInputs)
            ∧ cols.Perm sheet.headers
            ∧ (cols = sheet.headers ↔ e.kind = .leftOnly ∨ p.folded.length ≤ 1)) := by
  simp only [run, bind_eq_ok, pure_eq_ok] at h
  obtain ⟨one, hone, two, htwo, p, hplan, f, hf, rfl⟩ := h
  let output := (s.mint (s.uniqueName "df_merge") f).1
  have houtput : Naming.isVariableName output.name = true := State.Named.mint s "df_merge" f
  have hheaders : output.headers = f.headers := rfl
  rcases hkind with hkind | hkind
  · obtain ⟨last, hlast, hassigned, hselected⟩ := selected_onlyStatements houtput
      (hs.of_sheet hone) two.name (p.left.map Renaming.input) p.leftKeys p.rightKeys
    refine ⟨one, two, p, output, _, last, _, hone, htwo, hplan, rfl, rfl, ?_, hassigned,
      hselected, fun _ => rfl, ?_, fun hplain => ?_⟩
    · show (e.statements p one two output).getLast? = some last
      simp only [statements, hkind]
      exact hlast
    · simp [hkind]
    · have hsame := headers_leftOnly hplain hkind hf
      refine ⟨?_, .of_eq (hheaders.trans hsame).symm, ?_⟩
      · simp [hkind]
      · simp [hkind, hheaders, hsame]
  -- no folded key stands twice, so the two orders differ as soon as there are two keys
  · have hnd := nodup_folded hkind hplan hf
    have hscript := scriptColumns_eq hplan hnd
    obtain ⟨last, hlast, hassigned, hselected⟩ := selected_onlyStatements houtput
      (hs.of_sheet htwo) one.name (scriptColumns p) p.rightKeys p.leftKeys
    refine ⟨one, two, p, output, _, last, _, hone, htwo, hplan, rfl, rfl, ?_, hassigned,
      hselected, ?_, fun _ => hscript, fun hplain => ?_⟩
    · show (e.statements p one two output).getLast? = some last
      simp only [statements, hkind]
      exact hlast
    · simp [hkind]
    · have hdata := headers_rightOnly hplain hkind hplan hf
      refine ⟨fun _ => hheaders.trans hdata, ?_, ?_⟩
      · rw [hscript, hheaders, hdata]
        exact p.folded.reverse_perm.symm.append_right _
      · rw [hscript, hheaders, hdata, List.append_left_inj, eq_reverse_iff hnd]
        simp [hkind]

namespace Sample

/-- The prices without an order, where the keys of one pair share their header. -/
def unordered : Merge := { priced with kind := .rightOnly }

/-- The first of two sheets under the same keys. -/
def earlier : Sheet :=
  .ofFrame ⟨0⟩ "df1" ⟨[⟨"A", .int64, [.int 1, .int 2]⟩, ⟨"B", .int64, [.int 5, .int 6]⟩], 2⟩

/-- The second one, with a column more. -/
def later : Sheet :=
  .ofFrame ⟨1⟩ "df2" ⟨[⟨"A", .int64, [.int 1, .int 3]⟩, ⟨"B", .int64, [.int 5, .int 6]⟩,
    ⟨"C", .int64, [.int 7, .int 8]⟩], 2⟩

/-- The rows that only the second sheet has. -/
def added : Merge :=
  ⟨.rightOnly, 0, 1, [(⟨"A"⟩, ⟨"A"⟩), (⟨"B"⟩, ⟨"B"⟩)], [⟨"A"⟩, ⟨"B"⟩],
    [⟨"A"⟩, ⟨"B"⟩, ⟨"C"⟩]⟩

/-- The plan of that merge, in which both keys are folded. -/
def addedPlan : Plan := ⟨["A", "B"], ["A", "B"], [⟨"A", "A"⟩, ⟨"B", "B"⟩], [⟨"C", "C"⟩]⟩

/-- The rows that were added. -/
def addedFrame : Frame :=
  ⟨[⟨"B", .int64, [.int 6]⟩, ⟨"A", .int64, [.int 3]⟩, ⟨"C", .int64, [.int 8]⟩], 1⟩

/-- The state with both sheets. -/
def versions : State := { sheets := [earlier, later], nextId := 2 }

end Sample

/-- One folded key, which both the data and the statement put in front. -/
theorem unique_columns_unordered :
    Sample.shop.Named ∧ ∃ c sheet block last, Sample.unordered.run Sample.shop = .ok c
      ∧ c.state.sheets = Sample.shop.sheets ++ [sheet] ∧ c.code = [.block block]
      ∧ block.statements.getLast? = some last
      ∧ Statement.selected? last = some sheet.headers := by
  have hnamed : Sample.shop.Named := by
    unfold State.Named
    decide
  have hrun := eq_ok_of_toBool (x := Sample.unordered.run Sample.shop) (by decide) default
  obtain ⟨one, two, p, sheet, block, last, cols, hone, htwo, hplan, hsheets, hcode, hlast, -,
    hselected, -, -, hdata⟩ := unique_columns hnamed (.inr rfl) hrun
  obtain rfl : Sample.orders = one := Except.ok.inj hone
  obtain rfl : Sample.prices = two := Except.ok.inj htwo
  have hplan' : Sample.unordered.plan Sample.orders Sample.prices = .ok Sample.plan := by
    decide
  obtain rfl := Except.ok.inj (hplan'.symm.trans hplan)
  obtain rfl := (hdata (by decide)).2.2.mpr (.inr (by decide))
  exact ⟨hnamed, _, sheet, block, last, hrun, hsheets, hcode, hlast, hselected⟩

/-- With two folded keys the statement selects them in the order of the pairs, and the data
  has them the other way round. -/
theorem unique_columns_disagree :
    ∃ c sheet block last, Sample.versions.Named ∧ Sample.added.run Sample.versions = .ok c
      ∧ c.state.sheets = Sample.versions.sheets ++ [sheet] ∧ c.code = [.block block]
      ∧ block.statements.getLast? = some last
      ∧ Statement.selected? last = some ["A", "B", "C"] ∧ sheet.headers = ["B", "A", "C"] := by
  have hnamed : Sample.versions.Named := by
    unfold State.Named
    decide
  have hplan : Sample.added.plan Sample.earlier Sample.later = .ok Sample.addedPlan := by
    decide
  have hframe : Sample.added.frame Sample.addedPlan Sample.earlier.frame Sample.later.frame
      = .ok Sample.addedFrame := by decide
  let minted := Sample.versions.mint (Sample.versions.uniqueName "df_merge") Sample.addedFrame
  let block := Sample.added.block Sample.addedPlan Sample.earlier Sample.later minted.1
  have hrun : Sample.added.run Sample.versions
      = .ok ⟨minted.2.push minted.1, [.block block]⟩ := by
    simp only [run, bind_eq_ok, pure_eq_ok]
    exact ⟨_, rfl, _, rfl, _, hplan, _, hframe, rfl⟩
  exact ⟨_, minted.1, block, _, hnamed, hrun, rfl, rfl, rfl, by decide +kernel, rfl⟩

end Merge

end SheetScript
