import SheetScript.Proofs.Edit.Pivot
import SheetScript.Proofs.State.Sheets

/-! # Headers of pivot tables

  The header of a value column joins the header of the value, the aggregation and the texts
  of a combination.  A pivot table by texts is accepted exactly if these joined texts tell
  the aggregations and combinations apart.  They do where no key text has a blank; a blank
  inside one can make two combinations look alike.

  Main statement: `Pivot.accepted_iff`.
-/

namespace SheetScript.Pivot

variable {e : Pivot} {l : Layout} {f : Frame} {found : List (List Cell)}

/-! ### Joined texts -/

/-- As many texts without blanks are read back from behind, whatever stands in front. -/
theorem joined_inj {ts ts' : List String} (hlength : ts.length = ts'.length)
    (hts : ∀ t ∈ ts, ' ' ∉ t.toList) (hts' : ∀ t ∈ ts', ' ' ∉ t.toList) {front front' : List Char}
    (h : front ++ ' ' :: (" ".intercalate ts).toList
      = front' ++ ' ' :: (" ".intercalate ts').toList) : front = front' ∧ ts = ts' := by
  induction ts generalizing ts' front front' with
  | nil =>
    obtain rfl := List.length_eq_zero_iff.mp hlength.symm
    exact ⟨List.append_cancel_right h, rfl⟩
  | cons t rest ih =>
    obtain ⟨t', rest', rfl⟩ := List.exists_cons_of_length_eq_add_one hlength.symm
    obtain ⟨ht, hrest⟩ := List.forall_mem_cons.mp hts
    obtain ⟨ht', hrest'⟩ := List.forall_mem_cons.mp hts'
    cases rest with
    | nil =>
      obtain rfl : rest' = [] := by simpa using hlength
      rw [String.intercalate_singleton, String.intercalate_singleton] at h
      obtain ⟨hfront, heq⟩ := Naming.cut_last ht ht' h
      exact ⟨hfront, by rw [String.toList_inj.mp heq]⟩
    | cons u rest =>
      obtain ⟨u', rest', rfl⟩ : ∃ u' more, rest' = u' :: more :=
        List.exists_cons_of_length_eq_add_one (by simpa using hlength.symm)
      -- the first text moves to what stands in front of the others
      have hmoved : ∀ (front : List Char) (t u : String) (rest : List String),
          front ++ ' ' :: (" ".intercalate (t :: u :: rest)).toList
            = (front ++ ' ' :: t.toList) ++ ' ' :: (" ".intercalate (u :: rest)).toList := by
        intro front t u rest
        rw [String.intercalate_cons_cons]
        simp
      rw [hmoved, hmoved] at h
      obtain ⟨hfronts, htails⟩ := ih (by simpa using hlength) hrest hrest' h
      obtain ⟨hfront, heq⟩ := Naming.cut_last ht ht' hfronts
      exact ⟨hfront, by rw [htails, String.toList_inj.mp heq]⟩

theorem mem_joined {ts : List String} {c : Char} (h : c ∈ (" ".intercalate ts).toList) :
    c = ' ' ∨ ∃ t ∈ ts, c ∈ t.toList := by
  induction ts with
  | nil => cases h
  | cons t rest ih =>
    cases rest with
    | nil =>
      rw [String.intercalate_singleton] at h
      exact .inr ⟨t, List.mem_cons_self, h⟩
    | cons u rest =>
      rw [String.intercalate_cons_cons] at h
      simp only [String.toList_append, List.mem_append] at h
      rcases h with (h | h) | h
      · exact .inr ⟨t, List.mem_cons_self, h⟩
      · exact .inl (List.mem_singleton.mp h)
      · exact (ih h).imp id fun ⟨v, hv, hc⟩ => ⟨v, List.mem_cons_of_mem _ hv, hc⟩

/-! ### What the headers tell -/

/-- The headers of the value columns. -/
def valueHeaders (e : Pivot) (l : Layout) (f : Frame) (found : List (List Cell)) : List Header :=
  perValue l found (headerOf l f e)

/-- The headers of two value columns differ wherever the value, the aggregation or the
  combination does. -/
def TellsApart (e : Pivot) (l : Layout) (f : Frame) (found : List (List Cell)) : Prop :=
  ∀ v ∈ l.values, ∀ a ∈ v.2, ∀ k ∈ found, ∀ v' ∈ l.values, ∀ a' ∈ v'.2, ∀ k' ∈ found,
    headerOf l f e v.1 a k = headerOf l f e v'.1 a' k' → v.1 = v'.1 ∧ a = a' ∧ k = k'

theorem mem_perValue {α : Type} {make : Header → Aggregation → List Cell → α} {x : α} :
    x ∈ perValue l found make ↔ ∃ v ∈ l.values, ∃ a ∈ v.2, ∃ k ∈ found, make v.1 a k = x := by
  simp [perValue]

/-- There is one for each aggregation of a value over each combination. -/
theorem length_perValue {α : Type} (make : Header → Aggregation → List Cell → α) :
    (perValue l found make).length = (l.values.flatMap Prod.snd).length * found.length := by
  unfold perValue
  induction l.values with
  | nil => simp
  | cons v rest ih =>
    have hfirst : (v.2.flatMap fun a => found.map fun k => make v.1 a k).length
        = v.2.length * found.length := by simp [List.length_flatMap]
    rw [List.flatMap_cons, List.length_append, ih, hfirst, List.flatMap_cons, List.length_append,
      Nat.add_mul]

/-- No header stands twice exactly if the headers tell the value columns apart. -/
theorem nodup_valueHeaders_iff (hvalues : (l.values.map Prod.fst).Nodup)
    (haggregations : ∀ v ∈ l.values, v.2.Nodup) (hfound : found.Nodup) :
    (valueHeaders e l f found).Nodup ↔ TellsApart e l f found := by
  -- a header is made of a triple, and no triple stands twice
  let told := perValue l found fun h a k => (h, a, k)
  have hheaders : valueHeaders e l f found
      = told.map fun x => headerOf l f e x.1 x.2.1 x.2.2 :=
    (map_perValue (fun x : Header × Aggregation × List Cell => headerOf l f e x.1 x.2.1 x.2.2)
      found fun h a k => (h, a, k)).symm
  have hnd : told.Nodup := by
    refine List.nodup_flatMap.mpr ⟨fun v hv => List.nodup_flatMap.mpr ⟨fun a _ => ?_, ?_⟩, ?_⟩
    · exact hfound.map fun k k' heq => by simpa using heq
    · refine (haggregations v hv).imp fun hne => ?_
      intro x hx hx'
      simp only [List.mem_map] at hx hx'
      obtain ⟨k, -, rfl⟩ := hx
      obtain ⟨k', -, heq⟩ := hx'
      exact hne (congrArg (fun x => x.2.1) heq).symm
    · refine (List.pairwise_map.mp hvalues).imp fun hne => ?_
      intro x hx hx'
      simp only [List.mem_flatMap, List.mem_map] at hx hx'
      obtain ⟨a, -, k, -, rfl⟩ := hx
      obtain ⟨a', -, k', -, heq⟩ := hx'
      exact hne (congrArg Prod.fst heq).symm
  rw [hheaders, List.nodup_map_iff_inj_on hnd]
  constructor
  · intro hinj v hv a ha k hk v' hv' a' ha' k' hk' heq
    have hsame := hinj (v.1, a, k) (mem_perValue.mpr ⟨v, hv, a, ha, k, hk, rfl⟩) (v'.1, a', k')
      (mem_perValue.mpr ⟨v', hv', a', ha', k', hk', rfl⟩) heq
    simpa using hsame
  · intro htold x hx x' hx' heq
    obtain ⟨v, hv, a, ha, k, hk, rfl⟩ := mem_perValue.mp hx
    obtain ⟨v', hv', a', ha', k', hk', rfl⟩ := mem_perValue.mp hx'
    obtain ⟨hv, ha, hk⟩ := htold v hv a ha k hk v' hv' a' ha' k' hk' heq
    rw [hv, ha, hk]

/-! ### Key texts without separators -/

/-- A cell of a text column is a text unless it is missing. -/
theorem exists_text (hf : f.Proper) {h : Header} (hin : h ∈ f.headers)
    (htext : f.typeOf h = .text) {i : Nat} (hpresent : (f.cellAt h (some i)).isMissing = false) :
    ∃ t, f.cellAt h (some i) = .text t := by
  obtain ⟨c, hc⟩ := Frame.exists_column hin
  have hholds := hf.holds_cell (Frame.column_eq_ok hc).1 i
  rw [← Frame.typeOf_eq hc, htext] at hholds
  rw [Frame.cellAt_eq hc] at hpresent ⊢
  change (c.cell i).isMissing = false at hpresent
  show ∃ t, c.cell i = .text t
  cases hcell : c.cell i with
  | text t => exact ⟨t, rfl⟩
  | _ => simp_all [DType.holds, Cell.isMissing, DType.isInteger, DType.isTemporal]

theorem textOf_texts {ts : List String} (hlength : ts.length = l.columns.length) :
    textOf l f (ts.map Cell.text) = " ".intercalate ts := by
  have hparts : ∀ {hs : List Header} {ts : List String}, ts.length = hs.length →
      ((hs.zip (ts.map Cell.text)).map fun p => (p.2.text? (f.typeOf p.1)).getD "") = ts := by
    intro hs ts hlength
    rw [List.zip_map_right, List.map_map]
    have htext : ∀ p : Header × String, ((Cell.text p.2).text? (f.typeOf p.1)).getD "" = p.2 :=
      fun p => rfl
    calc ((hs.zip ts).map fun p => ((Cell.text p.2).text? (f.typeOf p.1)).getD "")
        = (hs.zip ts).map Prod.snd := List.map_congr_left fun p _ => htext p
      _ = ts := List.map_snd_zip hlength.le
  unfold textOf
  rw [hparts hlength]

/-- A combination of texts. -/
theorem exists_texts (hf : f.Proper) (hin : ∀ h ∈ l.columns, h ∈ f.headers)
    (htext : ∀ h ∈ l.columns, f.typeOf h = .text) (hfound : Combinations l f found)
    (hsome : l.columns ≠ []) {k : List Cell} (hk : k ∈ found) :
    ∃ ts : List String, k = ts.map Cell.text ∧ ts.length = l.columns.length
      ∧ textOf l f k = " ".intercalate ts := by
  obtain ⟨hcomplete, i, -, rfl⟩ := (hfound.mem_iff hsome k).mp hk
  have hcells : ∀ h ∈ l.columns, ∃ t, f.cellAt h (some i) = .text t := by
    intro h hh
    have hpresent := List.all_eq_true.mp hcomplete _ (List.mem_map_of_mem hh)
    exact exists_text hf (hin h hh) (htext h hh) (by simpa using hpresent)
  obtain ⟨ts, hts⟩ := exists_forall₂_iff.mpr hcells
  have hkey : f.key l.columns i = ts.map Cell.text :=
    (map_eq_of_forall₂ hts fun h t ht => ht.symm).symm
  have hlength : ts.length = l.columns.length := hts.length_eq.symm
  exact ⟨ts, hkey, hlength, by rw [hkey, textOf_texts hlength]⟩

/-- Aggregations are told apart by their names in headers. -/
theorem code_inj {a a' : Aggregation} (h : a.code = a'.code) : a = a' := by
  have hall : ∀ a : Aggregation, a ∈ Aggregation.all := by
    intro a
    cases a <;> decide
  have hnd : (Aggregation.all.map Aggregation.code).Nodup := by decide
  exact List.inj_on_of_nodup_map hnd (hall a) (hall a') h

theorem not_mem_code {c : Char} (a : Aggregation) (h : c = ' ' ∨ c = '_') :
    c ∉ a.code.toList := by
  rcases h with rfl | rfl <;> cases a <;> decide

/-- No text of a combination has a blank, nor an underscore where these join headers. -/
def HasNoSeparator (e : Pivot) (found : List (List Cell)) : Prop :=
  ∀ k ∈ found, ∀ t, Cell.text t ∈ k →
    ' ' ∉ t.toList ∧ (e.underscores = true → '_' ∉ t.toList)

/-- The character that joins the parts of a header. -/
def separator (e : Pivot) : Char := if e.underscores then '_' else ' '

theorem toList_headerOf (hsome : l.columns ≠ []) (h : Header) (a : Aggregation)
    (k : List Cell) : (headerOf l f e h a k).toList
      = (h.toList ++ e.separator :: a.code.toList) ++ e.separator :: (textOf l f k).toList := by
  have hfalse : l.columns.isEmpty = false := by simpa using hsome
  unfold headerOf header separator
  cases e.underscores <;>
    simp [hfalse, String.intercalate_cons_cons, String.intercalate_singleton]

/-- Texts without separators tell all headers apart, whatever stands in the headers of the
  values. -/
theorem tellsApart_of_hasNoSeparator (hf : f.Proper) (hin : ∀ h ∈ l.columns, h ∈ f.headers)
    (htext : ∀ h ∈ l.columns, f.typeOf h = .text) (hfound : Combinations l f found)
    (hsome : l.columns ≠ []) (hplain : e.HasNoSeparator found) : e.TellsApart l f found := by
  intro v _ a _ k hk v' _ a' _ k' hk' heq
  obtain ⟨ts, rfl, hlength, htextOf⟩ := exists_texts hf hin htext hfound hsome hk
  obtain ⟨ts', rfl, hlength', htextOf'⟩ := exists_texts hf hin htext hfound hsome hk'
  have hblank : ∀ {us : List String}, us.map Cell.text ∈ found → ∀ t ∈ us, ' ' ∉ t.toList :=
    fun hus t ht => (hplain _ hus t (List.mem_map_of_mem ht)).1
  have hlists := congrArg String.toList heq
  rw [toList_headerOf hsome, toList_headerOf hsome, htextOf, htextOf'] at hlists
  have hpeeled : v.1.toList ++ e.separator :: a.code.toList
      = v'.1.toList ++ e.separator :: a'.code.toList ∧ ts = ts' := by
    cases hunderscores : e.underscores with
    | false =>
      have hsep : e.separator = ' ' := by simp [separator, hunderscores]
      rw [hsep] at hlists ⊢
      exact joined_inj (hlength.trans hlength'.symm) (hblank hk) (hblank hk') hlists
    | true =>
      have hsep : e.separator = '_' := by simp [separator, hunderscores]
      have hnone : ∀ {us : List String}, us.map Cell.text ∈ found →
          '_' ∉ (" ".intercalate us).toList := by
        intro us hus hmem
        rcases mem_joined hmem with hc | ⟨t, ht, hc⟩
        · exact absurd hc (by decide)
        · exact (hplain _ hus t (List.mem_map_of_mem ht)).2 hunderscores hc
      rw [hsep] at hlists ⊢
      obtain ⟨hfront, htexts⟩ := Naming.cut_last (hnone hk) (hnone hk') hlists
      exact ⟨hfront, (joined_inj (hlength.trans hlength'.symm) (hblank hk) (hblank hk')
        (congrArg (fun cs => [] ++ ' ' :: cs) htexts)).2⟩
  have hsep : e.separator = ' ' ∨ e.separator = '_' := by
    unfold separator
    split <;> simp
  -- what is left in front is cut at the separator before the aggregation
  obtain ⟨hvalue, hcode⟩ := Naming.cut_last (not_mem_code a hsep) (not_mem_code a' hsep) hpeeled.1
  exact ⟨String.toList_inj.mp hvalue, code_inj (String.toList_inj.mp hcode), by rw [hpeeled.2]⟩

/-! ### Accepted pivot tables -/

/-- A pivot table by texts: its columns and its destination are there, at least two of them
  are column keys and all of these are of texts, and nothing is named twice. -/
structure WellPosed (e : Pivot) (s : State) (source : Sheet) : Prop where
  sheet : s.sheet e.sheet = .ok source
  known : ∀ id ∈ e.rows ++ e.columns ++ Dictionary.keys e.values,
    ∃ h, source.columns.header? id = some h
  rows : e.rows ≠ []
  columns : 2 ≤ e.columns.length
  texts : ∀ id ∈ e.columns, source.dtype id = .ok .text
  distinct : (e.rows ++ e.columns ++ Dictionary.keys e.values).Nodup
  aggregations : ∀ v ∈ e.values, v.2.Nodup
  values : ∃ v ∈ e.values, v.2 ≠ []
  destination : ∀ i, e.destination = some i → ∃ target, s.sheet i = .ok target

variable {s : State} {source : Sheet}

theorem WellPosed.exists_layout (h : e.WellPosed s source) : ∃ l, e.layout source = .ok l := by
  have hknown : ∀ ids ⊆ e.rows ++ e.columns ++ Dictionary.keys e.values,
      ∃ hs, List.Forall₂ (fun id k => source.columns.header? id = some k) ids hs :=
    fun ids hids => exists_forall₂_iff.mpr fun id hid => h.known id (hids hid)
  obtain ⟨rows, hrows⟩ := hknown e.rows fun id hid => by simp [hid]
  obtain ⟨columns, hcolumns⟩ := hknown e.columns fun id hid => by simp [hid]
  have hvalue : ∀ v ∈ e.values, ∃ w, e.valueOf source v = .ok w := by
    intro v hv
    have hid : v.1 ∈ Dictionary.keys e.values := List.mem_map_of_mem hv
    have hkeys := (List.nodup_append.mp h.distinct).2.2
    obtain ⟨k, hk⟩ := h.known v.1 (List.mem_append_right _ hid)
    have hnot : ¬ (v.1 ∈ e.rows || v.1 ∈ e.columns) := by
      intro hmem
      exact hkeys v.1 (by simpa using hmem) v.1 hid rfl
    unfold valueOf
    by_cases hempty : v.2.isEmpty = true
    · exact ⟨none, if_pos hempty⟩
    · simp only [if_neg hempty, throw_ite_eq_ok, bind_eq_ok, pure_eq_ok, Sheet.header_eq_ok]
      exact ⟨_, hnot, k, hk, rfl⟩
  obtain ⟨values, hvalues⟩ := exists_forall₂_iff.mpr hvalue
  have hsome : ¬ (e.values.all fun v => v.2.isEmpty) = true := by
    obtain ⟨v, hv, hne⟩ := h.values
    intro hall
    exact hne (List.isEmpty_iff.mp (List.all_eq_true.mp hall v hv))
  unfold layout
  simp only [throw_ite_eq_ok, bind_eq_ok, pure_eq_ok, mapM_eq_ok, Sheet.headersFor_eq_ok]
  exact ⟨_, by simpa using h.rows, hsome, rows, hrows, columns, hcolumns, values, hvalues, rfl⟩

namespace WellPosed

/-- No header of the layout stands twice, and all of them are there. -/
theorem headers_layout (h : e.WellPosed s source) (hsound : source.Sound)
    (hl : e.layout source = .ok l) :
    (l.rows ++ l.columns ++ l.values.map Prod.fst).Nodup
      ∧ ∀ k ∈ l.rows ++ l.columns ++ l.values.map Prod.fst, k ∈ source.frame.headers := by
  obtain ⟨hrows, hcolumns, hvalues, -⟩ := layout_eq_ok hl
  have hvalueIds : List.Forall₂ (fun id k => source.columns.header? id = some k)
      ((e.values.filter fun v => !v.2.isEmpty).map Prod.fst) (l.values.map Prod.fst) := by
    rw [List.forall₂_map_left_iff, List.forall₂_map_right_iff]
    exact hvalues.imp fun v w hw => hw.1
  obtain ⟨hids, hin⟩ :=
    hsound.columns.headersFor (List.rel_append (List.rel_append hrows hcolumns) hvalueIds)
  refine ⟨List.Nodup.of_map source.columns.columnOf ?_, hin⟩
  rw [hids]
  exact h.distinct.sublist (List.Sublist.append_left (List.filter_sublist.map Prod.fst) _)

theorem typeOf_columns (h : e.WellPosed s source) (hl : e.layout source = .ok l) :
    ∀ k ∈ l.columns, source.frame.typeOf k = .text := by
  intro k hk
  obtain ⟨id, hid, hheader⟩ := exists_of_mem_right (layout_eq_ok hl).2.1 hk
  have htext := h.texts id hid
  simp only [Sheet.dtype, Sheet.column, bind_eq_ok, pure_eq_ok, Sheet.header_eq_ok] at htext
  obtain ⟨c, ⟨k', hk', hc⟩, htype⟩ := htext
  obtain rfl := Option.some.inj (hheader.symm.trans hk')
  rw [Frame.typeOf_eq hc, htype]

theorem columns_layout (h : e.WellPosed s source) (hl : e.layout source = .ok l) :
    l.columns ≠ [] := by
  have hlength := (layout_eq_ok hl).2.1.length_eq
  have htwo := h.columns
  intro hnone
  rw [hnone, List.length_nil] at hlength
  omega

theorem aggregations_layout (h : e.WellPosed s source) (hl : e.layout source = .ok l) :
    ∀ v ∈ l.values, v.2.Nodup := by
  intro w hw
  obtain ⟨v, hv, -, hsame⟩ := exists_of_mem_right (layout_eq_ok hl).2.2.1 hw
  exact hsame ▸ h.aggregations v (List.mem_filter.mp hv).1

end WellPosed

/-- A layout has the aggregations of its pivot table: values without any are left out. -/
theorem aggregations_eq (hl : e.layout source = .ok l) :
    l.values.flatMap Prod.snd = e.values.flatMap Prod.snd := by
  have hkept : l.values.map Prod.snd = (e.values.filter fun v => !v.2.isEmpty).map Prod.snd :=
    map_eq_of_forall₂ (layout_eq_ok hl).2.2.1 fun v w hw => hw.2
  rw [List.flatMap_def, hkept, ← List.flatMap_def]
  induction e.values with
  | nil => rfl
  | cons v rest ih =>
    by_cases hempty : v.2 = []
    · simp [hempty, ih]
    · simp [hempty, ih]

/-- An accepted edit is one whose table is accepted, as long as its sheets are there. -/
theorem exists_run_iff (h : e.WellPosed s source) (hl : e.layout source = .ok l)
    (hplain : ∀ k ∈ l.rows ++ l.columns ++ l.values.map Prod.fst, isPattern k = false) :
    (∃ c, e.run s = .ok c) ↔ ∃ out, e.frame l source.frame = .ok out := by
  constructor
  · rintro ⟨c, hrun⟩
    obtain ⟨l', sheet, hl', hframe, -⟩ := run_eq_ok hrun h.sheet
    obtain rfl := Except.ok.inj (hl.symm.trans hl')
    exact ⟨_, hframe⟩
  · rintro ⟨out, hframe⟩
    unfold run
    cases hdestination : e.destination with
    | none =>
      simp only [bind_eq_ok]
      exact ⟨_, source, h.sheet, l, hl, out, hframe, rfl⟩
    | some i =>
      obtain ⟨target, htarget⟩ := h.destination i hdestination
      simp only [bind_eq_ok, pure_eq_ok]
      exact ⟨_, source, h.sheet, l, hl, out, hframe, target, htarget, _,
        headers_eq_ok hplain hframe, rfl⟩

/-- A pivot table by texts whose headers are no patterns, and those of its rows no headers of
  values, is accepted exactly if the headers tell its aggregations and combinations apart, and it
  then has a column for each of both.  They do wherever no text of a combination has a
  separator. -/
theorem accepted_iff (h : e.WellPosed s source) (hsound : source.Sound)
    (hproper : source.frame.Proper) :
    ∃ l found, e.layout source = .ok l ∧ Combinations l source.frame found
      ∧ (e.valueHeaders l source.frame found).length
        = (e.values.flatMap Prod.snd).length * found.length
      ∧ ((∀ k ∈ l.rows ++ l.columns ++ l.values.map Prod.fst, isPattern k = false) →
        (∀ k ∈ l.rows, k ∉ e.valueHeaders l source.frame found) →
        ((∃ c, e.run s = .ok c) ↔ e.TellsApart l source.frame found)
          ∧ ∀ c, e.run s = .ok c → ∃ sheet, e.Leaves s c sheet
            ∧ sheet.headers = l.rows ++ e.valueHeaders l source.frame found)
      ∧ (e.HasNoSeparator found → e.TellsApart l source.frame found) := by
  obtain ⟨l, hl⟩ := h.exists_layout
  obtain ⟨hnd, hin⟩ := h.headers_layout hsound hl
  obtain ⟨hkeys, hvalues, -⟩ := List.nodup_append.mp hnd
  obtain ⟨hrows, hcolumns, -⟩ := List.nodup_append.mp hkeys
  have htext := h.typeOf_columns hl
  have hfloat : ∀ k ∈ l.columns, (source.frame.typeOf k).isFloat = false := by
    intro k hk
    rw [htext k hk]
    rfl
  have hduration : ∀ k ∈ l.columns, source.frame.typeOf k ≠ .duration := by
    intro k hk
    rw [htext k hk]
    decide
  have hcolumnsIn : ∀ k ∈ l.columns, k ∈ source.frame.headers :=
    fun k hk => hin k (List.mem_append_left _ (List.mem_append_right _ hk))
  obtain ⟨columns, hcs⟩ := exists_forall₂_iff.mpr fun k hk => Frame.exists_column (hcolumnsIn k hk)
  obtain ⟨found, hfound, -⟩ := exists_combinations hproper hcs
    (typesOf_columns (p := fun t => t.isFloat = false) hcs hfloat)
  have hheaders : (e.valueHeaders l source.frame found).Nodup ↔ e.TellsApart l source.frame found :=
    nodup_valueHeaders_iff hvalues (h.aggregations_layout hl)
      (Cell.nodup_of_ascending hfound.ascending)
  refine ⟨l, found, hl, hfound, ?_, fun hplain hfresh => ⟨?_, ?_⟩, ?_⟩
  · rw [valueHeaders, length_perValue, aggregations_eq hl]
  · rw [exists_run_iff h hl hplain, ← hheaders]
    constructor
    · rintro ⟨out, hframe⟩
      have hall := headers_frame hframe
      rw [headers_eq hproper hplain hfloat hfound hframe] at hall
      exact (List.nodup_append.mp hall).2.1
    · intro hvalueHeaders
      -- the headers of the rows are fresh, so only those of the values could stand twice
      have hsome : l.rows ≠ [] := by
        intro hnone
        have hlength := (layout_eq_ok hl).1.length_eq
        rw [hnone, List.length_nil] at hlength
        exact h.rows (List.length_eq_zero_iff.mp hlength)
      refine exists_frame hproper hsome hcolumns hplain hin hfloat hduration hfound ?_
      refine List.nodup_append.mpr ⟨hrows, hvalueHeaders, ?_⟩
      rintro k hk _ hk' rfl
      exact hfresh k hk hk'
  · intro c hrun
    obtain ⟨l', sheet, hl', hframe, hleaves⟩ := run_eq_ok hrun h.sheet
    obtain rfl := Except.ok.inj (hl.symm.trans hl')
    exact ⟨sheet, hleaves, headers_eq hproper hplain hfloat hfound hframe⟩
  · exact tellsApart_of_hasNoSeparator hproper hcolumnsIn htext hfound (h.columns_layout hl)

namespace Sample

/-- Two drinks of a shop. -/
def offers : Sheet :=
  .ofFrame ⟨0⟩ "df1"
    ⟨[⟨"shop", .text, [.text "x", .text "x"]⟩,
      ⟨"kind", .text, [.text "dark red", .text "dark"]⟩,
      ⟨"drink", .text, [.text "wine", .text "red wine"]⟩,
      ⟨"maker", .text, [.text "a", .text "b"]⟩,
      ⟨"price", .int64, [.int 1, .int 2]⟩], 2⟩

/-- A state with the drinks. -/
def shelf : State := { sheets := [offers], nextId := 1 }

/-- Prices by shop, with a column for each kind together with something else. -/
def prices (h : Header) : Pivot :=
  { sheet := 0, rows := [⟨"shop"⟩], columns := [⟨"kind"⟩, ⟨h⟩], values := [(⟨"price"⟩, [.sum])] }

/-- The layout of the prices. -/
def pricesLayout (h : Header) : Layout := ⟨["shop"], ["kind", h], [("price", [.sum])]⟩

theorem offers_sound : offers.Sound := .ofFrame _ _ (by decide)

theorem offers_proper : offers.frame.Proper := ⟨by decide, by decide⟩

theorem prices_wellPosed {h : Header} (hh : h ∈ ["drink", "maker"]) :
    (prices h).WellPosed shelf offers := by
  have hknown : ∀ h ∈ ["drink", "maker"],
      ∀ id ∈ (prices h).rows ++ (prices h).columns ++ Dictionary.keys (prices h).values,
        (offers.columns.header? id).isSome = true := by decide
  have htexts : ∀ h ∈ ["drink", "maker"], ∀ id ∈ (prices h).columns,
      offers.dtype id = .ok .text := by decide
  have hdistinct : ∀ h ∈ ["drink", "maker"],
      ((prices h).rows ++ (prices h).columns ++ Dictionary.keys (prices h).values).Nodup := by
    decide
  exact {
    sheet := rfl
    known := fun id hid => Option.isSome_iff_exists.mp (hknown h hh id hid)
    rows := List.cons_ne_nil _ _
    columns := le_rfl
    texts := htexts h hh
    distinct := hdistinct h hh
    aggregations := fun v hv => List.mem_singleton.mp hv ▸ List.nodup_singleton _
    values := ⟨_, List.mem_cons_self, List.cons_ne_nil _ _⟩
    destination := fun i hi => by cases hi }

theorem layout_prices : ∀ h ∈ ["drink", "maker"],
    (prices h).layout offers = .ok (pricesLayout h) := by decide

/-- Two rows with other keys are two combinations. -/
theorem combinations_prices {h : Header} (hh : h ∈ ["drink", "maker"]) :
    Combinations (pricesLayout h) offers.frame
      [offers.frame.key ["kind", h] 1, offers.frame.key ["kind", h] 0] := by
  have hascending : ∀ h ∈ ["drink", "maker"],
      [offers.frame.key ["kind", h] 1, offers.frame.key ["kind", h] 0].Pairwise
        fun a b => Cell.ranks a < Cell.ranks b := by decide
  have hcomplete : ∀ h ∈ ["drink", "maker"], ∀ i < 2,
      isComplete (offers.frame.key ["kind", h] i) = true := by decide
  refine ⟨hascending h hh, fun _ k => ?_, fun hnone => absurd hnone (List.cons_ne_nil _ _)⟩
  constructor
  · intro hk
    rcases List.mem_cons.mp hk with rfl | hk
    · exact ⟨hcomplete h hh 1 (by decide), 1, by decide, rfl⟩
    · obtain rfl := List.mem_singleton.mp hk
      exact ⟨hcomplete h hh 0 (by decide), 0, by decide, rfl⟩
  · rintro ⟨-, i, hi, rfl⟩
    obtain rfl | rfl : i = 0 ∨ i = 1 := by
      change i < 2 at hi
      omega
    · exact List.mem_cons_of_mem _ List.mem_cons_self
    · exact List.mem_cons_self

end Sample

/-- A blank in a text does no harm by itself. -/
theorem accepted_iff_makers :
    (Sample.prices "maker").WellPosed Sample.shelf Sample.offers ∧ Sample.offers.Sound
      ∧ Sample.offers.frame.Proper
      ∧ ∃ c sheet, (Sample.prices "maker").run Sample.shelf = .ok c
        ∧ (Sample.prices "maker").Leaves Sample.shelf c sheet
        ∧ sheet.headers = ["shop", "price sum dark b", "price sum dark red a"] := by
  have hposed := Sample.prices_wellPosed (h := "maker") (by decide)
  obtain ⟨l, found, hl, hfound, -, hiff, -⟩ :=
    accepted_iff hposed Sample.offers_sound Sample.offers_proper
  obtain rfl := Except.ok.inj ((Sample.layout_prices "maker" (by decide)).symm.trans hl)
  obtain rfl := (Sample.combinations_prices (h := "maker") (by decide)).unique hfound
  obtain ⟨haccepted, hleaves⟩ := hiff (by decide) (by decide)
  obtain ⟨c, hrun⟩ := haccepted.mpr (by unfold TellsApart; decide)
  obtain ⟨sheet, hsheet, hheaders⟩ := hleaves c hrun
  refine ⟨hposed, Sample.offers_sound, Sample.offers_proper, c, sheet, hrun, hsheet, ?_⟩
  rw [hheaders]
  decide

/-- A dark red wine and a dark drink called red wine have one header: the table is refused,
  though its keys and values differ and the header of its rows is no header of values. -/
theorem texts_collide :
    (Sample.prices "drink").WellPosed Sample.shelf Sample.offers ∧ Sample.offers.Sound
      ∧ Sample.offers.frame.Proper
      ∧ ∃ l found, (Sample.prices "drink").layout Sample.offers = .ok l
        ∧ Combinations l Sample.offers.frame found ∧ found.length = 2
        ∧ (∀ k ∈ l.rows, k ∉ (Sample.prices "drink").valueHeaders l Sample.offers.frame found)
        ∧ ∀ c, (Sample.prices "drink").run Sample.shelf ≠ .ok c := by
  have hposed := Sample.prices_wellPosed (h := "drink") (by decide)
  have hl := Sample.layout_prices "drink" (by decide)
  have hfound := Sample.combinations_prices (h := "drink") (by decide)
  refine ⟨hposed, Sample.offers_sound, Sample.offers_proper, _, _, hl, hfound, rfl,
    by decide, fun c hrun => ?_⟩
  obtain ⟨l, sheet, hl', hframe, -⟩ := run_eq_ok hrun hposed.sheet
  obtain rfl := Except.ok.inj (hl.symm.trans hl')
  have hnd := headers_frame hframe
  rw [headers_eq Sample.offers_proper (by decide) (by decide) hfound hframe] at hnd
  exact absurd hnd (by decide)

end SheetScript.Pivot
