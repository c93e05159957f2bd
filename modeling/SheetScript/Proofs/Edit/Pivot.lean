import SheetScript.Proofs.Edit.Merge
import SheetScript.Proofs.Table.Groups

/-! # Pivot tables

  A row counts if none of its keys is missing.  A pivot table has a row for each row key
  that counts, and for each aggregation of a value column a column for each combination of
  the column keys.  Each cell aggregates the rows that count with that row key and that
  combination.

  Combinations are told apart by their texts.  Two of them with one text would head two
  columns alike, and such a table is refused, so that in an accepted one the texts are as
  good as the combinations.

  Main statement: `Pivot.tabulates`.
-/

namespace SheetScript

/-- The cells of a row under some headers. -/
def Frame.key (f : Frame) (hs : List Header) (row : Nat) : List Cell :=
  hs.map fun h => f.cellAt h (some row)

/-- The type of the column under a header. -/
def Frame.typeOf (f : Frame) (h : Header) : DType := ((f.column? h).map Column.dtype).getD .null

theorem Frame.typeOf_eq {f : Frame} {h : Header} {c : Column} (hc : f.column h = .ok c) :
    f.typeOf h = c.dtype := by
  unfold Frame.typeOf
  rw [Frame.column_eq_ok_iff.mp hc]
  rfl

namespace Pivot

/-! ### What a pivot table shows -/

section

variable (l : Layout) (f : Frame)

/-- The rows that count: none of their keys is missing. -/
def counted : List Nat :=
  (List.range f.height).filter fun i =>
    isComplete (f.key l.rows i) && isComplete (f.key l.columns i)

/-- The rows that count with a row key and a combination of column keys. -/
def rowsOf (key combination : List Cell) : List Nat :=
  (counted l f).filter fun i => f.key l.rows i = key && f.key l.columns i = combination

/-- The aggregation of a value column over some rows; missing where there are none. -/
def aggregate (h : Header) (a : Aggregation) (rows : List Nat) : Cell :=
  if rows.isEmpty then .missing else a.of (f.typeOf h) (rows.map fun i => f.cellAt h (some i))

/-- The text of a combination. -/
def textOf (combination : List Cell) : String :=
  " ".intercalate ((l.columns.zip combination).map fun p => (p.2.text? (f.typeOf p.1)).getD "")

/-- The header of an aggregation over a combination; without column keys it has no text of
  one. -/
def headerOf (e : Pivot) (h : Header) (a : Aggregation) (combination : List Cell) : Header :=
  e.header ([h, a.code] ++ if l.columns.isEmpty then [] else [textOf l f combination])

end

/-- What is made of every aggregation of every value column, over every combination. -/
def perValue {α : Type} (l : Layout) (combinations : List (List Cell))
    (g : Header → Aggregation → List Cell → α) : List α :=
  l.values.flatMap fun v => v.2.flatMap fun a => combinations.map fun k => g v.1 a k

/-- The row keys that count, in ascending order. -/
structure RowKeys (l : Layout) (f : Frame) (keys : List (List Cell)) : Prop where
  ascending : keys.Pairwise fun a b => Cell.ranks a < Cell.ranks b
  mem_iff : ∀ k, k ∈ keys ↔ ∃ i ∈ counted l f, f.key l.rows i = k

/-- The combinations of column keys that occur without a missing cell, in ascending order;
  without column keys there is the empty one. -/
structure Combinations (l : Layout) (f : Frame) (found : List (List Cell)) : Prop where
  ascending : found.Pairwise fun a b => Cell.ranks a < Cell.ranks b
  mem_iff : l.columns ≠ [] → ∀ k, k ∈ found
    ↔ isComplete k = true ∧ ∃ i < f.height, f.key l.columns i = k
  no_columns : l.columns = [] → found = [[]]

theorem RowKeys.unique {l : Layout} {f : Frame} {keys keys' : List (List Cell)}
    (h : RowKeys l f keys) (h' : RowKeys l f keys') : keys = keys' :=
  Cell.eq_of_ascending h.ascending h'.ascending fun k => (h.mem_iff k).trans (h'.mem_iff k).symm

theorem Combinations.unique {l : Layout} {f : Frame} {found found' : List (List Cell)}
    (h : Combinations l f found) (h' : Combinations l f found') : found = found' := by
  by_cases hnone : l.columns = []
  · rw [h.no_columns hnone, h'.no_columns hnone]
  · exact Cell.eq_of_ascending h.ascending h'.ascending fun k =>
      (h.mem_iff hnone k).trans (h'.mem_iff hnone k).symm

/-- A pivot table of a frame, with the keys of its rows and the combinations of its
  columns. -/
structure Tabulates (e : Pivot) (l : Layout) (f out : Frame)
    (keys combinations : List (List Cell)) : Prop where
  rowKeys : RowKeys l f keys
  columnKeys : Combinations l f combinations
  height : out.height = keys.length
  lengths : ∀ c ∈ out.columns, c.cells.length = out.height
  schema : out.schema = (l.rows.map fun h => (h, f.typeOf h))
    ++ perValue l combinations fun h a k => (headerOf l f e h a k, a.resultType (f.typeOf h))
  rows : out.rows = keys.map fun key => key
    ++ perValue l combinations fun h a k => aggregate f h a (rowsOf l f key k)

variable {e : Pivot} {l : Layout} {f out : Frame}

/-! ### Texts of combinations -/

/-- Every cell has a text unless it is missing. -/
theorem text?_eq (t : DType) (c : Cell) :
    c.text? t = if c.isMissing then none else some ((c.text? t).getD "") := by
  cases c with
  | int n => cases t <;> rfl
  | missing | bool b | float x | text s => rfl

/-- A combination has its text unless a cell is missing. -/
theorem keyText_eq {columns : List Column}
    (hcs : List.Forall₂ (fun k c => f.column k = .ok c) l.columns columns) {key : List Cell}
    (hlength : key.length = l.columns.length) :
    keyText columns key = if isComplete key then some (textOf l f key) else none := by
  have hparts : ∀ {hs : List Header} {columns : List Column},
      List.Forall₂ (fun k c => f.column k = .ok c) hs columns →
      ∀ key : List Cell, key.length = hs.length →
      ((columns.zip key).mapM fun p => p.2.text? p.1.dtype)
        = if isComplete key then
            some ((hs.zip key).map fun p => (p.2.text? (f.typeOf p.1)).getD "") else none := by
    intro hs columns hcs
    induction hcs with
    | nil =>
      intro key hkey
      obtain rfl := List.length_eq_zero_iff.mp hkey
      rfl
    | @cons k c hs columns hc _ ih =>
      intro key hkey
      cases key with
      | nil => cases hkey
      | cons a key =>
        have hrest := ih key (by simpa using hkey)
        rw [List.zip_cons_cons, List.zip_cons_cons, List.mapM_cons, hrest, text?_eq, List.map_cons]
        dsimp only
        rw [Frame.typeOf_eq hc]
        unfold isComplete
        rw [List.all_cons]
        cases a.isMissing <;> cases key.all fun c => !c.isMissing <;> rfl
  unfold keyText textOf
  rw [hparts hcs key hlength]
  split <;> rfl

/-! ### Groups and combinations -/

section Keys

variable {rows columns : List Column} (hf : f.Proper)
  (hrs : List.Forall₂ (fun k c => f.column k = .ok c) l.rows rows)
  (hcs : List.Forall₂ (fun k c => f.column k = .ok c) l.columns columns)

theorem float_not_mem_kinds {cs : List Column} (h : ∀ c ∈ cs, c.dtype.isFloat = false) :
    CellKind.float ∉ cs.map fun c => c.dtype.kind := by
  intro hmem
  obtain ⟨c, hc, hkind⟩ := List.mem_map.mp hmem
  have hfloat := h c hc
  cases ht : c.dtype <;> rw [ht] at hkind hfloat <;>
    simp [DType.kind, DType.isFloat] at hkind hfloat

include hf in
/-- The keys of rows have the kinds of their columns. -/
theorem keyed_rows {hs : List Header} {cs : List Column}
    (hcs : List.Forall₂ (fun k c => f.column k = .ok c) hs cs) (is : List Nat) :
    ∀ r ∈ is.map fun i => (f.key hs i, i), Join.Keyed (cs.map fun c => c.dtype.kind) r.1 := by
  intro r hr
  obtain ⟨i, -, rfl⟩ := List.mem_map.mp hr
  exact Merge.keyed_of_columns hf hcs i

include hf hrs hcs in
/-- The groups of a pivot table: one for each row key that counts. -/
theorem exists_groups (hfloat : ∀ c ∈ rows, c.dtype.isFloat = false) :
    ∃ keys, RowKeys l f keys ∧ groupsOf rows columns f.height
      = keys.map fun k => ⟨k, (counted l f).filter fun i => f.key l.rows i = k⟩ := by
  have hcounted : (((Frame.keyRows rows f.height).zip
        (Frame.keyRows columns f.height)).zipIdx.filterMap fun r =>
          if isComplete r.1.1 && isComplete r.1.2 then some (r.1.1, r.2) else none)
      = (counted l f).map fun i => (f.key l.rows i, i) := by
    rw [Merge.keyRows_of_columns hrs, Merge.keyRows_of_columns hcs, List.zip_map',
      Join.zipIdx_map_range, List.filterMap_map]
    exact Join.filterMap_ite (List.range f.height)
      (fun i => isComplete (f.key l.rows i) && isComplete (f.key l.columns i)) _
  obtain ⟨keys, hascending, hmem, hsorted⟩ :=
    Group.sorted_eq (float_not_mem_kinds hfloat) (keyed_rows hf hrs (counted l f))
  refine ⟨keys, ⟨hascending, fun k => ?_⟩, ?_⟩
  · rw [hmem k, List.map_map]
    exact List.mem_map
  · unfold groupsOf
    rw [hcounted, hsorted]
    refine List.map_congr_left fun k _ => ?_
    unfold Group.ofKey
    rw [List.filter_map, List.map_map]
    exact congrArg (Group.mk k) (List.map_id _)

/-- The table is split by the texts of the combinations, with a text for each row. -/
def Splits (l : Layout) (f : Frame) (columns : List Column) (found : List (List Cell)) : Prop :=
  splitOf columns f.height
    = if l.columns.isEmpty then none else some (found.map (textOf l f),
        ((List.range f.height).map fun i => keyText columns (f.key l.columns i)).toArray)

include hf hcs in
/-- The combinations of a pivot table, by their texts. -/
theorem exists_combinations (hfloat : ∀ c ∈ columns, c.dtype.isFloat = false) :
    ∃ found, Combinations l f found ∧ Splits l f columns found := by
  have hsame : columns.isEmpty = l.columns.isEmpty := by
    rw [Bool.eq_iff_iff, List.isEmpty_iff_length_eq_zero, List.isEmpty_iff_length_eq_zero,
      hcs.length_eq]
  unfold Splits splitOf
  rw [hsame]
  by_cases hsome : l.columns = []
  · refine ⟨[[]], ⟨List.pairwise_singleton _ _, fun h => absurd hsome h, fun _ => rfl⟩, ?_⟩
    rw [hsome]
    rfl
  have hempty : l.columns.isEmpty = false := List.isEmpty_eq_false_iff.mpr hsome
  have hrows : Frame.keyRows columns f.height = (List.range f.height).map (f.key l.columns) :=
    Merge.keyRows_of_columns hcs _
  obtain ⟨keys, hascending, hmem, hsorted⟩ :=
    Group.sorted_eq (float_not_mem_kinds hfloat) (keyed_rows hf hcs (List.range f.height))
  have hmem : ∀ k, k ∈ keys ↔ ∃ i < f.height, f.key l.columns i = k := by
    intro k
    rw [hmem k, List.map_map, List.mem_map]
    simp
  refine ⟨keys.filter isComplete, ⟨hascending.filter _, fun _ k => ?_, fun h => absurd h hsome⟩,
    ?_⟩
  · rw [List.mem_filter, hmem, and_comm]
  · have htexts : combinations columns [] f.height
        = (keys.filter isComplete).map (textOf l f) := by
      unfold combinations
      rw [List.append_nil, hrows, Join.zipIdx_map_range, hsorted,
        List.filterMap_map, ← Join.filterMap_ite]
      refine List.filterMap_congr fun k hk => ?_
      obtain ⟨i, -, rfl⟩ := (hmem k).mp hk
      exact keyText_eq hcs (List.length_map _)
    rw [hempty, if_neg Bool.false_ne_true, if_neg Bool.false_ne_true, htexts, hrows, List.map_map]
    rfl

end Keys

/-! ### Columns of the table -/

/-- A value column of a pivot table. -/
def valueColumn (e : Pivot) (l : Layout) (f : Frame) (keys : List (List Cell)) (h : Header)
    (a : Aggregation) (k : List Cell) : Column :=
  ⟨headerOf l f e h a k, a.resultType (f.typeOf h),
    keys.map fun key => aggregate f h a (rowsOf l f key k)⟩

section Columns

variable {columns : List Column} {keys found : List (List Cell)} {h : Header} {c : Column}
  (hcs : List.Forall₂ (fun k c => f.column k = .ok c) l.columns columns)
  (hc : f.column h = .ok c) (hfound : Combinations l f found) (hsplit : Splits l f columns found)

include hc hfound hsplit in
/-- The headers of an aggregation, whatever the texts of the combinations. -/
theorem headers_aggregated (a : Aggregation) (groups : List Group) :
    (e.aggregated c a groups (splitOf columns f.height)).map Column.header
      = found.map (headerOf l f e h a) := by
  have hheader : c.header = h := (Frame.column_eq_ok hc).2
  rw [hsplit]
  by_cases hnone : l.columns = []
  · rw [hfound.no_columns hnone, hnone]
    simp [aggregated, headerOf, hnone, hheader]
  · have hempty : l.columns.isEmpty = false := List.isEmpty_eq_false_iff.mpr hnone
    simp [aggregated, headerOf, hempty, hheader, Function.comp_def]

theorem cells_eq (hc : f.column h = .ok c) (a : Aggregation) (lists : List (List Nat))
    (needsRow : Bool) (hrows : needsRow = false → ∀ rows ∈ lists, rows ≠ []) :
    cells c a lists needsRow = lists.map (aggregate f h a) := by
  unfold cells
  refine List.map_congr_left fun rows hmem => ?_
  have hvalues : (rows.map fun i => c.cells.toArray[i]?.getD .missing)
      = rows.map fun i => f.cellAt h (some i) := by
    refine List.map_congr_left fun i _ => ?_
    rw [Frame.cellAt_eq hc]
    simp [Column.cell]
  unfold aggregate
  rw [hvalues, Frame.typeOf_eq hc]
  cases needsRow with
  | true => rfl
  | false =>
    have hsome : rows.isEmpty = false := List.isEmpty_eq_false_iff.mpr (hrows rfl rows hmem)
    rw [hsome]
    rfl

/-- Without column keys all rows that count have the one combination there is. -/
theorem rowsOf_nil (hnone : l.columns = []) (key : List Cell) :
    rowsOf l f key [] = (counted l f).filter fun i => f.key l.rows i = key := by
  unfold rowsOf
  rw [hnone]
  simp [Frame.key]

theorem RowKeys.exists_row (hkeys : RowKeys l f keys) {k : List Cell} (hk : k ∈ keys) :
    ((counted l f).filter fun i => f.key l.rows i = k) ≠ [] := by
  obtain ⟨i, hi, hkey⟩ := (hkeys.mem_iff k).mp hk
  exact List.ne_nil_of_mem (List.mem_filter.mpr ⟨hi, decide_eq_true hkey⟩)

include hcs hfound in
/-- Among the rows that count, the text of a combination is as good as the combination,
  where no other one has it. -/
theorem filter_text (hsome : l.columns ≠ [])
    (hinj : ∀ k ∈ found, ∀ k' ∈ found, textOf l f k = textOf l f k' → k = k')
    {k : List Cell} (hk : k ∈ found) (key : List Cell) :
    (((counted l f).filter fun i => f.key l.rows i = key).filter fun i =>
        ((List.range f.height).map fun i => keyText columns (f.key l.columns i)).toArray[i]?
          == some (some (textOf l f k)))
      = rowsOf l f key k := by
  unfold rowsOf
  rw [List.filter_filter]
  refine List.filter_congr fun i hi => ?_
  obtain ⟨hlt, hcomplete⟩ := List.mem_filter.mp hi
  have hlt : i < f.height := List.mem_range.mp hlt
  have hcomplete : isComplete (f.key l.columns i) = true := (Bool.and_eq_true_iff.mp hcomplete).2
  -- a row that counts has one of the combinations, so that its text is told apart too
  have hin : f.key l.columns i ∈ found :=
    (hfound.mem_iff hsome _).mpr ⟨hcomplete, i, hlt, rfl⟩
  have htext : keyText columns (f.key l.columns i) = some (textOf l f (f.key l.columns i)) := by
    have hlength : (f.key l.columns i).length = l.columns.length := List.length_map _
    rw [keyText_eq hcs hlength, if_pos hcomplete]
  have hsame : textOf l f (f.key l.columns i) = textOf l f k ↔ f.key l.columns i = k :=
    ⟨hinj _ hin k hk, fun heq => heq ▸ rfl⟩
  rw [Bool.and_comm, Bool.eq_iff_iff]
  simp [hlt, htext, hsame]

include hcs hc hfound hsplit in
/-- Where no two combinations have one text, each column aggregates the rows of its own. -/
theorem aggregated_eq (hkeys : RowKeys l f keys)
    (hinj : ∀ k ∈ found, ∀ k' ∈ found, textOf l f k = textOf l f k' → k = k') (a : Aggregation) :
    e.aggregated c a
        (keys.map fun k => ⟨k, (counted l f).filter fun i => f.key l.rows i = k⟩)
        (splitOf columns f.height)
      = found.map (valueColumn e l f keys h a) := by
  have hheader : c.header = h := (Frame.column_eq_ok hc).2
  rw [hsplit]
  by_cases hnone : l.columns = []
  · have hrows : ∀ rows ∈ keys.map (fun k => (counted l f).filter fun i => f.key l.rows i = k),
        rows ≠ [] := by
      intro rows hrows
      obtain ⟨k, hk, rfl⟩ := List.mem_map.mp hrows
      exact hkeys.exists_row hk
    have hcells := cells_eq hc a _ false fun _ => hrows
    rw [hfound.no_columns hnone, hnone]
    simp only [aggregated, valueColumn, headerOf, hnone, List.isEmpty_nil, if_true, List.map_map,
      List.map_singleton, Function.comp_def, hheader, Frame.typeOf_eq hc,
      List.append_nil] at hcells ⊢
    rw [hcells]
    simp only [rowsOf_nil hnone]
  · have hempty : l.columns.isEmpty = false := List.isEmpty_eq_false_iff.mpr hnone
    rw [hempty, if_neg Bool.false_ne_true]
    unfold aggregated
    dsimp only
    rw [List.map_map]
    refine List.map_congr_left fun k hk => ?_
    unfold valueColumn headerOf
    rw [Function.comp_apply, cells_eq hc a _ true nofun, hempty, hheader, Frame.typeOf_eq hc,
      List.map_map, List.map_map]
    simp only [Function.comp_def, filter_text hcs hfound hnone hinj hk]
    rfl

end Columns

/-! ### The table -/

theorem map_perValue {α β : Type} (g : α → β) (found : List (List Cell))
    (make : Header → Aggregation → List Cell → α) :
    (perValue l found make).map g = perValue l found fun h a k => g (make h a k) := by
  simp [perValue, List.map_flatMap, Function.comp_def]

theorem forall₂_perValue {α β : Type} {R : α → β → Prop} {found : List (List Cell)}
    {make : Header → Aggregation → List Cell → α} {make' : Header → Aggregation → List Cell → β}
    (h : ∀ h a k, R (make h a k) (make' h a k)) :
    List.Forall₂ R (perValue l found make) (perValue l found make') := by
  have hmake : perValue l found make = _ :=
    (map_perValue (fun x => make x.1 x.2.1 x.2.2) found fun h a k => (h, a, k)).symm
  have hmake' : perValue l found make' = _ :=
    (map_perValue (fun x => make' x.1 x.2.1 x.2.2) found fun h a k => (h, a, k)).symm
  rw [hmake, hmake', List.forall₂_map_left_iff, List.forall₂_map_right_iff, List.forall₂_same]
  exact fun x _ => h _ _ _

/-- The columns of all aggregations are those of their value columns. -/
theorem flatMap_values {α : Type} {values : List (Column × List Aggregation)}
    {found : List (List Cell)} {make : Header → Aggregation → List Cell → α}
    (made : Column → Aggregation → List α)
    (hvs : List.Forall₂ (fun v w => f.column v.1 = .ok w.1 ∧ w.2 = v.2) l.values values)
    (hmade : ∀ h c a, f.column h = .ok c → made c a = found.map (make h a)) :
    (values.flatMap fun v => v.2.flatMap fun a => made v.1 a) = perValue l found make := by
  unfold perValue
  rw [List.flatMap_def, List.flatMap_def]
  refine congrArg List.flatten (map_eq_of_forall₂ hvs fun v w hvw => ?_)
  rw [hvw.2]
  exact List.flatMap_congr fun a _ => hmade v.1 w.1 a hvw.1

section Table

variable {columns rows : List Column} {values : List (Column × List Aggregation)}
  (hf : f.Proper)
  (hcs : List.Forall₂ (fun k c => f.column k = .ok c) l.columns columns)
  (hrs : List.Forall₂ (fun k c => f.column k = .ok c) l.rows rows)
  (hvs : List.Forall₂ (fun v w => f.column v.1 = .ok w.1 ∧ w.2 = v.2) l.values values)

include hrs in
theorem schema_keyed (groups : List Group) :
    ((keyed rows groups).map fun c => (c.header, c.dtype))
      = l.rows.map fun h => (h, f.typeOf h) := by
  have hfirst : ((keyed rows groups).map fun c => (c.header, c.dtype))
      = (rows.zipIdx.map Prod.fst).map fun c => (c.header, c.dtype) := by
    unfold keyed
    rw [List.map_map, List.map_map]
    rfl
  rw [hfirst, List.zipIdx_map_fst]
  refine map_eq_of_forall₂ hrs fun h c hc => ?_
  rw [(Frame.column_eq_ok hc).2, Frame.typeOf_eq hc]

include hrs hvs in
/-- The headers of a pivot table, whatever the texts of the combinations. -/
theorem headers_assembled {found : List (List Cell)} (hfound : Combinations l f found)
    (hsplit : Splits l f columns found) :
    (e.assembled columns rows values f.height).headers
      = l.rows ++ perValue l found (headerOf l f e) := by
  have hkeys : ∀ groups, (keyed rows groups).map Column.header = l.rows := by
    intro groups
    have hfirst := congrArg (List.map Prod.fst) (schema_keyed hrs groups)
    simpa [Function.comp_def] using hfirst
  unfold assembled Frame.headers
  dsimp only
  rw [List.map_append, hkeys, List.map_flatMap]
  simp only [List.map_flatMap]
  rw [flatMap_values _ hvs fun h c a hc => headers_aggregated hc hfound hsplit a _]

/-- Where no header stands twice, the texts tell the combinations apart. -/
theorem textOf_inj {found : List (List Cell)} (hsome : ∃ v ∈ l.values, v.2 ≠ [])
    (hnd : (l.rows ++ perValue l found (headerOf l f e)).Nodup) :
    ∀ k ∈ found, ∀ k' ∈ found, textOf l f k = textOf l f k' → k = k' := by
  intro k hk k' hk' htext
  obtain ⟨v, hv, ha⟩ := hsome
  obtain ⟨a, ha⟩ := List.exists_mem_of_ne_nil _ ha
  have hvalues := (List.nodup_flatMap.mp (List.Nodup.of_append_right hnd)).1 v hv
  have hone := (List.nodup_flatMap.mp hvalues).1 a ha
  refine List.inj_on_of_nodup_map hone hk hk' ?_
  unfold headerOf
  rw [htext]

include hf hcs hrs hvs in
/-- An accepted table tabulates the frame. -/
theorem tabulates_assembled (hfloat : ∀ c ∈ rows ++ columns, c.dtype.isFloat = false)
    (hsome : ∃ v ∈ l.values, v.2 ≠ [])
    (hnd : (e.assembled columns rows values f.height).headers.Nodup) :
    ∃ keys found, e.Tabulates l f (e.assembled columns rows values f.height) keys found := by
  obtain ⟨hrowFloat, hcolumnFloat⟩ := List.forall_mem_append.mp hfloat
  obtain ⟨keys, hkeys, hgroups⟩ := exists_groups hf hrs hcs hrowFloat
  obtain ⟨found, hfound, hsplit⟩ := exists_combinations hf hcs hcolumnFloat
  rw [headers_assembled hrs hvs hfound hsplit] at hnd
  have hinj := textOf_inj hsome hnd
  have hcolumns : (e.assembled columns rows values f.height).columns
      = keyed rows (groupsOf rows columns f.height)
        ++ perValue l found (valueColumn e l f keys) := by
    unfold assembled
    dsimp only
    refine congrArg _ (flatMap_values (fun c a => e.aggregated c a _ _) hvs fun h c a hc => ?_)
    rw [hgroups]
    exact aggregated_eq hcs hc hfound hsplit hkeys hinj a
  have hheight : (e.assembled columns rows values f.height).height = keys.length := by
    show (groupsOf rows columns f.height).length = _
    rw [hgroups, List.length_map]
  -- the cells of a column are a function of the row keys
  have hcells : List.Forall₂ (fun (g : List Cell → Cell) (d : Column) => d.cells = keys.map g)
      ((rows.zipIdx.map fun c key => key[c.2]?.getD .missing)
        ++ perValue l found fun h a k key => aggregate f h a (rowsOf l f key k))
      (e.assembled columns rows values f.height).columns := by
    rw [hcolumns, hgroups]
    refine List.rel_append ?_ ?_
    · unfold keyed
      rw [List.forall₂_map_left_iff, List.forall₂_map_right_iff, List.forall₂_same]
      intro c _
      simp [Function.comp_def]
    · exact forall₂_perValue fun h a k => rfl
  refine ⟨keys, found, hkeys, hfound, hheight, ?_, ?_, ?_⟩
  · intro c hc
    obtain ⟨g, -, hg⟩ := exists_of_mem_right hcells hc
    rw [hg, List.length_map, hheight]
  · unfold Frame.schema
    rw [hcolumns, List.map_append, schema_keyed hrs, map_perValue]
    rfl
  · unfold Frame.rows
    rw [hheight, Merge.keyRows_of_cells hcells]
    refine List.map_congr_left fun key hkey => ?_
    obtain ⟨i, -, rfl⟩ := (hkeys.mem_iff key).mp hkey
    have hlength : (f.key l.rows i).length = rows.length :=
      (List.length_map _).trans hrs.length_eq
    rw [List.map_append, map_perValue, List.map_map]
    refine congrArg (· ++ _) (List.ext_getElem (by simp [hlength]) fun j _ hj => ?_)
    simp [List.getElem?_eq_getElem hj]

end Table

theorem typesOf_columns {columns : List Column} {p : DType → Prop}
    (hcs : List.Forall₂ (fun k c => f.column k = .ok c) l.columns columns)
    (h : ∀ k ∈ l.columns, p (f.typeOf k)) : ∀ c ∈ columns, p c.dtype := by
  intro c hc
  obtain ⟨k, hk, hcolumn⟩ := exists_of_mem_right hcs hc
  exact Frame.typeOf_eq hcolumn ▸ h k hk

/-- The headers of an accepted pivot table: those of the rows, and one for each aggregation
  over each combination. -/
theorem headers_eq {found : List (List Cell)} (hf : f.Proper)
    (hplain : ∀ k ∈ l.rows ++ l.columns ++ l.values.map Prod.fst, isPattern k = false)
    (hfloat : ∀ k ∈ l.columns, (f.typeOf k).isFloat = false) (hfound : Combinations l f found)
    (h : e.frame l f = .ok out) : out.headers = l.rows ++ perValue l found (headerOf l f e) := by
  obtain ⟨-, -, columns, rows, values, hcs, -, hrs, hvs, rfl, -⟩ := (frame_eq_ok hplain).mp h
  obtain ⟨found', hfound', hsplit⟩ := exists_combinations hf hcs
    (typesOf_columns (p := fun t => t.isFloat = false) hcs hfloat)
  obtain rfl := hfound.unique hfound'
  exact headers_assembled hrs hvs hfound hsplit

/-- A pivot table of columns that are there is accepted if no header stands twice, as long
  as its column keys have texts. -/
theorem exists_frame {found : List (List Cell)} (hf : f.Proper) (hrows : l.rows ≠ [])
    (hcolumns : l.columns.Nodup)
    (hplain : ∀ k ∈ l.rows ++ l.columns ++ l.values.map Prod.fst, isPattern k = false)
    (hin : ∀ k ∈ l.rows ++ l.columns ++ l.values.map Prod.fst, k ∈ f.headers)
    (hfloat : ∀ k ∈ l.columns, (f.typeOf k).isFloat = false)
    (hduration : ∀ k ∈ l.columns, f.typeOf k ≠ .duration) (hfound : Combinations l f found)
    (hnd : (l.rows ++ perValue l found (headerOf l f e)).Nodup) :
    ∃ out, e.frame l f = .ok out := by
  simp only [List.mem_append] at hin
  have hvalues : ∀ v ∈ l.values, ∃ w : Column × List Aggregation,
      f.column v.1 = .ok w.1 ∧ w.2 = v.2 := by
    intro v hv
    obtain ⟨c, hc⟩ := Frame.exists_column (hin v.1 (.inr (List.mem_map_of_mem hv)))
    exact ⟨(c, v.2), hc, rfl⟩
  obtain ⟨columns, hcs⟩ := exists_forall₂_iff.mpr fun k hk =>
    Frame.exists_column (hin k (.inl (.inr hk)))
  obtain ⟨rows, hrs⟩ := exists_forall₂_iff.mpr fun k hk =>
    Frame.exists_column (hin k (.inl (.inl hk)))
  obtain ⟨values, hvs⟩ := exists_forall₂_iff.mpr hvalues
  obtain ⟨found', hfound', hsplit⟩ := exists_combinations hf hcs
    (typesOf_columns (p := fun t => t.isFloat = false) hcs hfloat)
  obtain rfl := hfound.unique hfound'
  rw [← headers_assembled hrs hvs hfound hsplit] at hnd
  exact ⟨_, (frame_eq_ok hplain).mpr ⟨hrows, hcolumns, columns, rows, values, hcs,
    typesOf_columns (p := fun t => t ≠ .duration) hcs hduration, hrs, hvs, rfl, hnd⟩⟩

/-! ### Accepted pivot tables -/

/-- What a layout is made of: the headers of the keys, and those of the values that have an
  aggregation. -/
theorem layout_eq_ok {source : Sheet} (h : e.layout source = .ok l) :
    List.Forall₂ (fun id k => source.columns.header? id = some k) e.rows l.rows
      ∧ List.Forall₂ (fun id k => source.columns.header? id = some k) e.columns l.columns
      ∧ List.Forall₂ (fun v w => source.columns.header? v.1 = some w.1 ∧ w.2 = v.2)
          (e.values.filter fun v => !v.2.isEmpty) l.values
      ∧ ∃ v ∈ l.values, v.2 ≠ [] := by
  unfold layout at h
  simp only [throw_ite_eq_ok, bind_eq_ok, pure_eq_ok, mapM_eq_ok, Sheet.headersFor_eq_ok] at h
  obtain ⟨-, hsome, rows, hrows, columns, hcolumns, values, hvalues, rfl⟩ := h
  have hall : List.Forall₂ (fun v w => source.columns.header? v.1 = some w.1 ∧ w.2 = v.2)
      (e.values.filter fun v => !v.2.isEmpty) (values.filterMap id) := by
    clear hsome
    generalize e.values = given at hvalues
    induction hvalues with
    | nil => exact .nil
    | @cons v found _ _ hv _ ih =>
      unfold valueOf at hv
      by_cases hempty : v.2.isEmpty = true
      · rw [if_pos hempty, pure_eq_ok] at hv
        subst hv
        rwa [List.filter_cons_of_neg (by simp [hempty]), List.filterMap_cons_none rfl]
      · rw [if_neg hempty] at hv
        simp only [throw_ite_eq_ok, bind_eq_ok, pure_eq_ok, Sheet.header_eq_ok] at hv
        obtain ⟨-, header, hheader, rfl⟩ := hv
        rw [List.filter_cons_of_pos (by simpa using hempty)]
        exact List.Forall₂.cons ⟨hheader, rfl⟩ ih
  refine ⟨hrows, hcolumns, hall, ?_⟩
  simp only [List.all_eq_true, List.isEmpty_iff, not_forall] at hsome
  obtain ⟨v, hv, hne⟩ := hsome
  obtain ⟨w, hw, -, hsame⟩ := exists_of_mem_left hall
    (List.mem_filter.mpr ⟨hv, by simpa using hne⟩)
  exact ⟨w, hw, hsame ▸ hne⟩

/-- The sheet that a pivot table leaves: in place of the one at its destination, or behind
  the others. -/
def Leaves (e : Pivot) (s : State) (c : Change) (sheet : Sheet) : Prop :=
  match e.destination with
  | some i => i < s.sheets.length ∧ c.state.sheets = s.sheets.set i sheet
  | none => c.state.sheets = s.sheets ++ [sheet]

theorem run_eq_ok {s : State} {c : Change} {source : Sheet} (h : e.run s = .ok c)
    (hsource : s.sheet e.sheet = .ok source) :
    ∃ l sheet, e.layout source = .ok l ∧ e.frame l source.frame = .ok sheet.frame
      ∧ e.Leaves s c sheet := by
  unfold run at h
  simp only [bind_eq_ok] at h
  obtain ⟨source', hsource', l, hl, f, hf, h⟩ := h
  obtain rfl := Except.ok.inj (hsource.symm.trans hsource')
  unfold Leaves
  cases hdestination : e.destination with
  | some i =>
    simp only [hdestination, bind_eq_ok, pure_eq_ok] at h
    obtain ⟨target, htarget, headers, -, rfl⟩ := h
    obtain ⟨left, right, hsheets, hlength⟩ := State.sheet_eq_ok htarget
    let output := { target.withData f (ColumnIds.ofHeaders headers) with formulas := [] }
    have hlt : i < s.sheets.length := by
      rw [hsheets, List.length_append, List.length_cons]
      omega
    exact ⟨l, output, hl, hf, hlt, rfl⟩
  | none =>
    simp only [hdestination, pure_eq_ok] at h
    subst h
    exact ⟨l, (s.mint (s.uniqueName (source.name ++ "_pivot")) f).1, hl, hf, rfl⟩

/-- An accepted pivot table whose keys are no floating-point numbers, where none of its headers
  is a pattern: its layout follows the ids, the values in the order of theirs, and its sheet
  tabulates the source. -/
theorem tabulates {s : State} {c : Change} {source : Sheet} (h : e.run s = .ok c)
    (hsource : s.sheet e.sheet = .ok source) (hproper : source.frame.Proper)
    (hplain : ∀ id ∈ e.rows ++ e.columns ++ Dictionary.keys e.values, ∀ k,
      source.columns.header? id = some k → isPattern k = false)
    (hvalues : Dictionary.Ascending e.values)
    (hkeys : ∀ id ∈ e.rows ++ e.columns, ∀ t, source.dtype id = .ok t → t.isFloat = false) :
    ∃ l sheet keys combinations, e.layout source = .ok l ∧ e.Leaves s c sheet
      ∧ List.Forall₂ (fun id k => source.columns.header? id = some k) e.rows l.rows
      ∧ List.Forall₂ (fun id k => source.columns.header? id = some k) e.columns l.columns
      ∧ List.Forall₂ (fun v w => source.columns.header? v.1 = some w.1 ∧ w.2 = v.2)
          (e.values.filter fun v => !v.2.isEmpty) l.values
      ∧ Dictionary.Ascending (e.values.filter fun v => !v.2.isEmpty)
      ∧ e.Tabulates l source.frame sheet.frame keys combinations := by
  obtain ⟨l, sheet, hl, hf, hleaves⟩ := run_eq_ok h hsource
  obtain ⟨hrowIds, hcolumnIds, hvalueIds, hsome⟩ := layout_eq_ok hl
  have hverbatim : ∀ k ∈ l.rows ++ l.columns ++ l.values.map Prod.fst, isPattern k = false := by
    intro k hk
    obtain ⟨id, hid, hheader⟩ := layout_headers hl hk
    exact hplain id hid k hheader
  obtain ⟨-, -, columns, rows, values, hcs, -, hrs, hvs, hassembled, hnd⟩ :=
    (frame_eq_ok hverbatim).mp hf
  -- the keys of the table are columns of the source, under the headers of their ids
  have hfloat : ∀ {ids : List ColumnId} {hs : List Header} {cs : List Column},
      ids ⊆ e.rows ++ e.columns →
      List.Forall₂ (fun id k => source.columns.header? id = some k) ids hs →
      List.Forall₂ (fun k c => source.frame.column k = .ok c) hs cs →
      ∀ c ∈ cs, c.dtype.isFloat = false := by
    intro ids hs cs hsub hids hcs c hc
    obtain ⟨k, hk, hcolumn⟩ := exists_of_mem_right hcs hc
    obtain ⟨id, hid, hheader⟩ := exists_of_mem_right hids hk
    refine hkeys id (hsub hid) c.dtype ?_
    simp only [Sheet.dtype, Sheet.column, bind_eq_ok, pure_eq_ok, Sheet.header_eq_ok]
    exact ⟨c, ⟨k, hheader, hcolumn⟩, rfl⟩
  rw [← hassembled] at hnd
  obtain ⟨keys, found, htable⟩ := tabulates_assembled hproper hcs hrs hvs
    (List.forall_mem_append.mpr ⟨hfloat (List.subset_append_left _ _) hrowIds hrs,
      hfloat (List.subset_append_right _ _) hcolumnIds hcs⟩) hsome hnd
  exact ⟨l, sheet, keys, found, hl, hleaves, hrowIds, hcolumnIds, hvalueIds, hvalues.filter _,
    hassembled ▸ htable⟩

namespace Sample

/-- Sales by shop and kind; a shop and a kind are missing, and one shop lacks a kind. -/
def sales : Sheet :=
  .ofFrame ⟨0⟩ "df1"
    ⟨[⟨"shop", .text, [.text "y", .text "x", .text "x", .text "y", .missing]⟩,
      ⟨"kind", .text, [.text "b", .text "a", .text "b", .missing, .text "a"]⟩,
      ⟨"price", .int64, [.int 2, .int 1, .int 3, .int 4, .int 5]⟩], 5⟩

/-- A state with the sales. -/
def market : State := { sheets := [sales], nextId := 1 }

/-- Prices by shop, with a column for each kind. -/
def totals : Pivot :=
  { sheet := 0, rows := [⟨"shop"⟩], columns := [⟨"kind"⟩], values := [(⟨"price"⟩, [.sum])] }

/-- The layout of the totals. -/
def layout : Layout := ⟨["shop"], ["kind"], [("price", [.sum])]⟩

theorem rowKeys : RowKeys layout sales.frame [[.text "x"], [.text "y"]] := by
  refine ⟨by decide, fun k => ?_⟩
  have hcounted : counted layout sales.frame = [0, 1, 2] := by decide
  have hkeys : sales.frame.key layout.rows 0 = [.text "y"]
      ∧ sales.frame.key layout.rows 1 = [.text "x"]
      ∧ sales.frame.key layout.rows 2 = [.text "x"] := by decide
  obtain ⟨hzero, hone, htwo⟩ := hkeys
  rw [hcounted]
  simp only [List.mem_cons, List.not_mem_nil, or_false, exists_eq_or_imp, exists_eq_left, hzero,
    hone, htwo, @eq_comm _ _ k]
  tauto

theorem combinations : Combinations layout sales.frame [[.text "a"], [.text "b"]] := by
  refine ⟨by decide, fun _ k => ?_, fun h => absurd h (by decide)⟩
  constructor
  · intro hk
    rcases List.mem_cons.mp hk with rfl | hk
    · exact ⟨rfl, 1, by decide⟩
    · obtain rfl := List.mem_singleton.mp hk
      exact ⟨rfl, 0, by decide⟩
  · rintro ⟨hcomplete, i, hi, rfl⟩
    have hall : ∀ i < 5, isComplete (sales.frame.key layout.columns i) = true →
        sales.frame.key layout.columns i ∈ [[Cell.text "a"], [Cell.text "b"]] := by decide
    exact hall i hi hcomplete

theorem proper : sales.frame.Proper := ⟨by decide, by decide⟩

theorem layout_totals : totals.layout sales = .ok layout := by decide

theorem exists_run : ∃ c, totals.run market = .ok c := by
  obtain ⟨out, hframe⟩ := exists_frame (e := totals) (l := layout) proper (by decide) (by decide)
    (by decide) (by decide) (by decide) (by decide) combinations (by decide)
  unfold run
  simp only [bind_eq_ok]
  exact ⟨_, sales, rfl, layout, layout_totals, out, hframe, rfl⟩

/-- A column whose header is a pattern that matches another one. -/
def stakes : Sheet :=
  .ofFrame ⟨0⟩ "df1"
    ⟨[⟨"K", .text, [.text "a"]⟩, ⟨"A", .int64, [.int 1]⟩, ⟨"^A$", .int64, [.int 10]⟩], 1⟩

/-- A state with the sheet. -/
def bets : State := { sheets := [stakes], nextId := 1 }

/-- The sums of the column. -/
def staked : Pivot := { sheet := 0, rows := [⟨"K"⟩], columns := [], values := [(⟨"^A$"⟩, [.sum])] }

/-- The layout of the sums. -/
def stakedLayout : Layout := ⟨["K"], [], [("^A$", [.sum])]⟩

theorem rowKeys_staked : RowKeys stakedLayout stakes.frame [[.text "a"]] := by
  refine ⟨by decide, fun k => ?_⟩
  have hcounted : counted stakedLayout stakes.frame = [0] := by decide
  have hkey : stakes.frame.key stakedLayout.rows 0 = [.text "a"] := by decide
  rw [hcounted]
  simp [hkey, eq_comm]

end Sample

/-- A shop that lacks a kind has a missing cell there, not a sum of nothing. -/
theorem tabulates_totals :
    Sample.market.sheet 0 = .ok Sample.sales ∧ Sample.sales.frame.Proper
      ∧ (∀ id ∈ Sample.totals.rows ++ Sample.totals.columns ++ Dictionary.keys Sample.totals.values,
          ∀ k, Sample.sales.columns.header? id = some k → isPattern k = false)
      ∧ Dictionary.Ascending Sample.totals.values
      ∧ (∀ id ∈ Sample.totals.rows ++ Sample.totals.columns, ∀ t,
          Sample.sales.dtype id = .ok t → t.isFloat = false)
      ∧ ∃ c sheet, Sample.totals.run Sample.market = .ok c
        ∧ Sample.totals.Leaves Sample.market c sheet
        ∧ sheet.headers = ["shop", "price sum a", "price sum b"]
        ∧ sheet.frame.rows
          = [[.text "x", .int 1, .int 3], [.text "y", .missing, .int 2]] := by
  have hsource : Sample.market.sheet 0 = .ok Sample.sales := rfl
  have hplain : ∀ id ∈ Sample.totals.rows ++ Sample.totals.columns
      ++ Dictionary.keys Sample.totals.values,
      ∀ k, Sample.sales.columns.header? id = some k → isPattern k = false := by
    intro id _ k hk
    have hall : ∀ k ∈ Sample.sales.headers, isPattern k = false := by decide
    exact hall k ((Sheet.Sound.ofFrame _ _ (by decide)).columns.mem hk)
  have hvalues : Dictionary.Ascending Sample.totals.values := List.pairwise_singleton _ _
  have hkeys : ∀ id ∈ Sample.totals.rows ++ Sample.totals.columns, ∀ t,
      Sample.sales.dtype id = .ok t → t.isFloat = false := by
    have htypes : ∀ id ∈ Sample.totals.rows ++ Sample.totals.columns,
        Sample.sales.dtype id = .ok .text := by decide
    intro id hid t ht
    obtain rfl := Except.ok.inj ((htypes id hid).symm.trans ht)
    rfl
  obtain ⟨c, hrun⟩ := Sample.exists_run
  obtain ⟨l, sheet, keys, found, hlayout, hleaves, -, -, -, -, htable⟩ :=
    tabulates hrun hsource Sample.proper hplain hvalues hkeys
  obtain rfl := Except.ok.inj (Sample.layout_totals.symm.trans hlayout)
  obtain rfl := htable.rowKeys.unique Sample.rowKeys
  obtain rfl := htable.columnKeys.unique Sample.combinations
  refine ⟨hsource, Sample.proper, hplain, hvalues, hkeys, c, sheet, hrun, hleaves, ?_, ?_⟩
  · have hheaders : sheet.headers = sheet.frame.schema.map Prod.fst := by
      unfold Sheet.headers Frame.headers Frame.schema
      rw [List.map_map]
      rfl
    rw [hheaders, htable.schema]
    decide
  · rw [htable.rows]
    decide

/-- A value whose header is a pattern is taken from the column that the pattern matches. -/
theorem tabulates_other :
    Sample.bets.sheet 0 = .ok Sample.stakes ∧ Sample.stakes.frame.Proper
      ∧ (∀ id ∈ Sample.staked.rows ++ Sample.staked.columns,
          Sample.stakes.dtype id = .ok .text)
      ∧ ∃ c sheet, Sample.staked.run Sample.bets = .ok c
        ∧ Sample.staked.Leaves Sample.bets c sheet
        ∧ sheet.frame.rows = [[.text "a", .int 1]]
        ∧ ∀ l keys combinations, Sample.staked.layout Sample.stakes = .ok l →
          ¬ Sample.staked.Tabulates l Sample.stakes.frame sheet.frame keys combinations := by
  have hlayout : Sample.staked.layout Sample.stakes = .ok Sample.stakedLayout := by decide
  have hframe : Sample.staked.frame Sample.stakedLayout Sample.stakes.frame
      = .ok ⟨[⟨"K", .text, [.text "a"]⟩, ⟨"^A$ sum", .int64, [.int 1]⟩], 1⟩ := by decide +kernel
  have hrun : ∃ c, Sample.staked.run Sample.bets = .ok c := by
    unfold run
    simp only [bind_eq_ok]
    exact ⟨_, _, rfl, _, hlayout, _, hframe, rfl⟩
  obtain ⟨c, hrun⟩ := hrun
  obtain ⟨l, sheet, hl, hout, hleaves⟩ := run_eq_ok hrun rfl
  obtain rfl := Except.ok.inj (hlayout.symm.trans hl)
  have hrows : sheet.frame.rows = [[.text "a", .int 1]] := by
    rw [← Except.ok.inj (hframe.symm.trans hout)]
    decide
  refine ⟨rfl, ⟨by decide, by decide⟩, by decide, c, sheet, hrun, hleaves, hrows, ?_⟩
  intro l keys found hl htable
  obtain rfl := Except.ok.inj (hlayout.symm.trans hl)
  obtain rfl := htable.rowKeys.unique Sample.rowKeys_staked
  obtain rfl := htable.columnKeys.no_columns rfl
  rw [htable.rows] at hrows
  exact absurd hrows (by decide)

end Pivot

end SheetScript
