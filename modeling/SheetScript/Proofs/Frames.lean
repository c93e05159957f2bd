import SheetScript.Proofs.Naming
import SheetScript.Proofs.Outcomes
import SheetScript.Table.Pattern

/-! # The headers of frames

  What each operation on frames does to the headers, from left to right.  An
  operation that could repeat a header refuses to.

  Names in expressions stand for the columns with those headers as long as none of
  them is a pattern.
-/

namespace SheetScript.Frame

variable {f g : Frame}

@[simp] theorem length_headers (f : Frame) : f.headers.length = f.width := by
  simp [headers, width]

theorem column_eq_ok {h : Header} {c : Column} (hc : f.column h = .ok c) :
    c ∈ f.columns ∧ c.header = h := by
  unfold column column? at hc
  split at hc
  · next hfind =>
    obtain rfl := Except.ok.inj hc
    exact ⟨List.mem_of_find?_eq_some hfind, by simpa using List.find?_some hfind⟩
  · cases hc

theorem exists_column {h : Header} (hh : h ∈ f.headers) : ∃ c, f.column h = .ok c := by
  obtain ⟨c, hc, rfl⟩ := List.mem_map.mp hh
  unfold column column?
  cases hfind : f.columns.find? fun d => d.header = c.header with
  | some d => exact ⟨d, rfl⟩
  | none => simpa using List.find?_eq_none.mp hfind c hc

theorem header_mem {c : Column} (hc : c ∈ f.columns) : c.header ∈ f.headers :=
  List.mem_map.mpr ⟨c, hc, rfl⟩

theorem headers_withColumn {c : Column} (hc : c.header ∈ f.headers) :
    (f.withColumn c).headers = f.headers := by
  rw [withColumn, if_pos hc]
  unfold headers
  dsimp only
  rw [List.map_map]
  refine List.map_congr_left fun d _ => ?_
  by_cases hd : d.header = c.header <;> simp [hd]

theorem headers_insertColumns {i : Nat} {cs : List Column} (h : f.insertColumns i cs = .ok g) :
    g.headers = f.headers.take i ++ cs.map Column.header ++ f.headers.drop i
      ∧ g.headers.Nodup := by
  unfold insertColumns at h
  dsimp only at h
  split at h
  · next hnd =>
    obtain rfl := Except.ok.inj h
    refine ⟨by simp [headers, List.map_take, List.map_drop], nodup_of_length_eraseDups ?_⟩
    rw [headers, hnd, List.length_map]
  · cases h

theorem mem_headers_insertColumns {i : Nat} {cs : List Column}
    (h : f.insertColumns i cs = .ok g) {k : Header} :
    k ∈ g.headers ↔ k ∈ cs.map Column.header ++ f.headers := by
  have hsplit : k ∈ f.headers ↔ k ∈ f.headers.take i ∨ k ∈ f.headers.drop i := by
    rw [← List.mem_append, List.take_append_drop]
  rw [(headers_insertColumns h).1, List.mem_append, List.mem_append, List.mem_append, hsplit]
  tauto

theorem column_of_mem (hnd : f.headers.Nodup) {c : Column} (hc : c ∈ f.columns) :
    f.column c.header = .ok c := by
  obtain ⟨d, hd⟩ := exists_column (header_mem hc)
  obtain ⟨hmem, hheader⟩ := column_eq_ok hd
  rwa [List.inj_on_of_nodup_map hnd hmem hc hheader] at hd

/-- Columns that are found by headers have them. -/
theorem headers_of_columns {hs : List Header} {cs : List Column}
    (h : List.Forall₂ (fun k c => f.column k = .ok c) hs cs) : cs.map Column.header = hs := by
  have hmap := map_eq_of_forall₂ h (f := id) fun k c hc => (column_eq_ok hc).2
  rwa [List.map_id] at hmap

/-- There are as many columns as headers that they are found by. -/
theorem isEmpty_columns {hs : List Header} {cs : List Column}
    (h : List.Forall₂ (fun k c => f.column k = .ok c) hs cs) : cs.isEmpty = hs.isEmpty := by
  rw [← headers_of_columns h, List.isEmpty_map]

/-- Columns whose headers differ are found in a table of them alone. -/
theorem columns_alone {hs : List Header} {cs : List Column} (hnd : hs.Nodup)
    (h : List.Forall₂ (fun k c => f.column k = .ok c) hs cs) :
    List.Forall₂ (fun k c => ({ f with columns := cs } : Frame).column k = .ok c) hs cs := by
  have hheaders : cs.map Column.header = hs := headers_of_columns h
  have halone : ({ f with columns := cs } : Frame).headers.Nodup := by
    show (cs.map Column.header).Nodup
    rwa [hheaders]
  rw [← hheaders, List.forall₂_map_left_iff, List.forall₂_same]
  exact fun c hc => column_of_mem halone hc

theorem select_eq_ok {hs : List Header} : f.select hs = .ok g
    ↔ hs.Nodup ∧ ∃ cs, List.Forall₂ (fun k c => f.column k = .ok c) hs cs
      ∧ g = { f with columns := cs } := by
  simp only [select, bind_eq_ok, mapM_eq_ok, ite_throw_eq_ok, pure_eq_ok, beq_iff_eq]
  constructor
  · rintro ⟨cs, hcs, hnd, rfl⟩
    exact ⟨nodup_of_length_eraseDups hnd, cs, hcs, rfl⟩
  · rintro ⟨hnd, cs, hcs, rfl⟩
    exact ⟨cs, hcs, length_eraseDups_of_nodup hnd, rfl⟩

/-- Headers find no other columns. -/
theorem columns_unique {hs : List Header} {cs ds : List Column}
    (hcs : List.Forall₂ (fun k c => f.column k = .ok c) hs cs)
    (hds : List.Forall₂ (fun k c => f.column k = .ok c) hs ds) : cs = ds :=
  Except.ok.inj ((mapM_eq_ok.mpr hcs).symm.trans (mapM_eq_ok.mpr hds))

/-- Columns of a frame are selected by their headers. -/
theorem select_of_mem (hnd : f.headers.Nodup) {cs : List Column} (hcs : ∀ c ∈ cs, c ∈ f.columns)
    (hdistinct : (cs.map Column.header).Nodup) :
    f.select (cs.map Column.header) = .ok { f with columns := cs } := by
  apply select_eq_ok.mpr
  refine ⟨hdistinct, cs, ?_, rfl⟩
  rw [List.forall₂_map_left_iff, List.forall₂_same]
  exact fun c hc => column_of_mem hnd (hcs c hc)

theorem headers_select {hs : List Header} (h : f.select hs = .ok g) :
    g.headers = hs ∧ hs.Nodup ∧ ∀ k ∈ hs, k ∈ f.headers := by
  obtain ⟨hnd, cs, hcs, rfl⟩ := select_eq_ok.mp h
  refine ⟨headers_of_columns hcs, hnd, fun k hk => ?_⟩
  obtain ⟨c, -, hc⟩ := exists_of_mem_left hcs hk
  obtain ⟨hmem, rfl⟩ := column_eq_ok hc
  exact header_mem hmem

theorem nodup_select {hs : List Header} (h : f.select hs = .ok g) : g.headers.Nodup := by
  obtain ⟨hheaders, hnd, -⟩ := headers_select h
  rwa [hheaders]

theorem headers_drop (f : Frame) (hs : List Header) :
    (f.drop hs).headers = f.headers.filter fun k => k ∉ hs := by
  simp [headers, drop, List.filter_map, Function.comp_def]

theorem headers_withHeaders {hs : List Header} (h : f.withHeaders hs = .ok g) :
    g.headers = hs ∧ hs.Nodup ∧ hs.length = f.headers.length := by
  unfold withHeaders at h
  split at h
  · cases h
  · next hlen =>
    split at h
    · cases h
    · next hnd =>
      obtain rfl := Except.ok.inj h
      have hlen : hs.length = f.columns.length := by simpa using hlen
      refine ⟨?_, nodup_of_length_eraseDups (by simpa using hnd), by simpa [width] using hlen⟩
      have hsnd : (f.columns.zip hs).map Prod.snd = hs := List.map_snd_zip (by omega)
      rw [headers, List.map_map]
      exact hsnd

theorem nodup_withHeaders {hs : List Header} (h : f.withHeaders hs = .ok g) :
    g.headers.Nodup := by
  obtain ⟨hheaders, hnd, -⟩ := headers_withHeaders h
  rwa [hheaders]

/-- The columns stay in place, each with its new header. -/
theorem eq_of_withHeaders_map {ρ : Header → Header} (h : f.withHeaders (f.headers.map ρ) = .ok g) :
    g = { f with columns := f.columns.map fun c => { c with header := ρ c.header } } := by
  unfold withHeaders at h
  split at h
  · cases h
  · split at h
    · cases h
    · rw [← Except.ok.inj h]
      unfold headers
      rw [List.map_map, ← List.map_prod_left_eq_zip, List.map_map]
      rfl

/-- Headers that differ can replace as many others. -/
theorem withHeaders_of_nodup {hs : List Header} (hlen : hs.length = f.headers.length)
    (hnd : hs.Nodup) : ∃ g, f.withHeaders hs = .ok g := by
  rw [length_headers, width] at hlen
  unfold withHeaders
  rw [if_neg (by simp [hlen]), if_neg (by simp [length_eraseDups_of_nodup hnd])]
  exact ⟨_, rfl⟩

@[simp] theorem headers_pickRows (f : Frame) (rows : List Nat) :
    (f.pickRows rows).headers = f.headers := by
  simp [headers, pickRows, Column.pick, Function.comp_def]

@[simp] theorem headers_removeRow (f : Frame) (row : Nat) :
    (f.removeRow row).headers = f.headers := by
  simp [headers, removeRow, Function.comp_def]

theorem headers_sort {h : Header} {descending : Bool} {place : Cell.MissingPlace}
    (hs : f.sort h descending place = .ok g) : g.headers = f.headers := by
  simp only [sort, bind_eq_ok, pure_eq_ok] at hs
  obtain ⟨c, -, rfl⟩ := hs
  exact headers_pickRows _ _

theorem index?_eq_some {h : Header} {i : Nat} (hi : f.index? h = some i) :
    f.headers[i]? = some h := by
  unfold index? at hi
  obtain ⟨hlt, hp, -⟩ := List.findIdx?_eq_some_iff_getElem.mp hi
  simp only [decide_eq_true_eq] at hp
  simp [headers, List.getElem?_eq_getElem hlt, hp]

theorem distinct_eq_ok {columns : List Column} {height : Nat} :
    distinct columns height = .ok g
      ↔ (columns.map Column.header).Nodup ∧ g = ⟨columns, height⟩ := by
  unfold distinct
  dsimp only
  constructor
  · intro h
    split at h
    · next hnd => exact ⟨nodup_of_length_eraseDups hnd, (Except.ok.inj h).symm⟩
    · cases h
  · rintro ⟨hnd, rfl⟩
    rw [if_pos (length_eraseDups_of_nodup hnd)]

/-! ### Names -/

section Names

variable {names : List Header} {name header : Header} {columns : List Column}

theorem readings_of_verbatim (h : ∀ n ∈ names, isPattern n = false) :
    f.readings names = .ok [id] := by
  have hstar : "*" ∉ names := fun hmem => absurd (h _ hmem) (by decide)
  have hnone : names.filter isPattern = [] := List.filter_eq_nil_iff.mpr fun n hn => by simp [h n hn]
  rw [readings, if_neg hstar, hnone]
  rfl

theorem named_of_verbatim (h : isPattern name = false) : f.named name = .ok [name] := by
  rw [named, readings_of_verbatim (List.forall_mem_singleton.mpr h)]
  rfl

theorem namedAll_of_verbatim (h : ∀ n ∈ names, isPattern n = false) :
    f.namedAll names = .ok names := by
  have hmap : names.mapM f.named = .ok (names.map fun n => [n]) :=
    mapM_eq_ok_map fun n hn => named_of_verbatim (h n hn)
  have hflat : (names.map fun n => [n]).flatten = names := by
    rw [← List.flatMap_def, List.flatMap_singleton']
  rw [namedAll, hmap]
  exact congrArg Except.ok hflat

theorem namedOnce_of_verbatim (h : ∀ n ∈ names, isPattern n = false) :
    f.namedOnce names = .ok names := by
  rw [namedOnce, readings_of_verbatim h]
  exact congrArg Except.ok (List.map_id names)

theorem namedAs_of_verbatim (h : isPattern name = false) :
    f.namedAs name header = .ok columns
      ↔ ∃ c, f.column name = .ok c ∧ columns = [{ c with header }] := by
  rw [namedAs, named_of_verbatim h]
  simp only [bind_eq_ok, Except.ok.injEq, exists_eq_left', mapM_eq_ok]
  constructor
  · intro hcolumns
    cases hcolumns with
    | cons hc hrest =>
      cases hrest
      obtain ⟨c, hc, hcolumn⟩ := by simpa only [bind_eq_ok, pure_eq_ok] using hc
      exact ⟨c, hc, by rw [hcolumn]⟩
  · rintro ⟨c, hc, rfl⟩
    exact .cons (by simp [hc]) .nil

/-- Columns are named under the given header, whatever the name stands for. -/
theorem header_of_namedAs (h : f.namedAs name header = .ok columns) :
    ∀ c ∈ columns, c.header = header := by
  simp only [namedAs, bind_eq_ok, mapM_eq_ok, pure_eq_ok] at h
  obtain ⟨hs, -, hcolumns⟩ := h
  intro c hc
  obtain ⟨_, -, d, -, rfl⟩ := exists_of_mem_right hcolumns hc
  rfl

/-- The column under a header is what its own name stands for. -/
theorem namedAs_self (hname : isPattern name = false) {c : Column} (hc : f.column name = .ok c) :
    f.namedAs name name = .ok [c] := by
  rw [namedAs_of_verbatim hname]
  exact ⟨c, hc, by rw [← (column_eq_ok hc).2]⟩

theorem withColumns_singleton (f : Frame) (c : Column) :
    f.withColumns [c] = .ok (f.withColumn c) := by
  rfl

theorem selectNamed_of_verbatim (h : ∀ n ∈ names, isPattern n = false) :
    f.selectNamed names = .ok g ↔ f.select names = .ok g := by
  rw [selectNamed, namedAll_of_verbatim h, select_eq_ok]
  simp only [bind_eq_ok, Except.ok.injEq, exists_eq_left', mapM_eq_ok, distinct_eq_ok]
  constructor
  · rintro ⟨cs, hcs, hnd, rfl⟩
    exact ⟨headers_of_columns hcs ▸ hnd, cs, hcs, rfl⟩
  · rintro ⟨hnd, cs, hcs, rfl⟩
    exact ⟨cs, hcs, (headers_of_columns hcs).symm ▸ hnd, rfl⟩

/-- Columns under new headers go to the right end. -/
theorem withColumns_of_new (hnd : (columns.map Column.header).Nodup)
    (hnew : ∀ c ∈ columns, c.header ∉ f.headers) :
    f.withColumns columns = .ok { f with columns := f.columns ++ columns } := by
  have hlength := length_eraseDups_of_nodup hnd
  rw [List.length_map] at hlength
  rw [withColumns, if_pos hlength]
  clear hlength
  congr 1
  induction columns generalizing f with
  | nil => simp
  | cons c rest ih =>
    rw [List.forall_mem_cons] at hnew
    rw [List.map_cons, List.nodup_cons] at hnd
    rw [List.foldl_cons, withColumn, if_neg hnew.1, ih hnd.2]
    · simp
    · intro d hd hmem
      rw [headers, List.map_append, List.mem_append] at hmem
      rcases hmem with hmem | hmem
      · exact hnew.2 d hd hmem
      · have heq : d.header = c.header := by simpa using hmem
        exact hnd.1 (heq ▸ List.mem_map_of_mem hd)

/-- Columns in place of those with their headers leave the headers alone. -/
theorem headers_withColumns (h : f.withColumns columns = .ok g)
    (hin : ∀ c ∈ columns, c.header ∈ f.headers) : g.headers = f.headers := by
  unfold withColumns at h
  split at h
  · obtain rfl := Except.ok.inj h
    clear h
    rename_i hnd
    clear hnd
    induction columns generalizing f with
    | nil => rfl
    | cons c rest ih =>
      rw [List.forall_mem_cons] at hin
      have hheaders := headers_withColumn hin.1
      rw [List.foldl_cons, ih fun d hd => hheaders ▸ hin.2 d hd, hheaders]
  · cases h

/-- Whichever columns are put in or added, headers stay different. -/
theorem nodup_withColumns (h : f.withColumns columns = .ok g) (hnd : f.headers.Nodup) :
    g.headers.Nodup := by
  unfold withColumns at h
  split at h
  · obtain rfl := Except.ok.inj h
    clear h
    rename_i hdistinct
    clear hdistinct
    induction columns generalizing f with
    | nil => exact hnd
    | cons c rest ih =>
      refine ih ?_
      by_cases hc : c.header ∈ f.headers
      · rwa [headers_withColumn hc]
      · rw [withColumn, if_neg hc, headers, List.map_append]
        exact hnd.append (List.nodup_singleton _) (List.disjoint_singleton.mpr hc)
  · cases h

end Names

end SheetScript.Frame

/-! ## Rows of frames

  In a proper frame every column is as long as the frame is high and holds cells of its
  type.  Frames are compared by their rows and by their schema; picking rows keeps the
  schema and picks among the rows.
-/

namespace SheetScript

/-- Whether a cell can stand in a column of a type. -/
def DType.holds (t : DType) : Cell → Bool
  | .missing => true
  | .bool _ => t == .bool
  | .int n => (t.isInteger || t.isTemporal) && t.fits n
  | .float x => t == .float64 || (t == .float32 && decide (Decimal.single x = x))
  | .text _ => t == .text

/-- A number as the columns of a type hold it. -/
def DType.rounded (t : DType) (x : Float) : Float :=
  if t = .float32 then Decimal.single x else x

/-- The cell of a column in a row. -/
def Column.cell (c : Column) (row : Nat) : Cell := c.cells[row]?.getD .missing

namespace Frame

/-- Columns of one height, with cells of their types. -/
structure Proper (f : Frame) : Prop where
  lengths : ∀ c ∈ f.columns, c.cells.length = f.height
  cells : ∀ c ∈ f.columns, ∀ x ∈ c.cells, c.dtype.holds x = true

/-- The rows from top to bottom, each from left to right. -/
def rows (f : Frame) : List (List Cell) := keyRows f.columns f.height

/-- The headers with their types from left to right. -/
def schema (f : Frame) : List (Header × DType) := f.columns.map fun c => (c.header, c.dtype)

theorem keyRows_eq (columns : List Column) (height : Nat) :
    keyRows columns height
      = (List.range height).map fun i => columns.map fun c => c.cell i := by
  simp [keyRows, Column.cell]

@[simp] theorem schema_pickRows (f : Frame) (rows : List Nat) :
    (f.pickRows rows).schema = f.schema := by
  simp [schema, pickRows, Column.pick, Function.comp_def]

/-- Picked rows are rows of before. -/
theorem rows_pickRows (f : Frame) (rows : List Nat) :
    (f.pickRows rows).rows = rows.map fun i => f.columns.map fun c => c.cell i := by
  unfold Frame.rows
  rw [keyRows_eq]
  refine List.ext_getElem (by simp [pickRows]) fun k hk _ => ?_
  have hlt : k < rows.length := by simpa [pickRows] using hk
  simp [pickRows, Column.pick, Column.cell, hlt]

/-- Rows that are picked once each are the rows in another order. -/
theorem rows_pickRows_perm {f : Frame} {rows : List Nat} (h : rows.Perm (List.range f.height)) :
    (f.pickRows rows).rows.Perm f.rows := by
  rw [rows_pickRows, Frame.rows, keyRows_eq]
  exact h.map _

/-- A column of a proper frame, cell by cell. -/
theorem Proper.cells_eq {f : Frame} (hf : f.Proper) {c : Column} (hc : c ∈ f.columns) :
    c.cells = (List.range f.height).map c.cell := by
  rw [← hf.lengths c hc]
  exact List.ext_getElem (by simp) fun i hi _ => by
    simp [Column.cell, List.getElem?_eq_getElem hi]

/-- What a proper column holds in a row fits its type. -/
theorem Proper.holds_cell {f : Frame} (hf : f.Proper) {c : Column} (hc : c ∈ f.columns)
    (row : Nat) : c.dtype.holds (c.cell row) = true := by
  unfold Column.cell
  cases hcell : c.cells[row]? with
  | none => rfl
  | some x => exact hf.cells c hc x (List.mem_of_getElem? hcell)

/-- Picked rows of a proper frame are a proper frame. -/
theorem Proper.pickRows {f : Frame} (hf : f.Proper) (rows : List Nat) :
    (f.pickRows rows).Proper := by
  constructor
  · intro d hd
    obtain ⟨c, -, rfl⟩ := List.mem_map.mp hd
    simp [Column.pick, Frame.pickRows]
  · intro d hd x hx
    obtain ⟨c, hc, rfl⟩ := List.mem_map.mp hd
    obtain ⟨i, -, rfl⟩ := List.mem_map.mp hx
    show c.dtype.holds _ = true
    simpa [Column.cell] using hf.holds_cell hc i

/-- Picking the rows in which a column passes a test keeps, in their order, the rows
  beside whose cell the test is passed. -/
theorem Proper.rows_pickRows_filter {f : Frame} (hf : f.Proper) {c : Column}
    (hc : c ∈ f.columns) (test : Cell → Bool) :
    (f.pickRows ((List.range f.height).filter fun i => test (c.cell i))).rows
      = ((f.rows.zip c.cells).filter fun row => test row.2).map Prod.fst := by
  rw [rows_pickRows, rows, keyRows_eq, hf.cells_eq hc, List.zip_map', List.filter_map, List.map_map]
  rfl

end Frame

end SheetScript
