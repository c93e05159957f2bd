import SheetScript.Edit.Files
import SheetScript.Edit.Merge
import SheetScript.Edit.Pivot
import SheetScript.Proofs.Edit.Basic

/-! # Edits that make sheets follow their code

  Imports, merges and pivot tables make frames in which no header stands twice.
  They put them on new sheets by a block; a pivot table can also take the place of
  a sheet.
-/

namespace SheetScript

open Symbolic

variable {s : State} {c : Change} {ids : Prop}

/-! ### Frames -/

theorem Csv.columnAt_header {h : Header} {rows : List (List (List Char))} {i : Nat} {c : Column}
    (hc : Csv.columnAt h rows i = .ok c) : c.header = h := by
  unfold Csv.columnAt at hc
  dsimp only at hc
  split at hc
  · rw [← Except.ok.inj hc]
  · cases hc

theorem Csv.headers_read {text : String} {f : Frame} (h : Csv.read text = .ok f) :
    f.headers.Nodup := by
  unfold Csv.read at h
  dsimp only at h
  split at h
  · simp at h
  · next first rest _ =>
    simp only [throw_ite_eq_ok, bind_eq_ok, pure_eq_ok, mapM_eq_ok] at h
    obtain ⟨hnd, -, columns, hcolumns, rfl⟩ := h
    have hheaders : columns.map Column.header = (Csv.distinctHeaders ((withoutReturn first).map
        fun f => String.ofList (unwrapped f))).zipIdx.map Prod.fst := by
      clear hnd
      generalize (Csv.distinctHeaders _).zipIdx = l at hcolumns ⊢
      induction hcolumns with
      | nil => rfl
      | cons hc _ ih => rw [List.map_cons, List.map_cons, ih, Csv.columnAt_header hc]
    rw [Frame.headers, hheaders, List.zipIdx_map_fst]
    exact nodup_of_length_eraseDups (by simpa using hnd)

theorem Csv.headers_load {d : Disk} {path : String} {f : Frame} (h : Csv.load d path = .ok f) :
    f.headers.Nodup := by
  unfold Csv.load at h
  dsimp only at h
  split at h
  · next g hread =>
    obtain rfl := Except.ok.inj h
    split at hread
    · exact Csv.headers_read hread
    · cases hread
    · cases hread
  · cases h

theorem Frame.headers_distinct {columns : List Column} {height : Nat} {f : Frame}
    (h : Frame.distinct columns height = .ok f) : f.headers.Nodup := by
  obtain ⟨hnd, rfl⟩ := Frame.distinct_eq_ok.mp h
  exact hnd

theorem Frame.headers_selectAs {f g : Frame} {names : List (Header × Header)}
    (h : f.selectAs names = .ok g) : g.headers.Nodup := by
  simp only [Frame.selectAs, bind_eq_ok] at h
  obtain ⟨columns, -, hdistinct⟩ := h
  exact Frame.headers_distinct hdistinct

theorem Merge.headers_combined {e : Merge} {p : Merge.Plan} {left right f : Frame}
    (h : e.combined p left right = .ok f) : f.headers.Nodup := by
  unfold Merge.combined at h
  split at h
  · exact Frame.headers_selectAs h
  · exact Frame.headers_selectAs h
  · obtain ⟨joined, -, lefts, -, rights, -, merged, hmerged, h⟩ := by
      simpa only [bind_eq_ok] using h
    have hnd := Frame.headers_distinct hmerged
    split at h
    · simp only [bind_eq_ok, pure_eq_ok] at h
      obtain ⟨keys, -, rfl⟩ := h
      rw [Merge.sortedBy, Frame.headers_pickRows]
      exact hnd
    · simp only [pure_eq_ok] at h
      exact h ▸ hnd

theorem Merge.headers_frame {e : Merge} {p : Merge.Plan} {one two f : Frame}
    (h : e.frame p one two = .ok f) : f.headers.Nodup := by
  unfold Merge.frame at h
  simp only [bind_eq_ok, throw_ite_eq_ok] at h
  obtain ⟨left, -, right, -, leftKeys, -, rightKeys, -, -, h⟩ := h
  exact Merge.headers_combined h

theorem Pivot.headers_frame {e : Pivot} {l : Pivot.Layout} {f out : Frame}
    (h : e.frame l f = .ok out) : out.headers.Nodup := by
  unfold Pivot.frame at h
  simp only [bind_eq_ok, throw_ite_eq_ok] at h
  obtain ⟨split, -, headers, -, tested, -, names, -, -, rows, -, values, -, hdistinct⟩ := h
  exact Frame.headers_distinct hdistinct

/-! ### Pivot tables of columns that are named by their headers -/

namespace Pivot

/-- Whether no cell of a key is missing. -/
def isComplete (key : List Cell) : Bool := key.all fun c => !c.isMissing

/-- The groups of a pivot table. -/
def groupsOf (rows columns : List Column) (height : Nat) : List Group :=
  Group.sorted (((Frame.keyRows rows height).zip (Frame.keyRows columns height)).zipIdx.filterMap
    fun r => if isComplete r.1.1 && isComplete r.1.2 then some (r.1.1, r.2) else none)

/-- The combinations, with the text of each row. -/
def splitOf (columns : List Column) (height : Nat) :
    Option (List String × Array (Option String)) :=
  if columns.isEmpty then none
  else some (combinations columns [] height,
    ((Frame.keyRows columns height).map (keyText columns)).toArray)

/-- Without combinations the rows need no texts. -/
def trimmed (parts : List String × Array (Option String)) : List String × Array (Option String) :=
  if parts.1.isEmpty then ([], #[]) else parts

/-- The columns of the keys of some groups. -/
def keyed (rows : List Column) (groups : List Group) : List Column :=
  rows.zipIdx.map fun c => { c.1 with cells := groups.map fun g => g.key[c.2]?.getD .missing }

/-- The table of columns. -/
def assembled (e : Pivot) (columns rows : List Column) (values : List (Column × List Aggregation))
    (height : Nat) : Frame :=
  let groups := groupsOf rows columns height
  ⟨keyed rows groups ++ values.flatMap fun v => v.2.flatMap fun a =>
    e.aggregated v.1 a groups (splitOf columns height), groups.length⟩

variable {e : Pivot} {l : Layout} {f out : Frame} {hs : List Header} {columns rows : List Column}

theorem textColumns_of_verbatim (hverbatim : ∀ k ∈ hs, isPattern k = false) :
    textColumns f hs = .ok columns ↔ hs ≠ []
      ∧ List.Forall₂ (fun k c => f.column k = .ok c) hs columns
      ∧ ∀ c ∈ columns, c.dtype ≠ .duration := by
  rw [textColumns, Frame.namedAll_of_verbatim hverbatim]
  simp only [bind_eq_ok, Except.ok.injEq, exists_eq_left', mapM_eq_ok, throw_ite_eq_ok, pure_eq_ok,
    Bool.or_eq_true, List.any_eq_true, decide_eq_true_eq, not_or, not_exists, not_and]
  constructor
  · rintro ⟨cs, hcs, ⟨hsome, hd⟩, rfl⟩
    rw [Frame.isEmpty_columns hcs, List.isEmpty_iff] at hsome
    exact ⟨hsome, hcs, hd⟩
  · rintro ⟨hsome, hcs, hd⟩
    refine ⟨columns, hcs, ⟨?_, hd⟩, rfl⟩
    rwa [Frame.isEmpty_columns hcs, List.isEmpty_iff]

/-- The key columns of a table alone are those of the table. -/
theorem texts_of_verbatim (hverbatim : ∀ k ∈ hs, isPattern k = false) {found : List String} :
    texts f hs = .ok found ↔ hs.Nodup ∧ ∃ columns,
      List.Forall₂ (fun k c => f.column k = .ok c) hs columns
        ∧ (∀ c ∈ columns, c.dtype ≠ .duration)
        ∧ found = if hs.isEmpty then [] else combinations columns [] f.height := by
  unfold texts
  by_cases hnone : hs = []
  · subst hnone
    constructor
    · intro h
      exact ⟨List.nodup_nil, [], .nil, fun _ hc => absurd hc List.not_mem_nil, (Except.ok.inj h).symm⟩
    · rintro ⟨-, columns, hcs, -, rfl⟩
      rfl
  have hsome : ¬ hs.isEmpty = true := by rwa [List.isEmpty_iff]
  simp only [if_neg hsome, bind_eq_ok, pure_eq_ok, Frame.select_eq_ok]
  -- every column of the table alone is a key
  have hothers : ∀ cs : List Column, (cs.filter fun c => c.header ∉ cs.map Column.header) = [] := by
    intro cs
    refine List.filter_eq_nil_iff.mpr fun c hc => ?_
    simpa using ⟨c, hc, rfl⟩
  constructor
  · rintro ⟨g, ⟨hnd, cs, hcs, rfl⟩, ds, hds, rfl⟩
    obtain ⟨-, hds, hd⟩ := (textColumns_of_verbatim hverbatim).mp hds
    obtain rfl := Frame.columns_unique (Frame.columns_alone hnd hcs) hds
    exact ⟨hnd, cs, hcs, hd, by rw [hothers]⟩
  · rintro ⟨hnd, cs, hcs, hd, rfl⟩
    have halone := (textColumns_of_verbatim hverbatim).mpr
      ⟨hnone, Frame.columns_alone hnd hcs, hd⟩
    exact ⟨_, ⟨hnd, cs, hcs, rfl⟩, cs, halone, by rw [hothers]⟩

theorem split_of_verbatim (hverbatim : ∀ k ∈ hs, isPattern k = false)
    {parts : Option (List String × Array (Option String))} :
    split f hs = .ok parts ↔ hs.Nodup ∧ ∃ columns,
      List.Forall₂ (fun k c => f.column k = .ok c) hs columns
        ∧ (∀ c ∈ columns, c.dtype ≠ .duration)
        ∧ parts = (splitOf columns f.height).map trimmed := by
  unfold split splitOf
  by_cases hnone : hs = []
  · subst hnone
    constructor
    · intro h
      exact ⟨List.nodup_nil, [], .nil, fun _ hc => absurd hc List.not_mem_nil, (Except.ok.inj h).symm⟩
    · rintro ⟨-, columns, hcs, -, rfl⟩
      cases hcs
      rfl
  have hsome : ¬ hs.isEmpty = true := by rwa [List.isEmpty_iff]
  simp only [if_neg hsome, bind_eq_ok]
  constructor
  · rintro ⟨found, hfound, h⟩
    obtain ⟨hnd, columns, hcs, hd, rfl⟩ := (texts_of_verbatim hverbatim).mp hfound
    refine ⟨hnd, columns, hcs, hd, ?_⟩
    rw [if_neg hsome] at h
    rw [Frame.isEmpty_columns hcs, if_neg hsome, Option.map_some, trimmed]
    split at h
    · next hempty =>
      rw [if_pos hempty]
      exact (Except.ok.inj h).symm
    · next hempty =>
      simp only [bind_eq_ok, pure_eq_ok, textColumns_of_verbatim hverbatim] at h
      obtain ⟨cs, ⟨-, hcs', -⟩, rfl⟩ := h
      obtain rfl := Frame.columns_unique hcs hcs'
      rw [if_neg hempty]
  · rintro ⟨hnd, columns, hcs, hd, rfl⟩
    refine ⟨_, (texts_of_verbatim hverbatim).mpr ⟨hnd, columns, hcs, hd, rfl⟩, ?_⟩
    rw [if_neg hsome, Frame.isEmpty_columns hcs, if_neg hsome, Option.map_some, trimmed]
    by_cases hempty : (combinations columns [] f.height).isEmpty = true
    · rw [if_pos hempty, if_pos hempty]
      rfl
    · rw [if_neg hempty, if_neg hempty]
      simp only [bind_eq_ok, pure_eq_ok, textColumns_of_verbatim hverbatim]
      exact ⟨columns, ⟨hnone, hcs, hd⟩, rfl⟩

/-- Without combinations no column is made. -/
theorem aggregated_trimmed (c : Column) (a : Aggregation) (groups : List Group)
    (parts : Option (List String × Array (Option String))) :
    e.aggregated c a groups (parts.map trimmed)
      = e.aggregated c a groups parts := by
  obtain _ | ⟨found, texts⟩ := parts
  · rfl
  · cases found with
    | nil => rfl
    | cons k found => rfl

theorem valueColumns_of_verbatim {names : List Header} {v : Header × List Aggregation}
    (hverbatim : isPattern v.1 = false) {ws : List (Column × List Aggregation)} :
    valueColumns f names v = .ok ws ↔ ∃ c, f.column v.1 = .ok c ∧ ws = [(c, v.2)] := by
  rw [valueColumns, Frame.named_of_verbatim hverbatim]
  simp only [bind_eq_ok, Except.ok.injEq, exists_eq_left', mapM_eq_ok, pure_eq_ok]
  constructor
  · intro h
    obtain _ | ⟨⟨c, hc, rfl⟩, hrest⟩ := h
    cases hrest
    refine ⟨c, hc, ?_⟩
    rw [← (Frame.column_eq_ok hc).2]
  · rintro ⟨c, hc, rfl⟩
    refine .cons ⟨c, hc, ?_⟩ .nil
    rw [← (Frame.column_eq_ok hc).2]

/-- The rows that count, by the keys of both kinds at once. -/
theorem groupsOf_eq (rows columns : List Column) (height : Nat) :
    Group.sorted (((Frame.keyRows rows height).zip
        (Frame.keyRows (rows ++ columns) height)).zipIdx.filterMap
          fun r => if (r.1.2.all fun c => !c.isMissing) then some (r.1.1, r.2) else none)
      = groupsOf rows columns height := by
  unfold groupsOf isComplete
  congr 1
  rw [Frame.keyRows_eq, Frame.keyRows_eq, Frame.keyRows_eq, List.zip_map', List.zip_map',
    List.zipIdx_map, List.zipIdx_map, List.filterMap_map, List.filterMap_map]
  refine List.filterMap_congr fun r _ => ?_
  simp only [Function.comp_apply, Prod.map, List.map_append, List.all_append, id_eq]

theorem mapM_valueColumns_of_verbatim {names : List Header} {vs : List (Header × List Aggregation)}
    (hverbatim : ∀ v ∈ vs, isPattern v.1 = false) {wss : List (List (Column × List Aggregation))} :
    vs.mapM (valueColumns f names) = .ok wss ↔ ∃ values,
      List.Forall₂ (fun v w => f.column v.1 = .ok w.1 ∧ w.2 = v.2) vs values
        ∧ wss = values.map fun w => [w] := by
  rw [mapM_eq_ok]
  induction vs generalizing wss with
  | nil =>
    constructor
    · intro h
      cases h
      exact ⟨[], .nil, rfl⟩
    · rintro ⟨values, h, rfl⟩
      cases h
      exact .nil
  | cons v vs ih =>
    obtain ⟨hv, hvs⟩ := List.forall_mem_cons.mp hverbatim
    constructor
    · intro h
      obtain _ | ⟨hfirst, hrest⟩ := h
      obtain ⟨c, hc, rfl⟩ := (valueColumns_of_verbatim hv).mp hfirst
      obtain ⟨values, hvalues, rfl⟩ := (ih hvs).mp hrest
      exact ⟨(c, v.2) :: values, .cons ⟨hc, rfl⟩ hvalues, rfl⟩
    · rintro ⟨values, h, rfl⟩
      obtain _ | ⟨⟨hc, hsame⟩, hrest⟩ := h
      refine .cons ((valueColumns_of_verbatim hv).mpr ⟨_, hc, ?_⟩) ((ih hvs).mpr ⟨_, hrest, rfl⟩)
      rw [← hsame]

/-- A pivot table of columns that are named by their headers is accepted if the columns are
  there, none of its column keys is a duration, and no header stands twice. -/
theorem frame_eq_ok (hverbatim : ∀ k ∈ l.rows ++ l.columns ++ l.values.map Prod.fst,
      isPattern k = false) :
    e.frame l f = .ok out ↔ l.rows ≠ [] ∧ l.columns.Nodup
    ∧ ∃ columns rows values, List.Forall₂ (fun k c => f.column k = .ok c) l.columns columns
      ∧ (∀ c ∈ columns, c.dtype ≠ .duration)
      ∧ List.Forall₂ (fun k c => f.column k = .ok c) l.rows rows
      ∧ List.Forall₂ (fun v w => f.column v.1 = .ok w.1 ∧ w.2 = v.2) l.values values
      ∧ e.assembled columns rows values f.height = out ∧ out.headers.Nodup := by
  obtain ⟨hkeys, hvalues⟩ := List.forall_mem_append.mp hverbatim
  obtain ⟨hrows, hcolumns⟩ := List.forall_mem_append.mp hkeys
  have hvalues : ∀ v ∈ l.values, isPattern v.1 = false := fun v hv =>
    hvalues v.1 (List.mem_map_of_mem hv)
  have hflat : ∀ values : List (Column × List Aggregation),
      (values.map fun w => [w]).flatten = values := fun values => by
    rw [← List.flatMap_def, List.flatMap_singleton']
  unfold frame
  rw [Frame.namedOnce_of_verbatim hkeys, Frame.namedAll_of_verbatim hrows]
  simp only [bind_eq_ok, Except.ok.injEq, exists_eq_left', throw_ite_eq_ok, List.isEmpty_iff,
    split_of_verbatim hcolumns, List.mapM_append, mapM_valueColumns_of_verbatim hvalues,
    Frame.distinct_eq_ok, pure_eq_ok]
  simp only [mapM_eq_ok]
  constructor
  · rintro ⟨_, ⟨hcnd, columns, hcs, hd, rfl⟩, _, ⟨rows, hrs, columns', hcs', rfl⟩, hsome, rows',
      hrs', _, ⟨values, hvs, rfl⟩, hnd, rfl⟩
    obtain rfl := Frame.columns_unique hcs hcs'
    obtain rfl := Frame.columns_unique hrs hrs'
    simp only [hflat, aggregated_trimmed, groupsOf_eq] at hnd ⊢
    exact ⟨hsome, hcnd, columns, rows, values, hcs, hd, hrs, hvs, rfl, hnd⟩
  · rintro ⟨hsome, hcnd, columns, rows, values, hcs, hd, hrs, hvs, rfl, hnd⟩
    refine ⟨_, ⟨hcnd, columns, hcs, hd, rfl⟩, _, ⟨rows, hrs, columns, hcs, rfl⟩, hsome, rows, hrs,
      _, ⟨values, hvs, rfl⟩, ?_⟩
    simp only [hflat, aggregated_trimmed, groupsOf_eq]
    exact ⟨hnd, rfl⟩

theorem headers_keyed (rows : List Column) (groups : List Group) :
    (keyed rows groups).map Column.header = rows.map Column.header := by
  have hfirst : (keyed rows groups).map Column.header
      = (rows.zipIdx.map Prod.fst).map Column.header := by
    unfold keyed
    rw [List.map_map, List.map_map]
    rfl
  rw [hfirst, List.zipIdx_map_fst]

/-- Ids are given to the headers of the table. -/
theorem headers_eq_ok (hverbatim : ∀ k ∈ l.rows ++ l.columns ++ l.values.map Prod.fst,
      isPattern k = false) (h : e.frame l f = .ok out) : e.headers l f = .ok out.headers := by
  obtain ⟨-, hcnd, columns, rows, values, hcs, hd, hrs, hvs, rfl, -⟩ := (frame_eq_ok hverbatim).mp h
  have hcolumns : ∀ k ∈ l.columns, isPattern k = false := fun k hk =>
    hverbatim k (List.mem_append_left _ (List.mem_append_right _ hk))
  unfold headers
  rw [(texts_of_verbatim hcolumns).mpr ⟨hcnd, columns, hcs, hd, rfl⟩]
  refine bind_eq_ok.mpr ⟨_, rfl, congrArg Except.ok ?_⟩
  unfold assembled Frame.headers
  rw [List.map_append, headers_keyed, Frame.headers_of_columns hrs, List.map_flatMap]
  refine congrArg (l.rows ++ ·) ?_
  rw [List.flatMap_def, List.flatMap_def]
  refine congrArg List.flatten (map_eq_of_forall₂ hvs fun v w hvw => ?_).symm
  rw [hvw.2, List.map_flatMap]
  refine List.flatMap_congr fun a _ => ?_
  have hheader : w.1.header = v.1 := (Frame.column_eq_ok hvw.1).2
  unfold splitOf aggregated
  rw [Frame.isEmpty_columns hcs]
  by_cases hnone : l.columns.isEmpty = true
  · rw [if_pos hnone, if_pos hnone, ← hheader]
    rfl
  · rw [if_neg hnone, if_neg hnone, if_neg hnone, ← hheader, List.map_map]
    rfl

end Pivot

/-! ### New sheets -/

/-- A frame on a new sheet under a free name. -/
theorem State.Sound.mint (hs : s.Sound) {f : Frame} (hnd : f.headers.Nodup) (base : String) :
    ((s.mint (s.uniqueName base) f).2.push (s.mint (s.uniqueName base) f).1).Sound :=
  (hs.push (.ofFrame ⟨s.nextId⟩ (s.uniqueName base) hnd) (s.mint (s.uniqueName base) f).2 rfl rfl
    rfl rfl (s.uniqueName_not_mem base) (s.isVariableName_uniqueName base)).1

/-- A block that makes one sheet of a frame. -/
theorem Change.Follows.minted {b : Block} {f : Frame} (base : String) (hs : s.Sound)
    (hnd : f.headers.Nodup)
    (hout : b.outputs = [(s.mint (s.uniqueName base) f).1.blockOutput])
    (hdeletes : b.footprint.deletes = []) (hcreates : b.footprint.creates = [⟨s.nextId⟩]) :
    Change.Follows ids s
      ⟨(s.mint (s.uniqueName base) f).2.push (s.mint (s.uniqueName base) f).1, [.block b]⟩ := by
  refine .added [(s.mint (s.uniqueName base) f).1] hs (hs.mint hnd base) rfl hout hdeletes
    fun t => ?_
  rw [hcreates, List.mem_singleton]
  constructor
  · rintro rfl
    exact ⟨_, List.mem_singleton.mpr rfl, rfl⟩
  · rintro ⟨sh, hsh, rfl⟩
    rw [List.mem_singleton.mp hsh]
    rfl

theorem Merge.follows {e : Merge} (hs : s.Sound) (h : e.run s = .ok c) : c.Follows ids s := by
  unfold Merge.run at h
  simp only [bind_eq_ok, pure_eq_ok] at h
  obtain ⟨one, -, two, -, p, -, f, hf, rfl⟩ := h
  exact .minted "df_merge" hs (Merge.headers_frame hf) rfl rfl rfl

/-- What a layout names are headers of the columns that are read. -/
theorem Pivot.layout_headers {e : Pivot} {source : Sheet} {l : Pivot.Layout}
    (h : e.layout source = .ok l) {k : Header}
    (hk : k ∈ l.rows ++ l.columns ++ l.values.map Prod.fst) :
    ∃ id ∈ e.rows ++ e.columns ++ Dictionary.keys e.values,
      source.columns.header? id = some k := by
  unfold Pivot.layout at h
  simp only [throw_ite_eq_ok, bind_eq_ok, pure_eq_ok, mapM_eq_ok, Sheet.headersFor_eq_ok] at h
  obtain ⟨-, -, rows, hrows, columns, hcolumns, values, hvalues, rfl⟩ := h
  simp only [List.mem_append] at hk ⊢
  rcases hk with (hk | hk) | hk
  · obtain ⟨id, hid, hheader⟩ := exists_of_mem_right hrows hk
    exact ⟨id, .inl (.inl hid), hheader⟩
  · obtain ⟨id, hid, hheader⟩ := exists_of_mem_right hcolumns hk
    exact ⟨id, .inl (.inr hid), hheader⟩
  · obtain ⟨value, hvalue, rfl⟩ := List.mem_map.mp hk
    obtain ⟨found, hfound, hsome⟩ := List.mem_filterMap.mp hvalue
    obtain rfl : found = some value := hsome
    obtain ⟨v, hv, hof⟩ := exists_of_mem_right hvalues hfound
    unfold Pivot.valueOf at hof
    split at hof
    · simp at hof
    · simp only [throw_ite_eq_ok, bind_eq_ok, pure_eq_ok, Sheet.header_eq_ok,
        Option.some.injEq] at hof
      obtain ⟨-, header, hheader, rfl⟩ := hof
      exact ⟨v.1, .inr (List.mem_map_of_mem hv), hheader⟩

/-- A pivot table in place of a sheet has an id for each of its headers where none of those that
  it is made from is a pattern. -/
theorem Pivot.follows {e : Pivot} (hs : s.Sound) (hp : e.destination.isSome = true → s.Verbatim)
    (h : e.run s = .ok c) : c.Follows ids s := by
  unfold Pivot.run at h
  simp only [bind_eq_ok] at h
  obtain ⟨source, hsource, l, hl, f, hf, h⟩ := h
  have hnd := Pivot.headers_frame hf
  split at h
  · next i hi =>
    simp only [bind_eq_ok, pure_eq_ok] at h
    obtain ⟨target, htarget, headers, hheaders, rfl⟩ := h
    have hmem := State.sheet_mem hsource
    have hverbatim : ∀ k ∈ l.rows ++ l.columns ++ l.values.map Prod.fst, isPattern k = false := by
      intro k hk
      obtain ⟨id, -, hid⟩ := Pivot.layout_headers hl hk
      exact (hp (hi ▸ rfl) source hmem).frame k ((hs.sheets source hmem).columns.mem hid)
    obtain rfl : headers = f.headers :=
      Except.ok.inj (hheaders.symm.trans (Pivot.headers_eq_ok hverbatim hf))
    have hafter := (Sheet.Sound.withData target hnd (.ofHeaders hnd)).withFormulas []
      fun _ hid => by cases hid
    refine .rewrite hs htarget rfl rfl hafter rfl ?_
    simp only [Pivot.block, hi]
    exact Footprint.rewrites_write _ rfl rfl rfl
  · next hnone =>
    simp only [pure_eq_ok] at h
    subst h
    refine .minted (source.name ++ "_pivot") hs hnd rfl ?_ ?_
    · simp only [Pivot.block, hnone]
      rfl
    · simp only [Pivot.block, hnone]
      rfl

/-! ### Imports -/

theorem ImportFiles.id?_legacyColumns (headers : List Header) (h : Header) :
    (ImportFiles.legacyColumns headers).id? h
      = if h ∈ headers then some ⟨Naming.legacyHeader h⟩ else none := by
  have key : ∀ (hs : List Header) (m : ColumnIds),
      (hs.foldl (fun m h => m.insertWithId ⟨Naming.legacyHeader h⟩ h) m).id? h
        = if h ∈ hs then some ⟨Naming.legacyHeader h⟩ else m.id? h := by
    intro hs
    induction hs with
    | nil => exact fun m => rfl
    | cons k rest ih =>
      intro m
      rw [List.foldl_cons, ih, ColumnIds.id?_insertWithId]
      by_cases hr : h ∈ rest
      · simp [hr]
      · by_cases hk : k = h
        · simp [hr, hk]
        · simp [hr, hk, Ne.symm hk]
  exact key headers {}

/-- Legacy ids that differ belong to the headers one to one. -/
theorem ImportFiles.sound_legacyColumns {headers : List Header} (hnd : headers.Nodup)
    (hids : (headers.filterMap (ImportFiles.legacyColumns headers).id?).Nodup) :
    (ImportFiles.legacyColumns headers).Sound headers := by
  have hpairs : ((headers.map fun h => ((⟨Naming.legacyHeader h⟩ : ColumnId), h)).map
      Prod.fst).Nodup := by
    rw [List.filterMap_congr fun h hh => (ImportFiles.id?_legacyColumns headers h).trans (if_pos hh),
      List.filterMap_eq_map'] at hids
    rw [List.map_map]
    exact hids
  have h := ColumnIds.Sound.empty.insertPairs hpairs (by simpa [Function.comp_def] using hnd)
    fun _ _ => ⟨rfl, List.not_mem_nil⟩
  rw [List.foldl_map, List.map_map, List.append_nil] at h
  simpa [ImportFiles.legacyColumns, Function.comp_def] using h

/-- No two columns of an imported sheet have one id. -/
def ImportFiles.Apart (e : ImportFiles) (sheets : List Sheet) : Prop :=
  e.legacyIds = true → ∀ sh ∈ sheets, sh.columnIds.Nodup

/-- The state grew by some sheets, and it is sound if their ids are apart. -/
def ImportFiles.Grown (e : ImportFiles) (s : State) (acc : State × List Sheet) : Prop :=
  (e.Apart acc.2 → acc.1.Sound) ∧ acc.1.sheets = s.sheets ++ acc.2

theorem ImportFiles.grown_addFile {e : ImportFiles} {d : Disk} {path : String}
    {acc next : State × List Sheet} (hacc : e.Grown s acc)
    (h : e.addFile d acc path = .ok next) : e.Grown s next := by
  simp only [ImportFiles.addFile, bind_eq_ok, pure_eq_ok] at h
  obtain ⟨f, hf, rfl⟩ := h
  have hnd := Csv.headers_load hf
  refine ⟨fun hapart => ?_, ?_⟩
  · have hsound := hacc.1 fun hl sh hsh => hapart hl sh (List.mem_append_left _ hsh)
    refine (hsound.push ?_ (acc.1.mint (acc.1.uniqueName (ImportFiles.baseName path)) f).2 rfl rfl
      rfl ?_ ?_ ?_).1
    · split
      · next hl =>
        have hids := hapart hl _ (List.mem_append_right _ (List.mem_singleton.mpr rfl))
        rw [if_pos hl] at hids
        exact ⟨hnd, ImportFiles.sound_legacyColumns hnd hids, fun _ hid => by cases hid⟩
      · exact .ofFrame _ _ hnd
    · split <;> rfl
    · split <;> exact acc.1.uniqueName_not_mem _
    · split <;> exact acc.1.isVariableName_uniqueName _
  · show acc.1.sheets ++ [_] = s.sheets ++ (acc.2 ++ [_])
    rw [hacc.2, List.append_assoc]

/-- The sheets that code is declared to create. -/
theorem ImportFiles.foldl_create (sheets : List Sheet) (f : Footprint) :
    (∀ t, t ∈ (sheets.foldl (fun f sheet => f.create sheet.id) f).creates
        ↔ (∃ sh ∈ sheets, sh.id = t) ∨ t ∈ f.creates)
      ∧ (sheets.foldl (fun f sheet => f.create sheet.id) f).deletes = f.deletes := by
  induction sheets generalizing f with
  | nil => simp
  | cons sheet rest ih =>
    obtain ⟨hcreates, hdeletes⟩ := ih (f.create sheet.id)
    refine ⟨fun t => ?_, hdeletes⟩
    rw [List.foldl_cons, hcreates, Footprint.create, Roster.mem_insert, List.exists_mem_cons_iff]
    grind

theorem ImportFiles.follows {e : ImportFiles} {d : Disk} (hs : s.Sound)
    (h : e.run d s = .ok c) (hapart : e.Apart c.state.sheets) : c.Follows ids s := by
  unfold ImportFiles.run at h
  simp only [throw_ite_eq_ok, bind_eq_ok, pure_eq_ok] at h
  obtain ⟨-, ⟨next, sheets⟩, hnext, rfl⟩ := h
  have hstart : e.Grown s (s, []) := ⟨fun _ => hs, (List.append_nil _).symm⟩
  obtain ⟨hsound, hsheets⟩ := foldlM_keeps
    (fun _ hacc hfile => ImportFiles.grown_addFile hacc hfile) hstart hnext
  have hnew : e.Apart sheets := fun hl sh hsh =>
    hapart hl sh (hsheets ▸ List.mem_append_right _ hsh)
  obtain ⟨hcreates, hdeletes⟩ := ImportFiles.foldl_create sheets {}
  refine .added sheets hs (hsound hnew) hsheets rfl hdeletes fun t => ?_
  refine (hcreates t).trans ?_
  simp

end SheetScript
