import SheetScript.Edit.Merge
import SheetScript.Proofs.Coverage.Tables
import SheetScript.Proofs.State.Sheets
import SheetScript.Proofs.Table.Join

/-! # Merged rows

  The rows of a merge are given by pairs: a left row beside a right one, or one of them
  alone.  A row shows the left columns, where a key that both sides share shows the side
  that has it, and then the right columns.

  Main statement: `Merge.laws`.
-/

namespace SheetScript

/-- The cell under a header in a row; where there is no row the cell is missing. -/
def Frame.cellAt (f : Frame) (h : Header) (row : Option Nat) : Cell :=
  (row.bind fun i => (f.column? h).map fun c => c.cell i).getD .missing

theorem Frame.column_eq_ok_iff {f : Frame} {h : Header} {c : Column} :
    f.column h = .ok c ↔ f.column? h = some c := by
  unfold Frame.column
  cases f.column? h <;> simp

theorem Frame.cellAt_eq {f : Frame} {h : Header} {c : Column} (hc : f.column h = .ok c)
    (row : Option Nat) : f.cellAt h row = (row.map c.cell).getD .missing := by
  unfold Frame.cellAt
  rw [Frame.column_eq_ok_iff.mp hc]
  cases row <;> rfl

namespace Merge

namespace Plan

variable (p : Plan) (one two : Frame)

/-- The headers that a merge hands to expressions. -/
def names : List Header :=
  p.leftKeys ++ p.rightKeys ++ (p.left ++ p.right).flatMap fun c => [c.input, c.output]

/-- No header of a merge is a pattern, or the name of the copy of a key of the other side. -/
structure Plain : Prop where
  verbatim : ∀ h ∈ p.names, isPattern h = false
  left : ∀ c ∈ p.left, c.output ∉ (List.range p.rightKeys.length).map rightCopy
  right : ∀ c ∈ p.right, c.output ∉ (List.range p.leftKeys.length).map leftCopy

instance : Decidable p.Plain :=
  decidable_of_iff
    ((∀ h ∈ p.names, isPattern h = false)
      ∧ (∀ c ∈ p.left, c.output ∉ (List.range p.rightKeys.length).map rightCopy)
      ∧ ∀ c ∈ p.right, c.output ∉ (List.range p.leftKeys.length).map leftCopy)
    ⟨fun h => ⟨h.1, h.2.1, h.2.2⟩, fun h => ⟨h.verbatim, h.left, h.right⟩⟩

/-- Whether both sides share a key column. -/
def isFolded (h : Header) : Bool := (p.leftKeys.zip p.rightKeys).contains (h, h)

theorem isFolded_eq (h : Header) :
    p.isFolded h = decide ((h, h) ∈ p.leftKeys.zip p.rightKeys) := List.contains_eq_mem _ _

theorem mem_of_isFolded {h : Header} (hfolded : p.isFolded h = true) :
    (h, h) ∈ p.leftKeys.zip p.rightKeys := by
  rw [isFolded_eq] at hfolded
  exact of_decide_eq_true hfolded

/-- The cell of a left column in a merged row; a key that both sides share is taken from
  the side that has it. -/
def leftCell (h : Header) (pair : Join.RowPair) : Cell :=
  let own := one.cellAt h pair.left
  if p.isFolded h && own.isMissing then two.cellAt h pair.right else own

/-- The columns of a merged row as functions of the pair. -/
def cells : List (Join.RowPair → Cell) :=
  p.left.map (fun c => p.leftCell one two c.input)
    ++ p.right.map fun c pair => two.cellAt c.input pair.right

/-- The columns that a kind of merge shows: their headers, and their cells as functions of the
  pair of rows. -/
def outputs : MergeKind → List (Header × (Join.RowPair → Cell))
  | .leftOnly => p.left.map fun c => (c.input, fun pair => one.cellAt c.input pair.left)
  | .rightOnly => (rightOutputs p).map fun n => (n.2, fun pair => two.cellAt n.2 pair.right)
  | _ =>
    p.left.map (fun c => (c.output, p.leftCell one two c.input))
      ++ p.right.map fun c => (c.output, fun pair => two.cellAt c.input pair.right)

/-- A kind that keeps the columns of both sides shows the left ones and then the right ones. -/
theorem outputs_both {kind : MergeKind} (hleft : kind ≠ .leftOnly) (hright : kind ≠ .rightOnly) :
    p.outputs one two kind = p.left.map (fun c => (c.output, p.leftCell one two c.input))
      ++ p.right.map fun c => (c.output, fun pair => two.cellAt c.input pair.right) := by
  unfold outputs
  split
  · exact absurd rfl hleft
  · exact absurd rfl hright
  · rfl

/-- The merged row of a pair. -/
def row (pair : Join.RowPair) : List Cell := (p.cells one two).map fun cell => cell pair

/-- The key of a left row. -/
def leftKey (i : Nat) : Join.Key := p.leftKeys.map fun h => one.cellAt h (some i)

/-- The key of a right row. -/
def rightKey (j : Nat) : Join.Key := p.rightKeys.map fun h => two.cellAt h (some j)

end Plan

/-! ### Columns of cells -/

/-- Rows of columns under their headers. -/
theorem keyRows_of_columns {f : Frame} {hs : List Header} {columns : List Column}
    (h : List.Forall₂ (fun k c => f.column k = .ok c) hs columns) (height : Nat) :
    Frame.keyRows columns height
      = (List.range height).map fun i => hs.map fun k => f.cellAt k (some i) := by
  rw [Frame.keyRows_eq]
  refine List.map_congr_left fun i _ => map_eq_of_forall₂ h fun k c hc => ?_
  rw [Frame.cellAt_eq hc]
  rfl

/-- Rows of a proper frame have keys of the kinds of the columns. -/
theorem keyed_of_columns {f : Frame} (hf : f.Proper) {hs : List Header} {columns : List Column}
    (h : List.Forall₂ (fun k c => f.column k = .ok c) hs columns) (row : Nat) :
    Join.Keyed (columns.map fun c => c.dtype.kind) (hs.map fun k => f.cellAt k (some row)) := by
  refine List.forall₂_map_left_iff.mpr (List.forall₂_map_right_iff.mpr ?_)
  refine h.flip.imp fun c k hc => ?_
  rw [Frame.cellAt_eq hc]
  exact Cell.isOf_of_holds (hf.holds_cell (Frame.column_eq_ok hc).1 row)

/-- Rows of columns whose cells are functions of what the rows stand for. -/
theorem keyRows_of_cells {α : Type} {gs : List (α → Cell)} {columns : List Column}
    {items : List α} (h : List.Forall₂ (fun g (d : Column) => d.cells = items.map g) gs columns) :
    Frame.keyRows columns items.length = items.map fun item => gs.map fun g => g item := by
  rw [Frame.keyRows_eq]
  refine List.ext_getElem (by simp) fun k hk _ => ?_
  have hlt : k < items.length := by simpa using hk
  simp only [List.getElem_map, List.getElem_range]
  refine map_eq_of_forall₂ h fun g d hd => ?_
  simp [Column.cell, hd, hlt]

theorem join_column_cells {f : Frame} {h output : Header} {c : Column} (hc : f.column h = .ok c)
    (pairs : List Join.RowPair) (side : Join.RowPair → Option Nat) :
    (Join.column output c (pairs.map side)).cells
      = pairs.map fun pair => f.cellAt h (side pair) := by
  simp only [Join.column, List.map_map]
  refine List.map_congr_left fun pair _ => ?_
  rw [Function.comp_apply, Frame.cellAt_eq hc]
  cases side pair <;> simp [Column.cell]

/-- A key that both sides share has the cell of the side that has it: the common type of
  the two columns keeps both values. -/
theorem sharedColumn_cells {one two : Frame} {h k l output : Header} {c d : Column}
    (hone : one.Proper) (htwo : two.Proper) (hc : one.column h = .ok c)
    (hd : two.column h = .ok d) (htypes : c.dtype.comparable d.dtype = true)
    (pairs : List Join.RowPair) :
    (sharedColumn output (Join.column k c (pairs.map Join.RowPair.left))
        (Join.column l d (pairs.map Join.RowPair.right))).cells
      = pairs.map fun pair =>
          if (one.cellAt h pair.left).isMissing then two.cellAt h pair.right
          else one.cellAt h pair.left := by
  have hholds : ∀ {f : Frame} {k : Column}, f.Proper → f.column h = .ok k →
      ∀ row, k.dtype.holds (f.cellAt h row) = true := by
    intro f k hf hk row
    rw [Frame.cellAt_eq hk]
    cases row with
    | none => rfl
    | some i => exact hf.holds_cell (Frame.column_eq_ok hk).1 i
  have hback : (c.dtype.join d.dtype).getD c.dtype = (d.dtype.join c.dtype).getD d.dtype :=
    DType.join_comm_of_comparable htypes
  simp only [sharedColumn, join_column_cells hc, join_column_cells hd, List.zip_map', List.map_map]
  refine List.map_congr_left fun pair _ => ?_
  show (if _ then _ else _) = _
  split
  · show Cell.cast d.dtype ((c.dtype.join d.dtype).getD c.dtype) _ = _
    rw [hback]
    exact Cell.cast_join (DType.comparable_comm _ _ ▸ htypes) (hholds htwo hd pair.right)
  · exact Cell.cast_join htypes (hholds hone hc pair.left)

/-! ### Sides -/

theorem Frame.columns_of_selectAs {f g : Frame} {names : List (Header × Header)}
    (h : ∀ n ∈ names, isPattern n.1 = false) (hg : f.selectAs names = .ok g) :
    ∃ columns, List.Forall₂ (fun n d => ∃ c, f.column n.1 = .ok c ∧ d = { c with header := n.2 })
        names columns
      ∧ g = ⟨columns, f.height⟩ := by
  simp only [Frame.selectAs, bind_eq_ok, mapM_eq_ok] at hg
  obtain ⟨found, hfound, hdistinct⟩ := hg
  refine ⟨found.flatten, flatten_of_forall₂ ((mem_of_forall₂ hfound).imp fun n cs hn => ?_),
    (Frame.distinct_eq_ok.mp hdistinct).2⟩
  -- every name stands for one column
  obtain ⟨c, hc, rfl⟩ := (Frame.namedAs_of_verbatim (h n hn.1)).mp hn.2
  exact ⟨_, rfl, c, hc, rfl⟩

/-- What a side holds: the columns under their new headers and the copies of the keys. -/
structure IsSide (f : Frame) (columns : List Renaming) (keys : List Header) (copy : Nat → Header)
    (g : Frame) : Prop where
  height : g.height = f.height
  nodup : g.headers.Nodup
  headers : g.headers = columns.map Renaming.output ++ (List.range keys.length).map copy
  column : ∀ c ∈ columns, ∃ k, f.column c.input = .ok k
    ∧ g.column c.output = .ok { k with header := c.output }
  key : ∀ i (hi : i < keys.length), ∃ k, f.column keys[i] = .ok k
    ∧ g.column (copy i) = .ok { k with header := copy i }

theorem isSide {f g : Frame} {columns : List Renaming} {keys : List Header} {copy : Nat → Header}
    (hplain : ∀ k ∈ keys ++ columns.map Renaming.input, isPattern k = false)
    (h : side f columns keys copy = .ok g) : IsSide f columns keys copy g := by
  have hnd := Frame.headers_selectAs h
  have hnames : ∀ n ∈ columns.map (fun c => (c.input, c.output))
      ++ keys.zipIdx.map (fun k => (k.1, copy k.2)), isPattern n.1 = false := by
    rw [List.forall_mem_append, List.forall_mem_map, List.forall_mem_map]
    rw [List.forall_mem_append, List.forall_mem_map] at hplain
    exact ⟨hplain.2, fun k hk => hplain.1 _ (List.fst_mem_of_mem_zipIdx hk)⟩
  obtain ⟨found, hfound, rfl⟩ := Frame.columns_of_selectAs hnames h
  have hcolumn : ∀ n ∈ columns.map (fun c => (c.input, c.output))
      ++ keys.zipIdx.map (fun k => (k.1, copy k.2)), ∃ c, f.column n.1 = .ok c
        ∧ Frame.column ⟨found, f.height⟩ n.2 = .ok { c with header := n.2 } := by
    intro n hn
    obtain ⟨_, hd, c, hc, rfl⟩ := exists_of_mem_left hfound hn
    exact ⟨c, hc, Frame.column_of_mem hnd hd⟩
  refine ⟨rfl, hnd, ?_, fun c hc => ?_, fun i hi => ?_⟩
  · have hheaders : found.map Column.header = _ := map_eq_of_forall₂ (f := Prod.snd) hfound
      fun n d hd => by
        obtain ⟨c, -, rfl⟩ := hd
        rfl
    have hcopies : (keys.zipIdx.map fun k => (k.1, copy k.2)).map Prod.snd
        = (List.range keys.length).map copy := by
      rw [List.map_map, List.range_eq_range', ← List.zipIdx_map_snd, List.map_map]
      rfl
    rw [Frame.headers, hheaders, List.map_append, List.map_map, hcopies]
    rfl
  · exact hcolumn _ (List.mem_append_left _ (List.mem_map_of_mem hc))
  · refine hcolumn (keys[i], copy i)
      (List.mem_append_right _ (List.mem_map.mpr ⟨(keys[i], i), ?_, rfl⟩))
    rw [List.mem_zipIdx_iff_getElem?]
    exact List.getElem?_eq_getElem hi

namespace IsSide

variable {f g : Frame} {columns : List Renaming} {keys : List Header} {copy : Nat → Header}

/-- The copies of the keys have their types and their cells. -/
theorem exists_keys (h : IsSide f columns keys copy g) {copied : List Column}
    (hcopied : copies g keys.length copy = .ok copied) :
    ∃ ks, List.Forall₂ (fun k c => f.column k = .ok c) keys ks
      ∧ List.Forall₂ (fun (c d : Column) => d.dtype = c.dtype ∧ d.cells = c.cells) ks copied := by
  have hfound : ∀ k ∈ keys, ∃ c, f.column k = .ok c ∧ True := by
    intro k hk
    obtain ⟨i, hi, rfl⟩ := List.mem_iff_getElem.mp hk
    obtain ⟨c, hc, -⟩ := h.key i hi
    exact ⟨c, hc, trivial⟩
  obtain ⟨ks, hks, -⟩ := exists_mapM_of_forall₂ (R := fun _ k => k ∈ keys)
    (List.forall₂_same.mpr fun _ hk => hk) fun _ k hk => hfound k hk
  rw [mapM_eq_ok] at hks
  refine ⟨ks, hks, ?_⟩
  have hcopy := mapM_eq_ok.mp hcopied
  have hlength : ks.length = copied.length := by
    rw [← hks.length_eq, ← hcopy.length_eq, List.length_range]
  refine List.forall₂_iff_get.mpr ⟨hlength, fun i hi hi' => ?_⟩
  have hlt : i < keys.length := by rwa [hks.length_eq]
  -- the copy of a key is looked up under its own name
  obtain ⟨c, hc, hcolumn⟩ := h.key i hlt
  have hkey := hks.get hlt hi
  have hcopyAt := hcopy.get (by rwa [List.length_range]) hi'
  simp only [List.get_eq_getElem, List.getElem_range] at hkey hcopyAt ⊢
  obtain rfl := Except.ok.inj (hc.symm.trans hkey)
  rw [← Except.ok.inj (hcolumn.symm.trans hcopyAt)]
  exact ⟨rfl, rfl⟩

/-- The rows of a side are told apart by the cells of the keys. -/
theorem keyRows_eq (h : IsSide f columns keys copy g) {copied : List Column}
    (hcopied : copies g keys.length copy = .ok copied) :
    Frame.keyRows copied g.height
      = (List.range f.height).map fun i => keys.map fun k => f.cellAt k (some i) := by
  obtain ⟨ks, hks, hsame⟩ := h.exists_keys hcopied
  rw [← keyRows_of_columns hks, h.height, Frame.keyRows_eq, Frame.keyRows_eq]
  refine List.map_congr_left fun i _ => map_eq_of_forall₂ hsame fun c d hcd => ?_
  rw [Column.cell, Column.cell, hcd.2]

end IsSide

theorem headers_sideRows (g : Frame) (rows : List (Option Nat)) :
    (sideRows g rows).headers = g.headers := by
  simp [sideRows, Frame.headers, Join.column, Function.comp_def]

/-- The columns of a side at the places that some rows are taken from. -/
theorem column_sideRows {g : Frame} (hnd : g.headers.Nodup) {h : Header} {c : Column}
    (hc : g.column h = .ok c) (rows : List (Option Nat)) :
    (sideRows g rows).column h = .ok (Join.column h c rows) := by
  obtain ⟨hmem, rfl⟩ := Frame.column_eq_ok hc
  rw [← headers_sideRows g rows] at hnd
  exact Frame.column_of_mem hnd (List.mem_map_of_mem hmem)

section Beside

variable {left right joined : Frame} {h : Header} {c : Column}

theorem column_beside_left (hjoined : beside left right = .ok joined)
    (hc : left.column h = .ok c) : joined.column h = .ok c := by
  have hnd := Frame.headers_distinct hjoined
  obtain ⟨-, rfl⟩ := Frame.distinct_eq_ok.mp hjoined
  obtain ⟨hmem, rfl⟩ := Frame.column_eq_ok hc
  exact Frame.column_of_mem hnd (List.mem_append_left _ hmem)

/-- A right column keeps its header if there is none of it on the left. -/
theorem column_beside_right (hjoined : beside left right = .ok joined) (hh : h ∉ left.headers)
    (hc : right.column h = .ok c) : joined.column h = .ok c := by
  have hnd := Frame.headers_distinct hjoined
  obtain ⟨-, rfl⟩ := Frame.distinct_eq_ok.mp hjoined
  obtain ⟨hmem, rfl⟩ := Frame.column_eq_ok hc
  refine Frame.column_of_mem hnd (List.mem_append_right _ ?_)
  exact List.mem_map.mpr ⟨c, hmem, if_neg hh⟩

end Beside

/-! ### Plans -/

section Plans

variable {e : Merge} {one two : Sheet} {p : Plan}

/-- What a plan is made of: the pairs of keys, and the columns that are read. -/
theorem plan_eq_ok (h : e.plan one two = .ok p) :
    List.Forall₂ (fun pair key => keyPair one two pair = .ok key) e.keys
        (p.leftKeys.zip p.rightKeys)
      ∧ p.leftKeys.length = p.rightKeys.length
      ∧ List.Forall₂ (fun id h => one.columns.header? id = some h) e.leftIds
          (p.left.map Renaming.input)
      ∧ ∃ rs, List.Forall₂ (fun id h => two.columns.header? id = some h) e.rightIds rs
          ∧ p.right.map Renaming.input = rs.filter fun h => !p.isFolded h := by
  unfold plan at h
  simp only [throw_ite_eq_ok, bind_eq_ok, pure_eq_ok, mapM_eq_ok, Sheet.headersFor_eq_ok] at h
  obtain ⟨-, keys, hkeys, ls, hls, rs, hrs, rfl⟩ := h
  have hzip : (keys.map Prod.fst).zip (keys.map Prod.snd) = keys := by
    rw [List.zip_map', List.map_id'']
    exact fun _ => rfl
  refine ⟨?_, ?_, ?_, rs, hrs, ?_⟩
  · exact hzip.symm ▸ hkeys
  · simp
  · simpa [Function.comp_def] using hls
  · simp [Plan.isFolded_eq, hzip, Function.comp_def]

/-- The columns of a pair of keys have comparable types. -/
theorem exists_keyColumns (h : e.plan one two = .ok p) {a b : Header}
    (hab : (a, b) ∈ p.leftKeys.zip p.rightKeys) :
    ∃ c d, one.frame.column a = .ok c ∧ two.frame.column b = .ok d
      ∧ (c.dtype = d.dtype ∨ (c.dtype.isNumeric = true ∧ d.dtype.isNumeric = true)) := by
  obtain ⟨hkeys, -⟩ := plan_eq_ok h
  obtain ⟨pair, -, hpair⟩ := exists_of_mem_right hkeys hab
  simp only [keyPair, Sheet.dtype, Sheet.column, bind_eq_ok, pure_eq_ok, ite_throw_eq_ok] at hpair
  obtain ⟨_, ⟨c, ⟨_, hleft, hc⟩, rfl⟩, _, ⟨d, ⟨_, hright, hd⟩, rfl⟩, _, ha, _, hb, htypes, heq⟩ :=
    hpair
  obtain ⟨rfl, rfl⟩ := Prod.mk.inj heq
  obtain rfl := Except.ok.inj (hleft.symm.trans ha)
  obtain rfl := Except.ok.inj (hright.symm.trans hb)
  exact ⟨c, d, hc, hd, by simpa using htypes⟩

theorem zip_of_forall₂ {α β γ δ : Type} {R : α → γ → Prop} {S : β → δ → Prop} {as : List α}
    {bs : List β} {cs : List γ} {ds : List δ} (hac : List.Forall₂ R as cs)
    (hbd : List.Forall₂ S bs ds) {c : γ} {d : δ} (hcd : (c, d) ∈ cs.zip ds) :
    ∃ a b, (a, b) ∈ as.zip bs ∧ R a c ∧ S b d := by
  induction hac generalizing bs ds with
  | nil => cases hcd
  | @cons a c' _ _ hR _ ih =>
    cases hbd with
    | nil => cases hcd
    | @cons b d' _ _ hS hbd =>
      rw [List.zip_cons_cons, List.mem_cons] at hcd
      rcases hcd with hcd | hcd
      · obtain ⟨rfl, rfl⟩ := Prod.mk.inj hcd
        exact ⟨a, b, List.mem_cons_self, hR, hS⟩
      · obtain ⟨a', b', hmem, hR, hS⟩ := ih hbd hcd
        exact ⟨a', b', List.mem_cons_of_mem _ hmem, hR, hS⟩

/-- The data of a merge: both sides, their keys, and the frame of the rows that the keys
  pair. -/
theorem frame_eq_ok {f one two : Frame} (hplain : ∀ h ∈ p.names, isPattern h = false)
    (h : e.frame p one two = .ok f) :
    ∃ left right ls rs,
      IsSide one p.left p.leftKeys leftCopy left ∧ IsSide two p.right p.rightKeys rightCopy right
        ∧ List.Forall₂ (fun k c => one.column k = .ok c) p.leftKeys ls
        ∧ List.Forall₂ (fun k c => two.column k = .ok c) p.rightKeys rs
        ∧ (∀ k ∈ ls.zip rs, areComparable k.1.dtype k.2.dtype = true)
        ∧ let pairs := rowPairs e.kind ((List.range one.height).map (p.leftKey one))
            ((List.range two.height).map (p.rightKey two))
          e.combined p (sideRows left (pairs.map Join.RowPair.left))
            (sideRows right (pairs.map Join.RowPair.right)) = .ok f := by
  unfold frame at h
  simp only [bind_eq_ok, throw_ite_eq_ok] at h
  obtain ⟨left, hleft, right, hright, copied, hcopied, copied', hcopied', htypes, hf⟩ := h
  have hone : IsSide one p.left p.leftKeys leftCopy left := isSide (fun k hk => hplain k (by
    simp only [Plan.names, List.mem_append, List.mem_flatMap, List.mem_map] at hk ⊢
    rcases hk with hk | ⟨c, hc, rfl⟩
    · exact .inl (.inl hk)
    · exact .inr ⟨c, .inl hc, List.mem_cons_self⟩)) hleft
  have htwo : IsSide two p.right p.rightKeys rightCopy right := isSide (fun k hk => hplain k (by
    simp only [Plan.names, List.mem_append, List.mem_flatMap, List.mem_map] at hk ⊢
    rcases hk with hk | ⟨c, hc, rfl⟩
    · exact .inl (.inr hk)
    · exact .inr ⟨c, .inr hc, List.mem_cons_self⟩)) hright
  obtain ⟨ls, hls, hsame⟩ := hone.exists_keys hcopied
  obtain ⟨rs, hrs, hsame'⟩ := htwo.exists_keys hcopied'
  rw [hone.keyRows_eq hcopied, htwo.keyRows_eq hcopied'] at hf
  refine ⟨left, right, ls, rs, hone, htwo, hls, hrs, ?_, hf⟩
  rintro ⟨c, d⟩ hcd
  -- the copies are compared by the types of the keys
  obtain ⟨c', d', hmem, hc, hd⟩ := zip_of_forall₂ hsame.flip hsame'.flip hcd
  simp only [List.any_eq_true, Bool.not_eq_true', not_exists, not_and] at htypes
  have hcompared := htypes _ hmem
  rw [hc.1, hd.1] at hcompared
  simpa using hcompared

variable {f : Frame}

/-- In an accepted merge the columns of a pair of keys are compared cell by cell. -/
theorem keys_comparable (hplain : ∀ h ∈ p.names, isPattern h = false)
    (hplan : e.plan one two = .ok p) (hframe : e.frame p one.frame two.frame = .ok f)
    {a b : Header} {c d : Column}
    (hab : (a, b) ∈ p.leftKeys.zip p.rightKeys) (hc : one.frame.column a = .ok c)
    (hd : two.frame.column b = .ok d) : c.dtype.comparable d.dtype = true := by
  obtain ⟨_, _, ls, rs, -, -, hls, hrs, hall, -⟩ := frame_eq_ok hplain hframe
  obtain ⟨c', d', hmem, hc', hd'⟩ := zip_of_forall₂ hls.flip hrs.flip hab
  obtain rfl := Except.ok.inj (hc.symm.trans hc')
  obtain rfl := Except.ok.inj (hd.symm.trans hd')
  obtain ⟨c', d', hc', hd', htypes⟩ := exists_keyColumns hplan hab
  obtain rfl := Except.ok.inj (hc.symm.trans hc')
  obtain rfl := Except.ok.inj (hd.symm.trans hd')
  have hsame := hall _ hmem
  unfold areComparable at hsame
  unfold DType.comparable
  rcases htypes with h | ⟨h, h'⟩
  · simp [h]
  · simp only [h, h', Bool.or_eq_true, decide_eq_true_eq, Bool.true_and, beq_iff_eq] at hsame ⊢
    exact hsame

/-- The keys of both sides are of the same kinds. -/
theorem exists_keyed (hone : one.frame.Proper) (htwo : two.frame.Proper)
    (hplain : ∀ h ∈ p.names, isPattern h = false) (hplan : e.plan one two = .ok p)
    (hframe : e.frame p one.frame two.frame = .ok f) :
    ∃ ks, (∀ i, Join.Keyed ks (p.leftKey one.frame i))
      ∧ ∀ j, Join.Keyed ks (p.rightKey two.frame j) := by
  obtain ⟨_, _, ls, rs, -, -, hls, hrs, -, -⟩ := frame_eq_ok hplain hframe
  have hkinds : List.Forall₂ (fun c d => d.dtype.kind = c.dtype.kind) ls rs := by
    rw [List.forall₂_iff_zip]
    refine ⟨by rw [← hls.length_eq, ← hrs.length_eq, (plan_eq_ok hplan).2.1], fun {c d} hcd => ?_⟩
    obtain ⟨a, b, hab, hc, hd⟩ := zip_of_forall₂ hls hrs hcd
    exact (DType.kind_eq_of_comparable (keys_comparable hplain hplan hframe hab hc hd)).symm
  refine ⟨ls.map fun c => c.dtype.kind, keyed_of_columns hone hls, ?_⟩
  rw [← map_eq_of_forall₂ hkinds fun _ _ h => h]
  exact keyed_of_columns htwo hrs

end Plans

/-! ### Columns of the result -/

theorem rightCopy_ne_leftCopy (i j : Nat) : rightCopy i ≠ leftCopy j := by
  unfold rightCopy leftCopy
  generalize Decimal.natText i = s, Decimal.natText j = t
  simp [← String.toList_inj]

theorem not_isPattern_rightCopy (i : Nat) : isPattern (rightCopy i) = false := by
  unfold rightCopy
  generalize Decimal.natText i = s
  have hstar : "__merge_right_key_" ++ s ≠ "*" := by simp [← String.toList_inj]
  simp [isPattern, hstar]

section Outputs

variable {p : Plan} {e : Merge} {one two left right f : Frame} {pairs : List Join.RowPair}

theorem Plan.output_mem_names {c : Renaming} (hc : c ∈ p.left ++ p.right) : c.output ∈ p.names :=
  List.mem_append_right _ (List.mem_flatMap.mpr ⟨c, hc, .tail _ (.head _)⟩)

/-- Whether a key is shared is told by its place among the keys. -/
theorem shared?_eq_some {h : Header} {i : Nat} (hi : shared? p h = some i) :
    p.isFolded h = true ∧ p.leftKeys[i]? = some h ∧ p.rightKeys[i]? = some h := by
  obtain ⟨hlt, hkey, -⟩ := List.findIdx?_eq_some_iff_getElem.mp hi
  have hkey : (p.leftKeys.zip p.rightKeys)[i] = (h, h) := of_decide_eq_true hkey
  have hget := (List.getElem?_eq_getElem hlt).trans (congrArg some hkey)
  rw [Plan.isFolded_eq, decide_eq_true_eq]
  exact ⟨hkey ▸ List.getElem_mem hlt, List.getElem?_zip_eq_some.mp hget⟩

theorem shared?_eq_none {h : Header} (hnone : shared? p h = none) : p.isFolded h = false := by
  rw [Plan.isFolded_eq, decide_eq_false_iff_not]
  intro hmem
  have hall := List.findIdx?_eq_none_iff.mp hnone _ hmem
  simp at hall

namespace IsSide

variable {g : Frame} {columns : List Renaming} {keys : List Header} {copy : Nat → Header}

/-- A column of a side at the places of some rows. -/
theorem column_rows (h : IsSide f columns keys copy g) {c : Renaming} (hc : c ∈ columns)
    (rows : List (Option Nat)) : ∃ k, f.column c.input = .ok k
      ∧ (sideRows g rows).column c.output = .ok (Join.column c.output k rows) := by
  obtain ⟨k, hk, hcolumn⟩ := h.column c hc
  exact ⟨k, hk, column_sideRows h.nodup hcolumn rows⟩

/-- The copy of a key at the places of some rows. -/
theorem key_rows (h : IsSide f columns keys copy g) {i : Nat} {k : Header}
    (hi : keys[i]? = some k) (rows : List (Option Nat)) : ∃ c, f.column k = .ok c
      ∧ (sideRows g rows).column (copy i) = .ok (Join.column (copy i) c rows) := by
  obtain ⟨hlt, rfl⟩ := List.getElem?_eq_some_iff.mp hi
  obtain ⟨c, hc, hcolumn⟩ := h.key i hlt
  exact ⟨c, hc, column_sideRows h.nodup hcolumn rows⟩

end IsSide

/-- The left columns show the left cells, and the keys that both sides share those of the side
  that has them. -/
theorem leftOutput_eq {joined : Frame} {c : Renaming} {cs : List Column} (hplain : p.Plain)
    (hone : one.Proper) (htwo : two.Proper)
    (htypes : ∀ h c d, p.isFolded h = true → one.column h = .ok c → two.column h = .ok d →
      c.dtype.comparable d.dtype = true)
    (hleft : IsSide one p.left p.leftKeys leftCopy left)
    (hright : IsSide two p.right p.rightKeys rightCopy right)
    (hjoined : beside (sideRows left (pairs.map Join.RowPair.left))
      (sideRows right (pairs.map Join.RowPair.right)) = .ok joined)
    (hc : c ∈ p.left) (h : leftOutput p joined c = .ok cs) :
    ∃ d, cs = [d] ∧ d.header = c.output ∧ d.cells = pairs.map (p.leftCell one two c.input) := by
  unfold leftOutput at h
  split at h
  · next i hi =>
    obtain ⟨hfolded, hl, hr⟩ := shared?_eq_some hi
    obtain ⟨k, hk, hkcopy⟩ := hleft.key_rows hl (pairs.map Join.RowPair.left)
    obtain ⟨m, hm, hmcopy⟩ := hright.key_rows hr (pairs.map Join.RowPair.right)
    -- nothing on the left has the name of the right copy
    have hfree : rightCopy i ∉ (sideRows left (pairs.map Join.RowPair.left)).headers := by
      rw [headers_sideRows, hleft.headers, List.mem_append, not_or]
      constructor
      · intro hmem
        obtain ⟨b, hb, hname⟩ := List.mem_map.mp hmem
        refine hplain.left b hb (hname ▸ List.mem_map_of_mem (List.mem_range.mpr ?_))
        exact (List.getElem?_eq_some_iff.mp hr).1
      · intro hmem
        obtain ⟨j, -, hname⟩ := List.mem_map.mp hmem
        exact rightCopy_ne_leftCopy i j hname.symm
    rw [column_beside_left hjoined hkcopy, column_beside_right hjoined hfree hmcopy] at h
    obtain rfl := Except.ok.inj h
    refine ⟨_, rfl, rfl, ?_⟩
    rw [sharedColumn_cells hone htwo hk hm (htypes _ _ _ hfolded hk hm)]
    simp [Plan.leftCell, hfolded]
  · next hnone =>
    obtain ⟨k, hk, hcolumn⟩ := hleft.column_rows hc (pairs.map Join.RowPair.left)
    rw [Frame.named_of_verbatim
      (hplain.verbatim _ (Plan.output_mem_names (List.mem_append_left _ hc)))] at h
    simp only [bind_eq_ok, Except.ok.injEq, exists_eq_left', List.mapM_cons, List.mapM_nil,
      pure_eq_ok, column_beside_left hjoined hcolumn] at h
    obtain ⟨_, rfl, rfl⟩ := h
    refine ⟨_, rfl, rfl, ?_⟩
    rw [join_column_cells hk]
    simp [Plan.leftCell, shared?_eq_none hnone]

/-- The rows of the left sheet alone show the left cells. -/
theorem combined_leftOnly (two : Frame) (hplain : ∀ h ∈ p.names, isPattern h = false)
    (hleft : IsSide one p.left p.leftKeys leftCopy left) (hkind : e.kind = .leftOnly)
    (h : e.combined p (sideRows left (pairs.map Join.RowPair.left)) right = .ok f) :
    ∃ columns, List.Forall₂ (fun o (d : Column) => d.header = o.1 ∧ d.cells = pairs.map o.2)
        (p.outputs one two .leftOnly) columns
      ∧ f = ⟨columns, pairs.length⟩ := by
  simp only [combined, hkind] at h
  obtain ⟨columns, hcolumns, rfl⟩ := Frame.columns_of_selectAs (fun n hn => by
    obtain ⟨c, hc, rfl⟩ := List.mem_map.mp hn
    exact hplain _ (Plan.output_mem_names (List.mem_append_left _ hc))) h
  refine ⟨columns, ?_, by simp [sideRows]⟩
  unfold Plan.outputs
  rw [List.forall₂_map_left_iff] at hcolumns ⊢
  refine (mem_of_forall₂ hcolumns).imp fun c d hcd => ?_
  obtain ⟨hc, _, hfound, rfl⟩ := hcd
  obtain ⟨k, hk, hcolumn⟩ := hleft.column_rows hc (pairs.map Join.RowPair.left)
  obtain rfl := Except.ok.inj (hcolumn.symm.trans hfound)
  exact ⟨rfl, join_column_cells hk pairs _⟩

/-- The rows of the right sheet alone show the right cells. -/
theorem combined_rightOnly (one : Frame) (hplain : ∀ h ∈ p.names, isPattern h = false)
    (hright : IsSide two p.right p.rightKeys rightCopy right) (hkind : e.kind = .rightOnly)
    (h : e.combined p left (sideRows right (pairs.map Join.RowPair.right)) = .ok f) :
    ∃ columns, List.Forall₂ (fun o (d : Column) => d.header = o.1 ∧ d.cells = pairs.map o.2)
        (p.outputs one two .rightOnly) columns
      ∧ f = ⟨columns, pairs.length⟩ := by
  simp only [combined, hkind] at h
  -- what is shown under a header was taken from the column with that header
  have hsource : ∀ n ∈ rightOutputs p, isPattern n.1 = false ∧ ∃ k, two.column n.2 = .ok k
      ∧ (sideRows right (pairs.map Join.RowPair.right)).column n.1
        = .ok (Join.column n.1 k (pairs.map Join.RowPair.right)) := by
    intro n hn
    simp only [rightOutputs, List.mem_append, List.mem_map, List.mem_reverse, List.mem_filter] at hn
    rcases hn with ⟨⟨key, i⟩, ⟨hkey, -⟩, rfl⟩ | ⟨c, hc, rfl⟩
    · exact ⟨not_isPattern_rightCopy i,
        hright.key_rows (List.mem_zipIdx_iff_getElem?.mp hkey) _⟩
    · exact ⟨hplain _ (Plan.output_mem_names (List.mem_append_right _ hc)),
        hright.column_rows hc _⟩
  obtain ⟨columns, hcolumns, rfl⟩ := Frame.columns_of_selectAs (fun n hn => (hsource n hn).1) h
  refine ⟨columns, ?_, by simp [sideRows]⟩
  unfold Plan.outputs
  rw [List.forall₂_map_left_iff]
  refine (mem_of_forall₂ hcolumns).imp fun n d hnd => ?_
  obtain ⟨hn, _, hfound, rfl⟩ := hnd
  obtain ⟨-, k, hk, hcolumn⟩ := hsource n hn
  obtain rfl := Except.ok.inj (hcolumn.symm.trans hfound)
  exact ⟨rfl, join_column_cells hk pairs _⟩

/-- The right columns show the right cells, as none of them has the header of a left column. -/
theorem rightColumns_cells {joined : Frame} {columns : List Column} (hplain : p.Plain)
    (hleft : IsSide one p.left p.leftKeys leftCopy left)
    (hright : IsSide two p.right p.rightKeys rightCopy right)
    (hjoined : beside (sideRows left (pairs.map Join.RowPair.left))
      (sideRows right (pairs.map Join.RowPair.right)) = .ok joined)
    (hapart : ∀ c ∈ p.right, c.output ∉ p.left.map Renaming.output)
    (h : List.Forall₂ (fun c d => joined.column c.output = .ok d) p.right columns) :
    List.Forall₂ (fun c (d : Column) => d.header = c.output
      ∧ d.cells = pairs.map fun pair => two.cellAt c.input pair.right) p.right columns := by
  refine (mem_of_forall₂ h).imp fun c d hcd => ?_
  obtain ⟨hc, hd⟩ := hcd
  have hfree : c.output ∉ (sideRows left (pairs.map Join.RowPair.left)).headers := by
    rw [headers_sideRows, hleft.headers, List.mem_append, not_or]
    exact ⟨hapart c hc, hplain.right c hc⟩
  obtain ⟨k, hk, hcolumn⟩ := hright.column_rows hc (pairs.map Join.RowPair.right)
  obtain rfl := Except.ok.inj ((column_beside_right hjoined hfree hcolumn).symm.trans hd)
  exact ⟨rfl, join_column_cells hk pairs _⟩

/-- The right columns are taken from the joined sides by their headers. -/
theorem rightColumns_eq {joined : Frame} {rights : List (List Column)}
    (hplain : ∀ h ∈ p.names, isPattern h = false)
    (h : List.Forall₂ (fun c cs => ∃ names, joined.named c.output = .ok names
      ∧ List.Forall₂ (fun k d => joined.column k = .ok d) names cs) p.right rights) :
    List.Forall₂ (fun c d => joined.column c.output = .ok d) p.right rights.flatten := by
  refine flatten_of_forall₂ ((mem_of_forall₂ h).imp fun c cs hcs => ?_)
  obtain ⟨hc, names, hnames, hcolumns⟩ := hcs
  rw [Frame.named_of_verbatim
    (hplain _ (Plan.output_mem_names (List.mem_append_right _ hc)))] at hnames
  obtain rfl := Except.ok.inj hnames
  obtain _ | ⟨hd, _ | _⟩ := hcolumns
  exact ⟨_, rfl, hd⟩

/-- Where both sides are shown, the result has the left columns and then the right ones. -/
theorem combined_both (hplain : p.Plain) (hone : one.Proper) (htwo : two.Proper)
    (htypes : ∀ h c d, p.isFolded h = true → one.column h = .ok c → two.column h = .ok d →
      c.dtype.comparable d.dtype = true)
    (hleft : IsSide one p.left p.leftKeys leftCopy left)
    (hright : IsSide two p.right p.rightKeys rightCopy right)
    (hnotLeft : e.kind ≠ .leftOnly) (hnotRight : e.kind ≠ .rightOnly)
    (h : e.combined p (sideRows left (pairs.map Join.RowPair.left))
      (sideRows right (pairs.map Join.RowPair.right)) = .ok f) :
    ∃ columns, List.Forall₂ (fun o (d : Column) => d.header = o.1 ∧ d.cells = pairs.map o.2)
        (p.outputs one two e.kind) columns
      ∧ if e.kind = .outer then ∃ keys, f = sortedBy ⟨columns, pairs.length⟩ keys
        else f = ⟨columns, pairs.length⟩ := by
  unfold combined at h
  split at h
  · exact absurd (by assumption) hnotLeft
  · exact absurd (by assumption) hnotRight
  simp only [bind_eq_ok, mapM_eq_ok] at h
  obtain ⟨joined, hjoined, lefts, hlefts, rights, hrights, merged, hmerged, h⟩ := h
  obtain ⟨hnd, rfl⟩ := Frame.distinct_eq_ok.mp hmerged
  have hl : List.Forall₂ (fun c (d : Column) => d.header = c.output
      ∧ d.cells = pairs.map (p.leftCell one two c.input)) p.left lefts.flatten :=
    flatten_of_forall₂ ((mem_of_forall₂ hlefts).imp fun _ _ hc =>
      leftOutput_eq hplain hone htwo htypes hleft hright hjoined hc.1 hc.2)
  have hr := rightColumns_eq hplain.verbatim hrights
  -- no header stands twice, so the right columns are not those of the left side
  have hapart : ∀ c ∈ p.right, c.output ∉ p.left.map Renaming.output := by
    have hleftHeaders : lefts.flatten.map Column.header = p.left.map Renaming.output :=
      map_eq_of_forall₂ hl fun _ _ h => h.1
    have hrightHeaders : rights.flatten.map Column.header = p.right.map Renaming.output :=
      map_eq_of_forall₂ hr fun _ _ h => (Frame.column_eq_ok h).2
    rw [List.flatten_append, List.map_append, hleftHeaders, hrightHeaders] at hnd
    intro c hc hmem
    exact List.disjoint_of_nodup_append hnd hmem (List.mem_map_of_mem hc)
  have hcells := rightColumns_cells hplain hleft hright hjoined hapart hr
  refine ⟨(lefts ++ rights).flatten, ?_, ?_⟩
  · rw [p.outputs_both one two hnotLeft hnotRight, List.flatten_append]
    exact List.rel_append (List.forall₂_map_left_iff.mpr hl) (List.forall₂_map_left_iff.mpr hcells)
  · have hheight : (sideRows left (pairs.map Join.RowPair.left)).height = pairs.length := by
      simp [sideRows]
    rw [hheight] at h
    split at h
    · next houter =>
      simp only [bind_eq_ok, pure_eq_ok] at h
      obtain ⟨keys, -, rfl⟩ := h
      rw [if_pos houter]
      exact ⟨_, rfl⟩
    · next hother =>
      simp only [pure_eq_ok] at h
      rw [if_neg hother, h]

end Outputs

/-! ### Pairs of rows -/

section Pairs

variable {ks : List CellKind} {l r : Nat → Join.Key} {m n : Nat}

theorem firstOnly_range (hr : ∀ j, Join.Keyed ks (r j)) :
    firstOnly ((List.range n).map r)
      = ((List.range n).filter (Join.isFirst r)).map fun j => (r j, j) := by
  unfold firstOnly
  rw [Join.firstRows_range hr, Join.zipIdx_map_range, List.filter_map]
  refine congrArg _ (List.filter_congr fun j hj => ?_)
  simp [List.mem_range.mp hj]

/-- A lookup gives every left row its first partner, if it has one. -/
theorem rowPairs_lookup (hl : ∀ i, Join.Keyed ks (l i)) (hr : ∀ j, Join.Keyed ks (r j)) :
    rowPairs .lookup ((List.range m).map l) ((List.range n).map r)
      = (List.range m).map fun i => ⟨some i, Join.firstAgreeing r n (l i)⟩ := by
  let kept := (List.range n).filter (Join.isFirst r)
  let number := fun k => kept.getD k 0
  have hnumber : kept = (List.range kept.length).map number :=
    List.ext_getElem (by simp) fun k hk _ => by simp [number, hk]
  have hfirst : firstOnly ((List.range n).map r) = kept.map fun j => (r j, j) :=
    firstOnly_range hr
  have hkeys : (firstOnly ((List.range n).map r)).map Prod.fst
      = (List.range kept.length).map (r ∘ number) := by
    rw [hfirst, ← List.map_map, ← hnumber, List.map_map]
    rfl
  unfold rowPairs
  dsimp only
  rw [hkeys, Join.left_range, List.map_flatMap]
  refine (List.flatMap_congr fun i _ => ?_).trans List.map_eq_flatMap.symm
  -- By its number, the only partner among the first rows is the first partner.
  have hpartner : (Join.agreeing (r ∘ number) kept.length (l i)).map number
      = (Join.firstAgreeing r n (l i)).toList := by
    rw [← Join.agreeing_first hl hr i n]
    show _ = kept.filter fun j => Join.agree (l i) (r j)
    conv_rhs => rw [hnumber, List.filter_map]
    rfl
  have hshown : ∀ k ∈ Join.agreeing (r ∘ number) kept.length (l i),
      ((firstOnly ((List.range n).map r))[k]?).map Prod.snd = some (number k) := by
    intro k hk
    have hlt : k < kept.length := List.mem_range.mp (List.mem_of_mem_filter hk)
    rw [hfirst]
    simp [number, hlt]
  cases hpartnerOf : Join.firstAgreeing r n (l i) with
  | none =>
    rw [hpartnerOf, Option.toList_none, List.map_eq_nil_iff] at hpartner
    simp [hpartner]
  | some j =>
    rw [hpartnerOf, Option.toList_some, List.map_eq_singleton_iff] at hpartner
    obtain ⟨k, hk, rfl⟩ := hpartner
    simp [hk, hshown k (by simp [hk])]

end Pairs

namespace Plan

variable (p : Plan) (one two : Frame)

/-- The right row that a lookup puts beside a left one. -/
def firstPartner (i : Nat) : Option Nat :=
  Join.firstAgreeing (p.rightKey two) two.height (p.leftKey one i)

/-- The pairs of rows that a kind of merge shows: of the pairs whose keys agree, the rows
  that stay alone on the left and those that stay alone on the right, the ones that the
  kind asks for. -/
def pairs (kind : MergeKind) : List Join.RowPair :=
  let matched := Join.matched (p.leftKey one) (p.rightKey two) one.height two.height
  let aloneLeft := Join.aloneLeft (p.leftKey one) (p.rightKey two) one.height two.height
  let aloneRight := Join.aloneRight (p.leftKey one) (p.rightKey two) one.height two.height
  match kind with
  | .lookup => (List.range one.height).map fun i => ⟨some i, p.firstPartner one two i⟩
  | .left => matched ++ aloneLeft
  | .right => matched ++ aloneRight
  | .inner => matched
  | .outer => matched ++ (aloneLeft ++ aloneRight)
  | .leftOnly => aloneLeft
  | .rightOnly => aloneRight

end Plan

/-- Every kind of merge shows its pairs; a lookup shows them in the order of the left
  rows. -/
theorem rowPairs_perm {ks : List CellKind} {p : Plan} {one two : Frame}
    (hl : ∀ i, Join.Keyed ks (p.leftKey one i)) (hr : ∀ j, Join.Keyed ks (p.rightKey two j))
    (kind : MergeKind) :
    (rowPairs kind ((List.range one.height).map (p.leftKey one))
      ((List.range two.height).map (p.rightKey two))).Perm (p.pairs one two kind) := by
  have hcomm : ∀ i j, Join.agree (p.rightKey two j) (p.leftKey one i)
      = Join.agree (p.leftKey one i) (p.rightKey two j) :=
    fun i j => Join.agree_comm (hl i) (hr j)
  cases kind with
  | lookup => exact .of_eq (rowPairs_lookup hl hr)
  | left => exact Join.left_perm
  | right => exact Join.right_perm hcomm
  | inner => exact Join.inner_perm hcomm
  | outer => exact Join.full_perm hcomm
  | leftOnly => exact .of_eq (congrArg _ Join.lonely_range)
  | rightOnly => exact .of_eq (congrArg _ Join.lonely_range)

/-! ### Accepted merges -/

theorem sortedRows_keyRows (f : Frame) (columns : List Column) :
    (sortedRows false .last (Frame.keyRows columns f.height)).Perm (List.range f.height) := by
  refine (sortedRows_perm false .last _).trans (.of_eq (congrArg List.range ?_))
  simp [Frame.keyRows]

section Accepted

variable {e : Merge} {s : State} {one two : Sheet} {p : Plan} {f : Frame}
  (hone : one.frame.Proper) (htwo : two.frame.Proper) (hplain : p.Plain)
  (hplan : e.plan one two = .ok p) (h : e.frame p one.frame two.frame = .ok f)

include hone htwo hplain hplan h in
/-- An accepted merge shows its columns for the rows that its keys pair. -/
theorem exists_columns :
    let pairs := rowPairs e.kind ((List.range one.frame.height).map (p.leftKey one.frame))
      ((List.range two.frame.height).map (p.rightKey two.frame))
    ∃ columns, List.Forall₂ (fun o (d : Column) => d.header = o.1 ∧ d.cells = pairs.map o.2)
        (p.outputs one.frame two.frame e.kind) columns
      ∧ if e.kind = .outer then ∃ keys, f = sortedBy ⟨columns, pairs.length⟩ keys
        else f = ⟨columns, pairs.length⟩ := by
  obtain ⟨left, right, -, -, hleft, hright, -, -, -, hf⟩ := frame_eq_ok hplain.verbatim h
  intro pairs
  by_cases hleftOnly : e.kind = .leftOnly
  · obtain ⟨columns, hcolumns, rfl⟩ :=
      combined_leftOnly two.frame hplain.verbatim hleft hleftOnly hf
    exact ⟨columns, hleftOnly ▸ hcolumns, by rw [if_neg (by simp [hleftOnly])]⟩
  by_cases hrightOnly : e.kind = .rightOnly
  · obtain ⟨columns, hcolumns, rfl⟩ :=
      combined_rightOnly one.frame hplain.verbatim hright hrightOnly hf
    exact ⟨columns, hrightOnly ▸ hcolumns, by rw [if_neg (by simp [hrightOnly])]⟩
  · exact combined_both hplain hone htwo (fun k c d hfolded hc hd =>
      keys_comparable hplain.verbatim hplan h (p.mem_of_isFolded hfolded) hc hd) hleft hright
        hleftOnly hrightOnly hf

include hone htwo hplain hplan h in
/-- An accepted merge is as high as it has pairs. -/
theorem height_eq : f.height = (p.pairs one.frame two.frame e.kind).length := by
  obtain ⟨ks, hl, hr⟩ := exists_keyed hone htwo hplain.verbatim hplan h
  obtain ⟨columns, -, hf⟩ := exists_columns hone htwo hplain hplan h
  rw [← (rowPairs_perm hl hr e.kind).length_eq]
  split at hf
  · obtain ⟨keys, rfl⟩ := hf
    unfold sortedBy
    rw [Frame.pickRows, (sortedRows_keyRows _ _).length_eq, List.length_range]
  · rw [hf]

/-- The rows of columns are those of the pairs. -/
theorem rows_of_outputs {kind : MergeKind} {one two : Frame} {pairs : List Join.RowPair}
    {columns : List Column} (hleft : kind ≠ .leftOnly) (hright : kind ≠ .rightOnly)
    (hcolumns : List.Forall₂ (fun o (d : Column) => d.header = o.1 ∧ d.cells = pairs.map o.2)
      (p.outputs one two kind) columns) :
    Frame.headers ⟨columns, pairs.length⟩ = (p.left ++ p.right).map Renaming.output
      ∧ Frame.rows ⟨columns, pairs.length⟩ = pairs.map (p.row one two) := by
  have houtputs : (p.outputs one two kind).map Prod.fst = (p.left ++ p.right).map Renaming.output
      ∧ (p.outputs one two kind).map Prod.snd = p.cells one two := by
    rw [p.outputs_both one two hleft hright]
    simp [Plan.cells, Function.comp_def]
  refine ⟨(map_eq_of_forall₂ hcolumns fun _ _ h => h.1).trans houtputs.1, ?_⟩
  have hcells : List.Forall₂ (fun g (d : Column) => d.cells = pairs.map g) (p.cells one two)
      columns := by
    rw [← houtputs.2, List.forall₂_map_left_iff]
    exact hcolumns.imp fun _ _ h => h.2
  exact keyRows_of_cells hcells

include hone htwo hplain hplan h in
/-- A merge that keeps the columns of both sides shows the row of each of its pairs. -/
theorem rows_perm (hleft : e.kind ≠ .leftOnly) (hright : e.kind ≠ .rightOnly) :
    f.headers = (p.left ++ p.right).map Renaming.output
      ∧ f.rows.Perm ((p.pairs one.frame two.frame e.kind).map (p.row one.frame two.frame)) := by
  obtain ⟨ks, hl, hr⟩ := exists_keyed hone htwo hplain.verbatim hplan h
  obtain ⟨columns, hcolumns, hf⟩ := exists_columns hone htwo hplain hplan h
  obtain ⟨hheaders, hrows⟩ := rows_of_outputs hleft hright hcolumns
  have hpairs := (rowPairs_perm hl hr e.kind).map (p.row one.frame two.frame)
  split at hf
  · obtain ⟨keys, rfl⟩ := hf
    refine ⟨(Frame.headers_pickRows _ _).trans hheaders, ?_⟩
    exact (Frame.rows_pickRows_perm (sortedRows_keyRows _ _)).trans
      ((List.Perm.of_eq hrows).trans hpairs)
  · subst hf
    exact ⟨hheaders, (List.Perm.of_eq hrows).trans hpairs⟩

include hone htwo hplain hplan h in
/-- A lookup shows the left rows in their order. -/
theorem lookup_rows (hkind : e.kind = .lookup) :
    f.rows = (p.pairs one.frame two.frame .lookup).map (p.row one.frame two.frame) := by
  obtain ⟨ks, hl, hr⟩ := exists_keyed hone htwo hplain.verbatim hplan h
  obtain ⟨columns, hcolumns, hf⟩ := exists_columns hone htwo hplain hplan h
  rw [if_neg (by simp [hkind])] at hf
  subst hf
  refine (rows_of_outputs (by simp [hkind]) (by simp [hkind]) hcolumns).2.trans ?_
  rw [hkind, rowPairs_lookup hl hr]
  rfl

end Accepted

/-- The left columns that are asked for are read. -/
theorem left_read {e : Merge} {one two : Sheet} {p : Plan} (hplan : e.plan one two = .ok p)
    {id : ColumnId} (hid : id ∈ e.leftColumns) :
    ∃ h, one.columns.header? id = some h ∧ h ∈ p.left.map Renaming.input := by
  obtain ⟨-, -, hls, -⟩ := plan_eq_ok hplan
  obtain ⟨h, hmem, hheader⟩ := exists_of_mem_left hls (mem_withKeys (.inr hid))
  exact ⟨h, hheader, hmem⟩

/-- The right columns that are asked for are read; a folded key is read on the left. -/
theorem right_read {e : Merge} {one two : Sheet} {p : Plan} (hplan : e.plan one two = .ok p)
    {id : ColumnId} (hid : id ∈ e.rightColumns) :
    ∃ h, two.columns.header? id = some h
      ∧ (h ∈ p.right.map Renaming.input ∨ p.isFolded h = true ∧ h ∈ p.left.map Renaming.input) := by
  obtain ⟨-, -, hls, rs, hrs, hrights⟩ := plan_eq_ok hplan
  obtain ⟨h, hmem, hheader⟩ := exists_of_mem_left hrs (mem_withKeys (.inr hid))
  refine ⟨h, hheader, ?_⟩
  by_cases hfolded : p.isFolded h = true
  · have hkey : h ∈ p.leftKeys := (List.of_mem_zip (p.mem_of_isFolded hfolded)).1
    obtain ⟨k, hk, hheader'⟩ := (plan_headers hplan).1 h (List.mem_append_left _ hkey)
    obtain ⟨h', hmem', hh'⟩ := exists_of_mem_left hls hk
    obtain rfl : h = h' := Option.some.inj (hheader'.symm.trans hh')
    exact .inr ⟨hfolded, hmem'⟩
  · exact .inl (hrights ▸ List.mem_filter.mpr ⟨hmem, by simpa using hfolded⟩)

/-- A merge of a kind is accepted and puts a frame on a new sheet behind the others. -/
def Yields (e : Merge) (s : State) (kind : MergeKind) (f : Frame) : Prop :=
  ∃ (c : Change) (sheet : Sheet), ({ e with kind := kind } : Merge).run s = .ok c
    ∧ c.state.sheets = s.sheets ++ [sheet] ∧ sheet.frame = f

variable {e : Merge} {s : State} {one two : Sheet} {p : Plan} {kind : MergeKind} {f : Frame}

theorem Yields.frame_eq (h : e.Yields s kind f) (hleft : s.sheet e.left = .ok one)
    (hright : s.sheet e.right = .ok two) (hplan : e.plan one two = .ok p) :
    ({ e with kind := kind } : Merge).frame p one.frame two.frame = .ok f := by
  obtain ⟨c, sheet, hrun, hsheets, rfl⟩ := h
  have hplan : ({ e with kind := kind } : Merge).plan one two = .ok p := hplan
  simp only [run, hleft, hright, hplan, bind_eq_ok, Except.ok.injEq, exists_eq_left',
    pure_eq_ok] at hrun
  obtain ⟨f, hf, rfl⟩ := hrun
  have hnew : s.sheets ++ [(s.mint (s.uniqueName "df_merge") f).1] = s.sheets ++ [sheet] := hsheets
  obtain rfl := List.singleton_inj.mp (List.append_cancel_left hnew)
  exact hf

/-- What the kinds of a merge show, as far as they are accepted, where no header is a pattern
  or the name of the copy of a key.  A lookup has a row for every left row, in order, with the
  first right row whose keys all match; the other kinds consist of the pairs that match and of
  rows that stay alone; a missing key matches nothing. -/
theorem laws (hleft : s.sheet e.left = .ok one) (hright : s.sheet e.right = .ok two)
    (hone : one.frame.Proper) (htwo : two.frame.Proper) (hplan : e.plan one two = .ok p)
    (hplain : p.Plain) :
    (∀ id ∈ e.leftColumns, ∃ h, one.columns.header? id = some h ∧ h ∈ p.left.map Renaming.input)
      ∧ (∀ id ∈ e.rightColumns, ∃ h, two.columns.header? id = some h
          ∧ (h ∈ p.right.map Renaming.input
            ∨ p.isFolded h = true ∧ h ∈ p.left.map Renaming.input))
      ∧ (∀ i j, Join.agree (p.leftKey one.frame i) (p.rightKey two.frame j) = true →
          (∀ c ∈ p.leftKey one.frame i, c.isMissing = false)
            ∧ ∀ c ∈ p.rightKey two.frame j, c.isMissing = false)
      ∧ (∀ f, e.Yields s .lookup f →
          f.height = one.frame.height
            ∧ f.headers = (p.left ++ p.right).map Renaming.output
            ∧ f.rows = (List.range one.frame.height).map fun i =>
                p.row one.frame two.frame ⟨some i, p.firstPartner one.frame two.frame i⟩)
      ∧ (∀ kind ∈ [MergeKind.left, .right, .inner, .outer], ∀ f, e.Yields s kind f →
          f.headers = (p.left ++ p.right).map Renaming.output
            ∧ f.rows.Perm ((p.pairs one.frame two.frame kind).map (p.row one.frame two.frame)))
      ∧ (∀ l i u, e.Yields s .left l → e.Yields s .inner i → e.Yields s .leftOnly u →
          l.height = i.height + u.height)
      ∧ (∀ r i u, e.Yields s .right r → e.Yields s .inner i → e.Yields s .rightOnly u →
          r.height = i.height + u.height)
      ∧ ∀ o i u v, e.Yields s .outer o → e.Yields s .inner i → e.Yields s .leftOnly u →
          e.Yields s .rightOnly v → o.height = i.height + u.height + v.height := by
  have hplans : ∀ kind, ({ e with kind := kind } : Merge).plan one two = .ok p := fun _ => hplan
  have hheight : ∀ {kind f}, e.Yields s kind f →
      f.height = (p.pairs one.frame two.frame kind).length := fun {kind _} h =>
    height_eq hone htwo hplain (hplans kind) (h.frame_eq hleft hright hplan)
  refine ⟨fun id => left_read hplan, fun id => right_read hplan,
    fun i j => Join.not_missing_of_agree, ?_, ?_, ?_, ?_, ?_⟩
  · intro f h
    have hf := h.frame_eq hleft hright hplan
    refine ⟨by simp [hheight h, Plan.pairs],
      (rows_perm hone htwo hplain (hplans .lookup) hf nofun nofun).1, ?_⟩
    rw [lookup_rows hone htwo hplain (hplans .lookup) hf rfl, Plan.pairs, List.map_map]
    rfl
  · intro kind hkind f h
    have hf := h.frame_eq hleft hright hplan
    refine rows_perm hone htwo hplain (hplans kind) hf ?_ ?_
    · rintro rfl
      simp at hkind
    · rintro rfl
      simp at hkind
  · intro l i u hl hi hu
    rw [hheight hl, hheight hi, hheight hu]
    simp [Plan.pairs]
  · intro r i u hr hi hu
    rw [hheight hr, hheight hi, hheight hu]
    simp [Plan.pairs]
  · intro o i u v ho hi hu hv
    rw [hheight ho, hheight hi, hheight hu, hheight hv]
    simp [Plan.pairs, Nat.add_assoc]

namespace Sample

/-- Rows with a key that repeats and one that is missing. -/
def orders : Sheet :=
  .ofFrame ⟨0⟩ "df1"
    ⟨[⟨"k", .int64, [.int 1, .int 1, .missing, .int 2]⟩,
      ⟨"a", .text, [.text "x", .text "y", .text "z", .text "w"]⟩], 4⟩

/-- Rows to look up, under one key of the same header and one of another. -/
def prices : Sheet :=
  .ofFrame ⟨1⟩ "df2"
    ⟨[⟨"k", .int32, [.int 1, .int 1, .missing, .int 4]⟩,
      ⟨"c", .text, [.text "x", .text "x", .text "z", .text "w"]⟩,
      ⟨"v", .int64, [.int 10, .int 11, .int 12, .int 13]⟩], 4⟩

/-- Both sheets. -/
def shop : State := { sheets := [orders, prices], nextId := 2 }

/-- Prices of orders. -/
def priced : Merge :=
  ⟨.lookup, 0, 1, [(⟨"k"⟩, ⟨"k"⟩), (⟨"a"⟩, ⟨"c"⟩)], [⟨"k"⟩, ⟨"a"⟩], [⟨"v"⟩]⟩

/-- The plan of the merge. -/
def plan : Plan :=
  ⟨["k", "a"], ["k", "c"], [⟨"k", "k"⟩, ⟨"a", "a"⟩], [⟨"c", "c"⟩, ⟨"v", "v"⟩]⟩

/-- A row beside whose key stands a column named like the copy of a right key. -/
def shadowing : Sheet :=
  .ofFrame ⟨0⟩ "df1" ⟨[⟨"A", .int64, [.int 1]⟩, ⟨"__merge_right_key_0", .int64, [.int 7]⟩], 1⟩

/-- A row under another key. -/
def shadowed : Sheet := .ofFrame ⟨1⟩ "df2" ⟨[⟨"A", .int64, [.int 2]⟩], 1⟩

/-- The state with both of them. -/
def shadows : State := { sheets := [shadowing, shadowed], nextId := 2 }

/-- The rows of the second sheet, with those of the first one beside them. -/
def beside : Merge :=
  ⟨.right, 0, 1, [(⟨"A"⟩, ⟨"A"⟩)], [⟨"A"⟩, ⟨"__merge_right_key_0"⟩], [⟨"A"⟩]⟩

/-- The plan of that merge. -/
def besidePlan : Plan :=
  ⟨["A"], ["A"], [⟨"A", "A"⟩, ⟨"__merge_right_key_0", "__merge_right_key_0"⟩], []⟩

end Sample

theorem exists_yields {c : Change} (h : ({ e with kind := kind } : Merge).run s = .ok c) :
    ∃ f, e.Yields s kind f := by
  have hrun := h
  simp only [run, bind_eq_ok, pure_eq_ok] at hrun
  obtain ⟨_, -, _, -, _, -, f, -, rfl⟩ := hrun
  exact ⟨f, _, _, h, rfl, rfl⟩

theorem laws_sample :
    Sample.shop.sheet 0 = .ok Sample.orders ∧ Sample.shop.sheet 1 = .ok Sample.prices
      ∧ Sample.orders.frame.Proper ∧ Sample.prices.frame.Proper
      ∧ Sample.priced.plan Sample.orders Sample.prices = .ok Sample.plan ∧ Sample.plan.Plain
      ∧ (∃ f, Sample.priced.Yields Sample.shop .lookup f ∧ f.rows =
          [[.int 1, .text "x", .text "x", .int 10], [.int 1, .text "y", .missing, .missing],
            [.missing, .text "z", .missing, .missing], [.int 2, .text "w", .missing, .missing]])
      ∧ ∃ o i u v, Sample.priced.Yields Sample.shop .outer o
          ∧ Sample.priced.Yields Sample.shop .inner i ∧ Sample.priced.Yields Sample.shop .leftOnly u
          ∧ Sample.priced.Yields Sample.shop .rightOnly v
          ∧ o.height = i.height + u.height + v.height := by
  have hleft : Sample.shop.sheet 0 = .ok Sample.orders := rfl
  have hright : Sample.shop.sheet 1 = .ok Sample.prices := rfl
  have hone : Sample.orders.frame.Proper := ⟨by decide, by decide⟩
  have htwo : Sample.prices.frame.Proper := ⟨by decide, by decide⟩
  have hplan : Sample.priced.plan Sample.orders Sample.prices = .ok Sample.plan := by
    decide
  have hplain : Sample.plan.Plain := by decide
  obtain ⟨-, -, -, hlookup, -, -, -, houter⟩ :=
    laws (e := Sample.priced) hleft hright hone htwo hplan hplain
  have hyields : ∀ kind, (({ Sample.priced with kind := kind } : Merge).run Sample.shop).toBool
      = true → ∃ f, Sample.priced.Yields Sample.shop kind f :=
    fun kind h => exists_yields (eq_ok_of_toBool h default)
  obtain ⟨f, hf⟩ := hyields .lookup (by decide)
  obtain ⟨o, ho⟩ := hyields .outer (by decide)
  obtain ⟨i, hi⟩ := hyields .inner (by decide)
  obtain ⟨u, hu⟩ := hyields .leftOnly (by decide)
  obtain ⟨v, hv⟩ := hyields .rightOnly (by decide)
  refine ⟨hleft, hright, hone, htwo, hplan, hplain, ⟨f, hf, (hlookup f hf).2.2.trans ?_⟩,
    o, i, u, v, ho, hi, hu, hv, houter o i u v ho hi hu hv⟩
  decide

/-- A right row alone loses its key where a left column has the name of the copy of the key. -/
theorem laws_shadowed :
    Sample.shadowing.frame.Proper ∧ Sample.shadowed.frame.Proper
      ∧ Sample.beside.plan Sample.shadowing Sample.shadowed = .ok Sample.besidePlan
      ∧ ∃ f, Sample.beside.Yields Sample.shadows .right f
        ∧ f.rows = [[.missing, .missing]]
        ∧ (Sample.besidePlan.pairs Sample.shadowing.frame Sample.shadowed.frame .right).map
            (Sample.besidePlan.row Sample.shadowing.frame Sample.shadowed.frame)
          = [[.int 2, .missing]] := by
  have hplan : Sample.beside.plan Sample.shadowing Sample.shadowed = .ok Sample.besidePlan := by
    decide
  have hframe : Sample.beside.frame Sample.besidePlan Sample.shadowing.frame Sample.shadowed.frame
      = .ok ⟨[⟨"A", .int64, [.missing]⟩, ⟨"__merge_right_key_0", .int64, [.missing]⟩], 1⟩ := by
    decide
  have hrun : ∃ c, Sample.beside.run Sample.shadows = .ok c := by
    simp only [run, bind_eq_ok, pure_eq_ok]
    exact ⟨_, _, rfl, _, rfl, _, hplan, _, hframe, rfl⟩
  obtain ⟨c, hc⟩ := hrun
  have hyields : ∃ f, Sample.beside.Yields Sample.shadows .right f := exists_yields hc
  obtain ⟨f, hf⟩ := hyields
  refine ⟨⟨by decide, by decide⟩, ⟨by decide, by decide⟩, hplan, f, hf, ?_, by decide⟩
  rw [Except.ok.inj ((hf.frame_eq rfl rfl hplan).symm.trans hframe)]
  decide

end Merge

end SheetScript
