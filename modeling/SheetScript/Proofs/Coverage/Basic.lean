import SheetScript.Proofs.Coverage.Links
import SheetScript.Proofs.Footprints
import SheetScript.State

/-! # What footprints have to cover

  Code says in its footprint which columns it reads and which sheets and columns it
  changes.  An edit is covered by its code when the footprint leaves nothing out:
  what it does not name as written stays, and what it does not name as read makes no
  difference.

  The second half compares two runs.  `AlikeBut` relates two columns, frames, sheets
  or states that agree in everything but the cells of some columns, whose types and
  heights still agree.
-/

namespace SheetScript

/-! ### Columns outside a footprint -/

/-- The code does not change the column. -/
def Footprint.Leaves (f : Footprint) (s : SheetId) (id : ColumnId) : Prop :=
  ∀ c, (s, c) ∈ f.effectiveWrites → ∃ ids, c = .only ids ∧ id ∉ ids

namespace Footprint

variable {f : Footprint} {s : SheetId} {id : ColumnId}

theorem Spares.leaves (h : f.Spares s id) : f.Leaves s id := fun c hc => h c (.inr hc)

theorem Leaves.not_mem (h : f.Leaves s id) {ids : List ColumnId}
    (hids : (s, .ofList ids) ∈ f.effectiveWrites) : id ∉ ids := by
  obtain ⟨is, his, hid⟩ := h _ hids
  obtain rfl : Roster.ofList ids = is := ColumnSet.only.inj his
  simpa using hid

theorem Leaves.not_all (h : f.Leaves s id) : (s, .all) ∉ f.effectiveWrites := by
  intro hall
  obtain ⟨ids, hids, -⟩ := h _ hall
  cases hids

end Footprint

namespace Code

/-- The code changes, creates or deletes the sheet. -/
def Touches (code : List ChunkBody) (s : SheetId) : Prop :=
  ∃ b ∈ code, s ∈ b.footprint.touched

/-- The code does not change the column. -/
def Leaves (code : List ChunkBody) (s : SheetId) (id : ColumnId) : Prop :=
  ∀ b ∈ code, b.footprint.Leaves s id

/-- The code neither reads nor changes the column. -/
def Spares (code : List ChunkBody) (s : SheetId) (id : ColumnId) : Prop :=
  ∀ b ∈ code, b.footprint.Spares s id

variable {b : ChunkBody} {s : SheetId} {id : ColumnId}

@[simp] theorem not_touches_nil (s : SheetId) : ¬ Touches [] s := by simp [Touches]

@[simp] theorem touches_singleton : Touches [b] s ↔ s ∈ b.footprint.touched := by
  simp [Touches]

@[simp] theorem leaves_singleton : Leaves [b] s id ↔ b.footprint.Leaves s id := by
  simp [Leaves]

@[simp] theorem spares_singleton : Spares [b] s id ↔ b.footprint.Spares s id := by
  simp [Spares]

end Code

/-! ### Columns -/

/-- The columns agree, but for their cells where `free` holds of the header. -/
structure Column.AlikeBut (free : Header → Prop) (c d : Column) : Prop where
  header : d.header = c.header
  dtype : d.dtype = c.dtype
  length : d.cells.length = c.cells.length
  cells : free c.header ∨ d.cells = c.cells

namespace Column.AlikeBut

variable {free : Header → Prop} {c d : Column}

theorem refl (c : Column) : c.AlikeBut free c := ⟨rfl, rfl, rfl, .inr rfl⟩

theorem eq (h : c.AlikeBut free d) (hfree : ¬ free c.header) : d = c := by
  obtain ⟨hheader, hdtype, -, hcells⟩ := h
  have hcells := hcells.resolve_left hfree
  cases c
  cases d
  simp_all

theorem mono {free' : Header → Prop} (h : c.AlikeBut free d)
    (himp : free c.header → free' c.header) : c.AlikeBut free' d :=
  ⟨h.header, h.dtype, h.length, h.cells.imp_left himp⟩

end Column.AlikeBut

/-! ### Frames -/

/-- The frames agree, but for the cells of columns with free headers. -/
structure Frame.AlikeBut (free : Header → Prop) (f g : Frame) : Prop where
  height : g.height = f.height
  columns : List.Forall₂ (Column.AlikeBut free) f.columns g.columns

namespace Frame.AlikeBut

variable {free free' : Header → Prop} {f g out : Frame} {h : Header} {c : Column}

theorem refl (f : Frame) : f.AlikeBut free f :=
  ⟨rfl, List.forall₂_same.mpr fun c _ => .refl c⟩

theorem headers_eq (ha : f.AlikeBut free g) : g.headers = f.headers :=
  map_eq_of_forall₂ ha.columns fun _ _ hcd => hcd.header

theorem width_eq (ha : f.AlikeBut free g) : g.width = f.width :=
  ha.columns.length_eq.symm

theorem mono (ha : f.AlikeBut free g) (himp : ∀ k ∈ f.headers, free k → free' k) :
    f.AlikeBut free' g := by
  refine ⟨ha.height, ?_⟩
  obtain ⟨hlen, hzip⟩ := List.forall₂_iff_zip.mp ha.columns
  refine List.forall₂_iff_zip.mpr ⟨hlen, fun {c d} hcd => ?_⟩
  exact (hzip hcd).mono (himp c.header (header_mem (List.of_mem_zip hcd).1))

/-- Frames without free headers are equal. -/
theorem eq (ha : f.AlikeBut free g) (hfree : ∀ k ∈ f.headers, ¬ free k) : g = f := by
  have hnone : f.AlikeBut (fun _ => False) g := ha.mono hfree
  have hcolumns : g.columns = f.columns := by
    have hmap := map_eq_of_forall₂ hnone.columns (f := id) (g := id) fun _ _ hcd => hcd.eq id
    simpa using hmap
  have hheight := ha.height
  cases f
  cases g
  simp_all

/-- Looking a header up gives related columns, or none on both sides. -/
theorem column? (ha : f.AlikeBut free g) (h : Header) :
    (f.column? h = none ∧ g.column? h = none)
      ∨ ∃ c d, f.column? h = some c ∧ g.column? h = some d ∧ c.header = h ∧ c.AlikeBut free d := by
  unfold Frame.column?
  have hcolumns := ha.columns
  generalize f.columns = cs at hcolumns
  generalize g.columns = ds at hcolumns
  induction hcolumns with
  | nil => exact .inl ⟨rfl, rfl⟩
  | @cons c d _ _ hcd _ ih =>
    by_cases hc : c.header = h
    · have hd : d.header = h := hcd.header.trans hc
      exact .inr ⟨c, d, by simp [hc], by simp [hd], hc, hcd⟩
    · have hd : d.header ≠ h := fun he => hc (hcd.header.symm.trans he)
      simpa [hc, hd] using ih

/-- A column that is not free is found as it is. -/
theorem column?_eq (ha : f.AlikeBut free g) (hfree : ¬ free h) : g.column? h = f.column? h := by
  rcases ha.column? h with ⟨hf, hg⟩ | ⟨c, d, hc, hd, hheader, hcd⟩
  · rw [hf, hg]
  · rw [hc, hd, hcd.eq (hheader ▸ hfree)]

theorem column_eq (ha : f.AlikeBut free g) (hfree : ¬ free h) : g.column h = f.column h := by
  unfold Frame.column
  rw [ha.column?_eq hfree]

theorem column (ha : f.AlikeBut free g) (hc : f.column h = .ok c) :
    ∃ d, g.column h = .ok d ∧ c.AlikeBut free d := by
  unfold Frame.column at hc ⊢
  rcases ha.column? h with ⟨hf, -⟩ | ⟨c', d, hc', hd, -, hcd⟩
  · simp [hf] at hc
  · rw [hc'] at hc
    obtain rfl := Except.ok.inj hc
    exact ⟨d, by rw [hd], hcd⟩

theorem index?_eq (ha : f.AlikeBut free g) (h : Header) : g.index? h = f.index? h := by
  have hmap : ∀ e : Frame, e.index? h = e.headers.findIdx? fun k => k = h := by
    intro e
    unfold Frame.index? Frame.headers
    rw [List.findIdx?_map]
    rfl
  rw [hmap, hmap, ha.headers_eq]

theorem isEmpty_eq (ha : f.AlikeBut free g) : g.columns.isEmpty = f.columns.isEmpty := by
  have hlen := ha.columns.length_eq
  rw [Bool.eq_iff_iff, List.isEmpty_iff_length_eq_zero, List.isEmpty_iff_length_eq_zero, hlen]

/-! Operations on related frames give related frames. -/

theorem withColumn (ha : f.AlikeBut free g) (c : Column) :
    (f.withColumn c).AlikeBut free (g.withColumn c) := by
  unfold Frame.withColumn
  rw [ha.headers_eq]
  split
  · refine ⟨ha.height, ?_⟩
    rw [List.forall₂_map_left_iff, List.forall₂_map_right_iff]
    refine ha.columns.imp fun a b hab => ?_
    rw [hab.header]
    split
    · exact .refl c
    · exact hab
  · exact ⟨ha.height, List.rel_append ha.columns (.cons (.refl c) .nil)⟩

theorem withColumns (ha : f.AlikeBut free g) {cs : List Column}
    (hf : f.withColumns cs = .ok out) :
    ∃ again, g.withColumns cs = .ok again ∧ out.AlikeBut free again := by
  unfold Frame.withColumns at hf ⊢
  split at hf
  · next hnd =>
    obtain rfl := Except.ok.inj hf
    refine ⟨_, if_pos hnd, ?_⟩
    clear hf hnd
    induction cs generalizing f g with
    | nil => exact ha
    | cons c rest ih => exact ih (ha.withColumn c)
  · cases hf

theorem drop (ha : f.AlikeBut free g) (hs : List Header) :
    (f.drop hs).AlikeBut free (g.drop hs) := by
  refine ⟨ha.height, ?_⟩
  unfold Frame.drop
  dsimp only
  have hcolumns := ha.columns
  generalize f.columns = cs at hcolumns
  generalize g.columns = ds at hcolumns
  induction hcolumns with
  | nil => exact .nil
  | @cons c d _ _ hcd _ ih =>
    rw [List.filter_cons, List.filter_cons, hcd.header]
    split
    · exact .cons hcd ih
    · exact ih

theorem insertColumns (ha : f.AlikeBut free g) {i : Nat} {cs : List Column}
    (hf : f.insertColumns i cs = .ok out) :
    ∃ again, g.insertColumns i cs = .ok again ∧ out.AlikeBut free again := by
  have hcolumns : List.Forall₂ (Column.AlikeBut free)
      (f.columns.take i ++ cs ++ f.columns.drop i)
      (g.columns.take i ++ cs ++ g.columns.drop i) := by
    have hnew : List.Forall₂ (Column.AlikeBut free) cs cs :=
      List.forall₂_same.mpr fun c _ => .refl c
    exact List.rel_append (List.rel_append (List.forall₂_take i ha.columns) hnew)
      (List.forall₂_drop i ha.columns)
  have hheaders := map_eq_of_forall₂ hcolumns (f := Column.header) (g := Column.header)
    fun _ _ hcd => hcd.header
  unfold Frame.insertColumns at hf ⊢
  dsimp only at hf ⊢
  rw [hheaders, ← hcolumns.length_eq]
  split at hf
  · next hnd =>
    obtain rfl := Except.ok.inj hf
    exact ⟨_, if_pos hnd, ha.height, hcolumns⟩
  · cases hf

/-- Headers are replaced one by one, and with them those that are free. -/
theorem withHeaders (ha : f.AlikeBut free g) {ρ : Header → Header} {q : Header → Prop}
    (hρ : ∀ k ∈ f.headers, free k → q (ρ k)) (hf : f.withHeaders (f.headers.map ρ) = .ok out) :
    ∃ again, g.withHeaders (g.headers.map ρ) = .ok again ∧ out.AlikeBut q again := by
  have hmap : ∀ e : Frame, (e.columns.zip (e.headers.map ρ)).map
      (fun p => { p.1 with header := p.2 }) = e.columns.map fun c => { c with header := ρ c.header } := by
    intro e
    unfold Frame.headers
    rw [List.map_map, ← List.map_prod_left_eq_zip, List.map_map]
    rfl
  unfold Frame.withHeaders at hf ⊢
  rw [hmap] at hf ⊢
  rw [ha.headers_eq, ← ha.columns.length_eq]
  split at hf
  · cases hf
  · next hlen =>
    split at hf
    · cases hf
    · next hnd =>
      obtain rfl := Except.ok.inj hf
      refine ⟨{ g with columns := g.columns.map fun c => { c with header := ρ c.header } },
        by rw [if_neg hlen, if_neg hnd], ha.height, ?_⟩
      rw [List.forall₂_map_left_iff, List.forall₂_map_right_iff]
      obtain ⟨hlen, hzip⟩ := List.forall₂_iff_zip.mp ha.columns
      refine List.forall₂_iff_zip.mpr ⟨hlen, fun {c d} hcd => ?_⟩
      obtain ⟨hheader, hdtype, hlength, hcells⟩ := hzip hcd
      exact ⟨congrArg ρ hheader, hdtype, hlength,
        hcells.imp_left (hρ c.header (header_mem (List.of_mem_zip hcd).1))⟩

end Frame.AlikeBut

end SheetScript
