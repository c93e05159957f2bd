import Mathlib.Data.List.Forall2
import SheetScript.Proofs.Desk.Invariants

/-! # Desks that look alike

  Two desks look alike when the same sheets lie on them under the same names, with
  the same headers from left to right; what stands for the cells may differ, and
  so may the ids of the columns unless they are asked for.  Whether a chunk runs
  can be told from the looks, and chunks keep desks alike.
-/

namespace SheetScript.Symbolic

variable {τ σ : Type} {I : Interpretation τ} {J : Interpretation σ} {ids : Prop}

/-- Columns with one header, and with one id if that is asked for. -/
def ColumnsAlike (ids : Prop) (c : SymbolicColumn τ) (e : SymbolicColumn σ) : Prop :=
  c.header = e.header ∧ (ids → c.id = e.id)

/-- Frames whose columns are alike from left to right. -/
abbrev FramesAlike (ids : Prop) (f : SymbolicFrame τ) (g : SymbolicFrame σ) : Prop :=
  List.Forall₂ (ColumnsAlike ids) f g

/-- Tables of one name whose frames are alike. -/
def TablesAlike (ids : Prop) (x : Table τ) (y : Table σ) : Prop :=
  x.name = y.name ∧ FramesAlike ids x.frame y.frame

/-! ### Frames -/

namespace FramesAlike

variable {f : SymbolicFrame τ} {g : SymbolicFrame σ} {b : ChunkBody}

theorem headers_eq (h : FramesAlike ids f g) :
    SymbolicFrame.headers f = SymbolicFrame.headers g := by
  unfold SymbolicFrame.headers
  induction h with
  | nil => rfl
  | cons hc _ ih => rw [List.map_cons, List.map_cons, hc.1, ih]

theorem ids_eq (h : FramesAlike ids f g) (hids : ids) :
    SymbolicFrame.ids f = SymbolicFrame.ids g := by
  unfold SymbolicFrame.ids
  induction h with
  | nil => rfl
  | cons hc _ ih => rw [List.map_cons, List.map_cons, hc.2 hids, ih]

theorem hasColumn (h : FramesAlike ids f g) (hids : ids) {id : ColumnId} {k : Header}
    (hc : SymbolicFrame.HasColumn f id k) : SymbolicFrame.HasColumn g id k := by
  induction h with
  | nil =>
    obtain ⟨c, hmem, -⟩ := hc
    cases hmem
  | cons hce hrest ih =>
    obtain ⟨c, hmem, hid, hk⟩ := hc
    rcases List.mem_cons.mp hmem with rfl | hmem
    · exact ⟨_, List.mem_cons_self, (hce.2 hids).symm.trans hid, hce.1.symm.trans hk⟩
    · obtain ⟨e, he, hide, hke⟩ := ih ⟨c, hmem, hid, hk⟩
      exact ⟨e, List.mem_cons_of_mem _ he, hide, hke⟩

/-- Frames under the same columns are alike. -/
theorem of_columns {cs : List (ColumnId × Header)} {v : ColumnId × Header → τ}
    {w : ColumnId × Header → σ} :
    FramesAlike ids (cs.map fun c => ⟨c.1, c.2, v c⟩) (cs.map fun c => ⟨c.1, c.2, w c⟩) := by
  induction cs with
  | nil => exact .nil
  | cons c rest ih => exact .cons ⟨rfl, fun _ => rfl⟩ ih

theorem onHeader (h : FramesAlike ids f g) (k : Header) {φ : SymbolicColumn τ → SymbolicColumn τ}
    {ψ : SymbolicColumn σ → SymbolicColumn σ}
    (hφ : ∀ c e, ColumnsAlike ids c e → ColumnsAlike ids (φ c) (ψ e)) :
    FramesAlike ids (Machine.onHeader f k φ) (Machine.onHeader g k ψ) := by
  induction h with
  | nil => exact .nil
  | @cons c e _ _ hce _ ih =>
    refine .cons ?_ ih
    by_cases hc : c.header = k
    · simpa [hc, hce.1.symm.trans hc] using hφ c e hce
    · have he : e.header ≠ k := fun he => hc (hce.1.trans he)
      simpa [hc, he] using hce

/-- Edits of single columns keep frames alike. -/
theorem retouch (h : FramesAlike ids f g) (b : ChunkBody) :
    FramesAlike ids (SymbolicFrame.retouch I f b) (SymbolicFrame.retouch J g b) := by
  cases b with
  | addColumn t id header index value reads =>
    exact List.rel_append (List.forall₂_take _ h)
      (.cons ⟨rfl, fun _ => rfl⟩ (List.forall₂_drop _ h))
  | setFormula t id header value reads => exact h.onHeader header fun _ _ hce => hce
  | deleteColumns t is hs =>
    refine List.rel_filter (fun c e hce => ?_) h
    simp [hce.1]
  | renameColumn t id old new => exact h.onHeader old fun _ _ hce => ⟨rfl, hce.2⟩
  | changeType t id header statements => exact h.onHeader header fun _ _ hce => hce
  | duplicateSheet | deleteSheet | renameSheet | block => exact h

theorem refl (f : SymbolicFrame τ) : FramesAlike ids f f := by
  induction f with
  | nil => exact .nil
  | cons c rest ih => exact .cons ⟨rfl, fun _ => rfl⟩ ih

theorem symm (h : FramesAlike ids f g) : FramesAlike ids g f := by
  induction h with
  | nil => exact .nil
  | cons hce _ ih => exact .cons ⟨hce.1.symm, fun hi => (hce.2 hi).symm⟩ ih

theorem trans {ρ : Type} {e : SymbolicFrame ρ} (h : FramesAlike ids f g)
    (h' : FramesAlike ids g e) : FramesAlike ids f e := by
  induction h generalizing e with
  | nil =>
    cases h'
    exact .nil
  | cons hce _ ih =>
    obtain _ | ⟨hea, hrest⟩ := h'
    exact .cons ⟨hce.1.trans hea.1, fun hi => (hce.2 hi).trans (hea.2 hi)⟩ (ih hrest)

theorem runs (h : FramesAlike ids f g) (hr : SymbolicFrame.Runs f b) : SymbolicFrame.Runs g b := by
  have hh := h.headers_eq
  have hl := h.length_eq
  cases b <;> simp_all [SymbolicFrame.Runs]

theorem fits (h : FramesAlike ids f g) (hids : ids) (hm : SymbolicFrame.Matches f b) :
    SymbolicFrame.Matches g b := by
  cases b with
  | addColumn t id header index value reads =>
    unfold SymbolicFrame.Matches at hm ⊢
    rwa [← h.ids_eq hids]
  | deleteColumns t is hs => exact ⟨hm.1, fun p hp => h.hasColumn hids (hm.2 p hp)⟩
  | renameColumn t id old new => exact h.hasColumn hids hm
  | setFormula t id header value reads => exact h.hasColumn hids hm
  | changeType t id header statements => exact h.hasColumn hids hm
  | duplicateSheet | deleteSheet | renameSheet | block => exact hm

end FramesAlike

/-! ### Desks -/

/-- A sheet lies on neither desk, or on both under one name with frames alike. -/
def Desk.AlikeAt (ids : Prop) (d : Desk τ) (e : Desk σ) (s : SheetId) : Prop :=
  (d s = none ∧ e s = none) ∨ ∃ x y, d s = some x ∧ e s = some y ∧ TablesAlike ids x y

/-- Desks with the same sheets, each under the same name with a frame alike. -/
def Desk.Alike (ids : Prop) (d : Desk τ) (e : Desk σ) : Prop := ∀ s, d.AlikeAt ids e s

theorem Desk.AlikeAt.of_eq {d e : Desk τ} {s : SheetId} (h : d s = e s) : d.AlikeAt ids e s := by
  cases hs : d s with
  | none => exact .inl ⟨hs, h.symm.trans hs⟩
  | some x => exact .inr ⟨x, x, hs, h.symm.trans hs, rfl, FramesAlike.refl x.frame⟩

namespace Desk.Alike

variable {d : Desk τ} {e : Desk σ} {b : ChunkBody} {s : SheetId}

theorem table (h : d.Alike ids e) {x : Table τ} (hx : d s = some x) :
    ∃ y, e s = some y ∧ TablesAlike ids x y := by
  obtain ⟨hd, -⟩ | ⟨x', y, hd, he, hxy⟩ := h s
  · rw [hd] at hx
    cases hx
  · rw [hd] at hx
    cases hx
    exact ⟨y, he, hxy⟩

theorem refl (d : Desk τ) : d.Alike ids d := fun _ => .of_eq rfl

theorem symm (h : d.Alike ids e) : e.Alike ids d := by
  intro s
  obtain ⟨hd, he⟩ | ⟨x, y, hd, he, hxy⟩ := h s
  · exact .inl ⟨he, hd⟩
  · exact .inr ⟨y, x, he, hd, hxy.1.symm, FramesAlike.symm hxy.2⟩

theorem eq_none (h : d.Alike ids e) (hs : d s = none) : e s = none := by
  obtain ⟨-, he⟩ | ⟨x, y, hd, he, hxy⟩ := h s
  · exact he
  · rw [hs] at hd
    cases hd

theorem trans {ρ : Type} {c : Desk ρ} (h : d.Alike ids e) (h' : e.Alike ids c) :
    d.Alike ids c := by
  intro s
  obtain ⟨hd, he⟩ | ⟨x, y, hd, he, hxy⟩ := h s
  · exact .inl ⟨hd, h'.eq_none he⟩
  · obtain ⟨z, hz, hyz⟩ := h'.table he
    exact .inr ⟨x, z, hd, hz, hxy.1.trans hyz.1, FramesAlike.trans hxy.2 hyz.2⟩

/-- Without ids, less is asked. -/
theorem weaken (h : d.Alike ids e) {less : Prop} (hl : less → ids) : d.Alike less e := by
  intro s
  obtain ⟨hd, he⟩ | ⟨x, y, hd, he, hxy⟩ := h s
  · exact .inl ⟨hd, he⟩
  · exact .inr ⟨x, y, hd, he, hxy.1, hxy.2.imp fun _ _ hce => ⟨hce.1, fun hi => hce.2 (hl hi)⟩⟩

theorem set (h : d.Alike ids e) (s : SheetId) {x : Table τ} {y : Table σ}
    (hxy : TablesAlike ids x y) : (d.set s (some x)).Alike ids (e.set s (some y)) := by
  intro t
  by_cases ht : t = s
  · exact .inr ⟨x, y, by rw [ht, Desk.set_self], by rw [ht, Desk.set_self], hxy⟩
  · unfold AlikeAt
    rw [d.set_ne _ ht, e.set_ne _ ht]
    exact h t

theorem setNone (h : d.Alike ids e) (s : SheetId) : (d.set s none).Alike ids (e.set s none) := by
  intro t
  by_cases ht : t = s
  · exact .inl ⟨by rw [ht, Desk.set_self], by rw [ht, Desk.set_self]⟩
  · unfold AlikeAt
    rw [d.set_ne _ ht, e.set_ne _ ht]
    exact h t

/-- Putting a table made from one of the desk alike on both. -/
theorem setMap (h : d.Alike ids e) (s t : SheetId) {φ : Table τ → Table τ}
    {ψ : Table σ → Table σ} (hφ : ∀ x y, TablesAlike ids x y → TablesAlike ids (φ x) (ψ y)) :
    (d.set t ((d s).map φ)).Alike ids (e.set t ((e s).map ψ)) := by
  obtain ⟨hd, he⟩ | ⟨x, y, hd, he, hxy⟩ := h s
  · rw [hd, he]
    exact h.setNone t
  · rw [hd, he]
    exact h.set t (hφ x y hxy)

/-- Chunks keep desks alike. -/
theorem step (h : d.Alike ids e) (b : ChunkBody) : (d.step I b).Alike ids (e.step J b) := by
  induction b using ChunkBody.kind_cases with
  | column b t ht =>
    rw [step_column ht, step_column ht]
    exact h.setMap _ _ fun x y hxy => ⟨hxy.1, FramesAlike.retouch hxy.2 b⟩
  | duplicateSheet source copy => exact h.setMap _ _ fun x y hxy => ⟨rfl, hxy.2⟩
  | deleteSheet t => exact h.setNone _
  | renameSheet s old new => exact h.setMap _ _ fun x y hxy => ⟨rfl, hxy.2⟩
  | block b =>
    intro s
    unfold AlikeAt Desk.step
    dsimp only
    cases b.outputs.find? fun o => o.sheet = s with
    | none => exact h s
    | some o => exact .inr ⟨_, _, rfl, rfl, rfl, FramesAlike.of_columns⟩

theorem free (h : d.Alike ids e) {n : String} (hn : d.Free n) : e.Free n := by
  intro s y hy
  obtain ⟨x, hx, hxy⟩ := h.symm.table hy
  rw [hxy.1]
  exact hn s x hx

theorem reserved (h : d.Alike ids e) {n : String} (hn : d.Reserved n s) : e.Reserved n s := by
  intro t y hy
  obtain ⟨x, hx, hxy⟩ := h.symm.table hy
  rw [hxy.1]
  exact hn t x hx

theorem tidy (h : d.Alike ids e) (hd : d.Tidy) : e.Tidy where
  names := by
    intro s t y z hy hz hn
    obtain ⟨x, hx, hyx⟩ := h.symm.table hy
    obtain ⟨w, hw, hzw⟩ := h.symm.table hz
    exact hd.names hx hw (hyx.1.symm.trans (hn.trans hzw.1))
  headers := by
    intro s y hy
    obtain ⟨x, hx, hyx⟩ := h.symm.table hy
    rw [FramesAlike.headers_eq hyx.2]
    exact hd.headers hx

theorem keyed (h : d.Alike ids e) (hids : ids) (hd : d.Keyed) : e.Keyed := by
  intro s y hy
  obtain ⟨x, hx, hyx⟩ := h.symm.table hy
  rw [FramesAlike.ids_eq hyx.2 hids]
  exact hd hx

/-- Whether a chunk runs can be told from the looks. -/
theorem runs (h : d.Alike ids e) (hr : d.Runs b) : e.Runs b := by
  induction b using ChunkBody.kind_cases with
  | column b t ht =>
    obtain ⟨x, hx, hn, hf⟩ := (runs_column ht d).mp hr
    obtain ⟨y, hy, hxy⟩ := h.table hx
    exact (runs_column ht e).mpr ⟨y, hy, hxy.1.symm.trans hn, FramesAlike.runs hxy.2 hf⟩
  | duplicateSheet source copy =>
    obtain ⟨⟨x, hx, hn⟩, hnone, hfree⟩ := hr
    obtain ⟨y, hy, hxy⟩ := h.table hx
    exact ⟨⟨y, hy, hxy.1.symm.trans hn⟩, h.eq_none hnone, h.free hfree⟩
  | deleteSheet t =>
    obtain ⟨x, hx, hn⟩ := hr
    obtain ⟨y, hy, hxy⟩ := h.table hx
    exact ⟨y, hy, hxy.1.symm.trans hn⟩
  | renameSheet s old new =>
    obtain ⟨⟨x, hx, hn⟩, hfree⟩ := hr
    obtain ⟨y, hy, hxy⟩ := h.table hx
    exact ⟨⟨y, hy, hxy.1.symm.trans hn⟩, h.free hfree⟩
  | block b =>
    exact ⟨hr.deletes, hr.sheets, hr.names, hr.headers, fun o ho => h.reserved (hr.reserved o ho)⟩

/-- With ids it can also be told whether a chunk means the right columns. -/
theorem fits (h : d.Alike ids e) (hids : ids) (hf : d.Fits b) : e.Fits b := by
  refine ⟨h.runs hf.1, ?_⟩
  have hm := hf.2
  induction b using ChunkBody.kind_cases with
  | column b t ht =>
    refine (matches_column ht e).mpr fun y hy => ?_
    obtain ⟨x, hx, hyx⟩ := h.symm.table hy
    exact FramesAlike.fits (FramesAlike.symm hyx.2) hids ((matches_column ht d).mp hm x hx)
  | duplicateSheet | deleteSheet | renameSheet => exact fun _ ht => by cases ht
  | block b =>
    refine ⟨hm.ids, hm.access, hm.touches, ?_, ?_⟩
    · intro s hs
      exact ⟨h.eq_none (hm.created s hs).1, (hm.created s hs).2⟩
    · intro o ho hc
      obtain ⟨x, hx⟩ := Option.isSome_iff_exists.mp (hm.kept o ho hc)
      obtain ⟨y, hy, -⟩ := h.table hx
      rw [hy]
      rfl

/-- Chunks that run on a desk run on every desk that looks like it, whatever the values. -/
theorem allRun (h : d.Alike ids e) {ks : List Chunk} (hr : d.AllRun I ks) : e.AllRun J ks := by
  induction ks generalizing d e with
  | nil => trivial
  | cons k rest ih => exact ⟨h.runs hr.1, ih (h.step k.body) hr.2⟩

end Desk.Alike

end SheetScript.Symbolic
