import SheetScript.Chunk.Basic
import SheetScript.Proofs.Collections

/-! # What footprints say

  The footprint of a chunk, read as statements about columns, sheets and names; and
  what the absence of a conflict with another footprint says about each of them.

  - `Footprint.Spares`: a column is neither read nor written.
  - `Footprint.Avoids`: no column of a sheet is read or written.
  - `Footprint.conflictsWith_comm`: a conflict is one from either side.
-/

namespace SheetScript

theorem Roster.meets_comm {α : Type} [DecidableEq α] (r s : Roster α) :
    Roster.meets r s = Roster.meets s r := by
  rw [Bool.eq_iff_iff, Roster.meets_iff, Roster.meets_iff]
  exact exists_congr fun _ => and_comm

namespace ColumnSet

@[simp] theorem overlaps_all_left (c : ColumnSet) : overlaps .all c = true := by
  cases c <;> rfl

@[simp] theorem overlaps_all_right (c : ColumnSet) : overlaps c .all = true := by
  cases c <;> rfl

theorem overlaps_comm (c e : ColumnSet) : c.overlaps e = e.overlaps c := by
  cases c with
  | all => rw [overlaps_all_left, overlaps_all_right]
  | only is =>
    cases e with
    | all => rw [overlaps_all_left, overlaps_all_right]
    | only js => exact Roster.meets_comm is js

/-- Sets without a common column list their columns. -/
theorem overlaps_eq_false {c e : ColumnSet} (h : c.overlaps e = false) :
    ∃ is js, c = .only is ∧ e = .only js ∧ ∀ id ∈ is, id ∉ js := by
  cases c with
  | all =>
    rw [overlaps_all_left] at h
    cases h
  | only is =>
    cases e with
    | all =>
      rw [overlaps_all_right] at h
      cases h
    | only js => exact ⟨is, js, rfl, rfl, Roster.meets_eq_false_iff.mp h⟩

end ColumnSet

/-- Collections that do not overlap share no column of any sheet. -/
theorem ColumnAccess.overlaps_eq_false {a b : ColumnAccess} (h : a.overlaps b = false)
    {s : SheetId} {c e : ColumnSet} (hc : (s, c) ∈ a) (he : Dictionary.get? b s = some e) :
    c.overlaps e = false := by
  unfold ColumnAccess.overlaps at h
  have := List.any_eq_false.mp h (s, c) hc
  simpa [he] using this

/-- In ascending order the sheets of both collections are looked up. -/
theorem ColumnAccess.overlaps_iff {a b : ColumnAccess} (hb : b.Ascending) :
    a.overlaps b = true ↔ ∃ s c e, (s, c) ∈ a ∧ (s, e) ∈ b ∧ c.overlaps e = true := by
  unfold ColumnAccess.overlaps
  rw [List.any_eq_true]
  constructor
  · rintro ⟨⟨s, c⟩, hc, he⟩
    cases hget : Dictionary.get? b s with
    | none =>
      rw [hget] at he
      cases he
    | some e =>
      rw [hget] at he
      exact ⟨s, c, e, hc, Dictionary.mem_of_get? hget, he⟩
  · rintro ⟨s, c, e, hc, he, hover⟩
    refine ⟨(s, c), hc, ?_⟩
    rw [hb.get?_eq_some_iff.mpr he]
    exact hover

theorem ColumnAccess.overlaps_comm {a b : ColumnAccess} (ha : a.Ascending) (hb : b.Ascending) :
    a.overlaps b = b.overlaps a := by
  have key : ∀ {a b : ColumnAccess}, a.Ascending → b.Ascending → a.overlaps b = true →
      b.overlaps a = true := by
    intro a b ha hb h
    obtain ⟨s, c, e, hc, he, hover⟩ := (overlaps_iff hb).mp h
    exact (overlaps_iff ha).mpr ⟨s, e, c, he, hc, (ColumnSet.overlaps_comm c e) ▸ hover⟩
  rw [Bool.eq_iff_iff]
  exact ⟨key ha hb, key hb ha⟩

theorem ColumnAccess.ascending_add {m : ColumnAccess} (h : m.Ascending) (s : SheetId)
    (c : ColumnSet) : (m.add s c).Ascending := by
  unfold ColumnAccess.add
  split
  · exact h.insert _ _
  · exact h.insert _ _

/-- Access to all columns of one more sheet. -/
theorem ColumnAccess.get?_add_all (m : ColumnAccess) (s t : SheetId) :
    Dictionary.get? (m.add s .all) t = if s = t then some .all else Dictionary.get? m t := by
  unfold ColumnAccess.add
  split
  · next d _ =>
    have hunion : d.union .all = .all := by cases d <;> rfl
    rw [Dictionary.get?_insert, hunion]
  · rw [Dictionary.get?_insert]

namespace Footprint

variable {f g : Footprint} {s : SheetId} {c : ColumnSet} {id : ColumnId}

/-! ### Accesses -/

theorem get?_foldl_all (ss : List SheetId) (m : ColumnAccess) (s : SheetId) :
    Dictionary.get? (ss.foldl (fun m s => Dictionary.insert m s .all) m) s
      = if s ∈ ss then some .all else Dictionary.get? m s := by
  induction ss generalizing m with
  | nil => simp
  | cons t rest ih =>
    rw [List.foldl_cons, ih, Dictionary.get?_insert]
    by_cases hs : s ∈ rest
    · simp [hs]
    · by_cases ht : t = s
      · simp [ht]
      · simp [hs, ht, Ne.symm ht]

theorem get?_effectiveWrites (f : Footprint) (s : SheetId) :
    Dictionary.get? f.effectiveWrites s
      = if s ∈ f.creates ++ f.deletes then some .all else Dictionary.get? f.writes s :=
  get?_foldl_all _ _ _

theorem effectiveWrites_eq (hc : f.creates = []) (hd : f.deletes = []) :
    f.effectiveWrites = f.writes := by
  simp [effectiveWrites, hc, hd]

/-- A column collection of a sheet that the code reads or changes. -/
def Accesses (f : Footprint) (s : SheetId) (c : ColumnSet) : Prop :=
  (s, c) ∈ f.reads ∨ (s, c) ∈ f.effectiveWrites

/-- The code neither reads nor changes the column. -/
def Spares (f : Footprint) (s : SheetId) (id : ColumnId) : Prop :=
  ∀ c, f.Accesses s c → ∃ ids, c = .only ids ∧ id ∉ ids

/-- The code neither reads nor changes any column of the sheet. -/
def Avoids (f : Footprint) (s : SheetId) : Prop := ∀ c, ¬ f.Accesses s c

/-- What the code is declared to write it accesses, at least. -/
theorem accesses_of_mem_writes (h : (s, c) ∈ f.writes) : f.Accesses s c ∨ f.Accesses s .all := by
  by_cases hs : s ∈ f.creates ++ f.deletes
  · right
    exact .inr (Dictionary.mem_of_get? (by rw [get?_effectiveWrites, if_pos hs]))
  · left
    -- other sheets are put in on top, which leaves the entry where it is
    have key : ∀ (ss : List SheetId) (m : ColumnAccess), s ∉ ss → (s, c) ∈ m →
        (s, c) ∈ ss.foldl (fun m s => Dictionary.insert m s .all) m := by
      intro ss
      induction ss with
      | nil => exact fun m _ hm => hm
      | cons t rest ih =>
        intro m hnot hm
        have hts : s ≠ t := fun h => hnot (h ▸ List.mem_cons_self)
        have hrest : s ∉ rest := fun h => hnot (List.mem_cons_of_mem _ h)
        exact ih _ hrest (Dictionary.mem_insert_of_mem hm (Ne.symm hts))
    exact .inr (key _ _ hs h)

theorem Spares.not_all (h : f.Spares s id) : ¬ f.Accesses s .all := by
  intro hall
  obtain ⟨ids, hids, -⟩ := h _ hall
  cases hids

theorem Spares.not_mem (h : f.Spares s id) {ids : List ColumnId}
    (hids : f.Accesses s (.ofList ids)) : id ∉ ids := by
  obtain ⟨is, his, hid⟩ := h _ hids
  obtain rfl : Roster.ofList ids = is := ColumnSet.only.inj his
  simpa using hid

theorem Avoids.spares (h : f.Avoids s) (id : ColumnId) : f.Spares s id :=
  fun c hc => absurd hc (h c)

/-! ### No conflict -/

theorem conflictsWith_eq_false (h : f.conflictsWith g = false) :
    f.effectiveWrites.overlaps g.reads = false
      ∧ f.effectiveWrites.overlaps g.effectiveWrites = false
      ∧ f.reads.overlaps g.effectiveWrites = false ∧ Roster.meets f.positions g.positions = false
      ∧ Roster.meets f.binds g.binds = false ∧ Roster.meets f.binds g.uses = false
      ∧ Roster.meets f.uses g.binds = false := by
  simpa [conflictsWith, Bool.or_eq_false_iff, and_assoc] using h

/-- What one piece of code accesses the other does not change. -/
theorem overlaps_of_clear (h : f.conflictsWith g = false)
    (hg : Dictionary.get? g.effectiveWrites s = some c) {e : ColumnSet} (he : f.Accesses s e) :
    e.overlaps c = false := by
  obtain ⟨-, hww, hrw, -⟩ := conflictsWith_eq_false h
  rcases he with he | he
  · exact ColumnAccess.overlaps_eq_false hrw he hg
  · exact ColumnAccess.overlaps_eq_false hww he hg

theorem spares_of_clear (h : f.conflictsWith g = false) {ids : List ColumnId}
    (hg : Dictionary.get? g.effectiveWrites s = some (.ofList ids)) (hid : id ∈ ids) :
    f.Spares s id := by
  intro e he
  have hover := overlaps_of_clear h hg he
  cases e with
  | all =>
    -- all columns of a sheet overlap with any
    simp [ColumnSet.ofList] at hover
  | only is =>
    refine ⟨is, rfl, fun hmem => ?_⟩
    exact Roster.meets_eq_false_iff.mp hover id hmem (by simpa using hid)

theorem avoids_of_clear (h : f.conflictsWith g = false)
    (hg : Dictionary.get? g.effectiveWrites s = some .all) : f.Avoids s := by
  intro e he
  have hover := overlaps_of_clear h hg he
  simp at hover

/-- What one piece of code changes the other does not read. -/
theorem not_mem_of_clear (h : f.conflictsWith g = false) {ids is : List ColumnId}
    (hf : (s, .ofList is) ∈ f.effectiveWrites)
    (hg : Dictionary.get? g.reads s = some (.ofList ids)) (hid : id ∈ ids) : id ∉ is := by
  obtain ⟨hwr, -⟩ := conflictsWith_eq_false h
  have hover := ColumnAccess.overlaps_eq_false hwr hf hg
  intro hmem
  exact Roster.meets_eq_false_iff.mp hover id (by simpa using hmem) (by simpa using hid)

theorem not_mem_positions_of_clear (h : f.conflictsWith g = false) (hg : s ∈ g.positions) :
    s ∉ f.positions := by
  obtain ⟨-, -, -, hp, -⟩ := conflictsWith_eq_false h
  exact fun hf => Roster.meets_eq_false_iff.mp hp s hf hg

theorem not_mem_binds_of_clear (h : f.conflictsWith g = false) {n : Name}
    (hg : n ∈ g.binds ∨ n ∈ g.uses) : n ∉ f.binds := by
  obtain ⟨-, -, -, -, hbb, hbu, -⟩ := conflictsWith_eq_false h
  intro hf
  rcases hg with hg | hg
  · exact Roster.meets_eq_false_iff.mp hbb n hf hg
  · exact Roster.meets_eq_false_iff.mp hbu n hf hg

/-! ### Order -/

/-- The sheets of a footprint are in order. -/
structure Ordered (f : Footprint) : Prop where
  reads : f.reads.Ascending
  writes : f.writes.Ascending

theorem Ordered.effectiveWrites (h : f.Ordered) : f.effectiveWrites.Ascending := by
  have key : ∀ (ss : List SheetId) (m : ColumnAccess), m.Ascending →
      (ss.foldl (fun m s => Dictionary.insert m s .all) m).Ascending := by
    intro ss
    induction ss with
    | nil => exact fun m hm => hm
    | cons s rest ih => exact fun m hm => ih _ (hm.insert _ _)
  exact key _ _ h.writes

/-- Either of two pieces of code may be asked whether it may change places with the
  other. -/
theorem conflictsWith_comm (hf : f.Ordered) (hg : g.Ordered) :
    f.conflictsWith g = g.conflictsWith f := by
  unfold conflictsWith
  rw [ColumnAccess.overlaps_comm hf.effectiveWrites hg.reads,
    ColumnAccess.overlaps_comm hf.effectiveWrites hg.effectiveWrites,
    ColumnAccess.overlaps_comm hf.reads hg.effectiveWrites, Roster.meets_comm f.positions,
    Roster.meets_comm f.binds g.binds, Roster.meets_comm f.binds g.uses,
    Roster.meets_comm f.uses]
  ac_rfl

theorem ordered_empty : ({} : Footprint).Ordered :=
  ⟨Dictionary.ascending_nil, Dictionary.ascending_nil⟩

theorem Ordered.read (h : f.Ordered) (s : SheetId) (c : ColumnSet) : (f.read s c).Ordered :=
  ⟨ColumnAccess.ascending_add h.reads s c, h.writes⟩

theorem Ordered.write (h : f.Ordered) (s : SheetId) (c : ColumnSet) : (f.write s c).Ordered :=
  ⟨h.reads, ColumnAccess.ascending_add h.writes s c⟩

theorem Ordered.congr (h : f.Ordered) (hr : g.reads = f.reads) (hw : g.writes = f.writes) :
    g.Ordered := ⟨hr ▸ h.reads, hw ▸ h.writes⟩

/-! ### Names -/

theorem foldl_bind {α : Type} (as : List α) (name : α → Name) (f : Footprint) :
    as.foldl (fun f a => f.bind (name a)) f
      = { f with binds := as.foldl (fun r a => Roster.insert r (name a)) f.binds } := by
  induction as generalizing f with
  | nil => rfl
  | cons a rest ih => rw [List.foldl_cons, ih]; rfl

theorem mem_foldl_insert {α : Type} (as : List α) (name : α → Name) (r : Roster Name) (n : Name) :
    n ∈ as.foldl (fun r a => Roster.insert r (name a)) r ↔ (∃ a ∈ as, name a = n) ∨ n ∈ r := by
  induction as generalizing r with
  | nil => simp
  | cons a rest ih =>
    rw [List.foldl_cons, ih, Roster.mem_insert, List.exists_mem_cons_iff]
    grind

end Footprint

namespace ChunkBody

variable {b : ChunkBody} {t : Target} {s : SheetId} {id : ColumnId}

/-! ### Chunks -/

/-- The sheet of a chunk that edits single columns. -/
def columnTarget? : ChunkBody → Option Target
  | .addColumn t _ _ _ _ _ => some t
  | .deleteColumns t _ _ => some t
  | .renameColumn t _ _ _ => some t
  | .setFormula t _ _ _ _ => some t
  | .changeType t _ _ _ => some t
  | _ => none

/-- Either a chunk edits single columns, or it is about whole sheets. -/
@[elab_as_elim]
theorem kind_cases {motive : ChunkBody → Prop}
    (column : ∀ b t, b.columnTarget? = some t → motive b)
    (duplicateSheet : ∀ source copy, motive (.duplicateSheet source copy))
    (deleteSheet : ∀ t, motive (.deleteSheet t))
    (renameSheet : ∀ s old new, motive (.renameSheet s old new))
    (block : ∀ b, motive (.block b)) (b : ChunkBody) : motive b := by
  cases b with
  | duplicateSheet source copy => exact duplicateSheet source copy
  | deleteSheet t => exact deleteSheet t
  | renameSheet s old new => exact renameSheet s old new
  | block b => exact block b
  | addColumn t => exact column _ t rfl
  | deleteColumns t => exact column _ t rfl
  | renameColumn t => exact column _ t rfl
  | setFormula t => exact column _ t rfl
  | changeType t => exact column _ t rfl

/-- The columns that a chunk edits one by one. -/
def editedIds : ChunkBody → List ColumnId
  | .addColumn _ id _ _ _ _ => [id]
  | .deleteColumns _ ids _ => ids
  | .renameColumn _ id _ _ => [id]
  | .setFormula _ id _ _ _ => [id]
  | .changeType _ id _ _ => [id]
  | _ => []

/-- Whether a chunk edits a column of a sheet. -/
def Edits (b : ChunkBody) (s : SheetId) (id : ColumnId) : Prop :=
  (∃ t ∈ b.columnTarget?, t.sheet = s) ∧ id ∈ b.editedIds

/-- Whether a chunk is a block, of which only the footprint is known. -/
def isBlock : ChunkBody → Bool
  | .block _ => true
  | _ => false

/-- Whether a chunk is a block that accesses a sheet, but not the column. -/
def Overlooks (b : ChunkBody) (s : SheetId) (id : ColumnId) : Prop :=
  b.isBlock = true ∧ b.footprint.Spares s id ∧ ¬ b.footprint.Avoids s

/-- The columns that the expression of a chunk reads. -/
def readIds : ChunkBody → List ColumnId
  | .addColumn _ _ _ _ _ reads => reads
  | .setFormula _ _ _ _ reads => reads
  | _ => []

theorem footprint_deleteColumns (t : Target) (ids : List ColumnId) (hs : List Header) :
    (ChunkBody.deleteColumns t ids hs).footprint =
      { writes := [(t.sheet, .ofList ids)]
        uses := [.variable t.df]
        binds := hs.foldl (fun r h => Roster.insert r (.header t.sheet h)) [] } :=
  Footprint.foldl_bind hs (fun h => .header t.sheet h) _

theorem writes_column (ht : b.columnTarget? = some t) :
    b.footprint.effectiveWrites = [(t.sheet, .ofList (b.editedIds))] := by
  cases b with
  | deleteColumns u ids hs =>
    cases ht
    simp [footprint_deleteColumns, Footprint.effectiveWrites, editedIds]
  | addColumn | renameColumn | setFormula | changeType =>
    cases ht
    simp [ChunkBody.footprint, Footprint.effectiveWrites, Footprint.read, Footprint.write,
      Footprint.use, Footprint.bind, Footprint.positional, ColumnAccess.add, Dictionary.insert,
      editedIds]
  | duplicateSheet | deleteSheet | renameSheet | block => cases ht

theorem get?_writes_column (ht : b.columnTarget? = some t) :
    Dictionary.get? b.footprint.effectiveWrites t.sheet = some (.ofList (b.editedIds)) := by
  simp [writes_column ht, Dictionary.get?_cons]

theorem reads_addColumn (t : Target) (id : ColumnId) (h : Header) (i : Nat) (v : Option String)
    (reads : List ColumnId) :
    (ChunkBody.addColumn t id h i v reads).footprint.reads = [(t.sheet, .ofList reads)] := by
  simp [ChunkBody.footprint, Footprint.read, Footprint.write, Footprint.use, Footprint.bind,
    Footprint.positional, ColumnAccess.add, Dictionary.insert]

theorem reads_setFormula (t : Target) (id : ColumnId) (h : Header) (v : String)
    (reads : List ColumnId) :
    (ChunkBody.setFormula t id h v reads).footprint.reads = [(t.sheet, .ofList reads)] := by
  simp [ChunkBody.footprint, Footprint.read, Footprint.write, Footprint.use, ColumnAccess.add,
    Dictionary.insert]

theorem positions_addColumn (t : Target) (id : ColumnId) (h : Header) (i : Nat)
    (v : Option String) (reads : List ColumnId) :
    t.sheet ∈ (ChunkBody.addColumn t id h i v reads).footprint.positions := by
  simp [ChunkBody.footprint, Footprint.use, Footprint.bind, Footprint.positional]

/-- An edit of columns that spares one of its sheet edits and reads others. -/
theorem spares_column (ht : b.columnTarget? = some t) (h : b.footprint.Spares t.sheet id) :
    id ∉ b.editedIds ∧ id ∉ b.readIds := by
  refine ⟨h.not_mem (.inr (by simp [writes_column ht])), ?_⟩
  cases b with
  | addColumn u i k j v reads =>
    cases ht
    exact h.not_mem (.inl (by simp [reads_addColumn, readIds]))
  | setFormula u i k v reads =>
    cases ht
    exact h.not_mem (.inl (by simp [reads_setFormula, readIds]))
  | deleteColumns | renameColumn | changeType => exact List.not_mem_nil
  | duplicateSheet | deleteSheet | renameSheet | block => cases ht

theorem footprint_block (b : Block) :
    (ChunkBody.block b).footprint = { b.footprint with
      binds := b.outputs.foldl (fun r o => Roster.insert r (.variable o.name)) b.footprint.binds } :=
  Footprint.foldl_bind b.outputs (fun o => .variable o.name) b.footprint

theorem creates_column (ht : b.columnTarget? = some t) : b.footprint.creates = [] := by
  cases b with
  | deleteColumns u ids hs => rw [footprint_deleteColumns]
  | addColumn | renameColumn | setFormula | changeType =>
    simp [ChunkBody.footprint, Footprint.read, Footprint.write, Footprint.use, Footprint.bind,
      Footprint.positional]
  | duplicateSheet | deleteSheet | renameSheet | block => cases ht

theorem creates_duplicateSheet (source copy : Target) :
    (ChunkBody.duplicateSheet source copy).footprint.creates = [copy.sheet] := by
  simp [ChunkBody.footprint, Footprint.read, Footprint.create, Footprint.use, Footprint.bind,
    Roster.insert]

theorem touched_duplicateSheet (source copy : Target) :
    (ChunkBody.duplicateSheet source copy).footprint.touched = [copy.sheet] := by
  simp [ChunkBody.footprint, Footprint.read, Footprint.create, Footprint.use, Footprint.bind,
    Footprint.touched, Footprint.effectiveWrites, Roster.insert, Dictionary.insert]

theorem creates_deleteSheet (t : Target) :
    (ChunkBody.deleteSheet t).footprint.creates = [] := by
  simp [ChunkBody.footprint, Footprint.delete, Footprint.bind]

theorem touched_deleteSheet (t : Target) :
    (ChunkBody.deleteSheet t).footprint.touched = [t.sheet] := by
  simp [ChunkBody.footprint, Footprint.delete, Footprint.bind, Footprint.touched,
    Footprint.effectiveWrites, Roster.insert, Dictionary.insert]

theorem touched_renameSheet (s : SheetId) (old new : String) :
    (ChunkBody.renameSheet s old new).footprint.touched = [s] := by
  simp [ChunkBody.footprint, Footprint.write, Footprint.bind, Footprint.touched,
    Footprint.effectiveWrites, ColumnAccess.add, Dictionary.insert]

theorem creates_renameSheet (s : SheetId) (old new : String) :
    (ChunkBody.renameSheet s old new).footprint.creates = [] := by
  simp [ChunkBody.footprint, Footprint.write, Footprint.bind]

theorem creates_block (b : Block) :
    (ChunkBody.block b).footprint.creates = b.footprint.creates := by
  rw [footprint_block]

theorem accesses_duplicateSheet (source copy : Target) :
    (ChunkBody.duplicateSheet source copy).footprint.Accesses source.sheet .all
      ∧ (ChunkBody.duplicateSheet source copy).footprint.Accesses copy.sheet .all := by
  constructor
  · left
    simp [ChunkBody.footprint, Footprint.read, Footprint.create, Footprint.use, Footprint.bind,
      ColumnAccess.add, Dictionary.insert]
  · right
    simp [ChunkBody.footprint, Footprint.read, Footprint.create, Footprint.use, Footprint.bind,
      Footprint.effectiveWrites, Roster.insert, Dictionary.insert]

theorem get?_writes_deleteSheet (t : Target) :
    Dictionary.get? (ChunkBody.deleteSheet t).footprint.effectiveWrites t.sheet = some .all := by
  simp [ChunkBody.footprint, Footprint.delete, Footprint.bind, Footprint.effectiveWrites,
    Roster.insert, Dictionary.insert, Dictionary.get?_cons]

theorem get?_writes_renameSheet (s : SheetId) (old new : String) :
    Dictionary.get? (ChunkBody.renameSheet s old new).footprint.effectiveWrites s
      = some .all := by
  simp [ChunkBody.footprint, Footprint.write, Footprint.bind, Footprint.effectiveWrites,
    ColumnAccess.add, Dictionary.insert, Dictionary.get?_cons]

theorem accesses_block {b : Block} {c : ColumnSet} :
    (ChunkBody.block b).footprint.Accesses s c ↔ b.footprint.Accesses s c := by
  rw [footprint_block]
  rfl

theorem effectiveWrites_block (b : Block) :
    (ChunkBody.block b).footprint.effectiveWrites = b.footprint.effectiveWrites := by
  rw [footprint_block]
  rfl

theorem reads_block (b : Block) :
    (ChunkBody.block b).footprint.reads = b.footprint.reads := by
  rw [footprint_block]

theorem touched_block (b : Block) :
    (ChunkBody.block b).footprint.touched = b.footprint.touched := by
  rw [footprint_block]
  rfl

/-- The sheets of every footprint are in order, if blocks come with them so. -/
theorem ordered_footprint {b : ChunkBody}
    (hb : ∀ k, b = .block k → k.footprint.Ordered) : b.footprint.Ordered := by
  have h := Footprint.ordered_empty
  cases b with
  | addColumn t id header index value reads =>
    exact ((h.read _ _).write _ _).congr rfl rfl
  | deleteColumns t is hs =>
    rw [footprint_deleteColumns]
    exact (h.write t.sheet (.ofList is)).congr rfl rfl
  | renameColumn t id old new => exact (h.write _ _).congr rfl rfl
  | setFormula t id header value reads => exact ((h.read _ _).write _ _).congr rfl rfl
  | changeType t id header statements => exact ((h.read _ _).write _ _).congr rfl rfl
  | duplicateSheet source copy => exact (h.read _ _).congr rfl rfl
  | deleteSheet t => exact h.congr rfl rfl
  | renameSheet s old new => exact (h.write _ _).congr rfl rfl
  | block k =>
    rw [footprint_block]
    exact (hb k rfl).congr rfl rfl

/-! ### Names that chunks take -/

theorem binds_block {b : Block} {o : BlockOutput} (ho : o ∈ b.outputs) :
    .variable o.name ∈ (ChunkBody.block b).footprint.binds := by
  rw [footprint_block]
  exact (Footprint.mem_foldl_insert _ _ _ _).mpr (.inl ⟨o, ho, rfl⟩)

theorem binds_duplicateSheet (source copy : Target) :
    .variable copy.df ∈ (ChunkBody.duplicateSheet source copy).footprint.binds := by
  simp [ChunkBody.footprint, Footprint.bind]

theorem binds_deleteSheet (t : Target) :
    .variable t.df ∈ (ChunkBody.deleteSheet t).footprint.binds := by
  simp [ChunkBody.footprint, Footprint.bind]

theorem binds_renameSheet (s : SheetId) (old new : String) :
    .variable old ∈ (ChunkBody.renameSheet s old new).footprint.binds
      ∧ .variable new ∈ (ChunkBody.renameSheet s old new).footprint.binds := by
  simp [ChunkBody.footprint, Footprint.bind]

theorem binds_addColumn (t : Target) (id : ColumnId) (h : Header) (i : Nat) (v : Option String)
    (reads : List ColumnId) :
    .header t.sheet h ∈ (ChunkBody.addColumn t id h i v reads).footprint.binds := by
  simp [ChunkBody.footprint, Footprint.bind]

theorem binds_deleteColumns {t : Target} {ids : List ColumnId} {hs : List Header} {h : Header}
    (hh : h ∈ hs) : .header t.sheet h ∈ (ChunkBody.deleteColumns t ids hs).footprint.binds := by
  rw [footprint_deleteColumns]
  exact (Footprint.mem_foldl_insert _ _ _ _).mpr (.inl ⟨h, hh, rfl⟩)

theorem binds_renameColumn (t : Target) (id : ColumnId) (old new : Header) :
    .header t.sheet old ∈ (ChunkBody.renameColumn t id old new).footprint.binds
      ∧ .header t.sheet new ∈ (ChunkBody.renameColumn t id old new).footprint.binds := by
  simp [ChunkBody.footprint, Footprint.bind]

end ChunkBody

end SheetScript
