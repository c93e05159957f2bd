import SheetScript.Proofs.Desk.Patches

/-! # Edits of one frame in either order

  Two edits of a frame are apart if neither edits or reads a column that the other
  edits, and neither takes or frees a header that the other does.  Then each finds
  after the other what it finds before, and they lead to one frame in either order.

  The exception is an insertion and a deletion.  An insertion counts columns from the
  left, so it goes elsewhere if a column is gone to the left of its place.

  - `Apart.retouch_comm`: two edits of which none is an insertion.
  - `Apart.retouch_insert`: an insertion and another edit.
  - `Apart.exchange_iff`: when two edits run in the other order and lead to one frame.
-/

namespace SheetScript

/-- Where a chunk inserts a column. -/
def ChunkBody.index? : ChunkBody → Option Nat
  | .addColumn _ _ _ index _ _ => some index
  | _ => none

/-- The columns that a chunk deletes one by one. -/
def ChunkBody.deletedIds : ChunkBody → List ColumnId
  | .deleteColumns _ ids _ => ids
  | _ => []

namespace Symbolic.SymbolicFrame

variable {τ : Type} {I : Interpretation τ} {f : SymbolicFrame τ} {a b : ChunkBody}

/-! ### Edits by id -/

/-- What an edit that inserts nothing makes of a column; `reads` are the values that it
  reads. -/
def act (I : Interpretation τ) (reads : List (Option τ)) (b : ChunkBody) (c : SymbolicColumn τ) :
    Option (SymbolicColumn τ) :=
  if c.id ∈ b.editedIds then
    match b with
    | .setFormula _ _ _ value _ => some { c with value := I.value value reads }
    | .deleteColumns .. => none
    | .renameColumn _ _ _ new => some { c with header := new }
    | .changeType _ _ _ statements => some { c with value := I.retyped statements c.value }
    | _ => some c
  else some c

section Act

variable {reads : List (Option τ)} {c e : SymbolicColumn τ}

theorem act_of_not_mem (h : c.id ∉ b.editedIds) : act I reads b c = some c := if_neg h

theorem id_of_act (h : act I reads b c = some e) : e.id = c.id := by
  unfold act at h
  split at h
  · split at h <;> cases h <;> rfl
  · cases h
    rfl

/-- A column that is not deleted stays. -/
theorem act_isSome (h : c.id ∉ b.deletedIds) : (act I reads b c).isSome := by
  unfold act
  split
  · next hid =>
    cases b with
    | deleteColumns t ids hs => exact absurd hid h
    | _ => rfl
  · rfl

theorem act_eq_none (h : c.id ∈ b.deletedIds) : act I reads b c = none := by
  cases b with
  | deleteColumns t ids hs => exact if_pos h
  | _ => cases h

end Act

/-- A column under a header that is meant is the column that is meant. -/
theorem HasColumn.header_iff_id (hids : (ids f).Nodup) (hh : (headers f).Nodup) {id : ColumnId}
    {h : Header} (hc : HasColumn f id h) {c : SymbolicColumn τ} (hmem : c ∈ f) :
    c.header = h ↔ c.id = id := by
  obtain ⟨e, he, rfl, rfl⟩ := hc
  constructor
  · intro heq
    rw [eq_of_header hh hmem he heq]
  · intro heq
    rw [eq_of_id hids hmem he heq]

/-- An edit that inserts nothing goes column by column. -/
theorem retouch_eq (hids : (ids f).Nodup) (hh : (headers f).Nodup) (hm : Matches f b)
    (hb : b.index? = none) :
    retouch I f b = f.filterMap (act I (b.readIds.map (Machine.valueOf? f)) b) := by
  have honHeader : ∀ {id h} {φ : SymbolicColumn τ → SymbolicColumn τ}, HasColumn f id h →
      Machine.onHeader f h φ = f.filterMap fun c => if c.id ∈ [id] then some (φ c) else some c := by
    intro id h φ hc
    unfold Machine.onHeader
    rw [← List.filterMap_eq_map]
    refine List.filterMap_congr fun c hmem => ?_
    have hiff := hc.header_iff_id hids hh hmem
    by_cases hid : c.id = id
    · simp [hid, hiff.mpr hid]
    · simp [hid, mt hiff.mp hid]
  cases b with
  | addColumn t id header index value reads => cases hb
  | setFormula t id header value reads => exact honHeader hm
  | renameColumn t id old new => exact honHeader hm
  | changeType t id header statements => exact honHeader hm
  | deleteColumns t is hs =>
    rw [retouch, ← List.filterMap_eq_filter]
    refine List.filterMap_congr fun c hc => ?_
    have hiff : c.header ∈ hs ↔ c.id ∈ is := by
      constructor
      · intro hin
        obtain ⟨id, hid, hcol⟩ := hasColumn_of_deleted hm hin
        rwa [(hcol.header_iff_id hids hh hc).mp rfl]
      · exact header_mem_of_deleted hids hm hc
    by_cases hid : c.id ∈ is
    · simp [act, ChunkBody.editedIds, hid, hiff.mpr hid, Option.guard]
    · simp [act, ChunkBody.editedIds, hid, mt hiff.mp hid, Option.guard]
  | duplicateSheet | deleteSheet | renameSheet | block =>
    rw [List.filterMap_congr fun c _ => act_of_not_mem List.not_mem_nil, List.filterMap_some]
    rfl

/-! ### What an edit leaves alone -/

/-- Edited columns apart, a frame has the columns that it had. -/
theorem mem_retouch (hids : (ids f).Nodup) (hh : (headers f).Nodup) (hm : Matches f b)
    {c : SymbolicColumn τ} (hc : c.id ∉ b.editedIds) : c ∈ retouch I f b ↔ c ∈ f := by
  cases hb : b.index? with
  | some i =>
    cases b with
    | addColumn t id header index value reads =>
      have hne : ∀ v, c ≠ ⟨id, header, v⟩ := by
        rintro v rfl
        exact hc (List.mem_singleton_self _)
      rw [retouch, List.mem_append, List.mem_cons, or_iff_right (hne _), ← List.mem_append,
        List.take_append_drop]
    | _ => cases hb
  | none =>
    rw [retouch_eq hids hh hm hb, List.mem_filterMap]
    constructor
    · rintro ⟨e, he, hact⟩
      rw [id_of_act hact] at hc
      rw [act_of_not_mem hc] at hact
      exact Option.some.inj hact ▸ he
    · intro hmem
      exact ⟨c, hmem, act_of_not_mem hc⟩

theorem hasColumn_retouch (hids : (ids f).Nodup) (hh : (headers f).Nodup) (hm : Matches f b)
    {id : ColumnId} {h : Header} (hid : id ∉ b.editedIds) :
    HasColumn (retouch I f b) id h ↔ HasColumn f id h := by
  unfold HasColumn
  refine exists_congr fun c => ?_
  constructor
  · rintro ⟨hc, rfl, rfl⟩
    exact ⟨(mem_retouch hids hh hm hid).mp hc, rfl, rfl⟩
  · rintro ⟨hc, rfl, rfl⟩
    exact ⟨(mem_retouch hids hh hm hid).mpr hc, rfl, rfl⟩

theorem mem_ids_retouch (hids : (ids f).Nodup) (hh : (headers f).Nodup) (hm : Matches f b)
    {id : ColumnId} (hid : id ∉ b.editedIds) : id ∈ ids (retouch I f b) ↔ id ∈ ids f := by
  rw [mem_ids, mem_ids]
  refine exists_congr fun c => ?_
  constructor
  · rintro ⟨hc, rfl⟩
    exact ⟨(mem_retouch hids hh hm hid).mp hc, rfl⟩
  · rintro ⟨hc, rfl⟩
    exact ⟨(mem_retouch hids hh hm hid).mpr hc, rfl⟩

/-- A header that an edit does not bind is in use after it if it was before. -/
theorem mem_headers_retouch_iff {t : Target} (ht : b.columnTarget? = some t) {h : Header}
    (hn : .header t.sheet h ∉ b.footprint.binds) :
    h ∈ headers (retouch I f b) ↔ h ∈ headers f := by
  refine ⟨fun hin => ?_, mem_headers_retouch ht hn⟩
  obtain ⟨e, he, rfl⟩ := mem_headers.mp hin
  cases b with
  | addColumn u id header index value reads =>
    cases ht
    rw [retouch, List.mem_append, List.mem_cons] at he
    rcases he with he | rfl | he
    · exact mem_headers.mpr ⟨e, List.mem_of_mem_take he, rfl⟩
    · exact absurd (ChunkBody.binds_addColumn ..) hn
    · exact mem_headers.mpr ⟨e, List.mem_of_mem_drop he, rfl⟩
  | deleteColumns u is hs => exact mem_headers.mpr ⟨e, List.mem_of_mem_filter he, rfl⟩
  | renameColumn u id old new =>
    cases ht
    obtain ⟨k, hk, rfl⟩ := List.mem_map.mp he
    by_cases hold : k.header = old
    · rw [if_pos hold] at hn
      exact absurd (ChunkBody.binds_renameColumn ..).2 hn
    · rw [if_neg hold]
      exact mem_headers.mpr ⟨k, hk, rfl⟩
  | setFormula u id header value reads =>
    rwa [retouch, headers_onHeader_value f header fun _ => _] at hin
  | changeType u id header statements =>
    rwa [retouch, headers_onHeader_value f header fun e => _] at hin
  | duplicateSheet | deleteSheet | renameSheet | block => cases ht

/-- An edit means the columns of another frame, too, if the columns that it edits are
  there. -/
theorem Matches.congr {g : SymbolicFrame τ}
    (hcolumns : ∀ id ∈ b.editedIds, ∀ h, HasColumn f id h → HasColumn g id h)
    (hids : ∀ id ∈ b.editedIds, id ∉ ids f → id ∉ ids g) (hm : Matches f b) : Matches g b := by
  cases b with
  | addColumn t id header index value reads => exact hids id (List.mem_singleton_self _) hm
  | deleteColumns t is hs =>
    exact ⟨hm.1, fun p hp => hcolumns p.1 (List.of_mem_zip hp).1 p.2 (hm.2 p hp)⟩
  | renameColumn t id old new => exact hcolumns id (List.mem_singleton_self _) old hm
  | setFormula t id header value reads => exact hcolumns id (List.mem_singleton_self _) header hm
  | changeType t id header statements => exact hcolumns id (List.mem_singleton_self _) header hm
  | duplicateSheet | deleteSheet | renameSheet | block => trivial

/-- It runs there, too, if the headers that it takes are free and its place to insert at
  is there. -/
theorem Runs.congr {g : SymbolicFrame τ} {s : SheetId} (hr : Runs f b)
    (hcolumns : ∀ id ∈ b.editedIds, ∀ h, HasColumn f id h → HasColumn g id h)
    (htarget : ∃ t ∈ b.columnTarget?, t.sheet = s)
    (hheaders : ∀ h, .header s h ∈ b.footprint.binds → h ∉ headers f → h ∉ headers g)
    (hindex : ∀ i ∈ b.index?, i ≤ f.length → i ≤ g.length)
    (hm : Matches f b) : Runs g b := by
  obtain ⟨u, hu, rfl⟩ := htarget
  cases b with
  | addColumn t id header index value reads =>
    cases hu
    exact ⟨hheaders header (ChunkBody.binds_addColumn ..) hr.1, hindex index rfl hr.2⟩
  | deleteColumns t is hs =>
    refine ⟨hr.1, fun h hin => ?_⟩
    obtain ⟨id, hid, hc⟩ := hasColumn_of_deleted hm hin
    exact (hcolumns id hid h hc).mem_headers
  | renameColumn t id old new =>
    cases hu
    have hc := hcolumns id (List.mem_singleton_self _) old hm
    exact ⟨hc.mem_headers, hheaders new (ChunkBody.binds_renameColumn ..).2 hr.2⟩
  | setFormula t id header value reads =>
    exact (hcolumns id (List.mem_singleton_self _) header hm).mem_headers
  | changeType t id header statements =>
    exact (hcolumns id (List.mem_singleton_self _) header hm).mem_headers
  | duplicateSheet | deleteSheet | renameSheet | block => trivial

/-- An insertion that runs has its place in the frame. -/
theorem Runs.index_le (hr : Runs f b) {i : Nat} (hi : b.index? = some i) : i ≤ f.length := by
  cases b with
  | addColumn t id header index value reads =>
    cases hi
    exact hr.2
  | _ => cases hi

theorem retouch_addColumn (t : Target) (id : ColumnId) (header : Header) (index : Nat)
    (value : Option String) (reads : List ColumnId) :
    retouch I f (.addColumn t id header index value reads)
      = f.take index ++ ⟨id, header, I.value (value.getD "0") (reads.map (Machine.valueOf? f))⟩
          :: f.drop index := rfl

/-- Of columns that are not edited the same is seen. -/
theorem filter_retouch (hids : (ids f).Nodup) (hh : (headers f).Nodup) (hm : Matches f b)
    {is : Roster ColumnId} (his : ∀ id ∈ is, id ∉ b.editedIds) :
    (retouch I f b).filter (fun c => c.id ∈ is) = f.filter fun c => c.id ∈ is := by
  cases hb : b.index? with
  | some i =>
    cases b with
    | addColumn t id header index value reads =>
      have hid : id ∉ is := fun h => his id h (List.mem_singleton_self _)
      rw [retouch_addColumn, List.filter_append, List.filter_cons_of_neg (by simpa using hid),
        ← List.filter_append, List.take_append_drop]
    | _ => cases hb
  | none =>
    rw [retouch_eq hids hh hm hb, List.filter_filterMap, ← List.filterMap_eq_filter]
    refine List.filterMap_congr fun c _ => ?_
    by_cases hc : c.id ∈ is
    · simp [act_of_not_mem (his _ hc), hc, Option.guard]
    · -- what is made of a column that is not seen is not seen
      cases hact : act I (b.readIds.map (Machine.valueOf? f)) b c with
      | none => simp [hc, Option.guard]
      | some e => simp [id_of_act hact, hc, Option.guard]

/-- An edit that inserts nothing makes no frame longer. -/
theorem length_retouch_le (hids : (ids f).Nodup) (hh : (headers f).Nodup) (hm : Matches f b)
    (hb : b.index? = none) : (retouch I f b).length ≤ f.length := by
  rw [retouch_eq hids hh hm hb]
  exact List.length_filterMap_le _ _

/-! ### Two edits -/

/-- Whether neither of two edits of a sheet takes part in what the other does.  They
  insert one column at most, since both would count columns. -/
structure Apart (s : SheetId) (a b : ChunkBody) : Prop where
  left : ∃ t ∈ a.columnTarget?, t.sheet = s
  right : ∃ t ∈ b.columnTarget?, t.sheet = s
  edited : ∀ id ∈ a.editedIds, id ∉ b.editedIds
  reads : ∀ id ∈ a.readIds, id ∉ b.editedIds
  read : ∀ id ∈ b.readIds, id ∉ a.editedIds
  binds : ∀ h, .header s h ∈ a.footprint.binds → .header s h ∉ b.footprint.binds
  inserts : a.index? = none ∨ b.index? = none

/-- Whether an edit deletes a column to the left of the place where another inserts
  one. -/
def Displaces (f : SymbolicFrame τ) (b a : ChunkBody) : Prop :=
  ∃ i ∈ a.index?, ∃ c ∈ f.take i, c.id ∈ b.deletedIds

theorem Apart.symm {s : SheetId} (h : Apart s a b) : Apart s b a where
  left := h.right
  right := h.left
  edited := fun id hb ha => h.edited id ha hb
  reads := h.read
  read := h.reads
  binds := fun k hb ha => h.binds k ha hb
  inserts := h.inserts.symm

/-- If one of them inserts, the other does not. -/
theorem Apart.index?_eq_none {s : SheetId} (h : Apart s a b) {i : Nat} (hi : a.index? = some i) :
    b.index? = none := by
  refine h.inserts.resolve_left fun hnone => ?_
  rw [hnone] at hi
  cases hi

theorem not_displaces (h : a.index? = none) : ¬ Displaces f b a := by
  rintro ⟨i, hi, -⟩
  rw [h] at hi
  cases hi

/-- An edit that passes over a column passes over what another one makes of it. -/
theorem act_passed {reads reads' : List (Option τ)} {c : SymbolicColumn τ}
    (hc : c.id ∉ a.editedIds) :
    (act I reads a c).bind (act I reads' b) = act I reads' b c
      ∧ (act I reads' b c).bind (act I reads a) = act I reads' b c := by
  refine ⟨by rw [act_of_not_mem hc, Option.bind_some], ?_⟩
  cases hact : act I reads' b c with
  | none => rfl
  | some e =>
    rw [← id_of_act hact] at hc
    exact act_of_not_mem hc

/-- What two edits that insert nothing make of a column that they do not both edit. -/
theorem act_comm {reads reads' : List (Option τ)} {c : SymbolicColumn τ}
    (hc : c.id ∈ a.editedIds → c.id ∉ b.editedIds) :
    (act I reads a c).bind (act I reads' b) = (act I reads' b c).bind (act I reads a) := by
  by_cases ha : c.id ∈ a.editedIds
  · obtain ⟨hfirst, hlast⟩ := act_passed (I := I) (b := a) (hc ha)
    rw [hfirst, hlast]
  · obtain ⟨hfirst, hlast⟩ := act_passed (I := I) (b := b) ha
    rw [hfirst, hlast]

/-- The columns of a part of a frame in which nothing is deleted stay. -/
theorem length_filterMap_act {reads : List (Option τ)} {l : SymbolicFrame τ}
    (h : ∀ c ∈ l, c.id ∉ b.deletedIds) : (l.filterMap (act I reads b)).length = l.length := by
  rw [List.filterMap_length_eq_length]
  intro c hc
  exact act_isSome (h c hc)

/-- Where something is deleted, fewer columns are left. -/
theorem length_filterMap_act_lt {reads : List (Option τ)} {l : SymbolicFrame τ}
    (h : ∃ c ∈ l, c.id ∈ b.deletedIds) : (l.filterMap (act I reads b)).length < l.length := by
  obtain ⟨c, hc, hid⟩ := h
  refine lt_of_le_of_ne (List.length_filterMap_le _ _) fun heq => ?_
  have hsome := List.filterMap_length_eq_length.mp heq c hc
  rw [act_eq_none hid] at hsome
  cases hsome

/-- Where a new element of a list stands. -/
theorem append_cons_eq_iff {α : Type} {l r : List α} {x : α} {i : Nat} (hx : x ∉ l ++ r)
    (hi : i ≤ (l ++ r).length) :
    l ++ x :: r = (l ++ r).take i ++ x :: (l ++ r).drop i ↔ l.length = i := by
  constructor
  · intro heq
    rw [List.append_cons_inj_of_notMem] at heq
    · rw [heq.1, List.length_take_of_le hi]
    · exact fun h => hx (List.mem_append.mpr (.inl h))
    · exact fun h => hx (List.mem_append.mpr (.inr h))
  · rintro rfl
    rw [List.take_left, List.drop_left]

section Two

variable (hids : (ids f).Nodup) (hh : (headers f).Nodup) {s : SheetId} (hap : Apart s a b)
include hids hh hap

omit hids in
/-- Values that an edit does not change are read as before. -/
theorem Apart.map_valueOf? (hb : Matches f b) :
    a.readIds.map (Machine.valueOf? (retouch I f b)) = a.readIds.map (Machine.valueOf? f) :=
  List.map_congr_left fun id hid => valueOf?_retouch hh hb (hap.reads id hid)

/-- The columns that an edit means are where they were. -/
theorem Apart.matches_iff (hb : Matches f b) : Matches (retouch I f b) a ↔ Matches f a := by
  constructor
  · refine Matches.congr (fun id hid h hc => ?_) fun id hid hnot hin => ?_
    · exact (hasColumn_retouch hids hh hb (hap.edited id hid)).mp hc
    · exact hnot ((mem_ids_retouch hids hh hb (hap.edited id hid)).mpr hin)
  · refine Matches.congr (fun id hid h hc => ?_) fun id hid hnot hin => ?_
    · exact (hasColumn_retouch hids hh hb (hap.edited id hid)).mpr hc
    · exact hnot ((mem_ids_retouch hids hh hb (hap.edited id hid)).mp hin)

omit hids hh in
/-- The headers that an edit takes are as free as they were. -/
theorem Apart.mem_headers_iff {h : Header} (hbind : .header s h ∈ a.footprint.binds) :
    h ∈ headers (retouch I f b) ↔ h ∈ headers f := by
  obtain ⟨t, ht, rfl⟩ := hap.right
  exact mem_headers_retouch_iff ht (hap.binds h hbind)

/-- An edit runs after another one if its place to insert at is still there. -/
theorem Apart.runs_retouch (hb : Matches f b) (hr : Runs f a) (hm : Matches f a)
    (hindex : ∀ i, a.index? = some i → i ≤ (retouch I f b).length) : Runs (retouch I f b) a := by
  refine hr.congr (fun id hid h hc => ?_) hap.left (fun h hbind hnot hin => ?_)
    (fun i hi _ => hindex i hi) hm
  · exact (hasColumn_retouch hids hh hb (hap.edited id hid)).mpr hc
  · exact hnot ((hap.mem_headers_iff hbind).mp hin)

/-- An edit that runs after another one ran before it, too. -/
theorem Apart.runs_of_retouch (hb : Matches f b) (hr : Runs (retouch I f b) a)
    (hm : Matches f a) : Runs f a := by
  refine hr.congr (fun id hid h hc => ?_) hap.left (fun h hbind hnot hin => ?_)
    (fun i hi hle => ?_) ((hap.matches_iff hids hh hb).mpr hm)
  · exact (hasColumn_retouch hids hh hb (hap.edited id hid)).mp hc
  · exact hnot ((hap.mem_headers_iff hbind).mpr hin)
  · -- the other edit inserts nothing, so the frame was no shorter
    exact hle.trans (length_retouch_le hids hh hb (hap.index?_eq_none hi))

section Order

variable (hra : Runs f a) (ha : Matches f a) (hrb : Runs f b) (hb : Matches f b)
include hra ha hrb hb

omit hra in
/-- An edit that inserts nothing goes column by column after another one, too. -/
theorem Apart.retouch_eq (hindex : a.index? = none) :
    retouch I (retouch I f b) a
      = (retouch I f b).filterMap (act I (a.readIds.map (Machine.valueOf? f)) a) := by
  rw [SymbolicFrame.retouch_eq (ids_nodup_retouch hb hids) (headers_nodup_retouch hrb hh)
    ((hap.matches_iff hids hh hb).mpr ha) hindex, hap.map_valueOf? hh hb]

/-- Two edits that insert nothing lead to one frame in either order. -/
theorem Apart.retouch_comm (hia : a.index? = none) (hib : b.index? = none) :
    retouch I (retouch I f a) b = retouch I (retouch I f b) a := by
  rw [hap.retouch_eq hids hh ha hrb hb hia, hap.symm.retouch_eq hids hh hb hra ha hib,
    SymbolicFrame.retouch_eq hids hh ha hia, SymbolicFrame.retouch_eq hids hh hb hib,
    List.filterMap_filterMap, List.filterMap_filterMap]
  exact List.filterMap_congr fun c _ => act_comm (hap.edited c.id)

omit hrb in
/-- An insertion and another edit lead to one frame in either order if and only if
  nothing to the left of the insertion is deleted. -/
theorem Apart.retouch_insert {i : Nat} (hia : a.index? = some i)
    (hle : i ≤ (retouch I f b).length) :
    retouch I (retouch I f a) b = retouch I (retouch I f b) a ↔ ¬ Displaces f b a := by
  have hib := hap.index?_eq_none hia
  have hback := hap.symm.retouch_eq (I := I) hids hh hb hra ha hib
  cases a with
  | addColumn t id header index value reads =>
    cases hia
    have hfree : ∀ c ∈ retouch I f b, c.id ≠ id := by
      rintro c hc rfl
      exact ha ((mem_ids_retouch hids hh hb (hap.edited _ (List.mem_singleton_self _))).mp
        (mem_ids.mpr ⟨c, hc, rfl⟩))
    have hsame : reads.map (Machine.valueOf? (retouch I f b)) = reads.map (Machine.valueOf? f) :=
      hap.map_valueOf? hh hb
    rw [hback, retouch_addColumn, retouch_addColumn, hsame]
    generalize I.value (value.getD "0") (reads.map (Machine.valueOf? f)) = v
    rw [SymbolicFrame.retouch_eq hids hh hb hib] at hle hfree ⊢
    generalize b.readIds.map (Machine.valueOf? f) = vs at hle hfree ⊢
    -- the new column is passed over, and what was to its left still is
    have hnew : act I vs b ⟨id, header, v⟩ = some ⟨id, header, v⟩ :=
      act_of_not_mem (hap.edited id (List.mem_singleton_self _))
    have hsplit : f.filterMap (act I vs b)
        = (f.take i).filterMap (act I vs b) ++ (f.drop i).filterMap (act I vs b) := by
      rw [← List.filterMap_append, List.take_append_drop]
    rw [List.filterMap_append, List.filterMap_cons_some hnew, hsplit,
      append_cons_eq_iff (fun hin => hfree _ (hsplit ▸ hin) rfl) (hsplit ▸ hle)]
    have hlen : (f.take i).length = i := List.length_take_of_le hra.2
    constructor
    · rintro heq ⟨j, hj, hdel⟩
      cases hj
      have hlt : ((f.take i).filterMap (act I vs b)).length < (f.take i).length :=
        length_filterMap_act_lt hdel
      omega
    · intro hd
      rw [length_filterMap_act fun c hc hdel => hd ⟨i, rfl, c, hc, hdel⟩, hlen]
  | _ => cases hia

omit ha hrb in
/-- The place to insert at is still there if nothing to its left is deleted. -/
theorem Apart.index_le {i : Nat} (hia : a.index? = some i) (hd : ¬ Displaces f b a) :
    i ≤ (retouch I f b).length := by
  have hib := hap.index?_eq_none hia
  rw [SymbolicFrame.retouch_eq hids hh hb hib, ← List.take_append_drop i f,
    List.filterMap_append, List.length_append,
    length_filterMap_act fun c hc hdel => hd ⟨i, hia, c, hc, hdel⟩,
    List.length_take_of_le (hra.index_le hia)]
  exact Nat.le_add_right _ _

/-- Whoever inserts still finds the place, and the frames are equal, if and only if
  neither edit deletes to the left of where the other inserts. -/
theorem Apart.exchange_iff (hafter : Runs (retouch I f a) b) :
    Runs (retouch I f b) a ∧ retouch I (retouch I f a) b = retouch I (retouch I f b) a
      ↔ ¬ Displaces f b a ∧ ¬ Displaces f a b := by
  have hruns : a.index? = none → Runs (retouch I f b) a := by
    intro hia
    refine hap.runs_retouch hids hh hb hra ha fun i hi => ?_
    rw [hia] at hi
    cases hi
  cases hia : a.index? with
  | some i =>
    have hib := hap.index?_eq_none hia
    rw [and_iff_left (not_displaces hib)]
    constructor
    · rintro ⟨hr, heq⟩
      exact (hap.retouch_insert hids hh hra ha hb hia (hr.index_le hia)).mp heq
    · intro hd
      have hle := hap.index_le (I := I) hids hh hra hb hia hd
      refine ⟨hap.runs_retouch hids hh hb hra ha fun j hj => ?_,
        (hap.retouch_insert hids hh hra ha hb hia hle).mpr hd⟩
      rw [hia] at hj
      cases hj
      exact hle
  | none =>
    rw [and_iff_right (hruns hia), and_iff_right (not_displaces hia)]
    cases hib : b.index? with
    | some i =>
      rw [eq_comm]
      exact hap.symm.retouch_insert hids hh hrb hb ha hib (hafter.index_le hib)
    | none => exact iff_of_true (hap.retouch_comm hids hh hra ha hrb hb hia hib) (not_displaces hib)

end Order

end Two

end Symbolic.SymbolicFrame

end SheetScript
