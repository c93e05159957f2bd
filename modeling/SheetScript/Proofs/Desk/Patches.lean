import Mathlib.Data.List.Find
import SheetScript.Proofs.Desk.Alike
import SheetScript.Proofs.Desk.Elsewhere

/-! # Patches

  A patch puts another column in the place of one, or takes the column out.  It
  stands for what an edit of that column left behind.  A chunk that neither reads
  nor edits the column, and does not take its new header, does not tell the
  difference: patching before it and after it come to the same.

  - `SymbolicFrame.retouch_patch`: an edit of other columns and a patch change places.
  - `Desk.step_patch`: so do a chunk and a patch.
-/

namespace SheetScript.Symbolic

variable {τ : Type} {I : Interpretation τ}

/-! ### Declared columns -/

/-- What a block declares to see of a sheet. -/
def Sight.narrow (v : Sight τ) : Sight τ :=
  match v.columns with
  | .all => v
  | .only ids => { v with frame := v.frame.map fun f => f.filter fun c => c.id ∈ ids }

/-- The interpretation under which a block sees no more than it declares. -/
def Interpretation.narrowed (I : Interpretation τ) : Interpretation τ :=
  { I with seen := fun statements reads writes =>
      I.seen statements (reads.map Sight.narrow) (writes.map Sight.narrow) }

/-- Whether blocks see no more than they declare. -/
def Interpretation.IsNarrow (I : Interpretation τ) : Prop :=
  ∀ statements {reads reads' writes writes' : List (Sight τ)},
    reads.map Sight.narrow = reads'.map Sight.narrow →
    writes.map Sight.narrow = writes'.map Sight.narrow →
    I.seen statements reads writes = I.seen statements reads' writes'

theorem Interpretation.isNarrow_narrowed (I : Interpretation τ) : I.narrowed.IsNarrow := by
  intro statements reads reads' writes writes' hr hw
  simp only [narrowed, hr, hw]

namespace SymbolicFrame

/-- The frame with `r` in the place of the column `id`. -/
def patch (id : ColumnId) (r : Option (SymbolicColumn τ)) (f : SymbolicFrame τ) :
    SymbolicFrame τ :=
  f.filterMap fun c => if c.id = id then r else some c

/-- Whether `r` may stand in the place of the column `c`: its id stays, and its header
  is the one before or a free one. -/
structure Patchable (f : SymbolicFrame τ) (c : SymbolicColumn τ) (r : Option (SymbolicColumn τ)) :
    Prop where
  mem : c ∈ f
  id : ∀ e, r = some e → e.id = c.id
  header : ∀ e, r = some e → e.header = c.header ∨ e.header ∉ headers f

variable {f : SymbolicFrame τ} {c : SymbolicColumn τ} {r : Option (SymbolicColumn τ)}
  {b : ChunkBody}

/-! ### Patched frames -/

theorem mem_patch_of_ne {e : SymbolicColumn τ} (he : e ∈ f) (hid : e.id ≠ c.id) :
    e ∈ patch c.id r f :=
  List.mem_filterMap.mpr ⟨e, he, by simp [hid]⟩

theorem mem_patch {e : SymbolicColumn τ} (he : e ∈ patch c.id r f) :
    (e ∈ f ∧ e.id ≠ c.id) ∨ r = some e := by
  obtain ⟨k, hk, hke⟩ := List.mem_filterMap.mp he
  by_cases hid : k.id = c.id
  · right
    simpa [hid] using hke
  · left
    simp only [hid, if_false, Option.some.injEq] at hke
    exact hke ▸ ⟨hk, hid⟩

theorem HasColumn.patch {id : ColumnId} {h : Header} (hc : HasColumn f id h) (hid : id ≠ c.id) :
    HasColumn (patch c.id r f) id h := by
  obtain ⟨e, he, rfl, rfl⟩ := hc
  exact ⟨e, mem_patch_of_ne he hid, rfl, rfl⟩

/-- Only the column itself has its id. -/
theorem Patchable.eq (hp : Patchable f c r) (hids : (ids f).Nodup) {e : SymbolicColumn τ}
    (he : e ∈ f) (hid : e.id = c.id) : e = c :=
  eq_of_id hids he hp.mem hid

/-- A header of another column is neither the old nor the new one. -/
theorem Patchable.ne_header (hp : Patchable f c r) (hh : (headers f).Nodup) {id : ColumnId}
    {h : Header} (hc : HasColumn f id h) (hid : id ≠ c.id) :
    c.header ≠ h ∧ ∀ e, r = some e → e.header ≠ h := by
  obtain ⟨k, hk, rfl, rfl⟩ := hc
  have hne : c.header ≠ k.header := fun heq => hid (by rw [eq_of_header hh hp.mem hk heq])
  refine ⟨hne, fun e he heq => ?_⟩
  rcases hp.header e he with hsame | hfree
  · exact hne (hsame.symm.trans heq)
  · exact hfree (heq ▸ mem_headers.mpr ⟨k, hk, rfl⟩)

theorem mem_headers_patch (hp : Patchable f c r) {h : Header} (hh : h ∈ headers (patch c.id r f)) :
    h ∈ headers f ∨ ∃ e, r = some e ∧ e.header = h ∧ e.header ≠ c.header := by
  obtain ⟨e, he, rfl⟩ := mem_headers.mp hh
  rcases mem_patch he with ⟨he, -⟩ | he
  · exact .inl (mem_headers.mpr ⟨e, he, rfl⟩)
  · by_cases hsame : e.header = c.header
    · exact .inl (hsame ▸ mem_headers.mpr ⟨c, hp.mem, rfl⟩)
    · exact .inr ⟨e, he, rfl, hsame⟩

/-- A patch by a column goes column by column. -/
theorem patch_some (id : ColumnId) (e : SymbolicColumn τ) (f : SymbolicFrame τ) :
    patch id (some e) f = f.map fun c => if c.id = id then e else c := by
  unfold patch
  rw [← List.filterMap_eq_map]
  refine List.filterMap_congr fun c _ => ?_
  by_cases hc : c.id = id <;> simp [hc]

/-- Other columns have the value that they had. -/
theorem valueOf?_patch (hp : Patchable f c r) {id : ColumnId} (hid : id ≠ c.id) :
    Machine.valueOf? (patch c.id r f) id = Machine.valueOf? f id := by
  unfold Machine.valueOf? patch
  rw [List.find?_filterMap]
  have hfind : f.find? (fun k => (if k.id = c.id then r else some k).any fun e => decide (e.id = id))
      = f.find? fun k => decide (k.id = id) := by
    congr 1
    funext k
    by_cases hk : k.id = c.id
    · have hne : ¬ k.id = id := fun h => hid (h.symm.trans hk)
      cases hr : r with
      | none => simp [hk, Ne.symm hid]
      | some e =>
        have he := hp.id e hr
        simp [hk, he, Ne.symm hid]
    · simp [hk]
  rw [hfind]
  cases hk : f.find? fun k => decide (k.id = id) with
  | none => rfl
  | some k =>
    have hkid : k.id = id := by simpa using List.find?_some hk
    have hne : ¬ k.id = c.id := fun h => hid (hkid.symm.trans h)
    simp [hne]

theorem map_valueOf?_patch (hp : Patchable f c r) {reads : List ColumnId} (hid : c.id ∉ reads) :
    reads.map (Machine.valueOf? (patch c.id r f)) = reads.map (Machine.valueOf? f) :=
  List.map_congr_left fun _ hi => valueOf?_patch hp fun h => hid (h ▸ hi)

/-- The header of a deleted column stands over one of the columns that are meant. -/
theorem hasColumn_of_deleted {t : Target} {is : List ColumnId} {hs : List Header}
    (hm : Matches f (.deleteColumns t is hs)) {h : Header} (hin : h ∈ hs) :
    ∃ id ∈ is, HasColumn f id h := by
  obtain ⟨hlen, hall⟩ := hm
  rw [← List.map_snd_zip (Nat.le_of_eq hlen.symm)] at hin
  obtain ⟨p, hp, rfl⟩ := List.mem_map.mp hin
  exact ⟨p.1, (List.of_mem_zip hp).1, hall p hp⟩

/-- Of other columns the same is seen. -/
theorem filter_patch (hp : Patchable f c r) {is : List ColumnId} (hid : c.id ∉ is) :
    (patch c.id r f).filter (fun e => e.id ∈ is) = f.filter fun e => e.id ∈ is := by
  unfold patch
  rw [List.filter_filterMap, ← List.filterMap_eq_filter]
  refine List.filterMap_congr fun e _ => ?_
  by_cases he : e.id = c.id
  · cases hr : r with
    | none => simp [he, hid, Option.guard]
    | some k =>
      have hk := hp.id k hr
      simp [he, hid, hk, Option.guard]
  · by_cases hin : e.id ∈ is <;> simp [he, hin, Option.guard]

/-- The header of a column that is meant goes. -/
theorem header_mem_of_deleted (hids : (ids f).Nodup) {t : Target} {is : List ColumnId}
    {hs : List Header} (hm : Matches f (.deleteColumns t is hs)) (hc : c ∈ f) (hid : c.id ∈ is) :
    c.header ∈ hs := by
  rw [← List.map_fst_zip (Nat.le_of_eq hm.1)] at hid
  obtain ⟨p, hp, hpid⟩ := List.mem_map.mp hid
  obtain ⟨k, hk, hkid, hkh⟩ := hm.2 p hp
  rw [← eq_of_id hids hk hc (hkid.trans hpid), hkh]
  exact (List.of_mem_zip hp).2

/-- Editing another column and patching change places. -/
theorem onHeader_patch (hp : Patchable f c r) (hids : (ids f).Nodup) {h : Header}
    (hne : c.header ≠ h ∧ ∀ e, r = some e → e.header ≠ h)
    {φ : SymbolicColumn τ → SymbolicColumn τ} (hφ : ∀ e, (φ e).id = e.id) :
    Machine.onHeader (patch c.id r f) h φ = patch c.id r (Machine.onHeader f h φ) := by
  unfold Machine.onHeader patch
  rw [List.map_filterMap, List.filterMap_map]
  refine List.filterMap_congr fun e he => ?_
  by_cases hid : e.id = c.id
  · obtain rfl := hp.eq hids he hid
    cases hr : r with
    | none => simp [hne.1]
    | some k => simp [hne.1, hne.2 k hr]
  · by_cases heh : e.header = h <;> simp [hid, heh, hφ]

/-- The last patch of a column counts. -/
theorem patch_patch {id : ColumnId} {e : SymbolicColumn τ} (he : e.id = id)
    (r : Option (SymbolicColumn τ)) (f : SymbolicFrame τ) :
    patch id r (patch id (some e) f) = patch id r f := by
  rw [patch_some]
  unfold patch
  rw [List.filterMap_map]
  refine List.filterMap_congr fun k _ => ?_
  by_cases hk : k.id = id <;> simp [hk, he]

/-- A column in its own place changes nothing. -/
theorem patch_self (hids : (ids f).Nodup) (hc : c ∈ f) : patch c.id (some c) f = f := by
  rw [patch_some]
  refine (List.map_congr_left fun e he => ?_).trans (List.map_id f)
  by_cases hid : e.id = c.id
  · simp [eq_of_id hids he hc hid]
  · simp [hid]

/-- Editing the column under a header is a patch of that column. -/
theorem onHeader_eq_patch (hids : (ids f).Nodup) (hh : (headers f).Nodup) (hc : c ∈ f)
    (φ : SymbolicColumn τ → SymbolicColumn τ) :
    Machine.onHeader f c.header φ = patch c.id (some (φ c)) f := by
  rw [patch_some]
  refine List.map_congr_left fun e he => ?_
  by_cases hec : e = c
  · simp [hec]
  · have hid : e.id ≠ c.id := fun h => hec (eq_of_id hids he hc h)
    have hhe : e.header ≠ c.header := fun h => hec (eq_of_header hh he hc h)
    simp [hid, hhe]

/-- Patching a new column takes it out again, or puts another one there. -/
theorem patch_insert {e : SymbolicColumn τ} (hid : e.id ∉ ids f) (i : Nat) :
    patch e.id r (f.take i ++ e :: f.drop i) = f.take i ++ r.toList ++ f.drop i := by
  have hkeep : ∀ g : SymbolicFrame τ, (∀ k ∈ g, k ∈ f) →
      g.filterMap (fun k => if k.id = e.id then r else some k) = g := by
    intro g hg
    have hall : ∀ k ∈ g, (if k.id = e.id then r else some k) = some k := by
      intro k hk
      rw [if_neg fun h => hid (mem_ids.mpr ⟨k, hg k hk, h⟩)]
    rw [List.filterMap_congr hall, List.filterMap_some]
  unfold patch
  rw [List.filterMap_append, hkeep _ fun k hk => List.mem_of_mem_take hk, List.append_assoc]
  congr 1
  cases r with
  | none => simp [hkeep _ fun k hk => List.mem_of_mem_drop hk]
  | some k => simp [hkeep _ fun k hk => List.mem_of_mem_drop hk]

/-- A patch by a column that looks the same leaves the looks of the frame. -/
theorem patch_alike (hp : Patchable f c r) (hids : (ids f).Nodup) {e : SymbolicColumn τ}
    (hr : r = some e) (hh : e.header = c.header) : FramesAlike True f (patch c.id r f) := by
  subst hr
  rw [patch_some]
  have hall : ∀ k ∈ f, ColumnsAlike True k (if k.id = c.id then e else k) := by
    intro k hk
    by_cases hkc : k.id = c.id
    · obtain rfl := hp.eq hids hk hkc
      simpa [ColumnsAlike] using ⟨hh.symm, (hp.id e rfl).symm⟩
    · simp [hkc, ColumnsAlike]
  rw [FramesAlike, List.forall₂_map_right_iff, List.forall₂_same]
  exact hall

/-! ### Edits that paint a column, and edits that forget its value -/

/-- Whether what an edit does is to give a column another value. -/
def Paints (I : Interpretation τ) (b : ChunkBody) (id : ColumnId) : Prop :=
  ∀ {f : SymbolicFrame τ}, (ids f).Nodup → (headers f).Nodup → Matches f b →
    ∃ c ∈ f, c.id = id ∧ ∃ v, retouch I f b = patch id (some { c with value := v }) f

theorem paints_setFormula (t : Target) (id : ColumnId) (header : Header) (value : String)
    (reads : List ColumnId) : Paints I (.setFormula t id header value reads) id := by
  intro f hids hh hm
  obtain ⟨c, hc, rfl, rfl⟩ := hm
  exact ⟨c, hc, rfl, _, onHeader_eq_patch hids hh hc _⟩

theorem paints_changeType (t : Target) (id : ColumnId) (header : Header)
    (statements : List String) : Paints I (.changeType t id header statements) id := by
  intro f hids hh hm
  obtain ⟨c, hc, rfl, rfl⟩ := hm
  exact ⟨c, hc, rfl, _, onHeader_eq_patch hids hh hc _⟩

/-- Whether what an edit leaves does not depend on the value of a column. -/
def Forgets (I : Interpretation τ) (b : ChunkBody) (id : ColumnId) : Prop :=
  ∀ {f : SymbolicFrame τ} {c e : SymbolicColumn τ}, (ids f).Nodup → (headers f).Nodup →
    Matches f b → c ∈ f → c.id = id → e.id = c.id → e.header = c.header →
    retouch I (patch c.id (some e) f) b = retouch I f b

/-- A formula that does not read its own column. -/
theorem forgets_setFormula (t : Target) {id : ColumnId} (header : Header) (value : String)
    {reads : List ColumnId} (hreads : id ∉ reads) :
    Forgets I (.setFormula t id header value reads) id := by
  rintro f c e hids hh hm hc rfl heid heh
  have hp : Patchable f c (some e) :=
    ⟨hc, fun k hk => Option.some.inj hk ▸ heid, fun k hk => .inl (Option.some.inj hk ▸ heh)⟩
  have halike := patch_alike hp hids rfl heh
  obtain ⟨k, hk, hkid, rfl⟩ := hm
  obtain rfl := eq_of_id hids hk hc hkid
  have he : e ∈ patch k.id (some e) f := by
    rw [patch_some]
    exact List.mem_map.mpr ⟨k, hk, by simp⟩
  simp only [retouch]
  rw [map_valueOf?_patch hp hreads, onHeader_eq_patch hids hh hk, ← heh,
    onHeader_eq_patch (halike.ids_eq trivial ▸ hids) (halike.headers_eq ▸ hh) he, heid,
    patch_patch heid]

/-- A deletion of the column. -/
theorem forgets_deleteColumns (t : Target) {id : ColumnId} {is : List ColumnId}
    (hs : List Header) (hid : id ∈ is) : Forgets I (.deleteColumns t is hs) id := by
  rintro f c e hids hh hm hc rfl heid heh
  have hin := header_mem_of_deleted hids hm hc hid
  simp only [retouch]
  unfold patch
  rw [List.filter_filterMap, ← List.filterMap_eq_filter]
  refine List.filterMap_congr fun k hk => ?_
  by_cases hkc : k.id = c.id
  · obtain rfl := eq_of_id hids hk hc hkc
    simp [heh, hin, Option.guard, Option.filter]
  · simp [hkc, Option.guard, Option.filter]

/-- Deleting other columns after one was taken out is deleting it with them. -/
theorem deleteColumns_patch (t u : Target) {is : List ColumnId} {hs : List Header}
    {ps : List (ColumnId × Header)} (hps : ps = (is.zip hs).filter fun p => p.1 ≠ c.id)
    (hids : (ids f).Nodup) (hh : (headers f).Nodup) (hc : c ∈ f) (hid : c.id ∈ is)
    (hr : Runs f (.deleteColumns t is hs)) (hm : Matches f (.deleteColumns t is hs)) :
    Runs (patch c.id none f) (.deleteColumns u (ps.map Prod.fst) (ps.map Prod.snd))
      ∧ Matches (patch c.id none f) (.deleteColumns u (ps.map Prod.fst) (ps.map Prod.snd))
      ∧ retouch I (patch c.id none f) (.deleteColumns u (ps.map Prod.fst) (ps.map Prod.snd))
        = retouch I f (.deleteColumns t is hs) := by
  have hleft : ∀ {p}, p ∈ ps ↔ p ∈ is.zip hs ∧ p.1 ≠ c.id := by
    intro p
    rw [hps, List.mem_filter, decide_eq_true_iff]
  have hmatch : ∀ p ∈ ps, HasColumn (patch c.id none f) p.1 p.2 := fun p hp =>
    (hm.2 p (hleft.mp hp).1).patch (hleft.mp hp).2
  refine ⟨⟨?_, ?_⟩, ⟨by simp, ?_⟩, ?_⟩
  · have hsub : (ps.map Prod.snd).Sublist ((is.zip hs).map Prod.snd) := by
      rw [hps]
      exact List.filter_sublist.map _
    rw [List.map_snd_zip (Nat.le_of_eq hm.1.symm)] at hsub
    exact hr.1.sublist hsub
  · intro h hin
    obtain ⟨p, hp, rfl⟩ := List.mem_map.mp hin
    exact (hmatch p hp).mem_headers
  · rw [← List.unzip_fst, ← List.unzip_snd, List.zip_unzip]
    exact hmatch
  · simp only [retouch]
    unfold patch
    rw [List.filter_filterMap, ← List.filterMap_eq_filter]
    refine List.filterMap_congr fun e he => ?_
    by_cases hec : e.id = c.id
    · obtain rfl := eq_of_id hids he hc hec
      simp [header_mem_of_deleted hids hm he hid, Option.guard]
    · -- the headers that still go are those of other columns
      have hiff : e.header ∈ ps.map Prod.snd ↔ e.header ∈ hs := by
        constructor
        · intro hin
          obtain ⟨p, hp, hph⟩ := List.mem_map.mp hin
          exact hph ▸ (List.of_mem_zip (hleft.mp hp).1).2
        · intro hin
          rw [← List.map_snd_zip (Nat.le_of_eq hm.1.symm)] at hin
          obtain ⟨p, hp, hph⟩ := List.mem_map.mp hin
          obtain ⟨k, hk, hkid, hkh⟩ := hm.2 p hp
          obtain rfl := eq_of_header hh hk he (hkh.trans hph)
          exact List.mem_map.mpr ⟨p, hleft.mpr ⟨hp, fun h => hec (hkid.trans h)⟩, hph⟩
      by_cases hin : e.header ∈ hs <;>
        simp only [hec, if_false, Option.filter_some, hiff, hin, Option.guard]

/-! ### Edits of other columns -/

/-- A chunk that edits neither the column nor, if it is taken out, positions; and that does
  not take the header that the column gets. -/
structure Passes (c : SymbolicColumn τ) (r : Option (SymbolicColumn τ)) (b : ChunkBody) : Prop where
  edited : c.id ∉ b.editedIds
  read : c.id ∉ b.readIds
  positions : r = none → ∀ t ∈ b.columnTarget?, t.sheet ∉ b.footprint.positions
  binds : ∀ e, r = some e → e.header ≠ c.header →
    ∀ t ∈ b.columnTarget?, .header t.sheet e.header ∉ b.footprint.binds

variable (hp : Patchable f c r) (hids : (ids f).Nodup) (hh : (headers f).Nodup)
  (hr : Runs f b) (hm : Matches f b) (hb : Passes c r b)
include hp hids hh hr hm hb

/-- An edit of other columns and a patch change places. -/
theorem retouch_patch : retouch I (patch c.id r f) b = patch c.id r (retouch I f b) := by
  cases b with
  | addColumn t id header index value reads =>
    -- where a column is inserted is counted from the left, so the patch must take none out
    cases hrc : r with
    | none => exact absurd (ChunkBody.positions_addColumn ..) (hb.positions hrc t rfl)
    | some e =>
      have hid : id ≠ c.id := fun h => hb.edited (h ▸ List.mem_singleton_self _)
      have hreads := map_valueOf?_patch hp hb.read
      subst hrc
      simp only [retouch, ChunkBody.readIds] at hreads ⊢
      rw [hreads, patch_some, patch_some]
      simp [List.map_take, List.map_drop, hid]
  | setFormula t id header value reads =>
    have hid : id ≠ c.id := fun h => hb.edited (h ▸ List.mem_singleton_self _)
    have hreads := map_valueOf?_patch hp hb.read
    simp only [retouch, ChunkBody.readIds] at hreads ⊢
    rw [hreads]
    exact onHeader_patch hp hids (hp.ne_header hh hm hid) fun _ => rfl
  | deleteColumns t is hs =>
    have hne : c.header ∉ hs ∧ ∀ e, r = some e → e.header ∉ hs := by
      refine ⟨fun hin => ?_, fun e he hin => ?_⟩
      all_goals
        obtain ⟨id, hid, hc⟩ := hasColumn_of_deleted hm hin
        have hne := hp.ne_header hh hc fun h => hb.edited (h ▸ hid)
      · exact hne.1 rfl
      · exact hne.2 e he rfl
    simp only [retouch]
    unfold patch
    rw [List.filter_filterMap, List.filterMap_filter]
    refine List.filterMap_congr fun e he => ?_
    by_cases hid : e.id = c.id
    · obtain rfl := hp.eq hids he hid
      cases hrc : r with
      | none => simp
      | some k => simp [hne.1, hne.2 k hrc]
    · by_cases heh : e.header ∈ hs <;> simp [hid, heh]
  | renameColumn t id old new =>
    have hid : id ≠ c.id := fun h => hb.edited (h ▸ List.mem_singleton_self _)
    exact onHeader_patch hp hids (hp.ne_header hh hm hid) fun _ => rfl
  | changeType t id header statements =>
    have hid : id ≠ c.id := fun h => hb.edited (h ▸ List.mem_singleton_self _)
    exact onHeader_patch hp hids (hp.ne_header hh hm hid) fun _ => rfl
  | duplicateSheet | deleteSheet | renameSheet | block => rfl

omit hids hh in
/-- An edit of other columns runs on the patched frame. -/
theorem runs_patch : Runs (patch c.id r f) b := by
  -- a header that is taken is neither an old one nor the new one of the column
  have hfree : ∀ {t h}, b.columnTarget? = some t → .header t.sheet h ∈ b.footprint.binds →
      h ∉ headers f → h ∉ headers (patch c.id r f) := by
    intro t h ht hbind hnot hin
    rcases mem_headers_patch hp hin with hin | ⟨e, he, rfl, hne⟩
    · exact hnot hin
    · exact hb.binds e he hne t ht hbind
  cases b with
  | addColumn t id header index value reads =>
    refine ⟨hfree rfl (ChunkBody.binds_addColumn ..) hr.1, ?_⟩
    cases hrc : r with
    | none => exact absurd (ChunkBody.positions_addColumn ..) (hb.positions hrc t rfl)
    | some e =>
      rw [patch_some, List.length_map]
      exact hr.2
  | deleteColumns t is hs =>
    refine ⟨hr.1, fun h hin => ?_⟩
    obtain ⟨id, hid, hc⟩ := hasColumn_of_deleted hm hin
    exact (hc.patch fun h => hb.edited (h ▸ hid)).mem_headers
  | renameColumn t id old new =>
    have hid : id ≠ c.id := fun h => hb.edited (h ▸ List.mem_singleton_self _)
    exact ⟨(HasColumn.patch hm hid).mem_headers, hfree rfl (ChunkBody.binds_renameColumn ..).2 hr.2⟩
  | setFormula t id header value reads =>
    have hid : id ≠ c.id := fun h => hb.edited (h ▸ List.mem_singleton_self _)
    exact (HasColumn.patch hm hid).mem_headers
  | changeType t id header statements =>
    have hid : id ≠ c.id := fun h => hb.edited (h ▸ List.mem_singleton_self _)
    exact (HasColumn.patch hm hid).mem_headers
  | duplicateSheet | deleteSheet | renameSheet | block => trivial

omit hids hh hr in
/-- An edit of other columns means the same ones on the patched frame. -/
theorem matches_patch : Matches (patch c.id r f) b := by
  cases b with
  | addColumn t id header index value reads =>
    intro hin
    obtain ⟨e, he, hid⟩ := mem_ids.mp hin
    rcases mem_patch he with ⟨he, -⟩ | he
    · exact hm (mem_ids.mpr ⟨e, he, hid⟩)
    · exact hm (mem_ids.mpr ⟨c, hp.mem, (hp.id e he).symm.trans hid⟩)
  | deleteColumns t is hs =>
    refine ⟨hm.1, fun p hpz => (hm.2 p hpz).patch fun h => hb.edited ?_⟩
    exact h ▸ (List.of_mem_zip hpz).1
  | renameColumn t id old new =>
    exact HasColumn.patch hm fun h => hb.edited (h ▸ List.mem_singleton_self _)
  | setFormula t id header value reads =>
    exact HasColumn.patch hm fun h => hb.edited (h ▸ List.mem_singleton_self _)
  | changeType t id header statements =>
    exact HasColumn.patch hm fun h => hb.edited (h ▸ List.mem_singleton_self _)
  | duplicateSheet | deleteSheet | renameSheet | block => trivial

omit hids in
/-- The column is left as it was, and its new header stays free. -/
theorem patchable_retouch : Patchable (retouch I f b) c r := by
  have hkeep : ∀ {h id} {φ : SymbolicColumn τ → SymbolicColumn τ}, HasColumn f id h → id ≠ c.id →
      c ∈ Machine.onHeader f h φ := by
    intro h id φ hc hid
    refine List.mem_map.mpr ⟨c, hp.mem, ?_⟩
    rw [if_neg (hp.ne_header hh hc hid).1]
  -- an edit that brings no header leaves the new one free
  have hsame : ∀ {g : SymbolicFrame τ}, (∀ h, h ∈ headers g → h ∈ headers f) →
      ∀ e, r = some e → e.header = c.header ∨ e.header ∉ headers g := by
    intro g hg e he
    rcases hp.header e he with h | h
    · exact .inl h
    · exact .inr fun hin => h (hg _ hin)
  cases b with
  | addColumn t id header index value reads =>
    refine ⟨?_, hp.id, fun e he => ?_⟩
    · have hin : c ∈ f.take index ++ f.drop index := by
        rw [List.take_append_drop]
        exact hp.mem
      rcases List.mem_append.mp hin with h | h
      · exact List.mem_append.mpr (.inl h)
      · exact List.mem_append.mpr (.inr (List.mem_cons_of_mem _ h))
    · by_cases hne : e.header = c.header
      · exact .inl hne
      · refine .inr fun hin => ?_
        obtain ⟨k, hk, hkh⟩ := mem_headers.mp hin
        have hold : e.header ∉ headers f := (hp.header e he).resolve_left hne
        rcases List.mem_append.mp hk with hk | hk
        · exact hold (mem_headers.mpr ⟨k, List.mem_of_mem_take hk, hkh⟩)
        · rcases List.mem_cons.mp hk with rfl | hk
          · exact hb.binds e he hne t rfl (hkh ▸ ChunkBody.binds_addColumn ..)
          · exact hold (mem_headers.mpr ⟨k, List.mem_of_mem_drop hk, hkh⟩)
  | deleteColumns t is hs =>
    refine ⟨List.mem_filter.mpr ⟨hp.mem, ?_⟩, hp.id, hsame fun h hin => ?_⟩
    · rw [decide_eq_true_iff]
      intro hin
      obtain ⟨id, hid, hc⟩ := hasColumn_of_deleted hm hin
      exact (hp.ne_header hh hc fun h => hb.edited (h ▸ hid)).1 rfl
    · obtain ⟨k, hk, rfl⟩ := mem_headers.mp hin
      exact mem_headers.mpr ⟨k, (List.mem_filter.mp hk).1, rfl⟩
  | renameColumn t id old new =>
    have hid : id ≠ c.id := fun h => hb.edited (h ▸ List.mem_singleton_self _)
    refine ⟨hkeep hm hid, hp.id, fun e he => ?_⟩
    by_cases hne : e.header = c.header
    · exact .inl hne
    · refine .inr fun hin => ?_
      obtain ⟨k, hk, hkh⟩ := mem_headers.mp hin
      obtain ⟨k₀, hk₀, rfl⟩ := List.mem_map.mp hk
      have hold : e.header ∉ headers f := (hp.header e he).resolve_left hne
      by_cases hko : k₀.header = old
      · simp only [hko, if_true] at hkh
        exact hb.binds e he hne t rfl (hkh ▸ (ChunkBody.binds_renameColumn ..).2)
      · simp only [hko, if_false] at hkh
        exact hold (mem_headers.mpr ⟨k₀, hk₀, hkh⟩)
  | setFormula t id header value reads =>
    have hid : id ≠ c.id := fun h => hb.edited (h ▸ List.mem_singleton_self _)
    refine ⟨hkeep hm hid, hp.id, hsame fun h hin => ?_⟩
    rwa [retouch, headers_onHeader_value f header fun _ => _] at hin
  | changeType t id header statements =>
    have hid : id ≠ c.id := fun h => hb.edited (h ▸ List.mem_singleton_self _)
    refine ⟨hkeep hm hid, hp.id, hsame fun h hin => ?_⟩
    rwa [retouch, headers_onHeader_value f header fun e => _] at hin
  | duplicateSheet | deleteSheet | renameSheet | block => exact hp

omit hp hids hh hr hm hb

/-! ### What edits of other columns keep -/

/-- Editing the column under a header leaves the values of others. -/
theorem valueOf?_onHeader (hh : (headers f).Nodup) {id j : ColumnId} {h : Header}
    (hc : HasColumn f id h) (hj : id ≠ j) {φ : SymbolicColumn τ → SymbolicColumn τ}
    (hφ : ∀ e, (φ e).id = e.id) :
    Machine.valueOf? (Machine.onHeader f h φ) j = Machine.valueOf? f j := by
  unfold Machine.valueOf? Machine.onHeader
  rw [List.find?_map]
  have hfind : (fun e : SymbolicColumn τ => decide (e.id = j)) ∘
      (fun e => if e.header = h then φ e else e) = fun e => decide (e.id = j) := by
    funext e
    by_cases he : e.header = h <;> simp [he, hφ]
  rw [hfind]
  cases he : f.find? fun e => decide (e.id = j) with
  | none => rfl
  | some e =>
    have hej : e.id = j := by simpa using List.find?_some he
    obtain ⟨k, hk, hkid, rfl⟩ := hc
    have hne : e.header ≠ k.header := by
      intro heq
      rw [eq_of_header hh (List.mem_of_find?_eq_some he) hk heq] at hej
      exact hj (hkid.symm.trans hej)
    simp [hne]

/-- A chunk keeps the values of the columns that it does not edit. -/
theorem valueOf?_retouch (hh : (headers f).Nodup) (hm : Matches f b) {j : ColumnId}
    (hj : j ∉ b.editedIds) :
    Machine.valueOf? (retouch I f b) j = Machine.valueOf? f j := by
  cases b with
  | addColumn t id header index value reads =>
    have hne : ¬ id = j := fun h => hj (h ▸ List.mem_singleton_self _)
    unfold Machine.valueOf?
    simp only [retouch, List.find?_append, List.find?_cons, hne, decide_false]
    rw [← List.find?_append, List.take_append_drop]
  | deleteColumns t is hs =>
    unfold Machine.valueOf?
    simp only [retouch]
    rw [List.find?_filter]
    congr 1
    refine List.find?_congr fun e he => ?_
    by_cases hej : e.id = j
    · have hnot : e.header ∉ hs := by
        intro hin
        obtain ⟨id, hid, k, hk, rfl, hkh⟩ := hasColumn_of_deleted hm hin
        rw [eq_of_header hh hk he hkh] at hid
        exact hj (hej ▸ hid)
      simp [hej, hnot]
    · simp [hej]
  | renameColumn t id old new =>
    exact valueOf?_onHeader hh hm (fun h => hj (h ▸ List.mem_singleton_self _)) fun _ => rfl
  | setFormula t id header value reads =>
    exact valueOf?_onHeader hh hm (fun h => hj (h ▸ List.mem_singleton_self _)) fun _ => rfl
  | changeType t id header statements =>
    exact valueOf?_onHeader hh hm (fun h => hj (h ▸ List.mem_singleton_self _)) fun _ => rfl
  | duplicateSheet | deleteSheet | renameSheet | block => rfl

/-- A header that a chunk does not bind stays in use. -/
theorem mem_headers_retouch {t : Target} (ht : b.columnTarget? = some t) {h : Header}
    (hn : .header t.sheet h ∉ b.footprint.binds) (hin : h ∈ headers f) :
    h ∈ headers (retouch I f b) := by
  obtain ⟨e, he, rfl⟩ := mem_headers.mp hin
  cases b with
  | addColumn u id header index value reads =>
    rw [← List.take_append_drop index f] at he
    rcases List.mem_append.mp he with he | he
    · exact mem_headers.mpr ⟨e, List.mem_append.mpr (.inl he), rfl⟩
    · exact mem_headers.mpr ⟨e, List.mem_append.mpr (.inr (List.mem_cons_of_mem _ he)), rfl⟩
  | deleteColumns u is hs =>
    cases ht
    have hnot : e.header ∉ hs := fun hin => hn (ChunkBody.binds_deleteColumns hin)
    exact mem_headers.mpr ⟨e, List.mem_filter.mpr ⟨he, by simpa using hnot⟩, rfl⟩
  | renameColumn u id old new =>
    cases ht
    have hne : e.header ≠ old := fun heq => hn (heq ▸ (ChunkBody.binds_renameColumn ..).1)
    exact mem_headers.mpr ⟨e, List.mem_map.mpr ⟨e, he, by simp [hne]⟩, rfl⟩
  | setFormula u id header value reads =>
    rw [retouch, headers_onHeader_value f header fun _ => _]
    exact mem_headers.mpr ⟨e, he, rfl⟩
  | changeType u id header statements =>
    rw [retouch, headers_onHeader_value f header fun e => _]
    exact mem_headers.mpr ⟨e, he, rfl⟩
  | duplicateSheet | deleteSheet | renameSheet | block => cases ht

end SymbolicFrame

namespace Desk

variable {d : Desk τ} {b : ChunkBody} {s : SheetId} {c : SymbolicColumn τ}
  {r : Option (SymbolicColumn τ)}

/-- The desk with `r` in the place of a column. -/
def patch (d : Desk τ) (s : SheetId) (c : SymbolicColumn τ) (r : Option (SymbolicColumn τ)) :
    Desk τ :=
  d.edit s (SymbolicFrame.patch c.id r)

/-- Whether `r` may stand in the place of a column of the sheet. -/
def Patchable (d : Desk τ) (s : SheetId) (c : SymbolicColumn τ) (r : Option (SymbolicColumn τ)) :
    Prop :=
  ∃ x, d s = some x ∧ SymbolicFrame.Patchable x.frame c r

/-- A chunk that does not tell a column from `r`.  A block that reads the rest of the
  sheet sees no more than it declares. -/
structure Passes (I : Interpretation τ) (s : SheetId) (c : SymbolicColumn τ)
    (r : Option (SymbolicColumn τ)) (b : ChunkBody) : Prop where
  sees : I.IsNarrow ∨ ¬ b.Overlooks s c.id
  spares : b.footprint.Spares s c.id
  positions : r = none → s ∉ b.footprint.positions
  binds : ∀ e, r = some e → e.header ≠ c.header → .header s e.header ∉ b.footprint.binds

/-! ### Whole desks -/

/-- A block that passes a patch sees nothing of it. -/
theorem seen_patch {b : Block} (hb : Passes I s c r (.block b)) (hp : d.Patchable s c r) :
    (d.patch s c r).seen I b = d.seen I b := by
  obtain ⟨x, hx, hp⟩ := hp
  have hs : b.footprint.Spares s c.id := fun cs hcs =>
    hb.spares cs (ChunkBody.accesses_block.mpr hcs)
  rcases hb.sees with hI | hover
  · -- every part of the sheet that the block declares is without the column
    have hsights : ∀ a : ColumnAccess, (∀ cs, (s, cs) ∈ a → ∃ is, cs = .only is ∧ c.id ∉ is) →
        ((d.patch s c r).sights a).map Sight.narrow = (d.sights a).map Sight.narrow := by
      intro a ha
      unfold sights
      rw [List.map_map, List.map_map]
      refine List.map_congr_left fun e he => ?_
      by_cases hes : e.1 = s
      · obtain ⟨is, his, hid⟩ := ha e.2 (hes ▸ he)
        simp [Sight.narrow, his, hes, patch, edit, hx, SymbolicFrame.filter_patch hp hid]
      · simp [patch, d.edit_ne _ hes]
    refine hI _ (hsights _ fun cs hcs => hs cs (.inl hcs)) (hsights _ fun cs hcs => ?_)
    rcases Footprint.accesses_of_mem_writes hcs with h | h
    · exact hs cs h
    · exact absurd h hs.not_all
  · have havoids : (ChunkBody.block b).footprint.Avoids s := by
      by_contra hn
      exact hover ⟨rfl, hb.spares, hn⟩
    unfold patch edit
    exact seen_set fun cs hcs => havoids cs (ChunkBody.accesses_block.mpr hcs)

theorem alike_patch {e : SymbolicColumn τ} (hkeyed : d.Keyed) (hp : d.Patchable s c r)
    (hr : r = some e) (hh : e.header = c.header) : d.Alike True (d.patch s c r) := by
  obtain ⟨x, hx, hp⟩ := hp
  intro t
  by_cases ht : t = s
  · subst ht
    exact .inr ⟨x, _, hx, edit_self hx _, rfl, SymbolicFrame.patch_alike hp (hkeyed hx) hr hh⟩
  · exact .of_eq (d.edit_ne _ ht).symm

section Step

variable (htidy : d.Tidy) (hkeyed : d.Keyed) (hp : d.Patchable s c r) (hf : d.Fits b)
  (hb : Passes I s c r b)
include htidy hkeyed hp hf hb

omit htidy hkeyed hp hf in
theorem Passes.column {t : Target} (ht : b.columnTarget? = some t) (hts : t.sheet = s) :
    SymbolicFrame.Passes c r b := by
  subst hts
  obtain ⟨hedited, hread⟩ := ChunkBody.spares_column ht hb.spares
  refine ⟨hedited, hread, fun hr u hu => ?_, fun e he hne u hu => ?_⟩
  · rw [ht] at hu
    cases hu
    exact hb.positions hr
  · rw [ht] at hu
    cases hu
    exact hb.binds e he hne

/-- A chunk and a patch change places. -/
theorem step_patch : (d.patch s c r).step I b = (d.step I b).patch s c r := by
  obtain ⟨x, hx, hpf⟩ := id hp
  rcases bypasses_of_spares hf.2 hb.spares with ⟨t, ht, rfl⟩ | hby
  · obtain ⟨-, hr, hm⟩ := (fits_column ht hx).mp hf
    have hcomm := SymbolicFrame.retouch_patch (I := I) hpf (hkeyed hx) (htidy.headers hx) hr hm
      (hb.column ht rfl)
    simp [step_column ht, patch, edit, hx, hcomm]
  · have hseen : ∀ k, b = .block k → (d.patch s c r).seen I k = d.seen I k := by
      rintro k rfl
      exact seen_patch hb hp
    unfold patch edit at hseen ⊢
    rw [step_set hby hseen, step_bypassed hby]

omit htidy hkeyed in
/-- A chunk still fits after a patch. -/
theorem fits_patch : (d.patch s c r).Fits b := by
  obtain ⟨x, hx, hpf⟩ := id hp
  rcases bypasses_of_spares hf.2 hb.spares with ⟨t, ht, rfl⟩ | hby
  · obtain ⟨hn, hr, hm⟩ := (fits_column ht hx).mp hf
    exact (fits_column ht (edit_self hx _)).mpr
      ⟨hn, SymbolicFrame.runs_patch hpf hr hm (hb.column ht rfl),
        SymbolicFrame.matches_patch hpf hm (hb.column ht rfl)⟩
  · have hy : d.Unclaimed s b ((d s).map fun x =>
        { x with frame := SymbolicFrame.patch c.id r x.frame }) := by
      intro y hy
      rw [hx] at hy
      obtain rfl := Option.some.inj hy
      exact .inl ⟨x, hx, rfl⟩
    exact ⟨hf.1.set hby hy, hf.2.set hby⟩

omit htidy hkeyed hf in
theorem effects_patch : (d.patch s c r).effects I b = d.effects I b := by
  cases b with
  | block k => simp only [effects, seen_patch hb hp]
  | _ => rfl

omit hkeyed in
/-- The column is left as it was. -/
theorem patchable_step : (d.step I b).Patchable s c r := by
  obtain ⟨x, hx, hpf⟩ := hp
  rcases bypasses_of_spares hf.2 hb.spares with ⟨t, ht, rfl⟩ | hby
  · obtain ⟨-, hr, hm⟩ := (fits_column ht hx).mp hf
    rw [step_column ht]
    exact ⟨_, edit_self hx _,
      SymbolicFrame.patchable_retouch hpf (htidy.headers hx) hr hm (hb.column ht rfl)⟩
  · exact ⟨x, (step_bypassed hby).trans hx, hpf⟩

end Step

/-! ### Lists of chunks -/

/-- Chunks do not notice a patch that each of them passes. -/
theorem run_patch {ks : List Chunk} (htidy : d.Tidy) (hkeyed : d.Keyed)
    (hp : d.Patchable s c r) (hf : d.AllFit I ks) (hb : ∀ k ∈ ks, Passes I s c r k.body) :
    (d.patch s c r).AllFit I ks ∧ (d.patch s c r).run I ks = (d.run I ks).patch s c r
      ∧ (d.patch s c r).trace I ks = d.trace I ks ∧ (d.run I ks).Patchable s c r := by
  induction ks generalizing d with
  | nil => exact ⟨trivial, rfl, rfl, hp⟩
  | cons k rest ih =>
    obtain ⟨hk, hrest⟩ := hf
    have hbk := hb k List.mem_cons_self
    have hstep := step_patch htidy hkeyed hp hk hbk
    obtain ⟨hfit, hrun, htrace, hlast⟩ := ih (hk.1.tidy htidy) (hk.keyed hkeyed)
      (patchable_step htidy hp hk hbk) hrest fun j hj => hb j (List.mem_cons_of_mem _ hj)
    refine ⟨⟨fits_patch hp hk hbk, ?_⟩, ?_, ?_, hlast⟩
    · rw [hstep]
      exact hfit
    · show ((d.patch s c r).step I k.body).run I rest = _
      rw [hstep, hrun]
      rfl
    · rw [trace, trace, hstep, htrace, effects_patch hp hbk]

/-- A sheet of which chunks spare a column keeps its name, the values that they do not edit
  and the headers that they do not bind. -/
theorem kept_step {x : Table τ} {id : ColumnId} (htidy : d.Tidy) (hf : d.Fits b)
    (hs : b.footprint.Spares s id) (hx : d s = some x) :
    ∃ x', d.step I b s = some x' ∧ x'.name = x.name
      ∧ (∀ j, (∀ is, (s, .ofList is) ∈ b.footprint.effectiveWrites → j ∉ is) →
          Machine.valueOf? x'.frame j = Machine.valueOf? x.frame j)
      ∧ ∀ h, .header s h ∉ b.footprint.binds → h ∈ SymbolicFrame.headers x.frame →
          h ∈ SymbolicFrame.headers x'.frame := by
  rcases bypasses_of_spares hf.2 hs with ⟨t, ht, rfl⟩ | hby
  · obtain ⟨-, -, hm⟩ := (fits_column ht hx).mp hf
    refine ⟨{ x with frame := SymbolicFrame.retouch I x.frame b },
      by rw [step_column ht, edit_self hx], rfl, fun j hj => ?_, fun h hn hin => ?_⟩
    · exact SymbolicFrame.valueOf?_retouch (htidy.headers hx) hm
        (hj _ (Dictionary.mem_of_get? (ChunkBody.get?_writes_column ht)))
    · exact SymbolicFrame.mem_headers_retouch ht hn hin
  · exact ⟨x, (step_bypassed hby).trans hx, rfl, fun _ _ => rfl, fun _ _ h => h⟩

theorem kept_run {ks : List Chunk} {x : Table τ} {id : ColumnId} (htidy : d.Tidy)
    (hf : d.AllFit I ks) (hs : ∀ k ∈ ks, k.body.footprint.Spares s id) (hx : d s = some x) :
    ∃ x', d.run I ks s = some x' ∧ x'.name = x.name
      ∧ (∀ j, (∀ k ∈ ks, ∀ is, (s, .ofList is) ∈ k.body.footprint.effectiveWrites → j ∉ is) →
          Machine.valueOf? x'.frame j = Machine.valueOf? x.frame j)
      ∧ ∀ h, (∀ k ∈ ks, .header s h ∉ k.body.footprint.binds) →
          h ∈ SymbolicFrame.headers x.frame → h ∈ SymbolicFrame.headers x'.frame := by
  induction ks generalizing d x with
  | nil => exact ⟨x, hx, rfl, fun _ _ => rfl, fun _ _ h => h⟩
  | cons k rest ih =>
    obtain ⟨hk, hrest⟩ := hf
    obtain ⟨x₁, hx₁, hn₁, hv₁, hh₁⟩ := kept_step (I := I) htidy hk (hs k List.mem_cons_self) hx
    obtain ⟨x₂, hx₂, hn₂, hv₂, hh₂⟩ := ih (hk.1.tidy htidy) hrest
      (fun j hj => hs j (List.mem_cons_of_mem _ hj)) hx₁
    refine ⟨x₂, hx₂, hn₂.trans hn₁, fun j hj => ?_, fun h hn hin => ?_⟩
    · rw [hv₂ j fun i hi => hj i (List.mem_cons_of_mem _ hi), hv₁ j (hj k List.mem_cons_self)]
    · exact hh₂ h (fun i hi => hn i (List.mem_cons_of_mem _ hi))
        (hh₁ h (hn k List.mem_cons_self) hin)

end Desk

end SheetScript.Symbolic
