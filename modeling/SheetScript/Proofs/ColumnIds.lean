import Mathlib.Data.List.Forall2
import SheetScript.ColumnIds
import SheetScript.Proofs.Collections
import SheetScript.Proofs.Naming

/-! # Sound column ids

  The two maps of a sheet's columns are inverse to each other, and they speak of
  exactly the headers of its frame.  A column is added under an id that was never
  issued, so every operation keeps this.
-/

namespace SheetScript

namespace ColumnIds

/-- Ids and headers belong to each other one to one, the headers are those of a
  list, and every id in use was issued. -/
structure Sound (m : ColumnIds) (headers : List Header) : Prop where
  inverse : ∀ {id h}, m.header? id = some h ↔ m.id? h = some id
  live : ∀ {h}, (m.id? h).isSome ↔ h ∈ headers
  issued : ∀ {id h}, m.header? id = some h → id ∈ m.issued

variable {m : ColumnIds} {headers : List Header} {id : ColumnId} {header : Header}

/-! ### Look-up -/

theorem contains_iff : m.contains id = true ↔ ∃ h, m.header? id = some h := by
  rw [contains, Dictionary.contains, Option.isSome_iff_exists]
  rfl

theorem freshId_not_issued (m : ColumnIds) (header : Header) : m.freshId header ∉ m.issued := by
  intro h
  exact Naming.firstFree_not_mem (m.issued.map ColumnId.text) header
    (List.mem_map.mpr ⟨m.freshId header, h, rfl⟩)

theorem header?_insertWithId (m : ColumnIds) (id i : ColumnId) (header : Header) :
    (m.insertWithId id header).header? i = if id = i then some header else m.header? i :=
  Dictionary.get?_insert _ _ _ _

theorem id?_insertWithId (m : ColumnIds) (id : ColumnId) (header h : Header) :
    (m.insertWithId id header).id? h = if header = h then some id else m.id? h :=
  Dictionary.get?_insert _ _ _ _

theorem mem_issued_insertWithId {i : ColumnId} :
    i ∈ (m.insertWithId id header).issued ↔ i = id ∨ i ∈ m.issued :=
  Roster.mem_insert

theorem id?_insert (m : ColumnIds) (header h : Header) :
    (m.insert header).2.id? h = if header = h then some (m.insert header).1 else m.id? h :=
  id?_insertWithId _ _ _ _

theorem header?_insert (m : ColumnIds) (header : Header) (i : ColumnId) :
    (m.insert header).2.header? i = if m.freshId header = i then some header else m.header? i :=
  header?_insertWithId _ _ _ _

theorem mem_issued_insert {i : ColumnId} :
    i ∈ (m.insert header).2.issued ↔ i = m.freshId header ∨ i ∈ m.issued :=
  mem_issued_insertWithId

theorem remove_eq (h : m.header? id = some header) :
    m.remove id = (some header,
      { m with
        headerOf := Dictionary.erase m.headerOf id
        idOf := Dictionary.erase m.idOf header }) := by
  simp [remove, h]

theorem rename_eq {old : Header} (h : m.header? id = some old) (new : Header) :
    m.rename id new = (some old,
      { m with
        headerOf := Dictionary.insert m.headerOf id new
        idOf := Dictionary.insert (Dictionary.erase m.idOf old) new id }) := by
  simp [rename, h]

theorem rekey_eq {old : Header} (h : m.header? id = some old) (new : Header) :
    m.rekey id new = (some ((m.remove id).2.insert new).1, ((m.remove id).2.insert new).2) := by
  simp [rekey, remove_eq h]

theorem id?_remove (h : m.header? id = some header) (k : Header) :
    (m.remove id).2.id? k = if header = k then none else m.id? k := by
  rw [remove_eq h]
  exact Dictionary.get?_erase _ _ _

theorem header?_remove (h : m.header? id = some header) (i : ColumnId) :
    (m.remove id).2.header? i = if id = i then none else m.header? i := by
  rw [remove_eq h]
  exact Dictionary.get?_erase _ _ _

theorem id?_rename {old : Header} (h : m.header? id = some old) (new k : Header) :
    (m.rename id new).2.id? k
      = if new = k then some id else if old = k then none else m.id? k := by
  rw [rename_eq h]
  unfold id?
  dsimp only
  rw [Dictionary.get?_insert, Dictionary.get?_erase]

theorem header?_rename {old : Header} (h : m.header? id = some old) (new : Header)
    (i : ColumnId) :
    (m.rename id new).2.header? i = if id = i then some new else m.header? i := by
  rw [rename_eq h]
  exact Dictionary.get?_insert _ _ _ _

theorem issued_remove (m : ColumnIds) (id : ColumnId) : (m.remove id).2.issued = m.issued := by
  unfold remove
  split <;> rfl

theorem issued_rename (m : ColumnIds) (id : ColumnId) (new : Header) :
    (m.rename id new).2.issued = m.issued := by
  unfold rename
  split <;> rfl

/-- No column has the header. -/
def Lacks (m : ColumnIds) (header : Header) : Prop := ∀ id, m.header? id ≠ some header

/-- The column of a header, for headers that have one. -/
def columnOf (m : ColumnIds) (header : Header) : ColumnId := (m.id? header).getD ⟨header⟩

/-- Headers that are not among those of added columns keep their ids. -/
theorem id?_insertAll_of_not_mem {names : List Header} (m : ColumnIds) {k : Header}
    (hk : k ∉ names) : (names.foldl (fun m v => (m.insert v).2) m).id? k = m.id? k := by
  induction names generalizing m with
  | nil => rfl
  | cons v rest ih =>
    rw [List.mem_cons, not_or] at hk
    rw [List.foldl_cons, ih _ hk.2, id?_insert, if_neg (Ne.symm hk.1)]

/-- Added columns have ids. -/
theorem id?_insertAll {names : List Header} {v : Header} (m : ColumnIds) (hv : v ∈ names) :
    ∃ id, (names.foldl (fun m k => (m.insert k).2) m).id? v = some id := by
  induction names generalizing m with
  | nil => cases hv
  | cons k rest ih =>
    by_cases hrest : v ∈ rest
    · exact ih _ hrest
    · obtain rfl : v = k := (List.mem_cons.mp hv).resolve_right hrest
      have hlast : (rest.foldl (fun m k => (m.insert k).2) (m.insert v).2).id? v
          = (m.insert v).2.id? v := id?_insertAll_of_not_mem _ hrest
      exact ⟨_, hlast.trans (by rw [id?_insert, if_pos rfl])⟩

namespace Sound

/-! ### Consequences -/

theorem id?_eq (h : m.Sound headers) (hk : header ∈ headers) :
    m.id? header = some (m.columnOf header) := by
  obtain ⟨id, hid⟩ := Option.isSome_iff_exists.mp (h.live.mpr hk)
  simp [columnOf, hid]

theorem mem (h : m.Sound headers) (hk : m.header? id = some header) : header ∈ headers :=
  h.live.mp (by rw [h.inverse.mp hk]; rfl)

theorem columnOf_eq (h : m.Sound headers) (hk : m.header? id = some header) :
    m.columnOf header = id := by
  simp [columnOf, h.inverse.mp hk]

theorem columnOf_injective (h : m.Sound headers) {k : Header} (hh : header ∈ headers)
    (hk : k ∈ headers) (he : m.columnOf header = m.columnOf k) : header = k := by
  have hheader := h.inverse.mpr (h.id?_eq hh)
  rw [he, h.inverse.mpr (h.id?_eq hk)] at hheader
  exact (Option.some.inj hheader).symm

theorem header_injective (h : m.Sound headers) {i : ColumnId} (hid : m.header? id = some header)
    (hi : m.header? i = some header) : id = i := by
  have := h.inverse.mp hid
  rw [h.inverse.mp hi] at this
  exact (Option.some.inj this).symm

/-- The headers of registered columns. -/
theorem headersFor (h : m.Sound headers) {ids : List ColumnId} {hs : List Header}
    (hids : List.Forall₂ (fun id k => m.header? id = some k) ids hs) :
    hs.map m.columnOf = ids ∧ ∀ k ∈ hs, k ∈ headers := by
  induction hids with
  | nil => simp
  | cons hid _ ih =>
    rw [List.map_cons, ih.1, h.columnOf_eq hid, List.forall_mem_cons]
    exact ⟨rfl, h.mem hid, ih.2⟩

/-- Only which headers there are counts. -/
theorem congr (h : m.Sound headers) {hs : List Header} (hmem : ∀ k, k ∈ hs ↔ k ∈ headers) :
    m.Sound hs :=
  ⟨h.inverse, h.live.trans (hmem _).symm, h.issued⟩

/-! ### Operations -/

theorem empty : ({} : ColumnIds).Sound [] where
  inverse := by simp [header?, id?]
  live := by simp [id?]
  issued := by simp [header?]

/-- A column under an id that no other one has. -/
theorem insertWithId (h : m.Sound headers) (hid : m.header? id = none)
    (hh : header ∉ headers) : (m.insertWithId id header).Sound (header :: headers) where
  inverse := by
    intro i k
    rw [header?_insertWithId, id?_insertWithId]
    by_cases hi : id = i <;> by_cases hk : header = k
    · simp [hi, hk]
    · -- the id had no header before, so it has none but the new one
      subst hi
      simp only [hk, if_true, if_false, Option.some.injEq, false_iff]
      intro hn
      rw [h.inverse.mpr hn] at hid
      cases hid
    · -- the header is new, so no other id had it
      subst hk
      simp only [hi, if_true, if_false, Option.some.injEq, iff_false]
      exact fun hn => hh (h.mem hn)
    · simpa [hi, hk] using h.inverse
  live := by
    intro k
    rw [id?_insertWithId, List.mem_cons]
    by_cases hk : header = k
    · simp [hk]
    · simpa [hk, Ne.symm hk] using h.live
  issued := by
    intro i k hi
    rw [header?_insertWithId] at hi
    rw [mem_issued_insertWithId]
    by_cases he : id = i
    · exact .inl he.symm
    · rw [if_neg he] at hi
      exact .inr (h.issued hi)

/-- The fresh id is that of no column. -/
theorem header?_freshId (h : m.Sound headers) (header : Header) :
    m.header? (m.freshId header) = none := by
  cases hid : m.header? (m.freshId header) with
  | none => rfl
  | some k => exact absurd (h.issued hid) (freshId_not_issued m header)

theorem insert (h : m.Sound headers) (hh : header ∉ headers) :
    (m.insert header).2.Sound (header :: headers) :=
  h.insertWithId (h.header?_freshId header) hh

/-- Columns added one after the other. -/
theorem insertAll {names : List Header} (h : m.Sound headers) (hnd : names.Nodup)
    (hnew : ∀ k ∈ names, k ∉ headers) :
    (names.foldl (fun m k => (m.insert k).2) m).Sound (names ++ headers) := by
  induction names generalizing m headers with
  | nil => exact h
  | cons k rest ih =>
    obtain ⟨hk, hrest⟩ := List.nodup_cons.mp hnd
    have hnext := h.insert (hnew k List.mem_cons_self)
    refine (ih hnext hrest fun j hj => ?_).congr fun j => ?_
    · rw [List.mem_cons, not_or]
      exact ⟨fun he => hk (he ▸ hj), hnew j (List.mem_cons_of_mem _ hj)⟩
    · simp only [List.mem_append, List.mem_cons]
      tauto

theorem ofHeaders (hnd : headers.Nodup) : (ColumnIds.ofHeaders headers).Sound headers := by
  have h := empty.insertAll hnd fun _ _ => List.not_mem_nil
  rwa [List.append_nil] at h

/-- Columns that come with their ids. -/
theorem insertPairs {ps : List (ColumnId × Header)} (h : m.Sound headers)
    (hids : (ps.map Prod.fst).Nodup) (hhs : (ps.map Prod.snd).Nodup)
    (hnew : ∀ p ∈ ps, m.header? p.1 = none ∧ p.2 ∉ headers) :
    (ps.foldl (fun m p => m.insertWithId p.1 p.2) m).Sound (ps.map Prod.snd ++ headers) := by
  induction ps generalizing m headers with
  | nil => exact h
  | cons p rest ih =>
    obtain ⟨hid, hids⟩ := List.nodup_cons.mp hids
    obtain ⟨hh, hhs⟩ := List.nodup_cons.mp hhs
    obtain ⟨hnone, hfree⟩ := hnew p List.mem_cons_self
    refine (ih (h.insertWithId hnone hfree) hids hhs fun q hq => ?_).congr fun k => ?_
    · obtain ⟨hqnone, hqfree⟩ := hnew q (List.mem_cons_of_mem _ hq)
      have hne : p.1 ≠ q.1 := fun he => hid (he ▸ List.mem_map_of_mem hq)
      rw [header?_insertWithId, if_neg hne, List.mem_cons, not_or]
      exact ⟨hqnone, fun he => hh (he ▸ List.mem_map_of_mem hq), hqfree⟩
    · simp only [List.map_cons, List.mem_append, List.mem_cons]
      tauto

theorem remove (h : m.Sound headers) (hid : m.header? id = some header) :
    (m.remove id).2.Sound (headers.filter fun k => k ≠ header) where
  inverse := by
    intro i k
    rw [header?_remove hid, id?_remove hid]
    by_cases hi : id = i <;> by_cases hk : header = k
    · simp [hi, hk]
    · subst hi
      simp only [hk, if_true, if_false, reduceCtorEq, false_iff]
      intro hn
      rw [h.inverse.mpr hn] at hid
      exact hk (Option.some.inj hid).symm
    · subst hk
      simp only [hi, if_true, if_false, reduceCtorEq, iff_false]
      exact fun hn => hi (h.header_injective hid hn)
    · simpa [hi, hk] using h.inverse
  live := by
    intro k
    rw [id?_remove hid, List.mem_filter, ← h.live]
    by_cases hk : header = k
    · simp [hk]
    · simp [hk, Ne.symm hk]
  issued := by
    intro i k hi
    rw [header?_remove hid] at hi
    have hmem : i ∈ m.issued := by
      by_cases he : id = i
      · simp [he] at hi
      · rw [if_neg he] at hi
        exact h.issued hi
    rw [remove_eq hid]
    exact hmem

/-- Only what is looked up counts. -/
theorem of_lookups {n : ColumnIds} (h : n.Sound headers)
    (hheader : ∀ i, m.header? i = n.header? i) (hid : ∀ k, m.id? k = n.id? k)
    (hissued : ∀ i ∈ n.issued, i ∈ m.issued) : m.Sound headers where
  inverse := by
    intro i k
    rw [hheader, hid]
    exact h.inverse
  live := by
    intro k
    rw [hid]
    exact h.live
  issued := by
    intro i k hi
    rw [hheader] at hi
    exact hissued i (h.issued hi)

/-- A column under another header: it goes and comes back under its id. -/
theorem rename (h : m.Sound headers) {old new : Header} (hid : m.header? id = some old)
    (hnew : new ∉ headers) :
    (m.rename id new).2.Sound (headers.map fun k => if k = old then new else k) := by
  have hgone : (m.remove id).2.header? id = none := by simp [header?_remove hid]
  have hfree : new ∉ headers.filter fun k => k ≠ old := fun hmem =>
    hnew (List.mem_of_mem_filter hmem)
  have hback := (h.remove hid).insertWithId hgone hfree
  -- a renamed column cannot be told from one that was removed and put back
  have hlook : (m.rename id new).2.Sound (new :: headers.filter fun k => k ≠ old) := by
    refine hback.of_lookups (fun i => ?_) (fun k => ?_) fun i hi => ?_
    · rw [header?_insertWithId, header?_remove hid, rename_eq hid]
      unfold header?
      rw [Dictionary.get?_insert]
      by_cases hi : id = i <;> simp [hi]
    · rw [id?_insertWithId, id?_remove hid, id?_rename hid]
    · rw [mem_issued_insertWithId, remove_eq hid] at hi
      rw [rename_eq hid]
      rcases hi with rfl | hi
      · exact h.issued hid
      · exact hi
  refine hlook.congr fun k => ?_
  have hold : old ∈ headers := h.mem hid
  simp only [List.mem_map, List.mem_cons, List.mem_filter, decide_eq_true_eq]
  constructor
  · rintro ⟨j, hj, hjk⟩
    split at hjk
    · exact .inl hjk.symm
    · next hne => exact .inr ⟨hjk ▸ hj, hjk ▸ hne⟩
  · rintro (rfl | ⟨hk, hne⟩)
    · exact ⟨old, hold, if_pos rfl⟩
    · exact ⟨k, hk, if_neg hne⟩

/-- Columns removed one after the other. -/
theorem removeAll {ids : List ColumnId} {hs : List Header} (h : m.Sound headers)
    (hids : List.Forall₂ (fun id k => m.header? id = some k) ids hs) (hnd : ids.Nodup) :
    (ids.foldl (fun m id => (m.remove id).2) m).Sound (headers.filter fun k => k ∉ hs)
      ∧ (∀ k ∉ hs, (ids.foldl (fun m id => (m.remove id).2) m).id? k = m.id? k)
      ∧ ∀ i ∈ ids, (ids.foldl (fun m id => (m.remove id).2) m).header? i = none := by
  induction ids generalizing m headers hs with
  | nil =>
    cases hids
    exact ⟨h.congr (by simp), fun _ _ => rfl, fun _ hi => by cases hi⟩
  | cons id ids ih =>
    obtain _ | ⟨hid, hrest⟩ := hids
    obtain ⟨hnot, hnd⟩ := List.nodup_cons.mp hnd
    rename_i header hs
    -- the ids that are still to go keep their headers until then
    have hnext : List.Forall₂ (fun i k => (m.remove id).2.header? i = some k) ids hs := by
      obtain ⟨hlen, hzip⟩ := List.forall₂_iff_zip.mp hrest
      refine List.forall₂_iff_zip.mpr ⟨hlen, fun {i k} hik => ?_⟩
      have hne : id ≠ i := fun he => hnot (he ▸ (List.of_mem_zip hik).1)
      rw [header?_remove hid, if_neg hne]
      exact hzip hik
    obtain ⟨hsound, hsame, hgone⟩ := ih (h.remove hid) hnext hnd
    refine ⟨hsound.congr fun k => ?_, fun k hk => ?_, fun i hi => ?_⟩
    · simp only [List.mem_filter, List.mem_cons, decide_eq_true_eq]
      tauto
    · rw [List.mem_cons, not_or] at hk
      rw [List.foldl_cons, hsame k hk.2, id?_remove hid, if_neg (Ne.symm hk.1)]
    · rcases List.mem_cons.mp hi with rfl | hi
      · -- its header is gone, and no other one has the id
        cases hlast : (ids.foldl (fun m id => (m.remove id).2) (m.remove i).2).header? i with
        | none => exact hlast
        | some k =>
          have hk := hsound.inverse.mp hlast
          by_cases hkhs : k ∈ hs
          · have hmem := hsound.mem hlast
            simp [hkhs] at hmem
          · rw [hsame k hkhs, ← (h.remove hid).inverse, header?_remove hid] at hk
            simp at hk
      · exact hgone i hi

end Sound

end ColumnIds

end SheetScript
