import SheetScript.Proofs.State.Basic

/-! # Linked columns

  Imports under legacy ids can give two columns of a sheet one id, so the two maps
  of a sheet are not inverse to each other in every state.  One half always holds:
  the header of a registered id leads back to that id, and it stands in the frame.
  Every operation on column ids keeps this, also where ids repeat.
-/

namespace SheetScript

namespace ColumnIds

/-- The header of a registered id leads back to it and is one of the list. -/
structure Linked (m : ColumnIds) (headers : List Header) : Prop where
  back : ∀ {id h}, m.header? id = some h → m.id? h = some id
  live : ∀ {id h}, m.header? id = some h → h ∈ headers

variable {m : ColumnIds} {headers : List Header} {id : ColumnId} {header : Header}

theorem Sound.linked (h : m.Sound headers) : m.Linked headers :=
  ⟨h.inverse.mp, h.mem⟩

/-- After some ids were removed they have no header, and the others keep theirs. -/
theorem header?_removeAll (ids : List ColumnId) (m : ColumnIds) (i : ColumnId) :
    (ids.foldl (fun m id => (m.remove id).2) m).header? i
      = if i ∈ ids then none else m.header? i := by
  induction ids generalizing m with
  | nil => simp
  | cons id rest ih =>
    rw [List.foldl_cons, ih]
    by_cases hrest : i ∈ rest
    · simp [hrest]
    · rw [if_neg hrest]
      cases hid : m.header? id with
      | none =>
        have hsame : (m.remove id).2 = m := by simp [remove, hid]
        rw [hsame]
        by_cases he : i = id
        · simp [he, hid]
        · simp [he, hrest]
      | some k =>
        rw [header?_remove hid]
        by_cases he : id = i
        · simp [he]
        · simp [he, Ne.symm he, hrest]

namespace Linked

/-- Ids with one header are one id. -/
theorem unique (h : m.Linked headers) {i : ColumnId} (hid : m.header? id = some header)
    (hi : m.header? i = some header) : id = i := by
  have hback := h.back hid
  rw [h.back hi] at hback
  exact (Option.some.inj hback).symm

/-- Only which headers there are counts. -/
theorem mono (h : m.Linked headers) {hs : List Header} (hsub : ∀ k ∈ headers, k ∈ hs) :
    m.Linked hs :=
  ⟨h.back, fun hid => hsub _ (h.live hid)⟩

theorem empty : ({} : ColumnIds).Linked [] := Sound.empty.linked

/-- A header that is new to the list, under any id. -/
theorem insertWithId (h : m.Linked headers) (id : ColumnId) (hnew : header ∉ headers) :
    (m.insertWithId id header).Linked (header :: headers) where
  back := by
    intro i k hi
    rw [header?_insertWithId] at hi
    rw [id?_insertWithId]
    by_cases hid : id = i
    · rw [if_pos hid, Option.some.injEq] at hi
      rw [if_pos hi, hid]
    · rw [if_neg hid] at hi
      have hne : header ≠ k := fun he => hnew (he ▸ h.live hi)
      rw [if_neg hne]
      exact h.back hi
  live := by
    intro i k hi
    rw [header?_insertWithId] at hi
    by_cases hid : id = i
    · rw [if_pos hid, Option.some.injEq] at hi
      exact hi ▸ List.mem_cons_self
    · rw [if_neg hid] at hi
      exact List.mem_cons_of_mem _ (h.live hi)

theorem insert (h : m.Linked headers) (hnew : header ∉ headers) :
    (m.insert header).2.Linked (header :: headers) :=
  h.insertWithId _ hnew

/-- Columns added one after the other. -/
theorem insertAll {names : List Header} (h : m.Linked headers) (hnd : names.Nodup)
    (hnew : ∀ k ∈ names, k ∉ headers) :
    (names.foldl (fun m k => (m.insert k).2) m).Linked (names ++ headers) := by
  induction names generalizing m headers with
  | nil => exact h
  | cons k rest ih =>
    obtain ⟨hk, hrest⟩ := List.nodup_cons.mp hnd
    refine (ih (h.insert (hnew k List.mem_cons_self)) hrest fun j hj => ?_).mono fun j => ?_
    · rw [List.mem_cons, not_or]
      exact ⟨fun he => hk (he ▸ hj), hnew j (List.mem_cons_of_mem _ hj)⟩
    · simp only [List.mem_append, List.mem_cons]
      tauto

/-- Columns that come with ids, which may repeat. -/
theorem insertPairs {ps : List (ColumnId × Header)} (h : m.Linked headers)
    (hnd : (ps.map Prod.snd).Nodup) (hnew : ∀ p ∈ ps, p.2 ∉ headers) :
    (ps.foldl (fun m p => m.insertWithId p.1 p.2) m).Linked (ps.map Prod.snd ++ headers) := by
  induction ps generalizing m headers with
  | nil => exact h
  | cons p rest ih =>
    obtain ⟨hp, hrest⟩ := List.nodup_cons.mp hnd
    have hnext := h.insertWithId p.1 (hnew p List.mem_cons_self)
    refine (ih hnext hrest fun q hq => ?_).mono fun k => ?_
    · rw [List.mem_cons, not_or]
      exact ⟨fun he => hp (he ▸ List.mem_map_of_mem hq), hnew q (List.mem_cons_of_mem _ hq)⟩
    · simp only [List.map_cons, List.mem_append, List.mem_cons]
      tauto

/-- The header of a removed id is given up with it. -/
theorem remove (h : m.Linked headers) (hid : m.header? id = some header) :
    (m.remove id).2.Linked (headers.filter fun k => k ≠ header) := by
  have hlook : ∀ {i k}, (m.remove id).2.header? i = some k →
      m.header? i = some k ∧ k ≠ header := by
    intro i k hi
    rw [header?_remove hid] at hi
    by_cases he : id = i
    · simp [he] at hi
    · rw [if_neg he] at hi
      exact ⟨hi, fun hk => he (h.unique hid (hk ▸ hi))⟩
  refine ⟨fun {i k} hi => ?_, fun {i k} hi => ?_⟩
  · obtain ⟨hold, hne⟩ := hlook hi
    rw [id?_remove hid, if_neg (Ne.symm hne)]
    exact h.back hold
  · obtain ⟨hold, hne⟩ := hlook hi
    exact List.mem_filter.mpr ⟨h.live hold, by simpa using hne⟩

/-- Columns removed one after the other leave only the headers of the others. -/
theorem removeAll (h : m.Linked headers) (ids : List ColumnId) :
    (ids.foldl (fun m id => (m.remove id).2) m).Linked headers := by
  induction ids generalizing m with
  | nil => exact h
  | cons id rest ih =>
    refine ih ?_
    cases hid : m.header? id with
    | none =>
      have hsame : (m.remove id).2 = m := by simp [ColumnIds.remove, hid]
      show (m.remove id).2.Linked headers
      rw [hsame]
      exact h
    | some k => exact (h.remove hid).mono fun j hj => List.mem_of_mem_filter hj

/-- A header that belongs to none of the removed ids keeps its id. -/
theorem id?_removeAll {ids : List ColumnId} {hs : List Header} (h : m.Linked headers)
    (hids : List.Forall₂ (fun id k => m.header? id = some k) ids hs) (hnd : ids.Nodup)
    {k : Header} (hk : k ∉ hs) :
    (ids.foldl (fun m id => (m.remove id).2) m).id? k = m.id? k := by
  induction ids generalizing m headers hs with
  | nil => rfl
  | cons id rest ih =>
    obtain _ | ⟨hid, hrest⟩ := hids
    obtain ⟨hnot, hnd⟩ := List.nodup_cons.mp hnd
    rw [List.mem_cons, not_or] at hk
    -- the ids that are still to go keep their headers until then
    obtain ⟨hlen, hzip⟩ := List.forall₂_iff_zip.mp hrest
    have hnext := List.forall₂_iff_zip.mpr ⟨hlen, fun {i j} hij => by
      have hne : id ≠ i := fun he => hnot (he ▸ (List.of_mem_zip hij).1)
      show (m.remove id).2.header? i = some j
      rw [header?_remove hid, if_neg hne]
      exact hzip hij⟩
    rw [List.foldl_cons, ih (h.remove hid) hnext hnd hk.2, id?_remove hid, if_neg (Ne.symm hk.1)]

/-- Removed ids give up their headers. -/
theorem drop {ids : List ColumnId} {hs : List Header} (h : m.Linked headers)
    (hids : List.Forall₂ (fun id k => m.header? id = some k) ids hs) :
    (ids.foldl (fun m id => (m.remove id).2) m).Linked (headers.filter fun k => k ∉ hs) where
  back := (h.removeAll ids).back
  live := by
    intro i k hi
    rw [header?_removeAll] at hi
    split at hi
    · cases hi
    · next hnot =>
      refine List.mem_filter.mpr ⟨h.live hi, ?_⟩
      rw [decide_eq_true_eq]
      intro hk
      obtain ⟨j, hj, hjk⟩ := exists_of_mem_right hids hk
      exact hnot (h.unique hjk hi ▸ hj)

/-- A column under another header, which is new to the list. -/
theorem rename (h : m.Linked headers) {old new : Header} (hid : m.header? id = some old)
    (hnew : new ∉ headers) :
    (m.rename id new).2.Linked (headers.map fun k => if k = old then new else k) := by
  have hheader : ∀ i, (m.rename id new).2.header? i
      = if id = i then some new else m.header? i := by
    intro i
    rw [rename_eq hid]
    exact Dictionary.get?_insert _ _ _ _
  refine ⟨fun {i k} hi => ?_, fun {i k} hi => ?_⟩
  · rw [hheader] at hi
    rw [id?_rename hid]
    by_cases he : id = i
    · rw [if_pos he, Option.some.injEq] at hi
      rw [if_pos hi, he]
    · rw [if_neg he] at hi
      have hne : new ≠ k := fun hk => hnew (hk ▸ h.live hi)
      have hold : old ≠ k := fun hk => he (h.unique hid (hk ▸ hi))
      rw [if_neg hne, if_neg hold]
      exact h.back hi
  · rw [hheader] at hi
    rw [List.mem_map]
    by_cases he : id = i
    · rw [if_pos he, Option.some.injEq] at hi
      exact ⟨old, h.live hid, by rw [if_pos rfl, hi]⟩
    · rw [if_neg he] at hi
      have hold : k ≠ old := fun hk => he (h.unique hid (hk ▸ hi))
      exact ⟨k, h.live hi, if_neg hold⟩

end Linked

end ColumnIds

/-! ### Sheets and states -/

/-- No header stands twice, and registered ids are linked to headers of the frame. -/
structure Sheet.Linked (sh : Sheet) : Prop where
  headers : sh.headers.Nodup
  columns : sh.columns.Linked sh.headers

/-- Sheets are linked and told apart by ids that were handed out. -/
structure State.Linked (s : State) : Prop where
  ids : (s.sheets.map Sheet.id).Nodup
  below : ∀ sh ∈ s.sheets, sh.id.number < s.nextId
  sheets : ∀ sh ∈ s.sheets, sh.Linked

namespace State.Linked

variable {s : State}

theorem fresh (hs : s.Linked) : (⟨s.nextId⟩ : SheetId) ∉ s.sheets.map Sheet.id := by
  intro h
  obtain ⟨sh, hsh, he⟩ := List.mem_map.mp h
  have hlt := hs.below sh hsh
  rw [he] at hlt
  exact Nat.lt_irrefl _ hlt

/-- Sheets that take the places of others, one for one, under their ids. -/
theorem of_ids {next : State} (hs : s.Linked) (hids : next.sheets.map Sheet.id = s.sheets.map Sheet.id)
    (hnext : next.nextId = s.nextId) (hsheets : ∀ sh ∈ next.sheets, sh.Linked) : next.Linked where
  ids := hids ▸ hs.ids
  below := by
    intro sh hsh
    have hmem : sh.id ∈ s.sheets.map Sheet.id := hids ▸ List.mem_map_of_mem hsh
    obtain ⟨old, hold, he⟩ := List.mem_map.mp hmem
    rw [hnext, ← he]
    exact hs.below old hold
  sheets := hsheets

/-- A sheet added under the next id. -/
theorem push (hs : s.Linked) {sheet : Sheet} (next : State) (hsheets : next.sheets = s.sheets)
    (hnext : next.nextId = s.nextId + 1) (hid : sheet.id = ⟨s.nextId⟩) (hsheet : sheet.Linked) :
    (next.push sheet).Linked where
  ids := by
    rw [State.push, hsheets, List.map_append, List.nodup_append]
    refine ⟨hs.ids, by simp, fun i hi j hj he => hs.fresh ?_⟩
    obtain rfl : j = sheet.id := by simpa using hj
    rw [← hid, ← he]
    exact hi
  below := by
    intro sh hsh
    rw [State.push, hsheets, List.mem_append, List.mem_singleton] at hsh
    show sh.id.number < next.nextId
    rcases hsh with hsh | rfl
    · have hlt := hs.below sh hsh
      omega
    · rw [hid, hnext]
      exact Nat.lt_succ_self _
  sheets := by
    intro sh hsh
    rw [State.push, hsheets, List.mem_append, List.mem_singleton] at hsh
    rcases hsh with hsh | rfl
    · exact hs.sheets sh hsh
    · exact hsheet

/-- Sheets told apart by their ids are one if they have one id. -/
theorem eq_of_id (hs : s.Linked) {sh sk : Sheet} (hsh : sh ∈ s.sheets)
    (hsk : sk ∈ s.sheets) (hid : sh.id = sk.id) : sh = sk :=
  List.inj_on_of_nodup_map hs.ids hsh hsk hid

/-- The sheets of a state of which one was replaced. -/
theorem mem_replace {i : Nat} {sheet after sh : Sheet} (hs : s.Linked)
    (hsheet : s.sheet i = .ok sheet) :
    sh ∈ (s.replace i after).sheets ↔ sh = after ∨ sh ∈ s.sheets ∧ sh.id ≠ sheet.id := by
  obtain ⟨left, right, heq, hlen⟩ := State.sheet_eq_ok hsheet
  have hset : (s.replace i after).sheets = left ++ after :: right := by
    simp [State.replace, heq, ← hlen]
  have hids := hs.ids
  rw [heq, List.map_append, List.map_cons, List.nodup_middle, ← List.map_append] at hids
  have hother : ∀ k ∈ left ++ right, k.id ≠ sheet.id := fun k hk he =>
    (List.nodup_cons.mp hids).1 (he ▸ List.mem_map_of_mem hk)
  rw [hset, heq]
  simp only [List.mem_append, List.mem_cons] at hother ⊢
  constructor
  · rintro (hk | rfl | hk)
    · exact .inr ⟨.inl hk, hother sh (.inl hk)⟩
    · exact .inl rfl
    · exact .inr ⟨.inr (.inr hk), hother sh (.inr hk)⟩
  · rintro (rfl | ⟨hk | rfl | hk, hne⟩)
    · exact .inr (.inl rfl)
    · exact .inl hk
    · exact absurd rfl hne
    · exact .inr (.inr hk)

theorem replace {i : Nat} {sheet after : Sheet} (hs : s.Linked)
    (hsheet : s.sheet i = .ok sheet) (hid : after.id = sheet.id) (hafter : after.Linked) :
    (s.replace i after).Linked := by
  refine hs.of_ids ?_ rfl fun sh hsh => ?_
  · obtain ⟨left, right, heq, hlen⟩ := State.sheet_eq_ok hsheet
    simp [State.replace, heq, ← hlen, hid]
  · rcases (hs.mem_replace hsheet).mp hsh with rfl | ⟨hmem, -⟩
    · exact hafter
    · exact hs.sheets sh hmem

end State.Linked

end SheetScript
