import SheetScript.Proofs.ColumnIds

/-! # Ids over a history

  The columns of a sheet start with a list of headers and are changed by calls, one after the
  other.  Calls that introduce a header only where no other column has it keep ids and headers
  inverse to each other.  What a column was once known by stays issued when the column is gone;
  so no id is handed out that was handed out before, although numbered headers look like ids.

  Main statement: `ColumnIds.Reached.trustworthy`.
-/

namespace SheetScript.ColumnIds

variable {m : ColumnIds} {past : List ColumnId} {id : ColumnId} {header old new : Header}

/-! ### Histories -/

/-- A call that changes the columns of a sheet. -/
inductive Call where
  | insert (header : Header)
  | insertWithId (id : ColumnId) (header : Header)
  | rename (id : ColumnId) (header : Header)
  | remove (id : ColumnId)
  | rekey (id : ColumnId) (header : Header)

namespace Call

/-- The columns after the call. -/
def run (m : ColumnIds) : Call → ColumnIds
  | insert header => (m.insert header).2
  | insertWithId id header => m.insertWithId id header
  | rename id header => (m.rename id header).2
  | remove id => (m.remove id).2
  | rekey id header => (m.rekey id header).2

/-- The id that the call returns for a column or registers. -/
def given (m : ColumnIds) : Call → List ColumnId
  | insert header => [(m.insert header).1]
  | insertWithId id _ => [id]
  | rename _ _ => []
  | remove _ => []
  | rekey id header => (m.rekey id header).1.toList

/-- A header is introduced only when no other column has it, and an id that comes along is
  that of no column. -/
def Allowed (m : ColumnIds) : Call → Prop
  | insert header => m.Lacks header
  | insertWithId id header => m.Lacks header ∧ m.header? id = none
  | rename id header => m.contains id → ∀ i, m.header? i = some header → i = id
  | remove _ => True
  | rekey id header => m.contains id → ∀ i, m.header? i = some header → i = id

end Call

/-- Columns that allowed calls lead to, with the ids that were given on the way. -/
inductive Reached : List ColumnId → ColumnIds → Prop where
  | start (headers : List Header) (hnd : headers.Nodup) :
      Reached (headers.filterMap (ofHeaders headers).id?) (ofHeaders headers)
  | call {past : List ColumnId} {m : ColumnIds} (c : Call) (h : Reached past m)
      (hc : c.Allowed m) : Reached (c.given m ++ past) (c.run m)

/-! ### What every call keeps -/

/-- Ids and headers are inverse, both maps are in order, and what was given stays issued. -/
structure Kept (past : List ColumnId) (m : ColumnIds) : Prop where
  sound : ∃ headers, m.Sound headers
  ascendingHeaders : Dictionary.Ascending m.headerOf
  ascendingIds : Dictionary.Ascending m.idOf
  issued : ∀ id ∈ past, id ∈ m.issued

theorem Sound.not_mem_of_lacks {headers : List Header} (h : m.Sound headers)
    (hlacks : m.Lacks header) : header ∉ headers := by
  intro hmem
  exact hlacks _ (h.inverse.mpr (h.id?_eq hmem))

theorem remove_of_none (h : m.header? id = none) : m.remove id = (none, m) := by
  simp [remove, h]

theorem rename_of_none (h : m.header? id = none) : m.rename id new = (none, m) := by
  simp [rename, h]

theorem rekey_of_none (h : m.header? id = none) : m.rekey id new = (none, m) := by
  simp [rekey, remove_of_none h]

theorem ascending_insertAll (headers : List Header) (hheaders : Dictionary.Ascending m.headerOf)
    (hids : Dictionary.Ascending m.idOf) :
    Dictionary.Ascending (headers.foldl (fun m k => (m.insert k).2) m).headerOf
      ∧ Dictionary.Ascending (headers.foldl (fun m k => (m.insert k).2) m).idOf := by
  induction headers generalizing m with
  | nil => exact ⟨hheaders, hids⟩
  | cons k rest ih => exact ih (hheaders.insert (m.freshId k) k) (hids.insert k (m.freshId k))

namespace Kept

theorem header?_freshId (h : Kept past m) (header : Header) :
    m.header? (m.freshId header) = none := by
  obtain ⟨headers, hsound⟩ := h.sound
  exact hsound.header?_freshId header

theorem insertWithId (h : Kept past m) (hid : m.header? id = none) (hlacks : m.Lacks header) :
    Kept (id :: past) (m.insertWithId id header) where
  sound := by
    obtain ⟨headers, hsound⟩ := h.sound
    exact ⟨header :: headers, hsound.insertWithId hid (hsound.not_mem_of_lacks hlacks)⟩
  ascendingHeaders := h.ascendingHeaders.insert id header
  ascendingIds := h.ascendingIds.insert header id
  issued := by
    intro i hi
    rw [mem_issued_insertWithId]
    exact (List.mem_cons.mp hi).imp_right (h.issued i)

theorem insert (h : Kept past m) (hlacks : m.Lacks header) :
    Kept ((m.insert header).1 :: past) (m.insert header).2 :=
  h.insertWithId (h.header?_freshId header) hlacks

theorem remove (h : Kept past m) (id : ColumnId) : Kept past (m.remove id).2 := by
  cases hid : m.header? id with
  | none => rwa [remove_of_none hid]
  | some header =>
    refine ⟨?_, ?_, ?_, fun i hi => ?_⟩
    · obtain ⟨headers, hsound⟩ := h.sound
      exact ⟨_, hsound.remove hid⟩
    · rw [remove_eq hid]
      exact h.ascendingHeaders.erase id
    · rw [remove_eq hid]
      exact h.ascendingIds.erase header
    · rw [issued_remove]
      exact h.issued i hi

theorem rename (h : Kept past m) (hc : (Call.rename id new).Allowed m) :
    Kept past (m.rename id new).2 := by
  cases hid : m.header? id with
  | none => rwa [rename_of_none hid]
  | some old =>
    refine ⟨?_, ?_, ?_, fun i hi => ?_⟩
    · obtain ⟨headers, hsound⟩ := h.sound
      by_cases hsame : new = old
      · -- nothing that is looked up changes
        subst hsame
        refine ⟨headers, hsound.of_lookups (fun i => ?_) (fun k => ?_) fun i hi => ?_⟩
        · rw [header?_rename hid]
          by_cases hi : id = i
          · rw [if_pos hi, ← hi, hid]
          · rw [if_neg hi]
        · rw [id?_rename hid]
          by_cases hk : new = k
          · rw [if_pos hk, ← hk, hsound.inverse.mp hid]
          · rw [if_neg hk, if_neg hk]
        · rwa [issued_rename]
      · refine ⟨_, hsound.rename hid (hsound.not_mem_of_lacks fun i hi => hsame ?_)⟩
        obtain rfl := hc (contains_iff.mpr ⟨old, hid⟩) i hi
        exact Option.some.inj (hi.symm.trans hid)
    · rw [rename_eq hid]
      exact h.ascendingHeaders.insert id new
    · rw [rename_eq hid]
      exact (h.ascendingIds.erase old).insert new id
    · rw [issued_rename]
      exact h.issued i hi

theorem rekey (h : Kept past m) (hc : (Call.rekey id new).Allowed m) :
    Kept ((m.rekey id new).1.toList ++ past) (m.rekey id new).2 := by
  cases hid : m.header? id with
  | none => rwa [rekey_of_none hid]
  | some old =>
    rw [rekey_eq hid]
    -- the column itself is gone by now, so another one would have the header
    refine (h.remove id).insert fun i hi => ?_
    rw [header?_remove hid] at hi
    split at hi
    · cases hi
    · next hne => exact hne (hc (contains_iff.mpr ⟨old, hid⟩) i hi).symm

/-- One call. -/
theorem run (h : Kept past m) (c : Call) (hc : c.Allowed m) :
    Kept (c.given m ++ past) (c.run m) := by
  cases c with
  | insert header => exact h.insert hc
  | insertWithId id header => exact h.insertWithId hc.2 hc.1
  | rename id header => exact h.rename hc
  | remove id => exact h.remove id
  | rekey id header => exact h.rekey hc

theorem ofHeaders {headers : List Header} (hnd : headers.Nodup) :
    Kept (headers.filterMap (ofHeaders headers).id?) (ofHeaders headers) := by
  have hsound := Sound.ofHeaders hnd
  obtain ⟨hheaders, hids⟩ := ascending_insertAll headers (m := {}) .nil .nil
  refine ⟨⟨headers, hsound⟩, hheaders, hids, fun id hid => ?_⟩
  obtain ⟨header, -, hheader⟩ := List.mem_filterMap.mp hid
  exact hsound.issued (hsound.inverse.mpr hheader)

end Kept

/-- A history. -/
theorem Reached.kept (h : Reached past m) : Kept past m := by
  induction h with
  | start headers hnd => exact .ofHeaders hnd
  | call c h hc ih => exact ih.run c hc

/-! ### What the columns can be relied on for -/

/-- The search for a fresh id ended with the header, or with the smallest number that is
  free. -/
inductive SearchEnded (m : ColumnIds) (header : Header) : Prop where
  | plain (hfree : ⟨header⟩ ∉ m.issued) (hid : m.freshId header = ⟨header⟩)
  | counted (n : Nat) (htaken : ⟨header⟩ ∈ m.issued) (hn : n ≤ m.issued.length)
      (hid : m.freshId header = ⟨Naming.numbered header (n + 1)⟩)
      (hfree : m.freshId header ∉ m.issued)
      (hbefore : ∀ k < n, (⟨Naming.numbered header (k + 1)⟩ : ColumnId) ∈ m.issued)

/-- What holds of the columns of a sheet, when `past` are the ids that were given before. -/
structure Trustworthy (past : List ColumnId) (m : ColumnIds) : Prop where
  inverse : ∀ id header, m.header? id = some header ↔ m.id? header = some id
  sizes : m.headerOf.length = m.idOf.length
  issued : ∀ id header, m.header? id = some header → id ∈ m.issued
  insert : ∀ header, (m.insert header).1 ∉ past
  rekey : ∀ id old new, m.header? id = some old →
    ∃ fresh, (m.rekey id new).1 = some fresh ∧ fresh ∉ past
  rekeyNone : ∀ id new, m.header? id = none → m.rekey id new = (none, m)
  rename : ∀ id old new, m.header? id = some old → (Call.rename id new).Allowed m →
    (m.rename id new).1 = some old
      ∧ (m.rename id new).2.header? id = some new
      ∧ (m.rename id new).2.id? new = some id
      ∧ (new ≠ old → (m.rename id new).2.id? old = none ∧ (m.rename id new).2.Lacks old)
  remove : ∀ id old, m.header? id = some old →
    (m.remove id).1 = some old
      ∧ (m.remove id).2.header? id = none
      ∧ (m.remove id).2.id? old = none
      ∧ (m.remove id).2.Lacks old
  search : ∀ header, SearchEnded m header

theorem searchEnded (m : ColumnIds) (header : Header) : SearchEnded m header := by
  have hissued : ∀ text, text ∈ m.issued.map ColumnId.text ↔ (⟨text⟩ : ColumnId) ∈ m.issued := by
    intro text
    refine ⟨fun h => ?_, fun h => List.mem_map.mpr ⟨_, h, rfl⟩⟩
    obtain ⟨id, hid, rfl⟩ := List.mem_map.mp h
    exact hid
  by_cases htaken : (⟨header⟩ : ColumnId) ∈ m.issued
  · obtain ⟨n, hn, heq, -, hbefore⟩ := Naming.firstFree_of_mem ((hissued header).mpr htaken)
    rw [List.length_map] at hn
    refine .counted n htaken hn (congrArg ColumnId.mk heq) (freshId_not_issued m header) ?_
    exact fun k hk => (hissued _).mp (hbefore k hk)
  · have hfree := (hissued header).not.mpr htaken
    exact .plain htaken (congrArg ColumnId.mk (Naming.firstFree_of_not_mem hfree))

theorem Sound.lacks_of_id? {headers : List Header} (h : m.Sound headers)
    (hid : m.id? header = none) : m.Lacks header := by
  intro i hi
  rw [h.inverse.mp hi] at hid
  cases hid

theorem Kept.sizes (h : Kept past m) : m.headerOf.length = m.idOf.length := by
  obtain ⟨headers, hsound⟩ := h.sound
  apply Nat.le_antisymm
  · exact h.ascendingHeaders.length_le_of_reversed hsound.inverse.mp
  · exact h.ascendingIds.length_le_of_reversed hsound.inverse.mpr

/-- After any history of allowed calls, ids and headers are inverse to each other, and an id
  that is handed out is none of those that were given before. -/
theorem Reached.trustworthy (h : Reached past m) : Trustworthy past m := by
  have hkept := h.kept
  obtain ⟨headers, hsound⟩ := hkept.sound
  -- a rekeyed column is removed first; that changes nothing of what is issued
  have hfresh : ∀ {m' : ColumnIds}, m'.issued = m.issued → ∀ header, m'.freshId header ∉ past := by
    intro m' hissued header hpast
    exact freshId_not_issued m' header (hissued ▸ hkept.issued _ hpast)
  refine
    { inverse := fun id header => hsound.inverse
      sizes := hkept.sizes
      issued := fun id header => hsound.issued
      insert := hfresh rfl
      rekey := ?_
      rekeyNone := fun id new => rekey_of_none
      rename := ?_
      remove := ?_
      search := searchEnded m }
  · intro id old new hid
    exact ⟨_, congrArg Prod.fst (rekey_eq hid new), hfresh (issued_remove m id) new⟩
  · intro id old new hid hc
    refine ⟨congrArg Prod.fst (rename_eq hid new), ?_, ?_, fun hne => ?_⟩
    · rw [header?_rename hid, if_pos rfl]
    · rw [id?_rename hid, if_pos rfl]
    · have hold : (m.rename id new).2.id? old = none := by
        rw [id?_rename hid, if_neg hne, if_pos rfl]
      obtain ⟨_, hafter⟩ := (hkept.rename hc).sound
      exact ⟨hold, hafter.lacks_of_id? hold⟩
  · intro id old hid
    have hold : (m.remove id).2.id? old = none := by rw [id?_remove hid, if_pos rfl]
    refine ⟨congrArg Prod.fst (remove_eq hid), ?_, hold, (hsound.remove hid).lacks_of_id? hold⟩
    rw [header?_remove hid, if_pos rfl]

namespace Sample

/-- Of two columns the first one is removed; the second one gets the header that is the next
  number of the first. -/
def columns : ColumnIds := (((ofHeaders ["A", "A_1"]).remove ⟨"A"⟩).2.rename ⟨"A_1"⟩ "A_2").2

end Sample

/-- A header stands at one column while another column gets it as its id. -/
theorem trustworthy_numbered :
    Trustworthy [⟨"A"⟩, ⟨"A_1"⟩] Sample.columns
      ∧ Sample.columns.id? "A_2" = some ⟨"A_1"⟩
      ∧ (Sample.columns.insert "A").1 = ⟨"A_2"⟩ := by
  have hstart : ["A", "A_1"].filterMap (ofHeaders ["A", "A_1"]).id? = [⟨"A"⟩, ⟨"A_1"⟩] := by
    decide
  have hleft : ((ofHeaders ["A", "A_1"]).remove ⟨"A"⟩).2.headerOf = [(⟨"A_1"⟩, "A_1")] := by
    decide
  have hreached : Reached [⟨"A"⟩, ⟨"A_1"⟩] Sample.columns := by
    refine .call (.rename ⟨"A_1"⟩ "A_2") (.call (.remove ⟨"A"⟩) (hstart ▸ .start _ ?_) trivial) ?_
    · decide
    · intro _ i hi
      have hmem := hleft ▸ Dictionary.mem_of_get? hi
      simp at hmem
  exact ⟨hreached.trustworthy, by decide, by decide⟩

end SheetScript.ColumnIds
