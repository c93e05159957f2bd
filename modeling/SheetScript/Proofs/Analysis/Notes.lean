import SheetScript.Edit.Basic
import SheetScript.Proofs.Coverage.LegacyHeaders

/-! # What edits tell of headers

  Notes on a sheet hold the column of every header that a renaming gave, and the
  headers for which that is not the whole truth.  By the notes a header stands
  for the column that a renaming gave it to, and else for the column whose id it
  is.  That is right for a column that is added, unless the sheet issued the id
  before or a renaming gave the header before: such a header is doubtful, until
  a renaming gives it anew.

  `SheetNotes.Judge` says that a header stands for its column exactly if it is
  not doubtful; every operation on the columns of a sheet keeps it.
-/

namespace SheetScript

/-! ### Ids that are issued -/

namespace ColumnIds

variable {m : ColumnIds} {id i : ColumnId} {h k : Header}

/-- The ids of all columns were issued. -/
def Registered (m : ColumnIds) : Prop := ∀ id h, m.header? id = some h → id ∈ m.issued

/-- A header becomes the id of its column if it was not issued before. -/
theorem freshId_eq_iff : m.freshId h = ⟨h⟩ ↔ (⟨h⟩ : ColumnId) ∉ m.issued := by
  constructor
  · intro he hmem
    exact freshId_not_issued m h (he ▸ hmem)
  · intro hnot
    have htext : h ∉ m.issued.map ColumnId.text := by
      intro hmem
      obtain ⟨i, hi, rfl⟩ := List.mem_map.mp hmem
      exact hnot hi
    unfold freshId Naming.firstFree
    rw [if_neg htext]

theorem issued_removeAll (m : ColumnIds) (ids : List ColumnId) :
    (ids.foldl (fun m id => (m.remove id).2) m).issued = m.issued := by
  induction ids generalizing m with
  | nil => rfl
  | cons id rest ih => rw [List.foldl_cons, ih, issued_remove]

/-- Ids stay issued when columns come with theirs. -/
theorem mem_issued_insertPairs (ps : List (ColumnId × Header)) (hi : i ∈ m.issued) :
    i ∈ (ps.foldl (fun m p => m.insertWithId p.1 p.2) m).issued := by
  induction ps generalizing m with
  | nil => exact hi
  | cons p rest ih => exact ih (mem_issued_insertWithId.mpr (.inr hi))

/-- Only columns that were there are left when one is removed. -/
theorem header?_of_remove (hi : (m.remove id).2.header? i = some h) : m.header? i = some h := by
  cases hid : m.header? id with
  | none => simpa [remove, hid] using hi
  | some k =>
    rw [header?_remove hid] at hi
    split at hi
    · cases hi
    · exact hi

theorem id?_of_remove (hi : (m.remove id).2.id? h = some i) : m.id? h = some i := by
  cases hid : m.header? id with
  | none => simpa [remove, hid] using hi
  | some k =>
    rw [id?_remove hid] at hi
    split at hi
    · cases hi
    · exact hi

namespace Registered

theorem empty : ({} : ColumnIds).Registered := by
  intro id h hid
  cases hid

theorem mono {m' : ColumnIds} (hm : m.Registered)
    (hheader : ∀ {id h}, m'.header? id = some h → ∃ k, m.header? id = some k)
    (hissued : ∀ id ∈ m.issued, id ∈ m'.issued) : m'.Registered := by
  intro id h hid
  obtain ⟨k, hk⟩ := hheader hid
  exact hissued id (hm id k hk)

theorem insertWithId (hm : m.Registered) (id : ColumnId) (h : Header) :
    (m.insertWithId id h).Registered := by
  intro i k hi
  rw [header?_insertWithId] at hi
  rw [mem_issued_insertWithId]
  split at hi
  · next he => exact .inl he.symm
  · exact .inr (hm i k hi)

theorem insertPairs (hm : m.Registered) (ps : List (ColumnId × Header)) :
    (ps.foldl (fun m p => m.insertWithId p.1 p.2) m).Registered := by
  induction ps generalizing m with
  | nil => exact hm
  | cons p rest ih => exact ih (hm.insertWithId p.1 p.2)

theorem insertAll (hm : m.Registered) (hs : List Header) :
    (hs.foldl (fun m h => (m.insert h).2) m).Registered := by
  induction hs generalizing m with
  | nil => exact hm
  | cons h rest ih => exact ih (hm.insertWithId _ h)

theorem remove (hm : m.Registered) (id : ColumnId) : (m.remove id).2.Registered :=
  hm.mono (fun hi => ⟨_, header?_of_remove hi⟩) fun i hi => by rwa [issued_remove]

theorem removeAll (hm : m.Registered) (ids : List ColumnId) :
    (ids.foldl (fun m id => (m.remove id).2) m).Registered := by
  induction ids generalizing m with
  | nil => exact hm
  | cons id rest ih => exact ih (hm.remove id)

end Registered

/-- Headers that differ become the ids of their columns. -/
theorem id?_ofHeaders {headers : List Header} (hnd : headers.Nodup)
    (hid : (ofHeaders headers).id? h = some id) : id = ⟨h⟩ := by
  -- of the columns so far each has its header as its id, and no id is one of a later header
  have key : ∀ (rest : List Header) (m : ColumnIds), rest.Nodup →
      (∀ k ∈ rest, (⟨k⟩ : ColumnId) ∉ m.issued) →
      (∀ {k i}, m.id? k = some i → i = ⟨k⟩) →
      ∀ {k i}, (rest.foldl (fun m k => (m.insert k).2) m).id? k = some i → i = ⟨k⟩ := by
    intro rest
    induction rest with
    | nil => exact fun m _ _ hm => hm
    | cons first rest ih =>
      intro m hnd hfree hm k i hi
      obtain ⟨hnot, hnd⟩ := List.nodup_cons.mp hnd
      have hfresh : m.freshId first = ⟨first⟩ :=
        freshId_eq_iff.mpr (hfree first List.mem_cons_self)
      refine ih (m.insert first).2 hnd (fun k hk hmem => ?_) (fun {k i} hi => ?_) hi
      · rw [mem_issued_insert, hfresh] at hmem
        rcases hmem with he | hmem
        · exact hnot (ColumnId.mk.inj he ▸ hk)
        · exact hfree k (List.mem_cons_of_mem _ hk) hmem
      · rw [id?_insert] at hi
        split at hi
        · next he =>
          rw [← Option.some.inj hi, ← he]
          exact hfresh
        · exact hm hi
  exact key headers {} hnd (fun _ _ => List.not_mem_nil) (fun hi => by cases hi) hid

end ColumnIds

/-! ### Notes -/

/-- Notes on the headers of a sheet. -/
structure SheetNotes where
  /-- The columns that renamings gave headers to. -/
  renamed : Dictionary Header ColumnId := []
  /-- Headers that other columns have than the notes say. -/
  doubtful : List Header := []
  deriving DecidableEq, Repr, Inhabited

namespace SheetNotes

/-- The column that a header stands for. -/
def meaning (n : SheetNotes) (h : Header) : ColumnId := (Dictionary.get? n.renamed h).getD ⟨h⟩

/-- The notes when a renaming gives a header to a column.  The header is doubtful if it is
  that of another column afterwards. -/
def rename (n : SheetNotes) (after : ColumnIds) (id : ColumnId) (h : Header) : SheetNotes :=
  ⟨Dictionary.insert n.renamed h id,
   if after.id? h = some id then n.doubtful.filter fun k => k ≠ h else h :: n.doubtful⟩

/-- Whether a header was issued as an id before, or a renaming gave it. -/
def wasUsed (n : SheetNotes) (m : ColumnIds) (h : Header) : Bool :=
  decide ((⟨h⟩ : ColumnId) ∈ m.issued) || Dictionary.contains n.renamed h

/-- The notes when a column is added. -/
def add (n : SheetNotes) (m : ColumnIds) (h : Header) : SheetNotes :=
  { n with
    doubtful := if n.wasUsed m h then h :: n.doubtful else n.doubtful.filter fun k => k ≠ h }

/-- The notes when columns are added one after the other. -/
def addAll (n : SheetNotes) (m : ColumnIds) : List Header → SheetNotes
  | [] => n
  | h :: rest => (n.add m h).addAll (m.insert h).2 rest

/-- The notes when headers are restricted one after the other.  A header of no column stays
  as it is. -/
def restrict (n : SheetNotes) (m : ColumnIds) : List RestrictHeaders.Renaming → SheetNotes
  | [] => n
  | r :: rest =>
    (if ((m.id? r.1).bind m.header?).isSome then n.add m r.2 else n).restrict
      (RestrictHeaders.relabel (m, []) r).1 rest

/-- The notes when columns have headers that no edit tells of. -/
def inspect (n : SheetNotes) (m : ColumnIds) : SheetNotes :=
  { n with doubtful := (Dictionary.keys m.idOf).filter fun h => m.id? h ≠ some (n.meaning h) }

/-- The notes on a sheet of which the columns have ids like the restricted headers. -/
def legacy (headers : List Header) : SheetNotes :=
  { doubtful := headers.filter fun h => Naming.legacyHeader h ≠ h }

variable {n : SheetNotes} {m m' : ColumnIds} {headers : List Header} {id : ColumnId}
  {h k : Header}

@[simp] theorem renamed_add (n : SheetNotes) (m : ColumnIds) (h : Header) :
    (n.add m h).renamed = n.renamed := rfl

@[simp] theorem renamed_addAll (n : SheetNotes) (m : ColumnIds) (hs : List Header) :
    (n.addAll m hs).renamed = n.renamed := by
  induction hs generalizing n m with
  | nil => rfl
  | cons h rest ih => exact ih (n.add m h) (m.insert h).2

@[simp] theorem renamed_restrict (n : SheetNotes) (m : ColumnIds)
    (rs : List RestrictHeaders.Renaming) : (n.restrict m rs).renamed = n.renamed := by
  induction rs generalizing n m with
  | nil => rfl
  | cons r rest ih =>
    rw [restrict, ih]
    split <;> rfl

@[simp] theorem renamed_inspect (n : SheetNotes) (m : ColumnIds) :
    (n.inspect m).renamed = n.renamed := rfl

@[simp] theorem meaning_add (n : SheetNotes) (m : ColumnIds) (h k : Header) :
    (n.add m h).meaning k = n.meaning k := rfl

theorem meaning_rename (n : SheetNotes) (m : ColumnIds) (id : ColumnId) (h k : Header) :
    (n.rename m id h).meaning k = if h = k then id else n.meaning k := by
  unfold meaning rename
  rw [Dictionary.get?_insert]
  by_cases hk : h = k <;> simp [hk]

theorem mem_doubtful_rename :
    k ∈ (n.rename m id h).doubtful ↔ if h = k then m.id? h ≠ some id else k ∈ n.doubtful := by
  unfold rename
  by_cases hk : h = k
  · subst hk
    by_cases hid : m.id? h = some id <;> simp [hid]
  · by_cases hid : m.id? h = some id <;> simp [hid, hk, Ne.symm hk]

theorem mem_doubtful_add (n : SheetNotes) (m : ColumnIds) (h k : Header) :
    k ∈ (n.add m h).doubtful ↔ if h = k then n.wasUsed m h = true else k ∈ n.doubtful := by
  unfold add
  by_cases hk : h = k
  · subst hk
    cases n.wasUsed m h <;> simp
  · cases n.wasUsed m h <;> simp [hk, Ne.symm hk]

/-! ### Notes that are right -/

/-- The notes are right on the headers that are not doubtful, and wrong on the
  others. -/
structure Judge (n : SheetNotes) (m : ColumnIds) : Prop where
  named : ∀ {h id}, m.id? h = some id → (n.meaning h = id ↔ h ∉ n.doubtful)
  issued : ∀ {h id}, Dictionary.get? n.renamed h = some id → id ∈ m.issued
  registered : m.Registered

namespace Judge

/-- Headers of a new sheet are the ids of its columns. -/
theorem ofHeaders (hnd : headers.Nodup) : Judge {} (ColumnIds.ofHeaders headers) where
  named := by
    intro h id hid
    simp [meaning, ColumnIds.id?_ofHeaders hnd hid]
  issued := by
    intro h id hid
    cases hid
  registered := ColumnIds.Registered.empty.insertAll headers

/-- The ids of some imports are the restricted headers. -/
theorem legacyColumns (headers : List Header) :
    Judge (legacy headers) (ImportFiles.legacyColumns headers) where
  named := by
    intro h id hid
    rw [ImportFiles.id?_legacyColumns] at hid
    split at hid
    · next hmem =>
      rw [← Option.some.inj hid]
      show (⟨h⟩ : ColumnId) = ⟨Naming.legacyHeader h⟩ ↔ _
      simp [legacy, hmem, @eq_comm _ h]
    · cases hid
  issued := by
    intro h id hid
    cases hid
  registered := by
    have hall := ColumnIds.Registered.empty.insertPairs
      (headers.map fun h => (⟨Naming.legacyHeader h⟩, h))
    rw [List.foldl_map] at hall
    exact hall

/-- Columns may go. -/
theorem remove (hj : Judge n m) (id : ColumnId) : Judge n (m.remove id).2 where
  named := fun hi => hj.named (ColumnIds.id?_of_remove hi)
  issued := by
    intro h i hi
    rw [ColumnIds.issued_remove]
    exact hj.issued hi
  registered := hj.registered.remove id

theorem removeAll (hj : Judge n m) (ids : List ColumnId) :
    Judge n (ids.foldl (fun m id => (m.remove id).2) m) := by
  induction ids generalizing m with
  | nil => exact hj
  | cons id rest ih => exact ih (hj.remove id)

/-- A renaming tells all there is to know of its header. -/
theorem rename (hj : Judge n m) {old : Header} (hid : m.header? id = some old) (h : Header) :
    Judge (n.rename (m.rename id h).2 id h) (m.rename id h).2 where
  named := by
    intro k i hi
    rw [meaning_rename, mem_doubtful_rename]
    rw [ColumnIds.id?_rename hid] at hi ⊢
    by_cases hk : h = k
    · simp_all
    · -- the other columns keep their headers
      simp only [hk, if_false] at hi ⊢
      split at hi
      · cases hi
      · exact hj.named hi
  issued := by
    intro k i hi
    rw [ColumnIds.issued_rename]
    rw [SheetNotes.rename, Dictionary.get?_insert] at hi
    split at hi
    · exact Option.some.inj hi ▸ hj.registered _ _ hid
    · exact hj.issued hi
  registered := by
    refine hj.registered.mono (fun {i k} hi => ?_) fun i hi => by rwa [ColumnIds.issued_rename]
    rw [ColumnIds.header?_rename hid] at hi
    split at hi
    · next he => exact ⟨old, he ▸ hid⟩
    · exact ⟨k, hi⟩

/-- A renaming to the header that the column has tells of it again. -/
theorem rename_same (hj : Judge n m) (hid : m.header? id = some h) :
    Judge (n.rename m id h) m where
  named := by
    intro k i hi
    rw [meaning_rename, mem_doubtful_rename]
    by_cases hk : h = k
    · subst hk
      simp [hi, eq_comm]
    · simpa [hk] using hj.named hi
  issued := by
    intro k i hi
    rw [SheetNotes.rename, Dictionary.get?_insert] at hi
    split at hi
    · exact Option.some.inj hi ▸ hj.registered _ _ hid
    · exact hj.issued hi
  registered := hj.registered

/-- The notes tell which id a header gets that was not used before. -/
theorem meaning_eq_freshId (hj : Judge n m) (h : Header) :
    n.meaning h = m.freshId h ↔ ¬ n.wasUsed m h = true := by
  unfold meaning wasUsed Dictionary.contains
  cases hget : Dictionary.get? n.renamed h with
  | none =>
    -- nothing tells of the header, so it stands for the column with its id
    have hiff : (⟨h⟩ : ColumnId) = m.freshId h ↔ (⟨h⟩ : ColumnId) ∉ m.issued :=
      eq_comm.trans ColumnIds.freshId_eq_iff
    simpa using hiff
  | some old =>
    -- a renaming gave it to a column, whose id was issued already
    have hold : old ≠ m.freshId h := fun he =>
      ColumnIds.freshId_not_issued m h (he ▸ hj.issued hget)
    simpa using hold

/-- The header of a column that is added stands for it unless it was used. -/
theorem add (hj : Judge n m) (h : Header) : Judge (n.add m h) (m.insert h).2 where
  named := by
    intro k i hi
    rw [ColumnIds.id?_insert] at hi
    rw [meaning_add, mem_doubtful_add]
    split at hi
    · next he =>
      rw [if_pos he, ← Option.some.inj hi, ← he]
      exact hj.meaning_eq_freshId h
    · next hne =>
      rw [if_neg hne]
      exact hj.named hi
  issued := fun hi => ColumnIds.mem_issued_insert.mpr (.inr (hj.issued hi))
  registered := hj.registered.insertWithId _ h

theorem addAll (hj : Judge n m) (hs : List Header) :
    Judge (n.addAll m hs) (hs.foldl (fun m h => (m.insert h).2) m) := by
  induction hs generalizing n m with
  | nil => exact hj
  | cons h rest ih => exact ih (hj.add h)

/-- Headers that no edit tells of are looked at one by one. -/
theorem inspect (hregistered : m.Registered)
    (hissued : ∀ {h id}, Dictionary.get? n.renamed h = some id → id ∈ m.issued) :
    Judge (n.inspect m) m where
  named := by
    intro h id hid
    have hmem : h ∈ (n.inspect m).doubtful ↔ ¬ n.meaning h = id := by
      have hkey : h ∈ Dictionary.keys m.idOf := Dictionary.get?_isSome_iff.mp (by
        show (m.id? h).isSome = true
        rw [hid]
        rfl)
      unfold SheetNotes.inspect
      rw [List.mem_filter, and_iff_right hkey, hid, decide_eq_true_eq, ne_eq, Option.some.injEq,
        eq_comm]
    rw [hmem, not_not]
    rfl
  issued := hissued
  registered := hregistered

/-- A column whose header is restricted gets an id as if it were added. -/
theorem relabel (hj : Judge n m) (r : RestrictHeaders.Renaming)
    (formulas : Dictionary ColumnId String) :
    Judge (if ((m.id? r.1).bind m.header?).isSome then n.add m r.2 else n)
      (RestrictHeaders.relabel (m, formulas) r).1 := by
  rw [RestrictHeaders.relabel_fst]
  dsimp only
  cases hid : m.id? r.1 with
  | none => exact hj
  | some id =>
    rw [Option.bind_some]
    dsimp only
    cases hheader : m.header? id with
    | none =>
      have hrekey : (m.rekey id r.2).2 = m := by
        simp [ColumnIds.rekey, ColumnIds.remove, hheader]
      rw [hrekey]
      exact hj
    | some old =>
      rw [ColumnIds.rekey_eq hheader]
      -- which ids were issued does not change when the column goes
      have hsame : n.add (m.remove id).2 r.2 = n.add m r.2 := by
        unfold SheetNotes.add wasUsed
        rw [ColumnIds.issued_remove]
      have hadd := (hj.remove id).add r.2
      rw [hsame] at hadd
      exact hadd

/-- Headers are restricted one after the other, and with them the notes. -/
theorem relabelAll (hj : Judge n m) (formulas : Dictionary ColumnId String)
    (rs : List RestrictHeaders.Renaming) :
    Judge (n.restrict m rs) (rs.foldl RestrictHeaders.relabel (m, formulas)).1 := by
  induction rs generalizing n m formulas with
  | nil => exact hj
  | cons r rest ih =>
    have hnext := ih (hj.relabel r formulas) (RestrictHeaders.relabel (m, formulas) r).2
    -- the ids that a renaming leaves do not depend on formulas
    have hsame : (RestrictHeaders.relabel (m, []) r).1
        = (RestrictHeaders.relabel (m, formulas) r).1 := by
      rw [RestrictHeaders.relabel_fst, RestrictHeaders.relabel_fst]
    rw [restrict, hsame, List.foldl_cons]
    exact hnext

end Judge

end SheetNotes

end SheetScript
