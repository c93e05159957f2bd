import SheetScript.Proofs.Analysis.Notes
import SheetScript.Proofs.Reshaping

/-! # Imports under legacy ids

  An old import is upgraded to one whose columns have their restricted headers for
  ids, followed by an edit that restricts the headers.  Edits behind them name columns
  by restricted headers, so every column should have its header for its id.

  A column whose header has to be restricted gets a fresh id, and the import has
  issued the restricted header as an id already.  So nothing has that id any more.

  Main statement: `RestrictHeaders.named_after_legacy_import`.  A restricted header
  names its column exactly if no header was restricted to it.
-/

namespace SheetScript

open Naming (legacyHeader)

/-- The column with a header has the header for its id, and no other id. -/
def Sheet.NamedByHeader (sheet : Sheet) (h : Header) : Prop :=
  sheet.columns.id? h = some ⟨h⟩ ∧ ∀ id, sheet.columns.header? id = some h ↔ id = ⟨h⟩

/-- What the headers and ids of a sheet are when its old headers were restricted. -/
structure Sheet.RestrictedFrom (sheet : Sheet) (old : List Header) : Prop where
  headers_eq : sheet.headers
    = old.map (RestrictHeaders.renamed (RestrictHeaders.renamings old old))
  distinct : sheet.headers.Nodup
  legacy : ∀ k ∈ sheet.headers, legacyHeader k = k
  present : ∀ h ∈ old, legacyHeader h ∈ sheet.headers
  /-- A restricted header names its column exactly if no header was restricted to it. -/
  named : ∀ h ∈ old, sheet.NamedByHeader (legacyHeader h)
    ↔ ∀ k ∈ old, legacyHeader k = legacyHeader h → k = legacyHeader h
  /-- All headers name their columns exactly if none was restricted. -/
  allNamed : (∀ k ∈ sheet.headers, sheet.NamedByHeader k) ↔ ∀ h ∈ old, legacyHeader h = h

namespace ColumnIds

variable {m : ColumnIds} {id i : ColumnId} {h k old new : Header}

theorem mem_issued_foldl_insertWithId {hs : List Header} (f : Header → ColumnId)
    (hmem : id ∈ m.issued ∨ ∃ k ∈ hs, f k = id) :
    id ∈ (hs.foldl (fun m k => m.insertWithId (f k) k) m).issued := by
  induction hs generalizing m with
  | nil => simpa using hmem
  | cons k rest ih =>
    refine ih ?_
    rw [mem_issued_insertWithId]
    rcases hmem with hmem | ⟨j, hj, rfl⟩
    · exact .inl (.inr hmem)
    · rcases List.mem_cons.mp hj with rfl | hj
      · exact .inl (.inl rfl)
      · exact .inr ⟨j, hj, rfl⟩

/-- An id that is given for one of the headers only stands for it in the end. -/
theorem header?_foldl_insertWithId {hs : List Header} (f : Header → ColumnId)
    (hone : ∀ k ∈ hs, f k = id → k = h)
    (hmem : m.header? id = some h ∨ ∃ k ∈ hs, f k = id) :
    (hs.foldl (fun m k => m.insertWithId (f k) k) m).header? id = some h := by
  induction hs generalizing m with
  | nil => simpa using hmem
  | cons k rest ih =>
    rw [List.forall_mem_cons] at hone
    refine ih hone.2 ?_
    rw [header?_insertWithId]
    rcases hmem with hmem | ⟨j, hj, hid⟩
    · refine .inl ?_
      split
      · next hk => rw [hone.1 hk]
      · exact hmem
    · rcases List.mem_cons.mp hj with rfl | hj
      · exact .inl (by rw [if_pos hid, hone.1 hid])
      · exact .inr ⟨j, hj, hid⟩

/-! ### A column under a new header and a fresh id -/

/-- The columns after a column got another header and a fresh id. -/
def rekeyed (m : ColumnIds) (id : ColumnId) (new : Header) : ColumnIds :=
  ((m.remove id).2.insert new).2

theorem header?_rekeyed (hid : m.header? id = some old) (hi : i ∈ m.issued) :
    (m.rekeyed id new).header? i = if id = i then none else m.header? i := by
  rw [rekeyed, header?_insert, header?_remove hid, if_neg]
  rintro rfl
  refine freshId_not_issued (m.remove id).2 new ?_
  rwa [issued_remove]

theorem id?_rekeyed (hid : m.header? id = some old) (hk : new ≠ k) :
    (m.rekeyed id new).id? k = if old = k then none else m.id? k := by
  rw [rekeyed, id?_insert, if_neg hk, id?_remove hid]

theorem issued_rekeyed (hi : i ∈ m.issued) : i ∈ (m.rekeyed id new).issued := by
  rw [rekeyed, mem_issued_insert, issued_remove]
  exact .inr hi

end ColumnIds

namespace RestrictHeaders

variable {labels : Labels} {headers taken rest : List Header} {h : Header} {sheet : Sheet}

/-- A renaming leaves the columns alone if its header has no id or one that stands for
  no column; otherwise that column gets the new header and a fresh id. -/
theorem relabel_cases (labels : Labels) (r : Renaming) :
    ((∀ i, labels.1.id? r.1 = some i → labels.1.header? i = none)
        ∧ (relabel labels r).1 = labels.1)
      ∨ ∃ i old, labels.1.id? r.1 = some i ∧ labels.1.header? i = some old
        ∧ (relabel labels r).1 = labels.1.rekeyed i r.2 := by
  rw [relabel_fst]
  cases hid : labels.1.id? r.1 with
  | none => exact .inl ⟨fun i hi => (by cases hi), rfl⟩
  | some i =>
    cases hheader : labels.1.header? i with
    | none =>
      refine .inl ⟨fun j hj => Option.some.inj hj ▸ hheader, ?_⟩
      simp [ColumnIds.rekey, ColumnIds.remove, hheader]
    | some old =>
      refine .inr ⟨i, old, rfl, hheader, ?_⟩
      dsimp only
      rw [ColumnIds.rekey_eq hheader, ColumnIds.rekeyed]

/-- An issued id stands for no column after a renaming if the renamed header has it. -/
theorem header?_relabel {r : Renaming} {i : ColumnId} (hi : i ∈ labels.1.issued) :
    (relabel labels r).1.header? i
      = if labels.1.id? r.1 = some i then none else labels.1.header? i := by
  obtain ⟨hnone, heq⟩ | ⟨j, old, hj, hold, heq⟩ := relabel_cases labels r
  · rw [heq]
    split
    · next hid => exact hnone i hid
    · rfl
  · rw [heq, ColumnIds.header?_rekeyed hold hi, hj]
    simp only [Option.some.injEq]

/-- A header other than the new one loses its id in a renaming if it is that of the column
  that goes, and keeps it otherwise. -/
theorem id?_relabel (labels : Labels) (r : Renaming) {k : Header} (hk : r.2 ≠ k) :
    (∃ j, labels.1.id? r.1 = some j ∧ labels.1.header? j = some k
        ∧ (relabel labels r).1.id? k = none)
      ∨ (∀ j, labels.1.id? r.1 = some j → labels.1.header? j ≠ some k)
        ∧ (relabel labels r).1.id? k = labels.1.id? k := by
  obtain ⟨hnone, heq⟩ | ⟨j, old, hj, hold, heq⟩ := relabel_cases labels r
  · exact .inr ⟨fun j hj => by simp [hnone j hj], by rw [heq]⟩
  · rw [heq, ColumnIds.id?_rekeyed hold hk]
    by_cases he : old = k
    · exact .inl ⟨j, hj, he ▸ hold, if_pos he⟩
    · refine .inr ⟨fun j' hj' hk' => he ?_, if_neg he⟩
      rw [hj, Option.some.injEq] at hj'
      rw [← hj', hold, Option.some.injEq] at hk'
      exact hk'

theorem issued_relabel {r : Renaming} {i : ColumnId} (hi : i ∈ labels.1.issued) :
    i ∈ (relabel labels r).1.issued := by
  obtain ⟨-, heq⟩ | ⟨j, old, -, -, heq⟩ := relabel_cases labels r
  · rwa [heq]
  · rw [heq]
    exact ColumnIds.issued_rekeyed hi

/-- Headers that are restricted already are not renamed. -/
theorem legacyHeader_ne_of_mem_renamings {r : Renaming} (hr : r ∈ renamings taken rest) :
    legacyHeader r.1 ≠ r.1 := by
  induction rest generalizing taken with
  | nil => cases hr
  | cons h rest ih =>
    rw [renamings] at hr
    split at hr
    · exact ih hr
    · next hother =>
      rcases List.mem_cons.mp hr with rfl | hr
      · exact hother
      · exact ih hr

/-! ### Restricting the headers of an import -/

/-- The columns of an import while its headers are restricted, with the headers in use and
  those that are still to come. -/
structure Settling (headers : List Header) (labels : Labels) (taken rest : List Header) :
    Prop where
  linked : labels.1.Linked taken
  coming : ∀ h ∈ rest, h ∈ headers
  issued : ∀ h ∈ headers, (⟨legacyHeader h⟩ : ColumnId) ∈ labels.1.issued
  /-- What is still to come has its id, or the id stands for no column. -/
  waiting : ∀ h ∈ rest, labels.1.id? h = some ⟨legacyHeader h⟩
    ∨ labels.1.id? h = none ∧ labels.1.header? ⟨legacyHeader h⟩ = none
  /-- An id is given up when a header is restricted to it. -/
  spent : ∀ h ∈ headers, h ∉ rest → legacyHeader h ≠ h →
    labels.1.header? ⟨legacyHeader h⟩ = none
  /-- A header to which no other one is restricted keeps its id. -/
  kept : ∀ p ∈ headers, (∀ h ∈ headers, legacyHeader h = p → h = p) → legacyHeader p = p →
    labels.1.id? p = some ⟨p⟩ ∧ labels.1.header? ⟨p⟩ = some p
  present : ∀ h ∈ headers, h ∉ rest → legacyHeader h ∈ taken
  restricted : ∀ k ∈ taken, k ∈ rest ∨ legacyHeader k = k

/-- The columns of an import before a header is restricted. -/
theorem Settling.start (hnd : headers.Nodup) (formulas : Dictionary ColumnId String) :
    Settling headers (ImportFiles.legacyColumns headers, formulas) headers headers where
  linked := ImportFiles.linked_legacyColumns hnd
  coming := fun _ hh => hh
  issued := fun h hh => ColumnIds.mem_issued_foldl_insertWithId _ (.inr ⟨h, hh, rfl⟩)
  waiting := fun h hh => .inl ((ImportFiles.id?_legacyColumns headers h).trans (if_pos hh))
  spent := fun h hh hnot => absurd hh hnot
  kept := by
    intro p hp hown hsame
    have hid := ImportFiles.id?_legacyColumns headers p
    rw [if_pos hp, hsame] at hid
    refine ⟨hid, ColumnIds.header?_foldl_insertWithId _ (fun k hk hsame => ?_) (.inr ⟨p, hp, ?_⟩)⟩
    · exact hown k hk (ColumnId.mk.inj hsame)
    · rw [hsame]
  present := fun h hh hnot => absurd hh hnot
  restricted := fun k hk => .inl hk

/-- A header that is restricted already stays. -/
theorem Settling.skip (h₀ : Settling headers labels taken (h :: rest)) (hsame : legacyHeader h = h)
    (hin : h ∈ taken) : Settling headers labels taken rest where
  linked := h₀.linked
  coming := fun k hk => h₀.coming k (List.mem_cons_of_mem _ hk)
  issued := h₀.issued
  waiting := fun k hk => h₀.waiting k (List.mem_cons_of_mem _ hk)
  spent := by
    intro k hk hnot hother
    have hne : k ≠ h := fun he => hother (by rw [he, hsame])
    exact h₀.spent k hk (by simp [hne, hnot]) hother
  kept := h₀.kept
  present := by
    intro k hk hnot
    by_cases he : k = h
    · rwa [he, hsame]
    · exact h₀.present k hk (by simp [he, hnot])
  restricted := by
    intro k hk
    rcases h₀.restricted k hk with hcons | hlegal
    · rcases List.mem_cons.mp hcons with rfl | hrest
      · exact .inr hsame
      · exact .inl hrest
    · exact .inr hlegal

section Step

variable {new : Header}

/-- A header that waits still waits after another one was restricted. -/
theorem Settling.waiting_relabel (h₀ : Settling headers labels taken (h :: rest)) {k : Header}
    (hk : k ∈ rest) (hne : new ≠ k) :
    (relabel labels (h, new)).1.id? k = some ⟨legacyHeader k⟩
      ∨ (relabel labels (h, new)).1.id? k = none
        ∧ (relabel labels (h, new)).1.header? ⟨legacyHeader k⟩ = none := by
  have hissued := h₀.issued k (h₀.coming k (List.mem_cons_of_mem _ hk))
  rw [header?_relabel hissued]
  obtain ⟨j, hj, hback, hgone⟩ | ⟨-, hstays⟩ := id?_relabel labels (h, new) hne
  · refine .inr ⟨hgone, ?_⟩
    rcases h₀.waiting k (List.mem_cons_of_mem _ hk) with hid | ⟨-, hnone⟩
    · -- the id was also that of the restricted header
      obtain rfl : _ = j := Option.some.inj (hid.symm.trans (h₀.linked.back hback))
      exact if_pos hj
    · rw [hnone, ite_self]
  · rw [hstays]
    exact (h₀.waiting k (List.mem_cons_of_mem _ hk)).imp_right fun ⟨hid, hnone⟩ =>
      ⟨hid, by rw [hnone, ite_self]⟩

/-- The id for a header stands for no column after the header was restricted. -/
theorem Settling.spent_relabel (h₀ : Settling headers labels taken (h :: rest)) {k : Header}
    (hk : k ∈ headers) (hnot : k ∉ rest) (hother : legacyHeader k ≠ k) :
    (relabel labels (h, new)).1.header? ⟨legacyHeader k⟩ = none := by
  rw [header?_relabel (h₀.issued k hk)]
  by_cases he : k = h
  · subst he
    rcases h₀.waiting k List.mem_cons_self with hid | ⟨-, hnone⟩
    · exact if_pos hid
    · rw [hnone, ite_self]
  · rw [h₀.spent k hk (by simp [he, hnot]) hother, ite_self]

/-- A header to which no other one is restricted keeps its id. -/
theorem Settling.kept_relabel (h₀ : Settling headers labels taken (h :: rest)) {p : Header}
    (hp : p ∈ headers) (hown : ∀ k ∈ headers, legacyHeader k = p → k = p)
    (hsame : legacyHeader p = p) (hph : p ≠ h) (hne : new ≠ p) :
    (relabel labels (h, new)).1.id? p = some ⟨p⟩
      ∧ (relabel labels (h, new)).1.header? ⟨p⟩ = some p := by
  obtain ⟨hid, hheader⟩ := h₀.kept p hp hown hsame
  -- what goes is the id of the restricted header, which is not this one
  have hother : labels.1.id? h ≠ some ⟨p⟩ := by
    intro hclash
    rcases h₀.waiting h List.mem_cons_self with hwait | ⟨hwait, -⟩
    · rw [hwait, Option.some.injEq] at hclash
      exact hph (hown h (h₀.coming h List.mem_cons_self) (ColumnId.mk.inj hclash)).symm
    · rw [hwait] at hclash
      cases hclash
  have hissued : (⟨p⟩ : ColumnId) ∈ labels.1.issued := by
    have hissued := h₀.issued p hp
    rwa [hsame] at hissued
  refine ⟨?_, by rw [header?_relabel hissued, if_neg hother, hheader]⟩
  obtain ⟨j, hj, hback, -⟩ | ⟨-, hstays⟩ := id?_relabel labels (h, new) hne
  · obtain rfl : _ = j := Option.some.inj (hid.symm.trans (h₀.linked.back hback))
    exact absurd hj hother
  · rw [hstays, hid]

end Step

/-- A header is restricted, and what has the restricted header for its id goes. -/
theorem Settling.step (h₀ : Settling headers labels taken (h :: rest)) (hother : legacyHeader h ≠ h)
    (hrest : ∀ k ∈ rest, k ∈ taken.filter fun t => t ≠ h) :
    let others := taken.filter fun t => t ≠ h
    let new := Naming.firstFree others (legacyHeader h)
    Settling headers (relabel labels (h, new)) (new :: others) rest := by
  intro others new
  have hnew : new ∉ others := Naming.firstFree_not_mem _ _
  have hlegal : legacyHeader new = new := Naming.legacyHeader_firstFree _ _
  refine
    { linked := linked_relabel h₀.linked hnew
      coming := fun k hk => h₀.coming k (List.mem_cons_of_mem _ hk)
      issued := fun k hk => issued_relabel (h₀.issued k hk)
      waiting := fun k hk => h₀.waiting_relabel hk fun he => hnew (he ▸ hrest k hk)
      spent := fun k hk hnot hk' => h₀.spent_relabel hk hnot hk'
      kept := ?kept
      present := ?present
      restricted := ?restricted }
  case kept =>
    intro p hp hown hsame
    have hph : p ≠ h := fun he => hother (by rw [← he, hsame])
    refine h₀.kept_relabel hp hown hsame hph fun he => hnew (he ▸ List.mem_filter.mpr ?_)
    exact ⟨h₀.linked.live (h₀.kept p hp hown hsame).2, by simpa using hph⟩
  case present =>
    intro k hk hnot
    by_cases he : k = h
    · subst he
      by_cases hin : legacyHeader k ∈ others
      · exact List.mem_cons_of_mem _ hin
      -- nothing else has the restricted header, so it needs no number
      · have hfree : new = legacyHeader k := if_neg hin
        exact hfree ▸ List.mem_cons_self
    · refine List.mem_cons_of_mem _ (List.mem_filter.mpr
        ⟨h₀.present k hk (by simp [he, hnot]), ?_⟩)
      rw [decide_eq_true_eq]
      rintro rfl
      exact hother (Naming.legacyHeader_legacyHeader k)
  case restricted =>
    intro k hk
    rcases List.mem_cons.mp hk with rfl | hk
    · exact .inr hlegal
    · obtain ⟨hk, hne⟩ := List.mem_filter.mp hk
      rw [decide_eq_true_eq] at hne
      rcases h₀.restricted k hk with hcons | hsame
      · exact .inl ((List.mem_cons.mp hcons).resolve_left hne)
      · exact .inr hsame

/-! ### Sheets -/

/-- The headers of a sheet can always be restricted. -/
theorem sheetAfter_eq (hnd : sheet.headers.Nodup) :
    let rs := renamings sheet.headers sheet.headers
    ∃ after, RestrictHeaders.sheetAfter ⟨false⟩ sheet = .ok (after, rs)
      ∧ after.headers = sheet.headers.map (renamed rs)
      ∧ after.columns = (rs.foldl relabel (sheet.columns, sheet.formulas)).1 := by
  intro rs
  obtain ⟨frame, hframe⟩ := Frame.withHeaders_of_nodup (f := sheet.frame)
    ((List.length_map (renamed rs)).trans rfl) (nodup_renamed hnd)
  by_cases hnil : rs = []
  · have hstays : ∀ k, renamed [] k = k := fun k =>
      renamed_of_not_mem fun _ hr => absurd hr List.not_mem_nil
    refine ⟨sheet, ?_, ?_, ?_⟩
    · simp [sheetAfter, rs, hnil]
    · rw [hnil, List.map_id'' hstays]
    · rw [hnil]
      rfl
  · refine ⟨{ sheet.withData frame (rs.foldl relabel (sheet.columns, sheet.formulas)).1 with
      formulas := (rs.foldl relabel (sheet.columns, sheet.formulas)).2 }, ?_,
      (Frame.headers_withHeaders hframe).1, rfl⟩
    have hgo : ¬ (rs.isEmpty && !false) = true := by simp [hnil]
    unfold sheetAfter
    dsimp only
    rw [if_neg hgo]
    simp only [bind_eq_ok, pure_eq_ok]
    exact ⟨frame, hframe, rfl⟩

theorem restricted_sheetAfter (hnd : sheet.headers.Nodup)
    (hcolumns : sheet.columns = ImportFiles.legacyColumns sheet.headers) :
    ∃ r, RestrictHeaders.sheetAfter ⟨false⟩ sheet = .ok r ∧ r.1.RestrictedFrom sheet.headers := by
  obtain ⟨after, hafter, hheaders, hlabels⟩ := sheetAfter_eq hnd
  refine ⟨_, hafter, ?_⟩
  obtain ⟨hs, hsettled, hmem⟩ := relabelAll_induction (P := Settling sheet.headers)
    (fun h₀ hsame hin => h₀.skip hsame hin) (fun h₀ hother _ hrest => h₀.step hother hrest)
    (Settling.start hnd sheet.formulas) hnd fun _ hk => hk
  -- the headers in use at the end are those of the sheet
  have hmem : ∀ k, k ∈ hs ↔ k ∈ after.headers := by
    intro k
    rw [hmem, hheaders, List.mem_map]
    exact or_iff_right fun hk => hk.2 hk.1
  have hcolumns' : ((renamings sheet.headers sheet.headers).foldl relabel
      (ImportFiles.legacyColumns sheet.headers, sheet.formulas)).1 = after.columns := by
    rw [hlabels, hcolumns]
  have hpresent : ∀ h ∈ sheet.headers, legacyHeader h ∈ after.headers := fun h hh =>
    (hmem _).mp (hsettled.present h hh List.not_mem_nil)
  have hnamed : ∀ h ∈ sheet.headers, after.NamedByHeader (legacyHeader h)
      ↔ ∀ k ∈ sheet.headers, legacyHeader k = legacyHeader h → k = legacyHeader h := by
    intro h hh
    constructor
    · rintro ⟨-, hids⟩ k hk hsame
      by_contra hne
      have hspent := hsettled.spent k hk List.not_mem_nil fun he => hne (he.symm.trans hsame)
      rw [hcolumns', hsame, (hids _).mpr rfl] at hspent
      cases hspent
    · intro hown
      have hself : h = legacyHeader h := hown h hh rfl
      obtain ⟨hid, hheader⟩ := hsettled.kept (legacyHeader h) (hself ▸ hh) hown
        (Naming.legacyHeader_legacyHeader h)
      have hlinked := hsettled.linked
      rw [hcolumns'] at hid hheader hlinked
      exact ⟨hid, fun i => ⟨fun hi => hlinked.unique hi hheader, fun hi => hi ▸ hheader⟩⟩
  refine
    { headers_eq := hheaders
      distinct := hheaders ▸ nodup_renamed hnd
      legacy := fun k hk =>
        (hsettled.restricted k ((hmem k).mpr hk)).resolve_left List.not_mem_nil
      present := hpresent
      named := hnamed
      allNamed := ⟨fun hall h hh => ?_, fun hlegal k hk => ?_⟩ }
  · exact ((hnamed h hh).mp (hall _ (hpresent h hh)) h hh rfl).symm
  · -- without renamings the headers are those of before
    have hk : k ∈ sheet.headers := by
      obtain ⟨j, hj, rfl⟩ := List.mem_map.mp (hheaders ▸ hk)
      rwa [renamed_of_not_mem fun r hr _ =>
        legacyHeader_ne_of_mem_renamings hr (hlegal r.1 (renamings_mem hr))]
    have hiff := hnamed k hk
    rw [hlegal k hk] at hiff
    exact hiff.mpr fun j hj hsame => (hlegal j hj).symm.trans hsame

/-! ### The two edits -/

/-- Behind an import under legacy ids the headers can always be restricted.  That leaves
  one sheet for each file, with the restricted headers in the order of the file, which
  differ.  A restricted header is the one id of its column exactly if no header of the
  file was restricted to it; so all columns have their headers for ids only if nothing
  had to be restricted. -/
theorem named_after_legacy_import {s : State} {steps : List Step} {e : ImportFiles} {d : Disk}
    {c : Change} (hs : s.Initial) (ha : s.Accepts steps) (hlegacy : e.legacyIds = true)
    (himport : e.run d (s.after steps) = .ok c) :
    ∃ next earlier imported, RestrictHeaders.run ⟨false⟩ c.state = .ok next
      ∧ next.state.sheets = earlier ++ imported
      ∧ earlier.length = (s.after steps).sheets.length
      ∧ List.Forall₂ (fun path sheet => ∃ frame, Csv.load d path = .ok frame
          ∧ sheet.RestrictedFrom frame.headers) e.files imported := by
  have hdistinct := hs.sound_native.1.distinct.after ha
  obtain ⟨new, hsheets, hfiles⟩ := ImportFiles.sheets_run himport
  have hsame : List.Forall₂ (fun old sheet => old = sheet ∧ sheet.headers.Nodup)
      (s.after steps).sheets (s.after steps).sheets :=
    List.forall₂_same.mpr fun sheet hsheet => ⟨rfl, hdistinct.headers sheet hsheet⟩
  -- every sheet is restricted on its own, those from before and the imported ones
  obtain ⟨before, hbefore, hlength⟩ := exists_mapM_of_forall₂
    (f := RestrictHeaders.sheetAfter ⟨false⟩) (Q := fun _ _ => True) hsame fun _ sheet hsheet =>
      let ⟨_, hafter, _⟩ := sheetAfter_eq hsheet.2
      ⟨_, hafter, trivial⟩
  obtain ⟨results, hresults, himported⟩ := exists_mapM_of_forall₂
    (f := RestrictHeaders.sheetAfter ⟨false⟩)
    (Q := fun path r => ∃ frame, Csv.load d path = .ok frame ∧ r.1.RestrictedFrom frame.headers)
    hfiles fun path sheet hsheet => by
    obtain ⟨hload, hcolumns⟩ := hsheet
    rw [if_pos hlegacy] at hcolumns
    obtain ⟨r, hr, hrestricted⟩ := restricted_sheetAfter (Csv.headers_load hload) hcolumns
    exact ⟨r, hr, sheet.frame, hload, hrestricted⟩
  have hall : c.state.sheets.mapM (RestrictHeaders.sheetAfter ⟨false⟩)
      = .ok (before ++ results) := by
    rw [hsheets, List.mapM_append]
    simp only [bind_eq_ok, pure_eq_ok]
    exact ⟨before, hbefore, results, hresults, rfl⟩
  obtain ⟨next, hnext, hstate⟩ : ∃ next, RestrictHeaders.run ⟨false⟩ c.state = .ok next
      ∧ next.state.sheets = (before ++ results).map Prod.fst := by
    unfold RestrictHeaders.run
    simp only [bind_eq_ok, pure_eq_ok]
    exact ⟨_, ⟨_, hall, rfl⟩, rfl⟩
  refine ⟨next, before.map Prod.fst, results.map Prod.fst, hnext, ?_, ?_, ?_⟩
  · rw [hstate, List.map_append]
  · rw [List.length_map, hlength.length_eq]
  · rwa [List.forall₂_map_right_iff]

/-! ### A sample

  A file with two headers, of which the first has to be restricted, is imported into a
  session without sheets. -/

namespace Sample

/-- A disk with the file. -/
def spaced : Disk := .ofFiles [("f.csv", "A B,C\n1,2\n")]

/-- The import. -/
def legacyImport : ImportFiles := ⟨["f.csv"], true⟩

/-- What the import leads to. -/
def spacedImport : Change := (legacyImport.run spaced {}).toOption.getD default

theorem import_spaced : legacyImport.run spaced {} = .ok spacedImport :=
  eq_ok_of_toBool (by decide) default

theorem initial_empty : State.Initial {} :=
  ⟨[], fun _ hinput => absurd hinput List.not_mem_nil, rfl⟩

end Sample

/-- The other column can be named by its header. -/
theorem named_after_legacy_import_spaced :
    Sample.legacyImport.run Sample.spaced {} = .ok Sample.spacedImport
      ∧ ∃ next sheet, RestrictHeaders.run ⟨false⟩ Sample.spacedImport.state = .ok next
        ∧ next.state.sheets = [sheet] ∧ sheet.RestrictedFrom ["A B", "C"]
        ∧ sheet.NamedByHeader "C" ∧ ¬ sheet.NamedByHeader "A_B" := by
  refine ⟨Sample.import_spaced, ?_⟩
  have haccepts : State.Accepts {} [] := trivial
  obtain ⟨next, earlier, imported, hnext, hsheets, hlength, hfiles⟩ :=
    named_after_legacy_import Sample.initial_empty haccepts rfl Sample.import_spaced
  obtain rfl : earlier = [] := List.length_eq_zero_iff.mp hlength
  obtain _ | ⟨⟨frame, hload, hsheet⟩, hrest⟩ := hfiles
  obtain _ | _ := hrest
  have hheaders : frame.headers = ["A B", "C"] := by
    have hread : (Csv.load Sample.spaced "f.csv").map Frame.headers = .ok ["A B", "C"] := by
      decide
    rw [hload] at hread
    exact Except.ok.inj hread
  rw [hheaders] at hsheet
  refine ⟨next, _, hnext, hsheets, hsheet, ?_, ?_⟩
  · exact (hsheet.named "C" (by decide)).mpr (by decide)
  · exact fun hnamed => absurd ((hsheet.named "A B" (by decide)).mp hnamed) (by decide)

/-- The column with the restricted header has another id, and nothing has the header for
  its id. -/
theorem missed_after_legacy_import :
    ∃ next sheet, legacyHeader "A B" = "A_B"
      ∧ Sample.legacyImport.run Sample.spaced {} = .ok Sample.spacedImport
      ∧ RestrictHeaders.run ⟨false⟩ Sample.spacedImport.state = .ok next
      ∧ next.state.sheets[0]? = some sheet ∧ sheet.headers = ["A_B", "C"]
      ∧ sheet.columns.id? "A_B" = some ⟨"A_B_1"⟩ ∧ sheet.columns.header? ⟨"A_B"⟩ = none := by
  have hrun := eq_ok_of_toBool (x := RestrictHeaders.run ⟨false⟩ Sample.spacedImport.state)
    (by decide) default
  refine ⟨_, ((RestrictHeaders.run ⟨false⟩ Sample.spacedImport.state).toOption.getD
      default).state.sheets.get ⟨0, by decide⟩, by decide, Sample.import_spaced,
    hrun, List.getElem?_eq_getElem _, ?_, ?_, ?_⟩ <;> decide

end RestrictHeaders

end SheetScript
