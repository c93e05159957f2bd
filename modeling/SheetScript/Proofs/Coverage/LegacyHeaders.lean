import SheetScript.Proofs.Coverage.Tables
import SheetScript.Proofs.Edit.LegacyHeaders

/-! # Restricting headers is covered

  The block writes all of the sheets whose headers change.  Of the others it changes
  at most the ids: their frames stay as they are.
-/

namespace SheetScript.RestrictHeaders

variable {plain : Prop} {s : State} {c : Change} {e : RestrictHeaders} {sheet after : Sheet}
  {rs : List Renaming} {labels : Labels} {headers : List Header}

/-! ### Ids -/

/-- Once the id of a header is gone, no registered id is linked to the header. -/
theorem linked_remove {m : ColumnIds} {header : Header} {id : ColumnId} (h : m.Linked headers)
    (hid : m.id? header = some id) :
    (m.remove id).2.Linked (headers.filter fun k => k ≠ header) := by
  refine ⟨(h.removeAll [id]).back, fun {i k} hi => ?_⟩
  have hlook := ColumnIds.header?_removeAll [id] m i
  rw [List.foldl_cons, List.foldl_nil, hi] at hlook
  split at hlook
  · cases hlook
  · next hne =>
    refine List.mem_filter.mpr ⟨h.live hlook.symm, ?_⟩
    rw [decide_eq_true_eq]
    rintro rfl
    have hback := h.back hlook.symm
    rw [hid, Option.some.injEq] at hback
    exact hne (List.mem_singleton.mpr hback.symm)

/-- The columns of relabelled labels: a header without id is left alone, and so is one
  whose id stands for no column. -/
theorem relabel_fst (labels : Labels) (r : Renaming) :
    (relabel labels r).1 = match labels.1.id? r.1 with
      | none => labels.1
      | some id => (labels.1.rekey id r.2).2 := by
  obtain ⟨columns, formulas⟩ := labels
  unfold relabel
  dsimp only
  cases hid : columns.id? r.1 with
  | none => rfl
  | some id =>
    cases hheader : columns.header? id with
    | none =>
      have hrekey : columns.rekey id r.2 = (none, columns) := by
        simp [ColumnIds.rekey, ColumnIds.remove, hheader]
      simp only [hrekey]
    | some old =>
      simp only [ColumnIds.rekey_eq hheader]
      cases Dictionary.get? formulas id <;> rfl

/-- A renaming keeps registered ids linked. -/
theorem linked_relabel (h : labels.1.Linked headers) {r : Renaming}
    (hnew : r.2 ∉ headers.filter fun k => k ≠ r.1) :
    (relabel labels r).1.Linked (r.2 :: headers.filter fun k => k ≠ r.1) := by
  rw [relabel_fst]
  cases hid : labels.1.id? r.1 with
  | none =>
    refine ⟨h.back, fun {i k} hi => List.mem_cons_of_mem _ ?_⟩
    refine List.mem_filter.mpr ⟨h.live hi, ?_⟩
    rw [decide_eq_true_eq]
    rintro rfl
    rw [h.back hi] at hid
    cases hid
  | some id =>
    have hremove := linked_remove h hid
    cases hheader : labels.1.header? id with
    | none =>
      have hsame : (labels.1.remove id).2 = labels.1 := by simp [ColumnIds.remove, hheader]
      have hrekey : (labels.1.rekey id r.2).2 = labels.1 := by
        simp [ColumnIds.rekey, ColumnIds.remove, hheader]
      show (labels.1.rekey id r.2).2.Linked _
      rw [hrekey]
      rw [hsame] at hremove
      exact hremove.mono fun k hk => List.mem_cons_of_mem _ hk
    | some old =>
      show (labels.1.rekey id r.2).2.Linked _
      rw [ColumnIds.rekey_eq hheader]
      exact hremove.insert hnew

/-! ### Sheets -/

/-- What becomes of a sheet: it stays linked, under its id and name; and without a
  renaming its frame stays, and so does which headers have ids. -/
theorem linked_sheetAfter (hs : sheet.Linked) (h : e.sheetAfter sheet = .ok (after, rs)) :
    after.Linked ∧ after.id = sheet.id ∧ after.name = sheet.name
      ∧ (rs = [] → after.frame = sheet.frame
        ∧ ∀ k ∈ sheet.headers, ∀ i, sheet.columns.id? k = some i →
            ∃ j, after.columns.id? k = some j) := by
  unfold sheetAfter at h
  dsimp only at h
  split at h
  · simp only [pure_eq_ok, Prod.mk.injEq] at h
    obtain ⟨rfl, -⟩ := h
    exact ⟨hs, rfl, rfl, fun _ => ⟨rfl, fun _ _ _ hi => ⟨_, hi⟩⟩⟩
  · next hgo =>
    simp only [bind_eq_ok, pure_eq_ok, Prod.mk.injEq] at h
    obtain ⟨frame, hframe, rfl, rfl⟩ := h
    obtain ⟨hheaders, hnd, -⟩ := Frame.headers_withHeaders hframe
    have hndframe : frame.headers.Nodup := by rwa [hheaders]
    obtain ⟨hs', hkept, hmem⟩ := relabelAll_keeps (P := fun labels hs => labels.1.Linked hs)
      (fun h _ hnew => linked_relabel h hnew)
      (show (sheet.columns, sheet.formulas).1.Linked sheet.headers from hs.columns)
      hs.headers fun _ hk => hk
    have hreset := ColumnIds.Sound.ofHeaders hndframe
    refine ⟨⟨hndframe, ?_⟩, rfl, rfl, fun hrs => ?_⟩
    · show ColumnIds.Linked (ite _ _ _ : Labels).1 frame.headers
      split
      · exact hreset.linked
      · refine hkept.mono fun k hk => ?_
        rw [hheaders, List.mem_map]
        rcases (hmem k).mp hk with ⟨hin, hnot⟩ | hk
        · exact absurd hin hnot
        · exact hk
    · -- without renamings the edit only goes on when ids are reset
      have hresets : e.resetsIds = true := by simpa [hrs] using hgo
      have hsame : frame = sheet.frame := Frame.eq_of_withHeaders hframe fun k => by
        rw [hrs]
        exact renamed_of_not_mem fun _ hr => absurd hr List.not_mem_nil
      refine ⟨hsame, fun k hk i _ => ?_⟩
      show ∃ j, (ite _ _ _ : Labels).1.id? k = some j
      rw [if_pos hresets, ← Option.isSome_iff_exists]
      refine hreset.live.mpr ?_
      rw [hsame]
      exact hk

/-- A sheet without renamings looks at its headers only. -/
theorem sheetAfter_again {p : Header → Prop} {g : Frame} (hg : sheet.frame.AlikeBut p g)
    (h : e.sheetAfter sheet = .ok (after, [])) :
    e.sheetAfter { sheet with frame := g } = .ok ({ after with frame := g }, []) := by
  have hheaders : Sheet.headers { sheet with frame := g } = sheet.headers := hg.headers_eq
  unfold sheetAfter at h ⊢
  dsimp only at h ⊢
  rw [hheaders]
  split at h
  · next hstop =>
    simp only [pure_eq_ok, Prod.mk.injEq] at h
    obtain ⟨rfl, -⟩ := h
    rw [if_pos hstop]
    rfl
  · next hgo =>
    simp only [bind_eq_ok, pure_eq_ok, Prod.mk.injEq] at h
    obtain ⟨frame, hframe, rfl, hrs⟩ := h
    have hstays : ∀ k, renamed (renamings sheet.headers sheet.headers) k = k := fun k => by
      rw [hrs]
      exact renamed_of_not_mem fun _ hr => absurd hr List.not_mem_nil
    obtain ⟨again, hagain, -⟩ := hg.withHeaders (q := p) (fun k _ hk => (hstays k).symm ▸ hk) hframe
    rw [hg.headers_eq] at hagain
    obtain rfl : frame = sheet.frame := Frame.eq_of_withHeaders hframe hstays
    obtain rfl : again = g := Frame.eq_of_withHeaders (ρ := renamed _) (by
      rw [hg.headers_eq]
      exact hagain) hstays
    rw [if_neg hgo]
    simp only [bind_eq_ok, pure_eq_ok, Prod.mk.injEq]
    refine ⟨again, hagain, ?_, hrs⟩
    rw [hg.headers_eq]
    rfl

/-! ### The edit -/

/-- The code of the edit for the sheets that change. -/
def codeOf (changed : List (Sheet × List Renaming)) : List ChunkBody :=
  if changed.isEmpty then [] else [.block (block changed)]

/-- The code touches the sheets that change, and accesses all of them and nothing
  else. -/
theorem codeOf_touches (changed : List (Sheet × List Renaming)) (t : SheetId) :
    (Code.Touches (codeOf changed) t ↔ t ∈ changed.map fun r => r.1.id)
      ∧ (t ∈ (changed.map fun r => r.1.id) → ∀ id, ¬ Code.Leaves (codeOf changed) t id)
      ∧ (t ∉ (changed.map fun r => r.1.id) → ∀ id, Code.Spares (codeOf changed) t id) := by
  unfold codeOf
  split
  · next hempty =>
    rw [List.isEmpty_iff.mp hempty]
    simp [Code.Spares]
  · obtain ⟨-, -, hreads, hwrites⟩ := footprint_block changed
    refine ⟨?_, fun ht id hleaves => ?_, fun ht id => ?_⟩
    · rw [Code.touches_singleton, Footprint.touched, ChunkBody.effectiveWrites_block,
        ← Dictionary.get?_isSome_iff, hwrites]
      by_cases ht : t ∈ changed.map fun r => r.1.id
      · simp only [ht, if_true, Option.isSome_some]
      · simp only [ht, if_false, Option.isSome_none, Bool.false_eq_true]
    · refine (Code.leaves_singleton.mp hleaves).not_all (Dictionary.mem_of_get? ?_)
      rw [ChunkBody.effectiveWrites_block, hwrites, if_pos ht]
    · rw [Code.spares_singleton]
      intro c hc
      rcases hc with hc | hc
      · rw [ChunkBody.reads_block, hreads] at hc
        cases hc
      · rw [ChunkBody.effectiveWrites_block] at hc
        have hin : t ∈ Dictionary.keys (block changed).footprint.effectiveWrites :=
          List.mem_map_of_mem (f := Prod.fst) hc
        rw [← Dictionary.get?_isSome_iff, hwrites, if_neg ht] at hin
        cases hin

/-- On sheets that differ in spared columns only the edit has the same results where
  headers change, and elsewhere results that differ like the sheets. -/
theorem results_again {spared : SheetId → ColumnId → Prop} {ss ts : List Sheet}
    {results : List (Sheet × List Renaming)}
    (hresults : List.Forall₂ (fun sh r => e.sheetAfter sh = .ok r) ss results)
    (hsheets : List.Forall₂ (fun sh sk => sh.AlikeBut (spared sh.id) sk) ss ts)
    (hlinked : ∀ sh ∈ ss, sh.Linked)
    (hchanged : ∀ r ∈ results, r.2 ≠ [] → ∀ id, ¬ spared r.1.id id)
    (hsame : ∀ r ∈ results, r.2 = [] → ∀ id, spared r.1.id id) :
    ∃ again : List (Sheet × List Renaming),
      List.Forall₂ (fun sh r => e.sheetAfter sh = .ok r) ts again
        ∧ (again.filter fun r => !r.2.isEmpty) = (results.filter fun r => !r.2.isEmpty)
        ∧ List.Forall₂ (fun sh sk => sh.AlikeBut (spared sh.id) sk)
            (results.map Prod.fst) (again.map Prod.fst) := by
  induction hresults generalizing ts with
  | nil =>
    cases hsheets
    exact ⟨[], .nil, rfl, .nil⟩
  | @cons sh r ss results hr _ ih =>
    obtain _ | ⟨halike, hsheets⟩ := hsheets
    rw [List.forall_mem_cons] at hlinked hchanged hsame
    obtain ⟨again, hagain, hfilter, hrest⟩ := ih hsheets hlinked.2 hchanged.2 hsame.2
    obtain ⟨after, rs⟩ := r
    obtain ⟨-, hid, -, hstays⟩ := linked_sheetAfter hlinked.1 hr
    cases rs with
    | nil =>
      obtain ⟨g, rfl, hg⟩ := halike.exists_frame
      obtain ⟨hframe, hids⟩ := hstays rfl
      refine ⟨({ after with frame := g }, []) :: again, .cons (sheetAfter_again hg hr) hagain, ?_,
        .cons (.of_frame ?_) hrest⟩
      · simpa using hfilter
      · rw [hframe]
        refine hg.mono fun k hk hfreed => ?_
        obtain ⟨i, hi, -⟩ := hfreed
        obtain ⟨j, hj⟩ := hids k hk i hi
        exact ⟨j, hj, hsame.1 rfl j⟩
    | cons first rest =>
      have hnone := hchanged.1 (List.cons_ne_nil _ _)
      dsimp only at hnone
      rw [hid] at hnone
      obtain rfl := halike.eq hnone
      refine ⟨(after, first :: rest) :: again, .cons hr hagain, ?_, .cons (.refl _ _) hrest⟩
      simpa using hfilter

/-- Ids tell the results apart, so the code touches exactly those with renamings. -/
theorem mem_changed_iff {results : List (Sheet × List Renaming)}
    (hnd : (results.map fun r => r.1.id).Nodup) {r : Sheet × List Renaming} (hr : r ∈ results) :
    (r.1.id ∈ (results.filter fun r => !r.2.isEmpty).map fun r => r.1.id) ↔ r.2 ≠ [] := by
  constructor
  · intro hin
    obtain ⟨k, hk, hid⟩ := List.mem_map.mp hin
    obtain ⟨hkmem, hkchanged⟩ := List.mem_filter.mp hk
    obtain rfl := List.inj_on_of_nodup_map hnd hkmem hr hid
    simpa using hkchanged
  · intro hne
    have hkept : r ∈ results.filter fun r => !r.2.isEmpty :=
      List.mem_filter.mpr ⟨hr, by simpa using hne⟩
    exact List.mem_map_of_mem (f := fun r => r.1.id) hkept

theorem covered (hs : s.Linked) (h : e.run s = .ok c) : c.Covered plain e.run s := by
  unfold RestrictHeaders.run at h
  simp only [bind_eq_ok, pure_eq_ok, mapM_eq_ok] at h
  obtain ⟨results, hresults, rfl⟩ := h
  change Change.Covered plain e.run s ⟨{ s with sheets := results.map Prod.fst },
    codeOf (results.filter fun r => !r.2.isEmpty)⟩
  have hspec : List.Forall₂ (fun sh r => r.1.Linked ∧ r.1.id = sh.id ∧ r.1.name = sh.name
      ∧ (r.2 = [] → r.1.frame = sh.frame)) s.sheets results := by
    refine List.forall₂_iff_zip.mpr ⟨hresults.length_eq, fun {sh r} hp => ?_⟩
    obtain ⟨hlinked, hid, hname, hsame⟩ := linked_sheetAfter
      (hs.sheets sh (List.of_mem_zip hp).1) ((List.forall₂_iff_zip.mp hresults).2 hp)
    exact ⟨hlinked, hid, hname, fun hnil => (hsame hnil).1⟩
  have hids : (results.map Prod.fst).map Sheet.id = s.sheets.map Sheet.id := by
    rw [List.map_map]
    exact map_eq_of_forall₂ (g := Sheet.id ∘ Prod.fst) hspec fun _ _ hr => hr.2.1
  have hlinked : State.Linked { s with sheets := results.map Prod.fst } := by
    refine hs.of_ids hids rfl fun sh hsh => ?_
    obtain ⟨r, hr, rfl⟩ := List.mem_map.mp hsh
    obtain ⟨_, -, hlinked, -⟩ := exists_of_mem_right hspec hr
    exact hlinked
  have hchanged : ∀ r ∈ results,
      (r.1.id ∈ (results.filter fun r => !r.2.isEmpty).map fun r => r.1.id) ↔ r.2 ≠ [] := by
    rw [List.map_map] at hids
    exact fun r hr => mem_changed_iff (hids.symm ▸ hs.ids) hr
  have hcode := codeOf_touches (results.filter fun r => !r.2.isEmpty)
  refine ⟨hlinked, ?_, ?_, ?_⟩
  · intro sh hsh hnot
    obtain ⟨r, hr, -, hid, hname, hsame⟩ := exists_of_mem_left hspec hsh
    refine ⟨r.1, List.mem_map_of_mem hr, hid, hname, hsame (Classical.not_not.mp fun hne => ?_)⟩
    refine hnot ((hcode sh.id).1.mpr ?_)
    rw [← hid]
    exact (hchanged r hr).mpr hne
  · intro sh _ sk _ _ ht col _ id _ hleaves
    exact absurd hleaves ((hcode sh.id).2.1 ((hcode sh.id).1.mp ht) id)
  · intro _ t ht
    have hnone : ∀ r ∈ results, r.2 ≠ [] → ∀ id,
        ¬ Code.Spares (codeOf (results.filter fun r => !r.2.isEmpty)) r.1.id id := by
      intro r hr hne id hspares
      refine (hcode r.1.id).2.1 ((hchanged r hr).mpr hne) id ?_
      exact fun b hb => (hspares b hb).leaves
    have hall : ∀ r ∈ results, r.2 = [] → ∀ id,
        Code.Spares (codeOf (results.filter fun r => !r.2.isEmpty)) r.1.id id :=
      fun r hr hnil => (hcode r.1.id).2.2 fun hin => (hchanged r hr).mp hin hnil
    obtain ⟨again, hagain, hfilter, hsheets⟩ :=
      results_again hresults ht.sheets hs.sheets hnone hall
    refine ⟨⟨{ t with sheets := again.map Prod.fst },
      codeOf (again.filter fun r => !r.2.isEmpty)⟩, ?_, ?_, ?_, hsheets⟩
    · unfold RestrictHeaders.run
      simp only [bind_eq_ok, pure_eq_ok, mapM_eq_ok]
      exact ⟨again, hagain, rfl⟩
    · exact congrArg codeOf hfilter
    · rw [ht.rest]

end SheetScript.RestrictHeaders
