import SheetScript.Edit.LegacyHeaders
import SheetScript.Proofs.Edit.Basic
import SheetScript.Proofs.State.Basic

/-! # Restricting headers follows its code

  The headers of every sheet are renamed one after the other, each column under a
  fresh id to which its formula moves.  The block names the sheets whose headers
  change; the ids of the others stay, or are reset where they are native already.
-/

namespace SheetScript

open Symbolic

namespace RestrictHeaders

variable {s : State} {c : Change} {sheet after : Sheet} {rs : List Renaming}

/-! ### Renamings -/

theorem renamings_mem {taken rest : List Header} {r : Renaming}
    (hr : r ∈ renamings taken rest) : r.1 ∈ rest := by
  induction rest generalizing taken with
  | nil => cases hr
  | cons h rest ih =>
    rw [renamings] at hr
    split at hr
    · exact List.mem_cons_of_mem _ (ih hr)
    · rcases List.mem_cons.mp hr with rfl | hr
      · exact List.mem_cons_self
      · exact List.mem_cons_of_mem _ (ih hr)

theorem renamed_cons (r : Renaming) (rs : List Renaming) (h : Header) :
    renamed (r :: rs) h = if r.1 = h then r.2 else renamed rs h := by
  unfold renamed
  rw [List.find?_cons]
  by_cases hr : r.1 = h <;> simp [hr]

theorem renamed_of_not_mem {h : Header} (hrs : ∀ r ∈ rs, r.1 ≠ h) : renamed rs h = h := by
  have hnone : rs.find? (fun r => r.1 = h) = none := by simpa [List.find?_eq_none] using hrs
  simp [renamed, hnone]

/-! ### Ids and formulas -/

/-- Ids stand for headers, and formulas belong to columns. -/
structure Kept (labels : Labels) (headers : List Header) : Prop where
  columns : labels.1.Sound headers
  formulas : ∀ id ∈ Dictionary.keys labels.2, labels.1.contains id = true

variable {labels : Labels} {headers : List Header}

/-- A column under a free header gets a fresh id, and its formula follows. -/
theorem Kept.relabel (h : Kept labels headers) {r : Renaming} (hold : r.1 ∈ headers)
    (hnew : r.2 ∉ headers.filter fun k => k ≠ r.1) :
    Kept (relabel labels r) (r.2 :: headers.filter fun k => k ≠ r.1) := by
  obtain ⟨columns, formulas⟩ := labels
  have hid := h.columns.id?_eq hold
  have hheader := h.columns.inverse.mpr hid
  have hcolumns := (h.columns.remove hheader).insert hnew
  -- a column other than the renamed one is still there
  have hstays : ∀ i, i ≠ columns.columnOf r.1 → columns.contains i = true →
      ((columns.remove (columns.columnOf r.1)).2.insert r.2).2.contains i = true := by
    intro i hi hin
    obtain ⟨k, hk⟩ := ColumnIds.contains_iff.mp hin
    rw [ColumnIds.contains_iff]
    unfold ColumnIds.insert
    dsimp only
    rw [ColumnIds.header?_insertWithId, ColumnIds.header?_remove hheader, if_neg (Ne.symm hi), hk]
    split
    · exact ⟨_, rfl⟩
    · exact ⟨k, rfl⟩
  have hfresh : ((columns.remove (columns.columnOf r.1)).2.insert r.2).2.contains
      ((columns.remove (columns.columnOf r.1)).2.insert r.2).1 = true := by
    rw [ColumnIds.contains_iff]
    exact ⟨r.2, by simp [ColumnIds.insert, ColumnIds.header?_insertWithId]⟩
  unfold RestrictHeaders.relabel
  simp only [hid, ColumnIds.rekey_eq hheader]
  cases hformula : Dictionary.get? formulas (columns.columnOf r.1) with
  | none =>
    refine ⟨hcolumns, fun i hi => ?_⟩
    have hi : i ∈ Dictionary.keys formulas := by simpa [Dictionary.keys] using hi
    refine hstays i (fun he => ?_) (h.formulas i hi)
    exact Dictionary.get?_eq_none_iff.mp hformula (he ▸ hi)
  | some f =>
    refine ⟨hcolumns, fun i hi => ?_⟩
    have hi : i ∈ Dictionary.keys (Dictionary.insert
        (Dictionary.erase formulas (columns.columnOf r.1))
        ((columns.remove (columns.columnOf r.1)).2.insert r.2).1 f) := by
      simpa [Dictionary.keys] using hi
    rcases Dictionary.mem_keys_insert.mp hi with rfl | hi
    · exact hfresh
    · obtain ⟨e, he, rfl⟩ := List.mem_map.mp hi
      obtain ⟨hmem, hne⟩ := List.mem_filter.mp he
      exact hstays e.1 (by simpa using hne) (h.formulas e.1 (List.mem_map_of_mem hmem))

/-- Renamings of some of the headers, one after the other: `P` speaks of the labels, of
  the headers in use and of those that are still to come. -/
theorem relabelAll_induction {P : Labels → List Header → List Header → Prop}
    (hskip : ∀ {labels taken h rest}, P labels taken (h :: rest) → Naming.legacyHeader h = h →
      h ∈ taken → P labels taken rest)
    (hstep : ∀ {labels taken h rest}, P labels taken (h :: rest) → Naming.legacyHeader h ≠ h →
      h ∈ taken → (∀ k ∈ rest, k ∈ taken.filter fun t => t ≠ h) →
      let others := taken.filter fun t => t ≠ h
      let new := Naming.firstFree others (Naming.legacyHeader h)
      P (RestrictHeaders.relabel labels (h, new)) (new :: others) rest)
    {rest : List Header} (h : P labels headers rest) (hnd : rest.Nodup)
    (hin : ∀ k ∈ rest, k ∈ headers) :
    ∃ hs, P ((renamings headers rest).foldl RestrictHeaders.relabel labels) hs []
      ∧ ∀ k, k ∈ hs ↔ k ∈ headers ∧ k ∉ rest
        ∨ ∃ j ∈ rest, renamed (renamings headers rest) j = k := by
  induction rest generalizing labels headers with
  | nil => exact ⟨headers, h, by simp⟩
  | cons first rest ih =>
    obtain ⟨hnot, hnd⟩ := List.nodup_cons.mp hnd
    have hfirst := hin first List.mem_cons_self
    rw [renamings]
    split
    · -- the header stays, and no later renaming is about it
      next hsame =>
      obtain ⟨hs, hkept, hmem⟩ := ih (hskip h hsame hfirst) hnd
        fun k hk => hin k (List.mem_cons_of_mem _ hk)
      have hsame : renamed (renamings headers rest) first = first :=
        renamed_of_not_mem fun r hr he => hnot (he ▸ renamings_mem hr)
      refine ⟨hs, hkept, fun k => ?_⟩
      rw [hmem, List.exists_mem_cons_iff, hsame, List.mem_cons]
      constructor
      · rintro (⟨hk, hkrest⟩ | hk)
        · by_cases he : k = first
          · exact .inr (.inl he.symm)
          · exact .inl ⟨hk, by simp [he, hkrest]⟩
        · exact .inr (.inr hk)
      · rintro (⟨hk, hkrest⟩ | rfl | hk)
        · exact .inl ⟨hk, fun hr => hkrest (.inr hr)⟩
        · exact .inl ⟨hfirst, hnot⟩
        · exact .inr hk
    · next hother =>
      dsimp only
      have hnew := Naming.firstFree_not_mem (headers.filter fun t => t ≠ first)
        (Naming.legacyHeader first)
      have hothers : ∀ k ∈ rest, k ∈ headers.filter fun t => t ≠ first := fun k hk =>
        List.mem_filter.mpr ⟨hin k (List.mem_cons_of_mem _ hk),
          by simpa using fun he : k = first => hnot (he ▸ hk)⟩
      have hnext := hstep h hother hfirst hothers
      dsimp only at hnext
      generalize Naming.firstFree (headers.filter fun t => t ≠ first)
        (Naming.legacyHeader first) = new at hnew hnext ⊢
      obtain ⟨hs, hkept, hmem⟩ := ih hnext hnd fun k hk => List.mem_cons_of_mem _ (hothers k hk)
      have hnewrest : new ∉ rest := fun hn => hnew (hothers new hn)
      refine ⟨hs, hkept, fun k => ?_⟩
      -- the header that goes is none of those that are still to come
      have hlater : (∃ j ∈ rest, renamed ((first, new)
            :: renamings (new :: headers.filter fun t => t ≠ first) rest) j = k)
          ↔ ∃ j ∈ rest, renamed (renamings (new :: headers.filter fun t => t ≠ first) rest) j
            = k := by
        refine exists_congr fun j => and_congr_right fun hj => ?_
        rw [renamed_cons, if_neg fun he : first = j => hnot (he ▸ hj)]
      rw [hmem, List.exists_mem_cons_iff, renamed_cons, if_pos rfl, hlater]
      simp only [List.mem_cons, List.mem_filter, decide_eq_true_eq, not_or]
      constructor
      · rintro (⟨rfl | ⟨hk, hne⟩, hkrest⟩ | hk)
        · exact .inr (.inl rfl)
        · exact .inl ⟨hk, hne, hkrest⟩
        · exact .inr (.inr hk)
      · rintro (⟨hk, hne, hkrest⟩ | rfl | hk)
        · exact .inl ⟨.inr ⟨hk, hne⟩, hkrest⟩
        · exact .inl ⟨.inl rfl, hnewrest⟩
        · exact .inr hk

/-- What one renaming keeps, all renamings of some of the headers keep, one after the
  other. -/
theorem relabelAll_keeps {P : Labels → List Header → Prop}
    (hstep : ∀ {labels headers} {r : Renaming}, P labels headers → r.1 ∈ headers →
      r.2 ∉ headers.filter (fun k => k ≠ r.1) →
      P (RestrictHeaders.relabel labels r) (r.2 :: headers.filter fun k => k ≠ r.1))
    {rest : List Header} (h : P labels headers) (hnd : rest.Nodup)
    (hin : ∀ k ∈ rest, k ∈ headers) :
    ∃ hs, P ((renamings headers rest).foldl RestrictHeaders.relabel labels) hs
      ∧ ∀ k, k ∈ hs ↔ k ∈ headers ∧ k ∉ rest
        ∨ ∃ j ∈ rest, renamed (renamings headers rest) j = k :=
  relabelAll_induction (P := fun labels taken _ => P labels taken) (fun h _ _ => h)
    (fun h _ hin _ => hstep h hin (Naming.firstFree_not_mem _ _)) h hnd hin

/-- Headers that differ still do when they are renamed. -/
theorem nodup_renamed (hnd : headers.Nodup) :
    (headers.map (renamed (renamings headers headers))).Nodup := by
  have hstep : ∀ {hs : List Header} {r : Renaming}, hs.Nodup ∧ hs.length = headers.length →
      r.1 ∈ hs → r.2 ∉ hs.filter (fun k => k ≠ r.1) →
      (r.2 :: hs.filter fun k => k ≠ r.1).Nodup
        ∧ (r.2 :: hs.filter fun k => k ≠ r.1).length = headers.length := by
    intro hs r h hin hnew
    refine ⟨List.nodup_cons.mpr ⟨hnew, h.1.filter _⟩, ?_⟩
    have herase : hs.filter (fun k => k ≠ r.1) = hs.erase r.1 := by
      rw [h.1.erase_eq_filter]
      exact List.filter_congr fun k _ => Bool.eq_iff_iff.mpr (by simp)
    have hpos := List.length_pos_of_mem hin
    rw [herase, List.length_cons, List.length_erase_of_mem hin, ← h.2]
    omega
  -- which labels are carried along makes no difference
  obtain ⟨hs, ⟨hdiffer, hlen⟩, hmem⟩ := @relabelAll_keeps default headers
    (fun _ hs => hs.Nodup ∧ hs.length = headers.length) hstep _ ⟨hnd, rfl⟩ hnd fun _ hk => hk
  have hsub : hs.Subperm (headers.map (renamed (renamings headers headers))) := by
    refine List.subperm_of_subset hdiffer fun k hk => ?_
    obtain ⟨hin, hnot⟩ | ⟨j, hj, rfl⟩ := (hmem k).mp hk
    · exact absurd hin hnot
    · exact List.mem_map_of_mem hj
  exact (hsub.perm_of_length_le (by simp [hlen])).nodup_iff.mp hdiffer

theorem kept_reset (labels : Labels) (hnd : headers.Nodup) :
    Kept (reset headers labels) headers := by
  have hcolumns := ColumnIds.Sound.ofHeaders hnd
  refine ⟨hcolumns, fun id hid => ?_⟩
  unfold reset at hid
  dsimp only at hid
  obtain ⟨e, he, rfl⟩ := List.mem_map.mp (Dictionary.mem_keys_ofList.mp hid)
  obtain ⟨h, -, he⟩ := List.mem_filterMap.mp he
  split at he
  · cases he
  · obtain ⟨i, hi, rfl⟩ := Option.map_eq_some_iff.mp he
    exact ColumnIds.contains_iff.mpr ⟨h, hcolumns.inverse.mpr hi⟩

/-! ### Sheets -/

/-- Headers under two sets of ids look alike, and the same where the ids agree. -/
theorem framesAlike_cells {ids : Prop} {m n : ColumnIds} {hs : List Header}
    (h : ids → ∀ k ∈ hs, m.id? k = n.id? k) :
    FramesAlike ids (hs.map (Sheet.cell m)) (hs.map (Sheet.cell n)) := by
  unfold FramesAlike
  rw [List.forall₂_map_left_iff, List.forall₂_map_right_iff, List.forall₂_same]
  refine fun k hk => ⟨rfl, fun hids => ?_⟩
  simp [Sheet.cell, ColumnIds.columnOf, h hids k hk]

theorem Kept.sound_sheet {frame : Frame} (h : Kept labels frame.headers) (hnd : frame.headers.Nodup) :
    Sheet.Sound { sheet.withData frame labels.1 with formulas := labels.2 } :=
  ⟨hnd, h.columns, h.formulas⟩

/-- What becomes of a sheet: it stays sound under its id and name, and when no
  header changes it looks the same, its ids included if they are native or not
  reset. -/
theorem sheetAfter_spec {e : RestrictHeaders} (hs : sheet.Sound)
    (h : e.sheetAfter sheet = .ok (after, rs)) :
    after.Sound ∧ after.id = sheet.id ∧ after.name = sheet.name
      ∧ (rs = [] → TablesAlike (e.resetsIds = true → sheet.Native) sheet.table after.table) := by
  unfold sheetAfter at h
  dsimp only at h
  split at h
  · simp only [pure_eq_ok, Prod.mk.injEq] at h
    obtain ⟨rfl, -⟩ := h
    exact ⟨hs, rfl, rfl, fun _ => ⟨rfl, FramesAlike.refl _⟩⟩
  · simp only [bind_eq_ok, pure_eq_ok, Prod.mk.injEq] at h
    obtain ⟨frame, hframe, rfl, rfl⟩ := h
    obtain ⟨hheaders, hnd, -⟩ := Frame.headers_withHeaders hframe
    have hstart : Kept (sheet.columns, sheet.formulas) sheet.headers := ⟨hs.columns, hs.formulas⟩
    obtain ⟨hs', hkept, hmem⟩ := relabelAll_keeps (P := Kept)
      (fun h hold hnew => h.relabel hold hnew) hstart hs.headers fun _ hk => hk
    have hlabels : Kept (if e.resetsIds then reset frame.headers
        ((renamings sheet.headers sheet.headers).foldl RestrictHeaders.relabel
          (sheet.columns, sheet.formulas))
        else (renamings sheet.headers sheet.headers).foldl RestrictHeaders.relabel
          (sheet.columns, sheet.formulas)) frame.headers := by
      split
      · exact kept_reset _ (hheaders ▸ hnd)
      · refine ⟨hkept.columns.congr fun k => ?_, hkept.formulas⟩
        rw [hheaders, List.mem_map, hmem]
        simp
    refine ⟨hlabels.sound_sheet (by rwa [hheaders]), rfl, rfl, fun hrs => ⟨rfl, ?_⟩⟩
    -- without renamings the edit only goes on when ids are reset
    next hgo =>
    have hresets : e.resetsIds = true := by simpa [hrs] using hgo
    have hsame : frame.headers = sheet.headers := by
      rw [hheaders, hrs]
      exact List.map_id'' (fun k => renamed_of_not_mem fun _ hr => absurd hr List.not_mem_nil) _
    rw [hs.table_frame, (hlabels.sound_sheet (by rwa [hheaders])).table_frame]
    show FramesAlike _ _ (frame.headers.map (Sheet.cell _))
    rw [hsame, if_pos hresets]
    exact framesAlike_cells fun hnative => hnative hresets

/-! ### The edit -/

/-- Code that writes all of some sheets. -/
theorem foldl_write (changed : List (Sheet × List Renaming)) (f : Footprint) :
    let written := changed.foldl (fun f c => f.write c.1.id .all) f
    written.creates = f.creates ∧ written.deletes = f.deletes ∧ written.reads = f.reads
      ∧ ∀ t, Dictionary.get? written.writes t
        = if t ∈ changed.map (fun c => c.1.id) then some .all
          else Dictionary.get? f.writes t := by
  induction changed generalizing f with
  | nil => simp
  | cons c rest ih =>
    obtain ⟨hcreates, hdeletes, hreads, hwrites⟩ := ih (f.write c.1.id .all)
    refine ⟨hcreates, hdeletes, hreads, fun t => ?_⟩
    rw [List.foldl_cons, hwrites, Footprint.write, ColumnAccess.get?_add_all]
    by_cases hrest : t ∈ rest.map fun c => c.1.id
    · simp [hrest]
    · by_cases ht : c.1.id = t
      · simp [ht]
      · simp [hrest, ht, Ne.symm ht]

theorem footprint_block (changed : List (Sheet × List Renaming)) :
    (block changed).footprint.creates = [] ∧ (block changed).footprint.deletes = []
      ∧ (block changed).footprint.reads = []
      ∧ ∀ t, Dictionary.get? (block changed).footprint.effectiveWrites t
        = if t ∈ changed.map (fun c => c.1.id) then some .all else none := by
  obtain ⟨hcreates, hdeletes, hreads, hwrites⟩ := foldl_write changed {}
  refine ⟨hcreates, hdeletes, hreads, fun t => ?_⟩
  rw [Footprint.effectiveWrites_eq (f := (block changed).footprint) hcreates hdeletes]
  exact hwrites t

section Results

variable {e : RestrictHeaders} {results : List (Sheet × List Renaming)} (hs : s.Sound)
  (hresults : List.Forall₂ (fun sh r => e.sheetAfter sh = .ok r) s.sheets results)
include hs hresults

/-- Every sheet has a result, and every result comes from a sheet. -/
theorem result_of_sheet (hsheet : sheet ∈ s.sheets) :
    ∃ r ∈ results, r.1.id = sheet.id ∧ r.1.name = sheet.name
      ∧ (r.2 = [] → TablesAlike (e.resetsIds = true → sheet.Native) sheet.table r.1.table) := by
  obtain ⟨r, hr, hafter⟩ := exists_of_mem_left hresults hsheet
  obtain ⟨-, hid, hname, halike⟩ := sheetAfter_spec (hs.sheets sheet hsheet) hafter
  exact ⟨r, hr, hid, hname, halike⟩

theorem sheet_of_result (hafter : after ∈ results.map Prod.fst) :
    ∃ old ∈ s.sheets, after.Sound ∧ after.id = old.id ∧ after.name = old.name := by
  obtain ⟨r, hr, rfl⟩ := List.mem_map.mp hafter
  obtain ⟨old, hold, hafter⟩ := exists_of_mem_right hresults hr
  obtain ⟨hsound, hid, hname, -⟩ := sheetAfter_spec (hs.sheets old hold) hafter
  exact ⟨old, hold, hsound, hid, hname⟩

theorem sound_results : State.Sound { s with sheets := results.map Prod.fst } := by
  have hspec : List.Forall₂ (fun sh r => r.1.id = sh.id ∧ r.1.name = sh.name) s.sheets results := by
    refine List.forall₂_iff_zip.mpr ⟨hresults.length_eq, fun {sh r} hp => ?_⟩
    obtain ⟨-, hid, hname, -⟩ := sheetAfter_spec (hs.sheets sh (List.of_mem_zip hp).1)
      ((List.forall₂_iff_zip.mp hresults).2 hp)
    exact ⟨hid, hname⟩
  refine ⟨?_, ?_, ?_, ?_, ?_, ?_⟩
  · show ((results.map Prod.fst).map Sheet.name).Nodup
    rw [List.map_map, map_eq_of_forall₂ (g := Sheet.name ∘ Prod.fst) hspec fun sh r hr => hr.2]
    exact hs.names
  · show ((results.map Prod.fst).map Sheet.id).Nodup
    rw [List.map_map, map_eq_of_forall₂ (g := Sheet.id ∘ Prod.fst) hspec fun sh r hr => hr.1]
    exact hs.ids
  · intro sh hsh
    obtain ⟨old, hold, -, hid, -⟩ := sheet_of_result hs hresults hsh
    rw [hid]
    exact hs.below old hold
  · intro sh hsh
    obtain ⟨old, -, hsound, -⟩ := sheet_of_result hs hresults hsh
    exact hsound
  · intro sh hsh
    obtain ⟨old, hold, -, -, hname⟩ := sheet_of_result hs hresults hsh
    rw [hname]
    exact hs.named old hold
  · intro chart hchart
    obtain ⟨old, hold, hsheet⟩ := hs.charts chart hchart
    obtain ⟨r, hr, hid, -⟩ := result_of_sheet hs hresults hold
    exact ⟨r.1, List.mem_map_of_mem hr, hid.trans hsheet⟩

/-- A sheet that no changed result is of keeps its looks. -/
theorem alikeAt_results {t : SheetId} (ht : ∀ r ∈ results, r.2 ≠ [] → r.1.id ≠ t) :
    s.desk.AlikeAt (e.resetsIds = true → s.Native)
      (State.desk { s with sheets := results.map Prod.fst }) t := by
  have hnext := sound_results hs hresults
  by_cases hin : ∃ sh ∈ s.sheets, sh.id = t
  · obtain ⟨sh, hsh, rfl⟩ := hin
    obtain ⟨r, hr, hid, -, halike⟩ := result_of_sheet hs hresults hsh
    have hnil : r.2 = [] := Classical.not_not.mp fun hne => ht r hr hne hid
    have hnew := hnext.desk_sheet (List.mem_map_of_mem hr)
    rw [hid] at hnew
    obtain ⟨hname, hframes⟩ := halike hnil
    exact .inr ⟨_, _, hs.desk_sheet hsh, hnew, hname, hframes.imp fun _ _ hc =>
      ⟨hc.1, fun hnative => hc.2 fun hresets => hnative hresets sh hsh⟩⟩
  · refine .inl ⟨State.deskOf_eq_none fun hmem => hin (List.mem_map.mp hmem),
      State.deskOf_eq_none fun hmem => hin ?_⟩
    obtain ⟨sh, hsh, he⟩ := List.mem_map.mp hmem
    obtain ⟨old, hold, -, hid, -⟩ := sheet_of_result hs hresults hsh
    exact ⟨old, hold, hid.symm.trans he⟩

end Results

theorem follows {e : RestrictHeaders} (hs : s.Sound) (h : e.run s = .ok c) :
    c.Follows (e.resetsIds = true → s.Native) s := by
  unfold RestrictHeaders.run at h
  simp only [bind_eq_ok, pure_eq_ok, mapM_eq_ok] at h
  obtain ⟨results, hresults, rfl⟩ := h
  have hnext := sound_results hs hresults
  have hmem : ∀ r ∈ results, r.2 ≠ [] → r ∈ results.filter fun r => !r.2.isEmpty :=
    fun r hr hne => List.mem_filter.mpr ⟨hr, by simpa using hne⟩
  have hsub : (results.filter fun r => !r.2.isEmpty).Sublist results := List.filter_sublist
  generalize (results.filter fun r => !r.2.isEmpty) = changed at hmem hsub ⊢
  -- without renamings there is no block
  split
  · next hempty =>
    refine ⟨hnext, .idle fun t => alikeAt_results hs hresults fun r hr hne => ?_⟩
    have hin := hmem r hr hne
    rw [List.isEmpty_iff.mp hempty] at hin
    cases hin
  · obtain ⟨hcreates, hdeletes, -, hwrites⟩ := footprint_block changed
    have hget : ∀ sh ∈ changed.map Prod.fst,
        Dictionary.get? (block changed).footprint.effectiveWrites sh.id = some .all := by
      intro sh hsh
      obtain ⟨r, hr, rfl⟩ := List.mem_map.mp hsh
      rw [hwrites, if_pos (List.mem_map_of_mem (f := fun c => c.1.id) hr)]
    refine .block (changed.map Prod.fst) hs hnext ?_ ?_ (hsub.map _) ?_ hdeletes ?_ ?_ ?_ ?_
    · intro sh hsh
      obtain ⟨r, hr, hid, hname, -⟩ := result_of_sheet hs hresults hsh
      exact ⟨r.1, List.mem_map_of_mem hr, hid, hname⟩
    · intro t ht
      refine alikeAt_results hs hresults fun r hr hne => ?_
      exact ht r.1 (List.mem_map_of_mem (hmem r hr hne))
    · simp [block]
    · exact fun sh hsh => .inr (Dictionary.mem_of_get? (hget sh hsh))
    · exact fun sh hsh => Dictionary.get?_isSome_iff.mp (by rw [hget sh hsh]; rfl)
    · simp [hcreates]
    · intro sh hsh _
      obtain ⟨old, hold, -, hid, -⟩ :=
        sheet_of_result hs hresults ((hsub.map Prod.fst).subset hsh)
      rw [hid, hs.desk_sheet hold]
      rfl

end RestrictHeaders

end SheetScript
