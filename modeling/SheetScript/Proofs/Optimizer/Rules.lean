import SheetScript.Optimizer.Basic
import SheetScript.Proofs.Desk.Patches

/-! # The rules of the optimizer

  Each rule takes an older and a newer chunk and leaves the chunks between them.
  When those are clear of both, the rule is sound: without the older chunk, or with
  another one in its place, the chunks between run as before on a desk that differs
  by a patch or by one table, and the newer chunk makes up for the difference.

  - `Desk.Pair`: an older and a newer chunk that nothing between conflicts with.
  - `Desk.StandsFor`: chunks that fit, and leave what others leave.
  - one lemma for each rule, with the shape that `rewriteFor` gives it.
-/

namespace SheetScript.Symbolic.Desk

variable {τ : Type} {I : Interpretation τ} {d : Desk τ}

/-- Chunks that can stand for others. -/
structure StandsFor (I : Interpretation τ) (d : Desk τ) (after before : List Chunk) : Prop where
  fits : d.AllFit I after
  run : d.run I after = d.run I before
  trace : d.trace I after = d.trace I before

/-- Chunks before and after some others, which meanwhile run from another desk `d'` to
  another one `e'`. -/
theorem StandsFor.of_detour (d' e' : Desk τ) {older newer : Chunk} {ks first later : List Chunk}
    (hfirst : d.AllFit I first ∧ d.run I first = d'
      ∧ d.trace I first = d.effects I older.body)
    (hbetween : d'.AllFit I ks ∧ d'.run I ks = e'
      ∧ d'.trace I ks = (d.step I older.body).trace I ks)
    (hlater : e'.AllFit I later
      ∧ e'.run I later = ((d.step I older.body).run I ks).step I newer.body
      ∧ e'.trace I later = ((d.step I older.body).run I ks).effects I newer.body) :
    d.StandsFor I (first ++ ks ++ later) (older :: ks ++ [newer]) := by
  obtain ⟨hf, rfl, htf⟩ := hfirst
  obtain ⟨hb, rfl, htb⟩ := hbetween
  obtain ⟨hl, hrl, htl⟩ := hlater
  refine ⟨?_, ?_, ?_⟩
  · rw [allFit_append, allFit_append, run_append]
    exact ⟨⟨hf, hb⟩, hl⟩
  · rw [run_append, run_append, hrl, run_append]
    rfl
  · show _ = d.trace I (older :: (ks ++ [newer]))
    rw [Desk.trace, trace_append, trace_append, run_append, htf, htb, htl, trace_append]
    simp [Desk.trace, List.append_assoc]

/-- An older and a newer chunk, and chunks between that are clear of both. -/
structure Pair (I : Interpretation τ) (d : Desk τ) (older : Chunk) (ks : List Chunk)
    (newer : Chunk) : Prop where
  sees : I.IsNarrow ∨ ∀ k ∈ ks, ∀ s id, older.body.Edits s id → newer.body.Edits s id →
    ¬ k.body.Overlooks s id
  tidy : d.Tidy
  keyed : d.Keyed
  fitsOlder : d.Fits older.body
  fitsBetween : (d.step I older.body).AllFit I ks
  fitsNewer : ((d.step I older.body).run I ks).Fits newer.body
  clearOlder : ∀ k ∈ ks, k.body.footprint.conflictsWith older.body.footprint = false
  clearNewer : ∀ k ∈ ks, k.body.footprint.conflictsWith newer.body.footprint = false

namespace Pair

variable {older newer : Chunk} {ks : List Chunk} {t u : Target} {c e : SymbolicColumn τ}
  {r : Option (SymbolicColumn τ)}

/-- The desk before the newer chunk. -/
abbrev last (I : Interpretation τ) (d : Desk τ) (older : Chunk) (ks : List Chunk) : Desk τ :=
  (d.step I older.body).run I ks

theorem first_tidy_keyed (h : Pair I d older ks newer) :
    (d.step I older.body).Tidy ∧ (d.step I older.body).Keyed :=
  ⟨h.fitsOlder.1.tidy h.tidy, h.fitsOlder.keyed h.keyed⟩

theorem last_tidy_keyed (h : Pair I d older ks newer) :
    (last I d older ks).Tidy ∧ (last I d older ks).Keyed :=
  h.fitsBetween.tidy_keyed h.first_tidy_keyed.1 h.first_tidy_keyed.2

/-! ### Patches between -/

/-- The chunks between spare the columns that the older chunk edits. -/
theorem spares_older (h : Pair I d older ks newer) (ht : older.body.columnTarget? = some t)
    {id : ColumnId} (hid : id ∈ older.body.editedIds) :
    ∀ k ∈ ks, k.body.footprint.Spares t.sheet id := fun k hk =>
  Footprint.spares_of_clear (h.clearOlder k hk) (ChunkBody.get?_writes_column ht) hid

/-- The chunks between do not notice a patch of a column that both chunks edit. -/
theorem patched (h : Pair I d older ks newer) (ht : older.body.columnTarget? = some t)
    (hu : newer.body.columnTarget? = some u) (hs : t.sheet = u.sheet)
    (hid : c.id ∈ older.body.editedIds) (hid' : c.id ∈ newer.body.editedIds)
    (hp : (d.step I older.body).Patchable t.sheet c r)
    (hpos : r = none → t.sheet ∈ older.body.footprint.positions)
    (hbind : ∀ e, r = some e → e.header ≠ c.header →
      .header t.sheet e.header ∈ newer.body.footprint.binds) :
    ((d.step I older.body).patch t.sheet c r).AllFit I ks
      ∧ ((d.step I older.body).patch t.sheet c r).run I ks = (last I d older ks).patch t.sheet c r
      ∧ ((d.step I older.body).patch t.sheet c r).trace I ks = (d.step I older.body).trace I ks
      ∧ (last I d older ks).Patchable t.sheet c r := by
  refine run_patch h.first_tidy_keyed.1 h.first_tidy_keyed.2 hp h.fitsBetween
    fun k hk => ⟨h.sees.imp_right fun hsees => ?_, h.spares_older ht hid k hk, fun hr => ?_,
      fun e he hne => ?_⟩
  · exact hsees k hk t.sheet c.id ⟨⟨t, ht, rfl⟩, hid⟩ ⟨⟨u, hu, hs.symm⟩, hid'⟩
  · exact Footprint.not_mem_positions_of_clear (h.clearOlder k hk) (hpos hr)
  · exact Footprint.not_mem_binds_of_clear (h.clearNewer k hk) (.inl (hbind e he hne))

/-- The same for a column that looks like the one before. -/
theorem patched_value (h : Pair I d older ks newer) (ht : older.body.columnTarget? = some t)
    (hu : newer.body.columnTarget? = some u) (hs : t.sheet = u.sheet)
    (hid : c.id ∈ older.body.editedIds) (hid' : c.id ∈ newer.body.editedIds)
    (hp : (d.step I older.body).Patchable t.sheet c (some e)) (he : e.header = c.header) :
    ((d.step I older.body).patch t.sheet c (some e)).AllFit I ks
      ∧ ((d.step I older.body).patch t.sheet c (some e)).run I ks
        = (last I d older ks).patch t.sheet c (some e)
      ∧ ((d.step I older.body).patch t.sheet c (some e)).trace I ks
        = (d.step I older.body).trace I ks
      ∧ (last I d older ks).Patchable t.sheet c (some e) :=
  h.patched ht hu hs hid hid' hp (fun hr => by cases hr) fun _ hk hne =>
    absurd (Option.some.inj hk ▸ he) hne

/-- An older chunk may go that gave a column a value which the newer one forgets. -/
theorem drop_forgotten (h : Pair I d older ks newer)
    (ht : older.body.columnTarget? = some t) (hu : newer.body.columnTarget? = some u)
    (hs : t.sheet = u.sheet) {id : ColumnId} (hid : id ∈ older.body.editedIds)
    (hid' : id ∈ newer.body.editedIds) (hpaint : SymbolicFrame.Paints I older.body id)
    (hforget : SymbolicFrame.Forgets I newer.body id) :
    d.StandsFor I (ks ++ [newer]) (older :: ks ++ [newer]) := by
  obtain ⟨x, hx, -⟩ := (runs_column ht d).mp h.fitsOlder.1
  obtain ⟨-, -, hm⟩ := (fits_column ht hx).mp h.fitsOlder
  obtain ⟨c, hc, rfl, v, hretouch⟩ := hpaint (h.keyed hx) (h.tidy.headers hx) hm
  -- the column before is put back in the place of the column that the older chunk left
  have hd : (d.step I older.body).patch t.sheet { c with value := v } (some c) = d := by
    rw [patch, step_column ht, edit_eq hx, edit_eq (d.set_self _ _), set_set, hretouch,
      SymbolicFrame.patch_patch rfl, SymbolicFrame.patch_self (h.keyed hx) hc, ← hx, set_eq]
  have hp : (d.step I older.body).Patchable t.sheet { c with value := v } (some c) := by
    refine ⟨_, by rw [step_column ht, edit_self hx], ?_, ?_, ?_⟩
    · rw [hretouch, SymbolicFrame.patch_some]
      exact List.mem_map.mpr ⟨c, hc, by simp⟩
    · rintro e he
      cases he
      rfl
    · rintro e he
      cases he
      exact .inl rfl
  obtain ⟨hfit, hrun, htrace, hplast⟩ := h.patched_value (c := { c with value := v }) ht hu hs hid
    hid' hp rfl
  have halike := alike_patch h.last_tidy_keyed.2 hplast rfl rfl
  obtain ⟨y, hy, hpy⟩ := id hplast
  obtain ⟨-, -, hmy⟩ := (fits_column hu (hs ▸ hy)).mp h.fitsNewer
  rw [hd] at hfit hrun htrace
  show d.StandsFor I ([] ++ ks ++ [newer]) _
  refine StandsFor.of_detour d _ ⟨trivial, rfl, ?_⟩ ⟨hfit, hrun, htrace⟩
    ⟨⟨halike.fits trivial h.fitsNewer, trivial⟩, ?_, ?_⟩
  · rw [effects_column ht]
    rfl
  · have hsame : SymbolicFrame.retouch I (SymbolicFrame.patch c.id (some c) y.frame) newer.body
        = SymbolicFrame.retouch I y.frame newer.body :=
      hforget (c := { c with value := v }) (h.last_tidy_keyed.2 hy)
        (h.last_tidy_keyed.1.headers hy) hmy hpy.mem rfl rfl rfl
    rw [run_singleton, step_column hu, step_column hu, ← hs, patch, edit_eq (edit_self hy _),
      edit_eq hy, set_set, edit_eq hy]
    dsimp only
    rw [hsame]
  · rw [effects_column hu]
    show Desk.effects I _ newer.body ++ [] = _
    rw [effects_column hu]
    rfl

/-! ### An inserted column -/

section Insert

variable {id : ColumnId} {header : Header} {index : Nat} {value : Option String}
  {reads : List ColumnId}

/-- The column that an older chunk inserts, and the desk with another one in its place. -/
theorem inserted (h : Pair I d older ks newer)
    (ho : older.body = .addColumn t id header index value reads) :
    ∃ x c, d t.sheet = some x ∧ c.id = id ∧ c.header = header
      ∧ (d.step I older.body) t.sheet
        = some { x with frame := x.frame.take index ++ c :: x.frame.drop index }
      ∧ (∀ r : Option (SymbolicColumn τ), (∀ e, r = some e → e.id = id ∧ e.header = header) →
          (d.step I older.body).Patchable t.sheet c r)
      ∧ (∀ r : Option (SymbolicColumn τ), (d.step I older.body).patch t.sheet c r
          = d.set t.sheet
            (some { x with frame := x.frame.take index ++ r.toList ++ x.frame.drop index }))
      ∧ ∀ j, j ≠ id → Machine.valueOf? (x.frame.take index ++ c :: x.frame.drop index) j
          = Machine.valueOf? x.frame j := by
  have ht : older.body.columnTarget? = some t := by rw [ho]; rfl
  obtain ⟨x, hx, -⟩ := (runs_column ht d).mp h.fitsOlder.1
  obtain ⟨-, hr, hm⟩ := (fits_column ht hx).mp h.fitsOlder
  rw [ho] at hr hm
  let c : SymbolicColumn τ :=
    ⟨id, header, I.value (value.getD "0") (reads.map (Machine.valueOf? x.frame))⟩
  have hfirst : (d.step I older.body) t.sheet
      = some { x with frame := x.frame.take index ++ c :: x.frame.drop index } := by
    rw [step_column ht, edit_self hx, ho]
    rfl
  have hp : ∀ r : Option (SymbolicColumn τ), (∀ e, r = some e → e.id = id ∧ e.header = header) →
      SymbolicFrame.Patchable (x.frame.take index ++ c :: x.frame.drop index) c r := fun r hr =>
    ⟨by simp, fun e he => (hr e he).1, fun e he => .inl (hr e he).2⟩
  -- what takes the place of the column stands between the same columns
  have hput : ∀ r : Option (SymbolicColumn τ),
      SymbolicFrame.patch id r (x.frame.take index ++ c :: x.frame.drop index)
        = x.frame.take index ++ r.toList ++ x.frame.drop index := fun r =>
    SymbolicFrame.patch_insert (e := c) hm index
  refine ⟨x, c, hx, rfl, rfl, hfirst, fun r hr => ⟨_, hfirst, hp r hr⟩, fun r => ?_, fun j hj => ?_⟩
  · rw [patch, edit_eq hfirst, step_column ht, edit, set_set]
    dsimp only
    rw [hput]
  · have hout := SymbolicFrame.valueOf?_patch (hp none fun _ he => by cases he) hj
    rw [hput none] at hout
    simpa using hout.symm

/-- An insertion and a deletion of the column, which may delete others. -/
theorem cancel_insert (h : Pair I d older ks newer)
    (ho : older.body = .addColumn t id header index value reads) {is : List ColumnId}
    {hs : List Header} (hn : newer.body = .deleteColumns u is hs) (hsheet : t.sheet = u.sheet)
    (hid : id ∈ is) {ps : List (ColumnId × Header)}
    (hps : ps = (is.zip hs).filter fun p => p.1 ≠ id) :
    d.StandsFor I
        (ks ++ [⟨newer.step, .deleteColumns ⟨t.sheet, u.df⟩ (ps.map Prod.fst) (ps.map Prod.snd)⟩])
        (older :: ks ++ [newer])
      ∧ (ps = [] → d.StandsFor I ks (older :: ks ++ [newer])) := by
  have ht : older.body.columnTarget? = some t := by rw [ho]; rfl
  have hu : newer.body.columnTarget? = some u := by rw [hn]; rfl
  obtain ⟨x, c, hx, rfl, -, -, hp, hpatch, -⟩ := h.inserted ho
  have hback : (d.step I older.body).patch t.sheet c none = d := by
    rw [hpatch]
    simp [← hx]
  -- the chunks between do the same where the column is not there
  obtain ⟨hfit, hrun, htrace, hplast⟩ := h.patched ht hu hsheet
    (by rw [ho]; exact List.mem_singleton_self _) (by rw [hn]; exact hid)
    (hp none fun _ he => by cases he) (fun _ => by rw [ho]; exact ChunkBody.positions_addColumn ..)
    fun _ he => by cases he
  rw [hback] at hfit hrun htrace
  obtain ⟨y, hy, hpy⟩ := id hplast
  obtain ⟨hname, hry, hmy⟩ := (fits_column hu (hsheet ▸ hy)).mp h.fitsNewer
  rw [hn] at hry hmy
  obtain ⟨hr', hm', hsame⟩ := SymbolicFrame.deleteColumns_patch (I := I) u ⟨t.sheet, u.df⟩ hps
    (h.last_tidy_keyed.2 hy) (h.last_tidy_keyed.1.headers hy) hpy.mem hid hry hmy
  have hquiet : d.effects I older.body = [] ∧ (last I d older ks).effects I newer.body = [] :=
    ⟨effects_column ht I d, effects_column hu I _⟩
  have hlast : (last I d older ks).step I newer.body
      = (last I d older ks).set t.sheet
        (some { y with frame := SymbolicFrame.retouch I y.frame newer.body }) := by
    rw [step_column hu, ← hsheet, edit_eq hy]
  have hrest : (last I d older ks).patch t.sheet c none
      = (last I d older ks).set t.sheet
        (some { y with frame := SymbolicFrame.patch c.id none y.frame }) := by
    rw [patch, edit_eq hy]
  refine ⟨?_, fun hnil => ?_⟩
  · show d.StandsFor I ([] ++ ks ++ [_]) _
    refine StandsFor.of_detour d _ ⟨trivial, rfl, hquiet.1.symm⟩ ⟨hfit, hrun, htrace⟩
      ⟨⟨?_, trivial⟩, ?_, ?_⟩
    · exact (fits_column (t := ⟨t.sheet, u.df⟩) rfl (edit_self hy _)).mpr ⟨hname, hr', hm'⟩
    · rw [run_singleton, step_column (t := ⟨t.sheet, u.df⟩) rfl, hlast, hrest,
        edit_eq (set_self _ _ _), set_set]
      dsimp only
      rw [hsame, hn]
    · rw [hquiet.2]
      rfl
  · show d.StandsFor I ([] ++ ks) _
    rw [← List.append_nil ([] ++ ks)]
    refine StandsFor.of_detour d _ ⟨trivial, rfl, hquiet.1.symm⟩ ⟨hfit, hrun, htrace⟩
      ⟨trivial, ?_, hquiet.2.symm⟩
    show patch _ _ _ _ = _
    rw [hlast, hrest, hn, ← hsame, hnil]
    simp [SymbolicFrame.retouch]

/-- An insertion and a formula for the column. -/
theorem merge_insert (h : Pair I d older ks newer)
    (ho : older.body = .addColumn t id header index value reads) {header' : Header}
    {value' : String} {reads' : List ColumnId}
    (hn : newer.body = .setFormula u id header' value' reads') (hsheet : t.sheet = u.sheet)
    (hreads : id ∉ reads') :
    d.StandsFor I
      (⟨older.step, .addColumn t id header index (some value') reads'⟩ :: ks)
      (older :: ks ++ [newer]) := by
  have ht : older.body.columnTarget? = some t := by rw [ho]; rfl
  have hu : newer.body.columnTarget? = some u := by rw [hn]; rfl
  have hid : id ∈ older.body.editedIds := by rw [ho]; exact List.mem_singleton_self _
  obtain ⟨x, c, hx, rfl, rfl, hfirst, hp, hpatch, hvalues⟩ := h.inserted ho
  obtain ⟨hname, hr, hm⟩ := (fits_column ht hx).mp h.fitsOlder
  rw [ho] at hr hm
  let e : SymbolicColumn τ :=
    ⟨c.id, c.header, I.value value' (reads'.map (Machine.valueOf? x.frame))⟩
  obtain ⟨hfit, hrun, htrace, hplast⟩ := h.patched_value (e := e) ht hu hsheet hid
    (by rw [hn]; exact List.mem_singleton_self _)
    (hp (some e) fun k hk => by cases hk; exact ⟨rfl, rfl⟩) rfl
  obtain ⟨y, hy, hpy⟩ := id hplast
  obtain ⟨-, -, hmy⟩ := (fits_column hu (hsheet ▸ hy)).mp h.fitsNewer
  -- what the formula reads has not changed since the insertion
  have hkept : reads'.map (Machine.valueOf? y.frame) = reads'.map (Machine.valueOf? x.frame) := by
    obtain ⟨y', hy', -, hv, -⟩ := kept_run h.first_tidy_keyed.1 h.fitsBetween
      (h.spares_older ht hid) hfirst
    obtain rfl : y' = y := Option.some.inj (hy'.symm.trans hy)
    refine List.map_congr_left fun j hj => ?_
    rw [hv j fun k hk is his => ?_]
    · exact hvalues j fun he => hreads (he ▸ hj)
    · refine Footprint.not_mem_of_clear (h.clearNewer k hk) his ?_ hj
      rw [hn, ChunkBody.reads_setFormula, hsheet, Dictionary.get?_cons, if_pos rfl]
  show d.StandsFor I ([_] ++ ks) _
  rw [← List.append_nil ([_] ++ ks)]
  refine StandsFor.of_detour _ _ ⟨⟨?_, trivial⟩, ?_, ?_⟩ ⟨hfit, hrun, htrace⟩ ⟨trivial, ?_, ?_⟩
  · exact (fits_column (t := t) rfl hx).mpr ⟨hname, hr, hm⟩
  · rw [run_singleton, step_column (t := t) rfl, edit_eq hx, hpatch]
    simp [SymbolicFrame.retouch, e]
  · rw [effects_column ht]
    rfl
  · show patch _ _ _ _ = _
    rw [step_column hu, ← hsheet, edit_eq hy, patch, edit_eq hy, hn]
    rw [hn] at hmy
    obtain ⟨k, hk, hkid, rfl⟩ := hmy
    obtain rfl := SymbolicFrame.eq_of_id (h.last_tidy_keyed.2 hy) hk hpy.mem hkid
    simp only [SymbolicFrame.retouch]
    rw [hkept, SymbolicFrame.onHeader_eq_patch (h.last_tidy_keyed.2 hy)
      (h.last_tidy_keyed.1.headers hy) hk]
  · rw [effects_column hu]
    rfl

end Insert

/-! ### A renamed column -/

/-- Two renamings of a column. -/
theorem merge_renames (h : Pair I d older ks newer) {id : ColumnId}
    {old mid mid' new : Header} (ho : older.body = .renameColumn t id old mid)
    (hn : newer.body = .renameColumn u id mid' new) (hsheet : t.sheet = u.sheet) :
    (old ≠ new → d.StandsFor I (⟨older.step, .renameColumn t id old new⟩ :: ks)
        (older :: ks ++ [newer]))
      ∧ (old = new → d.StandsFor I ks (older :: ks ++ [newer])) := by
  have ht : older.body.columnTarget? = some t := by rw [ho]; rfl
  have hu : newer.body.columnTarget? = some u := by rw [hn]; rfl
  have hid : id ∈ older.body.editedIds := by rw [ho]; exact List.mem_singleton_self _
  obtain ⟨x, hx, -⟩ := (runs_column ht d).mp h.fitsOlder.1
  obtain ⟨hname, hr, hm⟩ := (fits_column ht hx).mp h.fitsOlder
  rw [ho] at hr hm
  obtain ⟨c, hc, rfl, rfl⟩ := hm
  have hfirst : (d.step I older.body) t.sheet = some { x with
      frame := SymbolicFrame.patch c.id (some { c with header := mid }) x.frame } := by
    rw [step_column ht, edit_self hx, ho, SymbolicFrame.retouch,
      SymbolicFrame.onHeader_eq_patch (h.keyed hx) (h.tidy.headers hx) hc]
  have hmem : { c with header := mid }
      ∈ SymbolicFrame.patch c.id (some { c with header := mid }) x.frame := by
    rw [SymbolicFrame.patch_some]
    exact List.mem_map.mpr ⟨c, hc, by simp⟩
  have hbinds : .header t.sheet new ∈ newer.body.footprint.binds := by
    rw [hn, hsheet]
    exact (ChunkBody.binds_renameColumn ..).2
  obtain ⟨y, hy, -, -, hheaders⟩ := kept_run h.first_tidy_keyed.1 h.fitsBetween
    (h.spares_older ht hid) hfirst
  obtain ⟨-, hry, hmy⟩ := (fits_column hu (hsheet ▸ hy)).mp h.fitsNewer
  rw [hn] at hry hmy
  -- the last header is free in the end, and so it was all the time
  have hfree : new ∉ SymbolicFrame.headers
      (SymbolicFrame.patch c.id (some { c with header := mid }) x.frame) := fun hin =>
    hry.2 (hheaders new
      (fun k hk => Footprint.not_mem_binds_of_clear (h.clearNewer k hk) (.inl hbinds)) hin)
  have hp : (d.step I older.body).Patchable t.sheet { c with header := mid }
      (some { c with header := new }) :=
    ⟨_, hfirst, hmem, fun e he => by cases he; rfl, fun e he => by cases he; exact .inr hfree⟩
  obtain ⟨hfit, hrun, htrace, hplast⟩ := h.patched (c := { c with header := mid }) ht hu
    hsheet hid (by rw [hn]; exact List.mem_singleton_self _) hp
    (fun hr => by cases hr) fun e he _ => by cases he; exact hbinds
  have hpatch : (d.step I older.body).patch t.sheet { c with header := mid }
        (some { c with header := new })
      = d.set t.sheet (some { x with
          frame := SymbolicFrame.patch c.id (some { c with header := new }) x.frame }) := by
    rw [patch, edit_eq hfirst, step_column ht, edit, set_set]
    dsimp only
    rw [SymbolicFrame.patch_patch (e := { c with header := mid }) rfl]
  have hlast : (last I d older ks).patch t.sheet { c with header := mid }
      (some { c with header := new }) = (last I d older ks).step I newer.body := by
    obtain ⟨y', hy', hpy⟩ := hplast
    obtain rfl : y' = y := Option.some.inj (hy'.symm.trans hy)
    obtain ⟨k, hk, hkid, rfl⟩ := hmy
    obtain rfl := SymbolicFrame.eq_of_id (h.last_tidy_keyed.2 hy) hk hpy.mem hkid
    rw [step_column hu, ← hsheet, edit_eq hy, patch, edit_eq hy, hn]
    simp only [SymbolicFrame.retouch]
    rw [SymbolicFrame.onHeader_eq_patch (h.last_tidy_keyed.2 hy)
      (h.last_tidy_keyed.1.headers hy) hk]
  have hquiet : d.effects I older.body = [] ∧ (last I d older ks).effects I newer.body = [] :=
    ⟨effects_column ht I d, effects_column hu I _⟩
  refine ⟨fun hne => ?_, fun heq => ?_⟩
  · show d.StandsFor I ([_] ++ ks) _
    rw [← List.append_nil ([_] ++ ks)]
    refine StandsFor.of_detour _ _ ⟨⟨?_, trivial⟩, ?_, hquiet.1.symm⟩ ⟨hfit, hrun, htrace⟩
      ⟨trivial, hlast, hquiet.2.symm⟩
    · refine (fits_column (t := t) rfl hx).mpr ⟨hname, ⟨hr.1, fun hin => hfree ?_⟩, c, hc, rfl, rfl⟩
      -- what had the new header before has it still
      obtain ⟨k, hk, rfl⟩ := SymbolicFrame.mem_headers.mp hin
      refine SymbolicFrame.mem_headers.mpr ⟨k, SymbolicFrame.mem_patch_of_ne hk fun hkc => ?_, rfl⟩
      rw [SymbolicFrame.eq_of_id (h.keyed hx) hk hc hkc] at hne
      exact hne rfl
    · rw [run_singleton, step_column (t := t) rfl, edit_eq hx, hpatch]
      simp only [SymbolicFrame.retouch]
      rw [SymbolicFrame.onHeader_eq_patch (h.keyed hx) (h.tidy.headers hx) hc]
  · have hback : (d.step I older.body).patch t.sheet { c with header := mid }
        (some { c with header := new }) = d := by
      subst heq
      rw [hpatch, SymbolicFrame.patch_self (h.keyed hx) hc, ← hx, set_eq]
    rw [hback] at hfit hrun htrace
    show d.StandsFor I ([] ++ ks) _
    rw [← List.append_nil ([] ++ ks)]
    exact StandsFor.of_detour d _ ⟨trivial, rfl, hquiet.1.symm⟩ ⟨hfit, hrun, htrace⟩
      ⟨trivial, hlast, hquiet.2.symm⟩

/-! ### Whole sheets -/

section Sheet

variable {s : SheetId} {old mid mid' new : String}

/-- The chunks between do not notice a table on a sheet that the newer chunk writes, if
  its name is that of the table there or one that the pair binds. -/
theorem settled (h : Pair I d older ks newer)
    (hs : Dictionary.get? newer.body.footprint.effectiveWrites s = some .all)
    {y : Option (Table τ)}
    (hy : ∀ x, y = some x → (∃ x₀, d.step I older.body s = some x₀ ∧ x₀.name = x.name)
      ∨ .variable x.name ∈ older.body.footprint.binds
      ∨ .variable x.name ∈ newer.body.footprint.binds) :
    ((d.step I older.body).set s y).AllFit I ks
      ∧ ((d.step I older.body).set s y).run I ks = (last I d older ks).set s y
      ∧ ((d.step I older.body).set s y).trace I ks = (d.step I older.body).trace I ks
      ∧ last I d older ks s = d.step I older.body s := by
  refine run_set h.fitsBetween
    (fun k hk => Footprint.avoids_of_clear (h.clearNewer k hk) hs) fun x hx => ?_
  rcases hy x hx with hsame | hbind | hbind
  · exact .inl hsame
  · exact .inr fun k hk => Footprint.not_mem_binds_of_clear (h.clearOlder k hk) (.inl hbind)
  · exact .inr fun k hk => Footprint.not_mem_binds_of_clear (h.clearNewer k hk) (.inl hbind)

/-- Two renamings of a sheet. -/
theorem merge_sheetRenames (h : Pair I d older ks newer)
    (ho : older.body = .renameSheet s old mid) (hn : newer.body = .renameSheet s mid' new) :
    (old ≠ new → d.StandsFor I (⟨older.step, .renameSheet s old new⟩ :: ks)
        (older :: ks ++ [newer]))
      ∧ (old = new → d.StandsFor I ks (older :: ks ++ [newer])) := by
  have hr := h.fitsOlder.1
  have hrn := h.fitsNewer.1
  rw [ho] at hr
  rw [hn] at hrn
  obtain ⟨⟨x, hx, rfl⟩, -⟩ := hr
  obtain ⟨-, hfree⟩ := hrn
  have hfirst : d.step I older.body = d.set s (some { x with name := mid }) := by
    rw [ho]
    simp [step, hx]
  have hbinds : .variable new ∈ newer.body.footprint.binds := by
    rw [hn]
    exact (ChunkBody.binds_renameSheet ..).2
  -- the chunks between do the same where the sheet has its last name already
  obtain ⟨hfit, hrun, htrace, hlast⟩ := h.settled (y := some { x with name := new })
    (by rw [hn]; exact ChunkBody.get?_writes_renameSheet ..)
    fun z hz => by cases hz; exact .inr (.inr hbinds)
  rw [hfirst, set_set] at hfit hrun htrace
  have hend : (last I d older ks).set s (some { x with name := new })
      = (last I d older ks).step I newer.body := by
    rw [hfirst, set_self] at hlast
    rw [hn]
    simp only [step]
    rw [hlast]
    rfl
  have hquiet : d.effects I older.body = [] ∧ (last I d older ks).effects I newer.body = [] := by
    rw [ho, hn]
    exact ⟨rfl, rfl⟩
  rw [← hfirst] at htrace
  refine ⟨fun hne => ?_, fun heq => ?_⟩
  · -- the last name is free in the end, and so it was all the time
    have hfree₁ : (d.step I older.body).Free new := Free.of_run h.fitsBetween
      (fun k hk => Footprint.not_mem_binds_of_clear (h.clearNewer k hk) (.inl hbinds)) hfree
    have hfree₀ : d.Free new := by
      intro t z hz
      by_cases hts : t = s
      · rw [hts, hx] at hz
        cases hz
        exact hne
      · exact hfree₁ t z (by rw [hfirst, d.set_ne _ hts, hz])
    show d.StandsFor I ([_] ++ ks) _
    rw [← List.append_nil ([_] ++ ks)]
    refine StandsFor.of_detour _ _ ⟨⟨⟨⟨⟨x, hx, rfl⟩, hfree₀⟩, ?_⟩, trivial⟩, ?_, hquiet.1.symm⟩
      ⟨hfit, hrun, ?_⟩ ⟨trivial, hend, hquiet.2.symm⟩
    · exact fun _ ht => by cases ht
    · rw [run_singleton]
      simp [step, hx]
    · rw [htrace]
  · have hback : d.set s (some { x with name := new }) = d := by
      rw [← heq, ← hx, set_eq]
    rw [hback] at hfit hrun htrace
    show d.StandsFor I ([] ++ ks) _
    rw [← List.append_nil ([] ++ ks)]
    exact StandsFor.of_detour d _ ⟨trivial, rfl, hquiet.1.symm⟩ ⟨hfit, hrun, htrace⟩
      ⟨trivial, hend, hquiet.2.symm⟩

/-- A renaming of a sheet that is deleted. -/
theorem drop_renamed (h : Pair I d older ks newer)
    (ho : older.body = .renameSheet u.sheet old mid) (hn : newer.body = .deleteSheet u) :
    d.StandsFor I (ks ++ [⟨newer.step, .deleteSheet ⟨u.sheet, old⟩⟩])
      (older :: ks ++ [newer]) := by
  have hr := h.fitsOlder.1
  rw [ho] at hr
  obtain ⟨⟨x, hx, rfl⟩, -⟩ := hr
  have hfirst : d.step I older.body = d.set u.sheet (some { x with name := mid }) := by
    rw [ho]
    simp [step, hx]
  obtain ⟨hfit, hrun, htrace, -⟩ := h.settled (y := some x)
    (by rw [hn]; exact ChunkBody.get?_writes_deleteSheet u)
    fun z hz => by cases hz; rw [ho]; exact .inr (.inl (ChunkBody.binds_renameSheet ..).1)
  have hback : (d.step I older.body).set u.sheet (some x) = d := by
    rw [hfirst, set_set, ← hx, set_eq]
  rw [hback] at hfit hrun htrace
  show d.StandsFor I ([] ++ ks ++ [_]) _
  refine StandsFor.of_detour d _ ⟨trivial, rfl, by rw [ho]; rfl⟩ ⟨hfit, hrun, htrace⟩
    ⟨⟨⟨⟨x, set_self _ _ _, rfl⟩, ?_⟩, trivial⟩, ?_, by rw [hn]; rfl⟩
  · exact fun _ ht => by cases ht
  · rw [run_singleton, hn]
    exact set_set _ _ _ _

/-- An edit of a sheet that is deleted; with the edit that created it, the deletion goes,
  too. -/
theorem drop_deleted (h : Pair I d older ks newer) (hn : newer.body = .deleteSheet u)
    (hdrop : older.body.isDroppable = true) (htouch : older.body.footprint.touched = [u.sheet])
    (hren : ∀ old new, older.body ≠ .renameSheet u.sheet old new) :
    (u.sheet ∈ older.body.footprint.creates → d.StandsFor I ks (older :: ks ++ [newer]))
      ∧ (u.sheet ∉ older.body.footprint.creates →
        d.StandsFor I (ks ++ [newer]) (older :: ks ++ [newer])) := by
  have hback : (d.step I older.body).set u.sheet (d u.sheet) = d := by
    funext t
    by_cases ht : t = u.sheet
    · rw [ht, set_self]
    · rw [set_ne _ _ ht, step_untouched h.fitsOlder htouch ht]
  have hwrites : Dictionary.get? newer.body.footprint.effectiveWrites u.sheet = some .all := by
    rw [hn]
    exact ChunkBody.get?_writes_deleteSheet u
  have hquiet : d.effects I older.body = [] := by
    cases hb : older.body with
    | block b => simp_all [ChunkBody.isDroppable, effects]
    | _ => rfl
  have hrn := h.fitsNewer.1
  rw [hn] at hrn
  obtain ⟨x, hx, hname⟩ := hrn
  have hend : (last I d older ks).step I newer.body = (last I d older ks).set u.sheet none := by
    rw [hn]
    rfl
  refine ⟨fun hc => ?_, fun hc => ?_⟩
  · have hnone := eq_none_of_created h.fitsOlder hc
    obtain ⟨hfit, hrun, htrace, -⟩ := h.settled (y := none) hwrites fun _ hy => by cases hy
    rw [← hnone, hback] at hfit hrun htrace
    show d.StandsFor I ([] ++ ks) _
    rw [← List.append_nil ([] ++ ks)]
    refine StandsFor.of_detour d _ ⟨trivial, rfl, hquiet.symm⟩ ⟨hfit, hrun, htrace⟩
      ⟨trivial, ?_, by rw [hn]; rfl⟩
    rw [hend, ← hnone]
    rfl
  · obtain ⟨-, -, -, hlast⟩ := h.settled (y := none) hwrites fun _ hy => by cases hy
    have hfirst := hlast.symm.trans hx
    -- the sheet had its name already before the edit
    obtain ⟨x₀, hx₀, hname₀⟩ := name_of_step h.fitsOlder htouch hc hren hfirst
    obtain ⟨hfit, hrun, htrace, -⟩ := h.settled (y := some x₀) hwrites fun z hz => by
      cases hz
      exact .inl ⟨x, hfirst, hname₀.symm⟩
    rw [← hx₀, hback] at hfit hrun htrace
    show d.StandsFor I ([] ++ ks ++ [newer]) _
    refine StandsFor.of_detour d _ ⟨trivial, rfl, hquiet.symm⟩ ⟨hfit, hrun, htrace⟩
      ⟨⟨?_, trivial⟩, ?_, by simp [Desk.trace, hn, effects]⟩
    · rw [hn]
      exact ⟨⟨x₀, by rw [set_self, hx₀], hname₀.trans hname⟩, fun _ ht => by cases ht⟩
    · rw [run_singleton, hend, hn]
      exact set_set _ _ _ _

end Sheet

end Pair

end SheetScript.Symbolic.Desk
