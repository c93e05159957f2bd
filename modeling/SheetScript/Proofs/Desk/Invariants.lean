import SheetScript.Proofs.Desk.Basic

/-! # Tidy desks stay tidy

  A chunk that runs keeps variables apart and headers single; one that fits keeps
  column ids single, too.  The frames of edited columns come first, then whole
  desks.
-/

namespace SheetScript.Symbolic

variable {τ : Type} {I : Interpretation τ}

namespace SymbolicFrame

variable {f : SymbolicFrame τ} {b : ChunkBody}

/-! ### Frames -/

theorem mem_headers {h : Header} : h ∈ headers f ↔ ∃ c ∈ f, c.header = h := by
  simp [headers]

theorem mem_ids {id : ColumnId} : id ∈ ids f ↔ ∃ c ∈ f, c.id = id := by
  simp [ids]

theorem HasColumn.mem_headers {id : ColumnId} {h : Header} (hc : HasColumn f id h) :
    h ∈ headers f := by
  obtain ⟨c, hmem, -, hh⟩ := hc
  exact SymbolicFrame.mem_headers.mpr ⟨c, hmem, hh⟩

/-- A header stands over one column. -/
theorem eq_of_header (hnd : (headers f).Nodup) {c e : SymbolicColumn τ} (hc : c ∈ f) (he : e ∈ f)
    (h : c.header = e.header) : c = e :=
  List.inj_on_of_nodup_map hnd hc he h

/-- An id stands for one column. -/
theorem eq_of_id (hnd : (ids f).Nodup) {c e : SymbolicColumn τ} (hc : c ∈ f) (he : e ∈ f)
    (h : c.id = e.id) : c = e :=
  List.inj_on_of_nodup_map hnd hc he h

theorem headers_onHeader_value (f : SymbolicFrame τ) (h : Header)
    (v : SymbolicColumn τ → τ) :
    headers (Machine.onHeader f h fun c => { c with value := v c }) = headers f := by
  unfold headers Machine.onHeader
  rw [List.map_map]
  refine List.map_congr_left fun c _ => ?_
  by_cases hc : c.header = h <;> simp [hc]

theorem ids_onHeader (f : SymbolicFrame τ) (h : Header)
    {g : SymbolicColumn τ → SymbolicColumn τ} (hg : ∀ c, (g c).id = c.id) :
    ids (Machine.onHeader f h g) = ids f := by
  unfold ids Machine.onHeader
  rw [List.map_map]
  refine List.map_congr_left fun c _ => ?_
  by_cases hc : c.header = h <;> simp [hc, hg]

theorem nodup_insert {α : Type} {l : List α} {a : α} (i : Nat) (hl : l.Nodup) (ha : a ∉ l) :
    (l.take i ++ a :: l.drop i).Nodup := by
  rw [List.nodup_middle, List.nodup_cons, List.take_append_drop]
  exact ⟨ha, hl⟩

theorem headers_nodup_retouch (hr : Runs f b) (hnd : (headers f).Nodup) :
    (headers (retouch I f b)).Nodup := by
  cases b with
  | addColumn t id header index value reads =>
    have h := nodup_insert index hnd hr.1
    simpa [headers, retouch, List.map_take, List.map_drop] using h
  | deleteColumns t is hs => exact hnd.sublist (List.filter_sublist.map _)
  | renameColumn t id old new =>
    have heq : headers (retouch I f (.renameColumn t id old new))
        = (headers f).map fun h => if h = old then new else h := by
      unfold headers retouch Machine.onHeader
      rw [List.map_map, List.map_map]
      refine List.map_congr_left fun c _ => ?_
      by_cases hc : c.header = old <;> simp [hc]
    rw [heq]
    refine List.Nodup.map_on (fun h hh k hk hhk => ?_) hnd
    obtain ⟨-, hnew⟩ := hr
    -- no header was the new one before
    have hh' : h ≠ new := fun he => hnew (he ▸ hh)
    have hk' : k ≠ new := fun he => hnew (he ▸ hk)
    split_ifs at hhk with h₁ h₂ h₂
    · exact h₁.trans h₂.symm
    · exact absurd hhk.symm hk'
    · exact absurd hhk hh'
    · exact hhk
  | setFormula t id header value reads =>
    rw [retouch, headers_onHeader_value f header fun _ => _]
    exact hnd
  | changeType t id header statements =>
    rw [retouch, headers_onHeader_value f header fun c => _]
    exact hnd
  | duplicateSheet | deleteSheet | renameSheet | block => exact hnd

theorem ids_nodup_retouch (hm : Matches f b) (hnd : (ids f).Nodup) :
    (ids (retouch I f b)).Nodup := by
  cases b with
  | addColumn t id header index value reads =>
    have h := nodup_insert index hnd hm
    simpa [ids, retouch, List.map_take, List.map_drop] using h
  | deleteColumns t is hs => exact hnd.sublist (List.filter_sublist.map _)
  | renameColumn t id old new =>
    rw [retouch, ids_onHeader]
    · exact hnd
    · exact fun _ => rfl
  | setFormula t id header value reads =>
    rw [retouch, ids_onHeader]
    · exact hnd
    · exact fun _ => rfl
  | changeType t id header statements =>
    rw [retouch, ids_onHeader]
    · exact hnd
    · exact fun _ => rfl
  | duplicateSheet | deleteSheet | renameSheet | block => exact hnd

end SymbolicFrame

namespace Desk

variable {d : Desk τ} {b : ChunkBody}

/-! ### Desks -/

/-- The table of a sheet after a block. -/
theorem step_block_output {b : Block} {o : BlockOutput}
    (hs : (b.outputs.map BlockOutput.sheet).Nodup) (ho : o ∈ b.outputs) :
    d.step I (.block b) o.sheet = some (d.output I b o) := by
  have hfind : b.outputs.find? (fun p => decide (p.sheet = o.sheet)) = some o := by
    obtain ⟨p, hp⟩ : ∃ p, b.outputs.find? (fun p => decide (p.sheet = o.sheet)) = some p := by
      rw [← Option.isSome_iff_exists, List.find?_isSome]
      exact ⟨o, ho, by simp⟩
    have hsame : p.sheet = o.sheet := by simpa using List.find?_some hp
    rw [hp, List.inj_on_of_nodup_map hs (List.mem_of_find?_eq_some hp) ho hsame]
  simp [step, hfind]

/-- A block leaves the sheets alone that it does not write. -/
theorem step_block_ne {b : Block} {s : SheetId} (hs : ∀ o ∈ b.outputs, o.sheet ≠ s) :
    d.step I (.block b) s = d s := by
  have hfind : b.outputs.find? (fun p => decide (p.sheet = s)) = none := by
    rw [List.find?_eq_none]
    intro o ho
    simpa using hs o ho
  simp [step, hfind]

/-- A table after a block is one that it writes or one from before. -/
theorem step_block_cases {b : Block} {s : SheetId} {x : Table τ}
    (hs : (b.outputs.map BlockOutput.sheet).Nodup) (hx : d.step I (.block b) s = some x) :
    (∃ o ∈ b.outputs, o.sheet = s ∧ x = d.output I b o)
      ∨ (∀ o ∈ b.outputs, o.sheet ≠ s) ∧ d s = some x := by
  by_cases h : ∃ o ∈ b.outputs, o.sheet = s
  · obtain ⟨o, ho, rfl⟩ := h
    rw [step_block_output hs ho] at hx
    exact .inl ⟨o, ho, rfl, (Option.some.inj hx).symm⟩
  · have hne : ∀ o ∈ b.outputs, o.sheet ≠ s := fun o ho he => h ⟨o, ho, he⟩
    rw [step_block_ne hne] at hx
    exact .inr ⟨hne, hx⟩

theorem output_ids (I : Interpretation τ) (d : Desk τ) (b : Block) (o : BlockOutput) :
    SymbolicFrame.ids (d.output I b o).frame = o.columns.map Prod.fst := by
  simp [SymbolicFrame.ids, output, Machine.outputFrame]

theorem output_headers (I : Interpretation τ) (d : Desk τ) (b : Block) (o : BlockOutput) :
    SymbolicFrame.headers (d.output I b o).frame = o.columns.map Prod.snd := by
  simp [SymbolicFrame.headers, output, Machine.outputFrame]

/-- A tidy desk stays so when a sheet gets a name that no other one has. -/
theorem Tidy.set (hd : d.Tidy) {s : SheetId} {n : String} {f : SymbolicFrame τ}
    (hn : ∀ t y, d t = some y → t ≠ s → y.name ≠ n) (hh : (SymbolicFrame.headers f).Nodup) :
    (d.set s (some ⟨n, f⟩)).Tidy where
  names := by
    intro t u y z hy hz hname
    obtain ⟨ht, rfl⟩ | ⟨ht, hy⟩ := set_some_eq_some.mp hy <;>
      obtain ⟨hu, rfl⟩ | ⟨hu, hz⟩ := set_some_eq_some.mp hz
    · exact ht.trans hu.symm
    · -- the new name would be that of another sheet, in this case and in the next
      exact absurd hname.symm (hn u z hz hu)
    · exact absurd hname (hn t y hy ht)
    · exact hd.names hy hz hname
  headers := by
    intro t y hy
    obtain ⟨-, rfl⟩ | ⟨-, hy⟩ := set_some_eq_some.mp hy
    · exact hh
    · exact hd.headers hy

/-- A chunk that runs keeps a desk tidy. -/
theorem Runs.tidy (hr : d.Runs b) (hd : d.Tidy) : (d.step I b).Tidy := by
  induction b using ChunkBody.kind_cases with
  | column b t ht =>
    obtain ⟨x, hx, hn, hf⟩ := (runs_column ht d).mp hr
    rw [step_column ht, edit_eq hx]
    exact hd.set (fun u y hy hu he => hu (hd.names hy hx he))
      (SymbolicFrame.headers_nodup_retouch hf (hd.headers hx))
  | duplicateSheet source copy =>
    obtain ⟨⟨x, hx, -⟩, hnone, hfree⟩ := hr
    simp only [step, hx, Option.map_some]
    exact hd.set (fun u y hy _ => hfree u y hy) (hd.headers hx)
  | deleteSheet t =>
    have hold : ∀ {u y}, d.set t.sheet none u = some y → d u = some y := fun hy =>
      (set_none_eq_some.mp hy).2
    exact ⟨fun hy hz => hd.names (hold hy) (hold hz), fun hy => hd.headers (hold hy)⟩
  | renameSheet s old new =>
    obtain ⟨⟨x, hx, -⟩, hfree⟩ := hr
    simp only [step, hx, Option.map_some]
    exact hd.set (fun u y hy _ => hfree u y hy) (hd.headers hx)
  | block b =>
    refine ⟨?_, ?_⟩
    · -- a written table and one from before cannot share a name, which is reserved
      intro t u y z hy hz hname
      obtain ⟨o, ho, rfl, rfl⟩ | ⟨hne, hy⟩ := step_block_cases hr.sheets hy <;>
        obtain ⟨p, hp, rfl, rfl⟩ | ⟨hne', hz⟩ := step_block_cases hr.sheets hz
      · rw [List.inj_on_of_nodup_map hr.names ho hp hname]
      · exact absurd ((hr.reserved o ho u z hz).mpr hname.symm) (Ne.symm (hne' o ho))
      · exact absurd ((hr.reserved p hp t y hy).mpr hname) (Ne.symm (hne p hp))
      · exact hd.names hy hz hname
    · intro t y hy
      obtain ⟨o, ho, rfl, rfl⟩ | ⟨-, hy⟩ := step_block_cases hr.sheets hy
      · rw [output_headers]
        exact hr.headers o ho
      · exact hd.headers hy

theorem Keyed.set (hd : d.Keyed) {s : SheetId} {n : String} {f : SymbolicFrame τ}
    (hf : (SymbolicFrame.ids f).Nodup) : (d.set s (some ⟨n, f⟩)).Keyed := by
  intro t y hy
  obtain ⟨-, rfl⟩ | ⟨-, hy⟩ := set_some_eq_some.mp hy
  · exact hf
  · exact hd hy

/-- A chunk that fits keeps the ids of columns single. -/
theorem Fits.keyed (hf : d.Fits b) (hd : d.Keyed) : (d.step I b).Keyed := by
  obtain ⟨hr, hm⟩ := hf
  induction b using ChunkBody.kind_cases with
  | column b t ht =>
    obtain ⟨x, hx, -, -⟩ := (runs_column ht d).mp hr
    rw [step_column ht, edit_eq hx]
    exact hd.set (SymbolicFrame.ids_nodup_retouch ((matches_column ht d).mp hm x hx) (hd hx))
  | duplicateSheet source copy =>
    obtain ⟨⟨x, hx, -⟩, -⟩ := hr
    simp only [step, hx, Option.map_some]
    exact hd.set (hd hx)
  | deleteSheet t =>
    intro u y hy
    exact hd (set_none_eq_some.mp hy).2
  | renameSheet s old new =>
    obtain ⟨⟨x, hx, -⟩, -⟩ := hr
    simp only [step, hx, Option.map_some]
    exact hd.set (hd hx)
  | block b =>
    intro t y hy
    obtain ⟨o, ho, rfl, rfl⟩ | ⟨-, hy⟩ := step_block_cases hr.sheets hy
    · rw [output_ids]
      exact hm.ids o ho
    · exact hd hy

/-! ### Lists of chunks -/

theorem run_singleton (I : Interpretation τ) (d : Desk τ) (c : Chunk) :
    d.run I [c] = d.step I c.body := rfl

theorem run_append (I : Interpretation τ) (d : Desk τ) (as bs : List Chunk) :
    d.run I (as ++ bs) = (d.run I as).run I bs := List.foldl_append

theorem trace_append (I : Interpretation τ) (d : Desk τ) (as bs : List Chunk) :
    d.trace I (as ++ bs) = d.trace I as ++ (d.run I as).trace I bs := by
  induction as generalizing d with
  | nil => rfl
  | cons a rest ih =>
    rw [List.cons_append, trace, trace, ih, List.append_assoc]
    rfl

theorem allRun_append (as bs : List Chunk) :
    d.AllRun I (as ++ bs) ↔ d.AllRun I as ∧ (d.run I as).AllRun I bs := by
  induction as generalizing d with
  | nil => exact (and_iff_right trivial).symm
  | cons a rest ih =>
    rw [List.cons_append, AllRun, AllRun, ih, and_assoc]
    rfl

theorem allFit_append (as bs : List Chunk) :
    d.AllFit I (as ++ bs) ↔ d.AllFit I as ∧ (d.run I as).AllFit I bs := by
  induction as generalizing d with
  | nil => exact (and_iff_right trivial).symm
  | cons a rest ih =>
    rw [List.cons_append, AllFit, AllFit, ih, and_assoc]
    rfl

theorem AllFit.allRun {ks : List Chunk} (h : d.AllFit I ks) : d.AllRun I ks := by
  induction ks generalizing d with
  | nil => trivial
  | cons k rest ih => exact ⟨h.1.1, ih h.2⟩

/-- Chunks that fit one after the other keep a desk tidy and its columns single. -/
theorem AllFit.tidy_keyed {ks : List Chunk} (h : d.AllFit I ks) (htidy : d.Tidy)
    (hkeyed : d.Keyed) : (d.run I ks).Tidy ∧ (d.run I ks).Keyed := by
  induction ks generalizing d with
  | nil => exact ⟨htidy, hkeyed⟩
  | cons k rest ih => exact ih h.2 (h.1.1.tidy htidy) (h.1.keyed hkeyed)

end Desk

end SheetScript.Symbolic
