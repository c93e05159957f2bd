import SheetScript.Proofs.Desk.Invariants

/-! # Chunks that act elsewhere

  A chunk that bypasses a sheet neither edits nor copies it.  Whatever table lies
  there, such a chunk does the same on the rest of the desk, as long as it does not
  take the name of that table.

  - `Desk.step_set`: putting a table down and running the chunk change places.
  - `Desk.Fits.set`: the chunk still fits.
-/

namespace SheetScript

/-- Whether a chunk neither edits nor copies a sheet. -/
def ChunkBody.Bypasses (b : ChunkBody) (s : SheetId) : Prop :=
  match b with
  | .duplicateSheet source copy => source.sheet ≠ s ∧ copy.sheet ≠ s
  | .deleteSheet t => t.sheet ≠ s
  | .renameSheet t _ _ => t ≠ s
  | .block b => ∀ o ∈ b.outputs, o.sheet ≠ s
  | b => ∀ t, b.columnTarget? = some t → t.sheet ≠ s

namespace Symbolic.Desk

variable {τ : Type} {I : Interpretation τ} {d : Desk τ} {b : ChunkBody} {s : SheetId}

/-- A table that keeps the name that lay there, or has one that the chunk leaves. -/
def Unclaimed (d : Desk τ) (s : SheetId) (b : ChunkBody) (y : Option (Table τ)) : Prop :=
  ∀ x, y = some x → (∃ x₀, d s = some x₀ ∧ x₀.name = x.name) ∨ .variable x.name ∉ b.footprint.binds

theorem bypasses_column {t : Target} (ht : b.columnTarget? = some t) :
    b.Bypasses s ↔ t.sheet ≠ s := by
  cases b <;> simp_all [ChunkBody.columnTarget?, ChunkBody.Bypasses]

/-- A chunk that neither edits columns of a sheet nor bypasses it accesses all of it. -/
theorem reach_cases (hm : d.Matches b) (s : SheetId) :
    (∃ t, b.columnTarget? = some t ∧ t.sheet = s) ∨ b.Bypasses s
      ∨ b.footprint.Accesses s .all := by
  induction b using ChunkBody.kind_cases with
  | column b t ht =>
    by_cases hts : t.sheet = s
    · exact .inl ⟨t, ht, hts⟩
    · exact .inr (.inl ((bypasses_column ht).mpr hts))
  | duplicateSheet source copy =>
    obtain ⟨hsource, hcopy⟩ := ChunkBody.accesses_duplicateSheet source copy
    by_cases hs : source.sheet = s
    · exact .inr (.inr (hs ▸ hsource))
    · by_cases hc : copy.sheet = s
      · exact .inr (.inr (hc ▸ hcopy))
      · exact .inr (.inl ⟨hs, hc⟩)
  | deleteSheet t =>
    by_cases hts : t.sheet = s
    · subst hts
      exact .inr (.inr (.inr (Dictionary.mem_of_get? (ChunkBody.get?_writes_deleteSheet t))))
    · exact .inr (.inl hts)
  | renameSheet u old new =>
    by_cases hus : u = s
    · subst hus
      exact .inr (.inr (.inr (Dictionary.mem_of_get? (ChunkBody.get?_writes_renameSheet u old new))))
    · exact .inr (.inl hus)
  | block b =>
    by_cases h : ∃ o ∈ b.outputs, o.sheet = s
    · obtain ⟨o, ho, rfl⟩ := h
      exact .inr (.inr (ChunkBody.accesses_block.mpr (hm.access o ho)))
    · exact .inr (.inl fun o ho hos => h ⟨o, ho, hos⟩)

/-- A chunk that spares a column edits others of its sheet, or none. -/
theorem bypasses_of_spares {id : ColumnId} (hm : d.Matches b)
    (hs : b.footprint.Spares s id) :
    (∃ t, b.columnTarget? = some t ∧ t.sheet = s) ∨ b.Bypasses s := by
  rcases reach_cases hm s with h | h | h
  · exact .inl h
  · exact .inr h
  · exact absurd h hs.not_all

theorem bypasses_of_avoids (hm : d.Matches b) (hs : b.footprint.Avoids s) :
    b.Bypasses s := by
  rcases bypasses_of_spares hm (hs.spares ⟨""⟩) with ⟨t, ht, rfl⟩ | h
  · exact absurd (.inr (Dictionary.mem_of_get? (ChunkBody.get?_writes_column ht))) (hs _)
  · exact h

/-! ### Putting a table down -/

/-- A chunk leaves the table of a sheet that it bypasses. -/
theorem step_bypassed (hb : b.Bypasses s) : d.step I b s = d s := by
  induction b using ChunkBody.kind_cases with
  | column b t ht =>
    rw [step_column ht]
    exact d.edit_ne _ (Ne.symm ((bypasses_column ht).mp hb))
  | duplicateSheet source copy => exact d.set_ne _ (Ne.symm hb.2)
  | deleteSheet t => exact d.set_ne _ (Ne.symm hb)
  | renameSheet u old new => exact d.set_ne _ (Ne.symm hb)
  | block b => exact step_block_ne hb

/-- What a block sees, if it sees no other table. -/
theorem seen_set {b : Block} {y : Option (Table τ)} (hs : b.footprint.Avoids s) :
    (d.set s y).seen I b = d.seen I b := by
  have hsights : ∀ a : ColumnAccess, (∀ c, (s, c) ∉ a) → (d.set s y).sights a = d.sights a := by
    intro a ha
    refine List.map_congr_left fun e he => ?_
    have hne : e.1 ≠ s := fun hes => ha e.2 (hes ▸ he)
    rw [d.set_ne _ hne]
  unfold seen
  rw [hsights _ fun c hc => hs c (.inl hc), hsights _ fun c hc => ?_]
  rcases Footprint.accesses_of_mem_writes hc with h | h
  · exact hs _ h
  · exact hs _ h

/-- Putting a table down and running a chunk elsewhere change places. -/
theorem step_set {y : Option (Table τ)} (hb : b.Bypasses s)
    (hseen : ∀ k, b = .block k → (d.set s y).seen I k = d.seen I k) :
    (d.set s y).step I b = (d.step I b).set s y := by
  induction b using ChunkBody.kind_cases with
  | column b t ht =>
    have hts := (bypasses_column ht).mp hb
    rw [step_column ht, step_column ht, edit, edit, d.set_ne _ hts, d.set_comm (Ne.symm hts)]
  | duplicateSheet source copy =>
    obtain ⟨hsource, hcopy⟩ := hb
    simp only [step]
    rw [d.set_ne _ hsource, d.set_comm (Ne.symm hcopy)]
  | deleteSheet t => exact d.set_comm (Ne.symm hb) _ _
  | renameSheet u old new =>
    simp only [step]
    rw [d.set_ne _ hb, d.set_comm (Ne.symm hb)]
  | block b =>
    funext u
    by_cases hu : u = s
    · subst hu
      rw [step_block_ne hb, set_self, set_self]
    · rw [set_ne _ _ hu]
      simp only [step]
      cases ho : b.outputs.find? fun o => o.sheet = u with
      | none => exact d.set_ne _ hu
      | some o =>
        -- a sheet is written from what the block saw and what lay there, both the same
        have hne : o.sheet ≠ s := hb o (List.mem_of_find?_eq_some ho)
        simp only [output, hseen b rfl, d.set_ne _ hne]

theorem effects_set {y : Option (Table τ)}
    (hseen : ∀ k, b = .block k → (d.set s y).seen I k = d.seen I k) :
    (d.set s y).effects I b = d.effects I b := by
  cases b with
  | block k => simp only [effects, hseen k rfl]
  | _ => rfl

/-! ### Chunks that still fit -/

theorem Free.set {n : String} {y : Option (Table τ)} (hn : d.Free n) (hy : d.Unclaimed s b y)
    (hb : .variable n ∈ b.footprint.binds) : (d.set s y).Free n := by
  intro t x hx
  obtain ⟨-, hx⟩ | ⟨-, hx⟩ := set_eq_some.mp hx
  · rcases hy x hx with ⟨x₀, hx₀, hname⟩ | hname
    · rw [← hname]
      exact hn s x₀ hx₀
    · rintro rfl
      exact hname hb
  · exact hn t x hx

theorem Reserved.set {n : String} {u : SheetId} {y : Option (Table τ)} (hn : d.Reserved n u)
    (hy : d.Unclaimed s b y) (hb : .variable n ∈ b.footprint.binds) (hu : u ≠ s) :
    (d.set s y).Reserved n u := by
  intro t x hx
  obtain ⟨rfl, hyx⟩ | ⟨-, hx⟩ := set_eq_some.mp hx
  · refine ⟨fun h => absurd h.symm hu, fun h => ?_⟩
    rcases hy x hyx with ⟨x₀, hx₀, hname⟩ | hname
    · exact (hn t x₀ hx₀).mpr (hname.trans h)
    · exact absurd (h ▸ hb) hname
  · exact hn t x hx

/-- A chunk runs whatever lies on a sheet that it bypasses. -/
theorem Runs.set {y : Option (Table τ)} (hr : d.Runs b) (hb : b.Bypasses s)
    (hy : d.Unclaimed s b y) : (d.set s y).Runs b := by
  induction b using ChunkBody.kind_cases with
  | column b t ht =>
    rw [runs_column ht, d.set_ne _ ((bypasses_column ht).mp hb)]
    exact (runs_column ht d).mp hr
  | duplicateSheet source copy =>
    obtain ⟨hx, hnone, hfree⟩ := hr
    refine ⟨?_, ?_, hfree.set hy (ChunkBody.binds_duplicateSheet source copy)⟩
    · rwa [d.set_ne _ hb.1]
    · rwa [d.set_ne _ hb.2]
  | deleteSheet t =>
    obtain ⟨x, hx, hn⟩ := hr
    exact ⟨x, by rwa [d.set_ne _ hb], hn⟩
  | renameSheet u old new =>
    obtain ⟨hx, hfree⟩ := hr
    refine ⟨?_, hfree.set hy (ChunkBody.binds_renameSheet u old new).2⟩
    rwa [d.set_ne _ hb]
  | block b =>
    exact ⟨hr.deletes, hr.sheets, hr.names, hr.headers, fun o ho =>
      (hr.reserved o ho).set hy (ChunkBody.binds_block ho) (hb o ho)⟩

/-- A chunk still means the right columns. -/
theorem Matches.set {y : Option (Table τ)} (hm : d.Matches b) (hb : b.Bypasses s) :
    (d.set s y).Matches b := by
  induction b using ChunkBody.kind_cases with
  | column b t ht =>
    rw [matches_column ht, d.set_ne _ ((bypasses_column ht).mp hb)]
    exact (matches_column ht d).mp hm
  | duplicateSheet | deleteSheet | renameSheet => exact fun _ ht => by cases ht
  | block b =>
    refine ⟨hm.ids, hm.access, hm.touches, ?_, ?_⟩
    · intro t ht
      obtain ⟨hnone, o, ho, rfl⟩ := hm.created t ht
      exact ⟨by rwa [d.set_ne _ (hb o ho)], o, ho, rfl⟩
    · intro o ho hc
      rw [d.set_ne _ (hb o ho)]
      exact hm.kept o ho hc

/-! ### Chunks that change one sheet -/

theorem touched_column {t : Target} (ht : b.columnTarget? = some t) :
    b.footprint.touched = [t.sheet] := by
  simp [Footprint.touched, ChunkBody.writes_column ht]

/-- A chunk leaves the sheets that it is not declared to touch. -/
theorem step_of_not_touched (hm : d.Matches b) {u : SheetId} (hu : u ∉ b.footprint.touched) :
    d.step I b u = d u := by
  induction b using ChunkBody.kind_cases with
  | column b t ht =>
    rw [touched_column ht, List.mem_singleton] at hu
    rw [step_column ht]
    exact d.edit_ne _ hu
  | duplicateSheet source copy =>
    rw [ChunkBody.touched_duplicateSheet, List.mem_singleton] at hu
    exact d.set_ne _ hu
  | deleteSheet t =>
    rw [ChunkBody.touched_deleteSheet, List.mem_singleton] at hu
    exact d.set_ne _ hu
  | renameSheet v old new =>
    rw [ChunkBody.touched_renameSheet, List.mem_singleton] at hu
    exact d.set_ne _ hu
  | block b =>
    rw [ChunkBody.touched_block] at hu
    exact step_block_ne fun o ho hou => hu (hou ▸ hm.touches o ho)

/-- A chunk that changes one sheet leaves the others. -/
theorem step_untouched (hf : d.Fits b) (hb : b.footprint.touched = [s]) {u : SheetId}
    (hu : u ≠ s) : d.step I b u = d u :=
  step_of_not_touched hf.2 (by rwa [hb, List.mem_singleton])

/-- What a chunk creates was not there before. -/
theorem eq_none_of_created (hf : d.Fits b) (hs : s ∈ b.footprint.creates) : d s = none := by
  obtain ⟨hr, hm⟩ := hf
  induction b using ChunkBody.kind_cases with
  | column b t ht =>
    rw [ChunkBody.creates_column ht] at hs
    cases hs
  | duplicateSheet source copy =>
    rw [ChunkBody.creates_duplicateSheet, List.mem_singleton] at hs
    rw [hs]
    exact hr.2.1
  | deleteSheet t =>
    rw [ChunkBody.creates_deleteSheet] at hs
    cases hs
  | renameSheet v old new =>
    rw [ChunkBody.creates_renameSheet] at hs
    cases hs
  | block b =>
    rw [ChunkBody.creates_block] at hs
    exact (hm.created s hs).1

/-- Unless it renames the sheet, a chunk leaves the name of what it did not create. -/
theorem name_of_step (hf : d.Fits b) (hb : b.footprint.touched = [s])
    (hs : s ∉ b.footprint.creates) (hren : ∀ old new, b ≠ .renameSheet s old new) {x : Table τ}
    (hx : d.step I b s = some x) : ∃ x₀, d s = some x₀ ∧ x₀.name = x.name := by
  obtain ⟨hr, hm⟩ := hf
  induction b using ChunkBody.kind_cases with
  | column b t ht =>
    rw [touched_column ht] at hb
    cases hb
    obtain ⟨x₀, hx₀, -⟩ := (runs_column ht d).mp hr
    rw [step_column ht, edit_self hx₀] at hx
    exact ⟨x₀, hx₀, by rw [← Option.some.inj hx]⟩
  | duplicateSheet source copy =>
    rw [ChunkBody.touched_duplicateSheet] at hb
    cases hb
    exact absurd (by simp [ChunkBody.creates_duplicateSheet]) hs
  | deleteSheet t =>
    rw [ChunkBody.touched_deleteSheet] at hb
    cases hb
    simp [step] at hx
  | renameSheet v old new =>
    rw [ChunkBody.touched_renameSheet] at hb
    cases hb
    exact absurd rfl (hren old new)
  | block b =>
    obtain ⟨o, ho, rfl, rfl⟩ | ⟨-, hx⟩ := step_block_cases hr.sheets hx
    · -- the sheet was there, and its old name is the one reserved for it
      rw [ChunkBody.creates_block] at hs
      obtain ⟨x₀, hx₀⟩ := Option.isSome_iff_exists.mp (hm.kept o ho hs)
      exact ⟨x₀, hx₀, (hr.reserved o ho _ x₀ hx₀).mp rfl⟩
    · exact ⟨x, hx, rfl⟩

/-! ### Lists of chunks -/

/-- A table put down on a sheet that chunks avoid stays there, and the chunks do not
  notice. -/
theorem run_set {ks : List Chunk} {y : Option (Table τ)} (hf : d.AllFit I ks)
    (hs : ∀ k ∈ ks, k.body.footprint.Avoids s)
    (hy : ∀ x, y = some x → (∃ x₀, d s = some x₀ ∧ x₀.name = x.name)
      ∨ ∀ k ∈ ks, .variable x.name ∉ k.body.footprint.binds) :
    (d.set s y).AllFit I ks ∧ (d.set s y).run I ks = (d.run I ks).set s y
      ∧ (d.set s y).trace I ks = d.trace I ks ∧ d.run I ks s = d s := by
  induction ks generalizing d with
  | nil => exact ⟨trivial, rfl, rfl, rfl⟩
  | cons k rest ih =>
    obtain ⟨hk, hrest⟩ := hf
    have hsk := hs k List.mem_cons_self
    have hby := bypasses_of_avoids hk.2 hsk
    have hseen : ∀ j, k.body = .block j → (d.set s y).seen I j = d.seen I j := by
      intro j hj
      rw [hj] at hsk
      exact seen_set fun c hc => hsk c (ChunkBody.accesses_block.mpr hc)
    have hstep := step_set (I := I) hby hseen
    have hself := step_bypassed (I := I) (d := d) hby
    -- the name is claimed neither by this chunk nor, for the induction, by the rest
    have hunclaimed : d.Unclaimed s k.body y := by
      intro x hx
      rcases hy x hx with h | h
      · exact .inl h
      · exact .inr (h k List.mem_cons_self)
    obtain ⟨hfit, hrun, htrace, hlast⟩ := ih hrest (fun j hj => hs j (List.mem_cons_of_mem _ hj))
      (by
        intro x hx
        rw [hself]
        rcases hy x hx with h | h
        · exact .inl h
        · exact .inr fun j hj => h j (List.mem_cons_of_mem _ hj))
    refine ⟨⟨⟨hk.1.set hby hunclaimed, hk.2.set hby⟩, ?_⟩, ?_, ?_, ?_⟩
    · rw [hstep]
      exact hfit
    · show ((d.set s y).step I k.body).run I rest = _
      rw [hstep, hrun]
      rfl
    · rw [trace, trace, hstep, htrace, effects_set hseen]
    · show (d.step I k.body).run I rest s = _
      rw [hlast, hself]

/-- A name that chunks do not bind stays in use. -/
theorem name_kept {n : String} {x : Table τ} (hf : d.Fits b)
    (hn : .variable n ∉ b.footprint.binds) (hx : d s = some x) (hxn : x.name = n) :
    ∃ x', d.step I b s = some x' ∧ x'.name = n := by
  subst hxn
  obtain ⟨hr, hm⟩ := hf
  by_cases hby : b.Bypasses s
  · exact ⟨x, (step_bypassed hby).trans hx, rfl⟩
  · -- a chunk that reaches the sheet and takes its name away would bind it
    induction b using ChunkBody.kind_cases with
    | column b t ht =>
      have hts : t.sheet = s := by
        by_contra hne
        exact hby ((bypasses_column ht).mpr hne)
      subst hts
      exact ⟨{ x with frame := SymbolicFrame.retouch I x.frame b },
        by rw [step_column ht, edit_self hx], rfl⟩
    | duplicateSheet source copy =>
      obtain ⟨-, hnone, -⟩ := hr
      have hcopy : copy.sheet ≠ s := by
        rintro rfl
        rw [hx] at hnone
        cases hnone
      exact ⟨x, by simp [step, d.set_ne _ (Ne.symm hcopy), hx], rfl⟩
    | deleteSheet t =>
      obtain ⟨y, hy, hyn⟩ := hr
      have hts : t.sheet = s := by
        by_contra hne
        exact hby hne
      rw [hts, hx] at hy
      cases hy
      exact absurd (hyn ▸ ChunkBody.binds_deleteSheet t) hn
    | renameSheet u old new =>
      obtain ⟨⟨y, hy, hyn⟩, -⟩ := hr
      have hus : u = s := by
        by_contra hne
        exact hby hne
      rw [hus, hx] at hy
      cases hy
      exact absurd (hyn ▸ (ChunkBody.binds_renameSheet u old new).1) hn
    | block b =>
      obtain ⟨o, ho, hos⟩ : ∃ o ∈ b.outputs, o.sheet = s := by
        by_contra hne
        exact hby fun o ho hos => hne ⟨o, ho, hos⟩
      subst hos
      exact ⟨_, step_block_output hr.sheets ho, ((hr.reserved o ho _ x hx).mp rfl).symm⟩

/-- A name that was in use is not free after chunks that do not bind it. -/
theorem Free.of_run {n : String} {ks : List Chunk} (hf : d.AllFit I ks)
    (hn : ∀ k ∈ ks, .variable n ∉ k.body.footprint.binds) (hfree : (d.run I ks).Free n) :
    d.Free n := by
  induction ks generalizing d with
  | nil => exact hfree
  | cons k rest ih =>
    obtain ⟨hk, hrest⟩ := hf
    intro t x hx hxn
    obtain ⟨x', hx', hxn'⟩ := name_kept (I := I) hk (hn k List.mem_cons_self) hx hxn
    exact ih hrest (fun j hj => hn j (List.mem_cons_of_mem _ hj)) hfree t x' hx' hxn'

end Symbolic.Desk

end SheetScript
