import SheetScript.Proofs.State.Basic
import SheetScript.State

/-! # Edits and their code

  The code of an accepted edit does to the desk of the state before what the edit
  does to the state.  Four shapes of edits are told apart: those that emit no
  code, those of single columns, those that rewrite sheets by a block, and those
  that make new sheets.
-/

namespace SheetScript

open Symbolic

/-- Cells that nothing is known about. -/
def Symbolic.Interpretation.blank : Interpretation Unit where
  input _ _ := ()
  value _ _ := ()
  retyped _ _ := ()
  seen _ _ _ := ()
  produced _ _ := ()

/-- Code of at most one chunk that fits one desk and leads to another. -/
inductive Symbolic.Desk.Leads (ids : Prop) (d e : Desk Unit) : List ChunkBody → Prop
  | idle (h : d.Alike ids e) : Leads ids d e []
  | chunk {b : ChunkBody} (h : d.Fits b) (h' : (d.step .blank b).Alike ids e) :
    Leads ids d e [b]

/-- The change leaves a sound state, to which its code leads. -/
structure Change.Follows (ids : Prop) (s : State) (c : Change) : Prop where
  sound : c.state.Sound
  leads : s.desk.Leads ids c.state.desk c.code

/-- The footprint of code that rewrites a sheet: it depends on all of it, and
  neither makes nor deletes sheets. -/
structure Footprint.Rewrites (f : Footprint) (s : SheetId) : Prop where
  creates : f.creates = []
  deletes : f.deletes = []
  access : f.Accesses s .all
  touched : s ∈ f.touched

/-- Whatever is read, code that writes all of a sheet rewrites it. -/
theorem Footprint.rewrites_write {f : Footprint} (s : SheetId) (hwrites : f.writes = [])
    (hcreates : f.creates = []) (hdeletes : f.deletes = []) : (f.write s .all).Rewrites s := by
  have heff : (f.write s .all).effectiveWrites = [(s, .all)] := by
    rw [Footprint.effectiveWrites_eq (f := f.write s .all) hcreates hdeletes]
    simp [Footprint.write, hwrites, ColumnAccess.add, Dictionary.insert]
  refine ⟨hcreates, hdeletes, .inr ?_, ?_⟩
  · simp [heff]
  · simp [Footprint.touched, heff]

namespace Change.Follows

variable {ids : Prop} {s next : State} {i : Nat} {sheet after : Sheet}

/-- An edit that changes nothing of what the script can tell. -/
theorem idle (hnext : next.Sound) (h : next.desk = s.desk) :
    Follows ids s ⟨next, []⟩ := by
  refine ⟨hnext, .idle ?_⟩
  show s.desk.Alike ids next.desk
  rw [h]
  exact Desk.Alike.refl s.desk

theorem none (hs : s.Sound) : Follows ids s (.none s) := idle hs rfl

/-- An edit of single columns. -/
theorem column (hs : s.Sound) (hsheet : s.sheet i = .ok sheet) {b : ChunkBody}
    (ht : b.columnTarget? = some sheet.target) (hid : after.id = sheet.id)
    (hname : after.name = sheet.name) (hafter : after.Sound)
    (hr : SymbolicFrame.Runs sheet.table.frame b) (hm : SymbolicFrame.Matches sheet.table.frame b)
    (hframe : SymbolicFrame.retouch .blank sheet.table.frame b = after.table.frame) :
    Follows ids s (.onSheet s i after [b]) := by
  obtain ⟨hsound, hdesk⟩ := hs.replace hafter hsheet hid (.inl hname)
  have hx : s.desk sheet.target.sheet = some sheet.table := hs.desk_sheet (State.sheet_mem hsheet)
  refine ⟨hsound, .chunk ((Desk.fits_column ht hx).mpr ⟨rfl, hr, hm⟩) ?_⟩
  have htable : { sheet.table with frame := after.table.frame } = after.table := by
    simp [Sheet.table, hname]
  show (s.desk.step .blank b).Alike ids (s.replace i after).desk
  rw [Desk.step_column ht, Desk.edit_eq hx, hframe, hdesk, htable]
  exact Desk.Alike.refl _

/-- A block that leaves some sheets of the next state as they are there. -/
theorem block {b : Block} (outs : List Sheet) (hs : s.Sound) (hnext : next.Sound)
    (hkeep : ∀ sh ∈ s.sheets, ∃ t ∈ next.sheets, t.id = sh.id ∧ t.name = sh.name)
    (hsame : ∀ t, (∀ sh ∈ outs, sh.id ≠ t) → s.desk.AlikeAt ids next.desk t)
    (hsub : outs.Sublist next.sheets) (hout : b.outputs = outs.map Sheet.blockOutput)
    (hdeletes : b.footprint.deletes = [])
    (haccess : ∀ sh ∈ outs, b.footprint.Accesses sh.id .all)
    (htouched : ∀ sh ∈ outs, sh.id ∈ b.footprint.touched)
    (hcreates : ∀ t ∈ b.footprint.creates, s.desk t = Option.none ∧ ∃ sh ∈ outs, sh.id = t)
    (hkept : ∀ sh ∈ outs, sh.id ∉ b.footprint.creates → (s.desk sh.id).isSome) :
    Follows ids s ⟨next, [.block b]⟩ := by
  have hmem : ∀ o ∈ b.outputs, ∃ sh ∈ outs, sh.blockOutput = o := by
    rw [hout]
    exact fun o ho => List.mem_map.mp ho
  have hsound : ∀ sh ∈ outs, sh.Sound := fun sh hsh => hnext.sheets sh (hsub.subset hsh)
  have hsheets : (b.outputs.map BlockOutput.sheet).Nodup := by
    rw [hout, List.map_map]
    exact hnext.ids.sublist (hsub.map Sheet.id)
  have hruns : s.desk.BlockRuns b := by
    refine ⟨hdeletes, hsheets, ?_, ?_, ?_⟩
    · rw [hout, List.map_map]
      exact hnext.names.sublist (hsub.map Sheet.name)
    · intro o ho
      obtain ⟨sh, hsh, rfl⟩ := hmem o ho
      show (sh.idsWithHeaders.map Prod.snd).Nodup
      rw [(hsound sh hsh).outputHeaders]
      exact (hsound sh hsh).headers
    · -- a sheet from before is still there, so its name tells it from the others
      intro o ho t x hx
      obtain ⟨sh, hsh, rfl⟩ := hmem o ho
      obtain ⟨old, hold, rfl, rfl⟩ := hs.desk_eq_some.mp hx
      obtain ⟨new, hnew, hid, hname⟩ := hkeep old hold
      show old.id = sh.id ↔ old.name = sh.name
      rw [← hid, ← hname]
      constructor
      · intro he
        rw [List.inj_on_of_nodup_map hnext.ids hnew (hsub.subset hsh) he]
      · intro he
        rw [List.inj_on_of_nodup_map hnext.names hnew (hsub.subset hsh) he]
  have hmatches : s.desk.BlockMatches b := by
    refine ⟨?_, ?_, ?_, ?_, ?_⟩
    · intro o ho
      obtain ⟨sh, hsh, rfl⟩ := hmem o ho
      show (sh.idsWithHeaders.map Prod.fst).Nodup
      rw [(hsound sh hsh).outputIds]
      exact (hsound sh hsh).columnIds_nodup
    · intro o ho
      obtain ⟨sh, hsh, rfl⟩ := hmem o ho
      exact haccess sh hsh
    · intro o ho
      obtain ⟨sh, hsh, rfl⟩ := hmem o ho
      exact htouched sh hsh
    · intro t ht
      obtain ⟨hnone, sh, hsh, he⟩ := hcreates t ht
      exact ⟨hnone, sh.blockOutput, hout ▸ List.mem_map_of_mem hsh, he⟩
    · intro o ho hc
      obtain ⟨sh, hsh, rfl⟩ := hmem o ho
      exact hkept sh hsh hc
  refine ⟨hnext, .chunk ⟨hruns, hmatches⟩ fun t => ?_⟩
  -- the block writes its outputs and leaves the other sheets alone
  by_cases h : ∃ sh ∈ outs, sh.id = t
  · obtain ⟨sh, hsh, rfl⟩ := h
    have hstep := Desk.step_block_output (I := .blank) (d := s.desk) hsheets
      (hout ▸ List.mem_map_of_mem hsh)
    exact .inr ⟨_, _, hstep, hnext.desk_sheet (hsub.subset hsh), rfl, FramesAlike.of_columns⟩
  · have hne : ∀ sh ∈ outs, sh.id ≠ t := fun sh hsh he => h ⟨sh, hsh, he⟩
    have hstep : s.desk.step .blank (.block b) t = s.desk t := by
      refine Desk.step_block_ne fun o ho => ?_
      obtain ⟨sh, hsh, rfl⟩ := hmem o ho
      exact hne sh hsh
    unfold Desk.AlikeAt
    rw [hstep]
    exact hsame t hne

/-- A block that rewrites a sheet. -/
theorem rewrite {b : Block} (hs : s.Sound) (hsheet : s.sheet i = .ok sheet)
    (hid : after.id = sheet.id) (hname : after.name = sheet.name) (hafter : after.Sound)
    (hout : b.outputs = [after.blockOutput]) (hfoot : b.footprint.Rewrites sheet.id) :
    Follows ids s (.onSheet s i after [.block b]) := by
  obtain ⟨hsound, hdesk⟩ := hs.replace hafter hsheet hid (.inl hname)
  obtain ⟨left, right, heq, hlen⟩ := State.sheet_eq_ok hsheet
  have hset : (s.replace i after).sheets = left ++ after :: right := by
    simp [State.replace, heq, ← hlen]
  have hmem : after ∈ (s.replace i after).sheets := by simp [hset]
  refine block [after] hs hsound ?_ ?_ (List.singleton_sublist.mpr hmem) hout
    hfoot.deletes ?_ ?_ ?_ ?_
  · intro sh hsh
    by_cases he : sh = sheet
    · exact ⟨after, hmem, he ▸ hid, he ▸ hname⟩
    · refine ⟨sh, ?_, rfl, rfl⟩
      rw [heq] at hsh
      rw [hset]
      simp only [List.mem_append, List.mem_cons] at hsh ⊢
      tauto
  · intro t ht
    refine .of_eq ?_
    rw [hdesk, Desk.set_ne _ _ (hid ▸ Ne.symm (ht after List.mem_cons_self))]
  · simpa [hid] using hfoot.access
  · simpa [hid] using hfoot.touched
  · simp [hfoot.creates]
  · simp [hid, hs.desk_sheet (State.sheet_mem hsheet)]

/-- A block that makes new sheets. -/
theorem added {b : Block} (sheets : List Sheet) (hs : s.Sound) (hnext : next.Sound)
    (hsheets : next.sheets = s.sheets ++ sheets)
    (hout : b.outputs = sheets.map Sheet.blockOutput) (hdeletes : b.footprint.deletes = [])
    (hcreates : ∀ t, t ∈ b.footprint.creates ↔ ∃ sh ∈ sheets, sh.id = t) :
    Follows ids s ⟨next, [.block b]⟩ := by
  have hids := hnext.ids
  rw [hsheets, List.map_append, List.nodup_append] at hids
  have hnone : ∀ sh ∈ sheets, s.desk sh.id = Option.none := fun sh hsh =>
    State.deskOf_eq_none fun h => hids.2.2 _ h _ (List.mem_map_of_mem hsh) rfl
  have hwrites : ∀ sh ∈ sheets,
      Dictionary.get? b.footprint.effectiveWrites sh.id = some .all := fun sh hsh => by
    rw [Footprint.get?_effectiveWrites, if_pos]
    exact List.mem_append_left _ ((hcreates sh.id).mpr ⟨sh, hsh, rfl⟩)
  refine block sheets hs hnext ?_ ?_ (hsheets ▸ List.sublist_append_right _ _) hout hdeletes ?_ ?_ ?_ ?_
  · exact fun sh hsh => ⟨sh, by simp [hsheets, hsh], rfl, rfl⟩
  · intro t ht
    refine .of_eq ?_
    unfold State.desk State.deskOf
    rw [hsheets, List.find?_append]
    have hfind : sheets.find? (fun sh => sh.id = t) = Option.none := by
      simpa [List.find?_eq_none] using ht
    rw [hfind, Option.or_none]
  · exact fun sh hsh => .inr (Dictionary.mem_of_get? (hwrites sh hsh))
  · intro sh hsh
    exact Dictionary.get?_isSome_iff.mp (by rw [hwrites sh hsh]; rfl)
  · intro t ht
    obtain ⟨sh, hsh, rfl⟩ := (hcreates t).mp ht
    exact ⟨hnone sh hsh, sh, hsh, rfl⟩
  · exact fun sh hsh hc => absurd ((hcreates sh.id).mpr ⟨sh, hsh, rfl⟩) hc

end Change.Follows

end SheetScript
