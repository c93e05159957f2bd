import SheetScript.Optimizer.Basic
import SheetScript.Proofs.Optimizer.Overlooked
import SheetScript.Proofs.Optimizer.Rules
import SheetScript.Proofs.Steps

/-! # The optimizer keeps what chunks do

  From the rules: whatever the optimizer makes of a list of chunks that fit, after
  any number of passes, fits and leaves the same desk and the same effects.

  - `Desk.StandsFor.rewriteFor`: one pair, by the rule that applies to it.
  - `Desk.StandsFor.rewriteOnce`: one pass.
  - `Desk.StandsFor.shorten`: all passes.

  So shortened chunks of accepted steps leave the variables that the chunks would
  have left, bound to equal frames, with the same effects, under every reading of
  the code in which a block sees no more than it declares.  The chunks of steps fit
  on the desk of the initial state, column by column, as long as ids are reset only
  before the first chunk.  There the shortened chunks stand for them, and a machine
  shows what lies on the desk (`Optimizer.shorten_sound`).
-/

namespace SheetScript.Symbolic.Desk

open Optimizer

variable {τ : Type} {I : Interpretation τ} {d : Desk τ}

namespace StandsFor

/-! ### Parts of lists -/

theorem refl {cs : List Chunk} (h : d.AllFit I cs) : d.StandsFor I cs cs :=
  ⟨h, rfl, rfl⟩

theorem trans {as bs cs : List Chunk} (h : d.StandsFor I as bs)
    (h' : d.StandsFor I bs cs) : d.StandsFor I as cs :=
  ⟨h.fits, h.run.trans h'.run, h.trace.trans h'.trace⟩

/-- What stands for the first chunks of a list can take their place. -/
theorem append {as bs cs : List Chunk} (h : d.StandsFor I as bs)
    (hfit : d.AllFit I (bs ++ cs)) : d.StandsFor I (as ++ cs) (bs ++ cs) := by
  obtain ⟨-, hcs⟩ := (allFit_append bs cs).mp hfit
  refine ⟨(allFit_append as cs).mpr ⟨h.fits, ?_⟩, ?_, ?_⟩
  · rw [h.run]
    exact hcs
  · rw [run_append, run_append, h.run]
  · rw [trace_append, trace_append, h.run, h.trace]

/-- What stands for the later chunks of a list can take their place. -/
theorem cons {c : Chunk} {as bs : List Chunk} (hc : d.Fits c.body)
    (h : (d.step I c.body).StandsFor I as bs) :
    d.StandsFor I (c :: as) (c :: bs) :=
  ⟨⟨hc, h.fits⟩, h.run, congrArg (d.effects I c.body ++ ·) h.trace⟩

/-! ### One pair -/

variable {older newer : Chunk} {ks : List Chunk}

/-- A chunk before the deletion of its sheet. -/
theorem beforeDeletion {u : Target} {r : Rewrite} (h : Pair I d older ks newer)
    (hn : newer.body = .deleteSheet u) (hren : ∀ old new, older.body ≠ .renameSheet u.sheet old new)
    (hr : Optimizer.beforeDeletion older.body u.sheet = some r) :
    d.StandsFor I (r.apply older ks newer) (older :: ks ++ [newer]) := by
  unfold Optimizer.beforeDeletion at hr
  dsimp only at hr
  split at hr
  · next hcond =>
    obtain ⟨hdrop, htouch⟩ := Bool.and_eq_true_iff.mp hcond
    obtain ⟨hboth, holder⟩ := h.drop_deleted hn hdrop (by simpa using htouch) hren
    split at hr
    · next hc =>
      cases hr
      exact hboth hc
    · next hc =>
      cases hr
      exact holder hc
  · cases hr

/-- Whatever rule applies to a pair is sound. -/
theorem rewriteFor {r : Rewrite} (h : Pair I d older ks newer)
    (hr : Optimizer.rewriteFor older.body newer.body = some r) :
    d.StandsFor I (r.apply older ks newer) (older :: ks ++ [newer]) := by
  unfold Optimizer.rewriteFor at hr
  split at hr
  · next t id header value reads u is hs ho hn =>
    -- a formula before the deletion of its column
    split at hr
    · next hdel =>
      cases hr
      simp only [deletes, Bool.and_eq_true, decide_eq_true_iff] at hdel
      exact h.drop_forgotten (by rw [ho]; rfl) (by rw [hn]; rfl) hdel.1.symm
        (by rw [ho]; exact List.mem_singleton_self id) (by rw [hn]; exact hdel.2)
        (ho ▸ SymbolicFrame.paints_setFormula t id header value reads)
        (hn ▸ SymbolicFrame.forgets_deleteColumns u hs hdel.2)
    · cases hr
  · next t id header statements u is hs ho hn =>
    -- a change of type before the deletion of its column
    split at hr
    · next hdel =>
      cases hr
      simp only [deletes, Bool.and_eq_true, decide_eq_true_iff] at hdel
      exact h.drop_forgotten (by rw [ho]; rfl) (by rw [hn]; rfl) hdel.1.symm
        (by rw [ho]; exact List.mem_singleton_self id) (by rw [hn]; exact hdel.2)
        (ho ▸ SymbolicFrame.paints_changeType t id header statements)
        (hn ▸ SymbolicFrame.forgets_deleteColumns u hs hdel.2)
    · cases hr
  · next t id header index value reads u is hs ho hn =>
    -- an insertion and the deletion of the column
    split at hr
    · next hcond =>
      obtain ⟨hleft, hall⟩ := h.cancel_insert ho hn hcond.1 hcond.2 rfl
      simp only [withoutColumn, List.unzip_eq_map] at hr
      split at hr
      · next hnil =>
        cases hr
        exact hall (by simpa using hnil)
      · cases hr
        exact hleft
    · cases hr
  · next t id header index value reads u id' header' value' reads' ho hn =>
    -- an insertion and a formula for the column
    split at hr
    · next hcond =>
      cases hr
      obtain ⟨hsheet, rfl, hreads⟩ := hcond
      exact h.merge_insert ho hn hsheet hreads
    · cases hr
  · next t id header value reads u id' header' value' reads' ho hn =>
    -- a formula before another one
    split at hr
    · next hcond =>
      cases hr
      obtain ⟨hsheet, rfl, hreads⟩ := hcond
      exact h.drop_forgotten (by rw [ho]; rfl) (by rw [hn]; rfl) hsheet
        (by rw [ho]; exact List.mem_singleton_self id)
        (by rw [hn]; exact List.mem_singleton_self id)
        (ho ▸ SymbolicFrame.paints_setFormula t id header value reads)
        (hn ▸ SymbolicFrame.forgets_setFormula u header' value' hreads)
    · cases hr
  · next t id old mid u id' mid' new ho hn =>
    -- two renamings of a column
    split at hr
    · next hcond =>
      obtain ⟨hsheet, rfl⟩ := hcond
      obtain ⟨hmerge, hboth⟩ := h.merge_renames ho hn hsheet
      split at hr
      · next heq =>
        cases hr
        exact hboth heq
      · next hne =>
        cases hr
        exact hmerge hne
    · cases hr
  · next s old mid s' mid' new ho hn =>
    -- two renamings of a sheet
    split at hr
    · next hcond =>
      subst hcond
      obtain ⟨hmerge, hboth⟩ := h.merge_sheetRenames ho hn
      split at hr
      · next heq =>
        cases hr
        exact hboth heq
      · next hne =>
        cases hr
        exact hmerge hne
    · cases hr
  · next s old mid u ho hn =>
    -- a renaming and the deletion of the sheet
    split at hr
    · next hcond =>
      cases hr
      subst hcond
      exact h.drop_renamed ho hn
    · next hcond =>
      refine beforeDeletion h hn (fun old' new' heq => hcond ?_) hr
      rw [ho] at heq
      cases heq
      rfl
  · next u hn hren => exact beforeDeletion h hn (fun old new heq => hren _ _ _ heq) hr
  · cases hr

/-! ### Lists -/

/-- Rewriting a chunk with a later one. -/
theorem rewriteWith {after out : List Chunk}
    (hI : I.IsNarrow ∨ NothingOverlooked (older :: ks ++ after)) (htidy : d.Tidy)
    (hkeyed : d.Keyed) (hfit : d.AllFit I (older :: ks ++ after))
    (hr : Optimizer.rewriteWith older ks after = some out) :
    d.StandsFor I out (older :: ks ++ after) := by
  induction after generalizing ks with
  | nil => cases hr
  | cons newer rest ih =>
    have hsplit : older :: ks ++ newer :: rest = (older :: ks ++ [newer]) ++ rest := by simp
    rw [Optimizer.rewriteWith] at hr
    split at hr
    · next r hrule =>
      cases hr
      obtain ⟨hrule, hclear⟩ := Option.filter_eq_some_iff.mp hrule
      rw [hsplit] at hfit ⊢
      obtain ⟨hpair, -⟩ := (allFit_append _ _).mp hfit
      obtain ⟨holder, hrest⟩ := hpair
      obtain ⟨hbetween, hnewer⟩ := (allFit_append ks [newer]).mp hrest
      have hboth : ∀ k ∈ ks, k.body.footprint.conflictsWith older.body.footprint = false
          ∧ k.body.footprint.conflictsWith newer.body.footprint = false := by
        simpa [isClear, interferes, List.all_eq_true] using hclear
      have hsees : I.IsNarrow ∨ ∀ k ∈ ks, ∀ s id, older.body.Edits s id → newer.body.Edits s id →
          ¬ k.body.Overlooks s id := by
        refine hI.imp_right fun hnothing k hk s id hold hnew => ?_
        have hthree : [older, k, newer].Sublist (older :: ks ++ newer :: rest) :=
          .cons_cons _ ((List.singleton_sublist.mpr hk).append (by simp))
        obtain ⟨⟨t, ht, rfl⟩, hid⟩ := hold
        exact hnothing older k newer hthree t ht id hid hnew
      exact (rewriteFor ⟨hsees, htidy, hkeyed, holder, hbetween, hnewer.1,
        fun k hk => (hboth k hk).1, fun k hk => (hboth k hk).2⟩ hrule).append hfit
    · have hsplit' : older :: ks ++ newer :: rest = older :: (ks ++ [newer]) ++ rest := by simp
      rw [hsplit'] at hfit hI ⊢
      exact ih hI hfit hr

/-- One pass. -/
theorem rewriteOnce {chunks out : List Chunk} (hI : I.IsNarrow ∨ NothingOverlooked chunks)
    (htidy : d.Tidy) (hkeyed : d.Keyed) (hfit : d.AllFit I chunks)
    (hr : Optimizer.rewriteOnce chunks = some out) : d.StandsFor I out chunks := by
  induction chunks generalizing d out with
  | nil => cases hr
  | cons c rest ih =>
    rw [Optimizer.rewriteOnce] at hr
    split at hr
    · next out' hw =>
      cases hr
      show d.StandsFor I _ (c :: [] ++ rest)
      exact rewriteWith hI htidy hkeyed hfit hw
    · obtain ⟨out', hout, rfl⟩ := Option.map_eq_some_iff.mp hr
      obtain ⟨hc, hrest⟩ := hfit
      have hlater : I.IsNarrow ∨ NothingOverlooked rest := hI.imp_right fun hnothing =>
        hnothing.of_thins (.of_sublist (List.sublist_cons_self c rest))
      exact cons hc (ih hlater (hc.1.tidy htidy) (hc.keyed hkeyed) hrest hout)

/-- Any number of passes. -/
theorem shorten (limit : Nat) {chunks : List Chunk} (hI : I.IsNarrow ∨ NothingOverlooked chunks)
    (htidy : d.Tidy) (hkeyed : d.Keyed) (hfit : d.AllFit I chunks) :
    d.StandsFor I (Optimizer.shorten limit chunks).chunks chunks := by
  induction limit generalizing chunks with
  | zero => exact refl hfit
  | succ limit ih =>
    rw [Optimizer.shorten]
    split
    · exact refl hfit
    · next out hr =>
      have hpass := rewriteOnce hI htidy hkeyed hfit hr
      exact (ih (hI.imp_right fun hnothing => hnothing.rewriteOnce hr) hpass.fits).trans hpass

end StandsFor

end SheetScript.Symbolic.Desk

namespace SheetScript

/-! ### Chunks of accepted steps -/

open Symbolic

variable {τ : Type} {s : State} {steps : List Step}

/-- Chunks that stand for others leave a machine with equal variables and effects. -/
theorem Symbolic.Desk.StandsFor.machines {I : Interpretation τ}
    {after before : List Chunk} (hs : s.Sound)
    (hfit : (Desk.ofLayout I s.inputLayout).AllFit I before)
    (h : (Desk.ofLayout I s.inputLayout).StandsFor I after before) :
    (Machine.run I s.inputLayout before).faults = []
      ∧ (Machine.run I s.inputLayout after).faults = []
      ∧ (Machine.run I s.inputLayout after).boundFrames
          = (Machine.run I s.inputLayout before).boundFrames
      ∧ (Machine.run I s.inputLayout after).effects
          = (Machine.run I s.inputLayout before).effects := by
  obtain ⟨hstart, -⟩ := hs.starts (I := I)
  have hlooks : s.desk.Alike True (Desk.ofLayout I s.inputLayout) := hs.desk_layout
  have htidy := hlooks.tidy hs.tidy
  obtain ⟨hbefore, heffBefore⟩ := hstart.run htidy hfit.allRun
  obtain ⟨hafter, heffAfter⟩ := hstart.run htidy h.fits.allRun
  rw [h.run] at hafter
  refine ⟨hbefore.faults, hafter.faults, hafter.boundFrames_eq hbefore, ?_⟩
  unfold Machine.run
  rw [heffAfter, heffBefore, h.trace]

/-- Shortened chunks of steps leave what the chunks leave, if no block sees what it does
  not declare: because the interpretation is narrow, or because there is nothing to see. -/
theorem State.Sound.shorten_machines {I : Interpretation τ} (limit : Nat)
    (hI : I.IsNarrow ∨ Optimizer.NothingOverlooked (Script.chunksOf steps)) (hs : s.Sound)
    (ha : s.Accepts steps) (hregular : ∀ step ∈ steps, step.Regular)
    (hids : ∀ step ∈ steps, step.ResetsNative) :
    let chunks := Script.chunksOf steps
    let run := Machine.run I s.inputLayout
    (run chunks).faults = []
      ∧ (run (Optimizer.shorten limit chunks).chunks).faults = []
      ∧ (run (Optimizer.shorten limit chunks).chunks).boundFrames = (run chunks).boundFrames
      ∧ (run (Optimizer.shorten limit chunks).chunks).effects = (run chunks).effects := by
  have hlooks : s.desk.Alike True (Desk.ofLayout I s.inputLayout) := hs.desk_layout
  obtain ⟨-, -, hfits, -⟩ := hs.leads ha hregular (fun _ => hids) hlooks
  have hfit := hfits trivial
  exact Desk.StandsFor.machines hs hfit (.shorten limit hI (hlooks.tidy hs.tidy)
    (hlooks.keyed trivial hs.keyed) hfit)

namespace Optimizer

/-- Shortened chunks of accepted steps run without fault and leave the variables, the
  frames and the effects that the chunks would have left. -/
theorem shorten_sound (I : Interpretation τ) (limit : Nat) (hs : s.Initial)
    (ha : s.Accepts steps) (hlegacy : ∀ step ∈ steps, step.edit.usesLegacyIds = false)
    (hverbatim : ∀ step ∈ steps, step.Verbatim) (hfirst : Step.ResetsFirst steps) :
    let chunks := Script.chunksOf steps
    let run := Machine.run I.narrowed s.inputLayout
    (run chunks).faults = []
      ∧ (run (shorten limit chunks).chunks).faults = []
      ∧ (run (shorten limit chunks).chunks).boundFrames = (run chunks).boundFrames
      ∧ (run (shorten limit chunks).chunks).effects = (run chunks).effects := by
  obtain ⟨hsound, hnative⟩ := hs.sound_native
  have hregular : ∀ step ∈ steps, step.Regular := fun step hmem =>
    .of_native (hlegacy step hmem) (hverbatim step hmem)
  exact hsound.shorten_machines limit (.inl I.isNarrow_narrowed) ha hregular
    (hfirst.resetsNative hsound hnative ha hregular)

theorem shorten_sound_partly :
    let chunks := Script.chunksOf Sample.partly
    let run := Machine.run Sample.origins.narrowed Sample.state.inputLayout
    Sample.state.Initial ∧ Sample.state.Accepts Sample.partly
      ∧ (∀ step ∈ Sample.partly, step.edit.usesLegacyIds = false)
      ∧ (∀ step ∈ Sample.partly, step.Verbatim) ∧ Step.ResetsFirst Sample.partly
      ∧ (shorten 9 chunks).rewrites = 2
      ∧ (run chunks).faults = []
      ∧ (run (shorten 9 chunks).chunks).faults = []
      ∧ (run (shorten 9 chunks).chunks).boundFrames = (run chunks).boundFrames
      ∧ (run (shorten 9 chunks).chunks).effects = (run chunks).effects := by
  exact ⟨Sample.initial, Sample.accepts_partly, Sample.legacy_partly, Sample.verbatim_partly,
    Sample.first_partly, by decide +kernel,
    shorten_sound Sample.origins 9 Sample.initial Sample.accepts_partly Sample.legacy_partly
      Sample.verbatim_partly Sample.first_partly⟩

/-- A column whose header is a pattern can be lost to an encoding of another one while it
  stays registered; its renaming is accepted, and the code of the renaming faults. -/
theorem shorten_sound_unmatched :
    let chunks := Script.chunksOf Sample.unmatchedSteps
    let run := Machine.run Sample.origins.narrowed Sample.unmatched.inputLayout
    Sample.unmatched.Initial ∧ Sample.unmatched.Accepts Sample.unmatchedSteps
      ∧ (∀ step ∈ Sample.unmatchedSteps, step.edit.usesLegacyIds = false)
      ∧ Step.ResetsFirst Sample.unmatchedSteps
      ∧ (run chunks).faults ≠ []
      ∧ (run (shorten 9 chunks).chunks).faults ≠ [] := by
  exact ⟨Sample.initial_unmatched, Sample.accepts_unmatched, Sample.legacy_unmatched,
    Sample.first_unmatched, by decide +kernel, by decide +kernel⟩

end Optimizer

end SheetScript
