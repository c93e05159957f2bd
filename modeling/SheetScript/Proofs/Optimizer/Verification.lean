import SheetScript.Proofs.Optimizer.Shortening

/-! # What verification accepts

  Verification runs the shortened chunks and the chunks before, and lets a block see
  whole sheets, with the columns that it does not declare.  Shortened chunks of
  accepted steps never raise a fault, so what verification compares in the end are
  the frames and the effects.

  They are equal if nothing is overlooked.  Otherwise a merge or a pivot may see a
  column whose edit before it is gone, and verification refuses the log although
  the script is right.
-/

namespace SheetScript

open Symbolic

/-! ### Comparing two runs -/

namespace Symbolic

/-- Dictionaries that agree on the keys of both are equal. -/
theorem agree_iff {ν : Type} [DecidableEq ν] {a b : Dictionary String ν} (ha : a.Ascending)
    (hb : b.Ascending) :
    (Roster.union (Roster.ofList (Dictionary.keys a)) (Dictionary.keys b)).find?
        (fun n => Dictionary.get? a n ≠ Dictionary.get? b n) = none ↔ a = b := by
  constructor
  · intro h
    refine Dictionary.ext_get? ha hb fun n => ?_
    by_cases hn : n ∈ Dictionary.keys a ∨ n ∈ Dictionary.keys b
    · simpa using List.find?_eq_none.mp h n (by simpa using hn)
    · obtain ⟨hna, hnb⟩ := not_or.mp hn
      rw [Dictionary.get?_eq_none_iff.mpr hna, Dictionary.get?_eq_none_iff.mpr hnb]
  · rintro rfl
    simp

variable {τ : Type} [DecidableEq τ] {I : Interpretation τ} {inputs : InputLayout}
  {before after : List Chunk}

/-- A run without faults differs from another one in its frames or in its effects. -/
theorem discrepancy?_eq_none_iff {expected actual : Machine τ}
    (ha : expected.bindings.Ascending) (hb : actual.bindings.Ascending)
    (hfaults : actual.faults = []) :
    discrepancy? expected actual = none
      ↔ actual.boundFrames = expected.boundFrames ∧ actual.effects = expected.effects := by
  have hframes := agree_iff (ha.mapValues expected.frame) (hb.mapValues actual.frame)
  unfold discrepancy?
  simp only [hfaults, List.find?_nil]
  split
  · next n hn =>
    -- the frames of some variable differ
    have hne : actual.boundFrames ≠ expected.boundFrames := by
      intro heq
      have hnone := hframes.mpr heq.symm
      rw [← Machine.boundFrames, ← Machine.boundFrames, hn] at hnone
      cases hnone
    simp [hne]
  · next hnone =>
    have heq : actual.boundFrames = expected.boundFrames := (hframes.mp hnone).symm
    by_cases heff : expected.effects = actual.effects
    · simp [heq, heff]
    · simp [heff, Ne.symm heff]

/-- Verification accepts runs without faults that leave the same. -/
theorem verifyWith_eq_ok_iff {d e : Desk τ} (hbefore : Shows (Machine.run I inputs before) d)
    (hafter : Shows (Machine.run I inputs after) e) :
    verifyWith I inputs before after = .ok ()
      ↔ (Machine.run I inputs after).boundFrames = (Machine.run I inputs before).boundFrames
        ∧ (Machine.run I inputs after).effects = (Machine.run I inputs before).effects := by
  rw [← discrepancy?_eq_none_iff hbefore.bindings hafter.bindings hafter.faults]
  unfold verifyWith
  split <;> simp [*]

end Symbolic

/-! ### Verifying accepted steps -/

variable {τ : Type} {s : State} {steps : List Step}

/-- The chunks of accepted steps run without fault before and after they are shortened,
  also where a block sees more than it declares. -/
theorem State.Sound.shorten_shows (I : Interpretation τ) (limit : Nat) (hs : s.Sound)
    (ha : s.Accepts steps) (hregular : ∀ step ∈ steps, step.Regular)
    (hids : ∀ step ∈ steps, step.ResetsNative) :
    (∃ d : Desk τ, Shows (Machine.run I s.inputLayout (Script.chunksOf steps)) d)
      ∧ ∃ e : Desk τ, Shows (Machine.run I s.inputLayout
          (Optimizer.shorten limit (Script.chunksOf steps)).chunks) e := by
  have hlooks : s.desk.Alike True (Desk.ofLayout I s.inputLayout) := hs.desk_layout
  have hnarrow : s.desk.Alike True (Desk.ofLayout I.narrowed s.inputLayout) := hs.desk_layout
  obtain ⟨-, hruns, -, -⟩ := hs.leads (I := I) ha hregular (fun _ => hids) hlooks
  obtain ⟨-, -, hfits, -⟩ := hs.leads ha hregular (fun _ => hids) hnarrow
  -- the shortened chunks run on the desk of the narrowed values, so on this one too
  have hstands := Desk.StandsFor.shorten limit (.inl I.isNarrow_narrowed) (hnarrow.tidy hs.tidy)
    (hnarrow.keyed trivial hs.keyed) (hfits trivial)
  have hafter := (hnarrow.symm.trans hlooks).allRun (J := I) hstands.fits.allRun
  have htidy := hlooks.tidy hs.tidy
  exact ⟨⟨_, (hs.starts.1.run htidy hruns).1⟩, ⟨_, (hs.starts.1.run htidy hafter).1⟩⟩

namespace Optimizer

/-- Verified chunks are the chunks that are not verified, if verification accepts them. -/
theorem optimize_eq_iff {limit : Nat} {inputs : InputLayout} {chunks : List Chunk} :
    optimize limit true inputs chunks = optimize limit false inputs chunks
      ↔ verify inputs chunks (shorten limit chunks).chunks = .ok () := by
  unfold optimize
  cases hverify : verify inputs chunks (shorten limit chunks).chunks with
  | error f => simp [hverify, bind, Except.bind, pure, Except.pure]
  | ok u => simp [hverify, bind, Except.bind, pure, Except.pure]

/-- Verification accepts the chunks of accepted steps exactly if what whole sheets show
  to the blocks is the same after shortening.  That is so if nothing is overlooked. -/
theorem optimize_verified (settings : Settings) (hs : s.Initial) (ha : s.Accepts steps)
    (hapart : ∀ step ∈ steps, step.IdsApart) (hverbatim : ∀ step ∈ steps, step.Verbatim)
    (hids : ∀ step ∈ steps, step.ResetsNative) :
    let chunks := Script.chunksOf steps
    let short := shorten settings.passLimit chunks
    let run := Machine.run Fingerprint.interpretation s.inputLayout
    let result := fun verifies => optimize settings.passLimit verifies s.inputLayout chunks
    let script := fun verifies => Script.build { settings with verifies } steps (s.after steps)
    result false = .ok (short.chunks, short.report chunks)
      ∧ (result true = result false ↔ (run short.chunks).boundFrames = (run chunks).boundFrames
          ∧ (run short.chunks).effects = (run chunks).effects)
      ∧ (result true = result false → script true = script false)
      ∧ (NothingOverlooked chunks → result true = result false) := by
  intro chunks short run result script
  obtain ⟨hsound, -⟩ := hs.sound_native
  have hregular : ∀ step ∈ steps, step.Regular := fun step hmem =>
    ⟨hapart step hmem, hverbatim step hmem⟩
  obtain ⟨⟨d, hbefore⟩, ⟨e, hafter⟩⟩ :=
    hsound.shorten_shows Fingerprint.interpretation settings.passLimit ha hregular hids
  have hiff := optimize_eq_iff.trans (verifyWith_eq_ok_iff hbefore hafter)
  refine ⟨rfl, hiff, fun heq => ?_, fun hnothing => hiff.mpr ?_⟩
  · -- the settings matter to a script only where its chunks are optimized
    show Script.build _ steps (s.after steps) = Script.build _ steps (s.after steps)
    unfold Script.build Script.shortened
    rw [ha.first]
    dsimp only
    rw [show optimize settings.passLimit true s.inputLayout (Script.chunksOf steps)
      = optimize settings.passLimit false s.inputLayout (Script.chunksOf steps) from heq]
  · obtain ⟨-, -, hframes, heffects⟩ :=
      hsound.shorten_machines settings.passLimit (.inr hnothing) ha hregular hids
    exact ⟨hframes, heffects⟩

theorem optimize_verified_wholly :
    let chunks := Script.chunksOf Sample.wholly
    let result := fun verifies => optimize 64 verifies Sample.state.inputLayout chunks
    Sample.state.Initial ∧ Sample.state.Accepts Sample.wholly
      ∧ (∀ step ∈ Sample.wholly, step.IdsApart) ∧ (∀ step ∈ Sample.wholly, step.Verbatim)
      ∧ (∀ step ∈ Sample.wholly, step.ResetsNative)
      ∧ NothingOverlooked chunks
      ∧ (shorten 64 chunks).rewrites = 1
      ∧ result true = .ok ((shorten 64 chunks).chunks, (shorten 64 chunks).report chunks) := by
  intro chunks result
  have hapart : ∀ step ∈ Sample.wholly, step.IdsApart := fun step hmem =>
    .of_native (Sample.legacy_wholly step hmem)
  obtain ⟨hsound, hnative⟩ := Sample.initial.sound_native
  have hids := Sample.first_wholly.resetsNative hsound hnative Sample.accepts_wholly
    fun step hmem => ⟨hapart step hmem, Sample.verbatim_wholly step hmem⟩
  have hnothing : NothingOverlooked chunks := by decide +kernel
  obtain ⟨hquick, -, -, hsame⟩ :=
    optimize_verified {} Sample.initial Sample.accepts_wholly hapart Sample.verbatim_wholly hids
  exact ⟨Sample.initial, Sample.accepts_wholly, hapart, Sample.verbatim_wholly, hids, hnothing,
    by decide +kernel, (hsame hnothing).trans hquick⟩

/-- Two formulas for a column that the merge between them leaves out are shortened to
  one, and the merged sheet tells. -/
theorem verification_refuses_partly :
    let chunks := Script.chunksOf Sample.partly
    Sample.state.Initial ∧ Sample.state.Accepts Sample.partly
      ∧ (∀ step ∈ Sample.partly, step.edit.usesLegacyIds = false)
      ∧ Step.ResetsFirst Sample.partly
      ∧ verifyWith Sample.origins Sample.state.inputLayout chunks (shorten 64 chunks).chunks
          ≠ .ok () := by
  intro chunks
  refine ⟨Sample.initial, Sample.accepts_partly, Sample.legacy_partly, Sample.first_partly,
    fun h => ?_⟩
  have hrefused : (verifyWith Sample.origins Sample.state.inputLayout chunks
      (shorten 64 chunks).chunks).toBool = false := by decide +kernel
  rw [h] at hrefused
  cases hrefused

end Optimizer

end SheetScript
