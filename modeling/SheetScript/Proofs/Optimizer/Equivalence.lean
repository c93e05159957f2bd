import SheetScript.Proofs.Steps
import SheetScript.Proofs.Symbolic.Hashing
import SheetScript.Symbolic.Verification

/-! # What verified chunks have in common

  Verification compares hashes.  If they are injective, chunks that it accepts leave
  the same under every interpretation in which a block computes from the sheets that it
  reads: what the hash of a block holds is what the block is given.

  A block may also compute from a sheet that it writes, as it was before.  The hash
  holds that sheet only if the block declares that it reads it, and one kind of block
  rewrites sheets without saying so.  Whether such chunks are equivalent is what a
  verification would find out whose hashes hold the written sheets as well.

  Main statement: `Symbolic.verified_agree`.
-/

namespace SheetScript

namespace Symbolic

variable {τ σ : Type}

/-! ### Verification without assumptions on the chunks -/

/-- Runs differ in a new fault, in the frame of a variable of either, or in the effects. -/
theorem discrepancy?_eq_none [DecidableEq τ] {expected actual : Machine τ} :
    discrepancy? expected actual = none
      ↔ (∀ f ∈ actual.faults, f.text ∈ expected.faults.map MachineFault.text)
        ∧ expected.Agree actual := by
  have hnew : (actual.faults.find? fun f => f.text ∉ expected.faults.map MachineFault.text) = none
      ↔ ∀ f ∈ actual.faults, f.text ∈ expected.faults.map MachineFault.text := by
    rw [List.find?_eq_none]
    exact forall₂_congr fun f _ => by simp
  have hframes : ((Roster.union (Roster.ofList (Dictionary.keys expected.boundFrames))
        (Dictionary.keys actual.boundFrames)).find? fun n =>
          Dictionary.get? expected.boundFrames n ≠ Dictionary.get? actual.boundFrames n) = none
      ↔ ∀ n, Dictionary.get? expected.boundFrames n = Dictionary.get? actual.boundFrames n := by
    rw [List.find?_eq_none]
    constructor
    · intro h n
      by_cases hn : n ∈ Dictionary.keys expected.boundFrames
          ∨ n ∈ Dictionary.keys actual.boundFrames
      · simpa using h n (by simpa using hn)
      · -- a name that neither has
        obtain ⟨hleft, hright⟩ := not_or.mp hn
        rw [Dictionary.get?_eq_none_iff.mpr hleft, Dictionary.get?_eq_none_iff.mpr hright]
    · intro h n _
      simp [h n]
  unfold discrepancy?
  dsimp only
  split
  · next f hf =>
    have hsome : ¬ ∀ f ∈ actual.faults, f.text ∈ expected.faults.map MachineFault.text := by
      rw [← hnew, hf]
      exact Option.some_ne_none f
    exact ⟨fun h => (by cases h), fun h => absurd h.1 hsome⟩
  · next hnone =>
    rw [and_iff_right (hnew.mp hnone)]
    split
    · next n hn =>
      refine ⟨fun h => (by cases h), fun h => ?_⟩
      rw [hframes.mpr h.frames] at hn
      cases hn
    · next hsame =>
      by_cases heffects : expected.effects = actual.effects
      · simp only [if_pos heffects, true_iff]
        exact ⟨hframes.mp hsame, heffects⟩
      · simp only [if_neg heffects, reduceCtorEq, false_iff]
        exact fun h => heffects h.effects

/-- Verification accepts chunks that raise no other faults and leave the same. -/
theorem verifyWith_accepts_iff [DecidableEq τ] {I : Interpretation τ} {inputs : InputLayout}
    {before after : List Chunk} :
    verifyWith I inputs before after = .ok ()
      ↔ (∀ f ∈ (Machine.run I inputs after).faults,
            f.text ∈ (Machine.run I inputs before).faults.map MachineFault.text)
        ∧ (Machine.run I inputs before).Agree (Machine.run I inputs after) := by
  rw [← discrepancy?_eq_none]
  unfold verifyWith
  split <;> simp [*]

/-! ### Blocks that say what they rewrite -/

/-- Whether every block writes either no sheet or exactly those that it reads, and its
  statements tell which. -/
def ReadsWhatItWrites (chunks : List Chunk) : Prop :=
  ∃ rereads : List String → Bool, ∀ c ∈ chunks, ∀ b, c.body = .block b →
    Dictionary.keys b.footprint.writes
      = if rereads b.statements then Dictionary.keys b.footprint.reads else []

/-- The interpretation in which blocks find the sheets that they write among those that
  they read. -/
def Interpretation.rereading (I : Interpretation τ) (rereads : List String → Bool) :
    Interpretation τ :=
  { I with seen := fun statements reads _ =>
      I.seen statements reads (if rereads statements then reads else []) }

theorem Interpretation.Regards.rereading {I : Interpretation τ} (h : I.Regards true)
    (rereads : List String → Bool) : (I.rereading rereads).Regards false := by
  intro statements reads reads' _ _ hreads _
  refine h _ _ _ _ _ hreads fun _ => ?_
  split
  · exact hreads
  · rfl

theorem Machine.frames_sights (m : Machine τ) (a : ColumnAccess) :
    (m.sights a).map Sight.frame = (Dictionary.keys a).map m.sheetFrame? := by
  unfold sights Dictionary.keys
  rw [List.map_map, List.map_map]
  rfl

/-- Of chunks whose blocks say what they rewrite, the runs are the same. -/
theorem Interpretation.Regards.run_rereading {I : Interpretation τ} (h : I.Regards true)
    {rereads : List String → Bool} {inputs : InputLayout} {chunks : List Chunk}
    (hchunks : ∀ c ∈ chunks, ∀ b, c.body = .block b →
      Dictionary.keys b.footprint.writes
        = if rereads b.statements then Dictionary.keys b.footprint.reads else []) :
    Machine.run (I.rereading rereads) inputs chunks = Machine.run I inputs chunks := by
  have hstep : ∀ c ∈ chunks, ∀ m : Machine τ, m.step (I.rereading rereads) c.body
      = m.step I c.body := by
    intro c hc m
    cases hbody : c.body with
    | block b =>
      have hseen : (I.rereading rereads).seen b.statements (m.sights b.footprint.reads)
            (m.sights b.footprint.writes)
          = I.seen b.statements (m.sights b.footprint.reads) (m.sights b.footprint.writes) := by
        refine h _ _ _ _ _ rfl fun _ => ?_
        rw [m.frames_sights b.footprint.writes, hchunks c hc b hbody]
        split
        · exact m.frames_sights b.footprint.reads
        · rfl
      unfold Machine.step
      simp only [hseen]
      rfl
    | _ => rfl
  have hstart : Machine.start (I.rereading rereads) inputs = Machine.start I inputs := rfl
  unfold Machine.run
  rw [hstart]
  exact List.foldl_ext _ _ _ fun m c hc => hstep c hc m

/-! ### What verification accepts -/

/-- Chunks that verification accepts, by hashes that are injective, raise no fault where
  the chunks before raise none, and leave the same where blocks compute from what they
  read.  Where blocks compute from what they rewrite as well, they leave the same under
  all interpretations exactly if verification accepts them with the rewritten sheets in
  the hashes; they do if every block says what it rewrites. -/
theorem verified_agree [DecidableEq τ] {H : Hashing τ} (hH : H.IsInjective)
    {inputs : InputLayout} {before after : List Chunk}
    (hok : verifyWith (H.interpretation false) inputs before after = .ok ()) :
    (∀ {σ : Type} (J : Interpretation σ), (Machine.run J inputs before).faults = [] →
        (Machine.run J inputs after).faults = [])
      ∧ (∀ {σ : Type} (J : Interpretation σ), J.Regards false →
          (Machine.run J inputs before).Agree (Machine.run J inputs after))
      ∧ ((∀ {σ : Type} (J : Interpretation σ), J.Regards true →
            (Machine.run J inputs before).Agree (Machine.run J inputs after))
          ↔ verifyWith (H.interpretation true) inputs before after = .ok ())
      ∧ (ReadsWhatItWrites (before ++ after) → ∀ {σ : Type} (J : Interpretation σ),
          J.Regards true → (Machine.run J inputs before).Agree (Machine.run J inputs after)) := by
  obtain ⟨hfaults, hagree⟩ := verifyWith_accepts_iff.mp hok
  have hreading : ∀ {σ : Type} (J : Interpretation σ), J.Regards false →
      (Machine.run J inputs before).Agree (Machine.run J inputs after) :=
    fun J hJ => .of_hashing hH hJ hagree
  refine ⟨fun J hnone => ?_, hreading, ⟨fun hall => ?_, fun hwhole σ J => ?_⟩, ?_⟩
  · rw [Machine.faults_run J (H.interpretation false)] at hnone ⊢
    rw [hnone] at hfaults
    exact List.eq_nil_iff_forall_not_mem.mpr fun f hf => absurd (hfaults f hf) List.not_mem_nil
  · -- the hashes are one of the interpretations
    refine verifyWith_accepts_iff.mpr ⟨?_, hall _ (H.regards true)⟩
    rw [Machine.faults_run (H.interpretation true) (H.interpretation false) inputs before,
      Machine.faults_run (H.interpretation true) (H.interpretation false) inputs after]
    exact hfaults
  · intro hJ
    exact .of_hashing hH hJ (verifyWith_accepts_iff.mp hwhole).2
  · rintro ⟨rereads, hchunks⟩ σ J hJ
    have hsame := hreading _ (hJ.rereading rereads)
    rw [hJ.run_rereading fun c hc => hchunks c (List.mem_append_left _ hc),
      hJ.run_rereading fun c hc => hchunks c (List.mem_append_right _ hc)] at hsame
    exact hsame

/-! ### A sample

  A column gets a formula, and then the headers of its sheet are restricted.  The block
  that does so rewrites the whole sheet, formula and all, and reads nothing. -/

end Symbolic

open Symbolic

namespace Sample

/-- A table with a header that is not restricted. -/
def spacedInputs : List (String × Frame) := [table "df1" ["A", "net value"]]

/-- The state of the table. -/
def spaced : State := (State.ofInputs spacedInputs).toOption.getD {}

/-- A column renamed twice, and another one added between. -/
def renamedTwice : List Step :=
  (Step.replay {} spaced [(.generated 0, .renameColumn ⟨0, ⟨"A"⟩, "B"⟩),
    (.generated 1, .addColumn ⟨0, "D", 1⟩),
    (.generated 2, .renameColumn ⟨0, ⟨"A"⟩, "C"⟩)]).1.toOption.getD []

/-- A formula, and the restriction. -/
def rewritten : List Step :=
  (Step.replay {} spaced [(.generated 0, .setFormula ⟨0, ⟨"A"⟩, "=1", none⟩),
    (.generated 1, .restrictHeaders ⟨false⟩)]).1.toOption.getD []

/-- The restriction alone. -/
def untouched : List Step :=
  (Step.replay {} spaced [(.generated 1, .restrictHeaders ⟨false⟩)]).1.toOption.getD []

/-- Values that tell the code of all that went before in the sheets that are read and
  written. -/
def histories : Interpretation (List String) where
  input _ _ := []
  value code reads := code :: reads.flatMap fun v => v.getD []
  retyped statements v := statements ++ v
  seen statements reads writes :=
    statements ++ ((reads.map Sight.frame ++ writes.map Sight.frame).flatMap fun frame =>
      (frame.getD []).flatMap SymbolicColumn.value)
  produced seen _ := seen

theorem regards_origins : origins.Regards false := by
  intro statements reads reads' _ _ hreads _
  have hframes : ∀ l : List (Sight (List String)), (l.flatMap fun r =>
      (r.frame.getD []).flatMap SymbolicColumn.value)
        = (l.map Sight.frame).flatMap fun frame => (frame.getD []).flatMap SymbolicColumn.value := by
    intro l
    rw [List.flatMap_map]
  show reads.flatMap _ = reads'.flatMap _
  rw [hframes, hframes, hreads]

theorem regards_histories : histories.Regards true := by
  intro statements reads reads' writes writes' hreads hwrites
  simp only [histories, hreads, hwrites rfl]

end Sample

namespace Symbolic

theorem verified_agree_renamed :
    let before := Script.chunksOf Sample.renamedTwice
    let after := (Optimizer.shorten 64 before).chunks
    let run := Machine.run Sample.origins Sample.spaced.inputLayout
    Hashing.tree.IsInjective
      ∧ verifyWith (Hashing.tree.interpretation false) Sample.spaced.inputLayout before after = .ok ()
      ∧ before.length = 3 ∧ after.length = 2
      ∧ (run before).Agree (run after) := by
  intro before after run
  have hok : verifyWith (Hashing.tree.interpretation false) Sample.spaced.inputLayout before after
      = .ok () := eq_ok_of_toBool (by decide) ()
  obtain ⟨-, hreading, -⟩ := verified_agree Hashing.isInjective_tree hok
  exact ⟨Hashing.isInjective_tree, hok, by decide, by decide,
    hreading Sample.origins Sample.regards_origins⟩

/-- Without the formula that it rewrites, the block leaves other values, and verification
  does not notice. -/
theorem verification_misses_rewritten :
    let before := Script.chunksOf Sample.rewritten
    let after := Script.chunksOf Sample.untouched
    let inputs := Sample.spaced.inputLayout
    Sample.spaced.Initial ∧ Sample.spaced.Accepts Sample.rewritten
      ∧ Sample.spaced.Accepts Sample.untouched
      ∧ after = before.drop 1
      ∧ verify inputs before after = .ok ()
      ∧ verifyWith (Hashing.tree.interpretation false) inputs before after = .ok ()
      ∧ (Machine.run (Hashing.tree.interpretation false) inputs before).faults = []
      ∧ Sample.histories.Regards true
      ∧ ¬ (Machine.run Sample.histories inputs before).Agree
          (Machine.run Sample.histories inputs after) := by
  intro before after inputs
  have hok : verifyWith (Hashing.tree.interpretation false) inputs before after = .ok () :=
    eq_ok_of_toBool (by decide +kernel) ()
  obtain ⟨hfaults, hagree⟩ := verifyWith_accepts_iff.mp hok
  refine ⟨⟨Sample.spacedInputs, by decide, by rfl⟩, State.accepts_of_replay (by decide +kernel),
    State.accepts_of_replay (by decide +kernel), by decide +kernel, ?_, hok, by decide +kernel,
    Sample.regards_histories, fun h => ?_⟩
  · -- fingerprints hold no more than the trees
    refine verifyWith_accepts_iff.mpr ⟨?_, ?_⟩
    · rw [Machine.faults_run _ (Hashing.tree.interpretation false) inputs before,
        Machine.faults_run _ (Hashing.tree.interpretation false) inputs after]
      exact hfaults
    · exact .of_hashing Hashing.isInjective_tree regards_fingerprint hagree
  · have hsame := h.frames "df1"
    revert hsame
    decide +kernel

end Symbolic

end SheetScript
