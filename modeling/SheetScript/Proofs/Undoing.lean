import SheetScript.Proofs.Branching
import SheetScript.Proofs.Optimizer.Verification
import SheetScript.Proofs.State.Invariant
import SheetScript.Proofs.Styler

/-! # When a step can be taken back

  To undo and to redo is to commit a beginning of the log, so either is refused where
  the script of that beginning cannot be built.

  A log that grows edit by edit is built at every length on the way.  A log that is
  loaded, or run again behind an edited step, is built as a whole only.  What is
  kept by every call is that the scripts from the index on can be built: redoing is
  never refused, and undoing is where the log before its last step holds a format
  with an unreadable value, or chunks that verification does not accept.

  Main statement: `Session.undo_and_redo`.
-/

namespace SheetScript

open Symbolic

/-! ### Scripts -/

namespace Script

variable {disks : Disk → Prop} {settings : Settings} {s : State} {steps : List Step}

/-- What it takes for the script of some steps to be built. -/
structure Buildable (settings : Settings) (s : State) (steps : List Step) : Prop where
  stylers : ∀ sh ∈ (s.after steps).sheets, ∃ c, Styler.code sh = .ok c
  verified : settings.optimizes = true → settings.verifies = true →
    verify s.inputLayout (chunksOf steps)
      (Optimizer.shorten settings.passLimit (chunksOf steps)).chunks = .ok ()

theorem exists_shortened {inputs : InputLayout} {chunks : List Chunk} :
    (∃ r, shortened settings inputs chunks = .ok r)
      ↔ (settings.optimizes = true → settings.verifies = true →
          verify inputs chunks (Optimizer.shorten settings.passLimit chunks).chunks = .ok ()) := by
  unfold shortened Optimizer.optimize
  cases settings.optimizes with
  | false => simp
  | true =>
    cases settings.verifies with
    | false => simp [pure, Except.pure]
    | true =>
      simp only [if_true, bind_eq_ok, pure_eq_ok, true_imp_iff]
      constructor
      · rintro ⟨_, _, h, -⟩
        exact h
      · exact fun h => ⟨_, (), h, rfl⟩

theorem exists_build (ha : s.AcceptsOn disks steps) :
    (∃ script, build settings steps (s.after steps) = .ok script)
      ↔ Buildable settings s steps := by
  have hstylers := exists_mapM_eq_ok (f := Styler.code) (l := (s.after steps).sheets)
  unfold build
  rw [ha.first]
  constructor
  · rintro ⟨script, h⟩
    simp only [bind_eq_ok] at h
    obtain ⟨short, hshort, stylers, hcode, -⟩ := h
    exact ⟨hstylers.mp ⟨stylers, hcode⟩, exists_shortened.mp ⟨short, hshort⟩⟩
  · intro h
    obtain ⟨short, hshort⟩ := exists_shortened.mpr h.verified
    obtain ⟨stylers, hcode⟩ := hstylers.mpr h.stylers
    simp only [bind_eq_ok]
    exact ⟨_, short, hshort, stylers, hcode, rfl⟩

end Script

/-! ### Imports -/

namespace Optimizer

variable {chunks : List Chunk}

/-- Whole-sheet edits are not rewritten. -/
theorem rewriteOnce_of_blocks (h : ∀ c ∈ chunks, c.body.isBlock = true) :
    rewriteOnce chunks = none := by
  have hrule : ∀ a b : ChunkBody, b.isBlock = true → rewriteFor a b = none := by
    intro a b hb
    cases b with
    | block b => cases a <;> rfl
    | _ => cases hb
  have hwith : ∀ older (later : List Chunk), (∀ c ∈ later, c.body.isBlock = true) →
      ∀ between, rewriteWith older between later = none := by
    intro older later
    induction later with
    | nil => exact fun _ _ => rfl
    | cons c rest ih =>
      intro hblocks between
      rw [rewriteWith, hrule older.body c.body (hblocks c List.mem_cons_self)]
      exact ih (fun k hk => hblocks k (List.mem_cons_of_mem _ hk)) _
  induction chunks with
  | nil => rfl
  | cons c rest ih =>
    have hrest := fun k hk => h k (List.mem_cons_of_mem c hk)
    rw [rewriteOnce, hwith c rest hrest, ih hrest]
    rfl

theorem shorten_of_blocks (h : ∀ c ∈ chunks, c.body.isBlock = true) (limit : Nat) :
    (shorten limit chunks).chunks = chunks := by
  cases limit with
  | zero => rfl
  | succ n => rw [shorten, rewriteOnce_of_blocks h]

end Optimizer

/-- Chunks that are left alone are accepted. -/
theorem Symbolic.verifyWith_self {τ : Type} [DecidableEq τ] (I : Interpretation τ)
    (inputs : InputLayout) (chunks : List Chunk) : verifyWith I inputs chunks chunks = .ok () := by
  unfold verifyWith
  have hnone : ∀ m : Machine τ, discrepancy? m m = none := by
    intro m
    have hknown : (m.faults.find? fun f => f.text ∉ m.faults.map MachineFault.text) = none := by
      rw [List.find?_eq_none]
      intro f hf
      simpa using ⟨f, hf, rfl⟩
    have hframes : ∀ names : List String, (names.find? fun n =>
        Dictionary.get? m.boundFrames n ≠ Dictionary.get? m.boundFrames n) = none := by simp
    unfold discrepancy?
    simp only [hknown, hframes, if_true]
  rw [hnone]

namespace State

variable {s : State} {steps : List Step} {step : Step} {d : Disk}

/-- No sheet of the state has a format. -/
def IsPlain (s : State) : Prop := ∀ sh ∈ s.sheets, sh.format.isEmpty = true

theorem IsPlain.push (hs : s.IsPlain) {sh : Sheet} (hsh : sh.format.isEmpty = true) :
    (s.push sh).IsPlain := by
  intro k hk
  rcases List.mem_append.mp hk with hk | hk
  · exact hs k hk
  · rw [List.mem_singleton.mp hk]
    exact hsh

theorem isPlain_ofInputs {inputs : List (String × Frame)} (h : State.ofInputs inputs = .ok s) :
    s.IsPlain := by
  refine foldlM_keeps (P := IsPlain) (fun {input s next} _ hs hnext => ?_) ?_ h
  · split at hnext
    · cases hnext
    · split at hnext
      · cases hnext
      · obtain rfl := Except.ok.inj hnext
        exact IsPlain.push (s := (s.mint input.1 input.2).2) hs rfl
  · exact fun _ hmem => by cases hmem

/-- An import brings sheets without a format and whole-sheet code. -/
theorem IsPlain.import (hs : s.IsPlain) (hkind : step.kind = .importFiles)
    (hrun : Step.run d step.id step.edit s = .ok step) :
    step.after.IsPlain ∧ ∀ c ∈ step.chunks, c.body.isBlock = true := by
  obtain ⟨change, hchange, hstep⟩ := Step.run_eq_ok hrun
  rw [hstep]
  dsimp only
  unfold Step.kind at hkind
  cases hedit : step.edit with
  | importFiles e =>
    rw [hedit] at hchange
    have hchange : e.run d s = .ok change := hchange
    simp only [ImportFiles.run, throw_ite_eq_ok, bind_eq_ok, pure_eq_ok] at hchange
    obtain ⟨-, ⟨next, sheets⟩, hfold, rfl⟩ := hchange
    refine ⟨foldlM_keeps (P := fun acc : State × List Sheet => acc.1.IsPlain)
      (fun {path acc next} _ hacc hnext => ?_) hs hfold, by simp [ChunkBody.isBlock]⟩
    simp only [ImportFiles.addFile, bind_eq_ok, pure_eq_ok] at hnext
    obtain ⟨f, -, rfl⟩ := hnext
    refine IsPlain.push (s := (acc.1.mint _ f).2) hacc ?_
    split
    · rfl
    · rfl
  | _ =>
    rw [hedit] at hkind
    cases hkind

/-- The scripts of imports can be built: there is nothing to style, and nothing to
  rewrite. -/
theorem IsPlain.buildable (settings : Settings) (hs : s.IsPlain) (ha : s.Accepts steps)
    (himports : ∀ step ∈ steps, step.kind = .importFiles) :
    Script.Buildable settings s steps := by
  have hrun : (s.after steps).IsPlain ∧ ∀ c ∈ Script.chunksOf steps, c.body.isBlock = true := by
    induction steps generalizing s with
    | nil => exact ⟨hs, fun _ hmem => by cases hmem⟩
    | cons step rest ih =>
      obtain ⟨⟨d, -, hrun⟩, hrest⟩ := ha
      obtain ⟨hafter, hblocks⟩ := hs.import (himports step List.mem_cons_self) hrun
      obtain ⟨hlast, hlater⟩ := ih hafter hrest fun k hk => himports k (List.mem_cons_of_mem _ hk)
      rw [State.after_cons]
      refine ⟨hlast, fun c hc => ?_⟩
      rcases List.mem_append.mp hc with hc | hc
      · exact hblocks c hc
      · exact hlater c hc
  refine ⟨fun sh hsh => ⟨none, ?_⟩, fun _ _ => ?_⟩
  · unfold Styler.code
    rw [if_pos (hrun.1 sh hsh)]
    rfl
  · rw [Optimizer.shorten_of_blocks hrun.2]
    exact verifyWith_self _ _ _

end State

/-! ### Calls -/

namespace Session

/-- Whether a call puts several edits of any kind behind one another before a script is
  built. -/
def Call.isBatch : Call → Bool
  | editStep .. | load _ => true
  | apply .. | push _ | handle _ | undo | redo | clear => false

/-- Whether the script of the first steps of the log can be built. -/
def Builds (s : Session) (n : Nat) : Prop :=
  ∃ script, Script.build s.settings (s.steps.take n) (s.initial.after (s.steps.take n)) = .ok script

/-- The scripts of the steps that are not undone and of more of them can be built, and,
  if `whole`, those of fewer of them as well. -/
def Ready (whole : Prop) (s : Session) : Prop :=
  ∀ n ≤ s.steps.length, whole ∨ s.index ≤ n → s.Builds n

section Steps

variable {disks : Disk → Prop} {edits : Edit → Prop} {whole : Prop} {start s next : Session}
  {d : Disk} {steps : List Step} {n : Nat}

/-- What is committed is built. -/
theorem exists_commit : (∃ t, s.commit s.steps n = .ok t) ↔ s.Builds n := by
  simp only [commit, Builds, bind_eq_ok, pure_eq_ok]
  constructor
  · rintro ⟨t, script, h, -⟩
    exact ⟨script, h⟩
  · rintro ⟨script, h⟩
    exact ⟨_, script, h, rfl⟩

theorem exists_undo : (∃ t, s.undo = .ok t) ↔ s.index = 0 ∨ s.Builds (s.index - 1) := by
  rw [undo_eq]
  split
  · next h => simp [h]
  · next h => simp [h, exists_commit]

/-- The log of a session goes from one index to another. -/
theorem Ready.move (hr : s.Ready whole) (hindex : s.index ≤ n + 1)
    (h : s.commit s.steps n = .ok next) : next.Ready whole := by
  have hn : s.Builds n := exists_commit.mp ⟨next, h⟩
  obtain ⟨hlog, rfl⟩ := SharesLog.of_commit h
  intro m hm hwhole
  unfold Builds
  rw [hlog.settings, hlog.initial, hlog.steps]
  rw [hlog.steps] at hm
  rcases Nat.eq_or_lt_of_le (show next.index ≤ max m next.index by omega) with heq | hlt
  · by_cases hmn : m = next.index
    · exact hmn ▸ hn
    · rcases hwhole with hwhole | hle
      · exact hr m hm (.inl hwhole)
      · omega
  · exact hr m hm (.inr (by omega))

/-- A new log is committed as a whole. -/
theorem Ready.of_commit (h : s.commit steps steps.length = .ok next)
    (hshort : whole → ∀ n < steps.length, ∃ script,
      Script.build s.settings (steps.take n) (s.initial.after (steps.take n)) = .ok script) :
    next.Ready whole := by
  simp only [commit, bind_eq_ok, pure_eq_ok] at h
  obtain ⟨script, hscript, rfl⟩ := h
  intro n hn hwhole
  rcases Nat.eq_or_lt_of_le hn with rfl | hlt
  · exact ⟨script, hscript⟩
  · rcases hwhole with hwhole | hle
    · exact hshort hwhole n hlt
    · exact absurd hle (Nat.not_le.mpr hlt)

theorem Ready.undo (hr : s.Ready whole) (h : s.undo = .ok next) : next.Ready whole := by
  rw [undo_eq] at h
  split at h
  · cases h
    exact hr
  · exact hr.move (by omega) h

theorem Ready.redo (hr : s.Ready whole) (h : s.redo = .ok next) : next.Ready whole := by
  rw [redo_eq] at h
  split at h
  · cases h
    exact hr
  · exact hr.move (by omega) h

/-- One more step goes behind a beginning of the log, whose scripts were built before. -/
theorem Ready.apply (hr : s.Ready whole) (hindex : s.index ≤ s.steps.length) {id : StepId}
    {e : Edit} (h : (s.apply d id e).1 = .ok next) : next.Ready whole := by
  rw [apply_eq] at h
  simp only [bind_eq_ok] at h
  generalize hkeep : (if s.applied.getLast?.any (fun last => last.id = id) then s.index - 1
    else s.index) = keep at h
  obtain ⟨step, -, hcommit⟩ := h
  have hle : keep ≤ s.steps.length := by
    split at hkeep <;> omega
  have hlength : (s.steps.take keep ++ [step]).length = keep + 1 := by
    rw [List.length_append, List.length_take, List.length_singleton, Nat.min_eq_left hle]
  rw [← hlength] at hcommit
  refine Ready.of_commit hcommit fun hwhole n hn => ?_
  have htake : (s.steps.take keep ++ [step]).take n = s.steps.take n := by
    rw [List.take_append_of_le_length (by rw [List.length_take]; omega), List.take_take,
      Nat.min_eq_left (by omega)]
  rw [htake]
  exact hr n (by omega) (.inl hwhole)

/-- Clearing leaves imports, of which every beginning can be built. -/
theorem Ready.clear (hplain : s.initial.IsPlain) (h : (s.clear d).1 = .ok next) :
    next.Ready whole := by
  rw [clear_eq] at h
  unfold rerun at h
  simp only [bind_eq_ok, List.nil_append] at h
  obtain ⟨steps, hsteps, hcommit⟩ := h
  obtain ⟨haccepts, hmap⟩ :=
    Step.acceptsOn_of_replay Disk.closed_all trivial (fun _ _ => trivial) hsteps
  have himports : ∀ step ∈ steps, step.kind = .importFiles := by
    intro step hstep
    have hmem : (step.id, step.edit) ∈ (s.applied.filter fun k => k.kind.isImport).map again :=
      hmap ▸ List.mem_map_of_mem hstep
    obtain ⟨old, hold, heq⟩ := List.mem_map.mp hmem
    have hedit : old.edit = step.edit := congrArg Prod.snd heq
    have hkind : old.kind.isImport = true := (List.mem_filter.mp hold).2
    unfold Step.kind at hkind ⊢
    rw [← hedit]
    simpa [EditKind.isImport] using hkind
  refine Ready.of_commit hcommit fun _ n _ => ?_
  have htake : s.initial.Accepts (steps.take n) := haccepts.take n
  exact (Script.exists_build htake).mpr
    (hplain.buildable _ htake fun step hstep => himports step (List.mem_of_mem_take hstep))

/-- Every call leaves a log that can be built from the index on, and calls that put edits
  there one by one leave one that can be built at every length. -/
theorem Ready.perform (hr : s.Ready whole) (hs : s.Consistent disks edits start)
    (hplain : start.initial.IsPlain) {c : Disk × Call} (hcall : whole → c.2.isBatch = false) :
    (s.perform c).Ready whole := by
  have hinitial : s.initial.IsPlain := hs.initial ▸ hplain
  rw [perform_eq]
  split
  case h_2 => exact hr
  case h_1 next h =>
    -- a batch is committed as a whole, and then nothing is asked of its beginnings
    have hbatch : ∀ {s : Session} {kept before again}, c.2.isBatch = true →
        (s.rerun c.1 kept before again).1 = .ok next → next.Ready whole := by
      intro s kept before again hc h
      unfold rerun at h
      simp only [bind_eq_ok] at h
      obtain ⟨steps, -, hcommit⟩ := h
      refine Ready.of_commit hcommit fun hwhole => ?_
      rw [hcall hwhole] at hc
      cases hc
    obtain ⟨d, call⟩ := c
    cases call with
    | apply id e => exact hr.apply hs.index_le h
    | push e =>
      have hnext : { s with nextStep := s.nextStep + 1 }.Ready whole := hr
      rw [Call.outcome, push_eq] at h
      exact hnext.apply hs.index_le h
    | handle event =>
      rw [Call.outcome, handle_eq] at h
      split at h
      · cases h
      · exact hr.apply hs.index_le h
    | undo => exact hr.undo h
    | redo => exact hr.redo h
    | clear => exact Ready.clear hinitial h
    | editStep id e idText =>
      rw [Call.outcome, editStep_eq] at h
      split at h
      · cases h
      · exact hbatch rfl h
    | load a =>
      rw [Call.outcome, load_eq] at h
      split at h
      · cases h
      · exact hbatch rfl h

/-- So do any number of calls. -/
theorem Ready.performAll (hr : s.Ready whole) (hs : s.Consistent (fun _ => True) (fun _ => True) start)
    (hplain : start.initial.IsPlain) {calls : List (Disk × Call)}
    (hcalls : whole → ∀ c ∈ calls, c.2.isBatch = false) : (s.performAll calls).Ready whole := by
  induction calls generalizing s with
  | nil => exact hr
  | cons c rest ih =>
    have hnext := hr.perform hs hplain fun hwhole => hcalls hwhole c List.mem_cons_self
    have hconsistent := hs.perform Disk.closed_all (c := c) trivial fun _ _ => trivial
    exact ih hnext hconsistent fun hwhole k hk => hcalls hwhole k (List.mem_cons_of_mem _ hk)

theorem ready_start {settings : Settings} {inputs : List (String × Frame)}
    (h : Session.start settings inputs = .ok s) : s.Ready whole := by
  obtain ⟨(hs : s.Consistent (fun _ => True) (fun _ => True) s), -, -⟩ := consistent_start h
  simp only [Session.start, bind_eq_ok, pure_eq_ok] at h
  obtain ⟨initial, -, script, hscript, rfl⟩ := h
  intro n hn _
  obtain rfl : n = 0 := Nat.le_zero.mp hn
  exact ⟨script, hs.script⟩

end Steps

/-- A step that was undone can always be redone.  A step can be undone exactly if the
  stylers of the state before it can be written and verification, if it is asked for,
  accepts the shortened chunks of the steps before it; and always if no analysis was
  loaded and no step edited.  Of sheets whose ids are told apart, a styler can be written
  exactly if the filters that color cells are readable; chunks in which nothing is
  overlooked are accepted. -/
theorem undo_and_redo {settings : Settings} {inputs : List (String × Frame)} {first : Session}
    (hstart : start settings inputs = .ok first) (calls : List (Disk × Call)) :
    let s := first.performAll calls
    let earlier := s.steps.take (s.index - 1)
    let before := s.initial.after earlier
    let chunks := Script.chunksOf earlier
    let accepted := verify s.initial.inputLayout chunks
      (Optimizer.shorten settings.passLimit chunks).chunks = .ok ()
    (s.index < s.steps.length → ∃ t, s.redo = .ok t ∧ t.SharesLog s ∧ t.index = s.index + 1)
      ∧ (s.steps.length ≤ s.index → s.redo = .ok s)
      ∧ (0 < s.index → ∀ t, s.undo = .ok t → t.SharesLog s ∧ s.index = t.index + 1)
      ∧ (s.index = 0 → s.undo = .ok s)
      ∧ (0 < s.index → ((∃ t, s.undo = .ok t)
          ↔ (∀ sh ∈ before.sheets, ∃ c, Styler.code sh = .ok c)
            ∧ (settings.optimizes = true → settings.verifies = true → accepted)))
      ∧ ((∀ c ∈ calls, c.2.isBatch = false) → ∃ t, s.undo = .ok t)
      ∧ ((∀ input ∈ inputs, input.2.headers.Nodup) → (∀ step ∈ s.steps, step.IdsApart) →
          (∀ step ∈ s.steps, step.Verbatim) →
          (∀ sh ∈ before.sheets, (∃ c, Styler.code sh = .ok c) ↔ sh.FormatReadable)
            ∧ ((∀ step ∈ s.steps, step.ResetsNative) → Optimizer.NothingOverlooked chunks →
                accepted)) := by
  intro s earlier before chunks accepted
  obtain ⟨hfirst, hsettings, hinitial⟩ := consistent_start hstart
  have hs : s.Consistent (fun _ => True) (fun _ => True) first :=
    hfirst.performAll Disk.closed_all fun _ _ => ⟨trivial, fun _ _ => trivial⟩
  have hplain := State.isPlain_ofInputs hinitial
  have hready : s.Ready False := (ready_start hstart).performAll hfirst hplain False.elim
  have haccepts : s.initial.Accepts earlier := hs.accepted.take _
  have hlong : s.index ≤ s.steps.length := hs.index_le
  refine ⟨fun hlt => ?_, fun hle => ?_, fun hpos t ht => ?_, fun hzero => ?_, fun hpos => ?_,
    fun hone => ?_, fun hnodup hapart hverbatim => ?_⟩
  · -- the script that redoing leads to is one from the index on
    obtain ⟨t, ht⟩ := exists_commit.mpr (hready (s.index + 1) hlt (.inr (Nat.le_succ _)))
    have hredo : s.redo = .ok t := by
      rw [redo_eq]
      rw [if_neg (Nat.not_le.mpr hlt), ht]
    exact ⟨t, hredo, redo_moves hredo hlt⟩
  · rw [redo_eq]
    rw [if_pos hle]
  · refine undo_moves ht fun heq => ?_
    rw [undo_eq] at ht
    rw [if_neg (Nat.ne_of_gt hpos)] at ht
    have hindex := (SharesLog.of_commit ht).2
    omega
  · rw [undo_eq]
    rw [if_pos hzero]
  · have hbuild : _ ↔ Script.Buildable settings s.initial earlier := Script.exists_build haccepts
    rw [exists_undo, or_iff_right (Nat.ne_of_gt hpos)]
    unfold Builds
    rw [hs.settings.trans hsettings]
    refine hbuild.trans ⟨fun h => ⟨h.stylers, h.verified⟩, fun h => ⟨h.1, h.2⟩⟩
  · have hwhole : s.Ready True := (ready_start hstart).performAll hfirst hplain fun _ => hone
    exact exists_undo.mpr (.inr (hwhole _ (by omega) (.inl trivial)))
  · have hstate : s.initial.Initial := ⟨inputs, hnodup, hs.initial ▸ hinitial⟩
    obtain ⟨hsound, -⟩ := hstate.sound_native
    have hearlier : ∀ step ∈ earlier, step ∈ s.steps := fun step => List.mem_of_mem_take
    have hregular : ∀ step ∈ earlier, step.Regular := fun step hstep =>
      ⟨hapart step (hearlier step hstep), hverbatim step (hearlier step hstep)⟩
    have hbefore : before.Sound := hsound.after haccepts hregular
    refine ⟨fun sh hsh => (hbefore.sheets sh hsh).exists_styler, fun hids hnothing => ?_⟩
    have hresets : ∀ step ∈ earlier, step.ResetsNative := fun step hstep =>
      hids step (hearlier step hstep)
    obtain ⟨⟨d, hd⟩, ⟨e, he⟩⟩ :=
      hsound.shorten_shows Fingerprint.interpretation settings.passLimit haccepts hregular hresets
    obtain ⟨-, -, hframes, heffects⟩ :=
      hsound.shorten_machines settings.passLimit (.inr hnothing) haccepts hregular hresets
    exact (verifyWith_eq_ok_iff hd he).mpr ⟨hframes, heffects⟩

/-! ### A sample

  A table gets a format with a color and goes.  Then the format is edited, with a value
  that is no number: as the table goes, the log is accepted, but not its beginning. -/

namespace Sample

/-- A format that colors the cells above a value. -/
def coloring (value : Json) : Edit :=
  .formatSheet ⟨0, { conditional := [⟨"", [⟨"A"⟩], [⟨.number .greater, value⟩], ⟨some "#ff0000", none⟩⟩] }⟩

/-- The calls. -/
def coloringCalls (value : Json) : List (Disk × Call) :=
  [({}, .push (coloring (.int 1))), ({}, .push (.deleteSheet ⟨0⟩)),
   ({}, .editStep (.generated 0) (coloring value) "0")]

/-- The calls with a number, and a step back. -/
def recoloringCalls : List (Disk × Call) := coloringCalls (.int 2) ++ [(({} : Disk), Call.undo)]

/-- The session over the tables. -/
def tables : Session :=
  (start { verifies := false } SheetScript.Sample.inputs).toOption.getD default

end Sample

theorem undo_and_redo_colored :
    let s := Sample.tables.performAll Sample.recoloringCalls
    start { verifies := false } SheetScript.Sample.inputs = .ok Sample.tables
      ∧ s.index = 1 ∧ s.steps.length = 2
      ∧ (∃ t, s.redo = .ok t ∧ t.index = 2)
      ∧ (∃ t, s.undo = .ok t ∧ t.index = 0) := by
  intro s
  have hstart : start { verifies := false } SheetScript.Sample.inputs = .ok Sample.tables :=
    eq_ok_of_toBool (by decide) default
  have hindex : s.index = 1 := by decide
  have hlength : s.steps.length = 2 := by decide
  obtain ⟨hredo, -, hundone, -, hundo, -⟩ := undo_and_redo hstart Sample.recoloringCalls
  obtain ⟨t, ht, -, (hup : t.index = s.index + 1)⟩ :=
    hredo (show s.index < s.steps.length by omega)
  have hpos : 0 < s.index := by omega
  have hstylers : ∀ sh ∈ (s.initial.after (s.steps.take (s.index - 1))).sheets,
      (Styler.code sh).toBool = true := by decide
  obtain ⟨u, hu⟩ := (hundo hpos).mpr
    ⟨fun sh hsh => ⟨_, eq_ok_of_toBool (hstylers sh hsh) none⟩, fun _ hverifies => by cases hverifies⟩
  obtain ⟨-, (hdown : s.index = u.index + 1)⟩ := hundone hpos u hu
  exact ⟨hstart, hindex, hlength, ⟨t, ht, by omega⟩, u, hu, by omega⟩

/-- An edited step is accepted with the log behind it, and the log cannot be taken back
  to it. -/
theorem undo_refused_after_edit :
    let s := Sample.tables.performAll (Sample.coloringCalls (.string "x"))
    start { verifies := false } SheetScript.Sample.inputs = .ok Sample.tables
      ∧ s.index = 2 ∧ s.steps.length = 2 ∧ ∀ t, s.undo ≠ .ok t := by
  intro s
  have hrefused : s.undo.toBool = false := by decide
  refine ⟨eq_ok_of_toBool (by decide) default, by decide, by decide,
    fun t ht => ?_⟩
  rw [ht] at hrefused
  cases hrefused

end Session

end SheetScript
