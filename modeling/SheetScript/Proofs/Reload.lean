import SheetScript.Proofs.Analysis.Canonical
import SheetScript.Proofs.Exports
import SheetScript.Proofs.Optimizer.Bodies

/-! # Sessions that are saved and loaded

  A saved session holds the edits of the steps that are not undone, and loading it runs
  them again under new ids.  As long as a step finds what it needs on the disk, it does the
  same again: it has the same states around it and its code has the same text.

  - `Session.reload`: a session that is saved, written, read and loaded into a fresh session
    is the same but for the ids of its steps.
  - `Session.serves_undisturbed`: where nothing else changes the disk, the files that are
    imported are all that steps need.
-/

namespace SheetScript

/-! ### Steps that run again -/

/-- The files that an edit imports. -/
def Edit.imports : Edit → List String
  | .importFiles e => e.files
  | _ => []

namespace Step

/-- A step that is another one over again, maybe under another id. -/
structure Repeats (first again : Step) : Prop where
  edit : again.edit = first.edit
  before : again.before = first.before
  after : again.after = first.after
  bodies : Chunk.bodies again.chunks = Chunk.bodies first.chunks

/-- An edit that comes out the same makes the same step. -/
theorem run_again {d d' : Disk} {id : StepId} {e : Edit} {s : State} {step : Step}
    (hrun : Step.run d id e s = .ok step) (hsame : e.change d' s = e.change d s) (again : StepId) :
    ∃ next, Step.run d' again e s = .ok next ∧ step.Repeats next := by
  obtain ⟨c, hc, rfl⟩ := run_eq_ok hrun
  refine ⟨⟨again, e, s, c.state, c.code.map fun body => ⟨again, body⟩⟩, ?_, rfl, rfl, rfl, ?_⟩
  · rw [Step.run, hsame, hc]
    rfl
  · rw [Chunk.bodies, Chunk.bodies, List.map_map, List.map_map]
    rfl

/-- Whether the files that a step imported hold on a disk what they held. -/
def Unchanged (d : Disk) (step : Step) : Prop :=
  match step.edit with
  | .importFiles e => ∃ d', Step.run d' step.id step.edit step.before = .ok step
      ∧ ∀ p ∈ e.files, d.content? p = d'.content? p
  | _ => True

/-- They still do where other files have changed. -/
theorem Unchanged.sameBut {d d' : Disk} {step : Step} {paths : List String}
    (h : step.Unchanged d) (hsame : Disk.SameBut paths d d')
    (hapart : ∀ p ∈ step.edit.imports, ∀ q ∈ paths, d.key q ≠ d.key p) :
    step.Unchanged d' := by
  unfold Unchanged at h ⊢
  generalize step.edit = e at h hapart ⊢
  cases e with
  | importFiles e =>
    obtain ⟨d'', hrun, hfiles⟩ := h
    exact ⟨d'', hrun, fun p hp => (hsame.files p (hapart p hp)).trans (hfiles p hp)⟩
  | _ => trivial

/-- Whether the files that a step exports can be written on a disk. -/
def Writable (d : Disk) (step : Step) : Prop :=
  match step.edit with
  | .exportSheets e =>
    ∀ sheets, e.sheetsOf step.before = .ok sheets → (e.write d sheets).1 = .ok ()
  | _ => True

end Step

/-- Where the files can be written, an export gives the same on every disk. -/
theorem ExportSheets.change_eq {e : ExportSheets} {d d' : Disk} {s : State} {c : Change}
    (h : (e.run d s).1 = .ok c)
    (hwrite : ∀ sheets, e.sheetsOf s = .ok sheets → (e.write d' sheets).1 = .ok ()) :
    (e.run d' s).1 = (e.run d s).1 := by
  obtain ⟨sheets, hsheets, hfirst⟩ := written_of_run h
  rw [run_fst hsheets hfirst, run_fst hsheets (hwrite sheets hsheets)]

namespace Step

/-- A step that finds what it imported and can write what it exports runs again. -/
theorem Unchanged.run {d d' : Disk} {s : State} {step : Step} (h : step.Unchanged d)
    (hwritable : step.Writable d) (hrun : Step.run d' step.id step.edit s = .ok step)
    (again : StepId) :
    ∃ next, Step.run d again step.edit s = .ok next ∧ step.Repeats next := by
  obtain rfl := before_eq hrun
  unfold Unchanged at h
  unfold Writable at hwritable
  generalize hedit : step.edit = e at h hwritable hrun ⊢
  cases e with
  | importFiles e =>
    obtain ⟨d'', hrun, hfiles⟩ := h
    exact run_again hrun (ImportFiles.run_congr hfiles _) again
  | exportSheets e =>
    obtain ⟨c, hc, -⟩ := run_eq_ok hrun
    exact run_again hrun (ExportSheets.change_eq hc hwritable) again
  | _ => exact run_again hrun rfl again

end Step

/-! ### Disks that serve steps -/

namespace Disk

/-- What holds of each of some steps when its turn comes, on the disk as the steps before it
  left it. -/
inductive Along (P : Disk → Step → Prop) : Disk → List Step → Prop
  | nil (d : Disk) : Along P d []
  | cons {d : Disk} {step : Step} {rest : List Step} (first : P d step)
      (later : Along P (step.edit.diskAfter d step.before) rest) : Along P d (step :: rest)

/-- Whether each of some steps finds what it imported when its turn comes, and can write what
  it exports. -/
def Serves (d : Disk) (steps : List Step) : Prop :=
  Along (fun d step => step.Unchanged d ∧ step.Writable d) d steps

variable {d : Disk} {steps : List Step}

/-- Where there is what the steps exported, it is enough that they find what they imported. -/
theorem Along.serves (h : Along (fun d step => step.Unchanged d) d steps) (hd : d.Sound)
    (hruns : ∀ step ∈ steps,
      ∃ d', d'.Sound ∧ Step.run d' step.id step.edit step.before = .ok step)
    (hleft : ∀ step ∈ steps, step.Left d) : d.Serves steps := by
  induction h with
  | nil d => exact .nil d
  | @cons d step rest hunchanged hlater ih =>
    obtain ⟨⟨d', hd', hrun⟩, hruns⟩ := List.forall_mem_cons.mp hruns
    obtain ⟨hfirst, hleft⟩ := List.forall_mem_cons.mp hleft
    -- no step takes away what another one exported
    obtain ⟨hkeeps, hsound⟩ := step.edit.diskAfter_keeps hd step.before
    refine .cons ⟨hunchanged, ?_⟩ (ih hsound hruns fun k hk => (hleft k hk).mono hkeeps)
    unfold Step.Left at hfirst
    unfold Step.Writable
    generalize step.edit = e at hrun hfirst ⊢
    cases e with
    | exportSheets e =>
      obtain ⟨c, hc, -⟩ := Step.run_eq_ok hrun
      obtain ⟨sheets, hsheets, hwrite⟩ := ExportSheets.written_of_run hc
      -- the state before is the same, and so are the sheets
      intro sheets' hsheets'
      obtain rfl : sheets = sheets' := Except.ok.inj (hsheets.symm.trans hsheets')
      exact ExportSheets.write_again hd' hwrite hd (hfirst sheets hsheets)
    | _ => trivial

/-- If the files that are imported are unchanged on a disk and no export goes there, they are
  unchanged when the turn of their step comes. -/
theorem along_unchanged (h : ∀ step ∈ steps, step.Unchanged d)
    (hapart : ∀ step ∈ steps, ∀ q ∈ step.edit.exports, ∀ later ∈ steps, ∀ p ∈ later.edit.imports,
      d.key q ≠ d.key p) : Along (fun d step => step.Unchanged d) d steps := by
  induction steps generalizing d with
  | nil => exact .nil d
  | cons step rest ih =>
    obtain ⟨hfirst, hrest⟩ := List.forall_mem_cons.mp h
    have hsame := step.edit.diskAfter_sameBut d step.before
    refine .cons hfirst (ih (fun later hlater => ?_) fun k hk q hq later hlater =>
      hsame.key ▸ hapart k (List.mem_cons_of_mem _ hk) q hq later (List.mem_cons_of_mem _ hlater))
    refine (hrest later hlater).sameBut hsame fun p hp q hq => ?_
    exact hapart step List.mem_cons_self q hq later (List.mem_cons_of_mem _ hlater) p hp

end Disk

/-- Without exports, a disk serves the steps if the files to be imported hold what they held
  all along. -/
theorem State.AcceptsOn.serves {paths : List String} {content : String → Option FileContent}
    {d : Disk} {s : State} {steps : List Step}
    (h : s.AcceptsOn (fun d => ∀ p ∈ paths, d.content? p = content p) steps)
    (hedits : ∀ step ∈ steps, step.edit.ReadsOnly paths)
    (hd : ∀ p ∈ paths, d.content? p = content p) : d.Serves steps := by
  induction steps generalizing d s with
  | nil => exact .nil d
  | cons step rest ih =>
    obtain ⟨⟨d', hd', hrun⟩, hrest⟩ := h
    obtain rfl := Step.before_eq hrun
    have hedit := hedits step List.mem_cons_self
    have hnext := (Disk.steady_of_content paths content).closed step.edit hedit d hd step.before
    refine .cons ⟨?_, ?_⟩ (ih hrest (fun k hk => hedits k (List.mem_cons_of_mem _ hk)) hnext)
    · unfold Step.Unchanged
      split
      · next e he =>
        rw [he] at hedit
        exact ⟨d', hrun, fun p hp => (hd p (hedit p hp)).trans (hd' p (hedit p hp)).symm⟩
      · trivial
    · unfold Step.Writable
      split
      · next e he =>
        rw [he] at hedit
        exact hedit.elim
      · trivial

/-- Accepted steps on a disk that serves them are replayed under any ids. -/
theorem State.AcceptsOn.replay_again {disks : Disk → Prop} {d : Disk} {s : State}
    {steps : List Step} (h : s.AcceptsOn disks steps) (hserves : d.Serves steps)
    {numbered : List (StepId × Edit)} (hnumbered : numbered.map Prod.snd = steps.map Step.edit) :
    ∃ again, (Step.replay d s numbered).1 = .ok again ∧ List.Forall₂ Step.Repeats steps again := by
  induction steps generalizing d s numbered with
  | nil =>
    obtain rfl := List.map_eq_nil_iff.mp hnumbered
    exact ⟨[], rfl, .nil⟩
  | cons step rest ih =>
    obtain ⟨⟨d', -, hrun⟩, hrest⟩ := h
    obtain ⟨⟨hunchanged, hwritable⟩, hserves⟩ : (step.Unchanged d ∧ step.Writable d)
        ∧ (step.edit.diskAfter d step.before).Serves rest := by
      cases hserves with
      | cons hfirst hserves => exact ⟨hfirst, hserves⟩
    obtain rfl := Step.before_eq hrun
    cases numbered with
    | nil => cases hnumbered
    | cons first later =>
      obtain ⟨id, e⟩ := first
      obtain ⟨rfl, hlater⟩ := List.cons.inj hnumbered
      obtain ⟨next, hnext, hrepeats⟩ := hunchanged.run hwritable hrun id
      -- the rest starts in the same state, and on the disk that the step leaves
      rw [← hrepeats.after] at hrest
      obtain ⟨again, hagain, hall⟩ := ih hrest hserves hlater
      refine ⟨next :: again, ?_, .cons hrepeats hall⟩
      unfold Step.replay
      dsimp only
      rw [hnext]
      dsimp only
      rw [hagain]
      rfl

/-! ### The script of repeated steps -/

section Repeated

variable {steps again : List Step}

theorem State.after_repeats (s : State) (h : List.Forall₂ Step.Repeats steps again) :
    s.after again = s.after steps := by
  induction h generalizing s with
  | nil => rfl
  | cons hfirst _ ih => rw [State.after_cons, State.after_cons, hfirst.after, ih]

theorem Script.chunksOf_repeats (h : List.Forall₂ Step.Repeats steps again) :
    Chunk.bodies (Script.chunksOf again) = Chunk.bodies (Script.chunksOf steps) := by
  induction h with
  | nil => rfl
  | cons hfirst _ ih =>
    simp only [Script.chunksOf, Chunk.bodies, List.flatMap_cons, List.map_append] at ih ⊢
    rw [ih, ← Chunk.bodies, hfirst.bodies]
    rfl

/-- Chunks with the same bodies are shortened alike, if the settings ask for it. -/
theorem Script.shortened_bodies {settings : Settings} {inputs : Symbolic.InputLayout}
    {as bs chunks : List Chunk} {report : Optimizer.Report} (h : Chunk.bodies as = Chunk.bodies bs)
    (has : Script.shortened settings inputs as = .ok (chunks, report)) :
    ∃ chunks', Script.shortened settings inputs bs = .ok (chunks', report)
      ∧ Chunk.bodies chunks' = Chunk.bodies chunks := by
  unfold Script.shortened at has ⊢
  split at has
  · next hoptimizes =>
    rw [if_pos hoptimizes]
    exact Optimizer.optimize_bodies h has
  · next hoptimizes =>
    rw [if_neg hoptimizes]
    obtain ⟨rfl, rfl⟩ := Prod.mk.inj (Except.ok.inj has)
    have hlength : as.length = bs.length := by
      rw [← Optimizer.length_bodies, h, Optimizer.length_bodies]
    exact ⟨bs, by simp only [Optimizer.Report.untouched, hlength], h.symm⟩

/-- A script with the text of another one, whose chunks come from other steps. -/
structure Script.SameText (a b : Script) : Prop where
  preamble : a.preamble = b.preamble
  bodies : Chunk.bodies a.chunks = Chunk.bodies b.chunks
  stylers : a.stylers = b.stylers
  report : a.report = b.report

namespace Script.SameText

variable {a b : Script}

theorem statements (h : a.SameText b) : a.statements = b.statements := by
  have hcode : ∀ s : Script, s.statements = (Chunk.bodies s.chunks).flatMap ChunkBody.code := by
    intro s
    rw [Chunk.bodies, List.flatMap_map]
    rfl
  rw [hcode, hcode, h.bodies]

theorem isEmpty (h : a.SameText b) : a.isEmpty = b.isEmpty := by
  rw [Script.isEmpty, Script.isEmpty, h.stylers, h.statements]

theorem head (h : a.SameText b) : a.head = b.head := by
  unfold Script.head
  rw [h.stylers, h.preamble]

theorem lines (h : a.SameText b) : a.lines = b.lines := by
  rw [Script.lines, Script.lines, h.isEmpty, h.head, h.statements, h.stylers]

theorem commented (h : a.SameText b) : a.commented = b.commented := by
  have hsections : ∀ s : Script, s.chunks.filterMap section?
      = (Chunk.bodies s.chunks).filterMap fun body => section? ⟨.named "", body⟩ := by
    intro s
    rw [Chunk.bodies, List.filterMap_map]
    rfl
  rw [Script.commented, Script.commented, h.isEmpty, h.head, hsections, hsections, h.bodies,
    h.stylers]

end Script.SameText

/-- Repeated steps have a script with the same text. -/
theorem Script.build_repeats {settings : Settings} {final : State} {script : Script}
    (h : List.Forall₂ Step.Repeats steps again)
    (hbuild : Script.build settings steps final = .ok script) :
    ∃ script', Script.build settings again final = .ok script' ∧ script'.SameText script := by
  have hhead : (again.head?.map Step.before).getD final
      = (steps.head?.map Step.before).getD final := by
    cases h with
    | nil => rfl
    | cons hfirst _ => exact hfirst.before
  have hchunks := Script.chunksOf_repeats h
  simp only [Script.build, hhead, bind_eq_ok, pure_eq_ok, Prod.exists] at hbuild ⊢
  obtain ⟨chunks, report, hshort, stylers, hstylers, rfl⟩ := hbuild
  obtain ⟨chunks', hshort', hbodies⟩ := Script.shortened_bodies hchunks.symm hshort
  exact ⟨_, ⟨chunks', report, hshort', stylers, hstylers, rfl⟩, rfl, hbodies, rfl, rfl⟩

end Repeated

namespace Session

/-- What is saved of repeated steps is the same. -/
theorem ofSteps_repeats {steps again : List Step} (h : List.Forall₂ Step.Repeats steps again) :
    Analysis.ofSteps again = Analysis.ofSteps steps := by
  unfold Analysis.ofSteps
  rw [map_eq_of_forall₂ h fun a b hab => congrArg StoredEdit.ofEdit hab.edit]

/-- If nothing else changes the disk and no imported file is exported to, a session finds
  there what its steps need as long as the imported files are unchanged. -/
theorem serves_undisturbed {settings : Settings} {inputs : List (String × Frame)}
    {first : Session} (hstart : start settings inputs = .ok first) {d : Disk} (hd : d.Sound)
    (calls : List Call) :
    let here := performAllOn (first, d) calls
    (∃ timed : List (Disk × Call), timed.map Prod.snd = calls ∧ here.1 = first.performAll timed)
      ∧ ((∀ step ∈ here.1.applied, step.Unchanged here.2) →
        (∀ step ∈ here.1.applied, ∀ q ∈ step.edit.exports,
          ∀ later ∈ here.1.applied, ∀ p ∈ later.edit.imports, here.2.key q ≠ here.2.key p) →
        here.2.Serves here.1.applied) := by
  intro here
  refine ⟨performAllOn_fst (first, d) calls, fun hunchanged hapart => ?_⟩
  have hfirst : Undisturbed (fun _ => True) (first, d) first := by
    obtain ⟨hconsistent, -, -⟩ := consistent_start hstart
    refine ⟨hd, hconsistent, fun step hstep => ?_⟩
    rw [steps_start hstart] at hstep
    cases hstep
  have hhere : Undisturbed (fun _ => True) here first :=
    hfirst.performAllOn fun _ _ _ _ => trivial
  exact (Disk.along_unchanged hunchanged hapart).serves hhere.sound
    (fun step hstep => hhere.consistent.accepted.runs step (List.mem_of_mem_take hstep))
    fun step hstep => hhere.left step (List.mem_of_mem_take hstep)

/-- A session that was loaded from what another one saved: it is the same but for the steps
  that were undone and for the ids of the others. -/
structure Restores (next s : Session) : Prop where
  settings : next.settings = s.settings
  initial : next.initial = s.initial
  index : next.index = next.steps.length
  current : next.current = s.current
  steps : List.Forall₂ Step.Repeats s.applied next.applied
  script : next.script.SameText s.script
  lines : next.script.lines = s.script.lines
  commented : next.script.commented = s.script.commented
  saved : next.saved = s.saved

/-! ### Calls -/

/-- What an event with canonical parameters asks for is well-formed. -/
theorem wellFormed_event {event : EditEvent} {e : Edit} (hparams : event.params.IsCanonical)
    (h : event.edit = .ok e) : e.WellFormed := by
  unfold EditEvent.edit at h
  split at h
  · cases h
  · exact Edit.wellFormed_ofParts hparams h

/-- A call with edits that their types can hold, and with parameters in canonical form where
  edits are yet to be read. -/
def Call.WellFormed : Call → Prop
  | apply _ e | push e | editStep _ e _ => e.WellFormed
  | handle event => event.params.IsCanonical
  | load a => ∀ s ∈ a.steps, s.params.IsCanonical
  | undo | redo | clear => True

/-- The edits that a call brings are well-formed if the call is. -/
theorem Call.wellFormed_edits {call : Call} (h : call.WellFormed) (sheets : Nat) :
    ∀ e ∈ call.edits sheets, e.WellFormed := by
  intro e he
  cases call with
  | apply | push | editStep =>
    obtain rfl := List.mem_singleton.mp he
    exact h
  | handle event =>
    unfold Call.edits at he
    dsimp only at he
    cases hread : event.edit with
    | error fault =>
      rw [hread] at he
      cases he
    | ok e' =>
      rw [hread] at he
      obtain rfl := List.mem_singleton.mp he
      exact wellFormed_event h hread
  | load a =>
    unfold Call.edits at he
    dsimp only at he
    cases hread : (a.upgrade sheets).bind Analysis.edits with
    | error fault =>
      rw [hread] at he
      cases he
    | ok edits =>
      rw [hread] at he
      exact Analysis.wellFormed_edits h hread e he
  | undo | redo | clear => cases he

/-! ### Saving and loading -/

/-- However a session came about, it can be saved and loaded: the text of its analysis is
  read back, and loaded into a fresh session over the same inputs and settings it gives the
  same sheets, the same steps but for their ids, a script with the same text, and the same
  analysis again. -/
theorem reload {settings : Settings} {inputs : List (String × Frame)} {first : Session}
    (hstart : start settings inputs = .ok first) (calls : List (Disk × Call))
    (hcalls : ∀ c ∈ calls, c.2.WellFormed)
    {d : Disk} (hserves : d.Serves (first.performAll calls).applied)
    (hread : Json.ofText? (first.performAll calls).saved.text
      = some (first.performAll calls).saved.toJson) :
    let s := first.performAll calls
    Analysis.parse s.saved.text = .ok s.saved
      ∧ ∃ next, (first.load d s.saved).1 = .ok next ∧ next.Restores s := by
  intro s
  obtain ⟨hfirst, -, -⟩ := consistent_start hstart
  have hclosed : Disk.Closed (fun _ => True) Edit.WellFormed := fun _ _ _ _ _ => trivial
  have hs : s.Consistent (fun _ => True) Edit.WellFormed first :=
    hfirst.performAll hclosed fun c hc => ⟨trivial, Call.wellFormed_edits (hcalls c hc) _⟩
  have hedits : ∀ step ∈ s.applied, step.edit.WellFormed := fun step hstep =>
    hs.edits step (List.mem_of_mem_take hstep)
  refine ⟨Analysis.parse_ofSteps s.applied hread, ?_⟩
  -- the edits are those of the steps, and they are run under new ids
  have hprepared : (s.saved.upgrade first.initial.sheets.length).bind Analysis.edits
      = .ok (s.applied.map Step.edit) := by
    rw [saved, Analysis.upgrade_ofSteps hedits]
    exact Analysis.edits_ofSteps hedits
  generalize hnumbered : (s.applied.map Step.edit).zipIdx.map
    (fun e => (StepId.generated (first.nextStep + e.2), e.1)) = numbered
  have hedited : numbered.map Prod.snd = s.applied.map Step.edit := by
    rw [← hnumbered, List.map_map]
    exact List.zipIdx_map_fst 0 _
  -- the steps were accepted one after the other, so they are replayed where they are served
  obtain ⟨again, hagain, hrepeats⟩ := (hs.accepted.take s.index).replay_again hserves hedited
  rw [hs.initial] at hagain
  have hafter : first.initial.after again = s.current := by
    rw [State.after_repeats _ hrepeats, ← hs.initial]
    rfl
  -- the script is built of bodies, and the ids are not among them
  obtain ⟨script, hscript, hsame⟩ := Script.build_repeats hrepeats hs.script
  rw [hs.settings, ← hafter] at hscript
  have happlied : again.take again.length = again := List.take_length
  refine ⟨{ first with
    nextStep := first.nextStep + (s.applied.map Step.edit).length
    steps := again
    index := again.length
    script := script }, ?_, hs.settings.symm, hs.initial.symm, rfl, ?_, ?_, hsame, hsame.lines,
    hsame.commented, ?_⟩
  · rw [load_eq, hprepared]
    dsimp only
    rw [hnumbered]
    simp only [rerun, State.after, commit, bind_eq_ok, pure_eq_ok]
    refine ⟨again, hagain, script, ?_, rfl⟩
    rw [List.nil_append, happlied]
    exact hscript
  · rw [← hafter]
    exact congrArg first.initial.after happlied
  · unfold applied
    rwa [happlied]
  · unfold saved applied
    rw [happlied]
    exact ofSteps_repeats hrepeats

/-! A file is imported and a column of it renamed, a deletion is undone, and the session is
  saved and loaded while there is one more file on the disk. -/

namespace Sample

/-- The calls before the session is saved. -/
def savedCalls : List (Disk × Call) :=
  [(disk, .push (.importFiles ⟨["f.csv"], false⟩)),
   (disk, .push (.renameColumn ⟨0, ⟨"X"⟩, "Z"⟩)),
   (disk, .push (.deleteColumns ⟨0, [⟨"Y"⟩]⟩)),
   (disk, .undo)]

end Sample

theorem reload_sample :
    let s := Sample.first.performAll Sample.savedCalls
    start { verifies := false } [] = .ok Sample.first
      ∧ s.index = 2 ∧ s.steps.length = 3
      ∧ (∀ c ∈ Sample.savedCalls, c.2.WellFormed)
      ∧ Sample.laterDisk.Serves s.applied
      ∧ Json.ofText? s.saved.text = some s.saved.toJson
      ∧ ∃ next, (Sample.first.load Sample.laterDisk s.saved).1 = .ok next ∧ next.Restores s := by
  intro s
  have hstart : start { verifies := false } [] = .ok Sample.first :=
    eq_ok_of_toBool (by decide +kernel) default
  have hcalls : ∀ c ∈ Sample.savedCalls, c.2.WellFormed := by
    simp only [Sample.savedCalls, List.forall_mem_cons, Call.WellFormed, List.not_mem_nil,
      false_imp_iff, implies_true, and_true]
    exact ⟨⟨by decide, trivial⟩, ⟨by decide, trivial⟩, ⟨by decide, trivial⟩⟩
  have hserves : Sample.laterDisk.Serves s.applied := by
    have hsteady := Disk.steady_of_content ["f.csv"] Sample.disk.content?
    have hs : s.Consistent _ (Edit.ReadsOnly ["f.csv"]) Sample.first :=
      (consistent_start hstart).1.performAll hsteady.closed (by
        simp [Sample.savedCalls, Call.edits, Edit.ReadsOnly])
    exact (hs.accepted.take s.index).serves
      (fun step hstep => hs.edits step (List.mem_of_mem_take hstep)) (by decide +kernel)
  have hread : Json.ofText? s.saved.text = some s.saved.toJson :=
    Analysis.ofText?_text (by decide +kernel)
  obtain ⟨-, hloads⟩ := reload hstart Sample.savedCalls hcalls hserves hread
  exact ⟨hstart, by decide +kernel, by decide +kernel, hcalls, hserves, hread, hloads⟩

end Session

end SheetScript
