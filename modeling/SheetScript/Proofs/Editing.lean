import SheetScript.Proofs.Branching

/-! # Editing a step starts over

  When a step is edited, only the steps behind it run again, on the state that the step
  before it left.  Every beginning of a log is what replaying its edits gives, so the
  outcome is that of starting over with the edited list: the same edits are refused, and
  the same log, states and script come out of it.  Clearing a session starts over with
  the imports.

  Main statement: `Session.edit_starts_over`.
-/

namespace SheetScript

/-! ### Replaying on steady disks -/

section Disks

variable {disks : Disk → Prop} {edits : Edit → Prop} {d d' : Disk} {s : State}

/-- Replaying goes on behind an accepted step. -/
theorem Step.replay_cons {id : StepId} {e : Edit} {step : Step}
    (h : Step.run d id e s = .ok step) (es : List (StepId × Edit)) :
    (Step.replay d s ((id, e) :: es)).1
      = (Step.replay (e.diskAfter d s) step.after es).1.map fun later => step :: later := by
  conv_lhs => unfold Step.replay
  dsimp only
  rw [h]

/-- On steady disks edits are replayed alike. -/
theorem Disk.Steady.replay_eq (hsteady : Disk.Steady disks edits) (hd : disks d) (hd' : disks d')
    {es : List (StepId × Edit)} (hes : ∀ e ∈ es, edits e.2) :
    (Step.replay d s es).1 = (Step.replay d' s es).1 := by
  induction es generalizing d d' s with
  | nil => rfl
  | cons first rest ih =>
    obtain ⟨id, e⟩ := first
    obtain ⟨he, hrest⟩ := List.forall_mem_cons.mp hes
    unfold Step.replay
    dsimp only
    rw [hsteady.run_eq he hd hd' id s]
    cases Step.run d' id e s with
    | error f => rfl
    | ok step =>
      dsimp only
      rw [ih (hsteady.closed e he d hd s) (hsteady.closed e he d' hd' s) hrest]

/-- On steady disks accepted steps come back when their edits are replayed, and what is
  replayed behind them starts where they ended. -/
theorem State.AcceptsOn.replay_behind (hsteady : Disk.Steady disks edits) {kept : List Step}
    (h : s.AcceptsOn disks kept) (hkept : ∀ step ∈ kept, edits step.edit) (hd : disks d)
    {es : List (StepId × Edit)} (hes : ∀ e ∈ es, edits e.2) :
    (Step.replay d s (kept.map Session.again ++ es)).1
      = (Step.replay d (s.after kept) es).1.map fun later => kept ++ later := by
  induction kept generalizing d s with
  | nil =>
    show (Step.replay d s es).1 = (Step.replay d s es).1.map id
    cases (Step.replay d s es).1 <;> rfl
  | cons step rest ih =>
    obtain ⟨⟨d', hd', hrun⟩, hrest⟩ := h
    obtain ⟨hedit, hedits⟩ := List.forall_mem_cons.mp hkept
    rw [hsteady.run_eq hedit hd' hd] at hrun
    have hwritten := hsteady.closed step.edit hedit d hd s
    show (Step.replay d s ((step.id, step.edit) :: (rest.map Session.again ++ es))).1 = _
    rw [Step.replay_cons hrun, ih hrest hedits hwritten, State.after_cons,
      hsteady.replay_eq hd hwritten hes]
    cases (Step.replay _ (step.after.after rest) es).1 <;> rfl

end Disks

namespace Session

/-! ### Starting over -/

/-- A session that starts over with some edits: its log is what replaying them from the
  initial state gives, with its script, and no step is undone. -/
def StartsOver (s : Session) (d : Disk) (edits : List (StepId × Edit)) (next : Session) : Prop :=
  ∃ steps script, (Step.replay d s.initial edits).1 = .ok steps
    ∧ Script.build s.settings steps (s.initial.after steps) = .ok script
    ∧ next = { s with steps, index := steps.length, script }

section Outcomes

variable {disks : Disk → Prop} {edits : Edit → Prop} {s start next : Session} {d : Disk}
  {kept : List Step} {es : List (StepId × Edit)}

/-- A session that starts over has the edits under their ids as its log. -/
theorem StartsOver.log (h : s.StartsOver d es next) :
    next.steps.map again = es ∧ next.applied = next.steps ∧ next.initial = s.initial
      ∧ (Step.replay d s.initial es).1 = .ok next.steps
      ∧ Script.build s.settings next.steps next.current = .ok next.script := by
  obtain ⟨steps, script, hsteps, hscript, rfl⟩ := h
  obtain ⟨-, hagain⟩ := Step.acceptsOn_of_replay Disk.closed_all trivial (fun _ _ => trivial) hsteps
  refine ⟨hagain, List.take_length, rfl, hsteps, ?_⟩
  show Script.build s.settings steps (s.initial.after (steps.take steps.length)) = .ok script
  rw [List.take_length]
  exact hscript

/-- What is run again behind some steps is accepted if it can be replayed and the script of
  the whole log can be built. -/
theorem rerun_eq_ok {before : State} : (s.rerun d kept before es).1 = .ok next
    ↔ ∃ later script, (Step.replay d before es).1 = .ok later
      ∧ Script.build s.settings (kept ++ later) (s.initial.after (kept ++ later)) = .ok script
      ∧ next = { s with steps := kept ++ later, index := (kept ++ later).length, script } := by
  unfold rerun commit
  simp only [bind_eq_ok, pure_eq_ok, List.take_length]
  constructor
  · rintro ⟨later, hlater, script, hscript, rfl⟩
    exact ⟨later, script, hlater, hscript, rfl⟩
  · rintro ⟨later, script, hlater, hscript, rfl⟩
    exact ⟨later, hlater, script, hscript, rfl⟩

/-- Running edits again behind a beginning of the log is starting over with the edits of the
  beginning in front of them. -/
theorem Consistent.rerun_iff (hs : s.Consistent disks edits start)
    (hsteady : Disk.Steady disks edits) (hd : disks d) (hkept : kept <+: s.steps)
    (hes : ∀ e ∈ es, edits e.2) :
    (s.rerun d kept (s.initial.after kept) es).1 = .ok next
      ↔ s.StartsOver d (kept.map again ++ es) next := by
  have haccepted : s.initial.AcceptsOn disks kept := by
    rw [List.prefix_iff_eq_take.mp hkept]
    exact hs.accepted.take _
  have hreplay := haccepted.replay_behind hsteady
    (fun step hmem => hs.edits step (hkept.subset hmem)) hd hes
  rw [rerun_eq_ok]
  unfold StartsOver
  simp only [hreplay, map_eq_ok]
  constructor
  · rintro ⟨later, script, hlater, hscript, rfl⟩
    exact ⟨_, script, ⟨later, hlater, rfl⟩, hscript, rfl⟩
  · rintro ⟨_, script, ⟨later, hlater, rfl⟩, hscript, rfl⟩
    exact ⟨later, script, hlater, hscript, rfl⟩

/-- Where ids differ, the first step with the id of a step is that step. -/
theorem findIdx?_id {steps : List Step} {i : Nat} {step : Step}
    (hnd : (steps.map Step.id).Nodup) (hi : steps[i]? = some step) :
    (steps.findIdx? fun k => k.id = step.id) = some i := by
  obtain ⟨hlt, rfl⟩ := List.getElem?_eq_some_iff.mp hi
  refine List.findIdx?_eq_some_iff_getElem.mpr ⟨hlt, decide_eq_true rfl, fun j hj => ?_⟩
  have hne : steps[j].id ≠ steps[i].id :=
    List.pairwise_iff_getElem.mp (List.pairwise_map.mp hnd) j i (by omega) hlt hj
  rwa [decide_eq_true_eq]

/-- The edited list: the edits of a log with another one in one place. -/
theorem map_again_set {steps : List Step} {i : Nat} (hlt : i < steps.length)
    (edited : StepId × Edit) :
    (steps.map again).set i edited
      = (steps.take i).map again ++ edited :: (steps.drop (i + 1)).map again := by
  rw [List.set_eq_take_append_cons_drop, if_pos (by rwa [List.length_map]), List.map_take,
    List.map_drop]

theorem Consistent.editStep_iff (hs : s.Consistent disks edits start)
    (hsteady : Disk.Steady disks edits) (hd : disks d) {i : Nat} {step : Step} {e : Edit}
    (hi : s.applied[i]? = some step) (hnd : (s.applied.map Step.id).Nodup) (he : edits e)
    (idText : String) :
    (s.editStep d step.id e idText).1 = .ok next
      ↔ s.StartsOver d ((s.applied.map again).set i (step.id, e)) next := by
  have hlt : i < s.applied.length := (List.getElem?_eq_some_iff.mp hi).1
  have happlied : ∀ k ∈ s.applied, edits k.edit := fun k hk => hs.edits k (List.mem_of_mem_take hk)
  have hfound := findIdx?_id hnd hi
  rw [editStep_eq, hfound, map_again_set hlt]
  dsimp only
  rw [hs.before_applied hfound]
  refine hs.rerun_iff hsteady hd ((List.take_prefix i _).trans (List.take_prefix _ _)) ?_
  refine List.forall_mem_cons.mpr ⟨he, fun k hk => ?_⟩
  obtain ⟨later, hlater, rfl⟩ := List.mem_map.mp hk
  exact happlied later (List.mem_of_mem_drop hlater)

/-- Clearing needs no steady disks: nothing is kept. -/
theorem clear_iff : (s.clear d).1 = .ok next
    ↔ s.StartsOver d ((s.applied.filter fun step => step.kind.isImport).map again) next := by
  rw [clear_eq]
  exact rerun_eq_ok

end Outcomes

/-- However a session came about, where the files are steady and the ids of the steps that
  are not undone differ: editing any of these steps is accepted exactly if one can start
  over with the edited list, and it leaves the same session.  Clearing is accepted exactly
  if one can start over with the imports.  A session that starts over has the edits under
  their ids as its log, with no undone step; a refused call changes nothing. -/
theorem edit_starts_over {settings : Settings} {inputs : List (String × Frame)} {first : Session}
    (hstart : start settings inputs = .ok first) (calls : List (Disk × Call))
    {disks : Disk → Prop} {edits : Edit → Prop} (hsteady : Disk.Steady disks edits)
    (hcalls : ∀ c ∈ calls, disks c.1 ∧ ∀ e ∈ c.2.edits first.initial.sheets.length, edits e) :
    let s := first.performAll calls
    s.settings = settings ∧ State.ofInputs inputs = .ok s.initial
      ∧ ((s.applied.map Step.id).Nodup →
          ∀ i step, s.applied[i]? = some step → ∀ d, disks d → ∀ e, edits e → ∀ idText next,
            (s.editStep d step.id e idText).1 = .ok next
              ↔ s.StartsOver d ((s.applied.map again).set i (step.id, e)) next)
      ∧ (∀ d next, (s.clear d).1 = .ok next
          ↔ s.StartsOver d ((s.applied.filter fun step => step.kind.isImport).map again) next)
      ∧ (∀ d es next, s.StartsOver d es next →
          next.steps.map again = es ∧ next.applied = next.steps ∧ next.initial = s.initial
            ∧ (Step.replay d s.initial es).1 = .ok next.steps
            ∧ Script.build settings next.steps next.current = .ok next.script)
      ∧ ∀ d call f, (call.outcome s d).1 = .error f → s.perform (d, call) = s := by
  intro s
  obtain ⟨hfirst, hsettings, hinitial⟩ := consistent_start hstart
  have hs : s.Consistent disks edits first := hfirst.performAll hsteady.closed hcalls
  have hsame : s.settings = settings := hs.settings.trans hsettings
  refine ⟨hsame, hs.initial ▸ hinitial, fun hnd i step hi d hd e he idText next => ?_,
    fun d next => clear_iff, fun d es next h => ?_, fun d call f hf => ?_⟩
  · exact hs.editStep_iff hsteady hd hi hnd he idText
  · rw [← hsame]
    exact h.log
  · rw [perform_eq, hf]

/-! ### A sample

  In the log of the imported and renamed table a move is edited, which is accepted.  The
  renaming is edited as well, which is not: the formula behind it still uses the old name.
  Clearing leaves the import. -/

namespace Sample

/-- Disks with the file as it was imported. -/
def SameFile (d : Disk) : Prop := ∀ p ∈ ["f.csv"], d.content? p = disk.content? p

/-- The move with another place. -/
def otherPlace : Edit := .moveColumn ⟨0, ⟨"Y"⟩, 1⟩

end Sample

theorem edit_starts_over_sample :
    let s := Sample.first.performAll Sample.branchCalls
    start { verifies := false } [] = .ok Sample.first
      ∧ Disk.Steady Sample.SameFile (Edit.ReadsOnly ["f.csv"])
      ∧ (∀ c ∈ Sample.branchCalls, Sample.SameFile c.1
          ∧ ∀ e ∈ c.2.edits Sample.first.initial.sheets.length, Edit.ReadsOnly ["f.csv"] e)
      ∧ (s.applied.map Step.id).Nodup ∧ s.applied.length = 4 ∧ s.steps.length = 5
      ∧ (∃ next, (s.editStep Sample.laterDisk (.generated 1) Sample.otherPlace "1").1 = .ok next
          ∧ s.StartsOver Sample.laterDisk
              ((s.applied.map again).set 2 (.generated 1, Sample.otherPlace)) next
          ∧ next.steps.length = 4)
      ∧ (∀ next, ¬ s.StartsOver Sample.laterDisk
          ((s.applied.map again).set 1 (.named "rename", Sample.otherName)) next)
      ∧ ∃ next, (s.clear Sample.laterDisk).1 = .ok next
          ∧ next.steps.map Step.id = [.generated 0] := by
  intro s
  have hstart : start { verifies := false } [] = .ok Sample.first :=
    eq_ok_of_toBool (by decide) default
  have hsteady : Disk.Steady Sample.SameFile (Edit.ReadsOnly ["f.csv"]) :=
    Disk.steady_of_content ["f.csv"] Sample.disk.content?
  have hdisk : Sample.SameFile Sample.disk := fun _ _ => rfl
  have hlater : Sample.SameFile Sample.laterDisk := by
    unfold Sample.SameFile
    decide
  have hcalls : ∀ c ∈ Sample.branchCalls, Sample.SameFile c.1
      ∧ ∀ e ∈ c.2.edits Sample.first.initial.sheets.length, Edit.ReadsOnly ["f.csv"] e := by
    simp [Sample.branchCalls, Call.edits, Edit.ReadsOnly, hdisk, hlater]
  have hnd : (s.applied.map Step.id).Nodup := by decide +kernel
  have hlength : s.applied.length = 4 := by decide +kernel
  obtain ⟨-, -, hedit, hclear, hlog, -⟩ :=
    edit_starts_over hstart Sample.branchCalls hsteady hcalls
  -- the steps with the ids that are edited
  have hat : ∀ i id, (s.applied.map Step.id)[i]? = some id →
      ∃ step : Step, s.applied[i]? = some step ∧ step.id = id := fun i id h => by
    rwa [List.getElem?_map, Option.map_eq_some_iff] at h
  obtain ⟨move, hmove, hmoveId⟩ := hat 2 (.generated 1) (by decide +kernel)
  obtain ⟨rename, hrename, hrenameId⟩ := hat 1 (.named "rename") (by decide +kernel)
  have hmoved := hedit hnd 2 move hmove Sample.laterDisk hlater Sample.otherPlace trivial "1"
  have hrenamed := hedit hnd 1 rename hrename Sample.laterDisk hlater Sample.otherName trivial ""
  rw [hmoveId] at hmoved
  rw [hrenameId] at hrenamed
  have haccepted := eq_ok_of_toBool
    (x := (s.editStep Sample.laterDisk (.generated 1) Sample.otherPlace "1").1)
    (by decide +kernel) default
  have hrefused : (s.editStep Sample.laterDisk (.named "rename") Sample.otherName "").1.toBool
      = false := by decide +kernel
  have hcleared := eq_ok_of_toBool (x := (s.clear Sample.laterDisk).1) (by decide +kernel) default
  refine ⟨hstart, hsteady, hcalls, hnd, hlength, by decide +kernel,
    ⟨_, haccepted, (hmoved _).mp haccepted, ?_⟩, fun next h => ?_, _, hcleared, ?_⟩
  · have hedits := (hlog _ _ _ ((hmoved _).mp haccepted)).1
    rw [← List.length_map (f := again), hedits, List.length_set, List.length_map, hlength]
  · rw [(hrenamed next).mpr h] at hrefused
    cases hrefused
  · have hedits := congrArg (List.map Prod.fst) (hlog _ _ _ ((hclear _ _).mp hcleared)).1
    simp only [List.map_map] at hedits
    exact Eq.trans hedits (by decide +kernel)

end Session

end SheetScript
