import SheetScript.Proofs.Replay
import SheetScript.Session

/-! # The log of a session

  However a session came about, its log is a chain of steps that were accepted one
  after the other, undone ones included, and its script is that of the steps that
  are not undone.

  - `Session.Call.run_work`: the work of a call leaves what the outcome of the call says,
    and the session as it was if the call is refused.
  - `Session.Consistent.performAll`: an operation keeps the beginning of a log, puts steps
    behind it that it runs or replays, and commits the result.  What has to be shown of it
    is that the steps it commits are accepted.
-/

namespace SheetScript

namespace Session

/-! ### What work leaves -/

/-- The session with another log, if the script of the log can be built. -/
def commit (s : Session) (steps : List Step) (index : Nat) : Except Fault Session := do
  let active := steps.take index
  let script ← Script.build s.settings active (s.initial.after active)
  pure { s with steps, index, script }

/-- The session whose log are some steps with replayed edits behind them. -/
def rerun (s : Session) (d : Disk) (kept : List Step) (before : State)
    (edits : List (StepId × Edit)) : Outcome :=
  let (replayed, d) := Step.replay d before edits
  let outcome := do
    let steps := kept ++ (← replayed)
    s.commit steps steps.length
  (outcome, d)

/-- A session and the disk with an outcome: a refusal leaves the session as it was. -/
def Outcome.left (o : Outcome) (s : Session) : EStateM.Result Fault (Session × Disk) Unit :=
  match o.1 with
  | .ok next => .ok () (next, o.2)
  | .error f => .error f (s, o.2)

section Runs

variable {s t : Session} {d : Disk} {o : Outcome} {id : StepId} {e : Edit} {steps kept : List Step}
  {index : Nat} {before : State} {edits : List (StepId × Edit)} {a : Analysis}

theorem Work.outcome_eq {w : Work Unit} (h : w (s, d) = o.left s) : w.outcome s d = o := by
  obtain ⟨r, written⟩ := o
  unfold Work.outcome
  rw [h]
  cases r <;> rfl

/-- Work with an outcome that leaves the session alone when it is refused. -/
theorem Work.run_outcome {w : Work Unit} (h : w (s, d) = o.left s) :
    w (s, d) = (w.outcome s d).left s := by
  rw [outcome_eq h, h]

/-- What is committed depends on the inputs and settings of a session alone. -/
theorem commit_congr (hsettings : t.settings = s.settings) (hinitial : t.initial = s.initial)
    (steps : List Step) (index : Nat) :
    t.commit steps index
      = (s.commit steps index).map fun next => { next with nextStep := t.nextStep } := by
  unfold commit
  rw [hsettings, hinitial]
  dsimp only
  cases Script.build s.settings (steps.take index) (s.initial.after (steps.take index)) with
  | error f => rfl
  | ok script => rfl

theorem run_commit : Work.commit steps index (s, d) = Outcome.left (s.commit steps index, d) s := by
  show (do
    let script ← ofExcept (Script.build s.settings (steps.take index)
      (s.initial.after (steps.take index)))
    modify fun work => ({ work.1 with steps, index, script }, work.2) : Work Unit) (s, d) = _
  unfold commit
  dsimp only
  cases Script.build s.settings (steps.take index) (s.initial.after (steps.take index)) with
  | error f => rfl
  | ok script => rfl

theorem run_rerun : Work.rerun kept before edits (s, d) = (s.rerun d kept before edits).left s := by
  show (do
    let steps := kept ++ (← ofExcept (Step.replay d before edits).1)
    Work.commit steps steps.length : Work Unit) (s, (Step.replay d before edits).2) = _
  unfold rerun
  dsimp only
  cases (Step.replay d before edits).1 with
  | error f => rfl
  | ok steps => exact run_commit

/-- An edit runs behind the steps that are kept. -/
theorem run_apply :
    let replaces := s.applied.getLast?.any fun last => last.id = id
    let keep := if replaces then s.index - 1 else s.index
    let kept := s.steps.take keep
    let before := s.initial.after kept
    Work.apply id e (s, d) = Outcome.left (do
      let step ← Step.run d id e before
      s.commit (kept ++ [step]) (keep + 1), e.diskAfter d before) s := by
  intro replaces keep kept before
  show (do
    let step ← ofExcept (Step.run d id e before)
    Work.commit (kept ++ [step]) (keep + 1) : Work Unit) (s, e.diskAfter d before) = _
  cases Step.run d id e before with
  | error f => rfl
  | ok step => exact run_commit

theorem apply_eq (s : Session) (d : Disk) (id : StepId) (e : Edit) :
    s.apply d id e =
      let replaces := s.applied.getLast?.any fun last => last.id = id
      let keep := if replaces then s.index - 1 else s.index
      let kept := s.steps.take keep
      let before := s.initial.after kept
      (do
        let step ← Step.run d id e before
        s.commit (kept ++ [step]) (keep + 1), e.diskAfter d before) :=
  Work.outcome_eq run_apply

/-- The next generated id is set once some work is done. -/
theorem run_number {w : Work Unit} (h : w (s, d) = o.left s) (n : Nat) :
    (do w; Work.number n : Work Unit) (s, d)
      = Outcome.left (o.1.map fun next => { next with nextStep := n }, o.2) s := by
  show EStateM.bind w (fun _ => Work.number n) (s, d) = _
  unfold EStateM.bind
  rw [h]
  obtain ⟨r, written⟩ := o
  cases r <;> rfl

/-- The number of the next generated id plays no part in an edit under a given one. -/
theorem apply_number (s : Session) (n : Nat) :
    { s with nextStep := n }.apply d id e
      = ((s.apply d id e).1.map fun next => { next with nextStep := n }, (s.apply d id e).2) := by
  rw [apply_eq, apply_eq]
  refine Prod.ext ?_ rfl
  let keep := if s.applied.getLast?.any (fun last => last.id = id) then s.index - 1 else s.index
  let step := Step.run d id e (s.initial.after (s.steps.take keep))
  show (step.bind fun step =>
      { s with nextStep := n }.commit (s.steps.take keep ++ [step]) (keep + 1))
    = (step.bind fun step => s.commit (s.steps.take keep ++ [step]) (keep + 1)).map _
  cases step with
  | error f => rfl
  | ok step => exact commit_congr (s := s) (t := { s with nextStep := n }) rfl rfl _ _

theorem run_push : Work.push e (s, d)
    = ({ s with nextStep := s.nextStep + 1 }.apply d s.freshId e).left s := by
  rw [apply_number]
  exact run_number (Work.run_outcome run_apply) (s.nextStep + 1)

theorem run_undo : Work.undo (s, d) = Outcome.left
    (if s.index = 0 then .ok s else s.commit s.steps (s.index - 1), d) s := by
  show (unless s.index = 0 do Work.commit s.steps (s.index - 1) : Work Unit) (s, d) = _
  by_cases h : s.index = 0
  · rw [if_pos h, if_pos h]
    rfl
  · rw [if_neg h, if_neg h]
    exact run_commit

theorem run_redo : Work.redo (s, d) = Outcome.left
    (if s.steps.length ≤ s.index then .ok s else s.commit s.steps (s.index + 1), d) s := by
  show (unless s.steps.length ≤ s.index do Work.commit s.steps (s.index + 1) : Work Unit) (s, d) = _
  by_cases h : s.steps.length ≤ s.index
  · rw [if_pos h, if_pos h]
    rfl
  · rw [if_neg h, if_neg h]
    exact run_commit

theorem undo_eq (s : Session) :
    s.undo = if s.index = 0 then .ok s else s.commit s.steps (s.index - 1) :=
  congrArg Prod.fst (Work.outcome_eq run_undo)

theorem redo_eq (s : Session) :
    s.redo = if s.steps.length ≤ s.index then .ok s else s.commit s.steps (s.index + 1) :=
  congrArg Prod.fst (Work.outcome_eq run_redo)

theorem run_editStep {idText : String} : Work.editStep id e idText (s, d) = Outcome.left
    (match s.applied.findIdx? fun step => step.id = id with
      | none => (.error (.invalidParams ("no applied step with id " ++ idText)), d)
      | some i => s.rerun d (s.applied.take i) s.applied[i]!.before
          ((id, e) :: (s.applied.drop (i + 1)).map again)) s := by
  show (match s.applied.findIdx? fun step => step.id = id with
    | none => throw (.invalidParams ("no applied step with id " ++ idText))
    | some i => Work.rerun (s.applied.take i) s.applied[i]!.before
        ((id, e) :: (s.applied.drop (i + 1)).map again) : Work Unit) (s, d) = _
  cases s.applied.findIdx? fun step => step.id = id with
  | none => rfl
  | some i => exact run_rerun

theorem run_load : Work.load a (s, d) = Outcome.left
    (match (a.upgrade s.initial.sheets.length).bind Analysis.edits with
      | .error f => (.error f, d)
      | .ok edits => { s with nextStep := s.nextStep + edits.length }.rerun d [] s.initial
          (edits.zipIdx.map fun (e : Edit × Nat) =>
            (StepId.generated (s.nextStep + e.2), e.1))) s := by
  show (do
    let edits ← ofExcept ((a.upgrade s.initial.sheets.length).bind Analysis.edits)
    Work.rerun [] s.initial (edits.zipIdx.map fun (e : Edit × Nat) =>
      (StepId.generated (s.nextStep + e.2), e.1))
    Work.number (s.nextStep + edits.length) : Work Unit) (s, d) = _
  cases (a.upgrade s.initial.sheets.length).bind Analysis.edits with
  | error f => rfl
  | ok edits =>
    refine (run_number run_rerun _).trans (congrArg (Outcome.left · s) ?_)
    unfold rerun
    refine Prod.ext ?_ rfl
    show Except.map _ (Except.bind _ _) = Except.bind _ _
    cases (Step.replay d s.initial _).1 with
    | error f => rfl
    | ok steps =>
      exact (commit_congr (s := s) (t := { s with nextStep := s.nextStep + edits.length })
        rfl rfl _ _).symm

theorem run_handle {event : EditEvent} : Work.handle event (s, d) = Outcome.left
    (match event.edit with
      | .error f => (.error f, d)
      | .ok e => s.apply d event.step e) s := by
  show (do Work.apply event.step (← ofExcept event.edit) : Work Unit) (s, d) = _
  cases event.edit with
  | error f => rfl
  | ok e => exact Work.run_outcome run_apply

theorem push_eq (s : Session) (d : Disk) (e : Edit) :
    s.push d e = { s with nextStep := s.nextStep + 1 }.apply d s.freshId e :=
  Work.outcome_eq run_push

theorem clear_eq (s : Session) (d : Disk) :
    s.clear d = s.rerun d [] s.initial
      ((s.applied.filter fun step => step.kind.isImport).map again) :=
  Work.outcome_eq run_rerun

theorem editStep_eq (s : Session) (d : Disk) (id : StepId) (e : Edit) (idText : String) :
    s.editStep d id e idText = match s.applied.findIdx? fun step => step.id = id with
      | none => (.error (.invalidParams ("no applied step with id " ++ idText)), d)
      | some i => s.rerun d (s.applied.take i) s.applied[i]!.before
          ((id, e) :: (s.applied.drop (i + 1)).map again) :=
  Work.outcome_eq run_editStep

theorem load_eq (s : Session) (d : Disk) (a : Analysis) :
    s.load d a =
      match (a.upgrade s.initial.sheets.length).bind Analysis.edits with
      | .error f => (.error f, d)
      | .ok edits => { s with nextStep := s.nextStep + edits.length }.rerun d [] s.initial
          (edits.zipIdx.map fun (e : Edit × Nat) => (StepId.generated (s.nextStep + e.2), e.1)) :=
  Work.outcome_eq run_load

theorem handle_eq (s : Session) (d : Disk) (event : EditEvent) :
    s.handle d event = match event.edit with
      | .error f => (.error f, d)
      | .ok e => s.apply d event.step e :=
  Work.outcome_eq run_handle

end Runs

/-! ### Calls -/

/-- What can be asked of a session. -/
inductive Call where
  | apply (id : StepId) (e : Edit)
  | push (e : Edit)
  | handle (event : EditEvent)
  | undo
  | redo
  | clear
  | editStep (id : StepId) (e : Edit) (idText : String)
  | load (a : Analysis)

/-- What becomes of a call. -/
def Call.outcome (s : Session) (d : Disk) : Call → Outcome
  | apply id e => s.apply d id e
  | push e => s.push d e
  | handle event => s.handle d event
  | undo => (s.undo, d)
  | redo => (s.redo, d)
  | clear => s.clear d
  | editStep id e idText => s.editStep d id e idText
  | load a => s.load d a

/-- The edits that a call brings to a session over some number of sheets. -/
def Call.edits (sheets : Nat) : Call → List Edit
  | apply _ e | push e | editStep _ e _ => [e]
  | handle event => event.edit.toOption.toList
  | load a => ((a.upgrade sheets).bind Analysis.edits).toOption.getD []
  | undo | redo | clear => []

/-- The work of a call. -/
def Call.work : Call → Work Unit
  | apply id e => Work.apply id e
  | push e => Work.push e
  | handle event => Work.handle event
  | undo => Work.undo
  | redo => Work.redo
  | clear => Work.clear
  | editStep id e idText => Work.editStep id e idText
  | load a => Work.load a

/-- The session as a call on a disk leaves it, whether or not the call is refused. -/
def perform (s : Session) (c : Disk × Call) : Session :=
  match c.2.work (s, c.1) with
  | .ok _ (s, _) | .error _ (s, _) => s

/-- A call leaves what its outcome says, and the session as it was if it is refused. -/
theorem Call.run_work (call : Call) (s : Session) (d : Disk) :
    call.work (s, d) = (call.outcome s d).left s := by
  cases call with
  | apply id e => exact Work.run_outcome run_apply
  | push e => exact Work.run_outcome run_push
  | handle event => exact Work.run_outcome run_handle
  | undo => exact run_undo.trans (by rw [← undo_eq]; rfl)
  | redo => exact run_redo.trans (by rw [← redo_eq]; rfl)
  | clear => exact Work.run_outcome run_rerun
  | editStep id e idText => exact Work.run_outcome run_editStep
  | load a => exact Work.run_outcome run_load

theorem perform_eq (s : Session) (c : Disk × Call) :
    s.perform c = match (c.2.outcome s c.1).1 with
      | .ok next => next
      | .error _ => s := by
  unfold perform
  rw [Call.run_work]
  unfold Outcome.left
  cases (c.2.outcome s c.1).1 <;> rfl

/-- The session after some calls, each on the disk of its time. -/
def performAll (s : Session) (calls : List (Disk × Call)) : Session := calls.foldl perform s

/-! ### Consistent sessions -/

/-- A session over the inputs of another one, with a chain of steps that were accepted
  on some disks as its log, and their script. -/
structure Consistent (disks : Disk → Prop) (edits : Edit → Prop) (s start : Session) : Prop where
  settings : s.settings = start.settings
  initial : s.initial = start.initial
  index_le : s.index ≤ s.steps.length
  accepted : s.initial.AcceptsOn disks s.steps
  edits : ∀ step ∈ s.steps, edits step.edit
  script : Script.build s.settings s.applied s.current = .ok s.script

/-- A session that just started is consistent. -/
theorem consistent_start {disks : Disk → Prop} {edits : Edit → Prop} {settings : Settings}
    {inputs : List (String × Frame)} {s : Session} (h : start settings inputs = .ok s) :
    s.Consistent disks edits s ∧ s.settings = settings ∧ State.ofInputs inputs = .ok s.initial := by
  simp only [start, bind_eq_ok, pure_eq_ok] at h
  obtain ⟨initial, hinitial, script, hscript, rfl⟩ := h
  exact ⟨⟨rfl, rfl, Nat.le_refl _, trivial, (fun _ hmem => by cases hmem), hscript⟩, rfl, hinitial⟩

namespace Consistent

variable {disks : Disk → Prop} {edits : Edit → Prop} {start s next : Session} {d : Disk}
  {kept steps : List Step} {index : Nat}

/-- A log of accepted steps is committed with its script. -/
theorem commit (hs : s.Consistent disks edits start) (hindex : index ≤ steps.length)
    (haccepted : s.initial.AcceptsOn disks steps) (hedits : ∀ step ∈ steps, edits step.edit)
    (h : s.commit steps index = .ok next) : next.Consistent disks edits start := by
  simp only [Session.commit, bind_eq_ok, pure_eq_ok] at h
  obtain ⟨script, hscript, rfl⟩ := h
  exact ⟨hs.settings, hs.initial, hindex, haccepted, hedits, hscript⟩

/-- Another number for the next generated id changes nothing. -/
theorem setNextStep (hs : s.Consistent disks edits start) (n : Nat) :
    { s with nextStep := n }.Consistent disks edits start :=
  ⟨hs.settings, hs.initial, hs.index_le, hs.accepted, hs.edits, hs.script⟩

theorem undo (hs : s.Consistent disks edits start) (h : s.undo = .ok next) :
    next.Consistent disks edits start := by
  rw [undo_eq] at h
  split at h
  · cases h
    exact hs
  · have hindex := hs.index_le
    exact hs.commit (by omega) hs.accepted hs.edits h

theorem redo (hs : s.Consistent disks edits start) (h : s.redo = .ok next) :
    next.Consistent disks edits start := by
  rw [redo_eq] at h
  split at h
  · cases h
    exact hs
  · exact hs.commit (by omega) hs.accepted hs.edits h

/-- One more step goes behind a beginning of the log. -/
theorem apply (hs : s.Consistent disks edits start) (hd : disks d) {id : StepId} {e : Edit}
    (he : edits e) (h : (s.apply d id e).1 = .ok next) : next.Consistent disks edits start := by
  rw [apply_eq] at h
  simp only [bind_eq_ok] at h
  generalize hkeep : (if s.applied.getLast?.any (fun last => last.id = id) then s.index - 1
    else s.index) = keep at h
  obtain ⟨step, hrun, hcommit⟩ := h
  obtain ⟨hid, hedit, -⟩ := Step.eq_of_run hrun
  have hle : keep ≤ s.steps.length := by
    have hindex := hs.index_le
    split at hkeep <;> omega
  refine hs.commit ?_ ?_ ?_ hcommit
  · rw [List.length_append, List.length_take]
    simp
    omega
  · refine State.acceptsOn_append.mpr ⟨hs.accepted.take keep, ⟨d, hd, ?_⟩, trivial⟩
    rw [hid, hedit, hrun]
  · intro k hk
    rcases List.mem_append.mp hk with hk | hk
    · exact hs.edits k (List.mem_of_mem_take hk)
    · rw [List.mem_singleton.mp hk, hedit]
      exact he

/-- Replayed edits go behind a beginning of the log. -/
theorem rerun (hs : s.Consistent disks edits start) (hclosed : Disk.Closed disks edits)
    (hd : disks d) {again : List (StepId × Edit)} (hagain : ∀ e ∈ again, edits e.2)
    (hkept : s.initial.AcceptsOn disks kept) (hedits : ∀ step ∈ kept, edits step.edit)
    (h : (s.rerun d kept (s.initial.after kept) again).1 = .ok next) :
    next.Consistent disks edits start := by
  unfold Session.rerun at h
  simp only [bind_eq_ok] at h
  obtain ⟨steps, hsteps, hcommit⟩ := h
  obtain ⟨haccepted, hmap⟩ := Step.acceptsOn_of_replay hclosed hd hagain hsteps
  refine hs.commit (Nat.le_refl _) (State.acceptsOn_append.mpr ⟨hkept, haccepted⟩) ?_ hcommit
  intro step hmem
  rcases List.mem_append.mp hmem with hmem | hmem
  · exact hedits step hmem
  · exact hagain (step.id, step.edit) (hmap ▸ List.mem_map_of_mem hmem)

/-- Replayed edits take the place of the whole log. -/
theorem rerunAll (hs : s.Consistent disks edits start) (hclosed : Disk.Closed disks edits)
    (hd : disks d) {again : List (StepId × Edit)} (hagain : ∀ e ∈ again, edits e.2)
    (h : (s.rerun d [] s.initial again).1 = .ok next) : next.Consistent disks edits start := by
  have hnil : s.initial.AcceptsOn disks [] := trivial
  exact hs.rerun hclosed hd hagain hnil (fun _ hmem => by cases hmem) h

/-- The state that a step was run on is the one that the steps in front of it leave. -/
theorem before_applied (hs : s.Consistent disks edits start) {p : Step → Bool} {i : Nat}
    (hi : s.applied.findIdx? p = some i) :
    s.applied[i]!.before = s.initial.after (s.applied.take i) := by
  obtain ⟨hlt, -, -⟩ := List.findIdx?_eq_some_iff_getElem.mp hi
  rw [getElem!_pos s.applied i hlt]
  exact (hs.accepted.take s.index).before_eq (List.getElem?_eq_getElem hlt)

/-- A call on one of the disks keeps a session consistent. -/
theorem perform (hs : s.Consistent disks edits start) (hclosed : Disk.Closed disks edits)
    {c : Disk × Call} (hd : disks c.1)
    (hedits : ∀ e ∈ c.2.edits start.initial.sheets.length, edits e) :
    (s.perform c).Consistent disks edits start := by
  rw [perform_eq]
  split
  case h_2 => exact hs
  case h_1 next h =>
    have happlied : ∀ step ∈ s.applied, edits step.edit := fun step hmem =>
      hs.edits step (List.mem_of_mem_take hmem)
    obtain ⟨d, call⟩ := c
    -- a call applies an edit, moves along the log, or runs a log again
    cases call with
    | apply id e => exact hs.apply hd (hedits e (by simp [Call.edits])) h
    | push e =>
      rw [Call.outcome, push_eq] at h
      exact (hs.setNextStep _).apply hd (hedits e (by simp [Call.edits])) h
    | handle event =>
      rw [Call.outcome, handle_eq] at h
      split at h
      · cases h
      · next e he => exact hs.apply hd (hedits e (by simp [Call.edits, he, Except.toOption])) h
    | undo => exact hs.undo h
    | redo => exact hs.redo h
    | clear =>
      rw [Call.outcome, clear_eq] at h
      refine hs.rerunAll hclosed hd ?_ h
      intro e he
      obtain ⟨step, hstep, rfl⟩ := List.mem_map.mp he
      exact happlied step (List.mem_filter.mp hstep).1
    | editStep id e idText =>
      rw [Call.outcome, editStep_eq] at h
      split at h
      · cases h
      · next i hi =>
        rw [hs.before_applied hi] at h
        refine hs.rerun hclosed hd ?_ ?_ ?_ h
        · intro e' he
          rcases List.mem_cons.mp he with rfl | he
          · exact hedits e (by simp [Call.edits])
          · obtain ⟨step, hstep, rfl⟩ := List.mem_map.mp he
            exact happlied step (List.mem_of_mem_drop hstep)
        · exact (hs.accepted.take _).take i
        · exact fun step hmem => happlied step (List.mem_of_mem_take hmem)
    | load a =>
      rw [Call.outcome, load_eq] at h
      split at h
      · cases h
      · next loaded hloaded =>
        refine (hs.setNextStep _).rerunAll hclosed hd ?_ h
        intro e he
        obtain ⟨⟨e, i⟩, hmem, rfl⟩ := List.mem_map.mp he
        refine hedits e ?_
        rw [← hs.initial]
        show e ∈ ((a.upgrade s.initial.sheets.length).bind Analysis.edits).toOption.getD []
        rw [hloaded]
        exact List.fst_mem_of_mem_zipIdx hmem

/-- So do any number of calls. -/
theorem performAll (hs : s.Consistent disks edits start) (hclosed : Disk.Closed disks edits)
    {calls : List (Disk × Call)}
    (hcalls : ∀ c ∈ calls, disks c.1 ∧ ∀ e ∈ c.2.edits start.initial.sheets.length, edits e) :
    (s.performAll calls).Consistent disks edits start := by
  induction calls generalizing s with
  | nil => exact hs
  | cons c rest ih =>
    obtain ⟨hd, hedits⟩ := hcalls c List.mem_cons_self
    exact ih (hs.perform hclosed hd hedits) fun k hk => hcalls k (List.mem_cons_of_mem _ hk)

end Consistent

/-! ### Every log -/

/-- However a session came about: its log is a chain of accepted steps, its script is that
  of the steps that are not undone, and a refused call leaves both alone.  Where the
  files are steady, the steps that are not undone are what replaying their edits gives. -/
theorem log_invariant {settings : Settings} {inputs : List (String × Frame)} {first : Session}
    (hstart : start settings inputs = .ok first) (calls : List (Disk × Call)) :
    let s := first.performAll calls
    s.settings = settings ∧ State.ofInputs inputs = .ok s.initial
      ∧ s.index ≤ s.steps.length
      ∧ (∀ step ∈ s.steps.head?, step.before = s.initial)
      ∧ (s.steps.IsChain fun earlier later => later.before = earlier.after)
      ∧ (∀ step ∈ s.steps, ∃ d, Step.run d step.id step.edit step.before = .ok step)
      ∧ Script.build settings s.applied s.current = .ok s.script
      ∧ (∀ d call f, (call.outcome s d).1 = .error f → s.perform (d, call) = s)
      ∧ ∀ disks edits, Disk.Steady disks edits →
          (∀ c ∈ calls, disks c.1 ∧ ∀ e ∈ c.2.edits first.initial.sheets.length, edits e) →
          ∀ d, disks d →
            (∀ step ∈ s.steps, Step.run d step.id step.edit step.before = .ok step)
              ∧ (Step.replay d s.initial (s.applied.map again)).1 = .ok s.applied := by
  intro s
  obtain ⟨hfirst, hsettings, hinitial⟩ := consistent_start hstart
  have hs : s.Consistent (fun _ => True) (fun _ => True) first :=
    hfirst.performAll Disk.closed_all fun _ _ => ⟨trivial, fun _ _ => trivial⟩
  refine ⟨hs.settings.trans hsettings, hs.initial ▸ hinitial, hs.index_le, hs.accepted.head,
    hs.accepted.chain, fun step hmem => ?_, ?_, fun d call f hf => ?_, ?_⟩
  · obtain ⟨d, -, hrun⟩ := hs.accepted.runs step hmem
    exact ⟨d, hrun⟩
  · rw [← hsettings, ← hs.settings]
    exact hs.script
  · rw [perform_eq, hf]
  · intro disks edits hsteady hcalls d hd
    obtain ⟨hfirst, -, -⟩ := consistent_start hstart
    have hs : s.Consistent disks edits first := hfirst.performAll hsteady.closed hcalls
    refine ⟨fun step hmem => ?_, ?_⟩
    · obtain ⟨d', hd', hrun⟩ := hs.accepted.runs step hmem
      rw [hsteady.run_eq (hs.edits step hmem) hd hd', hrun]
    · exact (hs.accepted.take s.index).replay hsteady
        (fun step hmem => hs.edits step (List.mem_of_mem_take hmem)) hd

/-! ### A sample session

  A file is imported and a column of it renamed.  The renaming is undone and redone, a
  deletion is refused, the import is edited, and the renaming is undone again. -/

namespace Sample

/-- A disk with the file. -/
def disk : Disk := .ofFiles [("f.csv", "X,Y\n1,2\n")]

/-- A later disk, on which there is one more file. -/
def laterDisk : Disk := .ofFiles [("f.csv", "X,Y\n1,2\n"), ("g.csv", "Z\n1\n")]

/-- The calls. -/
def calls : List (Disk × Call) :=
  [(disk, .push (.importFiles ⟨["f.csv"], false⟩)),
   (laterDisk, .push (.renameColumn ⟨0, ⟨"X"⟩, "Z"⟩)),
   (disk, .undo),
   (disk, .redo),
   (laterDisk, .push (.deleteColumns ⟨0, [⟨"Q"⟩]⟩)),
   (laterDisk, .editStep (.generated 0) (.importFiles ⟨["f.csv"], false⟩) "0"),
   (disk, .undo)]

/-- The session before the calls. -/
def first : Session := (start { verifies := false } []).toOption.getD default

end Sample

theorem log_invariant_sample :
    let s := Sample.first.performAll Sample.calls
    let disks := fun d : Disk => ∀ p ∈ ["f.csv"], d.content? p = Sample.disk.content? p
    start { verifies := false } [] = .ok Sample.first
      ∧ s.index = 1 ∧ s.steps.length = 2
      ∧ Disk.Steady disks (Edit.ReadsOnly ["f.csv"])
      ∧ (∀ c ∈ Sample.calls, disks c.1
          ∧ ∀ e ∈ c.2.edits Sample.first.initial.sheets.length, Edit.ReadsOnly ["f.csv"] e)
      ∧ disks Sample.laterDisk
      ∧ (Step.replay Sample.laterDisk s.initial (s.applied.map again)).1 = .ok s.applied := by
  intro s disks
  have hstart : start { verifies := false } [] = .ok Sample.first :=
    eq_ok_of_toBool (by decide) default
  have hsteady := Disk.steady_of_content ["f.csv"] Sample.disk.content?
  have hdisk : disks Sample.disk := fun _ _ => rfl
  have hlater : disks Sample.laterDisk := by decide
  have hcalls : ∀ c ∈ Sample.calls, disks c.1
      ∧ ∀ e ∈ c.2.edits Sample.first.initial.sheets.length, Edit.ReadsOnly ["f.csv"] e := by
    simp [Sample.calls, Call.edits, Edit.ReadsOnly, hdisk, hlater]
  obtain ⟨-, -, -, -, -, -, -, -, hreplays⟩ := log_invariant hstart Sample.calls
  exact ⟨hstart, by decide, by decide, hsteady, hcalls, hlater,
    (hreplays disks _ hsteady hcalls Sample.laterDisk hlater).2⟩

end Session

end SheetScript
