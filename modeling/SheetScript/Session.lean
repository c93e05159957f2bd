import SheetScript.Analysis.Upgrade
import SheetScript.Script

/-!
# Sessions

  A session is a log of steps over some input tables.  Steps past the index are
  undone and can be redone until the next edit drops them.  Every operation works
  on the session in place: it makes a new log on the side and puts it there once
  its script is built, so that a refused operation leaves the session as it was;
  only what exports wrote to the disk stays there.
-/

namespace SheetScript

/-- A session. -/
structure Session where
  settings : Settings
  /-- The state before the first step. -/
  initial : State
  /-- All steps, with those that are undone at the end. -/
  steps : List Step := []
  /-- The number of steps that are not undone. -/
  index : Nat := 0
  /-- The script of the steps that are not undone. -/
  script : Script
  /-- The number of the next generated step id. -/
  nextStep : Nat := 0
  deriving Repr, Inhabited

namespace Session

/-- What becomes of a session and the disk. -/
abbrev Outcome := Except Fault Session × Disk

/-- A session over named tables. -/
def start (settings : Settings) (inputs : List (String × Frame)) : Except Fault Session := do
  let initial ← State.ofInputs inputs
  let script ← Script.build settings [] initial
  pure { settings, initial, script }

/-- The steps that are not undone. -/
def applied (s : Session) : List Step := s.steps.take s.index

/-- The state after the steps that are not undone. -/
def current (s : Session) : State := s.initial.after s.applied

/-- A step id that was not generated before. -/
def freshId (s : Session) : StepId := .generated s.nextStep

/-- The edit of a step under its id. -/
def again (step : Step) : StepId × Edit := (step.id, step.edit)

/-! ### Work in place -/

/-- Work on a session and the disk.  A fault ends the work, and both are then as the
  work left them so far. -/
abbrev Work := EStateM Fault (Session × Disk)

namespace Work

/-- The session that is worked on. -/
def session : Work Session := do
  let (s, _) ← get
  return s

/-- Puts another log in place once its script is built. -/
def commit (steps : List Step) (index : Nat) : Work Unit := do
  let s ← session
  let active := steps.take index
  let script ← ofExcept (Script.build s.settings active (s.initial.after active))
  modify fun (s, d) => ({ s with steps, index, script }, d)

/-- Sets the number of the next generated step id. -/
def number (next : Nat) : Work Unit :=
  modify fun (s, d) => ({ s with nextStep := next }, d)

/-- Runs an edit on a state. -/
def run (id : StepId) (e : Edit) (before : State) : Work Step := do
  let (s, d) ← get
  set (s, e.diskAfter d before)
  ofExcept (Step.run d id e before)

/-- Runs edits one after the other, the first one on a state. -/
def replay (before : State) (edits : List (StepId × Edit)) : Work (List Step) := do
  let (s, d) ← get
  let (steps, d) := Step.replay d before edits
  set (s, d)
  ofExcept steps

/-- Runs an edit as a step.  If its id is that of the last step, it takes the
  place of that step; otherwise it goes behind it.  Undone steps are dropped. -/
def apply (id : StepId) (e : Edit) : Work Unit := do
  let s ← session
  let replaces := s.applied.getLast?.any fun last => last.id = id
  let keep := if replaces then s.index - 1 else s.index
  let kept := s.steps.take keep
  let step ← run id e (s.initial.after kept)
  commit (kept ++ [step]) (keep + 1)

/-- Runs an edit as a step with a new id. -/
def push (e : Edit) : Work Unit := do
  let s ← session
  apply s.freshId e
  number (s.nextStep + 1)

/-- Goes back by a step. -/
def undo : Work Unit := do
  let s ← session
  unless s.index = 0 do
    commit s.steps (s.index - 1)

/-- Goes forward by a step that was undone. -/
def redo : Work Unit := do
  let s ← session
  unless s.steps.length ≤ s.index do
    commit s.steps (s.index + 1)

/-- Replays edits behind some steps, on the state that these leave, and makes the
  result the log. -/
def rerun (kept : List Step) (before : State) (edits : List (StepId × Edit)) : Work Unit := do
  let steps := kept ++ (← replay before edits)
  commit steps steps.length

/-- Drops every step but the imports, which run again. -/
def clear : Work Unit := do
  let s ← session
  rerun [] s.initial ((s.applied.filter fun step => step.kind.isImport).map again)

/-- Puts an edit in place of a step, and runs the steps behind it again. -/
def editStep (id : StepId) (e : Edit) (idText : String) : Work Unit := do
  let s ← session
  match s.applied.findIdx? fun step => step.id = id with
  | none => throw (.invalidParams ("no applied step with id " ++ idText))
  | some i =>
    rerun (s.applied.take i) s.applied[i]!.before
      ((id, e) :: (s.applied.drop (i + 1)).map again)

/-- Puts the edits of an analysis in place of the log. -/
def load (a : Analysis) : Work Unit := do
  let s ← session
  let edits ← ofExcept ((a.upgrade s.initial.sheets.length).bind Analysis.edits)
  rerun [] s.initial (edits.zipIdx.map fun e => (StepId.generated (s.nextStep + e.2), e.1))
  number (s.nextStep + edits.length)

/-- What becomes of a session and the disk through some work. -/
def outcome (w : Work Unit) (s : Session) (d : Disk) : Outcome :=
  match w (s, d) with
  | .ok () (s, d) => (.ok s, d)
  | .error f (_, d) => (.error f, d)

end Work

/-! ### Operations -/

/-- Runs an edit as a step under an id. -/
def apply (s : Session) (d : Disk) (id : StepId) (e : Edit) : Outcome :=
  (Work.apply id e).outcome s d

/-- Runs an edit as a step with a new id. -/
def push (s : Session) (d : Disk) (e : Edit) : Outcome := (Work.push e).outcome s d

/-- Goes back by a step, which needs no disk. -/
def undo (s : Session) : Except Fault Session := (Work.undo.outcome s {}).1

/-- Goes forward by a step that was undone, which needs no disk. -/
def redo (s : Session) : Except Fault Session := (Work.redo.outcome s {}).1

/-- Drops every step but the imports. -/
def clear (s : Session) (d : Disk) : Outcome := Work.clear.outcome s d

/-- Puts an edit in place of a step. -/
def editStep (s : Session) (d : Disk) (id : StepId) (e : Edit) (idText : String) : Outcome :=
  (Work.editStep id e idText).outcome s d

/-- Puts the edits of an analysis in place of the log. -/
def load (s : Session) (d : Disk) (a : Analysis) : Outcome := (Work.load a).outcome s d

/-- The analysis of the steps that are not undone. -/
def saved (s : Session) : Analysis := .ofSteps s.applied

end Session

/-! ### Events -/

/-- An edit as a front end sends it. -/
structure EditEvent where
  event : String := "edit_event"
  id : String := ""
  /-- The name of the kind of edit with `_edit` behind it. -/
  type : String
  step : StepId
  params : Json
  deriving Repr, Inhabited

namespace EditEvent

/-- What stands behind the name of a kind. -/
def mark : String := "_edit"

/-- The name of the kind of edit, if the type ends as it should. -/
def kindName? (e : EditEvent) : Option String :=
  let cs := e.type.toList
  if mark.toList.isSuffixOf cs then some (String.ofList (cs.take (cs.length - mark.length)))
  else none

/-- The edit that an event asks for. -/
def edit (e : EditEvent) : Except Fault Edit :=
  match e.kindName? with
  | none => .error (.unknownStep e.type)
  | some name => Edit.ofParts name e.params

/-- Reads an event. -/
def ofJson? (j : Json) : Option EditEvent := do
  let r ← j.record? ["event", "id", "type", "step_id", "params"]
  pure
    { event := ← r.orElse "event" "edit_event" Json.string?
      id := ← r.orElse "id" "" Json.string?
      type := ← r.need "type" Json.string?
      step := .named (← r.need "step_id" Json.string?)
      params := ← r.need "params" some }

end EditEvent

/-- Runs the edit of an event as a step under the id of the event. -/
def Session.Work.handle (e : EditEvent) : Session.Work Unit := do
  apply e.step (← ofExcept e.edit)

/-- Handles an event. -/
def Session.handle (s : Session) (d : Disk) (e : EditEvent) : Session.Outcome :=
  (Work.handle e).outcome s d

end SheetScript
