import SheetScript.Edit.Basic
import SheetScript.Edit.Encoding

/-!
# Steps

  A step is an edit that was accepted: it stands between the state that it ran on
  and the state that it left, and it carries the code that does the same.  A list
  of edits is replayed by running each on the state that the one before left.
-/

namespace SheetScript

/-- An edit with the states around it. -/
structure Step where
  id : StepId
  edit : Edit
  before : State
  after : State
  chunks : List Chunk
  deriving Repr, Inhabited

namespace Step

/-- The kind of the edit. -/
def kind (s : Step) : EditKind := s.edit.kind

/-- The step of an edit on a state, if the edit is accepted. -/
def run (d : Disk) (id : StepId) (e : Edit) (s : State) : Except Fault Step := do
  let c ← e.change d s
  pure ⟨id, e, s, c.state, c.code.map fun body => ⟨id, body⟩⟩

/-- The steps of some edits one after the other, up to the first fault.  The disk
  keeps what exports wrote before the fault. -/
def replay (d : Disk) (s : State) : List (StepId × Edit) → Except Fault (List Step) × Disk
  | [] => (.ok [], d)
  | (id, e) :: rest =>
    let written := e.diskAfter d s
    match run d id e s with
    | .error f => (.error f, written)
    | .ok step =>
      let (steps, d) := replay written step.after rest
      (steps.map fun later => step :: later, d)

end Step

/-- The state at the end of some steps. -/
def State.after (initial : State) (steps : List Step) : State :=
  (steps.getLast?.map Step.after).getD initial

end SheetScript
