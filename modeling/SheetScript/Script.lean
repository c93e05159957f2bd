import SheetScript.Settings
import SheetScript.Step
import SheetScript.Styler
import SheetScript.Symbolic.Verification

/-!
# Scripts

  The script of a list of steps: the preamble, the statements of the shortened
  chunks, and a styler for each sheet that has a format in the end.
-/

namespace SheetScript

/-- A script. -/
structure Script where
  preamble : List String
  chunks : List Chunk
  stylers : List Styler.Code
  report : Optimizer.Report
  deriving Repr, Inhabited

namespace Script

/-- The chunks of some steps in order. -/
def chunksOf (steps : List Step) : List Chunk := steps.flatMap Step.chunks

/-- The chunks after shortening, if the settings ask for it. -/
def shortened (settings : Settings) (inputs : Symbolic.InputLayout) (chunks : List Chunk) :
    Except Fault (List Chunk × Optimizer.Report) :=
  if settings.optimizes then
    Optimizer.optimize settings.passLimit settings.verifies inputs chunks
  else .ok (chunks, .untouched chunks)

/-- The script of some steps that end in a state. -/
def build (settings : Settings) (steps : List Step) (final : State) : Except Fault Script := do
  let first := (steps.head?.map Step.before).getD final
  let (chunks, report) ← shortened settings first.inputLayout (chunksOf steps)
  let stylers ← final.sheets.mapM Styler.code
  pure ⟨settings.preamble, chunks, stylers.filterMap id, report⟩

/-- The import that stylers with conditions need. -/
def numpyImport : String := "import numpy as np"

/-- The lines at the head. -/
def head (s : Script) : List String :=
  if s.stylers.any Styler.Code.usesNumpy && numpyImport ∉ s.preamble then
    s.preamble ++ [numpyImport]
  else s.preamble

/-- The statements of the chunks. -/
def statements (s : Script) : List String := s.chunks.flatMap fun c => c.body.code

/-- Whether there is nothing to run. -/
def isEmpty (s : Script) : Bool := s.stylers.isEmpty && s.statements.isEmpty

/-- The script line by line, with an empty line after the head and before each
  styler.  Nothing is left of a script that has nothing to run. -/
def lines (s : Script) : List String :=
  if s.isEmpty then []
  else
    s.head ++ "" :: s.statements ++ s.stylers.flatMap fun c => ["", c.statement]

/-- A chunk under a comment that describes it, if it has statements. -/
def section? (c : Chunk) : Option String :=
  if c.body.code.isEmpty then none
  else some ("# " ++ c.body.description ++ "\n" ++ "\n".intercalate c.body.code)

/-- The script as a text, in which every chunk has a comment. -/
def commented (s : Script) : String :=
  if s.isEmpty then ""
  else
    "\n\n".intercalate ("\n".intercalate s.head
      :: (s.chunks.filterMap section? ++ s.stylers.map Styler.Code.statement)) ++ "\n"

end Script

end SheetScript
