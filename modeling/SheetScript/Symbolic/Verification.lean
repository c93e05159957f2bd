import SheetScript.Fault
import SheetScript.Optimizer.Basic
import SheetScript.Symbolic.Machine

/-!
# Verification

  Shortened chunks are checked by a symbolic run: they must raise no fault that
  the chunks before did not raise, leave the same variables bound to the same
  frames, and have the same effects.  The same run tells which headers the sheets
  have in the end.
-/

namespace SheetScript.Symbolic

variable {τ : Type}

/-- A way in which two runs differ. -/
inductive Discrepancy (τ : Type) where
  | newFault (fault : MachineFault)
  | frame (name : String) (expected actual : Option (SymbolicFrame τ))
  | effects
  deriving DecidableEq, Repr

/-- A frame in a message. -/
def frameText : Option (SymbolicFrame τ) → String
  | none => "None"
  | some f => "Some(" ++ ", ".intercalate (f.map SymbolicColumn.header) ++ ")"

/-- What a discrepancy says. -/
def Discrepancy.text : Discrepancy τ → String
  | .newFault fault => "optimized code fails: " ++ fault.text
  | .frame name expected actual =>
    "optimized code leaves " ++ name ++ " as " ++ frameText actual ++ ", expected "
      ++ frameText expected
  | .effects => "optimized code exports different data"

/-- The first way in which two finished runs differ. -/
def discrepancy? [DecidableEq τ] (expected actual : Machine τ) : Option (Discrepancy τ) :=
  let known := expected.faults.map MachineFault.text
  match actual.faults.find? fun f => f.text ∉ known with
  | some f => some (.newFault f)
  | none =>
    let a := expected.boundFrames
    let b := actual.boundFrames
    let names := Roster.union (Roster.ofList (Dictionary.keys a)) (Dictionary.keys b)
    match names.find? fun n => Dictionary.get? a n ≠ Dictionary.get? b n with
    | some n => some (.frame n (Dictionary.get? a n) (Dictionary.get? b n))
    | none => if expected.effects = actual.effects then none else some .effects

/-- Checks that two lists of chunks do the same under an interpretation. -/
def verifyWith [DecidableEq τ] (I : Interpretation τ) (inputs : InputLayout)
    (before after : List Chunk) : Except Fault Unit :=
  match discrepancy? (Machine.run I inputs before) (Machine.run I inputs after) with
  | none => .ok ()
  | some d => .error (.invariant d.text)

/-- Checks that two lists of chunks do the same, by fingerprints. -/
def verify (inputs : InputLayout) (before after : List Chunk) : Except Fault Unit :=
  verifyWith Fingerprint.interpretation inputs before after

/-- The headers of every sheet that is left, from left to right. -/
def columnLayout (inputs : InputLayout) (chunks : List Chunk) :
    Except Fault (Dictionary SheetId (List Header)) :=
  let m := Machine.run Fingerprint.interpretation inputs chunks
  match m.faults with
  | f :: _ => .error (.invariant f.text)
  | [] =>
    .ok ((m.sheets.filter fun e => m.isBound e.2).map fun e =>
      (e.1, (m.frame e.2).map SymbolicColumn.header))

end SheetScript.Symbolic

namespace SheetScript.Optimizer

/-- Shortens chunks and, if asked to, verifies the result. -/
def optimize (limit : Nat) (verifying : Bool) (inputs : Symbolic.InputLayout)
    (chunks : List Chunk) : Except Fault (List Chunk × Report) := do
  let r := shorten limit chunks
  if verifying then Symbolic.verify inputs chunks r.chunks
  pure (r.chunks, r.report chunks)

end SheetScript.Optimizer
