import SheetScript.Chunk.Basic
import SheetScript.Chunk.Footprint

/-!
# The symbolic machine

  Runs chunks the way the script would run: variables are bound to frames, and
  statements find their columns by header.  A statement that would fail, or that
  would act on another sheet than the chunk means, raises a fault; the run goes
  on after it.
-/

/-!
## Symbolic values

  A symbolic run knows which columns a sheet has, but not their cells.  What
  stands for the cells of a column is a value of some type `τ`, and an
  interpretation says how statements make such values from the code text and the
  values that the code reads.  With terms for `τ` two runs agree only when the
  same code ran on the same data; with fingerprints agreement is cheap to test.
-/

namespace SheetScript.Symbolic

/-- A column of a symbolic frame. -/
structure SymbolicColumn (τ : Type) where
  id : ColumnId
  header : Header
  value : τ
  deriving DecidableEq, Repr, Inhabited

/-- Columns from left to right; a header may stand over several of them. -/
abbrev SymbolicFrame (τ : Type) := List (SymbolicColumn τ)

/-- A sheet as a block meets it: the columns that the block declares, and the
  frame, if there is one. -/
structure Sight (τ : Type) where
  columns : ColumnSet
  frame : Option (SymbolicFrame τ)
  deriving Repr, Inhabited

/-- What statements compute. -/
structure Interpretation (τ : Type) where
  /-- A column of an input sheet. -/
  input : SheetId → ColumnId → τ
  /-- An expression over the columns that it reads, of which some may be
  missing. -/
  value : String → List (Option τ) → τ
  /-- A column after the statements that change its type. -/
  retyped : List String → τ → τ
  /-- What a block has seen: its statements, the sheets that it reads, and the
  sheets that it writes as they were before. -/
  seen : List String → List (Sight τ) → List (Sight τ) → τ
  /-- A column that a block produces from what it has seen. -/
  produced : τ → ColumnId → τ

/-- A fingerprint of code and data. -/
abbrev Fingerprint := UInt64

namespace Fingerprint

/-- The fingerprint of a list of fingerprints. -/
def ofList (parts : List Fingerprint) : Fingerprint := parts.foldl mixHash 7

/-- The fingerprint of a text. -/
def ofText (s : String) : Fingerprint := hash s

/-- The fingerprint of a column. -/
def ofColumn (c : SymbolicColumn Fingerprint) : Fingerprint :=
  ofList [ofText c.id.text, ofText c.header, c.value]

/-- The fingerprint of something that may be missing. -/
def ofOption (f : α → Fingerprint) : Option α → Fingerprint
  | none => 11
  | some a => mixHash 13 (f a)

/-- Values as fingerprints.  Of a block they hold the whole sheets that it reads. -/
def interpretation : Interpretation Fingerprint where
  input s id := ofList [1, hash s.number, ofText id.text]
  value code reads := ofList [2, ofText code, ofList (reads.map (ofOption fun v => v))]
  retyped statements v := ofList [3, ofList (statements.map ofText), v]
  seen statements reads _ :=
    ofList [4, ofList (statements.map ofText),
      ofList (reads.map fun r => ofOption (fun f => ofList (f.map ofColumn)) r.frame)]
  produced seen id := ofList [5, seen, ofText id.text]

end Fingerprint

/-! ## Running chunks -/

/-- An input sheet: its variable and its columns from left to right. -/
structure InputSheet where
  name : String
  columns : List (ColumnId × Header)
  deriving DecidableEq, Repr, Inhabited

/-- The sheets that a script starts from. -/
abbrev InputLayout := Dictionary SheetId InputSheet

/-- A statement that would fail or act on the wrong sheet. -/
inductive MachineFault where
  | undefined (df : String)
  | otherSheet (df : String) (sheet : SheetId)
  | rebound (name : String)
  | freedUndefined (name : String)
  | insertExisting (header : Header) (df : String)
  | insertBeyond (header : Header) (index width : Nat) (df : String)
  | dropMissing (header : Header) (df : String)
  | renameMissing (header : Header) (df : String)
  | renameTaken (header : Header) (df : String)
  | retypeMissing (header : Header) (df : String)
  deriving DecidableEq, Repr

/-- What a fault says. -/
def MachineFault.text : MachineFault → String
  | .undefined df => df ++ " is not defined"
  | .otherSheet df sheet => df ++ " does not hold " ++ sheet.text
  | .rebound name => name ++ " is rebound while it still holds another sheet"
  | .freedUndefined name => "del of undefined " ++ name
  | .insertExisting header df => "insert of " ++ header ++ ", which already exists in " ++ df
  | .insertBeyond header index width df =>
    "insert of " ++ header ++ " at " ++ Decimal.natText index ++ " into "
      ++ Decimal.natText width ++ " columns of " ++ df
  | .dropMissing header df => "drop of missing column " ++ header ++ " from " ++ df
  | .renameMissing header df => "rename of missing column " ++ header ++ " in " ++ df
  | .renameTaken header df => "rename to " ++ header ++ ", which already exists in " ++ df
  | .retypeMissing header df => "dtype change of missing column " ++ header ++ " in " ++ df

/-- The state of a symbolic run. -/
structure Machine (τ : Type) where
  /-- Every frame built so far; variables refer to it by position. -/
  objects : List (SymbolicFrame τ) := []
  bindings : Dictionary String Nat := []
  /-- The frame that the chunks of a sheet mean. -/
  sheets : Dictionary SheetId Nat := []
  /-- What was seen by the blocks that have effects, in order. -/
  effects : List τ := []
  faults : List MachineFault := []
  deriving DecidableEq, Repr, Inhabited

namespace Machine

variable {τ : Type}

/-- The machine after a fault. -/
def fail (m : Machine τ) (f : MachineFault) : Machine τ := { m with faults := m.faults ++ [f] }

/-- The machine after a fault, if there is one. -/
def failWhen (m : Machine τ) (b : Bool) (f : MachineFault) : Machine τ :=
  if b then m.fail f else m

/-- The frame at a position. -/
def frame (m : Machine τ) (object : Nat) : SymbolicFrame τ := m.objects[object]?.getD []

/-- The machine with one more frame, at the position that comes first. -/
def push (m : Machine τ) (f : SymbolicFrame τ) : Nat × Machine τ :=
  (m.objects.length, { m with objects := m.objects ++ [f] })

/-- The machine with a frame replaced. -/
def setFrame (m : Machine τ) (object : Nat) (f : SymbolicFrame τ) : Machine τ :=
  { m with objects := m.objects.set object f }

/-- Whether a variable is bound to the frame. -/
def isBound (m : Machine τ) (object : Nat) : Bool := object ∈ Dictionary.values m.bindings

/-- The variables with their frames. -/
def boundFrames (m : Machine τ) : Dictionary String (SymbolicFrame τ) :=
  Dictionary.mapValues m.frame m.bindings

/-- The frame that a variable is bound to, for a chunk that means a sheet. -/
def resolve (m : Machine τ) (t : Target) : Option Nat × Machine τ :=
  match Dictionary.get? m.bindings t.df with
  | none => (none, m.fail (.undefined t.df))
  | some object =>
    (some object,
     m.failWhen (Dictionary.get? m.sheets t.sheet != some object) (.otherSheet t.df t.sheet))

/-- Binds a variable to the frame of a sheet. -/
def bind (m : Machine τ) (name : String) (object : Nat) (sheet : SheetId) : Machine τ :=
  let previous := Dictionary.get? m.bindings name
  let m := m.failWhen
    (previous.isSome && previous != some object && Dictionary.get? m.sheets sheet != previous)
    (.rebound name)
  { m with
    bindings := Dictionary.insert m.bindings name object
    sheets := Dictionary.insert m.sheets sheet object }

/-- Frees a variable; sheets whose frame no variable holds are gone. -/
def unbind (m : Machine τ) (name : String) : Machine τ :=
  let m := m.failWhen (!Dictionary.contains m.bindings name) (.freedUndefined name)
  let bindings := Dictionary.erase m.bindings name
  { m with
    bindings := bindings
    sheets := m.sheets.filter fun e => e.2 ∈ Dictionary.values bindings }

/-- The value of a column of a frame. -/
def valueOf? (f : SymbolicFrame τ) (id : ColumnId) : Option τ :=
  (f.find? fun c => c.id = id).map SymbolicColumn.value

/-- The frame of a sheet. -/
def sheetFrame? (m : Machine τ) (s : SheetId) : Option (SymbolicFrame τ) :=
  (Dictionary.get? m.sheets s).map m.frame

/-- The sheets of a collection of columns as a block meets them. -/
def sights (m : Machine τ) (a : ColumnAccess) : List (Sight τ) :=
  a.map fun e => ⟨e.2, m.sheetFrame? e.1⟩

/-- Whether a frame has a column with the header. -/
def hasHeader (f : SymbolicFrame τ) (header : Header) : Bool := f.any fun c => c.header = header

/-- The frame with every column of a header replaced. -/
def onHeader (f : SymbolicFrame τ) (header : Header) (g : SymbolicColumn τ → SymbolicColumn τ) :
    SymbolicFrame τ :=
  f.map fun c => if c.header = header then g c else c

/-- Inserts a column; past the right end it is added there. -/
def insertColumn (m : Machine τ) (object : Nat) (df : String) (index : Nat)
    (c : SymbolicColumn τ) : Machine τ :=
  let f := m.frame object
  if hasHeader f c.header then m.fail (.insertExisting c.header df)
  else
    let m := m.failWhen (f.length < index) (.insertBeyond c.header index f.length df)
    m.setFrame object (f.take index ++ c :: f.drop index)

/-- Drops every column with the header. -/
def dropColumn (df : String) (object : Nat) (m : Machine τ) (header : Header) : Machine τ :=
  let f := m.frame object
  let m := m.failWhen (!hasHeader f header) (.dropMissing header df)
  m.setFrame object (f.filter fun c => c.header ≠ header)

/-- Gives every column with a header another one. -/
def renameColumn (m : Machine τ) (object : Nat) (df : String) (old new : Header) : Machine τ :=
  let f := m.frame object
  let m := m.failWhen (!hasHeader f old) (.renameMissing old df)
  let m := m.failWhen (hasHeader f new) (.renameTaken new df)
  m.setFrame object (onHeader f old fun c => { c with header := new })

/-- The value that a column keeps when a block does not write it; `previous` is
  the frame of the sheet before. -/
def kept? (writes : ColumnAccess) (s : SheetId) (previous : Option (SymbolicFrame τ))
    (id : ColumnId) : Option τ :=
  match Dictionary.get? writes s with
  | some (.only ids) => if id ∈ ids then none else previous.bind fun f => valueOf? f id
  | _ => none

/-- The frame of a sheet as a block leaves it. -/
def outputFrame (I : Interpretation τ) (seed : τ) (writes : ColumnAccess)
    (previous : Option (SymbolicFrame τ)) (o : BlockOutput) : SymbolicFrame τ :=
  o.columns.map fun c =>
    ⟨c.1, c.2, (kept? writes o.sheet previous c.1).getD (I.produced seed c.1)⟩

/-- Binds the variable of a sheet to the frame that a block leaves. -/
def writeOutput (I : Interpretation τ) (seed : τ) (writes : ColumnAccess) (m : Machine τ)
    (o : BlockOutput) : Machine τ :=
  let (object, m) := m.push (outputFrame I seed writes (m.sheetFrame? o.sheet) o)
  m.bind o.name object o.sheet

/-- The machine without a sheet that a block has deleted. -/
def forget (m : Machine τ) (s : SheetId) : Machine τ :=
  match Dictionary.get? m.sheets s with
  | none => m
  | some object =>
    { m with
      sheets := Dictionary.erase m.sheets s
      bindings := m.bindings.filter fun e => e.2 ≠ object }

/-- Runs a statement on the frame that a target is bound to, if it is bound. -/
def onTarget (m : Machine τ) (t : Target) (f : Machine τ → Nat → Machine τ) : Machine τ :=
  match m.resolve t with
  | (none, m) => m
  | (some object, m) => f m object

/-- Runs one chunk. -/
def step (I : Interpretation τ) (m : Machine τ) : ChunkBody → Machine τ
  | .addColumn t id header index value reads =>
    m.onTarget t fun m object =>
      let v := I.value (value.getD "0") (reads.map (valueOf? (m.frame object)))
      m.insertColumn object t.df index ⟨id, header, v⟩
  | .setFormula t id header value reads =>
    m.onTarget t fun m object =>
      let f := m.frame object
      let v := I.value value (reads.map (valueOf? f))
      m.setFrame object
        (if hasHeader f header then onHeader f header fun c => { c with value := v }
         else f ++ [⟨id, header, v⟩])
  | .deleteColumns t _ headers =>
    m.onTarget t fun m object => headers.foldl (dropColumn t.df object) m
  | .renameColumn t _ old new =>
    m.onTarget t fun m object => m.renameColumn object t.df old new
  | .changeType t _ header statements =>
    m.onTarget t fun m object =>
      let f := m.frame object
      let m := m.failWhen (!hasHeader f header) (.retypeMissing header t.df)
      m.setFrame object (onHeader f header fun c => { c with value := I.retyped statements c.value })
  | .duplicateSheet source copy =>
    m.onTarget source fun m object =>
      let (copied, m) := m.push (m.frame object)
      m.bind copy.df copied copy.sheet
  | .deleteSheet t => (m.resolve t).2.unbind t.df
  | .renameSheet sheet old new =>
    m.onTarget ⟨sheet, old⟩ fun m object => (m.bind new object sheet).unbind old
  | .block b =>
    let seed := I.seen b.statements (m.sights b.footprint.reads) (m.sights b.footprint.writes)
    let m := if b.keep then { m with effects := m.effects ++ [seed] } else m
    let m := b.footprint.deletes.foldl forget m
    b.outputs.foldl (writeOutput I seed b.footprint.writes) m

/-- Puts an input sheet under its variable. -/
def put (I : Interpretation τ) (m : Machine τ) (e : SheetId × InputSheet) : Machine τ :=
  let (object, m) := m.push (e.2.columns.map fun c => ⟨c.1, c.2, I.input e.1 c.1⟩)
  { m with
    bindings := Dictionary.insert m.bindings e.2.name object
    sheets := Dictionary.insert m.sheets e.1 object }

/-- The machine before the first chunk: every input sheet under its variable. -/
def start (I : Interpretation τ) (inputs : InputLayout) : Machine τ := inputs.foldl (put I) {}

/-- Runs chunks from the input sheets. -/
def run (I : Interpretation τ) (inputs : InputLayout) (chunks : List Chunk) : Machine τ :=
  chunks.foldl (fun m c => m.step I c.body) (start I inputs)

end Machine

end SheetScript.Symbolic
