import SheetScript.Proofs.Footprints
import SheetScript.Symbolic.Machine

/-! # The desk

  The symbolic machine keeps every frame it ever built and binds variables to
  them by position, so two runs of the same effect may end in machines that
  number their frames differently.  A desk is what is left of a machine when
  nothing goes wrong: the table of each sheet, with the variable that holds it.

  - `Desk.step` runs a chunk on a desk, with no fault to raise.
  - `Desk.Runs` says that a chunk finds the variables and headers it names.
  - `Desk.Fits` says that it also means the columns that stand under them.
-/

namespace SheetScript.Symbolic

/-- A sheet on the desk: the variable that holds it, and its frame. -/
structure Table (τ : Type) where
  name : String
  frame : SymbolicFrame τ

/-- The table of every sheet. -/
abbrev Desk (τ : Type) := SheetId → Option (Table τ)

variable {τ σ : Type}

namespace SymbolicFrame

/-- Headers from left to right. -/
def headers (f : SymbolicFrame τ) : List Header := f.map SymbolicColumn.header

/-- Column ids from left to right. -/
def ids (f : SymbolicFrame τ) : List ColumnId := f.map SymbolicColumn.id

/-- Whether the column `id` stands under the header `h`. -/
def HasColumn (f : SymbolicFrame τ) (id : ColumnId) (h : Header) : Prop :=
  ∃ c ∈ f, c.id = id ∧ c.header = h

/-! ### Edits of single columns -/

/-- The frame after a chunk that edits single columns; other chunks leave it. -/
def retouch (I : Interpretation τ) (f : SymbolicFrame τ) : ChunkBody → SymbolicFrame τ
  | .addColumn _ id header index value reads =>
    f.take index ++
      ⟨id, header, I.value (value.getD "0") (reads.map (Machine.valueOf? f))⟩ :: f.drop index
  | .setFormula _ _ header value reads =>
    Machine.onHeader f header fun c =>
      { c with value := I.value value (reads.map (Machine.valueOf? f)) }
  | .deleteColumns _ _ hs => f.filter fun c => c.header ∉ hs
  | .renameColumn _ _ old new => Machine.onHeader f old fun c => { c with header := new }
  | .changeType _ _ header statements =>
    Machine.onHeader f header fun c => { c with value := I.retyped statements c.value }
  | _ => f

/-- Whether the headers that such a chunk names are there, and those that it takes
  are free. -/
def Runs (f : SymbolicFrame τ) : ChunkBody → Prop
  | .addColumn _ _ header index _ _ => header ∉ headers f ∧ index ≤ f.length
  | .deleteColumns _ _ hs => hs.Nodup ∧ ∀ h ∈ hs, h ∈ headers f
  | .renameColumn _ _ old new => old ∈ headers f ∧ new ∉ headers f
  | .setFormula _ _ header _ _ => header ∈ headers f
  | .changeType _ _ header _ => header ∈ headers f
  | _ => True

/-- Whether the columns that such a chunk means stand under the headers that it
  names. -/
def Matches (f : SymbolicFrame τ) : ChunkBody → Prop
  | .addColumn _ id _ _ _ _ => id ∉ ids f
  | .deleteColumns _ is hs => is.length = hs.length ∧ ∀ p ∈ is.zip hs, HasColumn f p.1 p.2
  | .renameColumn _ id old _ => HasColumn f id old
  | .setFormula _ id header _ _ => HasColumn f id header
  | .changeType _ id header _ => HasColumn f id header
  | _ => True

end SymbolicFrame

namespace Desk

/-! ### Updates -/

/-- The desk with another table, or none, for a sheet. -/
def set (d : Desk τ) (s : SheetId) (x : Option (Table τ)) : Desk τ :=
  fun t => if t = s then x else d t

@[simp] theorem set_self (d : Desk τ) (s : SheetId) (x : Option (Table τ)) : d.set s x s = x := by
  simp [set]

theorem set_ne (d : Desk τ) {s t : SheetId} (x : Option (Table τ)) (h : t ≠ s) :
    d.set s x t = d t := by
  simp [set, h]

@[simp] theorem set_set (d : Desk τ) (s : SheetId) (x y : Option (Table τ)) :
    (d.set s x).set s y = d.set s y := by
  funext t
  by_cases h : t = s <;> simp [set, h]

theorem set_comm (d : Desk τ) {s t : SheetId} (h : s ≠ t) (x y : Option (Table τ)) :
    (d.set s x).set t y = (d.set t y).set s x := by
  funext u
  by_cases hs : u = s
  · subst hs
    simp [set, h]
  · by_cases ht : u = t
    · subst ht
      simp [set, hs]
    · simp [set, hs, ht]

@[simp] theorem set_eq (d : Desk τ) (s : SheetId) : d.set s (d s) = d := by
  funext t
  by_cases h : t = s <;> simp [set, h]

/-- A table after an update is the new one or one of another sheet. -/
theorem set_eq_some {d : Desk τ} {s t : SheetId} {x : Option (Table τ)} {y : Table τ} :
    d.set s x t = some y ↔ (t = s ∧ x = some y) ∨ (t ≠ s ∧ d t = some y) := by
  by_cases h : t = s <;> simp [set, h]

theorem set_some_eq_some {d : Desk τ} {s t : SheetId} {x y : Table τ} :
    d.set s (some x) t = some y ↔ (t = s ∧ x = y) ∨ (t ≠ s ∧ d t = some y) := by
  rw [set_eq_some, Option.some.injEq]

theorem set_none_eq_some {d : Desk τ} {s t : SheetId} {y : Table τ} :
    d.set s none t = some y ↔ t ≠ s ∧ d t = some y := by
  simp [set_eq_some]

/-- The desk with the frame of a sheet changed. -/
def edit (d : Desk τ) (s : SheetId) (φ : SymbolicFrame τ → SymbolicFrame τ) : Desk τ :=
  d.set s ((d s).map fun x => { x with frame := φ x.frame })

/-- Editing a sheet that is there. -/
theorem edit_eq {d : Desk τ} {s : SheetId} {x : Table τ} (h : d s = some x)
    (φ : SymbolicFrame τ → SymbolicFrame τ) :
    d.edit s φ = d.set s (some { x with frame := φ x.frame }) := by
  simp [edit, h]

theorem edit_self {d : Desk τ} {s : SheetId} {x : Table τ} (h : d s = some x)
    (φ : SymbolicFrame τ → SymbolicFrame τ) :
    d.edit s φ s = some { x with frame := φ x.frame } := by
  simp [edit, h]

theorem edit_ne (d : Desk τ) {s t : SheetId} (φ : SymbolicFrame τ → SymbolicFrame τ) (h : t ≠ s) :
    d.edit s φ t = d t :=
  set_ne d _ h

/-! ### Names -/

/-- No variable of the name holds a sheet. -/
def Free (d : Desk τ) (n : String) : Prop := ∀ s x, d s = some x → x.name ≠ n

/-- The name is that of the sheet, or the name and the sheet are both new. -/
def Reserved (d : Desk τ) (n : String) (s : SheetId) : Prop :=
  ∀ t x, d t = some x → (t = s ↔ x.name = n)

/-- Every variable holds one sheet, and no frame has a header twice. -/
structure Tidy (d : Desk τ) : Prop where
  names : ∀ {s t x y}, d s = some x → d t = some y → x.name = y.name → s = t
  headers : ∀ {s x}, d s = some x → (SymbolicFrame.headers x.frame).Nodup

/-- No frame has a column twice. -/
def Keyed (d : Desk τ) : Prop := ∀ {s x}, d s = some x → (SymbolicFrame.ids x.frame).Nodup

theorem Reserved.of_free {d : Desk τ} {n : String} {s : SheetId} (hs : d s = none)
    (hn : d.Free n) : d.Reserved n s := by
  intro t x hx
  refine ⟨fun h => ?_, fun h => absurd h (hn t x hx)⟩
  rw [h, hs] at hx
  cases hx

/-! ### Running a chunk -/

/-- The sheets of a collection of columns as a block meets them. -/
def sights (d : Desk τ) (a : ColumnAccess) : List (Sight τ) :=
  a.map fun e => ⟨e.2, (d e.1).map Table.frame⟩

/-- What a block sees. -/
def seen (I : Interpretation τ) (d : Desk τ) (b : Block) : τ :=
  I.seen b.statements (d.sights b.footprint.reads) (d.sights b.footprint.writes)

/-- A sheet as a block leaves it. -/
def output (I : Interpretation τ) (d : Desk τ) (b : Block) (o : BlockOutput) : Table τ :=
  ⟨o.name, Machine.outputFrame I (d.seen I b) b.footprint.writes ((d o.sheet).map Table.frame) o⟩

/-- Runs one chunk. -/
def step (I : Interpretation τ) (d : Desk τ) : ChunkBody → Desk τ
  | .duplicateSheet source copy =>
    d.set copy.sheet ((d source.sheet).map fun x => ⟨copy.df, x.frame⟩)
  | .deleteSheet t => d.set t.sheet none
  | .renameSheet s _ new => d.set s ((d s).map fun x => { x with name := new })
  | .block b => fun s =>
    match b.outputs.find? fun o => o.sheet = s with
    | some o => some (d.output I b o)
    | none => d s
  | b => b.columnTarget?.elim d fun t => d.edit t.sheet fun f => SymbolicFrame.retouch I f b

/-- What a chunk shows outside of the script. -/
def effects (I : Interpretation τ) (d : Desk τ) : ChunkBody → List τ
  | .block b => if b.keep then [d.seen I b] else []
  | _ => []

/-- Runs chunks one after the other. -/
def run (I : Interpretation τ) (d : Desk τ) (cs : List Chunk) : Desk τ :=
  cs.foldl (fun d c => d.step I c.body) d

/-- What chunks show outside of the script, in order. -/
def trace (I : Interpretation τ) (d : Desk τ) : List Chunk → List τ
  | [] => []
  | c :: rest => d.effects I c.body ++ trace I (d.step I c.body) rest

/-! ### Chunks that run -/

/-- Whether the sheets that a block writes can be bound to their names. -/
structure BlockRuns (d : Desk τ) (b : Block) : Prop where
  deletes : b.footprint.deletes = []
  sheets : (b.outputs.map BlockOutput.sheet).Nodup
  names : (b.outputs.map BlockOutput.name).Nodup
  headers : ∀ o ∈ b.outputs, (o.columns.map Prod.snd).Nodup
  reserved : ∀ o ∈ b.outputs, d.Reserved o.name o.sheet

/-- Whether the variables and headers that a chunk names are there, and those that
  it takes are free. -/
def Runs (d : Desk τ) : ChunkBody → Prop
  | .duplicateSheet source copy =>
    (∃ x, d source.sheet = some x ∧ x.name = source.df) ∧ d copy.sheet = none ∧ d.Free copy.df
  | .deleteSheet t => ∃ x, d t.sheet = some x ∧ x.name = t.df
  | .renameSheet s old new => (∃ x, d s = some x ∧ x.name = old) ∧ d.Free new
  | .block b => d.BlockRuns b
  | b => ∃ t x, b.columnTarget? = some t ∧ d t.sheet = some x ∧ x.name = t.df
      ∧ SymbolicFrame.Runs x.frame b

/-- Whether a block accesses the sheets that it writes the way it declares. -/
structure BlockMatches (d : Desk τ) (b : Block) : Prop where
  ids : ∀ o ∈ b.outputs, (o.columns.map Prod.fst).Nodup
  access : ∀ o ∈ b.outputs, b.footprint.Accesses o.sheet .all
  touches : ∀ o ∈ b.outputs, o.sheet ∈ b.footprint.touched
  created : ∀ s ∈ b.footprint.creates, d s = none ∧ ∃ o ∈ b.outputs, o.sheet = s
  kept : ∀ o ∈ b.outputs, o.sheet ∉ b.footprint.creates → (d o.sheet).isSome

/-- Whether the columns that a chunk means stand under the headers that it
  names. -/
def Matches (d : Desk τ) : ChunkBody → Prop
  | .block b => d.BlockMatches b
  | b => ∀ t, b.columnTarget? = some t →
      ∀ x, d t.sheet = some x → SymbolicFrame.Matches x.frame b

/-- Whether a chunk runs and means the columns that it names. -/
def Fits (d : Desk τ) (b : ChunkBody) : Prop := d.Runs b ∧ d.Matches b

section Columns

variable {b : ChunkBody} {t : Target} (ht : b.columnTarget? = some t)
include ht

theorem step_column (I : Interpretation τ) (d : Desk τ) :
    d.step I b = d.edit t.sheet fun f => SymbolicFrame.retouch I f b := by
  cases b <;> simp_all [ChunkBody.columnTarget?, step]

theorem effects_column (I : Interpretation τ) (d : Desk τ) : d.effects I b = [] := by
  cases b <;> simp_all [ChunkBody.columnTarget?, effects]

theorem runs_column (d : Desk τ) :
    d.Runs b ↔ ∃ x, d t.sheet = some x ∧ x.name = t.df ∧ SymbolicFrame.Runs x.frame b := by
  cases b <;> simp_all [ChunkBody.columnTarget?, Runs]

theorem matches_column (d : Desk τ) :
    d.Matches b ↔ ∀ x, d t.sheet = some x → SymbolicFrame.Matches x.frame b := by
  cases b <;> simp_all [ChunkBody.columnTarget?, Matches]

theorem fits_column {d : Desk τ} {x : Table τ} (hx : d t.sheet = some x) :
    d.Fits b ↔
      x.name = t.df ∧ SymbolicFrame.Runs x.frame b ∧ SymbolicFrame.Matches x.frame b := by
  unfold Fits
  rw [runs_column ht, matches_column ht]
  constructor
  · rintro ⟨⟨y, hy, hn, hr⟩, hm⟩
    obtain rfl : x = y := Option.some.inj (hx.symm.trans hy)
    exact ⟨hn, hr, hm x hx⟩
  · rintro ⟨hn, hr, hm⟩
    refine ⟨⟨x, hx, hn, hr⟩, fun y hy => ?_⟩
    obtain rfl : x = y := Option.some.inj (hx.symm.trans hy)
    exact hm

end Columns

/-- An input sheet. -/
def input (I : Interpretation τ) (s : SheetId) (i : InputSheet) : Table τ :=
  ⟨i.name, i.columns.map fun c => ⟨c.1, c.2, I.input s c.1⟩⟩

/-- The desk with the input sheets. -/
def ofLayout (I : Interpretation τ) (inputs : InputLayout) : Desk τ :=
  fun s => (Dictionary.get? inputs s).map (input I s)

/-- Whether chunks run one after the other. -/
def AllRun (I : Interpretation τ) : Desk τ → List Chunk → Prop
  | _, [] => True
  | d, c :: rest => d.Runs c.body ∧ AllRun I (d.step I c.body) rest

/-- Whether chunks fit one after the other. -/
def AllFit (I : Interpretation τ) : Desk τ → List Chunk → Prop
  | _, [] => True
  | d, c :: rest => d.Fits c.body ∧ AllFit I (d.step I c.body) rest

end Desk

end SheetScript.Symbolic
