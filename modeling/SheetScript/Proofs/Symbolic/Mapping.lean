import SheetScript.Proofs.Collections
import SheetScript.Symbolic.Machine

/-! # Values under a map

  A map of values takes one interpretation to another if it respects what statements
  compute.  Then it takes the run of chunks under the first to their run under the
  second: names, positions and faults come from headers and variables alone, and
  values are only handed on.

  - `Machine.run_map`: the run under the map.
  - `Machine.faults_run`: no interpretation has a say in faults.
-/

namespace SheetScript.Symbolic

variable {τ σ : Type}

/-! ### Mapped machines -/

/-- The column with its value mapped. -/
def SymbolicColumn.map (f : τ → σ) (c : SymbolicColumn τ) : SymbolicColumn σ :=
  ⟨c.id, c.header, f c.value⟩

/-- The frame with its values mapped. -/
def SymbolicFrame.mapValues (f : τ → σ) (frame : SymbolicFrame τ) : SymbolicFrame σ :=
  List.map (SymbolicColumn.map f) frame

/-- A sheet as a block meets it, with its values mapped. -/
def Sight.map (f : τ → σ) (s : Sight τ) : Sight σ :=
  ⟨s.columns, s.frame.map (SymbolicFrame.mapValues f)⟩

/-- The machine with its values mapped. -/
def Machine.map (f : τ → σ) (m : Machine τ) : Machine σ where
  objects := m.objects.map (SymbolicFrame.mapValues f)
  bindings := m.bindings
  sheets := m.sheets
  effects := m.effects.map f
  faults := m.faults

/-- Whether a map takes what statements compute to what they compute from mapped
  values. -/
structure Interpretation.Maps (f : τ → σ) (I : Interpretation τ) (J : Interpretation σ) : Prop where
  input : ∀ s id, f (I.input s id) = J.input s id
  value : ∀ code reads, f (I.value code reads) = J.value code (reads.map (Option.map f))
  retyped : ∀ statements v, f (I.retyped statements v) = J.retyped statements (f v)
  seen : ∀ statements reads writes, f (I.seen statements reads writes)
    = J.seen statements (reads.map (Sight.map f)) (writes.map (Sight.map f))
  produced : ∀ seen id, f (I.produced seen id) = J.produced (f seen) id

@[simp] theorem SymbolicFrame.mapValues_nil (f : τ → σ) :
    SymbolicFrame.mapValues f ([] : SymbolicFrame τ) = [] := rfl

@[simp] theorem SymbolicFrame.length_mapValues (f : τ → σ) (frame : SymbolicFrame τ) :
    (SymbolicFrame.mapValues f frame).length = frame.length := List.length_map _

namespace Machine

variable (f : τ → σ) (m : Machine τ)

@[simp] theorem bindings_map : (m.map f).bindings = m.bindings := rfl

@[simp] theorem sheets_map : (m.map f).sheets = m.sheets := rfl

@[simp] theorem faults_map : (m.map f).faults = m.faults := rfl

@[simp] theorem effects_map : (m.map f).effects = m.effects.map f := rfl

/-! ### Looking up -/

@[simp] theorem frame_map (object : Nat) :
    (m.map f).frame object = SymbolicFrame.mapValues f (m.frame object) := by
  simp only [frame, map, List.getElem?_map]
  cases m.objects[object]? <;> rfl

@[simp] theorem sheetFrame?_map (s : SheetId) :
    (m.map f).sheetFrame? s = (m.sheetFrame? s).map (SymbolicFrame.mapValues f) := by
  unfold sheetFrame?
  rw [sheets_map, Option.map_map]
  exact congrArg (fun g => Option.map g _) (funext fun object => frame_map f m object)

@[simp] theorem sights_map (a : ColumnAccess) :
    (m.map f).sights a = (m.sights a).map (Sight.map f) := by
  unfold sights
  rw [List.map_map]
  exact List.map_congr_left fun e _ => by simp [Sight.map]

theorem boundFrames_map :
    (m.map f).boundFrames = Dictionary.mapValues (SymbolicFrame.mapValues f) m.boundFrames := by
  unfold boundFrames Dictionary.mapValues
  rw [bindings_map, List.map_map]
  exact List.map_congr_left fun e _ => by simp

@[simp] theorem valueOf?_map (frame : SymbolicFrame τ) (id : ColumnId) :
    valueOf? (SymbolicFrame.mapValues f frame) id = (valueOf? frame id).map f := by
  unfold valueOf? SymbolicFrame.mapValues
  rw [List.find?_map, Option.map_map, Option.map_map]
  rfl

@[simp] theorem hasHeader_map (frame : SymbolicFrame τ) (header : Header) :
    hasHeader (SymbolicFrame.mapValues f frame) header = hasHeader frame header := by
  unfold hasHeader SymbolicFrame.mapValues
  rw [List.any_map]
  rfl

theorem valuesOf?_map (frame : SymbolicFrame τ) (ids : List ColumnId) :
    ids.map (valueOf? (SymbolicFrame.mapValues f frame))
      = (ids.map (valueOf? frame)).map (Option.map f) := by
  rw [List.map_map]
  exact List.map_congr_left fun id _ => valueOf?_map f frame id

theorem onHeader_map (frame : SymbolicFrame τ) (header : Header)
    {g : SymbolicColumn τ → SymbolicColumn τ} (g' : SymbolicColumn σ → SymbolicColumn σ)
    (hg : ∀ c, (g c).map f = g' (c.map f)) :
    SymbolicFrame.mapValues f (onHeader frame header g)
      = onHeader (SymbolicFrame.mapValues f frame) header g' := by
  unfold onHeader SymbolicFrame.mapValues
  rw [List.map_map, List.map_map]
  refine List.map_congr_left fun c _ => ?_
  have hheader : (c.map f).header = c.header := rfl
  by_cases hc : c.header = header
  · rw [Function.comp_apply, Function.comp_apply, if_pos hc, if_pos (hheader.trans hc), hg]
  · rw [Function.comp_apply, Function.comp_apply, if_neg hc, if_neg (hheader ▸ hc)]

/-! ### Moving on -/

@[simp] theorem map_fail (fault : MachineFault) : (m.fail fault).map f = (m.map f).fail fault := rfl

@[simp] theorem map_failWhen (b : Bool) (fault : MachineFault) :
    (m.failWhen b fault).map f = (m.map f).failWhen b fault := by
  unfold failWhen
  split <;> rfl

@[simp] theorem map_setFrame (object : Nat) (frame : SymbolicFrame τ) :
    (m.setFrame object frame).map f = (m.map f).setFrame object (SymbolicFrame.mapValues f frame) := by
  simp [setFrame, map, List.map_set]

theorem push_fst_map (frame : SymbolicFrame τ) :
    ((m.map f).push (SymbolicFrame.mapValues f frame)).1 = (m.push frame).1 := by
  simp [push, map]

theorem map_push (frame : SymbolicFrame τ) :
    (m.push frame).2.map f = ((m.map f).push (SymbolicFrame.mapValues f frame)).2 := by
  simp [push, map]

@[simp] theorem map_bind (name : String) (object : Nat) (s : SheetId) :
    (m.bind name object s).map f = (m.map f).bind name object s := by
  unfold bind
  simp only [bindings_map, sheets_map]
  rw [← map_failWhen]
  rfl

@[simp] theorem map_unbind (name : String) : (m.unbind name).map f = (m.map f).unbind name := by
  cases hbound : Dictionary.contains m.bindings name with
  | true => simp [unbind, failWhen, map, hbound]
  | false => simp [unbind, failWhen, fail, map, hbound]

@[simp] theorem map_forget (s : SheetId) : (m.forget s).map f = (m.map f).forget s := by
  unfold forget
  rw [sheets_map]
  split <;> rfl

theorem resolve_map (t : Target) :
    (m.map f).resolve t = ((m.resolve t).1, (m.resolve t).2.map f) := by
  unfold resolve
  rw [bindings_map, sheets_map]
  cases Dictionary.get? m.bindings t.df with
  | none => rfl
  | some object => simp

/-- Statements on a target do the same to mapped frames if they do so once it is found. -/
theorem map_onTarget (t : Target) {act : Machine τ → Nat → Machine τ}
    {act' : Machine σ → Nat → Machine σ}
    (hact : ∀ m object, (act m object).map f = act' (m.map f) object) :
    (m.onTarget t act).map f = (m.map f).onTarget t act' := by
  unfold onTarget
  rw [resolve_map]
  obtain ⟨found, n⟩ := m.resolve t
  cases found with
  | none => rfl
  | some object => exact hact n object

@[simp] theorem map_insertColumn (object : Nat) (df : String) (index : Nat)
    (c : SymbolicColumn τ) :
    (m.insertColumn object df index c).map f = (m.map f).insertColumn object df index (c.map f) := by
  unfold insertColumn
  simp only [frame_map, hasHeader_map, SymbolicFrame.length_mapValues]
  split
  · next h => simp [SymbolicColumn.map, h]
  · next h => simp [SymbolicColumn.map, h, SymbolicFrame.mapValues]

@[simp] theorem map_dropColumn (df : String) (object : Nat) (header : Header) :
    (dropColumn df object m header).map f = dropColumn df object (m.map f) header := by
  unfold dropColumn
  have hfilter : ∀ frame : SymbolicFrame τ,
      SymbolicFrame.mapValues f (frame.filter fun c => c.header ≠ header)
        = (SymbolicFrame.mapValues f frame).filter fun c => c.header ≠ header := by
    intro frame
    unfold SymbolicFrame.mapValues
    rw [List.filter_map]
    rfl
  simp only [frame_map, hasHeader_map, map_setFrame, map_failWhen, hfilter]

theorem map_dropColumns (df : String) (object : Nat) (headers : List Header) :
    (headers.foldl (dropColumn df object) m).map f
      = headers.foldl (dropColumn df object) (m.map f) := by
  induction headers generalizing m with
  | nil => rfl
  | cons header rest ih => rw [List.foldl_cons, List.foldl_cons, ih, map_dropColumn]

@[simp] theorem map_renameColumn (object : Nat) (df : String) (old new : Header) :
    (m.renameColumn object df old new).map f = (m.map f).renameColumn object df old new := by
  unfold renameColumn
  simp only [frame_map, hasHeader_map, map_setFrame, map_failWhen]
  rw [onHeader_map f _ _ (fun c => { c with header := new }) fun _ => rfl]

theorem map_forgetAll (sheets : List SheetId) :
    (sheets.foldl forget m).map f = sheets.foldl forget (m.map f) := by
  induction sheets generalizing m with
  | nil => rfl
  | cons s rest ih => rw [List.foldl_cons, List.foldl_cons, ih, map_forget]

end Machine

/-! ### Runs -/

namespace Interpretation.Maps

open Machine

variable {f : τ → σ} {I : Interpretation τ} {J : Interpretation σ}

theorem outputFrame (h : I.Maps f J) (seed : τ) (writes : ColumnAccess)
    (previous : Option (SymbolicFrame τ)) (o : BlockOutput) :
    SymbolicFrame.mapValues f (outputFrame I seed writes previous o)
      = Machine.outputFrame J (f seed) writes (previous.map (SymbolicFrame.mapValues f)) o := by
  have hkept : ∀ id, kept? writes o.sheet (previous.map (SymbolicFrame.mapValues f)) id
      = (kept? writes o.sheet previous id).map f := by
    intro id
    unfold kept?
    split
    · next ids _ =>
      by_cases hid : id ∈ ids
      · simp [hid]
      · cases previous <;> simp [hid]
    · rfl
  unfold Machine.outputFrame
  simp only [hkept]
  unfold SymbolicFrame.mapValues
  rw [List.map_map]
  refine List.map_congr_left fun c _ => ?_
  simp only [Function.comp_apply, SymbolicColumn.map]
  cases kept? writes o.sheet previous c.1 with
  | none => simp [h.produced]
  | some v => simp

theorem writeOutputs (h : I.Maps f J) (seed : τ) (writes : ColumnAccess)
    (outputs : List BlockOutput) (m : Machine τ) :
    (outputs.foldl (writeOutput I seed writes) m).map f
      = outputs.foldl (writeOutput J (f seed) writes) (m.map f) := by
  induction outputs generalizing m with
  | nil => rfl
  | cons o rest ih =>
    rw [List.foldl_cons, List.foldl_cons, ih]
    congr 1
    simp only [writeOutput, Machine.map_bind, sheetFrame?_map, ← h.outputFrame]
    rw [map_push, push_fst_map]

/-- One chunk on mapped values. -/
theorem step (h : I.Maps f J) (m : Machine τ) (b : ChunkBody) :
    (m.step I b).map f = (m.map f).step J b := by
  cases b with
  | addColumn t id header index value reads =>
    refine map_onTarget f m t fun m object => ?_
    simp only [map_insertColumn, SymbolicColumn.map, h.value, frame_map, valuesOf?_map]
  | setFormula t id header value reads =>
    refine map_onTarget f m t fun m object => ?_
    simp only [map_setFrame, frame_map, hasHeader_map, valuesOf?_map, ← h.value]
    -- of the new value only its image matters
    generalize I.value value (reads.map (valueOf? (m.frame object))) = v
    split
    · rw [onHeader_map f _ _ (fun c => { c with value := f v }) fun _ => rfl]
    · simp [SymbolicFrame.mapValues, SymbolicColumn.map]
  | deleteColumns t ids headers =>
    exact map_onTarget f m t fun m object => map_dropColumns f m _ object headers
  | renameColumn t id old new =>
    exact map_onTarget f m t fun m object => map_renameColumn f m object _ old new
  | changeType t id header statements =>
    refine map_onTarget f m t fun m object => ?_
    have hretyped : ∀ c : SymbolicColumn τ,
        SymbolicColumn.map f { c with value := I.retyped statements c.value }
          = { c.map f with value := J.retyped statements (c.map f).value } := by
      intro c
      simp only [SymbolicColumn.map, h.retyped]
    simp only [map_setFrame, map_failWhen, frame_map, hasHeader_map]
    rw [onHeader_map f _ _ (fun c => { c with value := J.retyped statements c.value }) hretyped]
  | duplicateSheet source copy =>
    refine map_onTarget f m source fun m object => ?_
    simp only [Machine.map_bind, frame_map]
    rw [map_push, push_fst_map]
  | deleteSheet t =>
    simp only [Machine.step, resolve_map, map_unbind]
  | renameSheet sheet old new =>
    exact map_onTarget f m _ fun m object => by simp
  | block b =>
    simp only [Machine.step]
    rw [h.writeOutputs, h.seen, sights_map, sights_map, map_forgetAll]
    congr 2
    split
    · simp [Machine.map, h.seen]
    · rfl

theorem start (h : I.Maps f J) (inputs : InputLayout) :
    (Machine.start I inputs).map f = Machine.start J inputs := by
  have hput : ∀ (m : Machine τ) (e : SheetId × InputSheet),
      (put I m e).map f = put J (m.map f) e := by
    intro m e
    simp [put, push, Machine.map, SymbolicFrame.mapValues, SymbolicColumn.map, h.input,
      Function.comp_def]
  have hall : ∀ (m : Machine τ), (inputs.foldl (put I) m).map f = inputs.foldl (put J) (m.map f) := by
    induction inputs with
    | nil => exact fun _ => rfl
    | cons e rest ih =>
      intro m
      rw [List.foldl_cons, List.foldl_cons, ih, hput]
  exact hall {}

/-- Chunks on mapped values. -/
theorem run (h : I.Maps f J) (inputs : InputLayout) (chunks : List Chunk) :
    (Machine.run I inputs chunks).map f = Machine.run J inputs chunks := by
  have hall : ∀ m : Machine τ, (chunks.foldl (fun m c => m.step I c.body) m).map f
      = chunks.foldl (fun m c => m.step J c.body) (m.map f) := by
    induction chunks with
    | nil => exact fun _ => rfl
    | cons c rest ih =>
      intro m
      rw [List.foldl_cons, List.foldl_cons, ih, h.step]
  unfold Machine.run
  rw [hall, h.start]

end Interpretation.Maps

/-- The interpretation in which there is nothing to compute. -/
def Interpretation.trivial : Interpretation Unit where
  input _ _ := ()
  value _ _ := ()
  retyped _ _ := ()
  seen _ _ _ := ()
  produced _ _ := ()

/-- Whether a statement fails does not depend on what the others computed. -/
theorem Machine.faults_run (I : Interpretation τ) (J : Interpretation σ) (inputs : InputLayout)
    (chunks : List Chunk) : (run I inputs chunks).faults = (run J inputs chunks).faults := by
  have hunit : ∀ {ρ : Type} (K : Interpretation ρ),
      (run K inputs chunks).faults = (run .trivial inputs chunks).faults := by
    intro ρ K
    have hmaps : K.Maps (fun _ => ()) .trivial := ⟨by simp, by simp, by simp, by simp, by simp⟩
    rw [← hmaps.run, faults_map]
  rw [hunit I, hunit J]

end SheetScript.Symbolic
