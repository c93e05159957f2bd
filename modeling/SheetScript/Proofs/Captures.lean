import SheetScript.Proofs.Assignments
import SheetScript.Proofs.Comments
import SheetScript.Proofs.Desk.Faults

/-! # Variables that sheets lose

  The statements of a script assign helpers besides the variables of sheets, and refer to
  modules by name.  A sheet of such a name loses its variable.  Names that are made for
  sheets never are such names; but a user can give a sheet any name of a variable.

  - `Machine.mem_live_run`: variables of sheets come from tables and results alone.
  - `Script.shadowedRun_eq`: if no sheet loses its variable, helpers make no difference.
  - `Session.only_given_captured`: a sheet that loses its variable has its name from the
    user.
  - `Session.encoding_captures`: an encoding takes the variable of a table away.
-/

namespace SheetScript

open Symbolic

/-! ### Reserved names -/

namespace Naming

theorem isReserved_of_helper {name : String} (h : name ∈ helpers) : isReserved name = true := by
  simp [isReserved, h]

theorem isReserved_of_module {name : String} (h : name ∈ modules) : isReserved name = true := by
  simp [isReserved, h]

theorem isReserved_of_suffix {suffix : String} (h : suffix ∈ helperSuffixes) (name : String) :
    isReserved (name ++ suffix) = true := by
  simp only [isReserved, Bool.or_eq_true, List.any_eq_true, List.isSuffixOf_iff_suffix,
    String.toList_append]
  exact .inr ⟨suffix, h, List.suffix_append _ _⟩

end Naming

/-- Helpers have reserved names. -/
theorem Edit.isReserved_of_helper {e : Edit} {s : State} {v : String} (h : v ∈ e.helpers s) :
    Naming.isReserved v = true := by
  have hhelper : v ∈ Naming.helpers → Naming.isReserved v = true := Naming.isReserved_of_helper
  cases e with
  | moveColumn e =>
    obtain ⟨sheet, -, rfl⟩ := List.mem_map.mp h
    exact Naming.isReserved_of_suffix (by decide) sheet.name
  | oneHot e =>
    have hsubset : ["tmp_df"] ⊆ Naming.helpers := by decide
    exact hhelper (hsubset h)
  | pivot e =>
    have hsubset : ["tmp_df", "pivot_table"] ⊆ Naming.helpers := by decide
    exact hhelper (hsubset h)
  | merge e =>
    have hsubset : ∀ k : MergeKind, k.helpers ⊆ Naming.helpers := by
      intro k
      cases k <;> decide
    exact hhelper (hsubset e.kind h)
  | exportSheets e =>
    have hsubset : (if e.kind = .workbook then ["writer"] else []) ⊆ Naming.helpers := by
      split <;> decide
    exact hhelper (hsubset h)
  | _ => cases h

/-! ### Names of sheets in a log -/

section Names

variable {s : State} {steps : List Step} {known : String → Prop}

/-- Sheets have names that the first state has, that edits give, or that are free. -/
theorem State.Accepts.names (hs : s.Named) (ha : s.Accepts steps) (hfirst : ∀ n ∈ s.names, known n)
    (hgiven : ∀ step ∈ steps, ∀ n ∈ step.edit.givenNames, known n)
    (hfree : ∀ n, Naming.isReserved n = false → known n) :
    ∀ step ∈ steps, (∀ n ∈ step.before.names, known n) ∧ ∀ n ∈ step.after.names, known n := by
  induction steps generalizing s with
  | nil => exact List.forall_mem_nil _
  | cons step rest ih =>
    obtain ⟨-, hnamed, hassigns⟩ := State.Accepts.assigns hs ha step List.mem_cons_self
    obtain ⟨⟨d, -, hrun⟩, hrest⟩ := ha
    have hbefore : step.before = s := Step.before_eq hrun
    -- these are the names at the start of the other steps
    have hafter : ∀ n ∈ step.after.names, known n := by
      intro n hn
      rcases hassigns.names n hn with h | h | h
      · exact hfirst n (hbefore ▸ h)
      · exact hgiven step List.mem_cons_self n h
      · exact hfree n h
    have hlater := ih hnamed hrest hafter
      fun later hmem => hgiven later (List.mem_cons_of_mem _ hmem)
    exact List.forall_mem_cons.mpr ⟨⟨hbefore ▸ hfirst, hafter⟩, hlater⟩

/-- Sheets are named after the last step, too. -/
theorem State.Accepts.named (hs : s.Named) (ha : s.Accepts steps) : (s.after steps).Named := by
  unfold State.after
  cases hlast : steps.getLast? with
  | none => exact hs
  | some last => exact (State.Accepts.assigns hs ha last (List.mem_of_getLast? hlast)).2.1

/-- The sheets that chunks are about have names of sheets. -/
theorem State.Accepts.sheetNames (hs : s.Named) (ha : s.Accepts steps)
    (hnames : ∀ step ∈ steps,
      (∀ n ∈ step.before.names, known n) ∧ ∀ n ∈ step.after.names, known n) :
    ∀ c ∈ Script.chunksOf steps, ∀ n ∈ c.body.sheetNames, known n := by
  intro c hc n hn
  obtain ⟨step, hstep, hmem⟩ := List.mem_flatMap.mp hc
  obtain ⟨-, -, hassigns⟩ := State.Accepts.assigns hs ha step hstep
  exact (hassigns.sheetNames c.body (List.mem_map_of_mem hmem) n hn).elim
    ((hnames step hstep).1 n) ((hnames step hstep).2 n)

end Names

/-! ### Variables on the machine -/

namespace Symbolic.Machine

variable {τ : Type} {I : Interpretation τ} {m : Machine τ} {v : String}

/-- The variables that hold frames of sheets. -/
def live (m : Machine τ) : List String := Dictionary.keys m.bindings

/-- The machine on which some variables hold no frames of sheets. -/
def without (names : List String) (m : Machine τ) : Machine τ :=
  { m with bindings := m.bindings.filter fun e => e.1 ∉ names }

theorem without_eq_self {names : List String} (h : ∀ v ∈ names, v ∉ m.live) :
    m.without names = m := by
  have hall : m.bindings.filter (fun e => e.1 ∉ names) = m.bindings := by
    rw [List.filter_eq_self]
    intro e he
    rw [decide_eq_true_eq]
    exact fun hmem => h e.1 hmem (List.mem_map_of_mem he)
  unfold without
  rw [hall]

/-- Statements on a frame bind nothing new. -/
theorem mem_live_onTarget {t : Target} {φ : Machine τ → Nat → Machine τ} {names : List String}
    (hφ : ∀ m o, v ∈ (φ m o).live → v ∈ m.live ∨ v ∈ names) (h : v ∈ (m.onTarget t φ).live) :
    v ∈ m.live ∨ v ∈ names := by
  unfold onTarget resolve at h
  cases ho : Dictionary.get? m.bindings t.df with
  | none =>
    rw [ho] at h
    exact .inl h
  | some o =>
    rw [ho] at h
    simpa [live] using hφ _ o h

theorem mem_live_bind {n : String} {o : Nat} {s : SheetId} :
    v ∈ (m.bind n o s).live ↔ v = n ∨ v ∈ m.live := by
  unfold bind live
  dsimp only
  rw [Dictionary.mem_keys_insert, bindings_failWhen]

theorem mem_live_unbind {n : String} (h : v ∈ (m.unbind n).live) : v ∈ m.live := by
  unfold unbind live at h
  dsimp only at h
  rw [bindings_failWhen] at h
  obtain ⟨o, ho⟩ := Dictionary.mem_keys.mp h
  exact Dictionary.mem_keys.mpr ⟨o, (List.mem_filter.mp ho).1⟩

theorem mem_live_forget {s : SheetId} (h : v ∈ (m.forget s).live) : v ∈ m.live := by
  unfold forget at h
  split at h
  · exact h
  · obtain ⟨o, ho⟩ := Dictionary.mem_keys.mp h
    exact Dictionary.mem_keys.mpr ⟨o, (List.mem_filter.mp ho).1⟩

theorem live_insertColumn (o : Nat) (df : String) (index : Nat) (c : SymbolicColumn τ) :
    (m.insertColumn o df index c).live = m.live := by
  unfold insertColumn
  dsimp only
  split
  · rfl
  · simp [live, setFrame]

theorem live_dropColumns (df : String) (o : Nat) (hs : List Header) :
    (hs.foldl (dropColumn df o) m).live = m.live := by
  induction hs generalizing m with
  | nil => rfl
  | cons h rest ih =>
    rw [List.foldl_cons, ih]
    simp [live, dropColumn, setFrame]

theorem live_renameColumn (o : Nat) (df : String) (old new : Header) :
    (m.renameColumn o df old new).live = m.live := by
  simp [live, renameColumn, setFrame]

/-- A chunk binds its results alone. -/
theorem mem_live_step {b : ChunkBody} (h : v ∈ (m.step I b).live) : v ∈ m.live ∨ v ∈ b.results := by
  have hon : ∀ {t : Target} {φ : Machine τ → Nat → Machine τ}, (∀ m o, (φ m o).live = m.live) →
      v ∈ (m.onTarget t φ).live → v ∈ m.live ∨ v ∈ b.results := fun hφ =>
    mem_live_onTarget fun m o hmem => .inl (hφ m o ▸ hmem)
  cases b with
  | addColumn t id header index value reads =>
    exact hon (fun m o => live_insertColumn o t.df index _) h
  | deleteColumns t ids headers => exact hon (fun m o => live_dropColumns t.df o headers) h
  | renameColumn t id old new => exact hon (fun m o => live_renameColumn o t.df old new) h
  | setFormula t id header value reads =>
    refine mem_live_onTarget (fun m o hmem => ?_) h
    exact .inl hmem
  | changeType t id header statements =>
    exact hon (fun m o => by simp [live, setFrame]) h
  | duplicateSheet source copy =>
    refine mem_live_onTarget (fun m o hmem => ?_) h
    exact (mem_live_bind.mp hmem).symm.imp_right List.mem_singleton.mpr
  | deleteSheet t =>
    have hmem : v ∈ (m.resolve t).2.live := mem_live_unbind h
    unfold resolve at hmem
    split at hmem
    · exact .inl hmem
    · exact .inl (by simpa [live] using hmem)
  | renameSheet sheet old new =>
    refine mem_live_onTarget (fun m o hmem => ?_) h
    exact (mem_live_bind.mp (mem_live_unbind hmem)).symm.imp_right List.mem_singleton.mpr
  | block b =>
    -- a block forgets the sheets that it deletes, and then binds its outputs in order
    have houtputs : ∀ (outs : List BlockOutput) (m : Machine τ) (seed : τ) (writes : ColumnAccess),
        v ∈ (outs.foldl (writeOutput I seed writes) m).live →
        v ∈ m.live ∨ v ∈ outs.map BlockOutput.name := by
      intro outs
      induction outs with
      | nil => exact fun m seed writes h => .inl h
      | cons o rest ih =>
        intro m seed writes h
        rcases ih _ seed writes h with h | h
        · rcases mem_live_bind.mp h with rfl | h
          · exact .inr List.mem_cons_self
          · exact .inl h
        · exact .inr (List.mem_cons_of_mem _ h)
    have hforget : ∀ (ids : List SheetId) (m : Machine τ), v ∈ (ids.foldl forget m).live →
        v ∈ m.live := by
      intro ids
      induction ids with
      | nil => exact fun m h => h
      | cons s rest ih => exact fun m h => mem_live_forget (ih _ h)
    refine (houtputs _ _ _ _ h).imp_left fun h => ?_
    have hkeep := hforget _ _ h
    split at hkeep <;> exact hkeep

/-- The variables of a script's sheets are those of the tables and of results. -/
theorem mem_live_run {inputs : InputLayout} {chunks : List Chunk}
    (h : v ∈ (run I inputs chunks).live) :
    (∃ e ∈ inputs, e.2.name = v) ∨ ∃ c ∈ chunks, v ∈ c.body.results := by
  have hstart : ∀ (inputs : InputLayout) (m : Machine τ), v ∈ (inputs.foldl (put I) m).live →
      v ∈ m.live ∨ ∃ e ∈ inputs, e.2.name = v := by
    intro inputs
    induction inputs with
    | nil => exact fun m h => .inl h
    | cons e rest ih =>
      intro m h
      rcases ih _ h with h | ⟨later, hmem, hname⟩
      · rcases Dictionary.mem_keys_insert.mp h with rfl | h
        · exact .inr ⟨e, List.mem_cons_self, rfl⟩
        · exact .inl h
      · exact .inr ⟨later, List.mem_cons_of_mem _ hmem, hname⟩
  have hrun : ∀ (chunks : List Chunk) (m : Machine τ),
      v ∈ (chunks.foldl (fun m c => m.step I c.body) m).live →
      v ∈ m.live ∨ ∃ c ∈ chunks, v ∈ c.body.results := by
    intro chunks
    induction chunks with
    | nil => exact fun m h => .inl h
    | cons c rest ih =>
      intro m h
      rcases ih _ h with h | ⟨later, hmem, hresult⟩
      · exact (mem_live_step h).imp_right fun h => ⟨c, List.mem_cons_self, h⟩
      · exact .inr ⟨later, List.mem_cons_of_mem _ hmem, hresult⟩
  rcases hrun chunks _ h with h | h
  · refine .inl ((hstart inputs _ h).resolve_left fun hnone => ?_)
    cases hnone
  · exact .inr h

end Symbolic.Machine

/-! ### Sheets that lose their variables -/

namespace Script

variable {τ : Type} {I : Interpretation τ} {inputs : InputLayout} {script : Script} {v : String}

/-- The variable holds the frame of a sheet where a statement refers to a module of that
  name, or assigns it for another purpose. -/
inductive Captures (I : Interpretation τ) (inputs : InputLayout) (script : Script) (v : String) :
    Prop
  | module {before after : List Chunk} (hsplit : script.chunks = before ++ after)
      (hmodule : v ∈ Naming.modules) (hlive : v ∈ (Machine.run I inputs before).live)
  | helper {before after : List Chunk} {c : Chunk} (hsplit : script.chunks = before ++ c :: after)
      (hstray : v ∈ c.body.strays) (hlive : v ∈ (Machine.run I inputs before).live)
  | styler {st : Styler.Code} (hst : st ∈ script.stylers)
      (hassigned : Statement.assigned? st.statement = some v)
      (hlive : v ∈ (Machine.run I inputs script.chunks).live)

/-- The run of a script on which sheets lose their variables: to the modules at the head,
  to the helpers of a chunk when it starts, and to the stylers at the end. -/
def shadowedRun (I : Interpretation τ) (inputs : InputLayout) (script : Script) : Machine τ :=
  (script.chunks.foldl (fun m c => (m.without c.body.strays).step I c.body)
    ((Machine.start I inputs).without Naming.modules)).without
      (script.stylers.filterMap fun st => Statement.assigned? st.statement)

/-- Where no sheet loses its variable, every reference is to the sheet that it is meant
  for. -/
theorem shadowedRun_eq (h : ∀ v, ¬ script.Captures I inputs v) :
    script.shadowedRun I inputs = Machine.run I inputs script.chunks := by
  have hstart : (Machine.start I inputs).without Naming.modules = Machine.start I inputs :=
    Machine.without_eq_self fun v hv hlive =>
      h v (.module (List.nil_append script.chunks).symm hv hlive)
  -- the induction is on the chunks that are left, with those before them in one run
  have hchunks : ∀ after before, script.chunks = before ++ after →
      after.foldl (fun m c => (m.without c.body.strays).step I c.body) (Machine.run I inputs before)
        = Machine.run I inputs script.chunks := by
    intro after
    induction after with
    | nil =>
      intro before hsplit
      rw [hsplit, List.append_nil]
      rfl
    | cons c rest ih =>
      intro before hsplit
      have hsame : (Machine.run I inputs before).without c.body.strays
          = Machine.run I inputs before :=
        Machine.without_eq_self fun v hv hlive => h v (.helper hsplit hv hlive)
      have hnext : (Machine.run I inputs before).step I c.body
          = Machine.run I inputs (before ++ [c]) := by
        simp [Machine.run]
      rw [List.foldl_cons, hsame, hnext]
      exact ih _ (by rw [hsplit, List.append_assoc, List.singleton_append])
  have hrun : script.chunks.foldl (fun m c => (m.without c.body.strays).step I c.body)
      (Machine.start I inputs) = Machine.run I inputs script.chunks := hchunks script.chunks [] rfl
  unfold shadowedRun
  rw [hstart, hrun]
  refine Machine.without_eq_self fun v hv hlive => ?_
  obtain ⟨st, hst, hassigned⟩ := List.mem_filterMap.mp hv
  exact h v (.styler hst hassigned hlive)

end Script

/-! ### Stylers -/

/-- The statement of a styler assigns a variable for the sheet. -/
theorem Styler.assigned?_code {sheet : Sheet} {st : Styler.Code}
    (hname : Naming.isVariableName sheet.name = true) (h : Styler.code sheet = .ok (some st)) :
    Statement.assigned? st.statement = some (sheet.name ++ "_styler") := by
  unfold Styler.code at h
  split at h
  · cases h
  · simp only [bind_eq_ok] at h
    obtain ⟨conditional, -, numbers, -, h⟩ := h
    split at h
    · cases h
    · simp only [pure_eq_ok, Option.some.injEq] at h
      subst h
      refine Statement.assigned?_sheet
        (Naming.isVariableName_append hname (by decide) (by decide)) ?_
      simp only [String.append_assoc]
      exact Statement.Starts.parts (by decide) _ _

/-! ### Scripts of accepted steps -/

namespace Script

variable {settings : Settings} {steps : List Step} {initial final : State} {script : Script}

/-- The chunks of a script are about sheets of the steps, and are plain unless steps emitted
  them. -/
theorem chunks_of_build {known : String → Prop} (h : build settings steps final = .ok script)
    (hknown : ∀ c ∈ chunksOf steps, ∀ n ∈ c.body.sheetNames, known n) :
    ∀ c ∈ script.chunks, (∀ n ∈ c.body.sheetNames, known n)
      ∧ (c.body.isPlain = true ∨ ∃ k ∈ chunksOf steps, k.body = c.body) := by
  rcases chunks_build h with hchunks | hchunks
  · rw [hchunks]
    exact fun c hc => ⟨hknown c hc, .inr ⟨c, hc, rfl⟩⟩
  · rw [hchunks]
    exact Optimizer.assigns_shorten _ hknown

/-- The strays of a script are helpers of its steps. -/
theorem strays_of_build (hnamed : initial.Named) (ha : initial.Accepts steps)
    (h : build settings steps final = .ok script) :
    ∀ c ∈ script.chunks, c.body.strays = [] ∨ ∃ step ∈ steps, ∀ v,
      v ∈ c.body.strays ↔ v ∈ step.edit.helpers step.before ∧ v ∉ c.body.results := by
  have hassigns := State.Accepts.assigns hnamed ha
  have hnames : ∀ s : State, s.Named → ∀ n ∈ s.names, Naming.isVariableName n = true := by
    intro s hs n hn
    obtain ⟨sheet, hsheet, rfl⟩ := State.mem_names.mp hn
    exact hs sheet hsheet
  have hvalid := State.Accepts.sheetNames hnamed ha fun step hstep =>
    ⟨hnames _ (hassigns step hstep).1, hnames _ (hassigns step hstep).2.1⟩
  intro c hc
  obtain ⟨hc, hplain | ⟨k, hk, hbody⟩⟩ := chunks_of_build h hvalid c hc
  · exact .inl (ChunkBody.strays_of_isPlain hplain hc)
  · obtain ⟨step, hstep, hmem⟩ := List.mem_flatMap.mp hk
    refine .inr ⟨step, hstep, ?_⟩
    rw [← hbody]
    exact (hassigns step hstep).2.2.strays k.body (List.mem_map_of_mem hmem)

/-- The stylers of a script are those of the last sheets. -/
theorem stylers_of_build (h : build settings steps final = .ok script) :
    ∀ st ∈ script.stylers, ∃ sheet ∈ final.sheets, Styler.code sheet = .ok (some st) := by
  simp only [build, bind_eq_ok, pure_eq_ok, Prod.exists, mapM_eq_ok] at h
  obtain ⟨chunks, report, -, stylers, hstylers, rfl⟩ := h
  intro st hst
  obtain ⟨o, ho, hid⟩ := List.mem_filterMap.mp hst
  obtain rfl : o = some st := hid
  exact exists_of_mem_right hstylers ho

end Script

/-- The tables of a script are the sheets of the first state. -/
theorem State.mem_names_of_layout {s : State} {e : SheetId × InputSheet} (h : e ∈ s.inputLayout) :
    e.2.name ∈ s.names := by
  obtain ⟨sheet, hsheet, rfl⟩ := List.mem_map.mp (Dictionary.mem_of_mem_ofList h)
  exact State.mem_names.mpr ⟨sheet, hsheet, rfl⟩

/-! ### Sessions -/

namespace Session

/-- The names of the tables, and those that applied edits give to sheets. -/
def givenNames (s : Session) : List String :=
  s.initial.names ++ s.applied.flatMap fun step => step.edit.givenNames

/-- The variables of the script that are not for sheets: modules, the helpers of applied
  edits, and stylers. -/
def otherNames (s : Session) : List String :=
  Naming.modules ++ s.applied.flatMap (fun step => step.edit.helpers step.before)
    ++ s.current.names.map fun n => n ++ "_styler"

variable {s first : Session}

theorem isReserved_of_other {v : String} (h : v ∈ s.otherNames) : Naming.isReserved v = true := by
  rcases List.mem_append.mp h with h | h
  · rcases List.mem_append.mp h with h | h
    · exact Naming.isReserved_of_module h
    · obtain ⟨step, -, hv⟩ := List.mem_flatMap.mp h
      exact Edit.isReserved_of_helper hv
  · obtain ⟨n, -, rfl⟩ := List.mem_map.mp h
    exact Naming.isReserved_of_suffix (by decide) n

section Consistent

variable {disks : Disk → Prop} {edits : Edit → Prop} (hs : s.Consistent disks edits first)
  (hnamed : s.initial.Named) (haccepts : s.initial.Accepts s.applied)

include hnamed haccepts

/-- Reserved names of sheets are given. -/
theorem given_of_reserved :
    ∀ step ∈ s.applied, (∀ n ∈ step.before.names, Naming.isReserved n = true → n ∈ s.givenNames)
      ∧ ∀ n ∈ step.after.names, Naming.isReserved n = true → n ∈ s.givenNames := by
  refine State.Accepts.names hnamed haccepts ?_ ?_ ?_
  · intro n hn _
    exact List.mem_append_left _ hn
  · intro step hstep n hn _
    exact List.mem_append_right _ (List.mem_flatMap.mpr ⟨step, hstep, hn⟩)
  · intro n hfree hreserved
    rw [hfree] at hreserved
    cases hreserved

include hs

/-- Stylers assign variables for the last sheets. -/
theorem stylers_assign : ∀ st ∈ s.script.stylers, ∃ n ∈ s.current.names,
    Statement.assigned? st.statement = some (n ++ "_styler") := by
  intro st hst
  obtain ⟨sheet, hsheet, hcode⟩ := Script.stylers_of_build hs.script st hst
  have hname := State.Accepts.named hnamed haccepts sheet hsheet
  exact ⟨sheet.name, State.mem_names.mpr ⟨sheet, hsheet, rfl⟩, Styler.assigned?_code hname hcode⟩

/-- Variables of sheets that have reserved names have given names. -/
theorem given_of_live {τ : Type} {I : Interpretation τ} {v : String} {chunks : List Chunk}
    (hchunks : ∀ c ∈ chunks, c ∈ s.script.chunks) (hreserved : Naming.isReserved v = true)
    (hlive : v ∈ (Machine.run I s.initial.inputLayout chunks).live) : v ∈ s.givenNames := by
  rcases Machine.mem_live_run hlive with ⟨e, he, rfl⟩ | ⟨c, hc, hresult⟩
  · exact List.mem_append_left _ (State.mem_names_of_layout he)
  · have hsheets := State.Accepts.sheetNames hnamed haccepts (given_of_reserved hnamed haccepts)
    obtain ⟨hnames, -⟩ := Script.chunks_of_build hs.script hsheets c (hchunks c hc)
    exact hnames v (ChunkBody.results_subset_sheetNames hresult) hreserved

/-- A sheet loses its variable to one of the other names only, and has its name from the
  user. -/
theorem other_given_of_captures {τ : Type} {I : Interpretation τ} {v : String}
    (h : s.script.Captures I s.initial.inputLayout v) : v ∈ s.otherNames ∧ v ∈ s.givenNames := by
  -- wherever the sheet loses its variable, some of the chunks have run
  have hboth : ∀ {chunks : List Chunk}, (∀ c ∈ chunks, c ∈ s.script.chunks) → v ∈ s.otherNames →
      v ∈ (Machine.run I s.initial.inputLayout chunks).live →
      v ∈ s.otherNames ∧ v ∈ s.givenNames := fun hchunks hother hlive =>
    ⟨hother, given_of_live hs hnamed haccepts hchunks (isReserved_of_other hother) hlive⟩
  cases h with
  | module hsplit hmodule hlive =>
    refine hboth (fun c hc => ?_) ?_ hlive
    · rw [hsplit]
      exact List.mem_append_left _ hc
    · exact List.mem_append_left _ (List.mem_append_left _ hmodule)
  | @helper before after c hsplit hstray hlive =>
    have hmem : c ∈ s.script.chunks := by
      rw [hsplit]
      exact List.mem_append_right _ List.mem_cons_self
    refine hboth (fun k hk => ?_) ?_ hlive
    · rw [hsplit]
      exact List.mem_append_left _ hk
    · rcases Script.strays_of_build hnamed haccepts hs.script c hmem with hnil | ⟨step, hstep, hiff⟩
      · rw [hnil] at hstray
        cases hstray
      · refine List.mem_append_left _ (List.mem_append_right _ ?_)
        exact List.mem_flatMap.mpr ⟨step, hstep, ((hiff v).mp hstray).1⟩
  | styler hst hassigned hlive =>
    refine hboth (fun c hc => hc) ?_ hlive
    obtain ⟨n, hn, hsame⟩ := stylers_assign hs hnamed haccepts _ hst
    obtain rfl : v = n ++ "_styler" := Option.some.inj (hassigned.symm.trans hsame)
    exact List.mem_append_right _ (List.mem_map_of_mem hn)

end Consistent

/-- What the script assigns besides sheets are helpers of applied edits and stylers.  A
  sheet that has the name of one, or of a module, has it from the user, and so has a
  sheet that loses its variable to one.  If the user gives no such name, all references
  are to the sheets that they are meant for. -/
theorem only_given_captured {settings : Settings} {inputs : List (String × Frame)}
    {first : Session} (hstart : start settings inputs = .ok first) (calls : List (Disk × Call)) :
    let s := first.performAll calls
    let layout := s.initial.inputLayout
    (∀ c ∈ s.script.chunks, c.body.strays = [] ∨ ∃ step ∈ s.applied, ∀ v,
        v ∈ c.body.strays ↔ v ∈ step.edit.helpers step.before ∧ v ∉ c.body.results)
      ∧ (∀ st ∈ s.script.stylers, ∃ n ∈ s.current.names,
        Statement.assigned? st.statement = some (n ++ "_styler"))
      ∧ (∀ step ∈ s.applied, ∀ n ∈ step.before.names ++ step.after.names,
        n ∈ s.otherNames → n ∈ s.givenNames)
      ∧ (∀ (τ : Type) (I : Interpretation τ) (v : String), s.script.Captures I layout v →
        v ∈ s.otherNames ∧ v ∈ s.givenNames)
      ∧ ((∀ n ∈ s.otherNames, n ∉ s.givenNames) → ∀ (τ : Type) (I : Interpretation τ),
        s.script.shadowedRun I layout = Machine.run I layout s.script.chunks) := by
  intro s layout
  obtain ⟨hfirst, -, hinitial⟩ := consistent_start hstart
  have hs : s.Consistent (fun _ => True) (fun _ => True) first :=
    hfirst.performAll Disk.closed_all fun _ _ => ⟨trivial, fun _ _ => trivial⟩
  have hnamed : s.initial.Named := hs.initial ▸ State.named_ofInputs hinitial
  have haccepts : s.initial.Accepts s.applied := hs.accepted.take s.index
  have hother : ∀ (τ : Type) (I : Interpretation τ) (v : String), s.script.Captures I layout v →
      v ∈ s.otherNames ∧ v ∈ s.givenNames := fun τ I v h =>
    other_given_of_captures hs hnamed haccepts h
  refine ⟨Script.strays_of_build hnamed haccepts hs.script, stylers_assign hs hnamed haccepts, ?_,
    hother, ?_⟩
  · intro step hstep n hn hmem
    obtain ⟨hbefore, hafter⟩ := given_of_reserved hnamed haccepts step hstep
    have hreserved := isReserved_of_other hmem
    rcases List.mem_append.mp hn with hn | hn
    · exact hbefore n hn hreserved
    · exact hafter n hn hreserved
  -- a name that is captured is one that the user gave
  · intro hdisjoint τ I
    apply Script.shadowedRun_eq
    intro v hcaptures
    obtain ⟨hleft, hright⟩ := hother τ I v hcaptures
    exact hdisjoint v hleft hright

/-! ### A sample

  A column of a table is encoded beside another table, which is changed after that. -/

namespace Sample

/-- A table to encode, and one under the given name. -/
def twoTables (name : String) : List (String × Frame) :=
  [("df1", ⟨[⟨"A", .int64, [.int 1]⟩], 1⟩), (name, ⟨[⟨"A", .int64, [.int 3]⟩], 1⟩)]

/-- The session over the tables. -/
def beside (name : String) : Session :=
  (start { verifies := false } (twoTables name)).toOption.getD default

/-- The calls. -/
def encodingCalls : List (Disk × Call) :=
  [({}, .push (.oneHot ⟨0, ⟨"A"⟩⟩)), ({}, .push (.renameColumn ⟨1, ⟨"A"⟩, "B"⟩))]

/-- Columns without values. -/
def blank : Interpretation Unit where
  input _ _ := ()
  value _ _ := ()
  retyped _ _ := ()
  seen _ _ _ := ()
  produced _ _ := ()

end Sample

theorem only_given_captured_beside :
    let s := (Sample.beside "df2").performAll Sample.encodingCalls
    let layout := s.initial.inputLayout
    start { verifies := false } (Sample.twoTables "df2") = .ok (Sample.beside "df2")
      ∧ "tmp_df" ∈ s.otherNames
      ∧ (∀ n ∈ s.otherNames, n ∉ s.givenNames)
      ∧ ∀ (τ : Type) (I : Interpretation τ),
        s.script.shadowedRun I layout = Machine.run I layout s.script.chunks := by
  intro s layout
  have hstart : start { verifies := false } (Sample.twoTables "df2") = .ok (Sample.beside "df2") :=
    eq_ok_of_toBool (by decide) default
  have hdisjoint : ∀ n ∈ s.otherNames, n ∉ s.givenNames := by decide +kernel
  obtain ⟨-, -, -, -, hrun⟩ := only_given_captured hstart Sample.encodingCalls
  exact ⟨hstart, by decide +kernel, hdisjoint, hrun hdisjoint⟩

/-- A table may have the name of a helper, and loses its variable when a column of another
  one is encoded; then the renaming of its own column has no sheet to act on. -/
theorem encoding_captures :
    let s := (Sample.beside "tmp_df").performAll Sample.encodingCalls
    let layout := s.initial.inputLayout
    start { verifies := false } (Sample.twoTables "tmp_df") = .ok (Sample.beside "tmp_df")
      ∧ s.script.Captures Sample.blank layout "tmp_df"
      ∧ "tmp_df" ∈ s.current.names
      ∧ (Machine.run Sample.blank layout s.script.chunks).faults = []
      ∧ (s.script.shadowedRun Sample.blank layout).faults = [.undefined "tmp_df"] := by
  intro s layout
  have hsplit : s.script.chunks
      = [] ++ (s.script.chunks.headD default :: s.script.chunks.tail) := by
    decide +kernel
  have hcaptures : s.script.Captures Sample.blank layout "tmp_df" :=
    .helper hsplit (by decide +kernel) (by decide +kernel)
  exact ⟨eq_ok_of_toBool (by decide +kernel) default, hcaptures, by decide +kernel,
    by decide +kernel, by decide +kernel⟩

end Session

end SheetScript
