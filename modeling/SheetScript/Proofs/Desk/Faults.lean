import SheetScript.Proofs.Desk.Simulation

/-! # Runs without a fault

  A chunk that runs on the desk raises no fault on the machine.  Here is the other
  direction: a chunk that raises none has found every variable and header that it
  names, and those that it takes were free.

  Faults alone do not say so of every chunk.  A formula for a missing column adds the
  column, and a variable may be bound anew to the frame that it holds.  So the chunk
  must be one that a step could have emitted for the desk.

  - `Desk.Means`: what the code of a step says of the desk that it was made for.
  - `Shows.runs`: such a chunk runs if it raises no fault.
-/

namespace SheetScript.Symbolic

variable {τ : Type} {I : Interpretation τ}

namespace Machine

variable {m : Machine τ} {f : MachineFault} {n : String} {s : SheetId}

/-! ### Statements -/

@[simp] theorem objects_failWhen (c : Bool) : (m.failWhen c f).objects = m.objects := by
  cases c <;> rfl

@[simp] theorem bindings_failWhen (c : Bool) : (m.failWhen c f).bindings = m.bindings := by
  cases c <;> rfl

@[simp] theorem sheets_failWhen (c : Bool) : (m.failWhen c f).sheets = m.sheets := by
  cases c <;> rfl

theorem faults_fail : (m.fail f).faults ≠ [] := by
  simp [fail]

theorem faults_failWhen {c : Bool} : (m.failWhen c f).faults = [] ↔ m.faults = [] ∧ c = false := by
  cases c <;> simp [failWhen, fail]

/-- A variable is bound without a fault if it is free, or holds the frame already, or the
  sheet before. -/
theorem faults_bind {o : Nat} : (m.bind n o s).faults = [] ↔ m.faults = []
    ∧ ∀ p, Dictionary.get? m.bindings n = some p →
        p = o ∨ Dictionary.get? m.sheets s = some p := by
  unfold bind
  show (Machine.failWhen _ _ _).faults = [] ↔ _
  rw [faults_failWhen]
  cases Dictionary.get? m.bindings n with
  | none => simp
  | some p =>
    simp only [Option.isSome_some, Bool.true_and, Bool.and_eq_false_iff, bne_eq_false_iff_eq,
      Option.some.injEq, forall_eq']

theorem faults_unbind :
    (m.unbind n).faults = [] ↔ m.faults = [] ∧ Dictionary.contains m.bindings n = true := by
  unfold unbind
  show (Machine.failWhen _ _ _).faults = [] ↔ _
  rw [faults_failWhen, Bool.not_eq_false']

/-- A target is found without a fault if its variable holds its sheet. -/
theorem faults_resolve {t : Target} (h : (m.resolve t).2.faults = []) :
    ∃ o, Dictionary.get? m.bindings t.df = some o ∧ Dictionary.get? m.sheets t.sheet = some o
      ∧ m.resolve t = (some o, m) := by
  unfold resolve at h ⊢
  cases ho : Dictionary.get? m.bindings t.df with
  | none =>
    rw [ho] at h
    exact absurd h faults_fail
  | some o =>
    rw [ho] at h
    obtain ⟨-, hs⟩ := faults_failWhen.mp h
    exact ⟨o, rfl, by simpa using hs, by simp [failWhen, hs]⟩

/-- So is one on which a statement runs. -/
theorem faults_onTarget {t : Target} {φ : Machine τ → Nat → Machine τ}
    (hφ : ∀ m o, (φ m o).faults = [] → m.faults = []) (h : (m.onTarget t φ).faults = []) :
    ∃ o, Dictionary.get? m.bindings t.df = some o ∧ Dictionary.get? m.sheets t.sheet = some o
      ∧ (φ m o).faults = [] := by
  unfold onTarget at h
  have hquiet : (m.resolve t).2.faults = [] := by
    split at h
    · next hres =>
      rw [hres]
      exact h
    · next hres =>
      rw [hres]
      exact hφ _ _ h
  obtain ⟨o, hb, hs, hres⟩ := faults_resolve hquiet
  rw [hres] at h
  exact ⟨o, hb, hs, h⟩

theorem faults_foldl {α : Type} {φ : Machine τ → α → Machine τ}
    (hφ : ∀ m a, (φ m a).faults = [] → m.faults = []) {l : List α}
    (h : (l.foldl φ m).faults = []) : m.faults = [] := by
  induction l generalizing m with
  | nil => exact h
  | cons a rest ih => exact hφ m a (ih h)

theorem faults_insertColumn {o i : Nat} {df : String} {c : SymbolicColumn τ}
    (h : (m.insertColumn o df i c).faults = []) :
    m.faults = [] ∧ c.header ∉ SymbolicFrame.headers (m.frame o) ∧ i ≤ (m.frame o).length := by
  unfold insertColumn at h
  dsimp only at h
  split at h
  · exact absurd h faults_fail
  · next hhas =>
    obtain ⟨hm, hle⟩ := faults_failWhen.mp h
    exact ⟨hm, mt Shows.hasHeader_iff.mpr hhas, by simpa using hle⟩

theorem faults_dropColumn {o : Nat} {df : String} {k : Header}
    (h : (dropColumn df o m k).faults = []) :
    m.faults = [] ∧ k ∈ SymbolicFrame.headers (m.frame o) := by
  obtain ⟨hm, hhas⟩ := faults_failWhen.mp (show (m.failWhen _ _).faults = [] from h)
  exact ⟨hm, Shows.hasHeader_iff.mp (by simpa using hhas)⟩

theorem faults_renameColumn {o : Nat} {df : String} {old new : Header}
    (h : (m.renameColumn o df old new).faults = []) :
    m.faults = [] ∧ old ∈ SymbolicFrame.headers (m.frame o)
      ∧ new ∉ SymbolicFrame.headers (m.frame o) := by
  obtain ⟨hm, hnew⟩ := faults_failWhen.mp (show (Machine.failWhen _ _ _).faults = [] from h)
  obtain ⟨hm, hold⟩ := faults_failWhen.mp hm
  refine ⟨hm, Shows.hasHeader_iff.mp (by simpa using hold), ?_⟩
  rw [← Shows.hasHeader_iff, hnew]
  exact Bool.false_ne_true

theorem faults_writeOutput {seed : τ} {writes : ColumnAccess} {o : BlockOutput}
    (h : (writeOutput I seed writes m o).faults = []) :
    m.faults = [] ∧ ∀ p, Dictionary.get? m.bindings o.name = some p →
      p = m.objects.length ∨ Dictionary.get? m.sheets o.sheet = some p := by
  obtain ⟨hm, hfree⟩ := faults_bind.mp h
  exact ⟨hm, hfree⟩

theorem faults_forget {s : SheetId} : (m.forget s).faults = m.faults := by
  unfold forget
  split <;> rfl

/-! ### Chunks -/

/-- Faults stay. -/
theorem faults_step {b : ChunkBody} (h : (m.step I b).faults = []) : m.faults = [] := by
  -- an edit of a target adds faults to those that are there, and takes none away
  have ofTarget : ∀ {t : Target} {φ : Machine τ → Nat → Machine τ},
      (∀ m o, (φ m o).faults = [] → m.faults = []) → (m.onTarget t φ).faults = [] →
        m.faults = [] := by
    intro t φ hφ h
    obtain ⟨o, -, -, ho⟩ := faults_onTarget hφ h
    exact hφ m o ho
  cases b with
  | addColumn t id header index value reads =>
    exact ofTarget (fun _ _ h => (faults_insertColumn h).1) h
  | setFormula t id header value reads =>
    refine ofTarget ?_ h
    exact fun _ _ h => h
  | deleteColumns t ids hs =>
    exact ofTarget (fun _ _ h => faults_foldl (fun _ _ h => (faults_dropColumn h).1) h) h
  | renameColumn t id old new => exact ofTarget (fun _ _ h => (faults_renameColumn h).1) h
  | changeType t id header statements =>
    refine ofTarget ?_ h
    intro m o h
    exact (faults_failWhen.mp (show (failWhen _ _ _).faults = [] from h)).1
  | duplicateSheet source copy =>
    refine ofTarget ?_ h
    intro m o h
    exact (faults_bind.mp h).1
  | deleteSheet t =>
    obtain ⟨hm, -⟩ := faults_unbind.mp h
    obtain ⟨o, -, -, hres⟩ := faults_resolve hm
    rwa [hres] at hm
  | renameSheet s old new =>
    exact ofTarget (fun _ _ h => (faults_bind.mp (faults_unbind.mp h).1).1) h
  | block b =>
    have hm := faults_foldl (fun _ _ h => faults_forget ▸ h)
      (faults_foldl (fun _ _ h => (faults_writeOutput h).1) h)
    cases hk : b.keep with
    | true =>
      rw [hk] at hm
      exact hm
    | false =>
      rw [hk] at hm
      exact hm

/-- Columns that are dropped one after the other without a fault were all there, and
  none is dropped twice. -/
theorem faults_dropColumns {o : Nat} {df : String} {hs : List Header}
    (ho : o < m.objects.length) (h : (hs.foldl (dropColumn df o) m).faults = []) :
    hs.Nodup ∧ ∀ k ∈ hs, k ∈ SymbolicFrame.headers (m.frame o) := by
  induction hs generalizing m with
  | nil => exact ⟨List.nodup_nil, fun _ hk => absurd hk List.not_mem_nil⟩
  | cons k rest ih =>
    rw [List.foldl_cons] at h
    obtain ⟨hm, hk⟩ := faults_dropColumn (faults_foldl (fun _ _ h => (faults_dropColumn h).1) h)
    have hframe : (dropColumn df o m k).frame o = (m.frame o).filter fun c => c.header ≠ k := by
      simp [dropColumn, setFrame, frame, ho]
    obtain ⟨hnd, hrest⟩ := ih (by simpa [dropColumn, setFrame] using ho) h
    -- what is left after the first has another header
    have hleft : ∀ j ∈ rest, j ≠ k ∧ j ∈ SymbolicFrame.headers (m.frame o) := by
      intro j hj
      have hin := hrest j hj
      rw [hframe] at hin
      obtain ⟨c, hc, rfl⟩ := SymbolicFrame.mem_headers.mp hin
      obtain ⟨hc, hne⟩ := List.mem_filter.mp hc
      exact ⟨by simpa using hne, SymbolicFrame.mem_headers.mpr ⟨c, hc, rfl⟩⟩
    refine ⟨List.nodup_cons.mpr ⟨fun hin => (hleft k hin).1 rfl, hnd⟩, fun j hj => ?_⟩
    rcases List.mem_cons.mp hj with rfl | hj
    · exact hk
    · exact (hleft j hj).2

/-- Sheets that are written one after the other without a fault get variables that are
  free or theirs. -/
theorem faults_writeOutputs {seed : τ} {writes : ColumnAccess} {outs : List BlockOutput}
    (hsheets : (outs.map BlockOutput.sheet).Nodup) (hnames : (outs.map BlockOutput.name).Nodup)
    (hlt : ∀ {n p}, Dictionary.get? m.bindings n = some p → p < m.objects.length)
    (h : (outs.foldl (writeOutput I seed writes) m).faults = []) :
    ∀ o ∈ outs, ∀ p, Dictionary.get? m.bindings o.name = some p →
      Dictionary.get? m.sheets o.sheet = some p := by
  induction outs generalizing m with
  | nil => exact fun _ ho => absurd ho List.not_mem_nil
  | cons o rest ih =>
    obtain ⟨hso, hsrest⟩ := List.nodup_cons.mp hsheets
    obtain ⟨hno, hnrest⟩ := List.nodup_cons.mp hnames
    rw [List.foldl_cons] at h
    obtain ⟨-, hfirst⟩ := faults_writeOutput (faults_foldl (fun _ _ h => (faults_writeOutput h).1) h)
    intro q hq p hp
    rcases List.mem_cons.mp hq with rfl | hq
    · rcases hfirst p hp with rfl | hs
      · -- the frame that is written is new
        exact absurd (hlt hp) (Nat.lt_irrefl _)
      · exact hs
    · -- no later output has the name or the sheet of the first
      have hne : o.name ≠ q.name := fun he => hno (he ▸ List.mem_map_of_mem hq)
      have hse : o.sheet ≠ q.sheet := fun he => hso (he ▸ List.mem_map_of_mem hq)
      have hnext := ih hsrest hnrest (fun {n k} hk => ?_) h q hq p ?_
      · simpa [writeOutput, push, bind, Dictionary.get?_insert, hse] using hnext
      · simp only [writeOutput, push, bind, bindings_failWhen, Dictionary.get?_insert] at hk
        simp only [writeOutput, push, bind, objects_failWhen, List.length_append,
          List.length_singleton]
        split at hk
        · cases hk
          omega
        · have := hlt hk
          omega
      · simpa [writeOutput, push, bind, Dictionary.get?_insert, hne] using hp

end Machine

namespace Desk

variable {d : Desk τ} {b : ChunkBody}

/-! ### What code says of the desk that it was made for -/

/-- Of a sheet that it writes in part, a block leaves the other columns where they
  are. -/
def Retains (d : Desk τ) (b : Block) : Prop :=
  ∀ o ∈ b.outputs, ∀ ids, Dictionary.get? b.footprint.effectiveWrites o.sheet = some (.only ids) →
    ∀ x, d o.sheet = some x →
      o.columns.filter (fun c => c.1 ∉ ids)
        = (x.frame.map fun c => (c.id, c.header)).filter fun c => c.1 ∉ ids

/-- Whether a block is one of a step: it writes each sheet once, under its name, the way it
  declares, and makes no sheet with a header twice. -/
structure BlockMeans (d : Desk τ) (b : Block) : Prop where
  block : d.BlockMatches b
  deletes : b.footprint.deletes = []
  sheets : (b.outputs.map BlockOutput.sheet).Nodup
  names : (b.outputs.map BlockOutput.name).Nodup
  headers : ∀ o ∈ b.outputs, (o.columns.map Prod.snd).Nodup
  named : ∀ o ∈ b.outputs, ∀ x, d o.sheet = some x → x.name = o.name
  ordered : b.footprint.Ordered
  retains : d.Retains b

/-- Whether a chunk is one that a step could have emitted for the desk.  It may still
  name variables and headers that are not there, or take some that are. -/
def Means (d : Desk τ) : ChunkBody → Prop
  | .duplicateSheet _ copy => d copy.sheet = none
  | .deleteSheet _ => True
  | .renameSheet _ old new => old ≠ new
  | .block b => d.BlockMeans b
  | b => d.Matches b

theorem means_column {t : Target} (ht : b.columnTarget? = some t) : d.Means b ↔ d.Matches b := by
  cases b <;> first | rfl | cases ht

theorem Means.matches (h : d.Means b) : d.Matches b := by
  induction b using ChunkBody.kind_cases with
  | column b t ht => exact (means_column ht).mp h
  | duplicateSheet | deleteSheet | renameSheet => exact fun _ ht => by cases ht
  | block b => exact h.block

/-- A chunk that fits means what it should, if a block is in order and retains what it
  does not write. -/
theorem Fits.means (hf : d.Fits b)
    (hb : ∀ k, b = .block k → k.footprint.Ordered ∧ d.Retains k) : d.Means b := by
  obtain ⟨hr, hm⟩ := hf
  induction b using ChunkBody.kind_cases with
  | column b t ht => exact (means_column ht).mpr hm
  | duplicateSheet source copy => exact hr.2.1
  | deleteSheet t => trivial
  | renameSheet s old new =>
    obtain ⟨⟨x, hx, rfl⟩, hfree⟩ := hr
    exact hfree s x hx
  | block k =>
    obtain ⟨hordered, hretains⟩ := hb k rfl
    exact ⟨hm, hr.deletes, hr.sheets, hr.names, hr.headers,
      fun o ho x hx => (hr.reserved o ho _ x hx).mp rfl, hordered, hretains⟩

end Desk

namespace Shows

variable {m : Machine τ} {d : Desk τ}

/-- A variable that holds the frame of a sheet is that of the sheet. -/
theorem target (h : Shows m d) {t : Target} {o : Nat}
    (hb : Dictionary.get? m.bindings t.df = some o)
    (hs : Dictionary.get? m.sheets t.sheet = some o) :
    ∃ x, d t.sheet = some x ∧ x.name = t.df ∧ m.frame o = x.frame := by
  obtain ⟨s, x, hx, hn, hs'⟩ := h.bound hb
  obtain rfl := h.apart hs hs'
  exact ⟨x, hx, hn, h.frame_eq hx hs⟩

/-- A variable that may be bound for a new sheet is free. -/
theorem free_of_bind (h : Shows m d) {n : String} {s : SheetId} (hs : d s = none)
    (hbind : ∀ p, Dictionary.get? m.bindings n = some p →
      p = m.objects.length ∨ Dictionary.get? m.sheets s = some p) : d.Free n := by
  rintro t x hx rfl
  obtain ⟨o, ho, hb, -⟩ := h.table hx
  rcases hbind o hb with rfl | hso
  · exact absurd (h.lt_length ho) (Nat.lt_irrefl _)
  · obtain ⟨y, hy⟩ := h.live hso
    rw [hs] at hy
    cases hy

/-- A chunk that a step could have emitted runs if it raises no fault. -/
theorem runs (h : Shows m d) {b : ChunkBody} (hm : d.Means b)
    (hq : (m.step I b).faults = []) : d.Runs b := by
  cases b with
  | addColumn t id header index value reads =>
    obtain ⟨o, hb, hs, ho⟩ := Machine.faults_onTarget
      (fun _ _ h => (Machine.faults_insertColumn h).1) hq
    obtain ⟨x, hx, hn, hf⟩ := h.target hb hs
    obtain ⟨-, hnew, hle⟩ := Machine.faults_insertColumn ho
    rw [hf] at hnew hle
    exact ⟨t, x, rfl, hx, hn, hnew, hle⟩
  | deleteColumns t ids hs =>
    obtain ⟨o, hb, hso, ho⟩ := Machine.faults_onTarget (fun _ _ h =>
      Machine.faults_foldl (fun _ _ h => (Machine.faults_dropColumn h).1) h) hq
    obtain ⟨x, hx, hn, hf⟩ := h.target hb hso
    have hdrop := Machine.faults_dropColumns (h.lt_length hso) ho
    rw [hf] at hdrop
    exact ⟨t, x, rfl, hx, hn, hdrop⟩
  | renameColumn t id old new =>
    obtain ⟨o, hb, hs, ho⟩ := Machine.faults_onTarget
      (fun _ _ h => (Machine.faults_renameColumn h).1) hq
    obtain ⟨x, hx, hn, hf⟩ := h.target hb hs
    obtain ⟨-, hold, hnew⟩ := Machine.faults_renameColumn ho
    rw [hf] at hold hnew
    exact ⟨t, x, rfl, hx, hn, hold, hnew⟩
  | setFormula t id header value reads =>
    -- for a missing column the machine raises no fault, but the step knows the column
    obtain ⟨o, hb, hs, -⟩ := Machine.faults_onTarget (by exact fun _ _ h => h) hq
    obtain ⟨x, hx, hn, -⟩ := h.target hb hs
    have hc : SymbolicFrame.HasColumn x.frame id header := hm t rfl x hx
    exact ⟨t, x, rfl, hx, hn, hc.mem_headers⟩
  | changeType t id header statements =>
    obtain ⟨o, hb, hs, -⟩ := Machine.faults_onTarget (by
      intro m o h
      exact (Machine.faults_failWhen.mp (show (Machine.failWhen _ _ _).faults = [] from h)).1) hq
    obtain ⟨x, hx, hn, -⟩ := h.target hb hs
    have hc : SymbolicFrame.HasColumn x.frame id header := hm t rfl x hx
    exact ⟨t, x, rfl, hx, hn, hc.mem_headers⟩
  | duplicateSheet source copy =>
    obtain ⟨o, hb, hs, ho⟩ := Machine.faults_onTarget (by
      intro m o h
      exact (Machine.faults_bind.mp h).1) hq
    obtain ⟨x, hx, hn, -⟩ := h.target hb hs
    exact ⟨⟨x, hx, hn⟩, hm, h.free_of_bind hm (Machine.faults_bind.mp ho).2⟩
  | deleteSheet t =>
    obtain ⟨o, hb, hs, -⟩ := Machine.faults_resolve (Machine.faults_unbind.mp hq).1
    obtain ⟨x, hx, hn, -⟩ := h.target hb hs
    exact ⟨x, hx, hn⟩
  | renameSheet s old new =>
    obtain ⟨o, hb, hs, ho⟩ := Machine.faults_onTarget (t := ⟨s, old⟩)
      (fun _ _ h => (Machine.faults_bind.mp (Machine.faults_unbind.mp h).1).1) hq
    obtain ⟨x, hx, rfl, -⟩ := h.target hb hs
    refine ⟨⟨x, hx, rfl⟩, ?_⟩
    -- a sheet under the new name would be the one that is renamed
    rintro t y hy rfl
    obtain ⟨p, hp, hbp, -⟩ := h.table hy
    have hsame : p = o := by
      rcases (Machine.faults_bind.mp (Machine.faults_unbind.mp ho).1).2 p hbp with hpo | hsp
      · exact hpo
      · exact Option.some.inj (hsp.symm.trans hs)
    subst hsame
    obtain rfl := h.apart hp hs
    rw [hx] at hy
    exact hm (by rw [Option.some.inj hy])
  | block k =>
    obtain ⟨hmatch, hdeletes, hsheets, hnames, hheaders, hnamed, -, -⟩ := hm
    refine ⟨hdeletes, hsheets, hnames, hheaders, fun o ho t x hx => ⟨?_, ?_⟩⟩
    · rintro rfl
      exact hnamed o ho x hx
    · intro hname
      obtain ⟨p, hp, hbp, -⟩ := h.table hx
      rw [hname] at hbp
      simp only [Machine.step, hdeletes, List.foldl_nil] at hq
      have hlt : ∀ {n q}, Dictionary.get? m.bindings n = some q → q < m.objects.length := by
        intro n q hnq
        obtain ⟨u, y, -, -, hq⟩ := h.bound hnq
        exact h.lt_length hq
      have hsheet : Dictionary.get? m.sheets o.sheet = some p := by
        -- the effect of a block is neither a variable nor a sheet
        split at hq
        · have hown := Machine.faults_writeOutputs hsheets hnames (by exact hlt) hq o ho p hbp
          exact hown
        · exact Machine.faults_writeOutputs hsheets hnames hlt hq o ho p hbp
      exact h.apart hp hsheet

end Shows

end SheetScript.Symbolic
