import SheetScript.Proofs.Outcomes
import SheetScript.Step

/-! # Accepted steps

  Steps are accepted one after the other, each on the state that the one before
  left.  The disk may be another one each time, since files come and go.

  - `Step.acceptsOn_of_replay`: replayed edits make accepted steps.
  - `State.AcceptsOn.replay`: where the files are steady, accepted steps are what
    replaying their edits gives.
-/

namespace SheetScript

/-! ### One step -/

theorem Step.run_eq_ok {d : Disk} {id : StepId} {e : Edit} {s : State} {step : Step}
    (h : Step.run d id e s = .ok step) :
    ∃ c, e.change d s = .ok c
      ∧ step = ⟨id, e, s, c.state, c.code.map fun body => ⟨id, body⟩⟩ := by
  simp only [Step.run, bind_eq_ok, pure_eq_ok] at h
  obtain ⟨c, hc, rfl⟩ := h
  exact ⟨c, hc, rfl⟩

/-- A step remembers what it was run with. -/
theorem Step.eq_of_run {d : Disk} {id : StepId} {e : Edit} {s : State} {step : Step}
    (h : Step.run d id e s = .ok step) : step.id = id ∧ step.edit = e ∧ step.before = s := by
  obtain ⟨c, -, rfl⟩ := Step.run_eq_ok h
  exact ⟨rfl, rfl, rfl⟩

theorem Step.before_eq {d : Disk} {s : State} {step : Step}
    (h : Step.run d step.id step.edit s = .ok step) : step.before = s :=
  (Step.eq_of_run h).2.2

/-! ### Steps one after the other -/

namespace State

variable {disks : Disk → Prop} {s : State} {steps as bs : List Step}

/-- Steps that were accepted one after the other, each on one of the disks. -/
def AcceptsOn (disks : Disk → Prop) (s : State) : List Step → Prop
  | [] => True
  | step :: rest =>
    (∃ d, disks d ∧ Step.run d step.id step.edit s = .ok step) ∧ step.after.AcceptsOn disks rest

/-- Steps that were accepted one after the other, each on some disk. -/
def Accepts (s : State) (steps : List Step) : Prop := s.AcceptsOn (fun _ => True) steps

theorem after_cons (s : State) (step : Step) (rest : List Step) :
    s.after (step :: rest) = step.after.after rest := by
  unfold State.after
  cases rest with
  | nil => rfl
  | cons next rest =>
    rw [List.getLast?_cons_cons]
    cases h : (next :: rest).getLast? with
    | none => simp at h
    | some last => rfl

theorem acceptsOn_append :
    s.AcceptsOn disks (as ++ bs) ↔ s.AcceptsOn disks as ∧ (s.after as).AcceptsOn disks bs := by
  induction as generalizing s with
  | nil => exact (and_iff_right trivial).symm
  | cons a rest ih =>
    rw [List.cons_append, AcceptsOn, AcceptsOn, ih, and_assoc, after_cons]

namespace AcceptsOn

theorem take (h : s.AcceptsOn disks steps) (n : Nat) : s.AcceptsOn disks (steps.take n) := by
  rw [← List.take_append_drop n steps] at h
  exact (acceptsOn_append.mp h).1

/-- Every step is what running its edit on the state before it gave. -/
theorem runs (h : s.AcceptsOn disks steps) :
    ∀ step ∈ steps, ∃ d, disks d ∧ Step.run d step.id step.edit step.before = .ok step := by
  induction steps generalizing s with
  | nil => exact fun _ hmem => by cases hmem
  | cons step rest ih =>
    obtain ⟨⟨d, hd, hrun⟩, hrest⟩ := h
    intro k hk
    rcases List.mem_cons.mp hk with rfl | hk
    · exact ⟨d, hd, by rw [Step.before_eq hrun, hrun]⟩
    · exact ih hrest k hk

/-- The first step starts from the state. -/
theorem head (h : s.AcceptsOn disks steps) : ∀ step ∈ steps.head?, step.before = s := by
  cases steps with
  | nil => exact fun _ hmem => by cases hmem
  | cons step rest =>
    obtain ⟨⟨d, -, hrun⟩, -⟩ := h
    intro k hk
    cases hk
    exact Step.before_eq hrun

/-- A step starts from the state that the steps in front of it leave. -/
theorem before_eq (h : s.AcceptsOn disks steps) {i : Nat} {step : Step}
    (hi : steps[i]? = some step) : step.before = s.after (steps.take i) := by
  have hdrop := (acceptsOn_append.mp (List.take_append_drop i steps ▸ h)).2
  exact hdrop.head step (by rwa [List.head?_drop])

/-- The state is the one that a script of the steps starts from. -/
theorem first (h : s.AcceptsOn disks steps) :
    (steps.head?.map Step.before).getD (s.after steps) = s := by
  cases steps with
  | nil => rfl
  | cons step rest => exact h.head step rfl

/-- Every later step starts where the one before it ended. -/
theorem chain (h : s.AcceptsOn disks steps) :
    steps.IsChain fun earlier later => later.before = earlier.after := by
  induction steps generalizing s with
  | nil => exact .nil
  | cons step rest ih =>
    obtain ⟨-, hrest⟩ := h
    cases rest with
    | nil => exact .singleton step
    | cons next rest => exact .cons_cons (hrest.head next rfl) (ih hrest)

end AcceptsOn

end State

/-! ### Replaying -/

/-- Disks that edits do not lead away from. -/
def Disk.Closed (disks : Disk → Prop) (edits : Edit → Prop) : Prop :=
  ∀ e, edits e → ∀ d, disks d → ∀ s, disks (e.diskAfter d s)

/-- No edit leads away from all disks. -/
theorem Disk.closed_all : Disk.Closed (fun _ => True) fun _ => True := fun _ _ _ _ _ => trivial

/-- Disks on which edits do the same: files to be imported stay as they are, and what
  can be written can always be written. -/
structure Disk.Steady (disks : Disk → Prop) (edits : Edit → Prop) : Prop where
  closed : Disk.Closed disks edits
  same : ∀ {e : Edit}, edits e → ∀ {d d' : Disk}, disks d → disks d' →
    ∀ s, e.change d s = e.change d' s

/-- Whether an edit writes no files and reads none but the given ones. -/
def Edit.ReadsOnly (paths : List String) : Edit → Prop
  | .importFiles e => ∀ p ∈ e.files, p ∈ paths
  | .exportSheets _ => False
  | _ => True

/-- An import gives the same on disks with the same files. -/
theorem ImportFiles.run_congr {e : ImportFiles} {d d' : Disk}
    (h : ∀ p ∈ e.files, d.content? p = d'.content? p) (s : State) : e.run d s = e.run d' s := by
  have hadd : ∀ p ∈ e.files, ∀ acc, e.addFile d acc p = e.addFile d' acc p := by
    intro p hp acc
    unfold ImportFiles.addFile Csv.load
    rw [h p hp]
  unfold ImportFiles.run
  rw [foldlM_congr hadd]

/-- Without exports, disks are steady if the files to be imported are the same on all. -/
theorem Disk.steady_of_content (paths : List String) (content : String → Option FileContent) :
    Disk.Steady (fun d => ∀ p ∈ paths, d.content? p = content p) (Edit.ReadsOnly paths) where
  closed := by
    intro e he d hd s
    cases e with
    | exportSheets e => exact he.elim
    | _ => exact hd
  same := by
    intro e he d d' hd hd' s
    cases e with
    | importFiles e =>
      exact ImportFiles.run_congr (fun p hp => (hd p (he p hp)).trans (hd' p (he p hp)).symm) s
    | exportSheets e => exact he.elim
    | _ => rfl

section Disks

variable {disks : Disk → Prop} {edits : Edit → Prop} {d : Disk} {s : State} {steps : List Step}

/-- Replayed edits make accepted steps, as long as the disk stays one of the disks. -/
theorem Step.acceptsOn_of_replay (hclosed : Disk.Closed disks edits) (hd : disks d)
    {again : List (StepId × Edit)} (hagain : ∀ e ∈ again, edits e.2)
    (h : (Step.replay d s again).1 = .ok steps) :
    s.AcceptsOn disks steps ∧ steps.map (fun step => (step.id, step.edit)) = again := by
  induction again generalizing d s steps with
  | nil =>
    obtain rfl := Except.ok.inj h
    exact ⟨trivial, rfl⟩
  | cons e rest ih =>
    obtain ⟨id, e⟩ := e
    unfold Step.replay at h
    dsimp only at h
    cases hrun : Step.run d id e s with
    | error f =>
      rw [hrun] at h
      cases h
    | ok step =>
      rw [hrun] at h
      obtain ⟨later, hlater, rfl⟩ := map_eq_ok.mp h
      obtain ⟨haccepts, hedits⟩ := ih (hclosed e (hagain (id, e) List.mem_cons_self) d hd s)
        (fun e he => hagain e (List.mem_cons_of_mem _ he)) hlater
      obtain ⟨hid, hedit, -⟩ := Step.eq_of_run hrun
      refine ⟨⟨⟨d, hd, ?_⟩, haccepts⟩, ?_⟩
      · rw [hid, hedit, hrun]
      · rw [List.map_cons, hedits, hid, hedit]

/-- The steps of edits that were all accepted on a disk. -/
theorem State.accepts_of_replay {again : List (StepId × Edit)}
    (h : (Step.replay d s again).1.toBool = true) :
    s.Accepts ((Step.replay d s again).1.toOption.getD []) :=
  (Step.acceptsOn_of_replay Disk.closed_all trivial (fun _ _ => trivial) (eq_ok_of_toBool h [])).1

/-- On steady disks a step can be run again on each of them. -/
theorem Disk.Steady.run_eq (hsteady : Disk.Steady disks edits) {e : Edit} (he : edits e)
    {d' : Disk} (hd : disks d) (hd' : disks d') (id : StepId) (s : State) :
    Step.run d id e s = Step.run d' id e s := by
  unfold Step.run
  rw [hsteady.same he hd hd']

/-- On steady disks accepted steps are what replaying their edits gives. -/
theorem State.AcceptsOn.replay (hsteady : Disk.Steady disks edits) (h : s.AcceptsOn disks steps)
    (hedits : ∀ step ∈ steps, edits step.edit) (hd : disks d) :
    (Step.replay d s (steps.map fun step => (step.id, step.edit))).1 = .ok steps := by
  induction steps generalizing d s with
  | nil => rfl
  | cons step rest ih =>
    obtain ⟨⟨d', hd', hrun⟩, hrest⟩ := h
    have hedit := hedits step List.mem_cons_self
    rw [hsteady.run_eq hedit hd' hd] at hrun
    have hlater := ih hrest (fun k hk => hedits k (List.mem_cons_of_mem _ hk))
      (hsteady.closed step.edit hedit d hd s)
    rw [List.map_cons]
    unfold Step.replay
    dsimp only
    rw [hrun]
    dsimp only
    rw [hlater]
    rfl

end Disks

end SheetScript
