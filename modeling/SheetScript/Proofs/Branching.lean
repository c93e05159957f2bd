import SheetScript.Proofs.Session

/-! # Going back and branching off

  Undoing moves the index of a session and leaves its log alone, so redoing as many
  steps finds the log as it was, and the script with it, since a log has one script.
  An edit that is applied after some steps were undone drops them: it looks at the
  steps before the index only, and becomes of a session what becomes of one whose log
  ends there.

  Main statement: `Session.undo_then_redo_or_apply`.
-/

namespace SheetScript

namespace Session

/-! ### Steps back and forth -/

/-- Calls to undo that are accepted and go back by a step each. -/
inductive Undoes : Nat → Session → Session → Prop where
  | none (s : Session) : Undoes 0 s s
  | next {k : Nat} {s t u : Session} (h : s.undo = .ok t) (hmoves : t.index ≠ s.index)
      (rest : Undoes k t u) : Undoes (k + 1) s u

/-- Calls to redo that are accepted. -/
inductive Redoes : Nat → Session → Session → Prop where
  | none (s : Session) : Redoes 0 s s
  | next {k : Nat} {s t u : Session} (h : s.redo = .ok t) (rest : Redoes k t u) :
      Redoes (k + 1) s u

/-- Sessions with one log, of which they may have undone different parts. -/
structure SharesLog (s t : Session) : Prop where
  settings : s.settings = t.settings
  initial : s.initial = t.initial
  steps : s.steps = t.steps
  nextStep : s.nextStep = t.nextStep

namespace SharesLog

variable {s t u : Session}

theorem refl (s : Session) : s.SharesLog s := ⟨rfl, rfl, rfl, rfl⟩

theorem trans (h : s.SharesLog t) (k : t.SharesLog u) : s.SharesLog u :=
  ⟨h.settings.trans k.settings, h.initial.trans k.initial, h.steps.trans k.steps,
    h.nextStep.trans k.nextStep⟩

/-- The log is committed again under another index. -/
theorem of_commit {index : Nat} (h : s.commit s.steps index = .ok t) :
    t.SharesLog s ∧ t.index = index := by
  simp only [commit, bind_eq_ok, pure_eq_ok] at h
  obtain ⟨script, -, rfl⟩ := h
  exact ⟨⟨rfl, rfl, rfl, rfl⟩, rfl⟩

end SharesLog

section Moves

variable {disks : Disk → Prop} {edits : Edit → Prop} {start s t mid last : Session} {k : Nat}

theorem undo_moves (h : s.undo = .ok t) (hmoves : t.index ≠ s.index) :
    t.SharesLog s ∧ s.index = t.index + 1 := by
  rw [undo_eq] at h
  split at h
  · cases h
    exact absurd rfl hmoves
  · obtain ⟨hlog, hindex⟩ := SharesLog.of_commit h
    exact ⟨hlog, by omega⟩

theorem redo_moves (h : s.redo = .ok t) (hlt : s.index < s.steps.length) :
    t.SharesLog s ∧ t.index = s.index + 1 := by
  rw [redo_eq] at h
  rw [if_neg (Nat.not_le.mpr hlt)] at h
  exact SharesLog.of_commit h

/-- What `k` steps back leave: the log, with the index `k` steps earlier. -/
theorem Undoes.spec (h : Undoes k s mid) : mid.SharesLog s ∧ s.index = mid.index + k := by
  induction h with
  | none s => exact ⟨.refl s, rfl⟩
  | next h hmoves _ ih =>
    obtain ⟨hlog, hindex⟩ := undo_moves h hmoves
    obtain ⟨hrest, hmid⟩ := ih
    exact ⟨hrest.trans hlog, by omega⟩

/-- What `k` steps forth leave, if there are as many to redo. -/
theorem Redoes.spec (h : Redoes k mid last) (hle : mid.index + k ≤ mid.steps.length) :
    last.SharesLog mid ∧ last.index = mid.index + k := by
  induction h with
  | none s => exact ⟨.refl s, rfl⟩
  | next h _ ih =>
    obtain ⟨hlog, hindex⟩ := redo_moves h (by omega)
    obtain ⟨hrest, hlast⟩ := ih (by rw [hlog.steps]; omega)
    exact ⟨hrest.trans hlog, by omega⟩

theorem Undoes.consistent (h : Undoes k s mid) (hs : s.Consistent disks edits start) :
    mid.Consistent disks edits start := by
  induction h with
  | none s => exact hs
  | next h _ _ ih => exact ih (hs.undo h)

theorem Redoes.consistent (h : Redoes k mid last) (hs : mid.Consistent disks edits start) :
    last.Consistent disks edits start := by
  induction h with
  | none s => exact hs
  | next h _ ih => exact ih (hs.redo h)

/-- A log and an index have one script, so they tell a consistent session. -/
theorem Consistent.ext (hs : s.Consistent disks edits start) (ht : t.Consistent disks edits start)
    (hlog : s.SharesLog t) (hindex : s.index = t.index) : s = t := by
  obtain ⟨settings, initial, steps, index, script, nextStep⟩ := s
  obtain ⟨settings', initial', steps', index', script', nextStep'⟩ := t
  obtain ⟨rfl, rfl, rfl, rfl⟩ := hlog
  obtain rfl : index = index' := hindex
  have hscript : script = script' := Except.ok.inj (hs.script.symm.trans ht.script)
  rw [hscript]

end Moves

/-! ### Branching off -/

section Branches

variable {s t next : Session} {d : Disk} {id : StepId} {e : Edit}

theorem length_applied (h : s.index ≤ s.steps.length) : s.applied.length = s.index := by
  rw [applied, List.length_take, Nat.min_eq_left h]

/-- An edit looks at the steps that are not undone and at nothing behind them. -/
theorem apply_congr (d : Disk) (id : StepId) (e : Edit) (hsettings : t.settings = s.settings)
    (hinitial : t.initial = s.initial) (happlied : t.applied = s.applied)
    (hs : s.index ≤ s.steps.length) (ht : t.index ≤ t.steps.length) :
    t.apply d id e = ((s.apply d id e).1.map fun next => { next with nextStep := t.nextStep },
      (s.apply d id e).2) := by
  have hindex : t.index = s.index := by
    rw [← length_applied hs, ← length_applied ht, happlied]
  have hkept : ∀ keep, keep ≤ s.index → t.steps.take keep = s.steps.take keep := by
    intro keep hkeep
    have htake := congrArg (List.take keep) happlied
    simp only [applied, List.take_take, hindex, Nat.min_eq_left hkeep] at htake
    exact htake
  rw [apply_eq, apply_eq, happlied, hindex, hinitial]
  dsimp only
  generalize hkeep : (if s.applied.getLast?.any (fun last => last.id = id) then s.index - 1
    else s.index) = keep
  have hle : keep ≤ s.index := by
    split at hkeep <;> omega
  rw [hkept keep hle]
  refine Prod.ext ?_ rfl
  dsimp only
  cases Step.run d id e (s.initial.after (s.steps.take keep)) with
  | error f => rfl
  | ok step => exact commit_congr hsettings hinitial _ _

/-- Behind an applied edit there is nothing to redo. -/
theorem index_apply (hs : s.index ≤ s.steps.length) (h : (s.apply d id e).1 = .ok next) :
    next.index = next.steps.length := by
  rw [apply_eq] at h
  simp only [bind_eq_ok, commit, pure_eq_ok] at h
  obtain ⟨step, -, script, -, rfl⟩ := h
  dsimp only
  rw [List.length_append, List.length_take, List.length_singleton, Nat.min_eq_left]
  split <;> omega

end Branches

/-- From a reached session some steps are undone, each call going back by one.  As many
  calls to redo restore the session.  An edit leaves what it leaves in every session
  over the same inputs whose log ends where the undone steps begin, and nothing is
  left to redo. -/
theorem undo_then_redo_or_apply {settings : Settings} {inputs : List (String × Frame)}
    {first : Session} (hstart : start settings inputs = .ok first) (calls : List (Disk × Call)) :
    let s := first.performAll calls
    ∀ k mid, Undoes k s mid →
      (∀ last, Redoes k mid last →
        last.steps = s.steps ∧ last.index = s.index ∧ last.current = s.current
          ∧ last.script = s.script ∧ last = s)
      ∧ ∀ d id e next, (mid.apply d id e).1 = .ok next →
        next.index = next.steps.length
          ∧ ∀ cut : Session, cut.settings = s.settings → cut.initial = s.initial →
              cut.steps = s.applied.take (s.applied.length - k) → cut.index = cut.steps.length →
              ∃ other, cut.apply d id e = (.ok other, (mid.apply d id e).2)
                ∧ other.applied = next.applied ∧ other.current = next.current
                ∧ other.script = next.script := by
  intro s k mid hundoes
  have hs : s.Consistent (fun _ => True) (fun _ => True) first :=
    (consistent_start hstart).1.performAll Disk.closed_all fun _ _ => ⟨trivial, fun _ _ => trivial⟩
  have hmid := hundoes.consistent hs
  obtain ⟨hlog, hindex⟩ := hundoes.spec
  refine ⟨fun last hredoes => ?_, fun d id e next hnext => ⟨index_apply hmid.index_le hnext, ?_⟩⟩
  · have hle : mid.index + k ≤ mid.steps.length := by
      rw [hlog.steps, ← hindex]
      exact hs.index_le
    obtain ⟨hback, hlast⟩ := hredoes.spec hle
    -- two consistent sessions at one place of one log are the same
    obtain rfl : last = s :=
      (hredoes.consistent hmid).ext hs (hback.trans hlog) (hlast.trans hindex.symm)
    exact ⟨rfl, rfl, rfl, rfl, rfl⟩
  · intro cut hsettings hinitial hsteps hcut
    -- an edit goes behind the steps that are applied, which are those of the cut log
    have happlied : cut.applied = mid.applied := by
      have hwhole : cut.applied = cut.steps := by rw [applied, hcut, List.take_length]
      have hshorter : mid.index = s.index - k := by omega
      rw [hwhole, hsteps, length_applied hs.index_le, applied, applied, List.take_take, hlog.steps,
        hshorter, Nat.min_eq_left (Nat.sub_le _ _)]
    have happly := apply_congr d id e (hsettings.trans hlog.settings.symm)
      (hinitial.trans hlog.initial.symm) happlied hmid.index_le (Nat.le_of_eq hcut)
    rw [hnext] at happly
    exact ⟨_, happly, rfl, rfl, rfl⟩

/-! ### A sample

  A file is imported, and a column of it renamed; another one is moved and computed from
  it, and the table copied.  The copy is undone, and so are two more steps, which are
  then redone, or the renaming is done otherwise under its id. -/

namespace Sample

/-- The calls up to the first undone step. -/
def branchCalls : List (Disk × Call) :=
  [(disk, .push (.importFiles ⟨["f.csv"], false⟩)),
   (disk, .apply (.named "rename") (.renameColumn ⟨0, ⟨"X"⟩, "Z"⟩)),
   (disk, .push (.moveColumn ⟨0, ⟨"Y"⟩, 0⟩)),
   (laterDisk, .push (.setFormula ⟨0, ⟨"Y"⟩, "=Z+Z", none⟩)),
   (laterDisk, .push (.duplicateSheet ⟨0⟩)),
   (disk, .undo)]

/-- The other renaming. -/
def otherName : Edit := .renameColumn ⟨0, ⟨"X"⟩, "W"⟩

/-- The session before the last two steps. -/
def branching : Session :=
  let s := first.performAll branchCalls
  ((s.undo.bind undo).toOption).getD default

end Sample

theorem undo_then_redo_or_apply_sample :
    let s := Sample.first.performAll Sample.branchCalls
    let mid := Sample.branching
    let cut := { s with steps := s.applied.take (s.applied.length - 2), index := 2 }
    start { verifies := false } [] = .ok Sample.first
      ∧ s.index = 4 ∧ s.steps.length = 5 ∧ Undoes 2 s mid
      ∧ (∃ last, Redoes 2 mid last ∧ last = s)
      ∧ ∃ next other, (mid.apply Sample.disk (.named "rename") Sample.otherName).1 = .ok next
          ∧ next.index = 2 ∧ next.steps.length = 2
          ∧ (cut.apply Sample.disk (.named "rename") Sample.otherName).1 = .ok other
          ∧ other.applied = next.applied ∧ other.current = next.current
          ∧ other.script = next.script := by
  intro s mid cut
  have hstart : start { verifies := false } [] = .ok Sample.first :=
    eq_ok_of_toBool (by decide) default
  have hundoes : Undoes 2 s mid := by
    have hone : s.undo = .ok (s.undo.toOption.getD default) :=
      eq_ok_of_toBool (by decide +kernel) default
    have htwo : (s.undo.toOption.getD default).undo = .ok mid := by
      have htwice : (s.undo.bind undo).toBool = true := by decide +kernel
      have hboth : s.undo.bind undo = .ok mid := eq_ok_of_toBool htwice default
      rwa [hone] at hboth
    exact .next hone (by decide +kernel) (.next htwo (by decide +kernel) (.none _))
  obtain ⟨hredo, hbranch⟩ := undo_then_redo_or_apply hstart Sample.branchCalls 2 mid hundoes
  have hredone : (mid.redo >>= redo).toBool = true := by decide +kernel
  obtain ⟨later, hone, htwo⟩ := bind_eq_ok.mp (eq_ok_of_toBool hredone default)
  have hback := Redoes.next hone (.next htwo (.none _))
  have hnext : (mid.apply Sample.disk (.named "rename") Sample.otherName).1
      = .ok ((mid.apply Sample.disk (.named "rename") Sample.otherName).1.toOption.getD default) :=
    eq_ok_of_toBool (by decide +kernel) default
  obtain ⟨hindex, hcut⟩ := hbranch _ _ _ _ hnext
  obtain ⟨other, hother, happlied, hcurrent, hscript⟩ :=
    hcut cut (by dsimp only [cut]) (by dsimp only [cut]) (by dsimp only [cut]) (by decide +kernel)
  exact ⟨hstart, by decide +kernel, by decide +kernel, hundoes, ⟨_, hback, (hredo _ hback).2.2.2.2⟩,
    _, other, hnext, by decide +kernel, by decide +kernel, by rw [hother], happlied, hcurrent,
    hscript⟩

end Session

end SheetScript
