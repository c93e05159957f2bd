import SheetScript.Proofs.Analysis.Translation
import SheetScript.Proofs.Analysis.Upgrade

/-! # Headers of old edits

  Old edits name columns by their headers, and an upgrade puts ids in their place.
  The headers are those that the columns have in the state on which the edit is
  replayed, but the upgrade sees no state: it takes a header for the column that a
  renaming gave it to, and any other header for its own id.

  Main statement: `Analysis.upgrade_resolves`.  If the upgraded edits are replayed,
  every header that an old edit mentions becomes the id of the column with that
  header, in the state on which the edit is replayed, exactly if there is one and
  the header is not doubtful there.
-/

namespace SheetScript

variable {t t' : Translator} {ns : Notes} {s : State} {steps : List Step}

/-! ### Upgraded edits -/

namespace StoredEdit

theorem named_restrictHeaders (resetsIds : Bool) : (restrictHeaders resetsIds).Named :=
  .of_object rfl

/-- Parameters that stand under their names stay so from version to version. -/
theorem object_advance {k : EditKind} {n : Nat} {s last : StoredEdit} {later : List StoredEdit}
    (hobject : ∃ p, s.params = .object p) (h : advance t k n s = .ok (last, later)) :
    ∀ b ∈ last :: later, ∃ p, b.params = .object p := by
  induction n generalizing s later with
  | zero =>
    simp only [StoredEdit.advance, Except.ok.injEq, Prod.mk.injEq] at h
    obtain ⟨rfl, rfl⟩ := h
    exact fun b hb => List.mem_singleton.mp hb ▸ hobject
  | succ n ih =>
    simp only [StoredEdit.advance, bind_eq_ok, pure_eq_ok, Prod.exists, Prod.mk.injEq] at h
    obtain ⟨fields, -, p, -, _, rest, hrest, rfl, rfl⟩ := h
    have hall := ih (s := ⟨s.version + 1, s.kind, .object p⟩) ⟨p, rfl⟩ hrest
    rw [List.forall_mem_cons] at hall ⊢
    refine ⟨hall.1, ?_⟩
    split
    · rw [List.forall_mem_cons]
      exact ⟨⟨_, rfl⟩, hall.2⟩
    · exact hall.2

/-- An edit is current and stays as it is, or its parameters stand under their names and
  so do all of those afterwards. -/
theorem params_upgrade {s : StoredEdit} {block : List StoredEdit} (h : s.upgrade t = .ok block) :
    block = [s] ∨ (∃ p, s.params = .object p) ∧ ∀ b ∈ block, ∃ p, b.params = .object p := by
  have hcore : ∀ {s : StoredEdit}, s.kind ≠ "group" → s.upgrade t = .ok block →
      block = [s] ∨ (∃ p, s.params = .object p) ∧ ∀ b ∈ block, ∃ p, b.params = .object p := by
    intro s hgroup h
    obtain ⟨k, last, later, -, -, hadvance, rfl⟩ := (upgrade_eq_ok hgroup).mp h
    cases hn : k.version - s.version with
    | zero =>
      rw [hn] at hadvance
      simp only [StoredEdit.advance, Except.ok.injEq, Prod.mk.injEq] at hadvance
      obtain ⟨rfl, rfl⟩ := hadvance
      exact .inl rfl
    | succ n =>
      -- an old edit is taken further only if its parameters are an object
      have hobject : ∃ p, s.params = .object p := by
        rw [hn] at hadvance
        simp only [StoredEdit.advance, bind_eq_ok] at hadvance
        obtain ⟨fields, hfields, -⟩ := hadvance
        exact ⟨fields, (paramFields_eq_ok hfields).1⟩
      exact .inr ⟨hobject, object_advance hobject hadvance⟩
  by_cases hgroup : s.kind = "group"
  · obtain ⟨s', hpivot, hs'⟩ := upgrade_of_group hgroup h
    simp only [groupToPivot, bind_eq_ok, pure_eq_ok, Prod.exists] at hpivot
    obtain ⟨p, hp, rows, _, -, rfl⟩ := hpivot
    have hcurrent : EditKind.pivot.name ≠ "group" := by decide
    refine .inr ⟨⟨p, (paramFields_eq_ok hp).1⟩, ?_⟩
    rcases hcore hcurrent hs' with rfl | ⟨-, hall⟩
    · exact fun b hb => ⟨_, congrArg params (List.mem_singleton.mp hb)⟩
    · exact hall
  · exact hcore hgroup h

theorem Named.upgrade {s : StoredEdit} {block : List StoredEdit} (hnamed : s.Named)
    (h : s.upgrade t = .ok block) : ∀ b ∈ block, b.Named := by
  intro b hb
  rcases params_upgrade h with rfl | ⟨-, hall⟩
  · rwa [List.mem_singleton.mp hb]
  · obtain ⟨p, hp⟩ := hall b hb
    exact .of_object hp

end StoredEdit

/-! ### Replayed edits -/

/-- The translator follows replayed edits, one after the other. -/
theorem Translator.Follows.observeAll {block : List StoredEdit} (hf : t.Follows ns)
    (hj : ns.Judge s) (hnamed : ∀ b ∈ block, b.Named)
    (hx : block.mapM StoredEdit.edit = .ok (steps.map Step.edit)) (ha : s.Accepts steps)
    (h : block.foldlM Translator.observe t = .ok t') : t'.Follows (ns.along steps) := by
  induction block generalizing t ns s steps with
  | nil =>
    simp only [List.mapM_nil, pure_eq_ok] at hx
    obtain rfl : steps = [] := List.map_eq_nil_iff.mp hx.symm
    simp only [List.foldlM_nil, pure_eq_ok] at h
    exact h ▸ hf
  | cons b block ih =>
    simp only [List.mapM_cons, bind_eq_ok, pure_eq_ok] at hx
    obtain ⟨e, he, es, hes, hx⟩ := hx
    obtain ⟨step, rest, rfl, rfl, rfl⟩ := List.map_eq_cons_iff.mp hx.symm
    simp only [List.foldlM_cons, bind_eq_ok] at h
    obtain ⟨next, hnext, h⟩ := h
    rw [List.forall_mem_cons] at hnamed
    obtain ⟨⟨disk, hdisk, hrun⟩, hrest⟩ := ha
    obtain ⟨c, hc, hstep⟩ := Step.run_eq_ok hrun
    have hafter : step.after = c.state := by rw [hstep]
    have hfollows : next.Follows (ns.after step.before step.after step.edit) := by
      rw [Step.before_eq hrun, hafter]
      exact hf.observe hj.length_eq hnamed.1 he hc hnext
    have hone : s.Accepts [step] := ⟨⟨disk, hdisk, hrun⟩, trivial⟩
    have hnext := ih hfollows (hj.along hone) hnamed.2 hes hrest h
    exact hnext

/-! ### Analyses -/

namespace Analysis

variable {earlier later : List StoredEdit} {old : StoredEdit}

/-- Edits that are upgraded together are replayed together. -/
theorem split_edits {us vs : List StoredEdit}
    (h : (us ++ vs).mapM StoredEdit.edit = .ok (steps.map Step.edit)) :
    ∃ done rest, steps = done ++ rest ∧ us.mapM StoredEdit.edit = .ok (done.map Step.edit)
      ∧ vs.mapM StoredEdit.edit = .ok (rest.map Step.edit) := by
  simp only [List.mapM_append, bind_eq_ok, pure_eq_ok] at h
  obtain ⟨es, hes, fs, hfs, h⟩ := h
  obtain ⟨done, rest, rfl, rfl, rfl⟩ := List.map_eq_append_iff.mp h.symm
  exact ⟨done, rest, rfl, hes, hfs⟩

theorem upgradeSteps_append {before after us : List StoredEdit}
    (h : upgradeSteps t (before ++ after) = .ok us) :
    ∃ vs ws t', upgradeSteps t before = .ok vs ∧ vs.foldlM Translator.observe t = .ok t'
      ∧ upgradeSteps t' after = .ok ws ∧ us = vs ++ ws := by
  induction before generalizing t us with
  | nil => exact ⟨[], us, t, rfl, rfl, h, rfl⟩
  | cons first rest ih =>
    rw [List.cons_append, upgradeSteps] at h
    simp only [bind_eq_ok, pure_eq_ok] at h
    obtain ⟨block, hblock, mid, hmid, us, hus, rfl⟩ := h
    obtain ⟨vs, ws, t', hvs, ht', hws, rfl⟩ := ih hus
    refine ⟨block ++ vs, ws, t', ?_, ?_, hws, (List.append_assoc _ _ _).symm⟩
    · rw [upgradeSteps]
      simp only [bind_eq_ok, pure_eq_ok]
      exact ⟨block, hblock, mid, hmid, vs, hvs, rfl⟩
    · simp only [List.foldlM_append, bind_eq_ok]
      exact ⟨mid, hmid, ht'⟩

theorem named_upgradeSteps {us : List StoredEdit} (hnamed : ∀ e ∈ earlier, e.Named)
    (h : upgradeSteps t earlier = .ok us) : ∀ b ∈ us, b.Named := by
  induction earlier generalizing t us with
  | nil =>
    obtain rfl := Except.ok.inj h
    exact fun b hb => by cases hb
  | cons first rest ih =>
    rw [upgradeSteps] at h
    simp only [bind_eq_ok, pure_eq_ok] at h
    obtain ⟨block, hblock, mid, -, us, hus, rfl⟩ := h
    rw [List.forall_mem_cons] at hnamed
    rw [List.forall_mem_append]
    exact ⟨hnamed.1.upgrade hblock, ih hnamed.2 hus⟩

/-- The edits that are put in front of an old analysis. -/
def preface (a : Analysis) : List StoredEdit :=
  if Version.isOlder a.version columnIdVersion then [.restrictHeaders true] else []

theorem upgrade_eq_ok {a u : Analysis} {count : Nat} :
    a.upgrade count = .ok u ↔ ∃ us, upgradeSteps (.ofCount count) a.steps = .ok us
      ∧ u = ⟨currentVersion, a.preface ++ us⟩ := by
  simp only [upgrade, bind_eq_ok, pure_eq_ok]
  constructor
  · rintro ⟨us, hus, rfl⟩
    exact ⟨us, hus, rfl⟩
  · rintro ⟨us, hus, rfl⟩
    exact ⟨us, hus, rfl⟩

/-- The translator finds nothing new in the preface of an analysis. -/
theorem observe_preface (a : Analysis) (count : Nat) :
    a.preface.foldlM Translator.observe (.ofCount count) = .ok (.ofCount count) := by
  unfold preface
  split
  · show (Translator.ofCount count).observe _ >>= _ = _
    have hsame : (Translator.ofCount count).observe (.restrictHeaders true)
        = .ok ⟨(Translator.ofCount count).sheets.map fun _ => []⟩ := rfl
    rw [hsame, Translator.ofCount, List.map_replicate]
    rfl
  · rfl

/-- An old edit is replayed behind the edits before it.  Its headers become the ids of
  the columns that have them in the state before, exactly if they are not doubtful
  by the notes up to there. -/
theorem upgrade_resolves {a u : Analysis} (hs : s.Initial)
    (hup : a.upgrade s.sheets.length = .ok u) (hx : u.edits = .ok (steps.map Step.edit))
    (ha : s.Accepts steps) (hat : a.steps = earlier ++ old :: later)
    (hnamed : ∀ e ∈ earlier, e.Named) :
    ∃ done step rest, steps = done ++ step :: rest
      ∧ (∃ v, Analysis.upgrade ⟨a.version, earlier⟩ s.sheets.length = .ok v
          ∧ v.edits = .ok (done.map Step.edit))
      ∧ let notes := (Notes.start s).along done
        (old.mentions ≠ [] → StoredEdit.Resolves notes.meaning old.mentions step.edit)
          ∧ ∀ i h, step.before.Carries i h (notes.meaning i h)
              ↔ (∃ id, step.before.Carries i h id) ∧ h ∉ notes.doubtful i := by
  obtain ⟨us, hus, rfl⟩ := upgrade_eq_ok.mp hup
  rw [hat] at hus
  obtain ⟨vs, ws, t, hvs, ht, hws, rfl⟩ := upgradeSteps_append hus
  rw [upgradeSteps] at hws
  simp only [bind_eq_ok, pure_eq_ok] at hws
  obtain ⟨block, hblock, mid, -, later', -, rfl⟩ := hws
  have hj := Notes.Judge.start hs
  -- the edits before the old one are replayed first
  rw [edits, ← List.append_assoc] at hx
  obtain ⟨done, steps, rfl, hdone, hsteps⟩ := split_edits hx
  obtain ⟨hadone, hasteps⟩ := State.acceptsOn_append.mp ha
  have hstart : (Translator.ofCount s.sheets.length).Follows (Notes.start s) := by
    show List.replicate _ _ = (s.sheets.map _).map _
    rw [List.map_map, ← List.map_const']
    rfl
  have hfollows : t.Follows ((Notes.start s).along done) := by
    refine hstart.observeAll hj ?_ hdone hadone ?_
    · rw [List.forall_mem_append]
      refine ⟨?_, named_upgradeSteps hnamed hvs⟩
      unfold preface
      split
      · exact fun b hb => List.mem_singleton.mp hb ▸ StoredEdit.named_restrictHeaders true
      · exact fun b hb => by cases hb
    · simp only [List.foldlM_append, bind_eq_ok]
      exact ⟨_, observe_preface a _, ht⟩
  -- the first edit of its block is the current form of the old one
  obtain ⟨last, rest, rfl⟩ := StoredEdit.upgrade_eq_cons hblock
  rw [List.cons_append] at hsteps
  simp only [List.mapM_cons, bind_eq_ok, pure_eq_ok] at hsteps
  obtain ⟨e, he, es, -, hsteps⟩ := hsteps
  obtain ⟨step, rest', rfl, rfl, -⟩ := List.map_eq_cons_iff.mp hsteps.symm
  obtain ⟨⟨disk, -, hrun⟩, -⟩ := hasteps
  refine ⟨done, step, rest', rfl, ?_, ?_, ?_⟩
  · exact ⟨_, upgrade_eq_ok.mpr ⟨vs, hvs, rfl⟩, hdone⟩
  · intro hsome
    have hresolves := StoredEdit.mentions_upgrade hblock he hsome
    rwa [hfollows.translate] at hresolves
  · intro i h
    rw [Step.before_eq hrun]
    exact (hj.along hadone).carries_meaning i h

end Analysis

/-! ### A sample

  Analyses over two tables, of which the first has the columns `A` and `B` and the
  second `A` and `C`. -/

namespace Sample

/-- The edits of an analysis under generated ids. -/
def numbered (a : Analysis) : List (StepId × Edit) :=
  (((a.upgrade 2).bind Analysis.edits).toOption.getD []).zipIdx.map fun e => (.generated e.2, e.1)

/-- The steps of an analysis. -/
def loaded (a : Analysis) : List Step := (Step.replay {} state (numbered a)).1.toOption.getD []

/-- A column is renamed and its sheet copied; the copy is merged, and then it loses the
  column. -/
def copied : Analysis :=
  ⟨"0.1.0",
   [⟨1, "rename_column", .object [("sheet_index", .int 0), ("old_column_header", .string "B"),
      ("new_column_header", .string "D")]⟩,
    ⟨1, "dataframe_duplicate", .object [("sheet_index", .int 0)]⟩,
    ⟨2, "merge", .object [("how", .string "inner"), ("sheet_index_one", .int 2),
      ("sheet_index_two", .int 1), ("merge_key_one", .string "A"), ("merge_key_two", .string "A"),
      ("selected_columns_one", .array [.string "A", .string "D"]),
      ("selected_columns_two", .array [.string "C"])]⟩,
    ⟨1, "delete_column", .object [("sheet_index", .int 2), ("column_header", .string "D")]⟩]⟩

/-- The header that a column had before it was renamed is given to a new column, which
  is deleted by its header. -/
def readded : Analysis :=
  ⟨"0.4.0",
   [⟨2, "rename_column", .object [("sheet_index", .int 0), ("column_id", .string "B"),
      ("new_column_header", .string "C")]⟩,
    ⟨2, "add_column", .object [("sheet_index", .int 0), ("column_header", .string "B"),
      ("column_header_index", .int (-1))]⟩,
    ⟨1, "delete_column", .object [("sheet_index", .int 0), ("column_header", .string "B")]⟩]⟩

/-- The steps of an analysis, where imports find files. -/
def loadedFrom (d : Disk) (a : Analysis) : List Step :=
  (Step.replay d state (numbered a)).1.toOption.getD []

theorem accepts_loadedFrom (d : Disk) (a : Analysis)
    (hup : ((a.upgrade state.sheets.length).bind Analysis.edits).toBool = true)
    (hreplay : (Step.replay d state (numbered a)).1.toBool = true) :
    ∃ u, a.upgrade state.sheets.length = .ok u
      ∧ u.edits = .ok ((loadedFrom d a).map Step.edit) ∧ state.Accepts (loadedFrom d a) := by
  have hedits := eq_ok_of_toBool hup []
  obtain ⟨haccepts, hagain⟩ := Step.acceptsOn_of_replay Disk.closed_all trivial
    (fun _ _ => trivial) (eq_ok_of_toBool hreplay [])
  obtain ⟨u, hu, hx⟩ := bind_eq_ok.mp hedits
  refine ⟨u, hu, hx.trans (congrArg Except.ok ?_), haccepts⟩
  have hmap := congrArg (List.map Prod.snd) hagain
  rw [List.map_map] at hmap
  refine Eq.symm (hmap.trans ?_)
  unfold numbered
  rw [List.map_map]
  exact List.zipIdx_map_fst _ _

theorem accepts_loaded (a : Analysis)
    (hup : ((a.upgrade state.sheets.length).bind Analysis.edits).toBool = true)
    (hreplay : (Step.replay {} state (numbered a)).1.toBool = true) :
    ∃ u, a.upgrade state.sheets.length = .ok u
      ∧ u.edits = .ok ((loaded a).map Step.edit) ∧ state.Accepts (loaded a) :=
  accepts_loadedFrom {} a hup hreplay

end Sample

namespace Analysis

/-- The merge of the copy mentions the renamed column by the id that it had before. -/
theorem upgrade_resolves_copied :
    ∃ done step rest, Sample.loaded Sample.copied = done ++ step :: rest
      ∧ let notes := (Notes.start Sample.state).along done
        StoredEdit.Resolves notes.meaning
            [⟨.leftKey, 2, "A"⟩, ⟨.rightKey, 1, "A"⟩, ⟨.leftSelected, 2, "A"⟩,
             ⟨.leftSelected, 2, "D"⟩, ⟨.rightSelected, 1, "C"⟩] step.edit
          ∧ ∀ i h, step.before.Carries i h (notes.meaning i h)
              ↔ (∃ id, step.before.Carries i h id) ∧ h ∉ notes.doubtful i := by
  obtain ⟨u, hup, hx, ha⟩ :=
    Sample.accepts_loaded Sample.copied (by decide) (by decide)
  have hat : Sample.copied.steps = Sample.copied.steps.take 2
      ++ Sample.copied.steps[2] :: Sample.copied.steps.drop 3 := rfl
  have hnamed : ∀ e ∈ Sample.copied.steps.take 2, e.Named := by
    rintro e (_ | ⟨_, _ | ⟨_, he⟩⟩)
    · exact .of_object rfl
    · exact .of_object rfl
    · cases he
  obtain ⟨done, step, rest, heq, -, hresolves, hcarries⟩ :=
    upgrade_resolves Sample.initial hup hx ha hat hnamed
  exact ⟨done, step, rest, heq, hresolves (by decide), hcarries⟩

/-- The deletion of the new column deletes the old one: it mentions the header of the new
  column and is upgraded to the id of the old one. -/
theorem upgrade_misses_readded :
    ∃ u, Sample.readded.upgrade Sample.state.sheets.length = .ok u
      ∧ u.edits = .ok ((Sample.loaded Sample.readded).map Step.edit)
      ∧ Sample.state.Accepts (Sample.loaded Sample.readded)
      ∧ ∃ old step, Sample.readded.steps[2]? = some old
        ∧ (Sample.loaded Sample.readded)[2]? = some step
        ∧ old.mentions = [⟨.column, 0, "B"⟩] ∧ step.edit.mentions = [⟨.column, 0, ⟨"B"⟩⟩]
        ∧ step.before.Carries 0 "B" ⟨"B_1"⟩ ∧ step.before.Carries 0 "C" ⟨"B"⟩
        ∧ ¬ step.before.Carries 0 "B" ⟨"B"⟩ := by
  obtain ⟨u, hup, hx, ha⟩ :=
    Sample.accepts_loaded Sample.readded (by decide) (by decide)
  refine ⟨u, hup, hx, ha, _, (Sample.loaded Sample.readded).get ⟨2, by decide⟩, rfl,
    List.getElem?_eq_getElem _, ?_, ?_, ?_, ?_, ?_⟩ <;> decide

end Analysis

end SheetScript
