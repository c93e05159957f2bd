import SheetScript.Proofs.Analysis.Resolution

/-! # What an upgrade consists of

  An upgrade puts one current edit in the place of every old one, and edits that
  restrict the headers behind the edits that named columns by restricted headers
  and at the head of an analysis from before columns had ids.

  Main statement: `Analysis.upgrade_complete`.  An upgraded analysis is of the
  current version with all its edits, it has the edits of the old one in their
  order, and there is nothing left in it to upgrade.
-/

namespace SheetScript

variable {t t' : Translator} {k : EditKind} {n : Nat} {s last : StoredEdit}
  {later block : List StoredEdit}

/-! ### Names of kinds -/

namespace EditKind

variable {name : String}

theorem ofName?_name (k : EditKind) : ofName? k.name = some k := by
  cases k <;> rfl

theorem name_of_ofName? (h : ofName? name = some k) : k.name = name := by
  have hfound := List.find?_some h
  exact of_decide_eq_true hfound

theorem ne_group_of_ofName? (h : ofName? name = some k) : name ≠ "group" := by
  rintro rfl
  cases h

end EditKind

namespace StoredEdit

/-! ### Versions on the way -/

theorem version_advance (h : advance t k n s = .ok (last, later)) :
    last.version = s.version + n := by
  induction n generalizing s later with
  | zero => rw [advance_zero h, Nat.add_zero]
  | succ n ih =>
    obtain ⟨p, rest, -, h⟩ := advance_succ h
    rw [ih h, Nat.add_assoc, Nat.add_comm 1 n]

/-- An edit that is taken over several versions is followed by one restriction for every
  version that needs it. -/
theorem later_advance (h : advance t k n s = .ok (last, later)) :
    later = ((List.range' s.version n).filter (needsRestriction k)).map
      fun _ => restrictHeaders false := by
  induction n generalizing s later with
  | zero =>
    simp only [advance, Except.ok.injEq, Prod.mk.injEq] at h
    exact h.2.symm
  | succ n ih =>
    simp only [advance, bind_eq_ok, pure_eq_ok, Prod.exists, Prod.mk.injEq] at h
    obtain ⟨fields, -, p, -, _, rest, hrest, rfl, rfl⟩ := h
    rw [List.range'_succ, List.filter_cons, ih hrest]
    split <;> rfl

/-- No edit was ever stored at version zero. -/
theorem nextParams_zero (t : Translator) (k : EditKind) (p q : Params) :
    nextParams t k 0 p ≠ .ok q := by
  cases k <;> simp [nextParams]

theorem pos_of_advance (hn : 0 < n) (h : advance t k n s = .ok (last, later)) : 0 < s.version := by
  obtain ⟨m, rfl⟩ : ∃ m, n = m + 1 := ⟨n - 1, by omega⟩
  obtain ⟨p, rest, hp, -⟩ := advance_succ h
  refine Nat.pos_of_ne_zero fun hzero => nextParams_zero t k s.fieldsOf p ?_
  rwa [hzero] at hp

/-! ### One edit -/

/-- The kind under which an edit is stored now. -/
def kindNow (s : StoredEdit) : String := if s.kind = "group" then EditKind.pivot.name else s.kind

/-- Whether the edit named columns by restricted headers in its version. -/
def restrictedHeaders (s : StoredEdit) : Prop :=
  s.kind = "group" ∨ (s.kind = EditKind.pivot.name ∧ s.version ≤ 3)
    ∨ (s.kind = EditKind.importFiles.name ∧ s.version = 1)

instance (s : StoredEdit) : Decidable s.restrictedHeaders := by
  unfold restrictedHeaders
  infer_instance

/-- The edits that follow one in an upgraded analysis. -/
def followUps (s : StoredEdit) : List StoredEdit :=
  if s.restrictedHeaders then [restrictHeaders false] else []

theorem isCurrent_iff : s.isCurrent = true
    ↔ ∃ k, EditKind.ofName? s.kind = some k ∧ s.version = k.version := by
  unfold isCurrent
  cases EditKind.ofName? s.kind <;> simp [eq_comm (a := s.version)]

theorem isCurrent_restrictHeaders (resetsIds : Bool) :
    (restrictHeaders resetsIds).isCurrent = true := rfl

/-- Which edits follow is decided by the kind and the version alone. -/
theorem later_eq_followUps (hk : EditKind.ofName? s.kind = some k) (hle : s.version ≤ k.version)
    (h : advance t k (k.version - s.version) s = .ok (last, later)) : later = s.followUps := by
  have hpos : s.version < k.version → 0 < s.version := fun hlt => pos_of_advance (by omega) h
  rw [later_advance h]
  simp only [followUps, restrictedHeaders, ← EditKind.name_of_ofName? hk]
  generalize s.version = version at hle hpos
  cases k with
  | pivot =>
    -- the versions that are left behind are those from three on
    have hcases : version = 1 ∨ version = 2 ∨ version = 3 ∨ version = 4 ∨ version = 5
        ∨ version = 6 := by
      simp only [EditKind.version] at hle hpos
      omega
    rcases hcases with rfl | rfl | rfl | rfl | rfl | rfl <;> rfl
  | importFiles =>
    have hcases : version = 1 ∨ version = 2 := by
      simp only [EditKind.version] at hle hpos
      omega
    rcases hcases with rfl | rfl <;> rfl
  | _ => simp [EditKind.name, List.filter_eq_nil_iff.mpr, needsRestriction]

/-- What an old edit becomes: one current edit, and those that follow it. -/
def Becomes (old : StoredEdit) (block : List StoredEdit) : Prop :=
  ∃ current, block = current :: old.followUps ∧ current.kind = old.kindNow

theorem becomes_of_upgrade (h : s.upgrade t = .ok block) :
    s.Becomes block ∧ ∀ b ∈ block, b.isCurrent = true := by
  have hfollow : ∀ {s : StoredEdit}, ∀ b ∈ s.followUps, b.isCurrent = true := by
    intro s b hb
    unfold followUps at hb
    split at hb
    · rw [List.mem_singleton.mp hb, isCurrent_restrictHeaders]
    · cases hb
  have hcore : ∀ {s : StoredEdit}, s.kind ≠ "group" → s.upgrade t = .ok block →
      (∃ current, block = current :: s.followUps ∧ current.kind = s.kind)
        ∧ ∀ b ∈ block, b.isCurrent = true := by
    intro s hgroup h
    obtain ⟨k, last, later, hk, hle, hadvance, rfl⟩ := (upgrade_eq_ok hgroup).mp h
    obtain rfl := later_eq_followUps hk hle hadvance
    have hkind := kind_advance hadvance
    refine ⟨⟨last, rfl, hkind⟩, List.forall_mem_cons.mpr ⟨?_, hfollow⟩⟩
    rw [isCurrent_iff, hkind]
    exact ⟨k, hk, by rw [version_advance hadvance]; omega⟩
  by_cases hgroup : s.kind = "group"
  · obtain ⟨s', hkind, hversion, hs', -⟩ := upgrade_group hgroup h
    obtain ⟨⟨current, hblock, hcurrent⟩, hall⟩ := hcore (by rw [hkind]; decide) hs'
    refine ⟨⟨current, ?_, ?_⟩, hall⟩
    · rw [hblock, followUps, followUps, if_pos, if_pos]
      · exact .inl hgroup
      · exact .inr (.inl ⟨hkind, by rw [hversion]; decide⟩)
    · rw [hcurrent, hkind, kindNow, if_pos hgroup]
  · obtain ⟨⟨current, hblock, hcurrent⟩, hall⟩ := hcore hgroup h
    exact ⟨⟨current, hblock, by rw [hcurrent, kindNow, if_neg hgroup]⟩, hall⟩

/-- A current edit is upgraded to itself. -/
theorem upgrade_of_isCurrent (h : s.isCurrent = true) (t : Translator) :
    s.upgrade t = .ok [s] := by
  obtain ⟨k, hk, hversion⟩ := isCurrent_iff.mp h
  refine (upgrade_eq_ok (EditKind.ne_group_of_ofName? hk)).mpr
    ⟨k, s, [], hk, Nat.le_of_eq hversion, ?_, rfl⟩
  rw [hversion, Nat.sub_self]
  rfl

/-! ### Observing edits -/

/-- Whether the translator can follow the edit. -/
def Observable (s : StoredEdit) : Prop := ∀ t : Translator, ∃ t', t.observe s = .ok t'

/-- An edit that one translator can follow, any other can: what is refused are its
  parameters. -/
theorem Observable.of_observe (h : t.observe s = .ok t') : s.Observable := by
  intro u
  unfold Translator.observe at h ⊢
  cases hk : EditKind.ofName? s.kind with
  | none => exact ⟨u, rfl⟩
  | some k =>
    rw [hk] at h
    dsimp only at h ⊢
    cases k with
    | renameColumn =>
      simp only [Translator.observeKind, bind_eq_ok, pure_eq_ok] at h ⊢
      obtain ⟨i, hi, id, hid, header, hheader, -⟩ := h
      exact ⟨_, i, hi, id, hid, header, hheader, rfl⟩
    | duplicateSheet | deleteSheet =>
      simp only [Translator.observeKind, bind_eq_ok, pure_eq_ok] at h ⊢
      obtain ⟨i, hi, -⟩ := h
      exact ⟨_, i, hi, rfl⟩
    | merge =>
      simp only [Translator.observeKind, bind_eq_ok, pure_eq_ok] at h ⊢
      obtain ⟨one, hone, two, htwo, -⟩ := h
      exact ⟨_, one, hone, two, htwo, rfl⟩
    | pivot =>
      unfold Translator.observeKind at h ⊢
      dsimp only at h ⊢
      split
      · exact ⟨_, rfl⟩
      · next hnone =>
        simp only [hnone, bind_eq_ok, pure_eq_ok] at h ⊢
        obtain ⟨i, hi, -⟩ := h
        exact ⟨_, i, hi, rfl⟩
    | restrictHeaders =>
      unfold Translator.observeKind
      dsimp only
      split <;> exact ⟨_, rfl⟩
    | _ => exact ⟨_, rfl⟩

theorem observable_of_foldlM {t t' : Translator} (h : block.foldlM Translator.observe t = .ok t') :
    ∀ b ∈ block, b.Observable := by
  induction block generalizing t with
  | nil => exact fun b hb => by cases hb
  | cons first rest ih =>
    simp only [List.foldlM_cons, bind_eq_ok] at h
    obtain ⟨mid, hmid, h⟩ := h
    exact List.forall_mem_cons.mpr ⟨.of_observe hmid, ih h⟩

theorem observable_restrictHeaders (resetsIds : Bool) :
    (restrictHeaders resetsIds).Observable := by
  have hobserve : Translator.observe {} (restrictHeaders resetsIds) = .ok {} := by
    cases resetsIds <;> rfl
  exact .of_observe hobserve

end StoredEdit

/-! ### Analyses -/

namespace Analysis

open StoredEdit

variable {steps us : List StoredEdit}

/-- There is nothing to upgrade in current edits that a translator can follow. -/
theorem upgradeSteps_of_current (hcurrent : ∀ s ∈ steps, s.isCurrent = true)
    (hobservable : ∀ s ∈ steps, s.Observable) (t : Translator) :
    upgradeSteps t steps = .ok steps := by
  induction steps generalizing t with
  | nil => rfl
  | cons s rest ih =>
    rw [List.forall_mem_cons] at hcurrent hobservable
    obtain ⟨t', ht'⟩ := hobservable.1 t
    rw [upgradeSteps]
    simp only [bind_eq_ok, pure_eq_ok]
    refine ⟨_, upgrade_of_isCurrent hcurrent.1 t, t', ?_, rest,
      ih hcurrent.2 hobservable.2 t', rfl⟩
    simp only [List.foldlM_cons, List.foldlM_nil, bind_eq_ok, pure_eq_ok]
    exact ⟨t', ht', rfl⟩

/-- Every edit of a list becomes a block of the upgraded one, in order. -/
theorem becomes_upgradeSteps (h : upgradeSteps t steps = .ok us) :
    (∃ blocks, us = blocks.flatten ∧ List.Forall₂ Becomes steps blocks)
      ∧ ∀ u ∈ us, u.isCurrent = true ∧ u.Observable := by
  induction steps generalizing t us with
  | nil =>
    obtain rfl := Except.ok.inj h
    exact ⟨⟨[], rfl, .nil⟩, fun u hu => by cases hu⟩
  | cons s rest ih =>
    rw [upgradeSteps] at h
    simp only [bind_eq_ok, pure_eq_ok] at h
    obtain ⟨block, hblock, mid, hmid, us, hus, rfl⟩ := h
    obtain ⟨⟨blocks, rfl, hblocks⟩, hlater⟩ := ih hus
    obtain ⟨hbecomes, hcurrent⟩ := becomes_of_upgrade hblock
    refine ⟨⟨block :: blocks, rfl, .cons hbecomes hblocks⟩, ?_⟩
    rw [List.forall_mem_append]
    exact ⟨fun b hb => ⟨hcurrent b hb, observable_of_foldlM hmid b hb⟩, hlater⟩

theorem preface_of_current (steps : List StoredEdit) : preface ⟨currentVersion, steps⟩ = [] := by
  have hyounger : Version.isOlder currentVersion columnIdVersion = false := by decide
  simp [preface, hyounger]

/-- An analysis of the current version with current edits that a translator can follow is
  its own upgrade. -/
theorem upgrade_of_current (hcurrent : ∀ s ∈ steps, s.isCurrent = true)
    (hobservable : ∀ s ∈ steps, s.Observable) (count : Nat) :
    Analysis.upgrade ⟨currentVersion, steps⟩ count = .ok ⟨currentVersion, steps⟩ := by
  refine upgrade_eq_ok.mpr ⟨steps, upgradeSteps_of_current hcurrent hobservable _, ?_⟩
  rw [preface_of_current, List.nil_append]

/-- An upgraded analysis is of the current version with all its edits.  It has one edit
  for each of the old ones, in their order and of the same kind, followed by a
  restriction where headers were restricted, and at the head another one if columns had
  no ids.  It is its own upgrade over any number of sheets. -/
theorem upgrade_complete {a b : Analysis} {count : Nat} (h : a.upgrade count = .ok b) :
    b.version = currentVersion
      ∧ (∀ s ∈ b.steps, s.isCurrent = true)
      ∧ (∃ blocks, b.steps
            = (if Version.isOlder a.version columnIdVersion then [restrictHeaders true] else [])
              ++ blocks.flatten
          ∧ List.Forall₂ Becomes a.steps blocks)
      ∧ ∀ other : Nat, b.upgrade other = .ok b := by
  obtain ⟨us, hus, rfl⟩ := upgrade_eq_ok.mp h
  obtain ⟨⟨blocks, hflatten, hblocks⟩, hall⟩ := becomes_upgradeSteps hus
  have hpreface : ∀ s ∈ a.preface, s.isCurrent = true ∧ s.Observable := by
    intro s hs
    unfold preface at hs
    split at hs
    · rw [List.mem_singleton.mp hs]
      exact ⟨isCurrent_restrictHeaders true, observable_restrictHeaders true⟩
    · cases hs
  have hsteps : ∀ s ∈ a.preface ++ us, s.isCurrent = true ∧ s.Observable :=
    List.forall_mem_append.mpr ⟨hpreface, hall⟩
  exact ⟨rfl, fun s hs => (hsteps s hs).1, ⟨blocks, congrArg (a.preface ++ ·) hflatten, hblocks⟩,
    upgrade_of_current (fun s hs => (hsteps s hs).1) fun s hs => (hsteps s hs).2⟩

end Analysis

/-! ### A sample -/

namespace Sample

/-- An analysis from before columns had ids: an import, a grouping of the table, a column
  that is renamed, and a pivot table whose aggregations are not lists. -/
def oldest : Analysis :=
  ⟨"0.1.62",
   [⟨1, "simple_import", .object [("file_names", .array [.string "f.csv"])]⟩,
    ⟨1, "group", .object [("group_rows", .array [.string "A"]), ("sheet_index", .int 0),
      ("values", .object [("B", .string "sum")])]⟩,
    ⟨1, "rename_column", .object [("new_column_header", .string "D"),
      ("old_column_header", .string "B"), ("sheet_index", .int 0)]⟩,
    ⟨1, "pivot", .object [("pivot_columns", .array []), ("pivot_rows", .array [.string "D"]),
      ("sheet_index", .int 0), ("values", .object [("A", .string "max")])]⟩]⟩

end Sample

namespace Analysis

/-- Behind the restriction at the head come the import, the grouping and the pivot table
  with a restriction each; only the renaming has none. -/
theorem upgrade_complete_oldest :
    ∃ b, Sample.oldest.upgrade 0 = .ok b
      ∧ b.version = "0.4.0"
      ∧ b.steps.map StoredEdit.kind = ["bulk_old_rename", "simple_import", "bulk_old_rename",
          "pivot", "bulk_old_rename", "rename_column", "pivot", "bulk_old_rename"]
      ∧ (∀ s ∈ b.steps, s.isCurrent = true)
      ∧ b.upgrade 3 = .ok b := by
  have hup : Sample.oldest.upgrade 0 = .ok ((Sample.oldest.upgrade 0).toOption.getD default) :=
    eq_ok_of_toBool (by decide) default
  obtain ⟨hversion, hcurrent, -, hagain⟩ := upgrade_complete hup
  exact ⟨_, hup, hversion, by decide, hcurrent, hagain 3⟩

end Analysis

end SheetScript
