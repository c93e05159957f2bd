import SheetScript.CommandLine.Run
import SheetScript.Proofs.Analysis.Positions
import SheetScript.Proofs.Analysis.UpToIds
import SheetScript.Proofs.Exports
import SheetScript.Proofs.Undoing

/-! # Upgrading without the inputs

  An analysis in a file is upgraded over no sheets, since nobody knows which inputs it will
  be loaded over.  A translator that starts so puts new sheets where they would be if there
  were no inputs, and makes room for the others once they are named.  A header that stands
  for another column is known by its sheet, so this would be wrong for a copy of a sheet in
  which a column was renamed.

  - `Analysis.Astray`: a copy that gets lost.
  - `Analysis.together_iff`: the translators agree all the time exactly if no copy does.
  - `Analysis.upgrade_offline`: what an upgrade over no sheets has in common with one over
    the inputs, and when they are the same.
-/

namespace SheetScript

/-! ### Edits upgraded by translators that agree -/

namespace StoredEdit

variable {t t₀ : Translator}

theorem nextParams_congr (h : t.translate = t₀.translate) (k : EditKind) (version : Nat)
    (p : Params) : nextParams t k version p = nextParams t₀ k version p := by
  unfold nextParams Params.filter Params.headerToId Params.mergeIds Params.pivotIds
  simp only [h]

theorem advance_congr (h : t.translate = t₀.translate) (k : EditKind) (n : Nat) (s : StoredEdit) :
    advance t k n s = advance t₀ k n s := by
  induction n generalizing s with
  | zero => rfl
  | succ n ih =>
    unfold advance
    simp only [nextParams_congr h, ih]

/-- An upgrade goes by what headers stand for. -/
theorem upgrade_congr (h : t.translate = t₀.translate) (s : StoredEdit) :
    s.upgrade t = s.upgrade t₀ := by
  unfold upgrade
  simp only [advance_congr h]

end StoredEdit

/-! ### Room -/

theorem mapError_eq_ok {ε ε' α : Type} {x : Except ε α} {f : ε → ε'} {a : α} :
    x.mapError f = .ok a ↔ x = .ok a := by
  cases x <;> simp [Except.mapError]

namespace Translator

variable {t t₀ t' : Translator} {u : StoredEdit} {us us' : List StoredEdit}

theorem observeWithin_eq_ok :
    t.observeWithin u = .ok t' ↔ t.observe u = .ok t' ∧ t'.sheets.length ≤ capacity := by
  have hlength := length_observe t u
  unfold observeWithin
  cases hobserve : t.observe u with
  | error f =>
    rw [hobserve] at hlength
    rw [← hlength]
    exact iff_of_false (fun h => nomatch h) (fun h => nomatch h.1)
  | ok v =>
    rw [hobserve] at hlength
    rw [← hlength]
    show (if capacity < v.sheets.length then _ else _) = _ ↔ _
    split
    · next hfull =>
      refine iff_of_false (fun h => nomatch h) ?_
      rintro ⟨heq, hroom⟩
      obtain rfl := Except.ok.inj heq
      omega
    · next hroom =>
      constructor
      · intro h
        obtain rfl : v = t' := Except.ok.inj h
        exact ⟨rfl, Nat.le_of_not_lt hroom⟩
      · rintro ⟨heq, -⟩
        exact congrArg _ (Except.ok.inj heq)

/-- A translator that holds fewer sheets has room for every edit for which another has. -/
theorem foldlM_observeWithin_of_le (h : List.Forall₂ StoredEdit.UpToIds us us')
    (hle : t₀.sheets.length ≤ t.sheets.length) (hus : us.foldlM observeWithin t = .ok t') :
    ∃ t₀', us'.foldlM observeWithin t₀ = .ok t₀' ∧ t₀'.sheets.length ≤ t'.sheets.length := by
  induction h generalizing t t₀ with
  | nil =>
    obtain rfl := Except.ok.inj hus
    exact ⟨t₀, rfl, hle⟩
  | cons hsame _ ih =>
    rw [List.foldlM_cons, bind_eq_ok] at hus
    obtain ⟨mid, hmid, hus⟩ := hus
    obtain ⟨hmid, hroom⟩ := observeWithin_eq_ok.mp hmid
    obtain ⟨mid₀, hmid₀⟩ := hsame.observable (.of_observe hmid) t₀
    have hmidle : mid₀.sheets.length ≤ mid.sheets.length :=
      countAfter_mono hle (hsame.countAfter (countAfter_of_observe hmid))
        (countAfter_of_observe hmid₀)
    obtain ⟨t₀', ht₀', hlast⟩ := ih hmidle hus
    exact ⟨t₀', bind_eq_ok.mpr
      ⟨mid₀, observeWithin_eq_ok.mpr ⟨hmid₀, Nat.le_trans hmidle hroom⟩, ht₀'⟩, hlast⟩

theorem foldlM_observe_of_within (h : us.foldlM observeWithin t = .ok t') :
    us.foldlM observe t = .ok t' := by
  induction us generalizing t with
  | nil => exact congrArg Except.ok (Except.ok.inj h)
  | cons u us ih =>
    rw [List.foldlM_cons, bind_eq_ok] at h ⊢
    obtain ⟨mid, hmid, h⟩ := h
    exact ⟨mid, (observeWithin_eq_ok.mp hmid).1, ih h⟩

end Translator

/-! ### Translators along edits -/

namespace Translator

variable {t t₀ t' t₀' mid mid₀ : Translator} {u : StoredEdit} {us vs : List StoredEdit}

/-- All along some edits two translators take every header for the same column. -/
def Together (t t₀ : Translator) (us : List StoredEdit) : Prop :=
  ∀ seen t' t₀', seen <+: us → seen.foldlM observe t = .ok t' → seen.foldlM observe t₀ = .ok t₀' →
    t'.translate = t₀'.translate

/-- Along some edits a sheet with a renamed header is copied, while the second of two
  translators holds fewer sheets than the first. -/
def Astray (t t₀ : Translator) (us : List StoredEdit) : Prop :=
  ∃ seen u t' t₀', seen ++ [u] <+: us ∧ seen.foldlM observe t = .ok t'
    ∧ seen.foldlM observe t₀ = .ok t₀' ∧ u.CopiesRenamed t'
    ∧ t₀'.sheets.length < t'.sheets.length

theorem Together.start (h : Together t t₀ us) : t.translate = t₀.translate :=
  h [] t t₀ List.nil_prefix rfl rfl

theorem Together.behind (h : Together t t₀ (us ++ vs)) (hus : us.foldlM observe t = .ok t')
    (hus₀ : us.foldlM observe t₀ = .ok t₀') : Together t' t₀' vs := by
  intro seen mid mid₀ hseen hmid hmid₀
  refine h (us ++ seen) mid mid₀ ((List.prefix_append_right_inj us).mpr hseen) ?_ ?_
  · rw [List.foldlM_append, hus]
    exact hmid
  · rw [List.foldlM_append, hus₀]
    exact hmid₀

theorem foldlM_cons_observe (h : t.observe u = .ok mid) (seen : List StoredEdit) :
    (u :: seen).foldlM observe t = seen.foldlM observe mid := by
  rw [List.foldlM_cons, h]
  rfl

theorem together_cons (hmid : t.observe u = .ok mid) (hmid₀ : t₀.observe u = .ok mid₀) :
    Together t t₀ (u :: us) ↔ t.translate = t₀.translate ∧ Together mid mid₀ us := by
  constructor
  · intro h
    have hwhole : Together t t₀ ([u] ++ us) := h
    exact ⟨h.start,
      hwhole.behind (foldlM_cons_observe hmid []) (foldlM_cons_observe hmid₀ [])⟩
  · rintro ⟨hstart, hrest⟩ seen t' t₀' hseen ht' ht₀'
    cases seen with
    | nil =>
      obtain rfl := Except.ok.inj ht'
      obtain rfl := Except.ok.inj ht₀'
      exact hstart
    | cons v seen =>
      obtain ⟨rfl, hbehind⟩ := List.cons_prefix_cons.mp hseen
      rw [foldlM_cons_observe hmid] at ht'
      rw [foldlM_cons_observe hmid₀] at ht₀'
      exact hrest seen t' t₀' hbehind ht' ht₀'

theorem astray_cons (hmid : t.observe u = .ok mid) (hmid₀ : t₀.observe u = .ok mid₀) :
    Astray t t₀ (u :: us)
      ↔ (u.CopiesRenamed t ∧ t₀.sheets.length < t.sheets.length) ∨ Astray mid mid₀ us := by
  constructor
  · rintro ⟨seen, v, t', t₀', hseen, ht', ht₀', hcopies⟩
    cases seen with
    | nil =>
      obtain rfl := Except.ok.inj ht'
      obtain rfl := Except.ok.inj ht₀'
      obtain ⟨rfl, -⟩ := List.cons_prefix_cons.mp hseen
      exact .inl hcopies
    | cons w seen =>
      obtain ⟨rfl, hbehind⟩ := List.cons_prefix_cons.mp hseen
      rw [foldlM_cons_observe hmid] at ht'
      rw [foldlM_cons_observe hmid₀] at ht₀'
      exact .inr ⟨seen, v, t', t₀', hbehind, ht', ht₀', hcopies⟩
  · rintro (hcopies | ⟨seen, v, t', t₀', hseen, ht', ht₀', hcopies⟩)
    · exact ⟨[], u, t, t₀, List.cons_prefix_cons.mpr ⟨rfl, List.nil_prefix⟩, rfl, rfl, hcopies⟩
    · exact ⟨u :: seen, v, t', t₀', List.cons_prefix_cons.mpr ⟨rfl, hseen⟩,
        (foldlM_cons_observe hmid seen).trans ht', (foldlM_cons_observe hmid₀ seen).trans ht₀',
        hcopies⟩

theorem not_astray_nil : ¬ Astray t t₀ [] := by
  rintro ⟨seen, u, -, -, hseen, -⟩
  have hnil := List.prefix_nil.mp hseen
  simp at hnil

/-- Translators that agree do so along edits exactly if no copy goes astray. -/
theorem Agree.together_iff (ha : t.Agree t₀) (hus : ∀ u ∈ us, u.Observable) :
    Together t t₀ us ↔ ¬ Astray t t₀ us := by
  induction us generalizing t t₀ with
  | nil =>
    refine iff_of_true (fun seen t' t₀' hseen ht' ht₀' => ?_) not_astray_nil
    obtain rfl := List.prefix_nil.mp hseen
    obtain rfl := Except.ok.inj ht'
    obtain rfl := Except.ok.inj ht₀'
    exact ha.translate
  | cons u us ih =>
    obtain ⟨hu, hus⟩ := List.forall_mem_cons.mp hus
    obtain ⟨mid, hmid⟩ := hu t
    obtain ⟨mid₀, hmid₀⟩ := hu t₀
    have hstep := ha.observe_iff hmid hmid₀
    rw [together_cons hmid hmid₀, astray_cons hmid hmid₀, not_or, ← hstep]
    constructor
    · rintro ⟨-, hrest⟩
      have hagree : mid.Agree mid₀ := ⟨hrest.start,
        countAfter_mono ha.length_le (countAfter_of_observe hmid) (countAfter_of_observe hmid₀)⟩
      exact ⟨hagree, (ih hagree hus).mp hrest⟩
    · rintro ⟨hagree, hrest⟩
      exact ⟨ha.translate, (ih hagree hus).mpr hrest⟩

end Translator

namespace Analysis

open Translator (Together Astray)

variable {a b : Analysis} {t t₀ : Translator} {steps us : List StoredEdit} {n : Nat}

/-- Translators that stay together upgrade edits alike. -/
theorem upgradeSteps_of_together (h : upgradeSteps t steps = .ok us) (hus : Together t t₀ us) :
    upgradeSteps t₀ steps = .ok us := by
  induction steps generalizing t t₀ us with
  | nil => exact h
  | cons s rest ih =>
    rw [upgradeSteps] at h ⊢
    simp only [bind_eq_ok, pure_eq_ok] at h ⊢
    obtain ⟨block, hblock, mid, hmid, us, hrest, rfl⟩ := h
    obtain ⟨mid₀, hmid₀⟩ :=
      StoredEdit.foldlM_of_observable (StoredEdit.observable_of_foldlM hmid) t₀
    exact ⟨block, StoredEdit.upgrade_congr hus.start s ▸ hblock, mid₀, hmid₀, us,
      ih hrest (hus.behind hmid hmid₀), rfl⟩

/-- The edits of an upgraded analysis can be followed. -/
theorem observable_upgrade (h : a.upgrade n = .ok b) : ∀ u ∈ b.steps, u.Observable := by
  obtain ⟨us, hus, rfl⟩ := upgrade_eq_ok.mp h
  exact List.forall_mem_append.mpr ⟨StoredEdit.observable_of_foldlM (observe_preface a n),
    fun u hu => ((becomes_upgradeSteps hus).2 u hu).2⟩

theorem upgrade_of_together (h : a.upgrade n = .ok b)
    (hb : Together (.ofCount n) (.ofCount 0) b.steps) : a.upgrade 0 = .ok b := by
  obtain ⟨us, hus, rfl⟩ := upgrade_eq_ok.mp h
  have hsteps := hb.behind (observe_preface a n) (observe_preface a 0)
  exact upgrade_eq_ok.mpr ⟨us, upgradeSteps_of_together hus hsteps, rfl⟩

/-- Fewer sheets are upgraded in the room that there is for more. -/
theorem upgradeStepsWithin_of_le (hle : t₀.sheets.length ≤ t.sheets.length)
    (h : upgradeStepsWithin t steps = .ok us) : ∃ us', upgradeStepsWithin t₀ steps = .ok us' := by
  induction steps generalizing t t₀ us with
  | nil => exact ⟨[], rfl⟩
  | cons s rest ih =>
    rw [upgradeStepsWithin] at h ⊢
    simp only [bind_eq_ok, pure_eq_ok, mapError_eq_ok] at h ⊢
    obtain ⟨block, hblock, mid, hmid, us, hrest, -⟩ := h
    obtain ⟨last, last', later, rfl, hblock', hsame⟩ := StoredEdit.upToIds_upgrade t₀ hblock
    have hall : List.Forall₂ StoredEdit.UpToIds (last :: later) (last' :: later) :=
      .cons hsame (List.forall₂_same.mpr fun u _ => .refl u)
    obtain ⟨mid₀, hmid₀, hmidle⟩ := Translator.foldlM_observeWithin_of_le hall hle hmid
    obtain ⟨us', hus'⟩ := ih hmidle hrest
    exact ⟨_, _, hblock', mid₀, hmid₀, us', hus', rfl⟩

theorem upgradeSteps_of_within (h : upgradeStepsWithin t steps = .ok us) :
    upgradeSteps t steps = .ok us := by
  induction steps generalizing t us with
  | nil => exact congrArg Except.ok (Except.ok.inj h)
  | cons s rest ih =>
    rw [upgradeStepsWithin] at h
    rw [upgradeSteps]
    simp only [bind_eq_ok, pure_eq_ok, mapError_eq_ok] at h ⊢
    obtain ⟨block, hblock, mid, hmid, us, hrest, rfl⟩ := h
    exact ⟨block, hblock, mid, Translator.foldlM_observe_of_within hmid, us, ih hrest, rfl⟩

theorem upgradeWithin_eq_ok : a.upgradeWithin n = .ok b ↔ n ≤ Translator.capacity
    ∧ ∃ us, upgradeStepsWithin (.ofCount n) a.steps = .ok us
      ∧ b = ⟨currentVersion, a.preface ++ us⟩ := by
  have hsteps : ∀ {x : Except Translator.Stop (List StoredEdit)},
      (x >>= fun steps => pure ⟨currentVersion, a.preface ++ steps⟩) = .ok b
        ↔ ∃ us, x = .ok us ∧ b = ⟨currentVersion, a.preface ++ us⟩ := by
    intro x
    simp only [bind_eq_ok, pure_eq_ok, eq_comm (a := b)]
  rw [← hsteps]
  unfold upgradeWithin
  by_cases hfull : Translator.capacity < n
  · rw [if_pos hfull]
    refine iff_of_false (fun h => ?_) fun h => Nat.not_le_of_lt hfull h.1
    obtain ⟨_, hthrow, -⟩ := bind_eq_ok.mp h
    exact throw_ne_ok hthrow
  · rw [if_neg hfull]
    exact ⟨fun h => ⟨Nat.le_of_not_lt hfull, h⟩, fun h => h.2⟩

/-- An upgrade that has room for its sheets has room if it starts with fewer. -/
theorem upgradeWithin_of_le {m : Nat} (hle : m ≤ n) (h : a.upgradeWithin n = .ok b) :
    a.upgrade n = .ok b ∧ ∃ b', a.upgrade m = .ok b' ∧ a.upgradeWithin m = .ok b' := by
  obtain ⟨hroom, us, hus, rfl⟩ := upgradeWithin_eq_ok.mp h
  have hlength : (Translator.ofCount m).sheets.length ≤ (Translator.ofCount n).sheets.length := by
    simpa [Translator.ofCount] using hle
  obtain ⟨us', hus'⟩ := upgradeStepsWithin_of_le hlength hus
  exact ⟨upgrade_eq_ok.mpr ⟨us, upgradeSteps_of_within hus, rfl⟩, _,
    upgrade_eq_ok.mpr ⟨us', upgradeSteps_of_within hus', rfl⟩,
    upgradeWithin_eq_ok.mpr ⟨Nat.le_trans hle hroom, us', hus', rfl⟩⟩

/-- An upgraded analysis loads as the old one does. -/
theorem load_upgrade {s : Session} (hs : s.initial.sheets.length = n) (h : a.upgrade n = .ok b)
    (d : Disk) : s.load d b = s.load d a := by
  obtain ⟨-, -, -, hagain⟩ := upgrade_complete h
  rw [Session.load_eq, Session.load_eq, hs, hagain n, h]

theorem wellFormed_upgrade (ha : ∀ s ∈ a.steps, s.params.IsCanonical) (h : a.upgrade n = .ok b) :
    ∀ s ∈ b.steps, s.WellFormed := by
  obtain ⟨-, hcurrent, -⟩ := upgrade_complete h
  intro s hs
  obtain ⟨k, -, hversion⟩ := StoredEdit.isCurrent_iff.mp (hcurrent s hs)
  refine ⟨?_, isCanonical_upgrade ha h s hs⟩
  rw [hversion]
  cases k <;> decide

end Analysis

/-! ### Upgrades of files -/

theorem Disk.read?_of_write? {d d' : Disk} {path text : String}
    (h : d.write? path (.text text) = some d') : d'.read? path = some text := by
  obtain ⟨hnamed, -, -, -, hwritten⟩ := write?_eq_some.mp h
  have hplace : d'.place path = d.place path := by
    rw [hwritten]
    rfl
  unfold read? content?
  rw [hnamed, hplace, hwritten, Dictionary.get?_insert, if_pos rfl]
  rfl

namespace CommandLine

variable {a b : Analysis} {d d' : Disk} {path output text : String}

/-- The analysis in the file that an upgrade writes is the upgraded one, unless it is nested
  too deeply to be read. -/
theorem readAnalysis_upgraded (ha : readAnalysis d path = .ok a) (hb : a.upgrade 0 = .ok b)
    (hfits : b.toJson.fits 128 = true) (h : upgraded d path (some output) = .ok (text, d')) :
    readAnalysis d' output = .ok b := by
  have hcanonical : ∀ s ∈ a.steps, s.params.IsCanonical := by
    unfold readAnalysis at ha
    split at ha
    · exact fun s hs => (Analysis.wellFormed_parse ha s hs).params
    · cases ha
  have hparse : Analysis.parse b.text = .ok b :=
    Analysis.parse_text (Analysis.wellFormed_upgrade hcanonical hb) (Analysis.ofText?_text hfits)
  simp only [upgraded, ha, hb, bind_eq_ok, pure_eq_ok, Prod.mk.injEq, Except.ok.injEq,
    exists_eq_left'] at h
  obtain ⟨_, hwrite, -, rfl⟩ := h
  unfold writeAnalysis at hwrite
  split at hwrite
  · next hdisk =>
    obtain rfl := Except.ok.inj hwrite
    unfold readAnalysis
    rw [Disk.read?_of_write? hdisk]
    exact hparse
  · cases hwrite

theorem upgraded_of_write? (ha : readAnalysis d path = .ok a) (hb : a.upgrade 0 = .ok b)
    (hwrite : d.write? output (.text b.text) = some d') :
    upgraded d path (some output) = .ok ("", d') := by
  simp only [upgraded, ha, hb, writeAnalysis, hwrite, bind_eq_ok, pure_eq_ok, Except.ok.injEq,
    exists_eq_left', Prod.mk.injEq, true_and]

end CommandLine

/-! ### Samples -/

namespace Sample

/-- An edit that renames a column of a sheet. -/
def relabel (sheet : Nat) (id new : String) : StoredEdit :=
  ⟨2, "rename_column", .object [("column_id", .string id), ("new_column_header", .string new),
    ("sheet_index", .int sheet)]⟩

/-- Columns of a sheet are renamed, the sheet is copied, and a column of the third sheet is
  deleted by its header. -/
def copying (sheet : Nat) (renamings : List (String × String)) (header : String) : Analysis :=
  ⟨"0.4.0", renamings.map (fun r => relabel sheet r.1 r.2)
    ++ [⟨1, "dataframe_duplicate", .object [("sheet_index", .int sheet)]⟩,
      ⟨1, "delete_column", .object [("column_header", .string header), ("sheet_index", .int 2)]⟩]⟩

theorem wellFormed_copying (sheet : Nat) (renamings : List (String × String)) (header : String) :
    ∀ s ∈ (copying sheet renamings header).steps, s.WellFormed := by
  have hrelabel : ["column_id", "new_column_header", "sheet_index"].Pairwise (· < ·) := by decide
  have hcopy : ["sheet_index"].Pairwise (· < ·) := by decide
  have hdelete : ["column_header", "sheet_index"].Pairwise (· < ·) := by decide
  refine List.forall_mem_append.mpr ⟨fun s hs => ?_, ?_⟩
  · obtain ⟨r, -, rfl⟩ := List.mem_map.mp hs
    exact ⟨(by decide : 2 < 0x100000000), Json.isCanonical_object hrelabel (by simp)⟩
  · rw [List.forall_mem_cons, List.forall_mem_singleton]
    exact ⟨⟨(by decide : 1 < 0x100000000), Json.isCanonical_object hcopy (by simp)⟩,
      (by decide : 1 < 0x100000000), Json.isCanonical_object hdelete (by simp)⟩

/-- The last of two sheets is copied; its renaming names both of them. -/
def inStep : Analysis := copying 1 [("C", "D")] "D"

/-- The upgraded analysis, with the id of the column in place of its header. -/
def inStepNow : Analysis :=
  ⟨"0.4.0", [relabel 1 "C" "D", ⟨1, "dataframe_duplicate", .object [("sheet_index", .int 1)]⟩,
    ⟨3, "delete_column", .object [("column_ids", .array [.string "C"]), ("sheet_index", .int 2)]⟩]⟩

/-- The first of two sheets is copied, and nothing names the second. -/
def outOfStep : Analysis := copying 0 [("B", "C"), ("A", "B")] "B"

end Sample

namespace Analysis

open Translator (Together Astray)

variable {a b : Analysis}

/-! ### Both upgrades -/

/-- An upgrade over no sheets succeeds exactly if one over the inputs does, and in less room,
  with the same edits up to column ids.  The translators of the two agree all the time exactly
  if no copy of a sheet with a renamed header goes astray.  Then the analyses are the same,
  and the upgraded file loads as the old analysis does. -/
theorem upgrade_offline (a : Analysis) (n : Nat) :
    ((∃ b, a.upgrade n = .ok b) ↔ ∃ b, a.upgrade 0 = .ok b)
    ∧ ((∃ b, a.upgradeWithin n = .ok b) → ∃ b, a.upgradeWithin 0 = .ok b)
    ∧ ∀ b, a.upgrade n = .ok b →
      (∃ b', a.upgrade 0 = .ok b' ∧ List.Forall₂ StoredEdit.UpToIds b.steps b'.steps)
      ∧ (Together (.ofCount n) (.ofCount 0) b.steps ↔ ¬ Astray (.ofCount n) (.ofCount 0) b.steps)
      ∧ (¬ Astray (.ofCount n) (.ofCount 0) b.steps →
        a.upgrade 0 = .ok b
        ∧ (a.upgradeWithin n = .ok b → a.upgradeWithin 0 = .ok b)
        ∧ (∀ s : Session, s.initial.sheets.length = n → ∀ d, s.load d b = s.load d a)
        ∧ ∀ d d' path output text, CommandLine.readAnalysis d path = .ok a →
          b.toJson.fits 128 = true →
          CommandLine.upgraded d path (some output) = .ok (text, d') →
          CommandLine.readAnalysis d' output = .ok b) := by
  have hsuccess : ∀ m k, (∃ b, a.upgrade m = .ok b) → ∃ b, a.upgrade k = .ok b := by
    rintro m k ⟨b, hb⟩
    obtain ⟨b', hb', -⟩ := upToIds_upgrade k hb
    exact ⟨b', hb'⟩
  refine ⟨⟨hsuccess n 0, hsuccess 0 n⟩, ?_, fun b hb => ?_⟩
  · rintro ⟨b, hb⟩
    obtain ⟨-, b', -, hb'⟩ := upgradeWithin_of_le (Nat.zero_le n) hb
    exact ⟨b', hb'⟩
  have htogether := (Translator.Agree.start (Nat.zero_le n)).together_iff (observable_upgrade hb)
  refine ⟨upToIds_upgrade 0 hb, htogether, fun hastray => ?_⟩
  have hsame := upgrade_of_together hb (htogether.mpr hastray)
  refine ⟨hsame, fun hwithin => ?_, fun s hs d => load_upgrade hs hb d, ?_⟩
  · obtain ⟨-, b', hb', hwithin'⟩ := upgradeWithin_of_le (Nat.zero_le n) hwithin
    exact Except.ok.inj (hb'.symm.trans hsame) ▸ hwithin'
  · exact fun d d' path output text ha hfits h => CommandLine.readAnalysis_upgraded ha hsame hfits h

/-- The renaming names the last sheet, so there is room for both sheets once the last one is
  copied.  The upgraded file is the one over the inputs. -/
theorem upgrade_offline_inStep :
    let d : Disk := .ofFiles [("old.json", Sample.inStep.text)]
    Sample.inStep.upgrade 2 = .ok Sample.inStepNow
      ∧ Sample.inStep.upgrade 0 = .ok Sample.inStepNow
      ∧ Sample.inStep.upgradeWithin 0 = .ok Sample.inStepNow
      ∧ Session.Sample.tables.load {} Sample.inStepNow
        = Session.Sample.tables.load {} Sample.inStep
      ∧ ∃ d', CommandLine.upgraded d "old.json" (some "new.json") = .ok ("", d')
        ∧ CommandLine.readAnalysis d' "new.json" = .ok Sample.inStepNow := by
  intro d
  have hup : Sample.inStep.upgrade 2 = .ok Sample.inStepNow := rfl
  have hnot : ¬ Astray (.ofCount 2) (.ofCount 0) Sample.inStepNow.steps := by
    unfold Sample.inStepNow
    rw [Translator.astray_cons rfl rfl, Translator.astray_cons rfl rfl,
      Translator.astray_cons rfl rfl]
    rintro (⟨⟨hkind, -⟩, -⟩ | ⟨-, hlt⟩ | ⟨⟨hkind, -⟩, -⟩ | hnil)
    · exact absurd hkind (by decide)
    · exact absurd hlt (by decide)
    · exact absurd hkind (by decide)
    · exact Translator.not_astray_nil hnil
  obtain ⟨-, -, hupgrade⟩ := upgrade_offline Sample.inStep 2
  obtain ⟨-, -, hoffline⟩ := hupgrade _ hup
  obtain ⟨hsame, hwithin, hload, hfile⟩ := hoffline hnot
  have htext : d.read? "old.json" = some Sample.inStep.text := by decide +kernel
  have hread : CommandLine.readAnalysis d "old.json" = .ok Sample.inStep := by
    unfold CommandLine.readAnalysis
    rw [htext]
    exact parse_text (Sample.wellFormed_copying _ _ _) (ofText?_text (by decide))
  have hsome : (d.write? "new.json" (.text Sample.inStepNow.text)).isSome = true := by
    decide
  obtain ⟨d', hd'⟩ := Option.isSome_iff_exists.mp hsome
  have hwritten := CommandLine.upgraded_of_write? hread hsame hd'
  exact ⟨hup, hsame, hwithin rfl, hload _ (by decide) {}, d', hwritten,
    hfile _ _ _ _ _ hread (by decide) hwritten⟩

/-- The upgrade over no sheets takes the copy for the second sheet, where the inputs have
  one.  So the header of the third sheet stands for itself, and another column is deleted. -/
theorem upgrade_offline_outOfStep :
    ∃ b b', Sample.outOfStep.upgrade 2 = .ok b ∧ Sample.outOfStep.upgrade 0 = .ok b'
      ∧ parse Sample.outOfStep.text = .ok Sample.outOfStep
      ∧ (b.steps[3]?.bind fun s => s.params.field? "column_ids").bind Json.texts? = some ["A"]
      ∧ (b'.steps[3]?.bind fun s => s.params.field? "column_ids").bind Json.texts? = some ["B"]
      ∧ ∃ s s', (Session.Sample.tables.load {} Sample.outOfStep).1 = .ok s
        ∧ (Session.Sample.tables.load {} b').1 = .ok s'
        ∧ s.current.sheets.map Sheet.headers = [["B", "C"], ["A", "C"], ["C"]]
        ∧ s'.current.sheets.map Sheet.headers = [["B", "C"], ["A", "C"], ["B"]] := by
  have hup : ∀ n, (Sample.outOfStep.upgrade n).toBool = true →
      Sample.outOfStep.upgrade n = .ok ((Sample.outOfStep.upgrade n).toOption.getD default) :=
    fun n h => eq_ok_of_toBool h default
  refine ⟨_, _, hup 2 (by decide), hup 0 (by decide),
    parse_text (Sample.wellFormed_copying _ _ _) (ofText?_text (by decide)),
    by decide, by decide, _, _, eq_ok_of_toBool (by decide) default,
    eq_ok_of_toBool (by decide) default, by decide, by decide⟩

end Analysis

end SheetScript
