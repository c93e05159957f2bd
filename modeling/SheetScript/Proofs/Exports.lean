import SheetScript.Proofs.Session

/-! # Exports that are written again

  An export makes directories and writes files.  It takes nothing away: a file stays a file
  and a directory stays a directory.  So what was exported once can be exported again, as
  long as it is still there.

  - `ExportSheets.write_again`: an export is written where it was written before.
  - `Session.Undisturbed.performAllOn`: if nothing else changes the disk, all that the steps
    of a session exported is there.
-/

namespace SheetScript

namespace Disk

/-! ### What stays on a disk -/

/-- A disk on which nothing is a file and a directory. -/
def Sound (d : Disk) : Prop := ∀ p ∈ d.directories, Dictionary.contains d.files p = false

/-- A later disk, on which there is everything that was there before. -/
structure Keeps (d later : Disk) : Prop where
  home : later.home = d.home
  files : ∀ p, Dictionary.contains d.files p = true → Dictionary.contains later.files p = true
  directories : ∀ p ∈ d.directories, p ∈ later.directories

variable {d d' d'' : Disk} {path : String} {way : List String}

theorem Keeps.refl (d : Disk) : d.Keeps d := ⟨rfl, fun _ h => h, fun _ h => h⟩

theorem Keeps.trans (h : d.Keeps d') (h' : d'.Keeps d'') : d.Keeps d'' :=
  ⟨h'.home.trans h.home, fun p hp => h'.files p (h.files p hp),
    fun p hp => h'.directories p (h.directories p hp)⟩

theorem isDirectory_iff : d.isDirectory way = true ↔ way = [] ∨ Path.join way ∈ d.directories := by
  simp [isDirectory]

theorem Keeps.isDirectory (h : d.Keeps d') (hway : d.isDirectory way = true) :
    d'.isDirectory way = true := by
  rw [isDirectory_iff] at hway ⊢
  exact hway.imp_right (h.directories _)

/-- Places are looked up from the same directory later on. -/
theorem Keeps.place (h : d.Keeps d') (path : String) : d'.place path = d.place path := by
  rw [Disk.place, h.home, ← Disk.place]

theorem makeDirectory?_eq_some : d.makeDirectory? path = some d' ↔
    (∀ p ∈ directoriesTo (d.place path), Dictionary.contains d.files p = false)
      ∧ d' = { d with
        directories := Roster.union d.directories (directoriesTo (d.place path)) } := by
  unfold makeDirectory?
  rw [Option.ite_none_left_eq_some, Option.some.injEq, Bool.not_eq_true, List.any_eq_false,
    @eq_comm _ _ d']
  simp

theorem write?_eq_some {content : FileContent} : d.write? path content = some d' ↔
    (path == "" || endsWithSlash path) = false ∧ d.place path ≠ []
      ∧ d.isDirectory (d.place path) = false ∧ d.isDirectory (d.place path).dropLast = true
      ∧ d' = { d with
        files := Dictionary.insert d.files (Path.join (d.place path)) content } := by
  unfold write?
  cases h : path == "" || endsWithSlash path with
  | true => simp
  | false =>
    simp only [Bool.false_eq_true, if_false, true_and]
    rw [Option.ite_none_right_eq_some, Option.some.injEq, @eq_comm _ _ d']
    simp [and_assoc]

/-- A disk with more directories, where there are no files. -/
theorem Sound.makeDirectory (hd : d.Sound) (h : d.makeDirectory? path = some d') :
    d.Keeps d' ∧ d'.Sound := by
  obtain ⟨hfree, rfl⟩ := makeDirectory?_eq_some.mp h
  refine ⟨⟨rfl, fun _ hp => hp, fun p hp => Roster.mem_union.mpr (.inl hp)⟩, fun p hp => ?_⟩
  rcases Roster.mem_union.mp hp with hp | hp
  · exact hd p hp
  · exact hfree p hp

/-- A disk with one more file, where there is no directory. -/
theorem Sound.write {content : FileContent} (hd : d.Sound) (h : d.write? path content = some d') :
    d.Keeps d' ∧ d'.Sound := by
  obtain ⟨-, -, hfree, -, rfl⟩ := write?_eq_some.mp h
  refine ⟨⟨rfl, fun p hp => ?_, fun _ hp => hp⟩, fun p hp => ?_⟩
  -- the old files are there, and the new one is not where a directory is
  · rw [Dictionary.contains, Dictionary.get?_insert]
    split
    · rfl
    · exact hp
  · have hother : Path.join (d.place path) ≠ p := by
      rintro rfl
      have hdirectory : d.isDirectory (d.place path) = true := isDirectory_iff.mpr (.inr hp)
      rw [hdirectory] at hfree
      cases hfree
    rw [Dictionary.contains, Dictionary.get?_insert, if_neg hother]
    exact hd p hp

/-! ### Where a file was written -/

/-- Whether there is a file at a path, in the directory that its writer made for it. -/
structure Holds (d : Disk) (path : String) : Prop where
  named : (path == "" || endsWithSlash path) = false
  placed : d.place path ≠ []
  file : Dictionary.contains d.files (Path.join (d.place path)) = true
  above : d.isDirectory (d.place path).dropLast = true
  directory : Path.parent path = ""
    ∨ ∀ p ∈ directoriesTo (d.place (Path.parent path)), p ∈ d.directories

theorem Holds.mono (h : d.Holds path) (hkeeps : d.Keeps d') : d'.Holds path where
  named := h.named
  placed := by
    rw [hkeeps.place]
    exact h.placed
  file := by
    rw [hkeeps.place]
    exact hkeeps.files _ h.file
  above := by
    rw [hkeeps.place]
    exact hkeeps.isDirectory h.above
  directory := by
    rw [hkeeps.place]
    exact h.directory.imp_right fun hall p hp => hkeeps.directories p (hall p hp)

/-- The directory of a held file can be made again, since it is there. -/
theorem Holds.makeDirectory (h : d.Holds path) (hd : d.Sound) :
    Path.parent path = "" ∨ ∃ d', d.makeDirectory? (Path.parent path) = some d' :=
  h.directory.imp_right fun hall => ⟨_, makeDirectory?_eq_some.mpr
    ⟨fun p hp => hd p (hall p hp), rfl⟩⟩

/-- A held file can be written again, since it is no directory. -/
theorem Holds.write (h : d.Holds path) (hd : d.Sound) (content : FileContent) :
    ∃ d', d.write? path content = some d' := by
  have hfree : d.isDirectory (d.place path) = false := by
    rw [← Bool.not_eq_true, isDirectory_iff, not_or]
    refine ⟨h.placed, fun hp => ?_⟩
    have hfile := h.file
    rw [hd _ hp] at hfile
    cases hfile
  exact ⟨_, write?_eq_some.mpr ⟨h.named, h.placed, hfree, h.above, rfl⟩⟩

/-! ### Files elsewhere -/

/-- The key of the file at a path. -/
def key (d : Disk) (path : String) : String := Path.join (d.place path)

/-- A later disk with the same files, but for those at some paths. -/
structure SameBut (paths : List String) (d later : Disk) : Prop where
  home : later.home = d.home
  files : ∀ p, (∀ q ∈ paths, d.key q ≠ d.key p) → later.content? p = d.content? p

theorem SameBut.refl (paths : List String) (d : Disk) : SameBut paths d d := ⟨rfl, fun _ _ => rfl⟩

/-- Paths lead to the same files later on. -/
theorem SameBut.key {paths : List String} (h : SameBut paths d d') : d'.key = d.key := by
  funext p
  rw [Disk.key, Disk.key, place, h.home, ← place]

theorem SameBut.trans {paths : List String} (h : SameBut paths d d') (h' : SameBut paths d' d'') :
    SameBut paths d d'' :=
  ⟨h'.home.trans h.home, fun p hp => (h'.files p (h.key ▸ hp)).trans (h.files p hp)⟩

theorem SameBut.mono {paths more : List String} (h : SameBut paths d d')
    (hsub : ∀ p ∈ paths, p ∈ more) : SameBut more d d' :=
  ⟨h.home, fun p hp => h.files p fun q hq => hp q (hsub q hq)⟩

theorem sameBut_makeDirectory (h : d.makeDirectory? path = some d') (paths : List String) :
    SameBut paths d d' := by
  obtain ⟨-, rfl⟩ := makeDirectory?_eq_some.mp h
  exact ⟨rfl, fun p _ => rfl⟩

theorem sameBut_write {content : FileContent} (h : d.write? path content = some d') :
    SameBut [path] d d' := by
  obtain ⟨-, -, -, -, rfl⟩ := write?_eq_some.mp h
  refine ⟨rfl, fun p hp => ?_⟩
  -- a file whose key is another one is not the one that was written
  have hother : Path.join (d.place path) ≠ Path.join (d.place p) := hp path List.mem_cons_self
  unfold content?
  split
  · rfl
  · exact (Dictionary.get?_insert _ _ _ _).trans (if_neg hother)

end Disk

namespace ExportSheets

variable {d d' : Disk} {path : String} {content : Except Fault FileContent}

/-- The disk on which a file is written, with the directory for it. -/
def open? (d : Disk) (path : String) : Option Disk :=
  if Path.parent path == "" then some d else d.makeDirectory? (Path.parent path)

theorem writeFile_eq (d : Disk) (path : String) (content : Except Fault FileContent) :
    writeFile d path content
      = match open? d path with
        | none => (.error (.io ("no directory " ++ Path.parent path)), d)
        | some opened =>
          match content with
          | .error f => (.error f, opened)
          | .ok c =>
            match opened.write? path c with
            | some written => (.ok (), written)
            | none =>
              (.error ((Fault.io ("no file " ++ path)).inContext
                ("Failed to move export into " ++ path)), opened) :=
  rfl

theorem open?_spec (hd : d.Sound) (h : open? d path = some d') :
    d.Keeps d' ∧ d'.Sound ∧ (Path.parent path = ""
      ∨ ∀ p ∈ Disk.directoriesTo (d'.place (Path.parent path)), p ∈ d'.directories) := by
  unfold open? at h
  split at h
  · next hparent =>
    cases h
    exact ⟨.refl d, hd, .inl (beq_iff_eq.mp hparent)⟩
  · obtain ⟨hkeeps, hsound⟩ := hd.makeDirectory h
    refine ⟨hkeeps, hsound, .inr ?_⟩
    rw [hkeeps.place]
    obtain ⟨-, rfl⟩ := Disk.makeDirectory?_eq_some.mp h
    exact fun p hp => Roster.mem_union.mpr (.inr hp)

/-- Writing a file keeps the disk, and if it succeeds the file is there. -/
theorem writeFile_spec (hd : d.Sound) (path : String) (content : Except Fault FileContent) :
    d.Keeps (writeFile d path content).2 ∧ (writeFile d path content).2.Sound
      ∧ ((writeFile d path content).1 = .ok () →
        (∃ c, content = .ok c) ∧ (writeFile d path content).2.Holds path) := by
  rw [writeFile_eq]
  cases hopen : open? d path with
  | none => exact ⟨.refl d, hd, fun h => by cases h⟩
  | some opened =>
    obtain ⟨hkeeps, hsound, hdirectory⟩ := open?_spec hd hopen
    cases content with
    | error f => exact ⟨hkeeps, hsound, fun h => by cases h⟩
    | ok c =>
      dsimp only
      cases hwrite : opened.write? path c with
      | none => exact ⟨hkeeps, hsound, fun h => by cases h⟩
      | some written =>
        obtain ⟨hlater, hsound⟩ := hsound.write hwrite
        obtain ⟨hnamed, hplaced, -, habove, rfl⟩ := Disk.write?_eq_some.mp hwrite
        refine ⟨hkeeps.trans hlater, hsound, fun _ => ⟨⟨c, rfl⟩, hnamed, hplaced, ?_, habove,
          hdirectory⟩⟩
        exact congrArg Option.isSome ((Dictionary.get?_insert _ _ _ _).trans (if_pos rfl))

/-- Writing a file leaves the others alone. -/
theorem writeFile_sameBut (d : Disk) (path : String) (content : Except Fault FileContent) :
    Disk.SameBut [path] d (writeFile d path content).2 := by
  rw [writeFile_eq]
  cases hopen : open? d path with
  | none => exact .refl _ d
  | some opened =>
    have hopened : Disk.SameBut [path] d opened := by
      unfold open? at hopen
      split at hopen
      · cases hopen
        exact .refl _ d
      · exact Disk.sameBut_makeDirectory hopen _
    cases content with
    | error f => exact hopened
    | ok c =>
      dsimp only
      cases hwrite : opened.write? path c with
      | none => exact hopened
      | some written => exact hopened.trans (Disk.sameBut_write hwrite)

/-- A file that is there can be written again. -/
theorem writeFile_again (hd : d.Sound) (h : d.Holds path) (c : FileContent) :
    (writeFile d path (.ok c)).1 = .ok () := by
  obtain ⟨opened, hopen⟩ : ∃ opened, open? d path = some opened := by
    unfold open?
    rcases h.makeDirectory hd with hparent | ⟨made, hmade⟩
    · exact ⟨d, if_pos (beq_iff_eq.mpr hparent)⟩
    · split
      · exact ⟨d, rfl⟩
      · exact ⟨made, hmade⟩
  -- with its directory made again, the file is still there
  obtain ⟨hkeeps, hsound, -⟩ := open?_spec hd hopen
  obtain ⟨written, hwrite⟩ := (h.mono hkeeps).write hsound c
  rw [writeFile_eq, hopen]
  dsimp only
  rw [hwrite]

/-! ### Files of an export -/

/-- The same of files that are written one after the other. -/
theorem writeAll_spec (hd : d.Sound) (entries : List (Sheet × String)) :
    d.Keeps (writeAll d entries).2 ∧ (writeAll d entries).2.Sound
      ∧ ((writeAll d entries).1 = .ok () → ∀ e ∈ entries,
        (∃ c, csvContent e.1 = .ok c) ∧ (writeAll d entries).2.Holds e.2) := by
  -- a file that was written is kept while the others are written
  induction entries generalizing d with
  | nil => exact ⟨.refl d, hd, fun _ e he => by cases he⟩
  | cons entry rest ih =>
    obtain ⟨sheet, path⟩ := entry
    obtain ⟨hkeeps, hsound, hwritten⟩ := writeFile_spec hd path (csvContent sheet)
    unfold writeAll
    cases hpair : writeFile d path (csvContent sheet) with
    | mk outcome next =>
      rw [hpair] at hkeeps hsound hwritten
      cases outcome with
      | error f => exact ⟨hkeeps, hsound, fun h => by cases h⟩
      | ok u =>
        obtain ⟨hlater, hsound, hall⟩ := ih hsound
        refine ⟨hkeeps.trans hlater, hsound, fun h e he => ?_⟩
        rcases List.mem_cons.mp he with rfl | he
        · obtain ⟨hcontent, hholds⟩ := hwritten rfl
          exact ⟨hcontent, hholds.mono hlater⟩
        · exact hall h e he

/-- Files that are all there can be written again, since none of them is lost on the way. -/
theorem writeAll_again {entries : List (Sheet × String)} (hd : d.Sound)
    (h : ∀ e ∈ entries, (∃ c, csvContent e.1 = .ok c) ∧ d.Holds e.2) :
    (writeAll d entries).1 = .ok () := by
  induction entries generalizing d with
  | nil => rfl
  | cons entry rest ih =>
    obtain ⟨sheet, path⟩ := entry
    obtain ⟨⟨⟨c, hc⟩, hholds⟩, hrest⟩ := List.forall_mem_cons.mp h
    obtain ⟨hkeeps, hsound, -⟩ := writeFile_spec hd path (csvContent sheet)
    have hfirst : (writeFile d path (csvContent sheet)).1 = .ok () := by
      rw [hc]
      exact writeFile_again hd hholds c
    unfold writeAll
    cases hpair : writeFile d path (csvContent sheet) with
    | mk outcome next =>
      rw [hpair] at hkeeps hsound hfirst
      obtain rfl : outcome = .ok () := hfirst
      exact ih hsound fun e he => (hrest e he).imp_right fun hheld => hheld.mono hkeeps

theorem writeAll_sameBut (d : Disk) (entries : List (Sheet × String)) :
    Disk.SameBut (entries.map Prod.snd) d (writeAll d entries).2 := by
  induction entries generalizing d with
  | nil => exact .refl _ d
  | cons entry rest ih =>
    obtain ⟨sheet, path⟩ := entry
    have hfirst : Disk.SameBut (path :: rest.map Prod.snd) d
        (writeFile d path (csvContent sheet)).2 :=
      (writeFile_sameBut d path _).mono fun p hp => List.mem_singleton.mp hp ▸ List.mem_cons_self
    unfold writeAll
    cases hpair : writeFile d path (csvContent sheet) with
    | mk outcome next =>
      rw [hpair] at hfirst
      cases outcome with
      | error f => exact hfirst
      | ok u => exact hfirst.trans ((ih next).mono fun p hp => List.mem_cons_of_mem _ hp)

/-- The files that an export of some sheets writes. -/
def targets (e : ExportSheets) (sheets : List Sheet) : List String :=
  match e.kind with
  | .csv => (sheets.zip e.paths).map Prod.snd
  | .workbook => [e.basePath]

variable {e : ExportSheets} {sheets : List Sheet}

theorem write_spec (hd : d.Sound) (e : ExportSheets) (sheets : List Sheet) :
    d.Keeps (e.write d sheets).2 ∧ (e.write d sheets).2.Sound
      ∧ ((e.write d sheets).1 = .ok () → ∀ p ∈ e.targets sheets, (e.write d sheets).2.Holds p) := by
  unfold write targets
  cases e.kind with
  | csv =>
    obtain ⟨hkeeps, hsound, hall⟩ := writeAll_spec hd (sheets.zip e.paths)
    exact ⟨hkeeps, hsound, fun h => List.forall_mem_map.mpr fun entry he => (hall h entry he).2⟩
  | workbook =>
    dsimp only
    cases e.plans sheets with
    | error f => exact ⟨.refl d, hd, fun h => by cases h⟩
    | ok plans =>
      obtain ⟨hkeeps, hsound, hwritten⟩ :=
        writeFile_spec hd e.basePath (workbookContent sheets plans)
      exact ⟨hkeeps, hsound, fun h => List.forall_mem_singleton.mpr (hwritten h).2⟩

/-- An export that was written is written again on every disk that holds its files. -/
theorem write_again (hd : d.Sound) (h : (e.write d sheets).1 = .ok ()) (hd' : d'.Sound)
    (hholds : ∀ p ∈ e.targets sheets, d'.Holds p) : (e.write d' sheets).1 = .ok () := by
  unfold write at h ⊢
  unfold targets at hholds
  cases hkind : e.kind with
  | csv =>
    rw [hkind] at h hholds
    obtain ⟨-, -, hall⟩ := writeAll_spec hd (sheets.zip e.paths)
    exact writeAll_again hd' fun entry he =>
      ⟨(hall h entry he).1, hholds _ (List.mem_map_of_mem he)⟩
  | workbook =>
    rw [hkind] at h hholds
    dsimp only at h ⊢
    cases hplans : e.plans sheets with
    | error f =>
      rw [hplans] at h
      cases h
    | ok plans =>
      rw [hplans] at h
      obtain ⟨-, -, hwritten⟩ := writeFile_spec hd e.basePath (workbookContent sheets plans)
      obtain ⟨⟨c, hc⟩, -⟩ := hwritten h
      dsimp only
      rw [hc]
      exact writeFile_again hd' (hholds _ List.mem_cons_self) c

/-- An export leaves all files alone but those at its paths. -/
theorem write_sameBut (d : Disk) (e : ExportSheets) (sheets : List Sheet) :
    Disk.SameBut e.paths d (e.write d sheets).2 := by
  unfold write
  cases hkind : e.kind with
  | csv =>
    refine (writeAll_sameBut d (sheets.zip e.paths)).mono fun p hp => ?_
    obtain ⟨entry, hentry, rfl⟩ := List.mem_map.mp hp
    exact (List.of_mem_zip hentry).2
  | workbook =>
    -- there is one file, unless the formats cannot be planned
    have hpaths : e.paths = [e.basePath] := by
      unfold paths
      rw [hkind]
      rfl
    rw [hpaths]
    dsimp only
    cases e.plans sheets with
    | error f => exact .refl _ d
    | ok plans => exact writeFile_sameBut d e.basePath _

/-! ### The edit -/

variable {s : State}

/-- An export leaves the disk as writing the sheets does. -/
theorem run_snd (hsheets : e.sheetsOf s = .ok sheets) (d : Disk) :
    (e.run d s).2 = (e.write d sheets).2 := by
  unfold run
  rw [hsheets]
  dsimp only
  split <;> next hpair => rw [hpair]

/-- An export of sheets that are written gives their code. -/
theorem run_fst (hsheets : e.sheetsOf s = .ok sheets) (hwrite : (e.write d sheets).1 = .ok ()) :
    (e.run d s).1 = (e.block sheets).map fun b => ⟨s, [.block b]⟩ := by
  obtain ⟨d', hpair⟩ : ∃ d', e.write d sheets = (.ok (), d') := ⟨_, Prod.ext hwrite rfl⟩
  simp only [run, hsheets, hpair]

/-- An accepted export has written its sheets. -/
theorem written_of_run {c : Change} (h : (e.run d s).1 = .ok c) :
    ∃ sheets, e.sheetsOf s = .ok sheets ∧ (e.write d sheets).1 = .ok () := by
  unfold run at h
  split at h
  · cases h
  · next sheets hsheets =>
    refine ⟨sheets, hsheets, ?_⟩
    split at h
    · cases h
    · next hpair => rw [hpair]

end ExportSheets

/-- Edits keep what is on the disk. -/
theorem Edit.diskAfter_keeps {d : Disk} (hd : d.Sound) (e : Edit) (s : State) :
    d.Keeps (e.diskAfter d s) ∧ (e.diskAfter d s).Sound := by
  cases e with
  | exportSheets e =>
    show d.Keeps (e.run d s).2 ∧ (e.run d s).2.Sound
    cases hsheets : e.sheetsOf s with
    | error f =>
      unfold ExportSheets.run
      rw [hsheets]
      exact ⟨.refl d, hd⟩
    | ok sheets =>
      obtain ⟨hkeeps, hsound, -⟩ := ExportSheets.write_spec hd e sheets
      rw [ExportSheets.run_snd hsheets]
      exact ⟨hkeeps, hsound⟩
  | _ => exact ⟨.refl d, hd⟩

/-- The paths that an edit exports to. -/
def Edit.exports : Edit → List String
  | .exportSheets e => e.paths
  | _ => []

/-- Edits leave all files alone but those that they export to. -/
theorem Edit.diskAfter_sameBut (d : Disk) (e : Edit) (s : State) :
    Disk.SameBut e.exports d (e.diskAfter d s) := by
  cases e with
  | exportSheets e =>
    show Disk.SameBut e.paths d (e.run d s).2
    cases hsheets : e.sheetsOf s with
    | error f =>
      unfold ExportSheets.run
      rw [hsheets]
      exact .refl _ d
    | ok sheets =>
      rw [ExportSheets.run_snd hsheets]
      exact ExportSheets.write_sameBut d e sheets
  | _ => exact .refl _ d

namespace Step

/-- Whether the files that a step exported are on a disk. -/
def Left (d : Disk) (step : Step) : Prop :=
  match step.edit with
  | .exportSheets e =>
    ∀ sheets, e.sheetsOf step.before = .ok sheets → ∀ p ∈ e.targets sheets, d.Holds p
  | _ => True

variable {d d' : Disk} {id : StepId} {e : Edit} {s : State} {step : Step}

theorem Left.mono (h : step.Left d) (hkeeps : d.Keeps d') : step.Left d' := by
  unfold Left at h ⊢
  split at h
  · exact fun sheets hsheets p hp => (h sheets hsheets p hp).mono hkeeps
  · trivial

/-- The disk after a step has the files that it exported. -/
theorem left_of_run (hd : d.Sound) (h : Step.run d id e s = .ok step) :
    step.Left (e.diskAfter d s) := by
  obtain ⟨c, hc, rfl⟩ := Step.run_eq_ok h
  unfold Left
  split
  · next e he =>
    obtain rfl : _ = Edit.exportSheets e := he
    obtain ⟨sheets, hsheets, hwrite⟩ := ExportSheets.written_of_run hc
    -- the sheets depend on the state alone, so they are those that were written
    intro sheets' hsheets'
    obtain rfl : sheets = sheets' := Except.ok.inj (hsheets.symm.trans hsheets')
    show ∀ p ∈ e.targets sheets, (e.run d s).2.Holds p
    rw [ExportSheets.run_snd hsheets]
    exact (ExportSheets.write_spec hd e sheets).2.2 hwrite
  · trivial

/-- Replaying keeps the disk, and the files that the steps exported are there. -/
theorem replay_left (hd : d.Sound) (s : State) (edits : List (StepId × Edit)) :
    d.Keeps (Step.replay d s edits).2 ∧ (Step.replay d s edits).2.Sound
      ∧ ∀ steps, (Step.replay d s edits).1 = .ok steps →
        ∀ step ∈ steps, step.Left (Step.replay d s edits).2 := by
  induction edits generalizing d s with
  | nil =>
    refine ⟨.refl d, hd, fun steps h step hstep => ?_⟩
    cases h
    cases hstep
  | cons edit rest ih =>
    obtain ⟨id, e⟩ := edit
    obtain ⟨hkeeps, hsound⟩ := e.diskAfter_keeps hd s
    unfold Step.replay
    dsimp only
    cases hrun : Step.run d id e s with
    | error f => exact ⟨hkeeps, hsound, fun steps h => by cases h⟩
    | ok first =>
      obtain ⟨hlater, hsound, hall⟩ := ih hsound first.after
      refine ⟨hkeeps.trans hlater, hsound, fun steps h step hstep => ?_⟩
      obtain ⟨later, hrest, rfl⟩ := map_eq_ok.mp h
      rcases List.mem_cons.mp hstep with rfl | hstep
      · exact (left_of_run hd hrun).mono hlater
      · exact hall later hrest step hstep

end Step

/-! ### Sessions -/

namespace Session

/-- The session and the disk after a call. -/
def performOn (here : Session × Disk) (call : Call) : Session × Disk :=
  (here.1.perform (here.2, call), (call.outcome here.1 here.2).2)

/-- The session and the disk after some calls, with nothing else that changes the disk. -/
def performAllOn (here : Session × Disk) (calls : List Call) : Session × Disk :=
  calls.foldl performOn here

/-- The disks of the time are those that the calls before left. -/
theorem performAllOn_fst (here : Session × Disk) (calls : List Call) :
    ∃ timed : List (Disk × Call), timed.map Prod.snd = calls
      ∧ (performAllOn here calls).1 = here.1.performAll timed := by
  induction calls generalizing here with
  | nil => exact ⟨[], rfl, rfl⟩
  | cons call rest ih =>
    obtain ⟨timed, rfl, hrest⟩ := ih (performOn here call)
    exact ⟨(here.2, call) :: timed, rfl, hrest⟩

/-- An outcome that keeps the disk, on which there is what the new steps exported. -/
structure Outcome.Leaves (o : Outcome) (d : Disk) (old : List Step) : Prop where
  keeps : d.Keeps o.2
  sound : o.2.Sound
  left : ∀ next, o.1 = .ok next → ∀ step ∈ next.steps, step ∈ old ∨ step.Left o.2

variable {s next first : Session} {d : Disk} {steps kept : List Step} {index : Nat}

theorem steps_start {settings : Settings} {inputs : List (String × Frame)}
    (h : start settings inputs = .ok s) : s.steps = [] := by
  simp only [start, bind_eq_ok, pure_eq_ok] at h
  obtain ⟨initial, -, script, -, rfl⟩ := h
  rfl

theorem steps_commit (h : s.commit steps index = .ok next) : next.steps = steps := by
  simp only [commit, bind_eq_ok, pure_eq_ok] at h
  obtain ⟨script, -, rfl⟩ := h
  rfl

/-- Moving the index neither runs a step nor touches the disk. -/
theorem leaves_of_commit (hd : d.Sound) {r : Except Fault Session}
    (h : r = .ok s ∨ ∃ index, r = s.commit s.steps index) :
    Outcome.Leaves (r, d) d s.steps where
  keeps := .refl d
  sound := hd
  left := by
    intro next hnext step hstep
    rcases h with rfl | ⟨index, rfl⟩
    · cases hnext
      exact .inl hstep
    · rw [steps_commit hnext] at hstep
      exact .inl hstep

theorem leaves_apply (hd : d.Sound) (s : Session) (id : StepId) (e : Edit) :
    (s.apply d id e).Leaves d s.steps := by
  obtain ⟨hkeeps, hsound⟩ := e.diskAfter_keeps hd
    (s.initial.after (s.steps.take (if s.applied.getLast?.any (fun last => last.id = id) then
      s.index - 1 else s.index)))
  rw [apply_eq]
  refine ⟨hkeeps, hsound, fun next h step hstep => ?_⟩
  simp only [bind_eq_ok] at h
  obtain ⟨added, hrun, hcommit⟩ := h
  rw [steps_commit hcommit] at hstep
  rcases List.mem_append.mp hstep with hstep | hstep
  · exact .inl (List.mem_of_mem_take hstep)
  · rw [List.mem_singleton.mp hstep]
    exact .inr (Step.left_of_run hd hrun)

theorem leaves_rerun (hd : d.Sound) (s : Session) (kept : List Step)
    (before : State) (edits : List (StepId × Edit)) :
    (s.rerun d kept before edits).Leaves d kept := by
  obtain ⟨hkeeps, hsound, hleft⟩ := Step.replay_left hd before edits
  refine ⟨hkeeps, hsound, fun next h step hstep => ?_⟩
  unfold rerun at h ⊢
  simp only [bind_eq_ok] at h
  obtain ⟨replayed, hreplayed, hcommit⟩ := h
  rw [steps_commit hcommit] at hstep
  exact (List.mem_append.mp hstep).imp_right (hleft replayed hreplayed step)

theorem Outcome.Leaves.mono {o : Outcome} {old older : List Step} (h : o.Leaves d old)
    (hsub : ∀ step ∈ old, step ∈ older) : o.Leaves d older :=
  ⟨h.keeps, h.sound, fun next hnext step hstep =>
    (h.left next hnext step hstep).imp_left (hsub step)⟩

/-- Every call keeps the disk, and what the new steps exported is there. -/
theorem leaves_outcome (hd : d.Sound) (s : Session) (call : Call) :
    (call.outcome s d).Leaves d s.steps := by
  have hrefused : ∀ f : Fault, Outcome.Leaves (.error f, d) d s.steps := fun f =>
    ⟨.refl d, hd, fun next h => by cases h⟩
  have happlied : ∀ step ∈ s.applied, step ∈ s.steps := fun step hstep =>
    List.mem_of_mem_take hstep
  -- a call applies one edit, moves the index, or runs edits again behind some of the steps
  cases call with
  | apply id e => exact leaves_apply hd s id e
  | push e =>
    rw [Call.outcome, push_eq]
    exact leaves_apply hd { s with nextStep := s.nextStep + 1 } s.freshId e
  | handle event =>
    rw [Call.outcome, handle_eq]
    split
    · exact hrefused _
    · exact leaves_apply hd s _ _
  | undo =>
    refine leaves_of_commit hd ?_
    rw [undo_eq]
    split
    · exact .inl rfl
    · exact .inr ⟨_, rfl⟩
  | redo =>
    refine leaves_of_commit hd ?_
    rw [redo_eq]
    split
    · exact .inl rfl
    · exact .inr ⟨_, rfl⟩
  | clear =>
    rw [Call.outcome, clear_eq]
    exact (leaves_rerun hd s [] _ _).mono fun step hstep => by cases hstep
  | editStep id e idText =>
    rw [Call.outcome, editStep_eq]
    split
    · exact hrefused _
    · exact (leaves_rerun hd s _ _ _).mono fun step hstep =>
        happlied step (List.mem_of_mem_take hstep)
  | load a =>
    rw [Call.outcome, load_eq]
    split
    · exact hrefused _
    · exact (leaves_rerun hd _ [] _ _).mono fun step hstep => by cases hstep

/-- A session with the disk that it left: what its steps exported is there. -/
structure Undisturbed (edits : Edit → Prop) (here : Session × Disk) (first : Session) :
    Prop where
  sound : here.2.Sound
  consistent : here.1.Consistent Disk.Sound edits first
  left : ∀ step ∈ here.1.steps, step.Left here.2

namespace Undisturbed

variable {edits : Edit → Prop} {here : Session × Disk}

theorem performOn (h : Undisturbed edits here first) {call : Call}
    (hcall : ∀ e ∈ call.edits first.initial.sheets.length, edits e) :
    Undisturbed edits (performOn here call) first := by
  obtain ⟨hkeeps, hsound, hleft⟩ := leaves_outcome h.sound here.1 call
  have hclosed : Disk.Closed Disk.Sound edits := fun e _ d hd s => (e.diskAfter_keeps hd s).2
  refine ⟨hsound, h.consistent.perform hclosed h.sound hcall, fun step hstep => ?_⟩
  -- what an old step exported is kept, also by a call that is refused
  unfold Session.performOn at hstep
  dsimp only at hstep
  rw [perform_eq] at hstep
  split at hstep
  · next next hnext =>
    exact (hleft next hnext step hstep).elim (fun hold => (h.left step hold).mono hkeeps) id
  · exact (h.left step hstep).mono hkeeps

theorem performAllOn (h : Undisturbed edits here first) {calls : List Call}
    (hcalls : ∀ call ∈ calls, ∀ e ∈ call.edits first.initial.sheets.length, edits e) :
    Undisturbed edits (performAllOn here calls) first := by
  induction calls generalizing here with
  | nil => exact h
  | cons call rest ih =>
    obtain ⟨hcall, hrest⟩ := List.forall_mem_cons.mp hcalls
    exact ih (h.performOn hcall) hrest

end Undisturbed

end Session

end SheetScript
