import SheetScript.Proofs.Descriptions
import SheetScript.Proofs.Session

/-! # The script with comments

  The text of a script puts the description of every chunk into a comment above its
  statements.  Whoever leaves out blank lines and comments should be left with the
  statements.

  A comment ends with its line, so a description that goes on after a line end puts
  what follows among the statements.  Headers and paths are quoted as they are, and
  may hold line ends; nothing else in a description can.

  - `Script.codeLines_commented_iff`: any script.
  - `Session.code_of_commented`: however a session came about.
-/

namespace SheetScript

/-! ### Lines -/

namespace Text

/-- What ends a line: a newline, but no plain character. -/
structure LineEnds where
  ends : Char → Bool
  newline : ends '\n' = true
  plain : ∀ c, isPlain c = true → ends c = false

/-- Whether a line is neither blank nor a comment. -/
def isCode (line : List Char) : Bool := line.any (fun c => !isBlank c) && line.head? != some '#'

namespace LineEnds

variable (l : LineEnds)

/-- The lines of a text that are neither blank nor comments. -/
def codeLines (s : String) : List (List Char) := (s.toList.splitOnP l.ends).filter isCode

@[simp] theorem codeLines_empty : l.codeLines "" = [] := rfl

theorem codeLines_newline (s t : String) :
    l.codeLines (s ++ "\n" ++ t) = l.codeLines s ++ l.codeLines t := by
  have hsplit : (s ++ "\n" ++ t).toList = s.toList ++ '\n' :: t.toList := by
    simp [String.toList_append]
  unfold codeLines
  rw [hsplit, List.splitOnP_append_cons, List.filter_append]
  exact l.newline

theorem codeLines_end (s : String) : l.codeLines (s ++ "\n") = l.codeLines s := by
  have h := l.codeLines_newline s ""
  rwa [String.append_empty, codeLines_empty, List.append_nil] at h

theorem codeLines_newlines (s t : String) :
    l.codeLines (s ++ "\n\n" ++ t) = l.codeLines s ++ l.codeLines t := by
  have htwo : "\n\n" = "\n" ++ "\n" := rfl
  rw [htwo, ← String.append_assoc, codeLines_newline, codeLines_end]

theorem codeLines_intercalate {sep : String}
    (hsep : ∀ s t, l.codeLines (s ++ sep ++ t) = l.codeLines s ++ l.codeLines t)
    (texts : List String) : l.codeLines (sep.intercalate texts) = texts.flatMap l.codeLines := by
  induction texts with
  | nil => rw [String.intercalate_nil, codeLines_empty, List.flatMap_nil]
  | cons s rest ih =>
    cases rest with
    | nil => simp
    | cons t rest => rw [String.intercalate_cons_cons, hsep, ih, ← List.flatMap_cons]

/-- A comment in which no line ends is one line. -/
theorem codeLines_comment {s : String} (h : ∀ c ∈ s.toList, l.ends c = false) :
    l.codeLines ("# " ++ s) = [] := by
  have hline : ("# " ++ s).toList = '#' :: ' ' :: s.toList := by
    rw [String.toList_append]
    rfl
  have hends : ∀ c ∈ '#' :: ' ' :: s.toList, l.ends c = false := by
    simp only [List.forall_mem_cons]
    exact ⟨l.plain '#' rfl, l.plain ' ' rfl, h⟩
  unfold codeLines
  rw [hline, List.splitOnP_eq_singleton hends]
  simp [isCode]

end LineEnds

end Text

/-! ### Scripts -/

theorem length_flatMap_append {α β : Type} (f g : α → List β) (l : List α) :
    (l.flatMap fun a => f a ++ g a).length = (l.flatMap f).length + (l.flatMap g).length := by
  induction l with
  | nil => rfl
  | cons a rest ih =>
    simp only [List.flatMap_cons, List.length_append, ih]
    omega

namespace Script

variable (l : Text.LineEnds)

/-- What shows of the comment above a chunk: the lines after the first one. -/
def leaks (c : Chunk) : List (List Char) :=
  if c.body.code.isEmpty then [] else l.codeLines ("# " ++ c.body.description)

theorem codeLines_lines (s : Script) (h : s.isEmpty = false) :
    s.lines.flatMap l.codeLines = s.head.flatMap l.codeLines
      ++ s.chunks.flatMap (fun c => c.body.code.flatMap l.codeLines)
      ++ s.stylers.flatMap fun c => l.codeLines c.statement := by
  simp [lines, h, statements, List.flatMap_assoc]

theorem codeLines_commented (s : Script) (h : s.isEmpty = false) :
    l.codeLines s.commented = s.head.flatMap l.codeLines
      ++ s.chunks.flatMap (fun c => leaks l c ++ c.body.code.flatMap l.codeLines)
      ++ s.stylers.flatMap fun c => l.codeLines c.statement := by
  have hsection : ∀ c : Chunk, (section? c).toList.flatMap l.codeLines
      = leaks l c ++ c.body.code.flatMap l.codeLines := by
    intro c
    unfold section? leaks
    split
    · next hnil => simp [List.isEmpty_iff.mp hnil]
    · rw [Option.toList_some, List.flatMap_singleton, l.codeLines_newline,
        l.codeLines_intercalate l.codeLines_newline]
  have hsections : (s.chunks.filterMap section?).flatMap l.codeLines
      = s.chunks.flatMap fun c => leaks l c ++ c.body.code.flatMap l.codeLines := by
    rw [← funext hsection]
    induction s.chunks with
    | nil => rfl
    | cons c rest ih =>
      rw [List.filterMap_cons, List.flatMap_cons, ← ih]
      cases section? c <;> simp
  unfold commented
  rw [h, if_neg Bool.false_ne_true, l.codeLines_end, l.codeLines_intercalate l.codeLines_newlines,
    List.flatMap_cons, l.codeLines_intercalate l.codeLines_newline, List.flatMap_append,
    hsections, List.flatMap_map, List.append_assoc]

/-- Without its comments the commented script is the script exactly if nothing shows of
  the comments. -/
theorem codeLines_commented_iff (s : Script) :
    l.codeLines s.commented = s.lines.flatMap l.codeLines ↔ ∀ c ∈ s.chunks, leaks l c = [] := by
  cases h : s.isEmpty with
  | true =>
    obtain ⟨-, hnone⟩ := Bool.and_eq_true_iff.mp h
    rw [List.isEmpty_iff, statements, List.flatMap_eq_nil_iff] at hnone
    have hleaks : ∀ c ∈ s.chunks, leaks l c = [] := by
      intro c hc
      simp [leaks, hnone c hc]
    simpa [commented, lines, h] using hleaks
  | false =>
    rw [codeLines_commented l s h, codeLines_lines l s h, List.append_cancel_right_eq,
      List.append_cancel_left_eq]
    constructor
    · -- lines that show make the commented script longer
      intro heq
      have hlength := congrArg List.length heq
      rw [length_flatMap_append] at hlength
      have hzero : (s.chunks.flatMap (leaks l)).length = 0 := by omega
      exact List.flatMap_eq_nil_iff.mp (List.eq_nil_of_length_eq_zero hzero)
    · intro hleaks
      rw [List.flatMap_congr]
      intro c hc
      rw [hleaks c hc, List.nil_append]

/-- Of a description in which no line ends nothing shows. -/
theorem leaks_of_quotes {texts : String → Prop} {c : Chunk} (h : Quotes texts c.body.description)
    (htexts : ∀ t, texts t → ∀ k ∈ t.toList, l.ends k = false) : leaks l c = [] := by
  unfold leaks
  split
  · rfl
  · refine l.codeLines_comment fun k hk => ?_
    rcases h k hk with hplain | ⟨t, ht, hmem⟩
    · exact l.plain k hplain
    · exact htexts t ht k hmem

/-- The chunks of a script are those of the steps, as they are or shortened. -/
theorem chunks_build {settings : Settings} {steps : List Step} {final : State} {script : Script}
    (h : build settings steps final = .ok script) :
    script.chunks = chunksOf steps
      ∨ script.chunks = (Optimizer.shorten settings.passLimit (chunksOf steps)).chunks := by
  simp only [build, bind_eq_ok, pure_eq_ok, Prod.exists] at h
  obtain ⟨chunks, report, hshort, stylers, -, rfl⟩ := h
  unfold shortened Optimizer.optimize at hshort
  split at hshort
  · split at hshort
    · simp only [bind_eq_ok, pure_eq_ok, Prod.mk.injEq] at hshort
      obtain ⟨-, -, rfl, -⟩ := hshort
      exact .inr rfl
    · cases hshort
      exact .inr rfl
  · cases hshort
    exact .inl rfl

end Script

/-! ### Sessions -/

namespace Session

/-- Leaving blank lines and comments out of the commented script gives the lines of the
  script exactly if no description goes on as code after its first line.  That is so
  where no line ends within a header that a column has before or after an applied step,
  or within the path of an export. -/
theorem code_of_commented {settings : Settings} {inputs : List (String × Frame)} {first : Session}
    (hstart : start settings inputs = .ok first) (calls : List (Disk × Call))
    (l : Text.LineEnds) :
    let s := first.performAll calls
    (l.codeLines s.script.commented = s.script.lines.flatMap l.codeLines
        ↔ ∀ c ∈ s.script.chunks, c.body.code ≠ [] →
            l.codeLines ("# " ++ c.body.description) = [])
      ∧ ((∀ step ∈ s.applied, ∀ t, step.Spells t → ∀ c ∈ t.toList, l.ends c = false) →
          l.codeLines s.script.commented = s.script.lines.flatMap l.codeLines) := by
  intro s
  obtain ⟨hfirst, -, hinitial⟩ := consistent_start hstart
  have hs : s.Consistent (fun _ => True) (fun _ => True) first :=
    hfirst.performAll Disk.closed_all fun _ _ => ⟨trivial, fun _ _ => trivial⟩
  have hiff := Script.codeLines_commented_iff l s.script
  refine ⟨hiff.trans ?_, fun hends => hiff.mpr fun c hc => ?_⟩
  · simp only [Script.leaks, List.isEmpty_iff, ite_eq_left_iff, ne_eq]
  · have hnamed : s.initial.Named := hs.initial ▸ State.named_ofInputs hinitial
    have hquotes := State.Accepts.described hnamed (hs.accepted.take s.index)
    have hdescribed : Quotes (fun t => ∃ step ∈ s.applied, step.Spells t) c.body.description := by
      rcases Script.chunks_build hs.script with h | h
      · exact hquotes c (h ▸ hc)
      · exact Optimizer.quotes_shorten _ hquotes c (h ▸ hc)
    exact Script.leaks_of_quotes l hdescribed fun t ⟨step, hstep, ht⟩ => hends step hstep t ht

/-! ### A sample

  A column is added and renamed, to a header of one line or of two. -/

namespace Sample

/-- Newlines and carriage returns. -/
def lineEnds : Text.LineEnds where
  ends c := c == '\n' || c == '\r'
  newline := rfl
  plain := by
    intro c hc
    rw [Bool.or_eq_false_iff, beq_eq_false_iff_ne, beq_eq_false_iff_ne]
    constructor
    all_goals
      rintro rfl
      cases hc

/-- The calls. -/
def renamingCalls (header : Header) : List (Disk × Call) :=
  [({}, .push (.addColumn ⟨0, "X", 0⟩)), ({}, .push (.renameColumn ⟨0, ⟨"A"⟩, header⟩))]

/-- A table of one column. -/
def oneColumn : List (String × Frame) := [("df1", ⟨[⟨"A", .int64, [.int 1]⟩], 1⟩)]

/-- The session over the table. -/
def untitled : Session := (start { verifies := false } oneColumn).toOption.getD default

end Sample

theorem code_of_commented_plain :
    let s := Sample.untitled.performAll (Sample.renamingCalls "New")
    let l := Sample.lineEnds
    start { verifies := false } Sample.oneColumn = .ok Sample.untitled
      ∧ s.script.chunks.length = 2
      ∧ (∀ c ∈ s.script.chunks, c.body.code ≠ [] →
          l.codeLines ("# " ++ c.body.description) = [])
      ∧ l.codeLines s.script.commented = s.script.lines.flatMap l.codeLines := by
  intro s l
  have hstart : start { verifies := false } Sample.oneColumn = .ok Sample.untitled :=
    eq_ok_of_toBool (by decide) default
  have hcomments : ∀ c ∈ s.script.chunks, c.body.code ≠ [] →
      l.codeLines ("# " ++ c.body.description) = [] := by decide
  exact ⟨hstart, by decide, hcomments,
    (code_of_commented hstart (Sample.renamingCalls "New") l).1.mpr hcomments⟩

/-- What follows a line end in a header shows as code. -/
theorem header_shows_as_code :
    let s := Sample.untitled.performAll (Sample.renamingCalls "A\nimport os")
    let l := Sample.lineEnds
    start { verifies := false } Sample.oneColumn = .ok Sample.untitled
      ∧ "import os in df1".toList ∈ l.codeLines s.script.commented
      ∧ "import os in df1".toList ∉ s.script.lines.flatMap l.codeLines := by
  intro s l
  have hchunk : ∃ c ∈ s.script.chunks, "import os in df1".toList ∈ Script.leaks l c := by
    decide
  have hcommented : "import os in df1".toList ∈ l.codeLines s.script.commented := by
    obtain ⟨c, hc, hleaks⟩ := hchunk
    rw [Script.codeLines_commented l _ (by decide)]
    refine List.mem_append_left _ (List.mem_append_right _ (List.mem_flatMap.mpr ⟨c, hc, ?_⟩))
    exact List.mem_append_left _ hleaks
  exact ⟨eq_ok_of_toBool (by decide) default, hcommented, by decide⟩

end Session

end SheetScript
