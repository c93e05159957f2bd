import SheetScript.Proofs.Decimal
import SheetScript.Proofs.Edit.Sheets
import SheetScript.Proofs.Replay
import SheetScript.Proofs.State.Basic
import SheetScript.Script

/-! # What descriptions of chunks say

  A description is made of a few words and of texts that a user chose: names of sheets,
  headers, and the path of an export.  Names of sheets are names of variables in every
  state, whatever was imported, so what can be told from plain words are headers and
  paths alone.

  - `Edit.described`: one edit.
  - `State.Accepts.described`: the chunks of accepted steps.
  - `Optimizer.quotes_shorten`: shortened chunks quote no other texts.
-/

namespace SheetScript

/-! ### Texts made of others -/

/-- Whether the character is a printable one of ASCII. -/
def Text.isPlain (c : Char) : Bool := ' ' ≤ c && c ≤ '~'

/-- Whether every character of a text is plain or comes from one of the given texts. -/
def Quotes (texts : String → Prop) (s : String) : Prop :=
  ∀ c ∈ s.toList, Text.isPlain c = true ∨ ∃ t, texts t ∧ c ∈ t.toList

namespace Quotes

variable {texts texts' : String → Prop} {s t : String}

theorem of_plain (h : s.toList.all Text.isPlain = true) : Quotes texts s :=
  fun c hc => .inl (List.all_eq_true.mp h c hc)

theorem self (h : texts s) : Quotes texts s := fun _ hc => .inr ⟨s, h, hc⟩

theorem mono (h : Quotes texts s) (himp : ∀ t, texts t → texts' t) : Quotes texts' s :=
  fun c hc => (h c hc).imp_right fun ⟨t, ht, hmem⟩ => ⟨t, himp t ht, hmem⟩

theorem append_iff : Quotes texts (s ++ t) ↔ Quotes texts s ∧ Quotes texts t := by
  simp only [Quotes, String.toList_append, List.mem_append, or_imp, forall_and]

theorem append (hs : Quotes texts s) (ht : Quotes texts t) : Quotes texts (s ++ t) :=
  append_iff.mpr ⟨hs, ht⟩

theorem commas_iff {l : List String} :
    Quotes texts (", ".intercalate l) ↔ ∀ t ∈ l, Quotes texts t := by
  induction l with
  | nil => simp [Quotes, String.intercalate_nil]
  | cons t rest ih =>
    cases rest with
    | nil => simp [String.intercalate_singleton]
    | cons u rest =>
      rw [String.intercalate_cons_cons, append_iff, append_iff, ih,
        List.forall_mem_cons (l := u :: rest)]
      have hcomma : Quotes texts ", " := of_plain rfl
      simp only [hcomma, and_true]

theorem of_isVariableName (h : Naming.isVariableName s = true) : Quotes texts s := by
  have halnum : ∀ c : Char, c.isAlphanum = true ∨ c = '_' → Text.isPlain c = true := by
    intro c hc
    have halpha : c.isAlpha = (decide (c.val ≥ 'A'.val ∧ c.val ≤ 'Z'.val)
        || (decide (c.val ≥ 'a'.val) && decide (c.val ≤ 'z'.val))) := rfl
    simp only [Text.isPlain, Char.isAlphanum, halpha, Char.isDigit, Bool.or_eq_true,
      Bool.and_eq_true, decide_eq_true_eq, Char.le_def, UInt32.le_iff_toNat_le, Char.ext_iff,
      ← UInt32.toNat_inj] at hc ⊢
    simp at hc ⊢
    omega
  unfold Naming.isVariableName at h
  split at h
  · cases h
  · next c rest hs =>
    simp only [Bool.and_eq_true, List.all_eq_true, Naming.isNameStart, Naming.isNamePart,
      Bool.or_eq_true, beq_iff_eq] at h
    obtain ⟨⟨hc, hrest⟩, -⟩ := h
    intro d hd
    rw [hs] at hd
    refine .inl (halnum d ?_)
    rcases List.mem_cons.mp hd with rfl | hd
    · exact hc.imp_left fun h => by simp [Char.isAlphanum, h]
    · exact hrest d hd

theorem natText (n : Nat) : Quotes texts (Decimal.natText n) := by
  have hdigit : ∀ c : Char, Decimal.isDigit c = true → Text.isPlain c = true := by
    intro c hc
    simp only [Text.isPlain, Decimal.isDigit, Bool.and_eq_true, decide_eq_true_eq,
      Char.le_def, UInt32.le_iff_toNat_le] at hc ⊢
    simp at hc ⊢
    omega
  intro c hc
  rw [Decimal.natText, String.toList_ofList] at hc
  exact .inl (hdigit c (List.all_eq_true.mp (Decimal.all_digitsOf n) c hc))

/-- A text between words. -/
theorem phrase {first last : String} (hfirst : first.toList.all Text.isPlain = true)
    (ht : texts t) (hlast : last.toList.all Text.isPlain = true) :
    Quotes texts (first ++ t ++ last) :=
  ((of_plain hfirst).append (self ht)).append (of_plain hlast)

end Quotes

/-! ### Descriptions of chunks that can be merged -/

section Bodies

variable {texts : String → Prop}

theorem quotes_deleteColumns {t : Target} {ids : List ColumnId} {hs : List Header} :
    Quotes texts (ChunkBody.deleteColumns t ids hs).description
      ↔ (∀ h ∈ hs, Quotes texts h) ∧ Quotes texts t.df := by
  have hfirst : Quotes texts "Deleted columns " := .of_plain rfl
  have hlast : Quotes texts " from " := .of_plain rfl
  show Quotes texts ("Deleted columns " ++ ", ".intercalate hs ++ " from " ++ t.df) ↔ _
  rw [Quotes.append_iff, Quotes.append_iff, Quotes.append_iff, Quotes.commas_iff,
    and_iff_right hfirst, and_iff_left hlast]

theorem quotes_renameColumn {t : Target} {id : ColumnId} {old new : Header} :
    Quotes texts (ChunkBody.renameColumn t id old new).description
      ↔ (Quotes texts old ∧ Quotes texts new) ∧ Quotes texts t.df := by
  have hfirst : Quotes texts "Renamed " := .of_plain rfl
  have hto : Quotes texts " to " := .of_plain rfl
  have hin : Quotes texts " in " := .of_plain rfl
  show Quotes texts ("Renamed " ++ old ++ " to " ++ new ++ " in " ++ t.df) ↔ _
  rw [Quotes.append_iff, Quotes.append_iff, Quotes.append_iff, Quotes.append_iff,
    Quotes.append_iff, and_iff_right hfirst, and_iff_left hto, and_iff_left hin]

theorem quotes_deleteSheet {t : Target} :
    Quotes texts (ChunkBody.deleteSheet t).description ↔ Quotes texts t.df := by
  have hfirst : Quotes texts "Deleted " := .of_plain rfl
  show Quotes texts ("Deleted " ++ t.df) ↔ _
  rw [Quotes.append_iff, and_iff_right hfirst]

theorem quotes_renameSheet {s : SheetId} {old new : String} :
    Quotes texts (ChunkBody.renameSheet s old new).description
      ↔ Quotes texts old ∧ Quotes texts new := by
  have hfirst : Quotes texts "Renamed " := .of_plain rfl
  have hto : Quotes texts " to " := .of_plain rfl
  show Quotes texts ("Renamed " ++ old ++ " to " ++ new) ↔ _
  rw [Quotes.append_iff, Quotes.append_iff, Quotes.append_iff, and_iff_right hfirst,
    and_iff_left hto]

end Bodies

/-! ### What an edit can quote -/

/-- A column of the sheet is registered under the header. -/
def Sheet.Registers (sh : Sheet) (h : Header) : Prop := ∃ id, sh.columns.header? id = some h

/-- A column of some sheet is registered under the header. -/
def State.Registers (s : State) (h : Header) : Prop := ∃ sh ∈ s.sheets, sh.Registers h

/-- Every sheet has the name of a variable. -/
def State.Named (s : State) : Prop := ∀ sh ∈ s.sheets, Naming.isVariableName sh.name = true

/-- The path that an edit writes to, as the user spelled it. -/
def Edit.exportPath? : Edit → Option String
  | .exportSheets e => some e.path
  | _ => none

/-- The descriptions of the code quote headers from before and after the change, and the
  path; the sheets keep names of variables. -/
structure Change.Described (s : State) (path? : Option String) (c : Change) : Prop where
  named : c.state.Named
  quotes : ∀ body ∈ c.code,
    Quotes (fun t => s.Registers t ∨ c.state.Registers t ∨ path? = some t) body.description

namespace State.Named

variable {s : State} {i : Nat} {sheet after : Sheet}

/-- A sheet that is minted under a name made for it. -/
theorem mint (s : State) (base : String) (f : Frame) :
    Naming.isVariableName (s.mint (s.uniqueName base) f).1.name = true :=
  s.isVariableName_uniqueName base

theorem of_sheet (hs : s.Named) (hsheet : s.sheet i = .ok sheet) :
    Naming.isVariableName sheet.name = true := hs sheet (State.sheet_mem hsheet)

theorem replace (hs : s.Named) (hname : Naming.isVariableName after.name = true) :
    (s.replace i after).Named := by
  intro sh hsh
  rcases List.mem_or_eq_of_mem_set hsh with hsh | rfl
  · exact hs sh hsh
  · exact hname

theorem push (hs : s.Named) (next : State) (hnext : next.sheets = s.sheets) (sheet : Sheet)
    (hname : Naming.isVariableName sheet.name = true) : (next.push sheet).Named := by
  intro sh hsh
  rw [State.push, hnext, List.mem_append, List.mem_singleton] at hsh
  rcases hsh with hsh | rfl
  · exact hs sh hsh
  · exact hname

end State.Named

namespace Change.Described

variable {s : State} {path? : Option String} {i : Nat} {sheet after : Sheet}

theorem none (hs : s.Named) : Described s path? (.none s) := ⟨hs, by simp [Change.none]⟩

/-- A change of one sheet, which can quote the headers of that sheet. -/
theorem onSheet {code : List ChunkBody} (hs : s.Named) (hsheet : s.sheet i = .ok sheet)
    (hname : Naming.isVariableName after.name = true)
    (hcode : ∀ body ∈ code,
      Quotes (fun t => sheet.Registers t ∨ after.Registers t) body.description) :
    Described s path? (.onSheet s i after code) where
  named := hs.replace hname
  quotes := by
    intro body hbody
    refine (hcode body hbody).mono fun t ht => ?_
    rcases ht with ht | ht
    · exact .inl ⟨sheet, State.sheet_mem hsheet, ht⟩
    · refine .inr (.inl ⟨after, ?_, ht⟩)
      obtain ⟨left, right, heq, hlen⟩ := State.sheet_eq_ok hsheet
      simp [Change.onSheet, State.replace, heq, ← hlen]

end Change.Described

/-! ### Edits, kind by kind -/

section Edits

variable {s : State} {c : Change} {path? : Option String}

theorem AddColumn.described {e : AddColumn} (hs : s.Named) (h : e.run s = .ok c) :
    c.Described s path? := by
  unfold AddColumn.run at h
  simp only [bind_eq_ok, throw_ite_eq_ok, pure_eq_ok] at h
  obtain ⟨sheet, hsheet, -, frame, -, rfl⟩ := h
  have hname := hs.of_sheet hsheet
  have hnew : (sheet.columns.insert e.header).2.header? (sheet.columns.insert e.header).1
      = some e.header := (ColumnIds.header?_insertWithId _ _ _ _).trans (if_pos rfl)
  refine .onSheet hs hsheet hname ?_
  rw [List.forall_mem_singleton]
  exact (Quotes.phrase rfl (.inr ⟨_, hnew⟩) rfl).append (.of_isVariableName hname)

theorem DeleteColumns.described {e : DeleteColumns} (hs : s.Named) (h : e.run s = .ok c) :
    c.Described s path? := by
  unfold DeleteColumns.run at h
  simp only [bind_eq_ok, throw_ite_eq_ok, pure_eq_ok] at h
  obtain ⟨-, sheet, hsheet, headers, hheaders, rfl⟩ := h
  have hname := hs.of_sheet hsheet
  refine .onSheet hs hsheet hname ?_
  rw [List.forall_mem_singleton]
  refine quotes_deleteColumns.mpr ⟨fun t ht => ?_, .of_isVariableName hname⟩
  obtain ⟨id, -, hid⟩ := exists_of_mem_right (Sheet.headersFor_eq_ok.mp hheaders) ht
  exact .self (.inl ⟨id, hid⟩)

theorem RenameColumn.described {e : RenameColumn} (hs : s.Named) (h : e.run s = .ok c) :
    c.Described s path? := by
  unfold RenameColumn.run at h
  simp only [bind_eq_ok] at h
  obtain ⟨sheet, hsheet, old, hold, h⟩ := h
  have hname := hs.of_sheet hsheet
  have hheader := Sheet.header_eq_ok.mp hold
  have hnew : (sheet.columns.rename e.column e.header).2.header? e.column = some e.header := by
    rw [ColumnIds.rename_eq hheader]
    exact (Dictionary.get?_insert _ _ _ _).trans (if_pos rfl)
  split at h
  · simp only [pure_eq_ok] at h
    exact h ▸ .none hs
  · simp only [throw_ite_eq_ok, bind_eq_ok, pure_eq_ok, RenameColumn.after] at h
    obtain ⟨-, -, -, ⟨frame, -, rfl⟩, rfl⟩ := h
    refine .onSheet hs hsheet hname ?_
    rw [List.forall_mem_singleton]
    exact quotes_renameColumn.mpr
      ⟨⟨.self (.inl ⟨_, hheader⟩), .self (.inr ⟨_, hnew⟩)⟩, .of_isVariableName hname⟩

theorem MoveColumn.described {e : MoveColumn} (hs : s.Named) (h : e.run s = .ok c) :
    c.Described s path? := by
  unfold MoveColumn.run at h
  simp only [bind_eq_ok] at h
  obtain ⟨sheet, hsheet, source, -, h⟩ := h
  split at h
  · simp only [pure_eq_ok] at h
    exact h ▸ .none hs
  · simp only [bind_eq_ok, pure_eq_ok, Sheet.header_eq_ok] at h
    obtain ⟨frame, -, header, hheader, rfl⟩ := h
    have hname := hs.of_sheet hsheet
    refine .onSheet hs hsheet hname ?_
    rw [List.forall_mem_singleton]
    exact (Quotes.phrase rfl (.inl ⟨_, hheader⟩) rfl).append (.of_isVariableName hname)

theorem SetFormula.described {e : SetFormula} (hs : s.Named) (h : e.run s = .ok c) :
    c.Described s path? := by
  unfold SetFormula.run at h
  simp only [bind_eq_ok, Sheet.header_eq_ok] at h
  obtain ⟨sheet, hsheet, header, hheader, h⟩ := h
  split at h
  · simp at h
  · simp only [bind_eq_ok, pure_eq_ok] at h
    obtain ⟨columns, -, frame, -, rfl⟩ := h
    have hname := hs.of_sheet hsheet
    refine .onSheet hs hsheet hname ?_
    rw [List.forall_mem_singleton]
    exact (Quotes.phrase rfl (.inl ⟨_, hheader⟩) rfl).append (.of_isVariableName hname)

theorem ChangeType.described {e : ChangeType} (hs : s.Named) (h : e.run s = .ok c) :
    c.Described s path? := by
  unfold ChangeType.run at h
  simp only [bind_eq_ok, Sheet.header_eq_ok] at h
  obtain ⟨sheet, hsheet, header, hheader, column, -, h⟩ := h
  split at h
  · simp only [pure_eq_ok] at h
    exact h ▸ .none hs
  · simp only [bind_eq_ok, pure_eq_ok] at h
    obtain ⟨converted, -, frame, -, rfl⟩ := h
    have hname := hs.of_sheet hsheet
    refine .onSheet hs hsheet hname ?_
    rw [List.forall_mem_singleton]
    exact (Quotes.phrase rfl (.inl ⟨_, hheader⟩) rfl).append (.of_isVariableName hname)

theorem FilterRows.described {e : FilterRows} (hs : s.Named) (h : e.run s = .ok c) :
    c.Described s path? := by
  unfold FilterRows.run at h
  simp only [bind_eq_ok, Sheet.header_eq_ok] at h
  obtain ⟨sheet, hsheet, header, hheader, column, -, p, -, h⟩ := h
  cases p with
  | none =>
    simp only [pure_eq_ok] at h
    exact h ▸ .none hs
  | some p =>
    simp only [bind_eq_ok, pure_eq_ok] at h
    obtain ⟨tested, -, mask, -, rfl⟩ := h
    have hname := hs.of_sheet hsheet
    refine .onSheet hs hsheet hname ?_
    rw [List.forall_mem_map]
    intro m _
    exact (Quotes.phrase rfl (.inl ⟨_, hheader⟩) rfl).append (.of_isVariableName hname)

theorem SortRows.described {e : SortRows} (hs : s.Named) (h : e.run s = .ok c) :
    c.Described s path? := by
  unfold SortRows.run at h
  simp only [bind_eq_ok] at h
  obtain ⟨sheet, hsheet, header, -, h⟩ := h
  have hsorted : ∀ {descending}, e.sorted s sheet descending = .ok c → c.Described s path? := by
    intro descending h
    simp only [SortRows.sorted, bind_eq_ok, pure_eq_ok, Sheet.header_eq_ok] at h
    obtain ⟨header, hheader, frame, -, rfl⟩ := h
    have hname := hs.of_sheet hsheet
    refine .onSheet hs hsheet hname ?_
    rw [List.forall_mem_singleton]
    have horder : ((if descending then "descending" else "ascending" : String).toList.all
        Text.isPlain) = true := by
      cases descending <;> rfl
    exact ((((Quotes.phrase rfl (.inl ⟨_, hheader⟩) rfl).append (.of_isVariableName hname)).append
      (.of_plain rfl)).append (.of_plain horder)).append (.of_plain rfl)
  cases horder : e.order with
  | unsorted =>
    simp only [horder, pure_eq_ok] at h
    exact h ▸ .none hs
  | ascending | descending =>
    rw [horder] at h
    exact hsorted h

theorem PromoteRow.described {e : PromoteRow} (hs : s.Named) (h : e.run s = .ok c) :
    c.Described s path? := by
  unfold PromoteRow.run at h
  simp only [bind_eq_ok, throw_ite_eq_ok] at h
  obtain ⟨sheet, hsheet, -, headers, -, h⟩ := h
  split at h
  · simp at h
  · simp only [bind_eq_ok, pure_eq_ok] at h
    obtain ⟨frame, -, rfl⟩ := h
    have hname := hs.of_sheet hsheet
    refine .onSheet hs hsheet hname ?_
    rw [List.forall_mem_singleton]
    exact (((Quotes.of_plain rfl).append (.natText _)).append (.of_plain rfl)).append
      (.of_isVariableName hname)

theorem OneHot.described {e : OneHot} (hs : s.Named) (h : e.run s = .ok c) :
    c.Described s path? := by
  obtain ⟨sheet, header, position, column, alone, frame, hsheet, hheader, -, -, -, -, -, -, rfl⟩ :=
    OneHot.run_eq_ok.mp h
  rw [Sheet.header_eq_ok] at hheader
  have hname := hs.of_sheet hsheet
  refine .onSheet hs hsheet hname ?_
  rw [List.forall_mem_singleton]
  exact (Quotes.phrase rfl (.inl ⟨_, hheader⟩) rfl).append (.of_isVariableName hname)

/-- Code that only names sheets quotes nothing. -/
theorem Change.Described.of_names {next : State} {body : ChunkBody} (hnext : next.Named)
    (hbody : ∀ {texts}, Quotes texts body.description) :
    Described s path? ⟨next, [body]⟩ where
  named := hnext
  quotes := by
    rw [List.forall_mem_singleton]
    exact hbody

theorem DuplicateSheet.described {e : DuplicateSheet} (hs : s.Named) (h : e.run s = .ok c) :
    c.Described s path? := by
  simp only [DuplicateSheet.run, bind_eq_ok, pure_eq_ok] at h
  obtain ⟨source, hsource, rfl⟩ := h
  have hname := hs.of_sheet hsource
  have hcopy := State.Named.mint s (source.name ++ "_copy") source.frame
  exact .of_names (hs.push _ rfl _ hcopy)
    ((((Quotes.of_plain rfl).append (.of_isVariableName hname)).append (.of_plain rfl)).append
      (.of_isVariableName hcopy))

theorem DeleteSheet.described {e : DeleteSheet} (hs : s.Named) (h : e.run s = .ok c) :
    c.Described s path? := by
  simp only [DeleteSheet.run, State.remove, bind_eq_ok, pure_eq_ok] at h
  obtain ⟨sheet, hsheet, next, ⟨_, -, rfl⟩, rfl⟩ := h
  exact .of_names (fun sh hsh => hs sh (List.mem_of_mem_eraseIdx hsh))
    (quotes_deleteSheet.mpr (.of_isVariableName (hs.of_sheet hsheet)))

theorem RenameSheet.described {e : RenameSheet} (hs : s.Named) (h : e.run s = .ok c) :
    c.Described s path? := by
  unfold RenameSheet.run at h
  simp only [bind_eq_ok] at h
  obtain ⟨sheet, hsheet, h⟩ := h
  have hname := hs.of_sheet hsheet
  have hnew := Naming.isVariableName_variableName e.name
  split at h
  · simp only [pure_eq_ok] at h
    exact h ▸ .none hs
  · simp only [throw_ite_eq_ok, pure_eq_ok] at h
    obtain ⟨-, rfl⟩ := h
    exact .of_names (hs.replace hnew)
      (quotes_renameSheet.mpr ⟨.of_isVariableName hname, .of_isVariableName hnew⟩)

theorem FormatSheet.described {e : FormatSheet} (hs : s.Named) (h : e.run s = .ok c) :
    c.Described s path? := by
  simp only [FormatSheet.run, bind_eq_ok, pure_eq_ok] at h
  obtain ⟨sheet, hsheet, headers, -, rfl⟩ := h
  have hname := hs.of_sheet hsheet
  exact .onSheet hs hsheet hname (by simp)

theorem DrawChart.described {e : DrawChart} (hs : s.Named) (h : e.run s = .ok c) :
    c.Described s path? := by
  simp only [DrawChart.run, bind_eq_ok, pure_eq_ok] at h
  obtain ⟨sheet, -, code, -, rfl⟩ := h
  exact ⟨hs, by simp⟩

theorem ExportSheets.described {e : ExportSheets} {d : Disk} (hs : s.Named)
    (h : (e.run d s).1 = .ok c) : c.Described s (some e.path) := by
  unfold ExportSheets.run at h
  split at h
  · cases h
  · next sheets hsheets =>
    split at h
    · cases h
    · simp only [map_eq_ok, ExportSheets.block, bind_eq_ok, pure_eq_ok] at h
      obtain ⟨b, ⟨statements, -, rfl⟩, rfl⟩ := h
      unfold ExportSheets.sheetsOf at hsheets
      simp only [throw_ite_eq_ok, mapM_eq_ok] at hsheets
      refine ⟨hs, ?_⟩
      rw [List.forall_mem_singleton]
      refine (((Quotes.of_plain rfl).append ?_).append (.of_plain rfl)).append
        (.self (.inr (.inr rfl)))
      rw [Quotes.commas_iff, List.forall_mem_map]
      intro sheet hsheet
      obtain ⟨i, -, hi⟩ := exists_of_mem_right hsheets.2.2 hsheet
      exact .of_isVariableName (hs.of_sheet hi)

theorem Merge.described {e : Merge} (hs : s.Named) (h : e.run s = .ok c) :
    c.Described s path? := by
  unfold Merge.run at h
  simp only [bind_eq_ok, pure_eq_ok] at h
  obtain ⟨one, hone, two, htwo, p, -, f, -, rfl⟩ := h
  have houtput := State.Named.mint s "df_merge" f
  exact .of_names (hs.push _ rfl _ houtput)
    ((((((Quotes.of_plain rfl).append (.of_isVariableName (hs.of_sheet hone))).append
      (.of_plain rfl)).append (.of_isVariableName (hs.of_sheet htwo))).append
      (.of_plain rfl)).append (.of_isVariableName houtput))

theorem Pivot.described {e : Pivot} (hs : s.Named) (h : e.run s = .ok c) :
    c.Described s path? := by
  unfold Pivot.run at h
  simp only [bind_eq_ok] at h
  obtain ⟨source, hsource, l, -, f, -, h⟩ := h
  have hblock : ∀ {texts output}, Naming.isVariableName output.name = true →
      Quotes texts (e.block l source output).description := fun houtput =>
    (((Quotes.of_plain rfl).append (.of_isVariableName (hs.of_sheet hsource))).append
      (.of_plain rfl)).append (.of_isVariableName houtput)
  cases hdestination : e.destination with
  | some i =>
    simp only [hdestination, bind_eq_ok, pure_eq_ok] at h
    obtain ⟨target, htarget, headers, -, rfl⟩ := h
    have hname := hs.of_sheet htarget
    exact .of_names (hs.replace hname) (hblock hname)
  | none =>
    simp only [hdestination, pure_eq_ok] at h
    subst h
    have hname := State.Named.mint s (source.name ++ "_pivot") f
    exact .of_names (hs.push _ rfl _ hname) (hblock hname)

theorem ImportFiles.described {e : ImportFiles} {d : Disk} (hs : s.Named)
    (h : e.run d s = .ok c) : c.Described s path? := by
  unfold ImportFiles.run at h
  simp only [throw_ite_eq_ok, bind_eq_ok, pure_eq_ok] at h
  obtain ⟨-, ⟨next, sheets⟩, hfold, rfl⟩ := h
  -- every file adds a sheet under a name that was made for it
  have hadd : ∀ {path : String} {acc later : State × List Sheet}, path ∈ e.files →
      (acc.1.Named ∧ ∀ sheet ∈ acc.2, Naming.isVariableName sheet.name = true) →
      e.addFile d acc path = .ok later →
      later.1.Named ∧ ∀ sheet ∈ later.2, Naming.isVariableName sheet.name = true := by
    rintro path ⟨s, sheets⟩ later - ⟨hs, hsheets⟩ hadd
    simp only [ImportFiles.addFile, bind_eq_ok, pure_eq_ok] at hadd
    obtain ⟨f, -, rfl⟩ := hadd
    have hname := State.Named.mint s (ImportFiles.baseName path) f
    have hsheet : Naming.isVariableName
        (if e.legacyIds then
          { (s.mint (s.uniqueName (ImportFiles.baseName path)) f).1 with
            columns := ImportFiles.legacyColumns f.headers }
        else (s.mint (s.uniqueName (ImportFiles.baseName path)) f).1).name = true := by
      split <;> exact hname
    refine ⟨hs.push _ rfl _ hsheet, ?_⟩
    rw [List.forall_mem_append, List.forall_mem_singleton]
    exact ⟨hsheets, hsheet⟩
  obtain ⟨hnext, hsheets⟩ := foldlM_keeps hadd ⟨hs, by simp⟩ hfold
  refine .of_names hnext ((Quotes.of_plain rfl).append ?_)
  rw [Quotes.commas_iff, List.forall_mem_map]
  exact fun sheet hsheet => .of_isVariableName (hsheets sheet hsheet)

/-- Restricting the headers of a sheet keeps its name. -/
theorem RestrictHeaders.name_sheetAfter {e : RestrictHeaders} {sheet : Sheet}
    {r : Sheet × List RestrictHeaders.Renaming} (h : e.sheetAfter sheet = .ok r) :
    r.1.name = sheet.name := by
  unfold RestrictHeaders.sheetAfter at h
  dsimp only at h
  split at h
  · simp only [pure_eq_ok] at h
    rw [← h]
  · simp only [bind_eq_ok, pure_eq_ok] at h
    obtain ⟨frame, -, rfl⟩ := h
    rfl

theorem RestrictHeaders.described {e : RestrictHeaders} (hs : s.Named) (h : e.run s = .ok c) :
    c.Described s path? := by
  unfold RestrictHeaders.run at h
  simp only [bind_eq_ok, pure_eq_ok, mapM_eq_ok] at h
  obtain ⟨results, hresults, rfl⟩ := h
  refine ⟨?_, fun body hbody => ?_⟩
  · show ∀ sh ∈ results.map Prod.fst, _
    rw [List.forall_mem_map]
    intro r hr
    obtain ⟨sheet, hsheet, hafter⟩ := exists_of_mem_right hresults hr
    rw [name_sheetAfter hafter]
    exact hs sheet hsheet
  · dsimp only at hbody
    split at hbody
    · cases hbody
    · rw [List.mem_singleton] at hbody
      subst hbody
      have hplain : "Renamed headers for compatibility with previous versions".toList.all
          Text.isPlain = true := rfl
      exact .of_plain hplain

/-- The code of an accepted edit quotes headers that the states around it know, and the
  path it exports to. -/
theorem Edit.described {e : Edit} {d : Disk} (hs : s.Named) (h : e.change d s = .ok c) :
    c.Described s e.exportPath? := by
  cases e with
  | importFiles e => exact ImportFiles.described hs h
  | addColumn e => exact AddColumn.described hs h
  | deleteColumns e => exact DeleteColumns.described hs h
  | renameColumn e => exact RenameColumn.described hs h
  | moveColumn e => exact MoveColumn.described hs h
  | setFormula e => exact SetFormula.described hs h
  | changeType e => exact ChangeType.described hs h
  | filterRows e => exact FilterRows.described hs h
  | sortRows e => exact SortRows.described hs h
  | pivot e => exact Pivot.described hs h
  | merge e => exact Merge.described hs h
  | oneHot e => exact OneHot.described hs h
  | promoteRow e => exact PromoteRow.described hs h
  | duplicateSheet e => exact DuplicateSheet.described hs h
  | deleteSheet e => exact DeleteSheet.described hs h
  | renameSheet e => exact RenameSheet.described hs h
  | formatSheet e => exact FormatSheet.described hs h
  | drawChart e => exact DrawChart.described hs h
  | exportSheets e => exact ExportSheets.described hs h
  | restrictHeaders e => exact RestrictHeaders.described hs h

end Edits

/-! ### Steps -/

/-- A column is registered under the text before or after the step, or the step exports
  to it. -/
def Step.Spells (step : Step) (t : String) : Prop :=
  step.before.Registers t ∨ step.after.Registers t ∨ step.edit.exportPath? = some t

/-- The sheets of named tables have names of variables. -/
theorem State.named_ofInputs {inputs : List (String × Frame)} {s : State}
    (h : State.ofInputs inputs = .ok s) : s.Named := by
  refine foldlM_keeps (P := State.Named) (fun {input s next} _ hs hnext => ?_)
    (fun _ hsh => by cases hsh) h
  split at hnext
  · cases hnext
  · next hvalid =>
    split at hnext
    · cases hnext
    · obtain rfl := Except.ok.inj hnext
      have hname : Naming.isVariableName input.1 = true := by simpa using hvalid
      exact hs.push _ rfl _ hname

/-- The chunks of accepted steps quote what the steps spell. -/
theorem State.Accepts.described {s : State} {steps : List Step} (hs : s.Named)
    (ha : s.Accepts steps) : ∀ c ∈ Script.chunksOf steps,
      Quotes (fun t => ∃ step ∈ steps, step.Spells t) c.body.description := by
  induction steps generalizing s with
  | nil => simp [Script.chunksOf]
  | cons step rest ih =>
    obtain ⟨⟨d, -, hrun⟩, hrest⟩ := ha
    obtain ⟨c, hc, hstep⟩ := Step.run_eq_ok hrun
    have hbefore : step.before = s := Step.before_eq hrun
    have hafter : step.after = c.state := by rw [hstep]
    have hchunks : step.chunks = c.code.map fun body => ⟨step.id, body⟩ := by rw [hstep]
    have hdescribed := Edit.described hs hc
    rw [Script.chunksOf, List.flatMap_cons, List.forall_mem_append]
    constructor
    · rw [hchunks, List.forall_mem_map]
      intro body hbody
      refine (hdescribed.quotes body hbody).mono fun t ht => ⟨step, List.mem_cons_self, ?_⟩
      unfold Step.Spells
      rwa [hbefore, hafter]
    · intro k hk
      exact (ih (hafter ▸ hdescribed.named) hrest k hk).mono fun t ⟨later, hmem, ht⟩ =>
        ⟨later, List.mem_cons_of_mem _ hmem, ht⟩

/-! ### Shortening -/

namespace Optimizer

/-- Whether what a rewrite puts in the place of a pair is of a kind. -/
def Rewrite.Makes (p : ChunkBody → Prop) : Rewrite → Prop
  | .merge body => p body
  | .replaceNewer body => p body
  | .dropOlder | .dropBoth => True

section Kept

variable {p : ChunkBody → Prop} {chunks out : List Chunk}

theorem forall_rewriteWith
    (hp : ∀ {older newer r}, rewriteFor older newer = some r → p older → p newer → r.Makes p)
    {older : Chunk} {between after : List Chunk} (holder : p older.body)
    (hbetween : ∀ c ∈ between, p c.body) (hafter : ∀ c ∈ after, p c.body)
    (h : rewriteWith older between after = some out) : ∀ c ∈ out, p c.body := by
  induction after generalizing between with
  | nil => cases h
  | cons newer rest ih =>
    obtain ⟨hnewer, hrest⟩ := List.forall_mem_cons.mp hafter
    rw [rewriteWith] at h
    split at h
    · next r hrule =>
      cases h
      obtain ⟨hrule, -⟩ := Option.filter_eq_some_iff.mp hrule
      have hmakes := hp hrule holder hnewer
      rw [List.forall_mem_append]
      refine ⟨?_, hrest⟩
      cases r with
      | dropOlder => exact List.forall_mem_append.mpr ⟨hbetween, by simpa using hnewer⟩
      | dropBoth => exact hbetween
      | merge body => exact List.forall_mem_cons.mpr ⟨hmakes, hbetween⟩
      | replaceNewer body =>
        exact List.forall_mem_append.mpr ⟨hbetween, List.forall_mem_singleton.mpr hmakes⟩
    · exact ih (List.forall_mem_append.mpr ⟨hbetween, by simpa using hnewer⟩) hrest h

theorem forall_rewriteOnce
    (hp : ∀ {older newer r}, rewriteFor older newer = some r → p older → p newer → r.Makes p)
    (hchunks : ∀ c ∈ chunks, p c.body) (h : rewriteOnce chunks = some out) :
    ∀ c ∈ out, p c.body := by
  induction chunks generalizing out with
  | nil => cases h
  | cons c rest ih =>
    obtain ⟨hc, hrest⟩ := List.forall_mem_cons.mp hchunks
    rw [rewriteOnce] at h
    split at h
    · next out' hw =>
      cases h
      exact forall_rewriteWith hp hc (by simp) hrest hw
    · obtain ⟨out', hout, rfl⟩ := Option.map_eq_some_iff.mp h
      exact List.forall_mem_cons.mpr ⟨hc, ih hrest hout⟩

/-- What every rule keeps, shortening keeps. -/
theorem forall_shorten (limit : Nat)
    (hp : ∀ {older newer r}, rewriteFor older newer = some r → p older → p newer → r.Makes p)
    (hchunks : ∀ c ∈ chunks, p c.body) : ∀ c ∈ (shorten limit chunks).chunks, p c.body := by
  induction limit generalizing chunks with
  | zero => exact hchunks
  | succ limit ih =>
    rw [shorten]
    split
    · exact hchunks
    · next out hr => exact ih (forall_rewriteOnce hp hchunks hr)

end Kept

variable {texts : String → Prop}

theorem makes_beforeDeletion {p : ChunkBody → Prop} {older : ChunkBody} {s : SheetId} {r : Rewrite}
    (h : beforeDeletion older s = some r) : r.Makes p := by
  unfold beforeDeletion at h
  dsimp only at h
  split at h
  · split at h <;> cases h <;> trivial
  · cases h

/-- Merged chunks quote what the two quoted. -/
theorem quotes_rewriteFor {older newer : ChunkBody} {r : Rewrite}
    (h : rewriteFor older newer = some r) (holder : Quotes texts older.description)
    (hnewer : Quotes texts newer.description) :
    r.Makes fun body => Quotes texts body.description := by
  unfold rewriteFor at h
  split at h
  · -- a formula before the deletion of its column
    split at h <;> cases h
    trivial
  · -- a change of type before the deletion of its column
    split at h <;> cases h
    trivial
  · next t id header index value reads u is hs =>
    -- an insertion and the deletion of the column
    split at h
    · simp only [withoutColumn, List.unzip_eq_map] at h
      split at h
      · cases h
        trivial
      · cases h
        rw [quotes_deleteColumns] at hnewer
        refine quotes_deleteColumns.mpr ⟨fun t ht => ?_, hnewer.2⟩
        obtain ⟨q, hq, rfl⟩ := List.mem_map.mp ht
        exact hnewer.1 q.2 (List.of_mem_zip (List.mem_filter.mp hq).1).2
    · cases h
  · -- an insertion and a formula for the column
    split at h <;> cases h
    exact holder
  · -- a formula before another one
    split at h <;> cases h
    trivial
  · -- two renamings of a column
    split at h
    · split at h <;> cases h
      · trivial
      · rw [quotes_renameColumn] at holder hnewer
        exact quotes_renameColumn.mpr ⟨⟨holder.1.1, hnewer.1.2⟩, holder.2⟩
    · cases h
  · -- two renamings of a sheet
    split at h
    · split at h <;> cases h
      · trivial
      · rw [quotes_renameSheet] at holder hnewer
        exact quotes_renameSheet.mpr ⟨holder.1, hnewer.2⟩
    · cases h
  · -- a renaming and the deletion of the sheet
    split at h
    · cases h
      exact quotes_deleteSheet.mpr (quotes_renameSheet.mp holder).1
    · exact makes_beforeDeletion h
  · exact makes_beforeDeletion h
  · cases h

/-- Shortened chunks quote what the chunks quoted. -/
theorem quotes_shorten (limit : Nat) {chunks : List Chunk}
    (h : ∀ c ∈ chunks, Quotes texts c.body.description) :
    ∀ c ∈ (shorten limit chunks).chunks, Quotes texts c.body.description :=
  forall_shorten limit (p := fun body => Quotes texts body.description) quotes_rewriteFor h

end Optimizer

end SheetScript
