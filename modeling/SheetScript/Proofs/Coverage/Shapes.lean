import SheetScript.Proofs.Coverage.Basic
import SheetScript.Step

/-! # Covered changes

  `Change.Covered` says of an accepted edit that its code covers it: sheets that the
  code does not touch stay, columns that it does not write stay, and on a state that
  differs only in columns that it neither reads nor writes the edit does the same.  The
  last may need that no header is a pattern, so it is asked for under a condition.

  Edits come in few shapes: one leaves all frames as they are, one replaces a sheet,
  and one adds sheets.  For each shape the lemmas below leave to be shown what is
  particular to the edit.
-/

namespace SheetScript

/-! ### Sheets and states that agree in part -/

namespace Sheet

/-- The header belongs to a column that is spared. -/
def Freed (sh : Sheet) (spared : ColumnId → Prop) (h : Header) : Prop :=
  ∃ id, sh.columns.id? h = some id ∧ spared id

/-- The sheets agree, but for the cells of spared columns. -/
structure AlikeBut (spared : ColumnId → Prop) (sh sk : Sheet) : Prop where
  rest : sk = { sh with frame := sk.frame }
  frame : sh.frame.AlikeBut (sh.Freed spared) sk.frame

/-- The columns whose ids are kept are on the other sheet as well, with all their
  cells. -/
def Retains (sh : Sheet) (kept : ColumnId → Prop) (sk : Sheet) : Prop :=
  ∀ c ∈ sh.frame.columns, ∀ id, sh.columns.id? c.header = some id → kept id →
    c ∈ sk.frame.columns ∧ sk.columns.id? c.header = some id

namespace AlikeBut

variable {spared : ColumnId → Prop} {sh sk : Sheet} {id : ColumnId} {ids : List ColumnId}
  {c : Column} {h : Header}

theorem refl (spared : ColumnId → Prop) (sh : Sheet) : sh.AlikeBut spared sh := ⟨rfl, .refl _⟩

/-- Only the frame is another one. -/
theorem exists_frame (ha : sh.AlikeBut spared sk) :
    ∃ g, sk = { sh with frame := g } ∧ sh.frame.AlikeBut (sh.Freed spared) g :=
  ⟨sk.frame, ha.rest, ha.frame⟩

theorem of_frame {g : Frame} (hg : sh.frame.AlikeBut (sh.Freed spared) g) :
    sh.AlikeBut spared { sh with frame := g } :=
  ⟨rfl, hg⟩

/-- Sheets without spared columns are equal. -/
theorem eq (ha : sh.AlikeBut spared sk) (hnone : ∀ id, ¬ spared id) : sk = sh := by
  have hframe : sk.frame = sh.frame := ha.frame.eq fun k _ ⟨id, _, hid⟩ => hnone id hid
  rw [ha.rest, hframe]

end AlikeBut

variable {spared : ColumnId → Prop} {sh : Sheet} {id : ColumnId} {h : Header} {g : Frame}

/-- The header of a column that is not spared. -/
theorem Linked.not_freed (hs : sh.Linked) (hid : sh.columns.header? id = some h)
    (hnot : ¬ spared id) : ¬ sh.Freed spared h := by
  rintro ⟨i, hi, hspared⟩
  rw [hs.columns.back hid] at hi
  exact hnot (Option.some.inj hi ▸ hspared)

/-- A column that is not spared is the same in frames that agree. -/
theorem Linked.column_eq (hs : sh.Linked) (hg : sh.frame.AlikeBut (sh.Freed spared) g)
    (hnot : ¬ spared id) : Sheet.column { sh with frame := g } id = sh.column id := by
  show (sh.header id >>= g.column) = (sh.header id >>= sh.frame.column)
  cases hid : sh.header id with
  | error e => rfl
  | ok k => exact hg.column_eq (hs.not_freed (Sheet.header_eq_ok.mp hid) hnot)

/-- A column is there in frames that agree, if perhaps with other cells. -/
theorem column_alike {free : Header → Prop} (hg : sh.frame.AlikeBut free g) {c : Column}
    (hc : sh.column id = .ok c) :
    ∃ d, Sheet.column { sh with frame := g } id = .ok d ∧ c.AlikeBut free d := by
  simp only [Sheet.column, bind_eq_ok] at hc ⊢
  obtain ⟨k, hk, hc⟩ := hc
  obtain ⟨d, hd, hcd⟩ := hg.column hc
  exact ⟨d, ⟨k, hk, hd⟩, hcd⟩

/-- The type of a column is the same in frames that agree. -/
theorem dtype_eq {free : Header → Prop} (hg : sh.frame.AlikeBut free g) (id : ColumnId) :
    Sheet.dtype { sh with frame := g } id = sh.dtype id := by
  have hcolumn : ∀ k, (g.column k).map Column.dtype = (sh.frame.column k).map Column.dtype := by
    intro k
    unfold Frame.column
    rcases hg.column? k with ⟨hf, hnone⟩ | ⟨c, d, hc, hd, -, hcd⟩
    · rw [hf, hnone]
    · rw [hc, hd]
      exact congrArg Except.ok hcd.dtype
  show (sh.header id >>= fun k => (g.column k)) >>= _ = (sh.header id >>= _) >>= _
  cases sh.header id with
  | error e => rfl
  | ok k => exact hcolumn k

end Sheet

/-- The states agree, but for the cells of spared columns. -/
structure State.AlikeBut (spared : SheetId → ColumnId → Prop) (s t : State) : Prop where
  rest : t = { s with sheets := t.sheets }
  sheets : List.Forall₂ (fun sh sk => sh.AlikeBut (spared sh.id) sk) s.sheets t.sheets

namespace State.AlikeBut

variable {spared : SheetId → ColumnId → Prop} {s t : State} {i : Nat} {sh sk : Sheet}

theorem refl (spared : SheetId → ColumnId → Prop) (s : State) : s.AlikeBut spared s :=
  ⟨rfl, List.forall₂_same.mpr fun sh _ => .refl (spared sh.id) sh⟩

theorem names_eq (ha : s.AlikeBut spared t) : t.names = s.names :=
  map_eq_of_forall₂ ha.sheets fun _ _ hsh => by rw [hsh.rest]

theorem uniqueName_eq (ha : s.AlikeBut spared t) (base : String) :
    t.uniqueName base = s.uniqueName base := by
  unfold State.uniqueName
  rw [ha.names_eq]

theorem sheet (ha : s.AlikeBut spared t) (h : s.sheet i = .ok sh) :
    ∃ sk, t.sheet i = .ok sk ∧ sh.AlikeBut (spared sh.id) sk := by
  have hget : s.sheets[i]? = some sh := by
    unfold State.sheet at h
    split at h
    · next found hfound => rw [hfound, Except.ok.inj h]
    · cases h
  obtain ⟨hlt, rfl⟩ := List.getElem?_eq_some_iff.mp hget
  have hlt' : i < t.sheets.length := ha.sheets.length_eq ▸ hlt
  refine ⟨t.sheets[i], ?_, ha.sheets.get hlt hlt'⟩
  unfold State.sheet
  rw [List.getElem?_eq_getElem hlt']

/-- A sheet of which no column is spared is the same. -/
theorem sheet_eq (ha : s.AlikeBut spared t) (h : s.sheet i = .ok sh)
    (hnone : ∀ id, ¬ spared sh.id id) : t.sheet i = .ok sh := by
  obtain ⟨sk, hsk, halike⟩ := ha.sheet h
  rw [hsk, halike.eq hnone]

theorem replace (ha : s.AlikeBut spared t) (i : Nat) (hsh : sh.AlikeBut (spared sh.id) sk) :
    (s.replace i sh).AlikeBut spared (t.replace i sk) := by
  refine ⟨?_, ?_⟩
  · rw [ha.rest]
    rfl
  · show List.Forall₂ _ (s.sheets.set i sh) (t.sheets.set i sk)
    have hsheets := ha.sheets
    generalize s.sheets = ss at hsheets
    generalize t.sheets = ts at hsheets
    induction hsheets generalizing i with
    | nil => exact .nil
    | cons hfirst hrest ih =>
      cases i with
      | zero => exact .cons hsh hrest
      | succ i => exact .cons hfirst (ih i)

/-- The same sheets are added on both sides. -/
theorem append {next : State} (ha : s.AlikeBut spared t) (sheets : List Sheet)
    (hnext : next.sheets = s.sheets ++ sheets) :
    next.AlikeBut spared { next with sheets := t.sheets ++ sheets } := by
  refine ⟨rfl, ?_⟩
  rw [hnext]
  exact List.rel_append ha.sheets (List.forall₂_same.mpr fun sh _ => .refl _ sh)

end State.AlikeBut

/-! ### Changes -/

/-- What the code of an edit says in its footprint covers what the edit, here `run`,
  does to the state; what it reads counts only if `plain` holds. -/
structure Change.Covered (plain : Prop) (run : State → Except Fault Change) (s : State)
    (c : Change) : Prop where
  linked : c.state.Linked
  /-- Sheets that are not touched survive. -/
  untouched : ∀ sh ∈ s.sheets, ¬ Code.Touches c.code sh.id →
    ∃ sk ∈ c.state.sheets, sk.id = sh.id ∧ sk.name = sh.name ∧ sk.frame = sh.frame
  /-- On a touched sheet that survives, columns that are not written survive. -/
  unwritten : ∀ sh ∈ s.sheets, ∀ sk ∈ c.state.sheets, sk.id = sh.id →
    Code.Touches c.code sh.id → sh.Retains (Code.Leaves c.code sh.id) sk
  /-- Columns that are neither read nor written make no difference. -/
  determined : plain → ∀ t, s.AlikeBut (Code.Spares c.code) t →
    ∃ again, run t = .ok again ∧ again.code = c.code
      ∧ c.state.AlikeBut (Code.Spares c.code) again.state

namespace Change.Covered

variable {plain : Prop} {run : State → Except Fault Change} {s next : State} {c : Change}
  {i : Nat} {sheet after : Sheet} {b : ChunkBody}

theorem weaken {plain' : Prop} (h : c.Covered plain run s) (himp : plain' → plain) :
    c.Covered plain' run s :=
  ⟨h.linked, h.untouched, h.unwritten, fun hplain => h.determined (himp hplain)⟩

/-- Code that touches no sheet, and a state with the same frames. -/
theorem still {code : List ChunkBody} (hlinked : next.Linked)
    (htouch : ∀ t, ¬ Code.Touches code t)
    (hsame : ∀ sh ∈ s.sheets, ∃ sk ∈ next.sheets,
      sk.id = sh.id ∧ sk.name = sh.name ∧ sk.frame = sh.frame)
    (hagain : plain → ∀ t, s.AlikeBut (Code.Spares code) t → ∃ again, run t = .ok ⟨again, code⟩
      ∧ next.AlikeBut (Code.Spares code) again) :
    Covered plain run s ⟨next, code⟩ where
  linked := hlinked
  untouched := fun sh hsh _ => hsame sh hsh
  unwritten := fun sh _ _ _ _ ht => absurd ht (htouch sh.id)
  determined := by
    intro hplain t ht
    obtain ⟨again, hrun, halike⟩ := hagain hplain t ht
    exact ⟨_, hrun, rfl, halike⟩

/-- An edit that changes nothing and emits no code. -/
theorem none (hs : s.Linked)
    (hagain : ∀ t, s.AlikeBut (Code.Spares []) t → run t = .ok (.none t)) :
    Covered plain run s (.none s) :=
  still hs Code.not_touches_nil (fun sh hsh => ⟨sh, hsh, rfl, rfl, rfl⟩)
    fun _ t ht => ⟨t, hagain t ht, ht⟩

/-- A sheet is replaced by code that touches no other one. -/
theorem onSheet (hs : s.Linked) (hsheet : s.sheet i = .ok sheet) (hid : after.id = sheet.id)
    (hafter : after.Linked) (htouch : b.footprint.touched = [sheet.id])
    (hretains : sheet.Retains (b.footprint.Leaves sheet.id) after)
    (hagain : plain → ∀ t g, s.AlikeBut (Code.Spares [b]) t →
      t.sheet i = .ok { sheet with frame := g } →
      sheet.frame.AlikeBut (sheet.Freed (b.footprint.Spares sheet.id)) g →
      ∃ again, run t = .ok (.onSheet t i again [b])
        ∧ after.AlikeBut (b.footprint.Spares sheet.id) again) :
    Covered plain run s (.onSheet s i after [b]) where
  linked := hs.replace hsheet hid hafter
  untouched := by
    intro sh hsh hnot
    have hne : sh.id ≠ sheet.id := by simpa [Change.onSheet, htouch] using hnot
    exact ⟨sh, (hs.mem_replace hsheet).mpr (.inr ⟨hsh, hne⟩), rfl, rfl, rfl⟩
  unwritten := by
    intro sh hsh sk hsk hsame ht
    have he : sh.id = sheet.id := by simpa [Change.onSheet, htouch] using ht
    obtain rfl := hs.eq_of_id hsh (State.sheet_mem hsheet) he
    rcases (hs.mem_replace hsheet).mp hsk with rfl | ⟨-, hne⟩
    · intro col hcol id hcolid hleaves
      exact hretains col hcol id hcolid (Code.leaves_singleton.mp hleaves)
    · exact absurd hsame hne
  determined := by
    intro hplain t ht
    obtain ⟨sk, hsk, halike⟩ := ht.sheet hsheet
    have hspares : Code.Spares [b] sheet.id = b.footprint.Spares sheet.id :=
      funext fun id => propext Code.spares_singleton
    change sheet.AlikeBut (Code.Spares [b] sheet.id) sk at halike
    rw [hspares] at halike
    obtain ⟨g, rfl, hg⟩ := halike.exists_frame
    obtain ⟨again, hrun, hsame⟩ := hagain hplain t g ht hsk hg
    refine ⟨_, hrun, rfl, ht.replace i ?_⟩
    change after.AlikeBut (Code.Spares [b] after.id) again
    rw [hid, hspares]
    exact hsame

/-- A sheet is replaced by code that writes all of it: no column is spared. -/
theorem rewrite (hs : s.Linked) (hsheet : s.sheet i = .ok sheet) (hid : after.id = sheet.id)
    (hafter : after.Linked) (hwrites : b.footprint.effectiveWrites = [(sheet.id, .all)])
    (hagain : plain → ∀ t, s.AlikeBut (Code.Spares [b]) t → t.sheet i = .ok sheet →
      run t = .ok (.onSheet t i after [b])) :
    Covered plain run s (.onSheet s i after [b]) := by
  have hall : (sheet.id, ColumnSet.all) ∈ b.footprint.effectiveWrites := by simp [hwrites]
  refine onSheet hs hsheet hid hafter ?_ ?_ ?_
  · simp [Footprint.touched, hwrites]
  · intro c _ id _ hleaves
    exact absurd hall hleaves.not_all
  · intro hplain t g ht hsk hg
    have hsame := (Sheet.AlikeBut.of_frame hg).eq fun id hspares => hspares.not_all (.inr hall)
    exact ⟨after, hagain hplain t ht (hsame ▸ hsk), .refl _ _⟩

/-- Sheets are added by code that touches none of those before. -/
theorem added {sheets : List Sheet} (hlinked : next.Linked)
    (hnext : next.sheets = s.sheets ++ sheets)
    (htouch : ∀ sh ∈ s.sheets, sh.id ∉ b.footprint.touched)
    (hagain : plain → ∀ t, s.AlikeBut (Code.Spares [b]) t →
      run t = .ok ⟨{ next with sheets := t.sheets ++ sheets }, [b]⟩) :
    Covered plain run s ⟨next, [b]⟩ where
  linked := hlinked
  untouched := by
    intro sh hsh _
    refine ⟨sh, ?_, rfl, rfl, rfl⟩
    rw [hnext]
    exact List.mem_append_left _ hsh
  unwritten := fun sh hsh _ _ _ ht => absurd (Code.touches_singleton.mp ht) (htouch sh hsh)
  determined := fun hplain t ht => ⟨_, hagain hplain t ht, rfl, ht.append sheets hnext⟩

end Change.Covered

end SheetScript
