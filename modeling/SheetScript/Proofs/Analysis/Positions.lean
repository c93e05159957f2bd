import SheetScript.Proofs.Analysis.Room

/-! # Positions of sheets

  Two translators that start over different numbers of sheets put the sheets that are
  created at different positions.  That does not show as long as nothing is known of the
  new sheets, since of a sheet of which nothing is known every header is its own id,
  whether there is such a sheet or not.  Only a copy of a sheet in which a header was
  renamed shows where it was put.

  - `Translator.translate_push` and its like: what an edit does to the meaning of headers,
    told without the list of sheets.
  - `Translator.Agree.observe_iff`: translators that agree do so after an edit, unless it
    copies a sheet with renamed headers and one of them holds fewer sheets.
-/

namespace SheetScript

namespace Translator

variable {t t₀ t' t₀' : Translator} {u : StoredEdit} {i j : Nat} {h : Header}

/-- What a header stands for by an entry. -/
def meaning (m : Dictionary Header ColumnId) (h : Header) : ColumnId :=
  (Dictionary.get? m h).getD ⟨h⟩

/-! ### What headers stand for after an edit -/

theorem translate_of_some {m : Dictionary Header ColumnId} (hi : t.sheets[i]? = some m)
    (h : Header) : t.translate i h = meaning m h := by
  unfold translate
  rw [hi]
  rfl

/-- In a sheet that is not held every header stands for itself. -/
theorem translate_of_le (hi : t.sheets.length ≤ i) (h : Header) : t.translate i h = ⟨h⟩ := by
  unfold translate
  rw [List.getElem?_eq_none hi]
  rfl

theorem lt_of_translate (hne : t.translate i h ≠ ⟨h⟩) : i < t.sheets.length :=
  Nat.lt_of_not_le fun hle => hne (translate_of_le hle h)

/-- Entries of which nothing is known change nothing. -/
theorem translate_append_empty (t : Translator) (n : Nat) :
    (⟨t.sheets ++ List.replicate n []⟩ : Translator).translate = t.translate := by
  funext i h
  rcases Nat.lt_or_ge i t.sheets.length with hlt | hle
  · unfold translate
    dsimp only
    rw [List.getElem?_append_left hlt]
  · rw [translate_of_le hle]
    unfold translate
    dsimp only
    rw [List.getElem?_append_right hle, List.getElem?_replicate]
    split <;> rfl

theorem translate_padded (t : Translator) (i : Nat) : (t.padded i).translate = t.translate :=
  translate_append_empty t _

/-- What a sheet tells of a header once there is room for it. -/
theorem meaning_padded (t : Translator) (i : Nat) (h : Header) :
    meaning ((t.padded i).sheets[i]?.getD []) h = t.translate i h := by
  have hlt : i < (t.padded i).sheets.length := by
    rw [length_padded]
    omega
  rw [← translate_padded t i, translate_of_some (List.getElem?_eq_getElem hlt),
    List.getElem?_eq_getElem hlt, Option.getD_some]

theorem translate_push (t : Translator) (m : Dictionary Header ColumnId) (j : Nat) (h : Header) :
    (t.push m).translate j h
      = if j = t.sheets.length then meaning m h else t.translate j h := by
  unfold push
  rcases Nat.lt_trichotomy j t.sheets.length with hlt | rfl | hlt
  · rw [if_neg (Nat.ne_of_lt hlt)]
    unfold translate
    dsimp only
    rw [List.getElem?_append_left hlt]
  · rw [if_pos rfl]
    refine translate_of_some ?_ h
    simp
  · rw [if_neg (Nat.ne_of_gt hlt), translate_of_le (Nat.le_of_lt hlt)]
    refine translate_of_le ?_ h
    rw [List.length_append, List.length_singleton]
    exact hlt

theorem translate_push_empty (t : Translator) : (t.push []).translate = t.translate :=
  translate_append_empty t 1

theorem translate_update (t : Translator) (i : Nat)
    (f : Dictionary Header ColumnId → Dictionary Header ColumnId) (j : Nat) (h : Header) :
    (t.update i f).translate j h
      = if j = i then meaning (f ((t.padded i).sheets[i]?.getD [])) h else t.translate j h := by
  have hlt : i < (t.padded i).sheets.length := by
    rw [length_padded]
    omega
  have hget : (t.update i f).sheets[j]?
      = (fun m => if i = j then f m else m) <$> (t.padded i).sheets[j]? := List.getElem?_modify ..
  by_cases hij : j = i
  · subst hij
    rw [if_pos rfl]
    refine translate_of_some ?_ h
    rw [hget, List.getElem?_eq_getElem hlt]
    simp
  · rw [if_neg hij, ← translate_padded t i]
    unfold translate
    rw [hget]
    cases (t.padded i).sheets[j]? <;> simp [Ne.symm hij]

theorem translate_renamed (t : Translator) (i : Nat) (header : Header) (id : ColumnId) (j : Nat)
    (h : Header) :
    (t.update i fun m => Dictionary.insert m header id).translate j h
      = if j = i then (if header = h then id else t.translate i h) else t.translate j h := by
  rw [translate_update, ← meaning_padded t i]
  unfold meaning
  rw [Dictionary.get?_insert]
  congr 1
  split <;> rfl

theorem translate_eraseIdx (t : Translator) (i j : Nat) (h : Header) :
    (⟨t.sheets.eraseIdx i⟩ : Translator).translate j h
      = t.translate (if j < i then j else j + 1) h := by
  unfold translate
  dsimp only
  rw [List.getElem?_eraseIdx]
  split <;> rfl

theorem translate_cleared (t : Translator) (j : Nat) (h : Header) :
    (⟨t.sheets.map fun _ => []⟩ : Translator).translate j h = ⟨h⟩ := by
  unfold translate
  dsimp only
  rw [List.getElem?_map]
  cases t.sheets[j]? <;> rfl

/-- A copy of a sheet stands at the end, and takes headers for what the sheet takes them. -/
theorem translate_copied (t : Translator) (i j : Nat) (h : Header) :
    ((t.padded i).push ((t.padded i).sheets[i]?.getD [])).translate j h
      = if j = max t.sheets.length (i + 1) then t.translate i h else t.translate j h := by
  rw [translate_push, length_padded, translate_padded, meaning_padded]

/-! ### Translators that agree -/

/-- The numbers of sheets of two translators stay in order. -/
theorem countAfter_mono {n m n' m' : Nat} (hle : m ≤ n) (hn : countAfter n u = .ok n')
    (hm : countAfter m u = .ok m') : m' ≤ n' := by
  unfold countAfter at hn hm
  cases hk : EditKind.ofName? u.kind with
  | none =>
    rw [hk] at hn hm
    obtain rfl := Except.ok.inj hn
    obtain rfl := Except.ok.inj hm
    exact hle
  | some k =>
    rw [hk] at hn hm
    dsimp only at hn hm
    -- both translators read the same places of the edit
    cases k with
    | renameColumn =>
      simp only [countKind, bind_eq_ok, pure_eq_ok] at hn hm
      obtain ⟨i, hi, -, -, -, -, rfl⟩ := hn
      obtain ⟨_, hi', -, -, -, -, rfl⟩ := hm
      obtain rfl := Except.ok.inj (hi.symm.trans hi')
      omega
    | duplicateSheet | deleteSheet =>
      simp only [countKind, bind_eq_ok, pure_eq_ok] at hn hm
      obtain ⟨i, hi, rfl⟩ := hn
      obtain ⟨_, hi', rfl⟩ := hm
      obtain rfl := Except.ok.inj (hi.symm.trans hi')
      first
        | omega
        | split <;> split <;> omega
    | merge =>
      simp only [countKind, bind_eq_ok, pure_eq_ok] at hn hm
      obtain ⟨one, hone, two, htwo, rfl⟩ := hn
      obtain ⟨_, hone', _, htwo', rfl⟩ := hm
      obtain rfl := Except.ok.inj (hone.symm.trans hone')
      obtain rfl := Except.ok.inj (htwo.symm.trans htwo')
      omega
    | pivot =>
      simp only [countKind] at hn hm
      cases hto : (u.params.field? "destination_sheet_index").bind Json.index? with
      | some i =>
        rw [hto] at hn hm
        obtain rfl := Except.ok.inj hn
        obtain rfl := Except.ok.inj hm
        omega
      | none =>
        simp only [hto, bind_eq_ok, pure_eq_ok] at hn hm
        obtain ⟨i, hi, rfl⟩ := hn
        obtain ⟨_, hi', rfl⟩ := hm
        obtain rfl := Except.ok.inj (hi.symm.trans hi')
        omega
    | _ =>
      obtain rfl := Except.ok.inj hn
      obtain rfl := Except.ok.inj hm
      omega

/-- Two translators take every header of every sheet for the same column; the second may
  hold fewer sheets. -/
structure Agree (t t₀ : Translator) : Prop where
  translate : t.translate = t₀.translate
  length_le : t₀.sheets.length ≤ t.sheets.length

end Translator

/-- An edit that copies a sheet in which some header stands for a column with another id. -/
def StoredEdit.CopiesRenamed (t : Translator) (u : StoredEdit) : Prop :=
  EditKind.ofName? u.kind = some .duplicateSheet
    ∧ ∃ i h, u.index? "sheet_index" = some i ∧ t.translate i h ≠ ⟨h⟩

namespace Translator

variable {t t₀ t' t₀' : Translator} {u : StoredEdit}

/-- At the beginning translators agree. -/
theorem Agree.start {m n : Nat} (hle : m ≤ n) : (ofCount n).Agree (ofCount m) where
  translate := by
    have hempty : ∀ n, (ofCount n).translate = (⟨[]⟩ : Translator).translate :=
      translate_append_empty ⟨[]⟩
    rw [hempty, hempty]
  length_le := by simpa [ofCount] using hle

/-- Two copies of a sheet are found at the same place, or the sheet has nothing to tell. -/
theorem Agree.copied_iff (ha : t.Agree t₀) (i : Nat) :
    ((t.padded i).push ((t.padded i).sheets[i]?.getD [])).translate
        = ((t₀.padded i).push ((t₀.padded i).sheets[i]?.getD [])).translate
      ↔ ¬ ((∃ h, t.translate i h ≠ ⟨h⟩) ∧ t₀.sheets.length < t.sheets.length) := by
  constructor
  · rintro heq ⟨⟨h, hne⟩, hlt⟩
    have hi : i < t₀.sheets.length := lt_of_translate (ha.translate ▸ hne)
    -- the sheet behind those of the first translator is the copy for that one only
    have hlast := congrFun (congrFun heq t.sheets.length) h
    rw [translate_copied, translate_copied, if_pos (by omega), if_neg (by omega),
      translate_of_le (Nat.le_of_lt hlt)] at hlast
    exact hne hlast
  · intro hnot
    funext j h
    rw [translate_copied, translate_copied, ← ha.translate]
    by_cases hplain : ∀ h, t.translate i h = ⟨h⟩
    · have hbehind : ∀ {l}, l = max t.sheets.length (i + 1) ∨ l = max t₀.sheets.length (i + 1) →
          t.translate l h = ⟨h⟩ := by
        rintro l (rfl | rfl)
        · exact translate_of_le (Nat.le_max_left _ _) h
        · rw [ha.translate]
          exact translate_of_le (Nat.le_max_left _ _) h
      have hsame : ∀ l, l = max t.sheets.length (i + 1) ∨ l = max t₀.sheets.length (i + 1) →
          (if j = l then t.translate i h else t.translate j h) = t.translate j h := by
        intro l hl
        split
        · next hj => rw [hplain, hj, hbehind hl]
        · rfl
      rw [hsame _ (.inl rfl), hsame _ (.inr rfl)]
    · have hlength : t₀.sheets.length = t.sheets.length := by
        have hle := ha.length_le
        have hnlt : ¬ t₀.sheets.length < t.sheets.length := fun hlt =>
          hnot ⟨not_forall.mp hplain, hlt⟩
        omega
      rw [hlength]

/-- Wherever an edit other than a copy puts a sheet, nothing is known of that sheet. -/
theorem Agree.observeKind {params : Json} {k : EditKind} (ha : t.Agree t₀)
    (hk : k ≠ .duplicateSheet) (h : t.observeKind params k = .ok t')
    (h₀ : t₀.observeKind params k = .ok t₀') : t'.translate = t₀'.translate := by
  cases k with
  | renameColumn =>
    simp only [Translator.observeKind, bind_eq_ok, pure_eq_ok] at h h₀
    obtain ⟨i, hi, id, hid, header, hheader, rfl⟩ := h
    obtain ⟨_, hi', _, hid', _, hheader', rfl⟩ := h₀
    obtain rfl := Except.ok.inj (hi.symm.trans hi')
    obtain rfl := Except.ok.inj (hid.symm.trans hid')
    obtain rfl := Except.ok.inj (hheader.symm.trans hheader')
    funext j h
    rw [translate_renamed, translate_renamed, ha.translate]
  | deleteSheet =>
    simp only [Translator.observeKind, bind_eq_ok, pure_eq_ok] at h h₀
    obtain ⟨i, hi, rfl⟩ := h
    obtain ⟨_, hi', rfl⟩ := h₀
    obtain rfl := Except.ok.inj (hi.symm.trans hi')
    funext j h
    rw [translate_eraseIdx, translate_eraseIdx, ha.translate]
  | importFiles =>
    obtain rfl := Except.ok.inj h
    obtain rfl := Except.ok.inj h₀
    rw [translate_append_empty, translate_append_empty, ha.translate]
  | merge =>
    simp only [Translator.observeKind, bind_eq_ok, pure_eq_ok] at h h₀
    obtain ⟨one, -, two, -, rfl⟩ := h
    obtain ⟨_, -, _, -, rfl⟩ := h₀
    rw [translate_push_empty, translate_push_empty, translate_padded, translate_padded,
      ha.translate]
  | pivot =>
    simp only [Translator.observeKind] at h h₀
    cases hto : (params.field? "destination_sheet_index").bind Json.index? with
    | some i =>
      rw [hto] at h h₀
      obtain rfl := Except.ok.inj h
      obtain rfl := Except.ok.inj h₀
      funext j h
      rw [translate_update, translate_update, ha.translate]
    | none =>
      simp only [hto, bind_eq_ok, pure_eq_ok] at h h₀
      obtain ⟨i, -, rfl⟩ := h
      obtain ⟨_, -, rfl⟩ := h₀
      rw [translate_push_empty, translate_push_empty, translate_padded, translate_padded,
        ha.translate]
  | restrictHeaders =>
    simp only [Translator.observeKind] at h h₀
    split at h
    · next heq =>
      rw [heq] at h₀
      obtain rfl := Except.ok.inj h
      obtain rfl := Except.ok.inj h₀
      funext j h
      rw [translate_cleared, translate_cleared]
    · next hne =>
      obtain rfl := Except.ok.inj h
      split at h₀
      · next heq => exact (hne heq).elim
      · obtain rfl := Except.ok.inj h₀
        exact ha.translate
  | duplicateSheet => exact absurd rfl hk
  | _ =>
    obtain rfl := Except.ok.inj h
    obtain rfl := Except.ok.inj h₀
    exact ha.translate

/-- Translators that agree do so after an edit, unless it copies a sheet with a renamed
  header and the second translator holds fewer sheets. -/
theorem Agree.observe_iff (ha : t.Agree t₀) (h : t.observe u = .ok t')
    (h₀ : t₀.observe u = .ok t₀') :
    t'.Agree t₀' ↔ ¬ (u.CopiesRenamed t ∧ t₀.sheets.length < t.sheets.length) := by
  have hlength : t₀'.sheets.length ≤ t'.sheets.length :=
    countAfter_mono ha.length_le (countAfter_of_observe h) (countAfter_of_observe h₀)
  have hiff : t'.Agree t₀' ↔ t'.translate = t₀'.translate :=
    ⟨Agree.translate, fun htranslate => ⟨htranslate, hlength⟩⟩
  rw [hiff]
  unfold StoredEdit.CopiesRenamed
  unfold observe at h h₀
  cases hk : EditKind.ofName? u.kind with
  | none =>
    rw [hk] at h h₀
    obtain rfl := Except.ok.inj h
    obtain rfl := Except.ok.inj h₀
    simp [ha.translate]
  | some k =>
    rw [hk] at h h₀
    dsimp only at h h₀
    by_cases hdup : k = .duplicateSheet
    · subst hdup
      simp only [Translator.observeKind, bind_eq_ok, pure_eq_ok] at h h₀
      obtain ⟨i, hi, rfl⟩ := h
      obtain ⟨_, hi', rfl⟩ := h₀
      obtain rfl := Except.ok.inj (hi.symm.trans hi')
      rw [ha.copied_iff i, StoredEdit.index?_of_need hi]
      simp
    · exact iff_of_true (ha.observeKind hdup h h₀) fun hcopies =>
        hdup (Option.some.inj hcopies.1.1)

end Translator

end SheetScript
