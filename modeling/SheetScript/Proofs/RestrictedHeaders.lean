import SheetScript.Proofs.Formula.Respelling
import SheetScript.Proofs.LegacyImports

/-! # Formulas over restricted headers

  When the headers of a sheet are restricted, the frame gets all new headers at once.  Formulas
  follow one renaming after the other, and the columns get their ids anew on the way.  Both come
  to the same, since no renaming is about a header that an earlier one gave.

  - `RestrictHeaders.Successive`: renamings that can be carried out one after the other.
  - `RestrictHeaders.parse_followed`: what a formula is after all of them.
  - Main statement: `RestrictHeaders.run_restricts`.
-/

namespace SheetScript

open Formula (retitle mapColumns mapAllColumns renameReferences)
open Naming (legacyHeader)

namespace Formula

mutual

theorem mapColumns_id (e : Formula) : mapColumns (fun h => h) e = e := by
  cases e with
  | number _ | text _ | bool _ | column _ => rfl
  | negate e => rw [mapColumns, mapColumns_id e]
  | binary o l r => rw [mapColumns, mapColumns_id l, mapColumns_id r]
  | call g args => rw [mapColumns, mapAllColumns_id args]

theorem mapAllColumns_id (args : List Formula) : mapAllColumns (fun h => h) args = args := by
  cases args with
  | nil => rfl
  | cons e rest => rw [mapAllColumns, mapColumns_id e, mapAllColumns_id rest]

end

mutual

theorem mapColumns_mapColumns (f g : Header → Header) (e : Formula) :
    mapColumns f (mapColumns g e) = mapColumns (fun h => f (g h)) e := by
  cases e with
  | number _ | text _ | bool _ | column _ => rfl
  | negate e => simp only [mapColumns, mapColumns_mapColumns f g e]
  | binary o l r => simp only [mapColumns, mapColumns_mapColumns f g l, mapColumns_mapColumns f g r]
  | call h args => simp only [mapColumns, mapAllColumns_mapAllColumns f g args]

theorem mapAllColumns_mapAllColumns (f g : Header → Header) (args : List Formula) :
    mapAllColumns f (mapAllColumns g args) = mapAllColumns (fun h => f (g h)) args := by
  cases args with
  | nil => rfl
  | cons e rest =>
    simp only [mapAllColumns, mapColumns_mapColumns f g e, mapAllColumns_mapAllColumns f g rest]

end

end Formula

namespace RestrictHeaders

variable {headers hs taken rest : List Header} {rs : List Renaming} {r : Renaming} {h k : Header}
  {labels : Labels}

/-! ### Renamings one after the other -/

/-- Renamings that can be carried out one after the other: each one gives a header in use a
  free name, and no later one is about that name. -/
inductive Successive : List Header → List Renaming → Prop where
  | nil (headers : List Header) : Successive headers []
  | cons {headers : List Header} {r : Renaming} {rs : List Renaming} (hold : r.1 ∈ headers)
      (hnew : r.2 ∉ headers) (hfinal : ∀ q ∈ rs, q.1 ≠ r.2)
      (hrest : Successive (headers.map (retitle r.1 r.2)) rs) : Successive headers (r :: rs)

theorem mem_map_retitle {old new : Header} (hold : old ∈ headers) :
    k ∈ headers.map (retitle old new) ↔ k ∈ new :: headers.filter fun t => t ≠ old := by
  simp only [List.mem_map, List.mem_cons, List.mem_filter, decide_eq_true_eq]
  constructor
  · rintro ⟨j, hj, rfl⟩
    by_cases hne : j = old
    · exact .inl (if_pos hne)
    · rw [Formula.retitle_of_ne hne]
      exact .inr ⟨hj, hne⟩
  · rintro (rfl | ⟨hk, hne⟩)
    · exact ⟨old, hold, if_pos rfl⟩
    · exact ⟨k, hk, Formula.retitle_of_ne hne⟩

/-- A header is only ever given a restricted name, and restricted ones are not renamed. -/
theorem successive_renamings (hmem : ∀ k, k ∈ hs ↔ k ∈ taken) (hnd : rest.Nodup)
    (hin : ∀ k ∈ rest, k ∈ taken) : Successive hs (renamings taken rest) := by
  -- `taken` has a new header in front and `hs` has it in place; the members are the same
  induction rest generalizing hs taken with
  | nil => exact .nil hs
  | cons first rest ih =>
    obtain ⟨hnot, hnd⟩ := List.nodup_cons.mp hnd
    obtain ⟨hfirst, hin⟩ := List.forall_mem_cons.mp hin
    rw [renamings]
    split
    · exact ih hmem hnd hin
    · next hother =>
      have hfree := Naming.firstFree_not_mem (taken.filter fun t => t ≠ first) (legacyHeader first)
      have hlegal := Naming.legacyHeader_firstFree (taken.filter fun t => t ≠ first) first
      dsimp only
      generalize Naming.firstFree (taken.filter fun t => t ≠ first) (legacyHeader first) = new
        at hfree hlegal ⊢
      have hne : new ≠ first := fun he => hother (he ▸ hlegal)
      refine .cons ((hmem first).mpr hfirst) (fun hnew => hfree ?_) (fun q hq he => ?_)
        (ih (fun k => ?_) hnd fun k hk => ?_)
      · exact List.mem_filter.mpr ⟨(hmem new).mp hnew, decide_eq_true hne⟩
      · exact legacyHeader_ne_of_mem_renamings hq (he ▸ hlegal)
      · rw [mem_map_retitle ((hmem first).mpr hfirst)]
        simp only [List.mem_cons, List.mem_filter, hmem]
      · have hkf : k ≠ first := fun he => hnot (he ▸ hk)
        exact List.mem_cons_of_mem _ (List.mem_filter.mpr ⟨hin k hk, decide_eq_true hkf⟩)

theorem renamed_nil : renamed [] = fun h => h := rfl

/-- All renamings at once are the first one and then the others. -/
theorem renamed_retitle (hfinal : ∀ q ∈ rs, q.1 ≠ r.2) (h : Header) :
    renamed rs (retitle r.1 r.2 h) = renamed (r :: rs) h := by
  rw [renamed_cons]
  by_cases he : h = r.1
  · rw [retitle, if_pos he, if_pos he.symm, renamed_of_not_mem hfinal]
  · rw [Formula.retitle_of_ne he, if_neg (Ne.symm he)]

theorem map_renamed_retitle (hfinal : ∀ q ∈ rs, q.1 ≠ r.2) (headers : List Header) :
    (headers.map (retitle r.1 r.2)).map (renamed rs) = headers.map (renamed (r :: rs)) := by
  rw [List.map_map]
  exact List.map_congr_left fun h _ => renamed_retitle hfinal h

/-! ### Formulas -/

/-- The text of a formula after all renamings. -/
def followed (rs : List Renaming) (text : String) : String :=
  rs.foldl (fun text r => renameReferences text r.1 r.2) text

/-- A formula can tell the header from what is quoted and from the truth values. -/
structure Nameable (h : Header) : Prop where
  noQuote : '`' ∉ h.toList
  notTrue : Function.capitals h ≠ "TRUE"
  notFalse : Function.capitals h ≠ "FALSE"

/-- A text with an underscore is no truth value. -/
theorem nameable_of_underscore (hquote : '`' ∉ h.toList) (hunderscore : '_' ∈ h.toList) :
    Nameable h := by
  have hcapitals : '_' ∈ (Function.capitals h).toList := by
    rw [Function.capitals, String.toList_ofList]
    exact List.mem_map.mpr ⟨'_', hunderscore, rfl⟩
  refine ⟨hquote, fun htrue => ?_, fun hfalse => ?_⟩
  · rw [htrue] at hcapitals
    exact absurd hcapitals (by decide)
  · rw [hfalse] at hcapitals
    exact absurd hcapitals (by decide)

theorem exists_firstFree_of_mem_renamings (hr : r ∈ renamings taken rest) :
    ∃ others, r.2 = Naming.firstFree others (legacyHeader r.1) := by
  induction rest generalizing taken with
  | nil => cases hr
  | cons first rest ih =>
    rw [renamings] at hr
    split at hr
    · exact ih hr
    · rcases List.mem_cons.mp hr with rfl | hr
      · exact ⟨_, rfl⟩
      · exact ih hr

theorem nameable_of_mem_renamings (hr : r ∈ renamings taken rest) : Nameable r.2 := by
  obtain ⟨others, hnew⟩ := exists_firstFree_of_mem_renamings hr
  have hunderscore : '_' ∈ (legacyHeader r.1).toList :=
    Naming.underscore_mem_legacyHeader (legacyHeader_ne_of_mem_renamings hr)
  apply nameable_of_underscore
  · have hlegal := Naming.legacyHeader_firstFree others r.1
    rw [← hnew] at hlegal
    obtain ⟨c, more, heq, -, hall⟩ := Naming.exists_legacyHeader r.2
    rw [hlegal] at heq
    rw [heq, String.toList_ofList]
    exact fun hquote => absurd (hall _ hquote) (by decide)
  · rcases Naming.firstFree_cases others (legacyHeader r.1) with hsame | ⟨n, hnumbered⟩
    · rwa [hnew, hsame]
    · rw [hnew, hnumbered, Naming.numbered, String.toList_append, String.toList_append]
      exact List.mem_append_left _ (List.mem_append_left _ hunderscore)

/-- A formula that is read over the headers is read over the new ones as itself, with all
  headers renamed in it. -/
theorem parse_followed (hrs : Successive headers rs) (hnew : ∀ r ∈ rs, Nameable r.2)
    {text : String} {e : Formula} (he : Formula.parse text headers = .ok e) :
    Formula.parse (followed rs text) (headers.map (renamed rs))
      = .ok (mapColumns (renamed rs) e) := by
  induction hrs generalizing text e with
  | nil headers =>
    rw [renamed_nil, List.map_id', Formula.mapColumns_id]
    exact he
  | @cons headers r rs hold _ hfinal _ ih =>
    obtain ⟨hname, hnew⟩ := List.forall_mem_cons.mp hnew
    have hnext := ih hnew
      (Formula.parse_respelled he hold hname.noQuote hname.notTrue hname.notFalse)
    rw [map_renamed_retitle hfinal, Formula.mapColumns_mapColumns] at hnext
    rw [funext (renamed_retitle hfinal)] at hnext
    exact hnext

/-! ### Formulas and their columns -/

/-- The formula of the column under a header. -/
def formulaUnder (labels : Labels) (h : Header) : Option String :=
  (labels.1.id? h).bind (Dictionary.get? labels.2)

/-- The id that a column gets when its header is renamed. -/
def freshFor (labels : Labels) (r : Renaming) : ColumnId :=
  (labels.1.remove (labels.1.columnOf r.1)).2.freshId r.2

theorem relabel_columns (hsound : labels.1.Sound headers) (hold : r.1 ∈ headers) :
    (relabel labels r).1 = labels.1.rekeyed (labels.1.columnOf r.1) r.2 := by
  have hid := hsound.id?_eq hold
  rw [relabel_fst, hid]
  exact congrArg Prod.snd (ColumnIds.rekey_eq (hsound.inverse.mpr hid) r.2)

theorem sound_relabel (hsound : labels.1.Sound headers) (hold : r.1 ∈ headers)
    (hnew : r.2 ∉ headers) :
    (relabel labels r).1.Sound (headers.map (retitle r.1 r.2)) := by
  have hheader := hsound.inverse.mpr (hsound.id?_eq hold)
  rw [relabel_columns hsound hold]
  refine ((hsound.remove hheader).insert fun hmem => ?_).congr fun k => mem_map_retitle hold
  exact hnew (List.mem_of_mem_filter hmem)

/-- The formula of the renamed column stands under the fresh id, and all formulas follow. -/
theorem get?_relabel (hsound : labels.1.Sound headers) (hold : r.1 ∈ headers) (i : ColumnId) :
    Dictionary.get? (relabel labels r).2 i
      = (if freshFor labels r = i then
          (formulaUnder labels r.1).or (Dictionary.get? labels.2 (freshFor labels r))
        else if labels.1.columnOf r.1 = i then none
        else Dictionary.get? labels.2 i).map fun f => renameReferences f r.1 r.2 := by
  obtain ⟨columns, formulas⟩ := labels
  have hid := hsound.id?_eq hold
  have hheader := hsound.inverse.mpr hid
  unfold relabel formulaUnder freshFor
  simp only [hid, ColumnIds.rekey_eq hheader, Option.bind_some]
  cases hformula : Dictionary.get? formulas (columns.columnOf r.1) with
  | none =>
    refine (Dictionary.get?_map fun f => renameReferences f r.1 r.2).trans ?_
    dsimp only
    rw [Option.none_or]
    split
    · next hi => rw [hi]
    · split
      · next hi => rw [← hi, hformula]
      · rfl
  | some f =>
    refine (Dictionary.get?_map fun f => renameReferences f r.1 r.2).trans ?_
    dsimp only
    rw [Option.some_or, Dictionary.get?_insert, Dictionary.get?_erase]
    rfl

/-- The fresh id is that of no column. -/
theorem freshFor_not_issued (labels : Labels) (r : Renaming) :
    freshFor labels r ∉ labels.1.issued := by
  have hfresh := ColumnIds.freshId_not_issued (labels.1.remove (labels.1.columnOf r.1)).2 r.2
  rwa [ColumnIds.issued_remove] at hfresh

/-- The formula of a column follows a renaming.  A column that is renamed would also get a
  formula that stood under its fresh id. -/
theorem formulaUnder_relabel (hsound : labels.1.Sound headers) (hold : r.1 ∈ headers)
    (hnew : r.2 ∉ headers) (hk : k ∈ headers) :
    formulaUnder (relabel labels r) (retitle r.1 r.2 k)
      = ((formulaUnder labels k).or (if k = r.1 then
          Dictionary.get? labels.2 (freshFor labels r) else none)).map
        fun f => renameReferences f r.1 r.2 := by
  have hheader := hsound.inverse.mpr (hsound.id?_eq hold)
  rw [formulaUnder, relabel_columns hsound hold]
  -- only the renamed column gets another id
  by_cases he : k = r.1
  · subst he
    have hid : (labels.1.rekeyed (labels.1.columnOf r.1) r.2).id? r.2
        = some (freshFor labels r) := by
      rw [ColumnIds.rekeyed, ColumnIds.id?_insert, if_pos rfl]
      rfl
    rw [retitle, if_pos rfl, if_pos rfl, hid, Option.bind_some, get?_relabel hsound hold,
      if_pos rfl]
  · have hne : r.2 ≠ k := fun heq => hnew (heq ▸ hk)
    have hid := hsound.id?_eq hk
    have hissued := hsound.issued (hsound.inverse.mpr hid)
    have hfresh : freshFor labels r ≠ labels.1.columnOf k := fun heq =>
      freshFor_not_issued labels r (heq ▸ hissued)
    have hother : labels.1.columnOf r.1 ≠ labels.1.columnOf k := fun heq =>
      he (hsound.columnOf_injective hold hk heq).symm
    rw [Formula.retitle_of_ne he, ColumnIds.id?_rekeyed hheader hne, if_neg (Ne.symm he), hid,
      Option.bind_some, get?_relabel hsound hold, if_neg hfresh, if_neg hother, if_neg he,
      Option.or_none, formulaUnder, hid, Option.bind_some]

/-- All renamings keep ids and headers in step, and the formula of a column stays with it. -/
theorem relabelAll_sound (hrs : Successive headers rs) (hsound : labels.1.Sound headers) :
    (rs.foldl relabel labels).1.Sound (headers.map (renamed rs))
      ∧ ∀ k ∈ headers, ∀ text, formulaUnder labels k = some text →
        formulaUnder (rs.foldl relabel labels) (renamed rs k) = some (followed rs text) := by
  induction hrs generalizing labels with
  | nil headers =>
    rw [renamed_nil, List.map_id']
    exact ⟨hsound, fun k _ text htext => htext⟩
  | @cons headers r rs hold hnew hfinal _ ih =>
    obtain ⟨hafter, hformulas⟩ := ih (sound_relabel hsound hold hnew)
    rw [map_renamed_retitle hfinal] at hafter
    refine ⟨hafter, fun k hk text htext => ?_⟩
    rw [← renamed_retitle hfinal]
    refine hformulas _ (List.mem_map_of_mem hk) _ ?_
    rw [formulaUnder_relabel hsound hold hnew hk, htext]
    rfl

/-- A column without a formula gets none, where only columns have formulas. -/
theorem relabelAll_none (hrs : Successive headers rs) (hkept : Kept labels headers)
    (hk : k ∈ headers) (hnone : formulaUnder labels k = none) :
    formulaUnder (rs.foldl relabel labels) (renamed rs k) = none := by
  induction hrs generalizing labels k with
  | nil headers => exact hnone
  | @cons headers r rs hold hnew hfinal _ ih =>
    have hrelabel := hkept.relabel hold fun hmem => hnew (List.mem_of_mem_filter hmem)
    have hnext : Kept (relabel labels r) (headers.map (retitle r.1 r.2)) :=
      ⟨sound_relabel hkept.columns hold hnew, hrelabel.formulas⟩
    rw [← renamed_retitle hfinal]
    refine ih hnext (List.mem_map_of_mem hk) ?_
    -- a formula under the fresh id would belong to no column
    have hstray : Dictionary.get? labels.2 (freshFor labels r) = none := by
      rw [Dictionary.get?_eq_none_iff]
      intro hmem
      obtain ⟨_, hlive⟩ := ColumnIds.contains_iff.mp (hkept.formulas _ hmem)
      exact freshFor_not_issued labels r (hkept.columns.issued hlive)
    rw [formulaUnder_relabel hkept.columns hold hnew hk, hnone, hstray, ite_self]
    rfl

/-! ### Ids that are reset -/

theorem id?_ofHeaders (hnd : headers.Nodup) (hk : k ∈ headers) :
    (ColumnIds.ofHeaders headers).id? k = some ⟨k⟩ := by
  have hsound := ColumnIds.Sound.ofHeaders hnd
  have hid := hsound.id?_eq hk
  rw [hid, ColumnIds.id?_ofHeaders hnd hid]

/-- The text of a formula stays when ids are reset; an empty one is not kept. -/
theorem formulaUnder_reset (hnd : headers.Nodup) (labels : Labels) (hk : k ∈ headers) :
    (formulaUnder (reset headers labels) k).getD "" = (formulaUnder labels k).getD "" := by
  let text (h : Header) : String := (formulaUnder labels h).getD ""
  have hbindings : (headers.filterMap fun h => if text h = "" then none
        else ((ColumnIds.ofHeaders headers).id? h).map fun id => (id, text h))
      = (headers.filter fun h => text h ≠ "").map fun h => (⟨h⟩, text h) := by
    rw [← List.filterMap_eq_filter, List.map_filterMap]
    refine List.filterMap_congr fun h hh => ?_
    rw [id?_ofHeaders hnd hh]
    by_cases hempty : text h = "" <;> simp [Option.guard, hempty]
  have hdiffer : ((headers.filter fun h => text h ≠ "").map ColumnId.mk).Nodup :=
    (hnd.filter _).map fun _ _ heq => ColumnId.mk.inj heq
  have hget : formulaUnder (reset headers labels) k
      = ((headers.filter fun h => text h ≠ "").find? fun h => ColumnId.mk h = ⟨k⟩).map text := by
    have hid : (reset headers labels).1.id? k = some ⟨k⟩ := id?_ofHeaders hnd hk
    have hformulas : (reset headers labels).2
        = Dictionary.ofList ((headers.filter fun h => text h ≠ "").map fun h => (⟨h⟩, text h)) :=
      congrArg Dictionary.ofList hbindings
    rw [formulaUnder, hid, Option.bind_some, hformulas, Dictionary.get?_ofList_map text hdiffer]
  rw [hget]
  cases hfind : (headers.filter fun h => text h ≠ "").find? fun h => ColumnId.mk h = ⟨k⟩ with
  | some h =>
    have heq : ColumnId.mk h = ⟨k⟩ := by simpa using List.find?_some hfind
    rw [ColumnId.mk.inj heq]
    rfl
  | none =>
    -- a header that is not found has no formula, or an empty one
    by_contra hne
    have hmem : k ∈ headers.filter fun h => text h ≠ "" :=
      List.mem_filter.mpr ⟨hk, decide_eq_true fun hempty => hne hempty.symm⟩
    simpa using List.find?_eq_none.mp hfind k hmem

/-! ### Sheets -/

/-- The header is made of letters, digits and underscores only, and does not start with a
  digit. -/
def HasOldForm (h : Header) : Prop :=
  (∀ c ∈ h.toList, Naming.isNamePart c = true) ∧ ∀ c ∈ h.toList.head?, c.isDigit = false

theorem hasOldForm_of_legacy (hlegal : legacyHeader h = h) : h ≠ "" ∧ HasOldForm h := by
  obtain ⟨c, rest, heq, hdigit, hall⟩ := Naming.exists_legacyHeader h
  rw [hlegal] at heq
  subst heq
  refine ⟨fun hempty => ?_, ?_, ?_⟩
  · simpa using congrArg String.toList hempty
  · rwa [String.toList_ofList]
  · rw [String.toList_ofList]
    exact fun d hd => Option.some.inj hd ▸ hdigit

theorem legacy_of_hasOldForm (hne : h ≠ "") (hform : HasOldForm h) : legacyHeader h = h := by
  obtain ⟨hall, hdigit⟩ := hform
  cases hchars : h.toList with
  | nil => exact absurd (String.toList_eq_nil_iff.mp hchars) hne
  | cons c rest =>
    rw [hchars] at hall hdigit
    rw [← String.ofList_toList (s := h), hchars]
    exact Naming.legacyHeader_ofList (hdigit c rfl) hall

/-- A header that is no old one any more is not renamed. -/
theorem renamed_of_legacy (hlegal : legacyHeader h = h) : renamed (renamings taken rest) h = h :=
  renamed_of_not_mem fun _ hr heq =>
    legacyHeader_ne_of_mem_renamings hr (heq ▸ hlegal)

/-- Every header is restricted in the end. -/
theorem legacy_renamed (hh : h ∈ rest) :
    legacyHeader (renamed (renamings taken rest) h) = renamed (renamings taken rest) h := by
  induction rest generalizing taken with
  | nil => cases hh
  | cons first rest ih =>
    rw [renamings]
    split
    · next hsame =>
      rcases List.mem_cons.mp hh with rfl | hh
      · rw [renamed_of_legacy hsame, hsame]
      · exact ih hh
    · dsimp only
      rw [renamed_cons]
      split
      · exact Naming.legacyHeader_firstFree _ _
      · next hne => exact ih ((List.mem_cons.mp hh).resolve_left fun he => hne he.symm)

/-- What the edit makes of a sheet whose ids and headers are in step. -/
structure Restricts (e : RestrictHeaders) (before after : Sheet) : Prop where
  /-- Columns and cells stay where they are; only headers, ids and formulas change. -/
  frame : after.frame = { before.frame with
    columns := before.frame.columns.map fun c =>
      { c with header := renamed (renamings before.headers before.headers) c.header } }
  unchanged : after = { before with
    frame := after.frame, columns := after.columns, formulas := after.formulas }
  distinct : after.headers.Nodup
  form : ∀ h ∈ after.headers, h ≠ "" ∧ HasOldForm h
  kept : ∀ h ∈ before.headers, h ≠ "" → HasOldForm h →
    renamed (renamings before.headers before.headers) h = h
  columns : after.columns.Sound after.headers
  native : e.resetsIds = true → ∀ h ∈ after.headers, after.columns.id? h = some ⟨h⟩
  /-- A formula stays with its column. -/
  formula : ∀ h ∈ before.headers, ∀ id text, before.columns.id? h = some id →
    Dictionary.get? before.formulas id = some text →
    ∃ i, after.columns.id? (renamed (renamings before.headers before.headers) h) = some i
      ∧ after.formula i = followed (renamings before.headers before.headers) text
  /-- It is read over the new headers as itself, with all headers renamed in it. -/
  parsed : ∀ text f, Formula.parse text before.headers = .ok f →
    Formula.parse (followed (renamings before.headers before.headers) text) after.headers
      = .ok (mapColumns (renamed (renamings before.headers before.headers)) f)
  /-- No other column gets a formula, if only columns had one. -/
  none : (∀ id ∈ Dictionary.keys before.formulas, before.columns.contains id = true) →
    ∀ h ∈ before.headers, ∀ id, before.columns.id? h = some id →
      Dictionary.get? before.formulas id = .none →
      ∃ i, after.columns.id? (renamed (renamings before.headers before.headers) h) = some i
        ∧ after.formula i = ""

variable {sheet after : Sheet} {frame : Frame} {e : RestrictHeaders}

theorem Restricts.headers_eq (h : e.Restricts sheet after) :
    after.headers = sheet.headers.map (renamed (renamings sheet.headers sheet.headers)) := by
  have hheaders := congrArg Frame.headers h.frame
  simpa [Frame.headers, Sheet.headers, Function.comp_def] using hheaders

/-- A sheet whose labels followed the renamings, with ids reset or not. -/
theorem restricts_labels (hnd : sheet.headers.Nodup) (hsound : sheet.columns.Sound sheet.headers)
    (hrs : rs = renamings sheet.headers sheet.headers)
    (hframe : sheet.frame.withHeaders (sheet.headers.map (renamed rs)) = .ok frame)
    (hlabels : labels = rs.foldl relabel (sheet.columns, sheet.formulas)) :
    let final := if e.resetsIds then reset frame.headers labels else labels
    e.Restricts sheet { sheet.withData frame final.1 with formulas := final.2 } := by
  intro final
  obtain ⟨hheaders, hdistinct, -⟩ := Frame.headers_withHeaders hframe
  have hframend : frame.headers.Nodup := hheaders ▸ hdistinct
  have hsuccessive : Successive sheet.headers rs :=
    hrs ▸ successive_renamings (fun _ => Iff.rfl) hnd fun _ hk => hk
  obtain ⟨hafter, hformulas⟩ := relabelAll_sound hsuccessive
    (show (sheet.columns, sheet.formulas).1.Sound sheet.headers from hsound)
  rw [← hheaders, ← hlabels] at hafter
  rw [← hlabels] at hformulas
  have hfinal : final.1.Sound frame.headers := by
    unfold final
    split
    · exact ColumnIds.Sound.ofHeaders hframend
    · exact hafter
  have htexts : ∀ k ∈ frame.headers,
      (formulaUnder final k).getD "" = (formulaUnder labels k).getD "" := by
    intro k hk
    unfold final
    split
    · exact formulaUnder_reset hframend labels hk
    · rfl
  have hin : ∀ h ∈ sheet.headers, renamed rs h ∈ frame.headers := by
    intro h hh
    rw [hheaders]
    exact List.mem_map_of_mem hh
  -- what is found under a header stands under the id of its column
  have hunder : ∀ h ∈ sheet.headers, ∃ i, final.1.id? (renamed rs h) = some i
      ∧ (Dictionary.get? final.2 i).getD "" = (formulaUnder labels (renamed rs h)).getD "" := by
    intro h hh
    have hid := hfinal.id?_eq (hin h hh)
    refine ⟨_, hid, ?_⟩
    rw [← htexts _ (hin h hh), formulaUnder, hid]
    rfl
  subst hrs
  refine
    { frame := Frame.eq_of_withHeaders_map hframe
      unchanged := rfl
      distinct := hframend
      form := ?form
      kept := fun h _ hne hform => renamed_of_legacy (legacy_of_hasOldForm hne hform)
      columns := hfinal
      native := ?native
      formula := ?formula
      parsed := ?parsed
      none := ?none }
  case form =>
    intro k hk
    have hk : k ∈ frame.headers := hk
    rw [hheaders] at hk
    obtain ⟨h, hh, rfl⟩ := List.mem_map.mp hk
    exact hasOldForm_of_legacy (legacy_renamed hh)
  case native =>
    intro hresets k hk
    have heq : final = reset frame.headers labels := if_pos hresets
    show final.1.id? k = some ⟨k⟩
    rw [heq]
    exact id?_ofHeaders hframend hk
  case formula =>
    intro h hh id text hid htext
    obtain ⟨i, hi, hformula⟩ := hunder h hh
    refine ⟨i, hi, hformula.trans ?_⟩
    rw [hformulas h hh text]
    · rfl
    · rw [formulaUnder, hid]
      exact htext
  case parsed =>
    intro text f hf
    show Formula.parse _ frame.headers = _
    rw [hheaders]
    exact parse_followed hsuccessive (fun r hr => nameable_of_mem_renamings hr) hf
  case none =>
    intro hlive h hh id hid hnone
    obtain ⟨i, hi, hformula⟩ := hunder h hh
    refine ⟨i, hi, hformula.trans ?_⟩
    have hkept : Kept (sheet.columns, sheet.formulas) sheet.headers := ⟨hsound, hlive⟩
    rw [hlabels, relabelAll_none hsuccessive hkept hh]
    · rfl
    · rw [formulaUnder, hid]
      exact hnone

/-- The headers of a sheet can always be restricted. -/
theorem sheetAfter_restricts (e : RestrictHeaders) (hnd : sheet.headers.Nodup)
    (hsound : sheet.columns.Sound sheet.headers) :
    ∃ r, e.sheetAfter sheet = .ok r ∧ e.Restricts sheet r.1 := by
  obtain ⟨frame, hframe⟩ := Frame.withHeaders_of_nodup (f := sheet.frame)
    ((List.length_map (renamed (renamings sheet.headers sheet.headers))).trans rfl)
    (nodup_renamed hnd)
  have hafter := restricts_labels (e := e) hnd hsound rfl hframe rfl
  unfold sheetAfter
  dsimp only
  split
  · next hstop =>
    -- without renamings, and with ids as they are, the sheet is what the labels make of it
    simp only [Bool.and_eq_true, List.isEmpty_iff, Bool.not_eq_true'] at hstop
    refine ⟨(sheet, []), rfl, ?_⟩
    have hsame : frame = sheet.frame := Frame.eq_of_withHeaders hframe fun k => by
      rw [hstop.1]
      rfl
    subst hsame
    rw [hstop.1, hstop.2] at hafter
    exact hafter
  · exact ⟨_, bind_eq_ok.mpr ⟨frame, hframe, rfl⟩, hafter⟩

/-! ### States -/

/-- Restricting the headers never fails.  On every sheet the headers differ and have the old
  form; those that had it stay, but for an empty one, which gets a name.  Columns and cells stay
  in place, and every formula stays with its column and is read as what it was.  When ids are
  reset, each is its header. -/
theorem run_restricts (e : RestrictHeaders) (s : State)
    (hs : ∀ sheet ∈ s.sheets, sheet.headers.Nodup ∧ sheet.columns.Sound sheet.headers) :
    ∃ c, e.run s = .ok c ∧ c.state = { s with sheets := c.state.sheets }
      ∧ List.Forall₂ e.Restricts s.sheets c.state.sheets := by
  have hsame : List.Forall₂ (fun before sheet => before = sheet ∧ sheet ∈ s.sheets)
      s.sheets s.sheets := List.forall₂_same.mpr fun sheet hsheet => ⟨rfl, hsheet⟩
  obtain ⟨results, hresults, hall⟩ := exists_mapM_of_forall₂ (f := e.sheetAfter)
    (Q := fun before r => e.Restricts before r.1) hsame fun before sheet h => by
      obtain ⟨rfl, hsheet⟩ := h
      exact sheetAfter_restricts e (hs before hsheet).1 (hs before hsheet).2
  unfold run
  refine ⟨_, bind_eq_ok.mpr ⟨results, hresults, rfl⟩, rfl, ?_⟩
  exact List.forall₂_map_right_iff.mpr hall

namespace Sample

/-- A sheet with one row. -/
def shown (headers : List Header) (formulas : Dictionary ColumnId String) : Sheet :=
  let columns := headers.map fun h => { header := h, dtype := .int64, cells := [.int 1] }
  { Sheet.ofFrame ⟨0⟩ "df1" ⟨columns, 1⟩ with formulas := formulas }

theorem headers_shown (headers : List Header) (formulas : Dictionary ColumnId String) :
    (shown headers formulas).headers = headers := by
  simp [shown, Sheet.headers, Sheet.ofFrame, Frame.headers, Function.comp_def]

/-- Its ids and headers are in step. -/
theorem sound_shown {headers : List Header} (formulas : Dictionary ColumnId String)
    (hnd : headers.Nodup) :
    ∀ sh ∈ [shown headers formulas], sh.headers.Nodup ∧ sh.columns.Sound sh.headers := by
  intro sh hsh
  rw [List.mem_singleton.mp hsh]
  have hshown : (shown headers formulas).headers.Nodup := by rwa [headers_shown]
  exact ⟨hshown, ColumnIds.Sound.ofHeaders hshown⟩

/-- Of three headers the last one has a formula over the others. -/
def priced : State := { sheets := [shown ["a b", "a_b", "2"] [(⟨"2"⟩, "=`a b`+a_b")]] }

/-- One of two headers is empty. -/
def unnamed : State := { sheets := [shown ["", "A"] []] }

theorem parse_priced : Formula.parse "=`a b`+a_b" ["a b", "a_b", "2"]
    = .ok (.binary .add (.column "a b") (.column "a_b")) := by
  have htokens : Formula.tokens (Formula.splitEquals "=`a b`+a_b".toList).2
      = .ok [.quotedName "a b", .operator .add, .name "a_b"] := by decide +kernel
  exact Formula.parse_eq_ok.mpr (.inr ⟨⟨'`', by decide, by decide⟩, _, htokens, rfl⟩)

end Sample

/-- A header gets the name that another one has, with a number, and the formula follows. -/
theorem run_restricts_priced :
    (∀ sheet ∈ Sample.priced.sheets, sheet.headers.Nodup ∧ sheet.columns.Sound sheet.headers)
      ∧ ∃ c after, RestrictHeaders.run ⟨true⟩ Sample.priced = .ok c
        ∧ c.state.sheets = [after]
        ∧ after.headers = ["a_b_1", "a_b", "c_2"]
        ∧ after.formula ⟨"c_2"⟩ = "=a_b_1+a_b"
        ∧ Formula.parse "=a_b_1+a_b" after.headers
          = .ok (.binary .add (.column "a_b_1") (.column "a_b")) := by
  have hnd : ["a b", "a_b", "2"].Nodup := by decide
  have hs := Sample.sound_shown [(⟨"2"⟩, "=`a b`+a_b")] hnd
  obtain ⟨c, hrun, -, hall⟩ := run_restricts ⟨true⟩ Sample.priced hs
  obtain ⟨after, _, hafter, hnil, hsheets⟩ := List.forall₂_cons_left_iff.mp hall
  obtain rfl := List.forall₂_nil_left_iff.mp hnil
  have hbefore := Sample.headers_shown ["a b", "a_b", "2"] [(⟨"2"⟩, "=`a b`+a_b")]
  have hrs : renamings ["a b", "a_b", "2"] ["a b", "a_b", "2"]
      = [("a b", "a_b_1"), ("2", "c_2")] := by decide
  have hheaders : after.headers = ["a_b_1", "a_b", "c_2"] := by
    rw [hafter.headers_eq, hbefore, hrs]
    decide
  have hfollowed : followed [("a b", "a_b_1"), ("2", "c_2")] "=`a b`+a_b" = "=a_b_1+a_b" := by
    decide +kernel
  refine ⟨hs, c, after, hrun, hsheets, hheaders, ?_, ?_⟩
  · obtain ⟨i, hid, hformula⟩ := hafter.formula "2" (hbefore ▸ by decide) ⟨"2"⟩ "=`a b`+a_b"
      (by decide) (by decide)
    rw [hbefore, hrs] at hid hformula
    have hnative := hafter.native rfl "c_2" (hheaders ▸ by decide)
    obtain rfl := Option.some.inj (hnative.symm.trans hid)
    rw [hformula, hfollowed]
  · have hparsed := hafter.parsed "=`a b`+a_b" _ (hbefore ▸ Sample.parse_priced)
    rwa [hbefore, hrs, hfollowed] at hparsed

/-- An empty header has nothing that the old form does not allow, and gets a name all the
  same. -/
theorem empty_header_restricted :
    (∀ sheet ∈ Sample.unnamed.sheets, sheet.headers.Nodup ∧ sheet.columns.Sound sheet.headers)
      ∧ HasOldForm ""
      ∧ Sample.unnamed.sheets.map Sheet.headers = [["", "A"]]
      ∧ ∃ c, RestrictHeaders.run {} Sample.unnamed = .ok c
        ∧ c.state.sheets.map Sheet.headers = [["c_", "A"]] := by
  refine ⟨Sample.sound_shown [] (by decide), by simp [HasOldForm], by decide, ?_⟩
  exact ⟨_, eq_ok_of_toBool (by decide) default, by decide⟩

end RestrictHeaders

end SheetScript
