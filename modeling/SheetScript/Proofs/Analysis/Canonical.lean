import SheetScript.Proofs.Analysis.Saving
import SheetScript.Proofs.Edit.Decoding

/-! # Upgraded parameters

  Upgrading keeps parameters in canonical form, whatever it inserts, erases or replaces on
  the way.  So the edits of an analysis are what their types can hold, of whatever versions
  they were stored.

  - `Analysis.wellFormed_edits`: the edits of an analysis in canonical form.
  - `Analysis.wellFormed_parse`: an analysis that is read from a text is in that form.
-/

namespace SheetScript

open Json

namespace Json

@[simp] theorem isCanonical_bool (b : Bool) : (Json.bool b).IsCanonical := rfl

@[simp] theorem isCanonical_int (n : Int) : (Json.int n).IsCanonical := rfl

@[simp] theorem isCanonical_string (s : String) : (Json.string s).IsCanonical := rfl

/-- An object of canonical values, in whatever order they are given. -/
theorem isCanonical_ofFields {fields : List (String × Json)} (h : ∀ f ∈ fields, f.2.IsCanonical) :
    (ofFields fields).IsCanonical :=
  isCanonical_object (Dictionary.ascending_ofList fields) fun f hf =>
    h f (Dictionary.mem_of_mem_ofList hf)

theorem isCanonical_ofColumnId (id : ColumnId) : (ofColumnId id).IsCanonical :=
  isCanonical_string id.text

theorem isCanonical_ofColumnIds (ids : List ColumnId) : (ofColumnIds ids).IsCanonical :=
  canonical_ofColumnIds ids

end Json

namespace Params

/-! ### Fields that come and go -/

/-- Parameters in canonical form. -/
def IsCanonical (p : Params) : Prop := (Json.object p).IsCanonical

namespace IsCanonical

variable {p q : Params} {j : Json} {field : String}

theorem get? (hp : p.IsCanonical) (h : Dictionary.get? p field = some j) : j.IsCanonical :=
  hp.fields.2 _ (Dictionary.mem_of_get? h)

theorem insert (hp : p.IsCanonical) (hj : j.IsCanonical) (name : String) :
    IsCanonical (Dictionary.insert p name j) := by
  refine isCanonical_object (hp.fields.1.insert name j) fun f hf => ?_
  rcases Dictionary.mem_of_mem_insert hf with rfl | hf
  · exact hj
  · exact hp.fields.2 f hf

theorem erase (hp : p.IsCanonical) (name : String) : IsCanonical (Dictionary.erase p name) :=
  isCanonical_object (hp.fields.1.erase name) fun f hf => hp.fields.2 f (List.mem_filter.mp hf).1

theorem take (hp : p.IsCanonical) (h : take p field = .ok (j, q)) :
    j.IsCanonical ∧ q.IsCanonical := by
  obtain ⟨hj, rfl⟩ := take_eq_ok.mp h
  exact ⟨hp.get? hj, hp.erase field⟩

theorem takeHeader {h : Header} (hp : p.IsCanonical) (hh : takeHeader p field = .ok (h, q)) :
    q.IsCanonical := by
  obtain ⟨-, rfl⟩ := takeHeader_eq_ok hh
  exact hp.erase field

theorem takeHeaders {hs : List Header} (hp : p.IsCanonical)
    (hh : takeHeaders p field = .ok (hs, q)) : q.IsCanonical := by
  obtain ⟨-, rfl⟩ := takeHeaders_eq_ok hh
  exact hp.erase field

theorem headerToId {t : Translator} {name : String} (hp : p.IsCanonical)
    (h : headerToId t field name p = .ok q) : q.IsCanonical := by
  obtain ⟨i, header, -, -, rfl⟩ := headerToId_eq_ok h
  exact (hp.erase field).insert (isCanonical_ofColumnId _) name

end IsCanonical

/-! ### Filters -/

theorem keys_untypedFields (fields : List (String × Json)) :
    Dictionary.keys (untypedFields fields)
      = (Dictionary.keys fields).filter fun name => name ≠ "type" := by
  induction fields with
  | nil => rfl
  | cons f rest ih =>
    obtain ⟨name, j⟩ := f
    unfold untypedFields
    by_cases hname : name = "type"
    · rw [if_pos hname, ih]
      simp [Dictionary.keys, hname]
    · rw [if_neg hname]
      simpa [Dictionary.keys, hname] using ih

mutual

theorem isCanonical_untyped : (j : Json) → j.IsCanonical → (untyped j).IsCanonical
  | .array items => fun h => isCanonical_array (isCanonical_untypedItems items h.items)
  | .null | .bool _ | .int _ | .float _ | .string _ | .object _ => fun h => h
termination_by structural j => j

theorem isCanonical_untypedItems : (items : List Json) → (∀ j ∈ items, j.IsCanonical) →
    ∀ j ∈ untypedItems items, j.IsCanonical
  | [] => fun _ => List.forall_mem_nil _
  | .object fields :: rest => fun h => by
    obtain ⟨hfirst, hrest⟩ := List.forall_mem_cons.mp h
    -- an entry loses a field, and the names that are left stay in order
    refine List.forall_mem_cons.mpr ⟨isCanonical_object ?_ ?_, isCanonical_untypedItems rest hrest⟩
    · unfold Dictionary.Ascending
      rw [keys_untypedFields]
      exact List.Pairwise.filter _ hfirst.fields.1
    · exact isCanonical_untypedFields fields hfirst.fields.2
  | .null :: rest | .bool _ :: rest | .int _ :: rest | .float _ :: rest | .string _ :: rest
  | .array _ :: rest => fun h => by
    obtain ⟨hfirst, hrest⟩ := List.forall_mem_cons.mp h
    exact List.forall_mem_cons.mpr ⟨hfirst, isCanonical_untypedItems rest hrest⟩
termination_by structural items => items

theorem isCanonical_untypedFields : (fields : List (String × Json)) →
    (∀ f ∈ fields, f.2.IsCanonical) → ∀ f ∈ untypedFields fields, f.2.IsCanonical
  | [] => fun _ => List.forall_mem_nil _
  | (name, j) :: rest => fun h => by
    obtain ⟨hfirst, hrest⟩ := List.forall_mem_cons.mp h
    have hlater := isCanonical_untypedFields rest hrest
    unfold untypedFields
    split
    · exact hlater
    · refine List.forall_mem_cons.mpr ⟨?_, hlater⟩
      dsimp only
      split
      · exact isCanonical_untyped j hfirst
      · exact hfirst
termination_by structural fields => fields

end

theorem IsCanonical.filter {t : Translator} {p q : Params} (hp : p.IsCanonical)
    (h : filter t p = .ok q) : q.IsCanonical := by
  -- what is done to the filters does not depend on whether there was a header
  have hfilters : ∀ {p : Params} {j : Json}, p.IsCanonical → Dictionary.get? p "filters" = some j →
      IsCanonical (Dictionary.insert p "filters" (untyped j)) := fun hp hj =>
    hp.insert (isCanonical_untyped _ (hp.get? hj)) _
  unfold Params.filter at h
  split at h
  · obtain ⟨p', hp', h⟩ := bind_eq_ok.mp h
    have hcanonical := (hp.headerToId hp').erase "has_non_empty_filter"
    rw [← pure_eq_ok.mp h]
    split
    · next j hj => exact hfilters hcanonical hj
    · exact hcanonical
  · have hcanonical := hp.erase "has_non_empty_filter"
    rw [← pure_eq_ok.mp h]
    split
    · next j hj => exact hfilters hcanonical hj
    · exact hcanonical

/-! ### Defaults -/

mutual

theorem isCanonical_completed : (default : Json) → ∀ target : Json, default.IsCanonical →
    target.IsCanonical → (completed default target).IsCanonical
  | .object defaults => by
    intro target hdefault htarget
    cases target with
    | object target =>
      exact isCanonical_completedFields defaults target hdefault.fields.2 htarget
    | _ => exact htarget
  | .null | .bool _ | .int _ | .float _ | .string _ | .array _ => fun _ _ htarget => htarget
termination_by structural default => default

theorem isCanonical_completedFields : (defaults : List (String × Json)) → ∀ target : Params,
    (∀ f ∈ defaults, f.2.IsCanonical) → target.IsCanonical →
    IsCanonical (completedFields defaults target)
  | [] => fun _ _ htarget => htarget
  | (name, default) :: rest => by
    intro target hdefaults htarget
    obtain ⟨hfirst, hrest⟩ := List.forall_mem_cons.mp hdefaults
    unfold completedFields
    refine isCanonical_completedFields rest _ hrest ?_
    split
    · next j hj =>
      exact htarget.insert (isCanonical_completed default j hfirst (htarget.get? hj)) name
    · exact htarget.insert hfirst name
termination_by structural defaults => defaults

end

theorem isCanonical_stylingDefaults : stylingDefaults.IsCanonical := by
  -- the slider is nested too deeply for one call of the simplifier
  have hslider : (ofFields [("visible", .bool true)]).IsCanonical := isCanonical_ofFields (by simp)
  exact isCanonical_ofFields (by simp [isCanonical_ofFields, hslider])

theorem IsCanonical.chart {p : Params} (hp : p.IsCanonical) : (chart p).IsCanonical := by
  refine hp.insert (isCanonical_completed _ _ isCanonical_stylingDefaults ?_) _
  cases h : Dictionary.get? p "graph_styling" with
  | none => rfl
  | some j => exact hp.get? h

/-! ### Merges and pivot tables -/

section Versions

variable {t : Translator} {p q : Params}

theorem IsCanonical.mergeIds (hp : p.IsCanonical) (h : mergeIds t p = .ok q) :
    q.IsCanonical := by
  simp only [Params.mergeIds, bind_eq_ok, pure_eq_ok, Prod.exists] at h
  obtain ⟨one, -, two, -, k1, p1, hk1, k2, p2, hk2, s1, p3, hs1, s2, p4, hs2, rfl⟩ := h
  have hrest : p4.IsCanonical :=
    (((hp.takeHeader hk1).takeHeader hk2).takeHeaders hs1).takeHeaders hs2
  exact (((hrest.insert (isCanonical_ofColumnId _) _).insert (isCanonical_ofColumnId _) _).insert
    (isCanonical_ofColumnIds _) _).insert (isCanonical_ofColumnIds _) _

theorem IsCanonical.mergePairs (hp : p.IsCanonical) (h : mergePairs p = .ok q) :
    q.IsCanonical := by
  simp only [Params.mergePairs, bind_eq_ok, pure_eq_ok, Prod.exists] at h
  obtain ⟨one, p1, hone, two, p2, htwo, rfl⟩ := h
  obtain ⟨hfirst, hp1⟩ := hp.take hone
  obtain ⟨hsecond, hp2⟩ := hp1.take htwo
  refine hp2.insert (isCanonical_array (List.forall_mem_singleton.mpr (isCanonical_array ?_))) _
  exact List.forall_mem_cons.mpr ⟨hfirst, List.forall_mem_singleton.mpr hsecond⟩

theorem isCanonical_aggregationLists {j : Json} (hj : j.IsCanonical) :
    (aggregationLists j).IsCanonical := by
  cases j with
  | object fields =>
    refine isCanonical_object ?_ fun f hf => ?_
    · unfold Dictionary.Ascending Dictionary.keys
      rw [List.map_map]
      refine (List.map_congr_left fun f _ => ?_) ▸ hj.fields.1
      dsimp only [Function.comp_apply]
      split <;> rfl
    · obtain ⟨f', hf', rfl⟩ := List.mem_map.mp hf
      split
      · rfl
      · exact hj.fields.2 f' hf'
  | _ => exact hj

theorem IsCanonical.pivotLists (hp : p.IsCanonical) (h : pivotLists p = .ok q) :
    q.IsCanonical := by
  simp only [Params.pivotLists, bind_eq_ok, pure_eq_ok, Prod.exists] at h
  obtain ⟨values, p1, hvalues, rfl⟩ := h
  obtain ⟨hj, hp1⟩ := hp.take hvalues
  exact hp1.insert (isCanonical_aggregationLists hj) _

theorem IsCanonical.pivotIds (hp : p.IsCanonical) (h : pivotIds t p = .ok q) :
    q.IsCanonical := by
  simp only [Params.pivotIds, bind_eq_ok, Prod.exists] at h
  obtain ⟨i, -, rows, p1, hrows, columns, p2, hcolumns, j, p3, hj, h⟩ := h
  obtain ⟨hvalues, hp3⟩ := ((hp.takeHeaders hrows).takeHeaders hcolumns).take hj
  split at h
  · next values _ heq =>
    obtain ⟨rfl, rfl⟩ := Prod.mk.inj heq
    obtain rfl := pure_eq_ok.mp h
    have hbyId : (Json.object (Dictionary.ofList
        (values.map fun v => ((t.translate i v.1).text, v.2)))).IsCanonical := by
      refine isCanonical_object (Dictionary.ascending_ofList _) fun f hf => ?_
      obtain ⟨v, hv, rfl⟩ := List.mem_map.mp (Dictionary.mem_of_mem_ofList hf)
      exact hvalues.fields.2 v hv
    exact (((hp3.insert (isCanonical_ofColumnIds _) _).insert (isCanonical_ofColumnIds _)
      _).insert hbyId _).insert (isCanonical_bool true) _
  · simp at h

end Versions

end Params

/-! ### Edits -/

namespace StoredEdit

open Params (IsCanonical)

variable {t : Translator} {k : EditKind} {n : Nat} {s s' last : StoredEdit}
  {later block : List StoredEdit}

theorem isCanonical_nextParams {p q : Params} {version : Nat} (hp : p.IsCanonical)
    (h : nextParams t k version p = .ok q) : q.IsCanonical := by
  -- one case for each kind and version that has a next one
  unfold nextParams at h
  split at h
  case h_1 => exact Except.ok.inj h ▸ hp.insert (isCanonical_int (-1)) _
  case h_2 | h_3 | h_4 | h_5 | h_6 | h_7 => exact hp.headerToId h
  case h_8 =>
    simp only [bind_eq_ok, pure_eq_ok, Prod.exists] at h
    obtain ⟨id, p', hid, rfl⟩ := h
    obtain ⟨hj, hp'⟩ := hp.take hid
    exact hp'.insert (isCanonical_array (List.forall_mem_singleton.mpr hj)) _
  case h_9 | h_10 | h_11 => exact hp.filter h
  case h_12 =>
    obtain rfl := Except.ok.inj h
    split
    · exact hp
    · exact hp.insert (isCanonical_string "lookup") _
  case h_13 => exact hp.mergeIds h
  case h_14 => exact hp.mergePairs h
  case h_15 => exact hp.pivotLists h
  case h_16 | h_17 | h_18 | h_19 => exact Except.ok.inj h ▸ hp
  case h_20 => exact hp.pivotIds h
  case h_21 => exact Except.ok.inj h ▸ (hp.erase _).insert (isCanonical_bool true) _
  case h_22 => exact Except.ok.inj h ▸ hp.insert (isCanonical_bool true) _
  case h_23 => exact Except.ok.inj h ▸ hp.chart
  case h_24 => cases h

theorem isCanonical_advance (hs : s.params.IsCanonical) (h : advance t k n s = .ok (last, later)) :
    last.params.IsCanonical := by
  induction n generalizing s later with
  | zero => exact advance_zero h ▸ hs
  | succ n ih =>
    simp only [advance, bind_eq_ok, pure_eq_ok, Prod.exists, Prod.mk.injEq] at h
    obtain ⟨fields, hfields, p, hp, _, rest, hrest, rfl, rfl⟩ := h
    obtain ⟨hparams, -⟩ := paramFields_eq_ok hfields
    rw [hparams] at hs
    exact ih (s := ⟨s.version + 1, s.kind, .object p⟩) (isCanonical_nextParams hs hp) hrest

theorem isCanonical_restrictHeaders (resetsIds : Bool) :
    (restrictHeaders resetsIds).params.IsCanonical :=
  isCanonical_canonical _

theorem isCanonical_groupToPivot (hs : s.params.IsCanonical) (h : s.groupToPivot = .ok s') :
    s'.params.IsCanonical := by
  simp only [groupToPivot, bind_eq_ok, pure_eq_ok, Prod.exists] at h
  obtain ⟨p, hp, rows, p', hrows, rfl⟩ := h
  obtain ⟨hparams, -⟩ := paramFields_eq_ok hp
  rw [hparams] at hs
  obtain ⟨hj, hp'⟩ := IsCanonical.take hs hrows
  refine ((hp'.erase "group_columns").insert hj "pivot_rows").insert ?_ "pivot_columns"
  cases hcolumns : Dictionary.get? p' "group_columns" with
  | none => rfl
  | some j => exact hp'.get? hcolumns

/-- An upgraded edit has canonical parameters, as have the edits that follow it. -/
theorem isCanonical_upgrade (hs : s.params.IsCanonical) (h : s.upgrade t = .ok block) :
    ∀ b ∈ block, b.params.IsCanonical := by
  -- a grouping is upgraded as a pivot table, which is not a grouping any more
  have hcore : ∀ {s : StoredEdit}, s.params.IsCanonical → s.kind ≠ "group" →
      s.upgrade t = .ok block → ∀ b ∈ block, b.params.IsCanonical := by
    intro s hs hgroup h
    obtain ⟨k, last, later, -, -, hadvance, rfl⟩ := (upgrade_eq_ok hgroup).mp h
    refine List.forall_mem_cons.mpr ⟨isCanonical_advance hs hadvance, fun b hb => ?_⟩
    rw [later_advance hadvance] at hb
    obtain ⟨version, -, rfl⟩ := List.mem_map.mp hb
    exact isCanonical_restrictHeaders false
  by_cases hgroup : s.kind = "group"
  · obtain ⟨s', hs', hupgrade⟩ := upgrade_of_group hgroup h
    exact hcore (isCanonical_groupToPivot hs hs') (by rw [kind_groupToPivot hs']; decide) hupgrade
  · exact hcore hs hgroup h

end StoredEdit

/-! ### Analyses -/

namespace Analysis

variable {t : Translator} {a b : Analysis} {steps us : List StoredEdit} {count : Nat}

theorem isCanonical_upgradeSteps (hsteps : ∀ s ∈ steps, s.params.IsCanonical)
    (h : upgradeSteps t steps = .ok us) : ∀ u ∈ us, u.params.IsCanonical := by
  induction steps generalizing t us with
  | nil =>
    obtain rfl := Except.ok.inj h
    exact List.forall_mem_nil _
  | cons s rest ih =>
    obtain ⟨hfirst, hrest⟩ := List.forall_mem_cons.mp hsteps
    rw [upgradeSteps] at h
    simp only [bind_eq_ok, pure_eq_ok] at h
    obtain ⟨block, hblock, mid, -, later, hlater, rfl⟩ := h
    exact List.forall_mem_append.mpr
      ⟨StoredEdit.isCanonical_upgrade hfirst hblock, ih hrest hlater⟩

theorem isCanonical_upgrade (ha : ∀ s ∈ a.steps, s.params.IsCanonical)
    (h : a.upgrade count = .ok b) : ∀ s ∈ b.steps, s.params.IsCanonical := by
  obtain ⟨us, hus, rfl⟩ := upgrade_eq_ok.mp h
  refine List.forall_mem_append.mpr ⟨fun s hs => ?_, isCanonical_upgradeSteps ha hus⟩
  unfold preface at hs
  split at hs
  · obtain rfl := List.mem_singleton.mp hs
    exact StoredEdit.isCanonical_restrictHeaders true
  · cases hs

/-- The edits of an analysis with canonical parameters are well-formed once it is upgraded,
  whatever its version. -/
theorem wellFormed_edits {edits : List Edit} (ha : ∀ s ∈ a.steps, s.params.IsCanonical)
    (h : (a.upgrade count).bind Analysis.edits = .ok edits) : ∀ e ∈ edits, e.WellFormed := by
  obtain ⟨b, hb, hedits⟩ := bind_eq_ok.mp h
  have hsteps := isCanonical_upgrade ha hb
  have hread : List.Forall₂ (fun s e => StoredEdit.edit s = .ok e) b.steps edits :=
    mapM_eq_ok.mp hedits
  intro e he
  obtain ⟨s, hs, hedit⟩ := exists_of_mem_right hread he
  obtain ⟨k, -, -, hparts⟩ := StoredEdit.edit_eq_ok hedit
  exact Edit.yields_ofJson? k s.params e (hsteps s hs) hparts

/-! ### Analyses that are read -/

theorem wellFormed_ofJson? {j : Json} {s : StoredEdit} (h : StoredEdit.ofJson? j = some s) :
    s.WellFormed := by
  simp only [StoredEdit.ofJson?, Option.bind_eq_bind, Option.bind_eq_some_iff, Option.pure_def,
    Option.some.injEq] at h
  obtain ⟨r, -, version, hversion, kind, -, params, hparams, rfl⟩ := h
  obtain ⟨_, -, hversion⟩ := Option.bind_eq_some_iff.mp hversion
  refine ⟨word32?_lt hversion, ?_⟩
  unfold Record.orElse at hparams
  split at hparams
  · exact Option.some.inj hparams ▸ isCanonical_canonical .null
  · next j _ => exact Option.some.inj hparams ▸ isCanonical_canonical j

theorem wellFormed_ofLegacy {fields : Params} {s : StoredEdit} (hfields : fields.IsCanonical)
    (h : StoredEdit.ofLegacy fields = .ok s) : s.WellFormed := by
  unfold StoredEdit.ofLegacy at h
  split at h
  · cases h
  · obtain rfl := Except.ok.inj h
    refine ⟨?_, (hfields.erase "step_type").erase "step_version"⟩
    cases hversion : (Dictionary.get? fields "step_version").bind word32? with
    | none => exact (by decide : 1 < 0x100000000)
    | some n =>
      obtain ⟨_, -, hn⟩ := Option.bind_eq_some_iff.mp hversion
      exact word32?_lt hn

theorem wellFormed_legacySteps {entries : Dictionary String Params}
    (hentries : ∀ e ∈ entries, e.2.IsCanonical) (h : legacySteps entries = .ok steps) :
    ∀ s ∈ steps, s.WellFormed := by
  simp only [legacySteps, bind_eq_ok, pure_eq_ok, mapM_eq_ok] at h
  obtain ⟨placed, hplaced, hsteps⟩ := h
  intro s hs
  obtain ⟨e, he, hread⟩ := exists_of_mem_right hsteps hs
  obtain ⟨entry, hentry, hplace⟩ := exists_of_mem_right hplaced (List.mem_mergeSort.mp he)
  obtain ⟨place, -, rfl⟩ := hplace
  exact wellFormed_ofLegacy (hentries entry hentry) hread

theorem isCanonical_fields? {j : Json} {fields : Params} (h : fields? j = some fields) :
    fields.IsCanonical := by
  obtain ⟨_, -, h⟩ := Option.bind_eq_some_iff.mp h
  exact Yields.fields? j.canonical fields (isCanonical_canonical j) h

theorem wellFormed_parts? {j : Json} {version : String} {list : Option (List StoredEdit)}
    {entries : Option (Dictionary String (Dictionary String Json))}
    (h : parts? j = some (version, list, entries)) :
    (∀ steps ∈ list, ∀ s ∈ steps, s.WellFormed)
      ∧ ∀ legacy ∈ entries, ∀ e ∈ legacy, Params.IsCanonical e.2 := by
  simp only [parts?, Option.bind_eq_bind, Option.bind_eq_some_iff, Option.pure_def,
    Option.some.injEq, Prod.mk.injEq] at h
  obtain ⟨r, -, _, -, _, hlist, _, hentries, rfl, rfl, rfl⟩ := h
  constructor
  · intro steps hsteps s hs
    obtain ⟨_, -, hitems⟩ := Record.exists_of_mem_optional hlist hsteps
    obtain ⟨_, -, item, -, hitem⟩ := exists_of_mem_listOf? hitems hs
    exact wellFormed_ofJson? hitem
  · intro legacy hlegacy e he
    obtain ⟨_, -, hfields⟩ := Record.exists_of_mem_optional hentries hlegacy
    obtain ⟨_, -, f, -, hf⟩ := exists_of_mem_dictionaryOf? hfields he
    exact isCanonical_fields? hf

/-- The edits of an analysis that is read from a text, in whatever form, are well-formed. -/
theorem wellFormed_parse {text : String} (h : parse text = .ok a) :
    ∀ s ∈ a.steps, s.WellFormed := by
  have hparts : ∀ {version list entries}, (Json.ofText? text).bind parts?
      = some (version, list, entries) → ∃ j, parts? j = some (version, list, entries) := by
    intro version list entries hread
    obtain ⟨j, -, hj⟩ := Option.bind_eq_some_iff.mp hread
    exact ⟨j, hj⟩
  unfold parse at h
  split at h
  · cases h
  · next hread =>
    obtain ⟨j, hj⟩ := hparts hread
    exact Except.ok.inj h ▸ (wellFormed_parts? hj).1 _ rfl
  · next hread =>
    obtain ⟨j, hj⟩ := hparts hread
    obtain ⟨steps, hsteps, h⟩ := bind_eq_ok.mp h
    exact pure_eq_ok.mp h ▸ wellFormed_legacySteps ((wellFormed_parts? hj).2 _ rfl) hsteps
  · exact Except.ok.inj h ▸ List.forall_mem_nil _

end Analysis

end SheetScript
