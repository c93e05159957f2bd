import SheetScript.Proofs.Analysis.Room

/-! # Upgrades up to column ids

  What headers stand for decides which ids an upgrade writes, and nothing else: neither
  whether it succeeds nor what the other parameters are.  So two upgrades of one analysis
  that start with different translators end with the same edits up to column ids, or both
  end with a fault.

  - `Params.UpToIds`: parameters that differ in column ids at most.
  - `StoredEdit.upToIds_upgrade`: one edit upgraded by two translators.
  - `Analysis.upToIds_upgrade`: a whole analysis.
-/

namespace SheetScript

namespace Params

/-- The fields in which upgrades put column ids. -/
def idFields : List String :=
  ["column_id", "column_ids", "merge_key_column_id_one", "merge_key_column_id_two",
    "merge_key_column_ids", "selected_column_ids_one", "selected_column_ids_two",
    "pivot_rows_column_ids", "pivot_columns_column_ids", "values_column_ids_map"]

/-- The value of a field without the column ids in it; whether it is a text is left. -/
def hidden (field : String) (j : Json) : Json :=
  if field ∈ idFields then .bool j.string?.isSome else j

/-- Parameters `q` that differ from `p` in column ids at most. -/
def UpToIds (p q : Params) : Prop :=
  ∀ name, (Dictionary.get? q name).map (hidden name) = (Dictionary.get? p name).map (hidden name)

theorem hidden_of_not_mem {field : String} (hfield : field ∉ idFields) (j : Json) :
    hidden field j = j := if_neg hfield

theorem map_hidden {field : String} (hfield : field ∉ idFields) (value : Option Json) :
    value.map (hidden field) = value := by
  rw [show hidden field = id from funext (hidden_of_not_mem hfield), Option.map_id, id]

/-- All ids look the same in a field for ids. -/
theorem hidden_ofColumnId {field : String} (hfield : field ∈ idFields) (a b : ColumnId) :
    hidden field (.ofColumnId a) = hidden field (.ofColumnId b) := by
  unfold hidden
  rw [if_pos hfield, if_pos hfield]
  rfl

/-- So do all values that are no texts. -/
theorem hidden_of_string?_none {field : String} (hfield : field ∈ idFields) {i j : Json}
    (hi : i.string? = none) (hj : j.string? = none) : hidden field i = hidden field j := by
  unfold hidden
  rw [if_pos hfield, if_pos hfield, hi, hj]

theorem isSome_string?_of_hidden {field : String} {i j : Json}
    (h : hidden field i = hidden field j) : i.string?.isSome = j.string?.isSome := by
  unfold hidden at h
  split at h
  · exact Json.bool.inj h
  · rw [h]

namespace UpToIds

variable {t t₀ : Translator} {p q r : Params} {i j : Json} {field name : String}

theorem refl (p : Params) : p.UpToIds p := fun _ => rfl

theorem get?_eq (h : p.UpToIds q) (hfield : field ∉ idFields) :
    Dictionary.get? q field = Dictionary.get? p field := by
  rw [← map_hidden hfield (Dictionary.get? q field), h field, map_hidden hfield]

theorem contains_eq (h : p.UpToIds q) (field : String) :
    Dictionary.contains q field = Dictionary.contains p field := by
  have hsome := congrArg Option.isSome (h field)
  rwa [Option.isSome_map, Option.isSome_map] at hsome

theorem insert (h : p.UpToIds q) (hij : hidden field j = hidden field i) :
    UpToIds (Dictionary.insert p field i) (Dictionary.insert q field j) := by
  intro name
  rw [Dictionary.get?_insert, Dictionary.get?_insert]
  split
  · next heq => exact heq ▸ congrArg some hij
  · exact h name

theorem erase (h : p.UpToIds q) (field : String) :
    UpToIds (Dictionary.erase p field) (Dictionary.erase q field) := by
  intro name
  rw [Dictionary.get?_erase, Dictionary.get?_erase]
  split
  · rfl
  · exact h name

/-- What can be taken out of one can be taken out of the other. -/
theorem take (h : p.UpToIds q) (htake : take p field = .ok (i, r)) :
    ∃ j r', Params.take q field = .ok (j, r') ∧ hidden field j = hidden field i
      ∧ r.UpToIds r' := by
  obtain ⟨hi, rfl⟩ := take_eq_ok.mp htake
  have hmap := h field
  rw [hi, Option.map_some] at hmap
  obtain ⟨j, hj, hij⟩ := Option.map_eq_some_iff.mp hmap
  exact ⟨j, _, take_eq_ok.mpr ⟨hj, rfl⟩, hij, h.erase field⟩

/-- A value that is not for ids is the same in both. -/
theorem take_same (h : p.UpToIds q) (hfield : field ∉ idFields)
    (htake : Params.take p field = .ok (i, r)) :
    ∃ r', Params.take q field = .ok (i, r') ∧ r.UpToIds r' := by
  obtain ⟨j, r', hj, hij, hr⟩ := h.take htake
  rw [hidden_of_not_mem hfield, hidden_of_not_mem hfield] at hij
  exact ⟨r', hij ▸ hj, hr⟩

theorem takeHeader {header : Header} (h : p.UpToIds q) (hfield : field ∉ idFields)
    (htake : takeHeader p field = .ok (header, r)) :
    ∃ r', Params.takeHeader q field = .ok (header, r') ∧ r.UpToIds r' := by
  simp only [Params.takeHeader, bind_eq_ok, pure_eq_ok, Prod.exists, Prod.mk.injEq] at htake ⊢
  obtain ⟨j, _, hj, _, hheader, rfl, rfl⟩ := htake
  obtain ⟨r', hj', hr⟩ := h.take_same hfield hj
  exact ⟨r', ⟨j, r', hj', _, hheader, rfl, rfl⟩, hr⟩

theorem takeHeaders {headers : List Header} (h : p.UpToIds q) (hfield : field ∉ idFields)
    (htake : takeHeaders p field = .ok (headers, r)) :
    ∃ r', Params.takeHeaders q field = .ok (headers, r') ∧ r.UpToIds r' := by
  simp only [Params.takeHeaders, bind_eq_ok, Prod.exists] at htake ⊢
  obtain ⟨j, _, hj, htake⟩ := htake
  obtain ⟨r', hj', hr⟩ := h.take_same hfield hj
  split at htake
  · next items _ heq =>
    obtain ⟨rfl, rfl⟩ := Prod.mk.inj heq
    simp only [bind_eq_ok, pure_eq_ok, Prod.mk.injEq] at htake
    obtain ⟨_, hitems, rfl, rfl⟩ := htake
    refine ⟨r', ⟨_, r', hj', ?_⟩, hr⟩
    simp only [bind_eq_ok, pure_eq_ok]
    exact ⟨_, hitems, rfl⟩
  · simp at htake

theorem sheet (h : p.UpToIds q) (hfield : field ∉ idFields) :
    Params.sheet q field = Params.sheet p field := by
  have hget : (Json.object q).field? field = (Json.object p).field? field := h.get?_eq hfield
  unfold Params.sheet need
  rw [hget]

theorem headerToId (t₀ : Translator) (h : p.UpToIds q) (hfield : field ∉ idFields)
    (hname : name ∈ idFields) (hid : headerToId t field name p = .ok r) :
    ∃ r', Params.headerToId t₀ field name q = .ok r' ∧ r.UpToIds r' := by
  simp only [Params.headerToId, bind_eq_ok, pure_eq_ok, Prod.exists] at hid ⊢
  obtain ⟨i, hi, header, p', hheader, rfl⟩ := hid
  obtain ⟨q', hheader', hr⟩ := h.takeHeader hfield hheader
  exact ⟨_, ⟨i, (h.sheet (by decide)).trans hi, header, q', hheader', rfl⟩,
    hr.insert (hidden_ofColumnId hname _ _)⟩

theorem filter (h : p.UpToIds q) (hfilter : filter t p = .ok r) :
    ∃ r', Params.filter t₀ q = .ok r' ∧ r.UpToIds r' := by
  unfold Params.filter at hfilter ⊢
  rw [h.contains_eq]
  split at hfilter
  · next hcontains =>
    obtain ⟨p', hp', hfilter⟩ := bind_eq_ok.mp hfilter
    obtain ⟨q', hq', hr⟩ := h.headerToId t₀ (by decide) (by decide) hp'
    have hrest := hr.erase "has_non_empty_filter"
    rw [if_pos hcontains]
    refine ⟨_, bind_eq_ok.mpr ⟨q', hq', rfl⟩, ?_⟩
    rw [← pure_eq_ok.mp hfilter, hrest.get?_eq (by decide)]
    split
    · exact hrest.insert rfl
    · exact hrest
  · next hcontains =>
    have hrest := h.erase "has_non_empty_filter"
    rw [if_neg hcontains]
    refine ⟨_, rfl, ?_⟩
    rw [← pure_eq_ok.mp hfilter, hrest.get?_eq (by decide)]
    split
    · exact hrest.insert rfl
    · exact hrest

theorem mergeIds (h : p.UpToIds q) (hids : mergeIds t p = .ok r) :
    ∃ r', Params.mergeIds t₀ q = .ok r' ∧ r.UpToIds r' := by
  simp only [Params.mergeIds, bind_eq_ok, pure_eq_ok, Prod.exists] at hids ⊢
  obtain ⟨one, hone, two, htwo, k1, p1, hk1, k2, p2, hk2, s1, p3, hs1, s2, p4, hs2, rfl⟩ := hids
  obtain ⟨q1, hk1', h1⟩ := h.takeHeader (by decide) hk1
  obtain ⟨q2, hk2', h2⟩ := h1.takeHeader (by decide) hk2
  obtain ⟨q3, hs1', h3⟩ := h2.takeHeaders (by decide) hs1
  obtain ⟨q4, hs2', h4⟩ := h3.takeHeaders (by decide) hs2
  have hlists : ∀ {field : String} (ids ids' : List ColumnId), field ∈ idFields →
      hidden field (.ofColumnIds ids') = hidden field (.ofColumnIds ids) :=
    fun _ _ hfield => hidden_of_string?_none hfield rfl rfl
  exact ⟨_, ⟨one, (h.sheet (by decide)).trans hone, two, (h.sheet (by decide)).trans htwo,
    k1, q1, hk1', k2, q2, hk2', s1, q3, hs1', s2, q4, hs2', rfl⟩,
    (((h4.insert (hidden_ofColumnId (by decide) _ _)).insert
      (hidden_ofColumnId (by decide) _ _)).insert (hlists _ _ (by decide))).insert
      (hlists _ _ (by decide))⟩

theorem mergePairs (h : p.UpToIds q) (hpairs : mergePairs p = .ok r) :
    ∃ r', Params.mergePairs q = .ok r' ∧ r.UpToIds r' := by
  simp only [Params.mergePairs, bind_eq_ok, pure_eq_ok, Prod.exists] at hpairs ⊢
  obtain ⟨one, p1, hone, two, p2, htwo, rfl⟩ := hpairs
  obtain ⟨one', q1, hone', -, h1⟩ := h.take hone
  obtain ⟨two', q2, htwo', -, h2⟩ := h1.take htwo
  exact ⟨_, ⟨one', q1, hone', two', q2, htwo', rfl⟩,
    h2.insert (hidden_of_string?_none (by decide) rfl rfl)⟩

theorem pivotLists (h : p.UpToIds q) (hlists : pivotLists p = .ok r) :
    ∃ r', Params.pivotLists q = .ok r' ∧ r.UpToIds r' := by
  simp only [Params.pivotLists, bind_eq_ok, pure_eq_ok, Prod.exists] at hlists ⊢
  obtain ⟨values, p', hvalues, rfl⟩ := hlists
  obtain ⟨q', hvalues', hr⟩ := h.take_same (by decide) hvalues
  exact ⟨_, ⟨values, q', hvalues', rfl⟩, hr.insert rfl⟩

theorem pivotIds (h : p.UpToIds q) (hids : pivotIds t p = .ok r) :
    ∃ r', Params.pivotIds t₀ q = .ok r' ∧ r.UpToIds r' := by
  simp only [Params.pivotIds, bind_eq_ok, Prod.exists] at hids ⊢
  obtain ⟨i, hi, rows, p1, hrows, columns, p2, hcolumns, j, p3, hj, hids⟩ := hids
  obtain ⟨q1, hrows', h1⟩ := h.takeHeaders (by decide) hrows
  obtain ⟨q2, hcolumns', h2⟩ := h1.takeHeaders (by decide) hcolumns
  obtain ⟨q3, hj', h3⟩ := h2.take_same (by decide) hj
  split at hids
  · next values _ heq =>
    obtain ⟨rfl, rfl⟩ := Prod.mk.inj heq
    obtain rfl := pure_eq_ok.mp hids
    refine ⟨_, ⟨i, (h.sheet (by decide)).trans hi, rows, q1, hrows', columns, q2, hcolumns',
      _, q3, hj', rfl⟩, ?_⟩
    exact (((h3.insert (hidden_of_string?_none (by decide) rfl rfl)).insert
      (hidden_of_string?_none (by decide) rfl rfl)).insert
      (hidden_of_string?_none (by decide) rfl rfl)).insert rfl
  · simp at hids

end UpToIds

end Params

/-! ### One edit -/

namespace StoredEdit

open Params (UpToIds hidden)
open Translator (countKind countAfter)

variable {t t₀ t' : Translator} {k : EditKind} {n : Nat} {s last : StoredEdit}
  {later block : List StoredEdit}

/-- An edit `s'` that differs from `s` in column ids at most. -/
structure UpToIds (s s' : StoredEdit) : Prop where
  version : s'.version = s.version
  kind : s'.kind = s.kind
  params : ∀ name, (s'.params.field? name).map (hidden name)
    = (s.params.field? name).map (hidden name)

theorem UpToIds.refl (s : StoredEdit) : s.UpToIds s := ⟨rfl, rfl, fun _ => rfl⟩

theorem upToIds_nextParams {p q r : Params} {version : Nat} (t₀ : Translator)
    (h : p.UpToIds q) (hnext : nextParams t k version p = .ok r) :
    ∃ r', nextParams t₀ k version q = .ok r' ∧ r.UpToIds r' := by
  unfold nextParams at hnext
  split at hnext
  case h_1 => exact ⟨_, rfl, Except.ok.inj hnext ▸ h.insert rfl⟩
  case h_2 | h_3 | h_4 | h_5 | h_6 | h_7 => exact h.headerToId t₀ (by decide) (by decide) hnext
  case h_8 =>
    simp only [nextParams, bind_eq_ok, pure_eq_ok, Prod.exists] at hnext ⊢
    obtain ⟨id, p', hid, rfl⟩ := hnext
    obtain ⟨id', q', hid', -, hr⟩ := h.take hid
    exact ⟨_, ⟨id', q', hid', rfl⟩, hr.insert (Params.hidden_of_string?_none (by decide) rfl rfl)⟩
  case h_9 | h_10 | h_11 => exact h.filter hnext
  case h_12 =>
    obtain rfl := Except.ok.inj hnext
    refine ⟨_, rfl, ?_⟩
    rw [h.contains_eq]
    split
    · exact h
    · exact h.insert rfl
  case h_13 => exact h.mergeIds hnext
  case h_14 => exact h.mergePairs hnext
  case h_15 => exact h.pivotLists hnext
  case h_16 | h_17 | h_18 | h_19 => exact ⟨q, rfl, Except.ok.inj hnext ▸ h⟩
  case h_20 => exact h.pivotIds hnext
  case h_21 => exact ⟨_, rfl, Except.ok.inj hnext ▸ (h.erase _).insert rfl⟩
  case h_22 => exact ⟨_, rfl, Except.ok.inj hnext ▸ h.insert rfl⟩
  case h_23 =>
    obtain rfl := Except.ok.inj hnext
    refine ⟨_, rfl, ?_⟩
    unfold Params.chart
    rw [h.get?_eq (by decide)]
    exact h.insert rfl
  case h_24 => cases hnext

/-- Edits taken further that differ in column ids at most do so in the end. -/
theorem upToIds_advance {version : Nat} {kind : String} {p q : Params} (t₀ : Translator)
    (h : p.UpToIds q) (hadvance : advance t k n ⟨version, kind, .object p⟩ = .ok (last, later)) :
    ∃ last', advance t₀ k n ⟨version, kind, .object q⟩ = .ok (last', later)
      ∧ last.UpToIds last' := by
  induction n generalizing version p q later with
  | zero =>
    obtain ⟨rfl, rfl⟩ := Prod.mk.inj (Except.ok.inj hadvance)
    exact ⟨_, rfl, rfl, rfl, h⟩
  | succ n ih =>
    simp only [advance, bind_eq_ok, pure_eq_ok, Prod.exists, Prod.mk.injEq] at hadvance ⊢
    obtain ⟨_, hfields, p', hp', _, rest, hrest, rfl, rfl⟩ := hadvance
    obtain rfl := Except.ok.inj hfields
    obtain ⟨q', hq', hr⟩ := upToIds_nextParams t₀ h hp'
    obtain ⟨last', hlast', hsame⟩ := ih hr hrest
    exact ⟨last', ⟨q, rfl, q', hq', last', rest, hlast', rfl, rfl⟩, hsame⟩

/-- Any translator upgrades an edit that one of them upgrades, to the same up to column
  ids; the edits that follow are the same. -/
theorem upToIds_upgrade (t₀ : Translator) (h : s.upgrade t = .ok block) :
    ∃ last last' later, block = last :: later ∧ s.upgrade t₀ = .ok (last' :: later)
      ∧ last.UpToIds last' := by
  have hcore : ∀ {s : StoredEdit}, s.kind ≠ "group" → s.upgrade t = .ok block →
      ∃ last last' later, block = last :: later ∧ s.upgrade t₀ = .ok (last' :: later)
        ∧ last.UpToIds last' := by
    intro s hgroup h
    obtain ⟨k, last, later, hk, hle, hadvance, rfl⟩ := (upgrade_eq_ok hgroup).mp h
    generalize hn : k.version - s.version = n at hadvance
    have hupgrade : ∀ {last' : StoredEdit}, advance t₀ k n s = .ok (last', later) →
        s.upgrade t₀ = .ok (last' :: later) := fun h' =>
      (upgrade_eq_ok hgroup).mpr ⟨k, _, later, hk, hle, hn ▸ h', rfl⟩
    cases n with
    | zero =>
      obtain ⟨rfl, rfl⟩ := Prod.mk.inj (Except.ok.inj hadvance)
      exact ⟨s, s, [], rfl, hupgrade rfl, .refl s⟩
    | succ n =>
      -- the parameters are an object, since they were taken a version further
      simp only [advance, bind_eq_ok, Prod.exists] at hadvance
      obtain ⟨p, hp, hadvance⟩ := hadvance
      obtain ⟨hparams, -⟩ := paramFields_eq_ok hp
      have hobject : s = ⟨s.version, s.kind, .object p⟩ := by rw [← hparams]
      have hstart : advance t k (n + 1) ⟨s.version, s.kind, .object p⟩ = .ok (last, later) := by
        simp only [advance, bind_eq_ok, Prod.exists]
        exact ⟨p, rfl, hadvance⟩
      obtain ⟨last', hlast', hsame⟩ := upToIds_advance t₀ (.refl p) hstart
      exact ⟨last, last', later, rfl, hupgrade (hobject ▸ hlast'), hsame⟩
  by_cases hgroup : s.kind = "group"
  · obtain ⟨s', hs', hupgrade⟩ := upgrade_of_group hgroup h
    have hpivot : s'.kind ≠ "group" := kind_groupToPivot hs' ▸ by decide
    obtain ⟨last, last', later, rfl, hlast', hsame⟩ := hcore hpivot hupgrade
    refine ⟨last, last', later, rfl, ?_, hsame⟩
    unfold upgrade at hlast' ⊢
    simp only [hgroup, if_true, hs', hpivot, if_false] at hlast' ⊢
    exact hlast'
  · exact hcore hgroup h

/-- How many sheets there are after an edit does not depend on its column ids. -/
theorem UpToIds.countAfter {s' : StoredEdit} {m : Nat} (h : s.UpToIds s')
    (hs : countAfter n s = .ok m) : countAfter n s' = .ok m := by
  have hfield : ∀ {name : String}, name ∉ Params.idFields →
      s'.params.field? name = s.params.field? name := by
    intro name hname
    rw [← Params.map_hidden hname (s'.params.field? name), h.params, Params.map_hidden hname]
  have hneed : ∀ {α : Type} {name : String} {read : Json → Option α}, name ∉ Params.idFields →
      Params.need s'.params name read = Params.need s.params name read := by
    intro α name read hname
    unfold Params.need
    rw [hfield hname]
  -- the id may be another one, but there is one
  have hid : ∀ {id : String}, Params.need s.params "column_id" Json.string? = .ok id →
      ∃ id', Params.need s'.params "column_id" Json.string? = .ok id' := by
    intro id hid
    obtain ⟨j, hj, hjid⟩ := Option.bind_eq_some_iff.mp (read_of_need hid)
    have hmap := h.params "column_id"
    rw [hj, Option.map_some] at hmap
    obtain ⟨j', hj', hhidden⟩ := Option.map_eq_some_iff.mp hmap
    have hsome := Params.isSome_string?_of_hidden hhidden
    rw [hjid, Option.isSome_some] at hsome
    obtain ⟨id', hid'⟩ := Option.isSome_iff_exists.mp hsome
    refine ⟨id', ?_⟩
    unfold Params.need
    rw [hj', Option.bind_some, hid']
  unfold Translator.countAfter at hs ⊢
  rw [h.kind]
  cases hk : EditKind.ofName? s.kind with
  | none =>
    rw [hk] at hs
    exact hs
  | some k =>
    rw [hk] at hs
    dsimp only at hs ⊢
    cases k with
    | renameColumn =>
      simp only [countKind, bind_eq_ok, pure_eq_ok] at hs ⊢
      obtain ⟨i, hi, id, hcolumn, header, hheader, rfl⟩ := hs
      obtain ⟨id', hcolumn'⟩ := hid hcolumn
      exact ⟨i, (hneed (by decide)).trans hi, id', hcolumn', header,
        (hneed (by decide)).trans hheader, rfl⟩
    | duplicateSheet | deleteSheet =>
      simp only [countKind] at hs ⊢
      rwa [hneed (by decide)]
    | merge =>
      simp only [countKind] at hs ⊢
      have hone : Params.need s'.params "sheet_index_one" Json.index?
          = Params.need s.params "sheet_index_one" Json.index? := hneed (by decide)
      have htwo : Params.need s'.params "sheet_index_two" Json.index?
          = Params.need s.params "sheet_index_two" Json.index? := hneed (by decide)
      rwa [hone, htwo]
    | importFiles =>
      simp only [countKind] at hs ⊢
      rwa [hfield (by decide)]
    | pivot =>
      simp only [countKind] at hs ⊢
      rwa [hfield (by decide), hneed (by decide)]
    | _ => exact hs

/-- A translator can follow an edit whatever its column ids are. -/
theorem UpToIds.observable {s' : StoredEdit} (h : s.UpToIds s') (hs : s.Observable) :
    s'.Observable := by
  intro t
  obtain ⟨t', ht'⟩ := hs t
  have hlength := Translator.length_observe t s'
  rw [h.countAfter (Translator.countAfter_of_observe ht')] at hlength
  cases hobserve : t.observe s' with
  | ok u => exact ⟨u, rfl⟩
  | error f =>
    rw [hobserve] at hlength
    cases hlength

/-- Translators can follow edits that one by one can be followed. -/
theorem foldlM_of_observable {us : List StoredEdit} (h : ∀ u ∈ us, u.Observable) (t : Translator) :
    ∃ t', us.foldlM Translator.observe t = .ok t' := by
  induction us generalizing t with
  | nil => exact ⟨t, rfl⟩
  | cons u us ih =>
    obtain ⟨hu, hus⟩ := List.forall_mem_cons.mp h
    obtain ⟨mid, hmid⟩ := hu t
    obtain ⟨t', ht'⟩ := ih hus mid
    exact ⟨t', bind_eq_ok.mpr ⟨mid, hmid, ht'⟩⟩

end StoredEdit

/-! ### Whole analyses -/

namespace Analysis

variable {a b : Analysis} {t t₀ : Translator} {steps us : List StoredEdit} {n : Nat}

theorem upToIds_upgradeSteps (t₀ : Translator) (h : upgradeSteps t steps = .ok us) :
    ∃ us', upgradeSteps t₀ steps = .ok us' ∧ List.Forall₂ StoredEdit.UpToIds us us' := by
  induction steps generalizing t t₀ us with
  | nil =>
    obtain rfl := Except.ok.inj h
    exact ⟨[], rfl, .nil⟩
  | cons s rest ih =>
    rw [upgradeSteps] at h ⊢
    simp only [bind_eq_ok, pure_eq_ok] at h ⊢
    obtain ⟨block, hblock, mid, hmid, us, hus, rfl⟩ := h
    obtain ⟨last, last', later, rfl, hblock', hsame⟩ := StoredEdit.upToIds_upgrade t₀ hblock
    obtain ⟨hlast, hlater⟩ :=
      List.forall_mem_cons.mp (StoredEdit.observable_of_foldlM hmid)
    obtain ⟨mid', hmid'⟩ := StoredEdit.foldlM_of_observable
      (List.forall_mem_cons.mpr ⟨hsame.observable hlast, hlater⟩) t₀
    obtain ⟨us', hus', hall⟩ := ih mid' hus
    have hfollow : List.Forall₂ StoredEdit.UpToIds later later :=
      List.forall₂_same.mpr fun u _ => .refl u
    exact ⟨_, ⟨_, hblock', mid', hmid', us', hus', rfl⟩,
      .cons hsame (List.rel_append hfollow hall)⟩

/-- Whether an analysis can be upgraded does not depend on the sheets that it starts with;
  the edits in the end do up to column ids at most. -/
theorem upToIds_upgrade (m : Nat) (h : a.upgrade n = .ok b) :
    ∃ b', a.upgrade m = .ok b' ∧ List.Forall₂ StoredEdit.UpToIds b.steps b'.steps := by
  obtain ⟨us, hus, rfl⟩ := upgrade_eq_ok.mp h
  obtain ⟨us', hus', hall⟩ := upToIds_upgradeSteps (.ofCount m) hus
  exact ⟨_, upgrade_eq_ok.mpr ⟨us', hus', rfl⟩,
    List.rel_append (List.forall₂_same.mpr fun u _ => .refl u) hall⟩

end Analysis

end SheetScript
