import SheetScript.Proofs.Analysis.Canonical
import SheetScript.Proofs.Analysis.Resolution

/-! # Room for the sheets of an analysis

  A translator makes room for the sheets that edits name, and nobody has asked before
  whether they are there.  So it may hold more sheets than an analysis works on, and an
  index that is large enough asks for more room than there can be.

  - `Translator.length_observe`: how many sheets the translator holds is told before.
  - `StoredEdit.demand_upgrade`: an upgrade neither names nor creates other sheets.
  - `Analysis.upgrade_in_room`: how many sheets are held at any time of an upgrade, and
    that nothing but a lack of room keeps an upgrade from its answer.
-/

namespace SheetScript

/-! ### One edit

  The number of sheets after an edit is that of the translator after it, or both are
  refused. -/

namespace Translator

variable {t t' : Translator} {s : StoredEdit} {count : Nat}

theorem length_padded (t : Translator) (i : Nat) :
    (t.padded i).sheets.length = max t.sheets.length (i + 1) := by
  simp only [padded, List.length_append, List.length_replicate]
  omega

theorem length_update (t : Translator) (i : Nat)
    (f : Dictionary Header ColumnId → Dictionary Header ColumnId) :
    (t.update i f).sheets.length = max t.sheets.length (i + 1) := by
  show ((t.padded i).sheets.modify i f).length = _
  rw [List.length_modify, length_padded]

theorem length_push (t : Translator) (m : Dictionary Header ColumnId) :
    (t.push m).sheets.length = t.sheets.length + 1 := by
  simp [push]

theorem length_observeKind (t : Translator) (params : Json) (k : EditKind) :
    (t.observeKind params k).map (fun u => u.sheets.length)
      = countKind t.sheets.length params k := by
  cases k with
  | renameColumn =>
    simp only [observeKind, countKind]
    cases Params.need params "sheet_index" Json.index? with
    | error f => rfl
    | ok i =>
      cases Params.need params "column_id" Json.string? with
      | error f => rfl
      | ok id =>
        cases Params.need params "new_column_header" Json.string? with
        | error f => rfl
        | ok header => exact congrArg Except.ok (length_update t i _)
  | duplicateSheet =>
    simp only [observeKind, countKind]
    cases Params.need params "sheet_index" Json.index? with
    | error f => rfl
    | ok i => exact congrArg Except.ok ((length_push _ _).trans (by rw [length_padded]))
  | deleteSheet =>
    simp only [observeKind, countKind]
    cases Params.need params "sheet_index" Json.index? with
    | error f => rfl
    | ok i => exact congrArg Except.ok List.length_eraseIdx
  | importFiles =>
    refine congrArg Except.ok ?_
    show (t.sheets ++ List.replicate _ []).length = _
    rw [List.length_append, List.length_replicate]
  | merge =>
    simp only [observeKind, countKind]
    cases Params.need params "sheet_index_one" Json.index? with
    | error f => rfl
    | ok one =>
      cases Params.need params "sheet_index_two" Json.index? with
      | error f => rfl
      | ok two => exact congrArg Except.ok ((length_push _ _).trans (by rw [length_padded]))
  | pivot =>
    simp only [observeKind, countKind]
    cases (params.field? "destination_sheet_index").bind Json.index? with
    | some i => exact congrArg Except.ok (length_update t i _)
    | none =>
      cases Params.need params "sheet_index" Json.index? with
      | error f => rfl
      | ok i => exact congrArg Except.ok ((length_push _ _).trans (by rw [length_padded]))
  | restrictHeaders =>
    simp only [observeKind, countKind]
    split
    · exact congrArg Except.ok (List.length_map _)
    · rfl
  | _ => rfl

/-- How many sheets a translator holds after an edit is told before. -/
theorem length_observe (t : Translator) (s : StoredEdit) :
    (t.observe s).map (fun u => u.sheets.length) = countAfter t.sheets.length s := by
  unfold observe countAfter
  cases EditKind.ofName? s.kind with
  | none => rfl
  | some k => exact length_observeKind t s.params k

/-- Where there is room, nothing but the edit itself is refused. -/
theorem observeWithin_of_room
    (h : ∀ n, countAfter t.sheets.length s = .ok n → n ≤ capacity) :
    t.observeWithin s = (t.observe s).mapError .refused := by
  have hlength := length_observe t s
  unfold observeWithin
  cases hobserve : t.observe s with
  | error f =>
    rw [hobserve] at hlength
    rw [← hlength]
    rfl
  | ok u =>
    rw [hobserve] at hlength
    have hroom : ¬ capacity < u.sheets.length := Nat.not_lt.mpr (h _ hlength.symm)
    rw [← hlength]
    show (if capacity < u.sheets.length then _ else _) = _
    rw [if_neg hroom]

theorem countAfter_of_observe {u : Translator} (h : t.observe s = .ok u) :
    countAfter t.sheets.length s = .ok u.sheets.length := by
  rw [← length_observe, h]
  rfl

end Translator

/-! ### What an edit asks for -/

namespace StoredEdit

/-- An index of a sheet in the parameters. -/
def index? (s : StoredEdit) (field : String) : Option Nat :=
  (s.params.field? field).bind Json.index?

/-- The sheets that an edit names and for which a translator makes room. -/
def named (s : StoredEdit) : List Nat :=
  match EditKind.ofName? s.kindNow with
  | some .renameColumn | some .duplicateSheet => (s.index? "sheet_index").toList
  | some .merge => (s.index? "sheet_index_one").toList ++ (s.index? "sheet_index_two").toList
  | some .pivot => ((s.index? "destination_sheet_index").or (s.index? "sheet_index")).toList
  | _ => []

/-- The number of sheets that an edit creates. -/
def created (s : StoredEdit) : Nat :=
  match EditKind.ofName? s.kindNow with
  | some .duplicateSheet | some .merge => 1
  | some .pivot => if (s.index? "destination_sheet_index").isSome then 0 else 1
  | some .importFiles =>
    (((s.params.field? "file_names").bind Json.items?).map List.length).getD 0
  | _ => 0

/-- The number of sheets up to the last one that an edit names. -/
def reach (s : StoredEdit) : Nat := (s.named.map (· + 1)).foldr max 0

variable {s : StoredEdit} {i : Nat}

theorem lt_reach (h : i ∈ s.named) : i < s.reach := by
  unfold reach
  generalize s.named = is at h
  induction h with
  | head is => exact Nat.lt_of_lt_of_le (Nat.lt_succ_self i) (Nat.le_max_left _ _)
  | tail j _ ih => exact Nat.lt_of_lt_of_le ih (Nat.le_max_right _ _)

theorem read_of_need {α : Type} {field : String} {read : Json → Option α} {a : α}
    (h : Params.need s.params field read = .ok a) :
    (s.params.field? field).bind read = some a := by
  unfold Params.need at h
  split at h
  · next hfield => exact hfield.trans (congrArg some (Except.ok.inj h))
  · cases h

theorem index?_of_need {field : String}
    (h : Params.need s.params field Json.index? = .ok i) : s.index? field = some i :=
  read_of_need h

/-- The number of sheets up to the last one that edits name. -/
def reachAll (ss : List StoredEdit) : Nat := (ss.map reach).foldr max 0

/-- The number of sheets that edits create. -/
def createdAll (ss : List StoredEdit) : Nat := (ss.map created).foldr (· + ·) 0

theorem reach_le_reachAll {ss : List StoredEdit} (h : s ∈ ss) : s.reach ≤ reachAll ss := by
  unfold reachAll
  induction h with
  | head ss => exact Nat.le_max_left _ _
  | tail b _ ih => exact Nat.le_trans ih (Nat.le_max_right _ _)

@[simp] theorem createdAll_nil : createdAll [] = 0 := rfl

@[simp] theorem createdAll_cons (s : StoredEdit) (ss : List StoredEdit) :
    createdAll (s :: ss) = s.created + createdAll ss := rfl

@[simp] theorem createdAll_append (ss us : List StoredEdit) :
    createdAll (ss ++ us) = createdAll ss + createdAll us := by
  induction ss with
  | nil => simp
  | cons s rest ih => rw [List.cons_append, createdAll_cons, createdAll_cons, ih, Nat.add_assoc]

theorem createdAll_eq_zero {ss : List StoredEdit} (h : ∀ s ∈ ss, s.created = 0) :
    createdAll ss = 0 := by
  induction ss with
  | nil => rfl
  | cons s rest ih =>
    obtain ⟨hs, hrest⟩ := List.forall_mem_cons.mp h
    rw [createdAll_cons, hs, ih hrest]

end StoredEdit

namespace Translator

open StoredEdit (index?_of_need createdAll)

variable {t : Translator} {s : StoredEdit} {n m b : Nat}

/-- The sheets that a translator makes room for are those that the edit names, and it holds
  all of these from then on. -/
theorem countAfter_bounds (hgroup : s.kind ≠ "group") (h : countAfter n s = .ok m) :
    (∀ b, n ≤ b → (∀ i ∈ s.named, i < b) → m ≤ b + s.created) ∧ ∀ i ∈ s.named, i < m := by
  unfold countAfter at h
  unfold StoredEdit.named StoredEdit.created
  rw [show s.kindNow = s.kind from if_neg hgroup]
  cases hk : EditKind.ofName? s.kind with
  | none =>
    rw [hk] at h
    obtain rfl := Except.ok.inj h
    simp
  | some k =>
    rw [hk] at h
    dsimp only at h ⊢
    cases k with
    | renameColumn =>
      simp only [countKind, bind_eq_ok, pure_eq_ok] at h
      obtain ⟨i, hi, -, -, -, -, rfl⟩ := h
      simp only [index?_of_need hi, Option.toList_some, List.mem_singleton, forall_eq]
      exact ⟨fun b => by omega, by omega⟩
    | duplicateSheet =>
      simp only [countKind, bind_eq_ok, pure_eq_ok] at h
      obtain ⟨i, hi, rfl⟩ := h
      simp only [index?_of_need hi, Option.toList_some, List.mem_singleton, forall_eq]
      exact ⟨fun b => by omega, by omega⟩
    | deleteSheet =>
      simp only [countKind, bind_eq_ok, pure_eq_ok] at h
      obtain ⟨i, -, rfl⟩ := h
      refine ⟨fun b hn _ => ?_, List.forall_mem_nil _⟩
      show (if i < n then n - 1 else n) ≤ b + 0
      split <;> omega
    | importFiles =>
      obtain rfl := Except.ok.inj h
      simp
    | merge =>
      simp only [countKind, bind_eq_ok, pure_eq_ok] at h
      obtain ⟨one, hone, two, htwo, rfl⟩ := h
      simp only [index?_of_need hone, index?_of_need htwo, Option.toList_some, List.cons_append,
        List.nil_append, List.mem_cons, List.not_mem_nil, or_false, forall_eq_or_imp, forall_eq]
      exact ⟨fun b => by omega, by omega⟩
    | pivot =>
      -- a table has a sheet of its own unless it is written into one that is named
      cases hto : s.index? "destination_sheet_index" with
      | some i =>
        have hread : (s.params.field? "destination_sheet_index").bind Json.index? = some i := hto
        simp only [countKind, hread] at h
        obtain rfl := Except.ok.inj h
        simp only [Option.some_or, Option.toList_some, List.mem_singleton, forall_eq,
          Option.isSome_some, if_true]
        exact ⟨fun b => by omega, by omega⟩
      | none =>
        have hread : (s.params.field? "destination_sheet_index").bind Json.index? = none := hto
        simp only [countKind, hread, bind_eq_ok, pure_eq_ok] at h
        obtain ⟨i, hi, rfl⟩ := h
        simp only [index?_of_need hi, Option.none_or, Option.toList_some, List.mem_singleton,
          forall_eq, Option.isSome_none, Bool.false_eq_true, if_false]
        exact ⟨fun b => by omega, by omega⟩
    | _ =>
      obtain rfl := Except.ok.inj h
      simp

/-- Along edits that name no other sheets than the first `b`, a translator holds these and
  those that are created. -/
theorem length_foldlM {us : List StoredEdit} {t' : Translator}
    (h : us.foldlM observe t = .ok t') (hgroup : ∀ u ∈ us, u.kind ≠ "group")
    (ht : t.sheets.length ≤ b) (hnamed : ∀ u ∈ us, ∀ i ∈ u.named, i < b) :
    t'.sheets.length ≤ b + createdAll us := by
  induction us generalizing t b with
  | nil =>
    obtain rfl := Except.ok.inj h
    exact ht
  | cons u us ih =>
    rw [List.foldlM_cons, bind_eq_ok] at h
    obtain ⟨mid, hmid, h⟩ := h
    obtain ⟨hu, hus⟩ := List.forall_mem_cons.mp hgroup
    obtain ⟨hfirst, hrest⟩ := List.forall_mem_cons.mp hnamed
    have hlength := (countAfter_bounds hu (countAfter_of_observe hmid)).1 b ht hfirst
    have hlast := ih h hus hlength fun v hv i hi => Nat.lt_add_right _ (hrest v hv i hi)
    rw [StoredEdit.createdAll_cons]
    omega

end Translator

/-! ### Upgrades keep what is asked for

  An upgrade writes ids in the place of headers.  It neither changes which sheets an edit
  names nor how many files it imports. -/

namespace Params

/-- The fields for the sheets and the files of an edit. -/
def sheetFields : List String :=
  ["sheet_index", "sheet_index_one", "sheet_index_two", "destination_sheet_index", "file_names"]

/-- Parameters `q` with the same sheets and files as `p`. -/
def SameSheets (p q : Params) : Prop :=
  ∀ name ∈ sheetFields, Dictionary.get? q name = Dictionary.get? p name

namespace SameSheets

variable {t : Translator} {p q r : Params} {j : Json} {field name : String}

theorem refl (p : Params) : p.SameSheets p := fun _ _ => rfl

theorem insert (h : p.SameSheets q) (hfield : field ∉ sheetFields) (j : Json) :
    p.SameSheets (Dictionary.insert q field j) := by
  intro name hname
  rw [Dictionary.get?_insert, if_neg (ne_of_mem_of_not_mem hname hfield).symm]
  exact h name hname

theorem erase (h : p.SameSheets q) (hfield : field ∉ sheetFields) :
    p.SameSheets (Dictionary.erase q field) := by
  intro name hname
  rw [Dictionary.get?_erase, if_neg (ne_of_mem_of_not_mem hname hfield).symm]
  exact h name hname

theorem take (h : p.SameSheets q) (hfield : field ∉ sheetFields)
    (htake : take q field = .ok (j, r)) : p.SameSheets r :=
  (take_eq_ok.mp htake).2 ▸ h.erase hfield

theorem takeHeader {header : Header} (h : p.SameSheets q) (hfield : field ∉ sheetFields)
    (htake : takeHeader q field = .ok (header, r)) : p.SameSheets r :=
  (takeHeader_eq_ok htake).2 ▸ h.erase hfield

theorem takeHeaders {headers : List Header} (h : p.SameSheets q) (hfield : field ∉ sheetFields)
    (htake : takeHeaders q field = .ok (headers, r)) : p.SameSheets r :=
  (takeHeaders_eq_ok htake).2 ▸ h.erase hfield

theorem headerToId (h : p.SameSheets q) (hfield : field ∉ sheetFields)
    (hname : name ∉ sheetFields) (hid : headerToId t field name q = .ok r) : p.SameSheets r := by
  obtain ⟨i, header, -, -, rfl⟩ := headerToId_eq_ok hid
  exact (h.erase hfield).insert hname _

theorem filter (h : p.SameSheets q) (hfilter : filter t q = .ok r) : p.SameSheets r := by
  have herase : ∀ {q : Params}, p.SameSheets q →
      p.SameSheets (Dictionary.erase q "has_non_empty_filter") := fun h => h.erase (by decide)
  have hinsert : ∀ {q : Params} (j : Json), p.SameSheets q →
      p.SameSheets (Dictionary.insert q "filters" j) := fun j h => h.insert (by decide) j
  unfold Params.filter at hfilter
  split at hfilter
  · obtain ⟨q', hq', hfilter⟩ := bind_eq_ok.mp hfilter
    have hsame := herase (h.headerToId (by decide) (by decide) hq')
    rw [← pure_eq_ok.mp hfilter]
    split
    · exact hinsert _ hsame
    · exact hsame
  · rw [← pure_eq_ok.mp hfilter]
    split
    · exact hinsert _ (herase h)
    · exact herase h

theorem mergeIds (h : p.SameSheets q) (hids : mergeIds t q = .ok r) : p.SameSheets r := by
  simp only [Params.mergeIds, bind_eq_ok, pure_eq_ok, Prod.exists] at hids
  obtain ⟨one, -, two, -, k1, p1, hk1, k2, p2, hk2, s1, p3, hs1, s2, p4, hs2, rfl⟩ := hids
  have hrest : p.SameSheets p4 := (((h.takeHeader (by decide) hk1).takeHeader (by decide) hk2
    ).takeHeaders (by decide) hs1).takeHeaders (by decide) hs2
  exact (((hrest.insert (by decide) _).insert (by decide) _).insert (by decide) _).insert
    (by decide) _

theorem mergePairs (h : p.SameSheets q) (hpairs : mergePairs q = .ok r) : p.SameSheets r := by
  simp only [Params.mergePairs, bind_eq_ok, pure_eq_ok, Prod.exists] at hpairs
  obtain ⟨one, p1, hone, two, p2, htwo, rfl⟩ := hpairs
  exact ((h.take (by decide) hone).take (by decide) htwo).insert (by decide) _

theorem pivotIds (h : p.SameSheets q) (hids : pivotIds t q = .ok r) : p.SameSheets r := by
  simp only [Params.pivotIds, bind_eq_ok, Prod.exists] at hids
  obtain ⟨i, -, rows, p1, hrows, columns, p2, hcolumns, j, p3, hj, hids⟩ := hids
  have hp3 : p.SameSheets p3 :=
    ((h.takeHeaders (by decide) hrows).takeHeaders (by decide) hcolumns).take (by decide) hj
  split at hids
  · next values _ heq =>
    obtain ⟨rfl, rfl⟩ := Prod.mk.inj heq
    obtain rfl := pure_eq_ok.mp hids
    exact (((hp3.insert (by decide) _).insert (by decide) _).insert (by decide) _).insert
      (by decide) _
  · simp at hids

end SameSheets

end Params

namespace StoredEdit

open Params (SameSheets)

variable {t : Translator} {k : EditKind} {n : Nat} {s s' last b : StoredEdit}
  {later block : List StoredEdit}

theorem sameSheets_nextParams {p q r : Params} {version : Nat} (h : p.SameSheets q)
    (hnext : nextParams t k version q = .ok r) : p.SameSheets r := by
  unfold nextParams at hnext
  split at hnext
  case h_1 => exact Except.ok.inj hnext ▸ h.insert (by decide) _
  case h_2 | h_3 | h_4 | h_5 | h_6 | h_7 => exact h.headerToId (by decide) (by decide) hnext
  case h_8 =>
    simp only [bind_eq_ok, pure_eq_ok, Prod.exists] at hnext
    obtain ⟨id, q', hid, rfl⟩ := hnext
    exact (h.take (by decide) hid).insert (by decide) _
  case h_9 | h_10 | h_11 => exact h.filter hnext
  case h_12 =>
    obtain rfl := Except.ok.inj hnext
    split
    · exact h
    · exact h.insert (by decide) _
  case h_13 => exact h.mergeIds hnext
  case h_14 => exact h.mergePairs hnext
  case h_15 =>
    simp only [Params.pivotLists, bind_eq_ok, pure_eq_ok, Prod.exists] at hnext
    obtain ⟨values, q', hvalues, rfl⟩ := hnext
    exact (h.take (by decide) hvalues).insert (by decide) _
  case h_16 | h_17 | h_18 | h_19 => exact Except.ok.inj hnext ▸ h
  case h_20 => exact h.pivotIds hnext
  case h_21 => exact Except.ok.inj hnext ▸ (h.erase (by decide)).insert (by decide) _
  case h_22 => exact Except.ok.inj hnext ▸ h.insert (by decide) _
  case h_23 => exact Except.ok.inj hnext ▸ h.insert (by decide) _
  case h_24 => cases hnext

/-- The sheets and files of an upgraded edit are those of the old one. -/
theorem field?_advance (h : advance t k n s = .ok (last, later)) :
    last.kind = s.kind
      ∧ ∀ name ∈ Params.sheetFields, last.params.field? name = s.params.field? name := by
  induction n generalizing s later with
  | zero =>
    obtain rfl := advance_zero h
    exact ⟨rfl, fun _ _ => rfl⟩
  | succ n ih =>
    simp only [advance, bind_eq_ok, pure_eq_ok, Prod.exists, Prod.mk.injEq] at h
    obtain ⟨fields, hfields, p, hp, _, rest, hrest, rfl, rfl⟩ := h
    obtain ⟨hparams, -⟩ := paramFields_eq_ok hfields
    obtain ⟨hkind, hsame⟩ := @ih ⟨s.version + 1, s.kind, .object p⟩ _ hrest
    refine ⟨hkind, fun name hname => ?_⟩
    rw [hsame name hname, hparams]
    exact sameSheets_nextParams (SameSheets.refl fields) hp name hname

theorem field?_groupToPivot (h : s.groupToPivot = .ok s') :
    ∀ name ∈ Params.sheetFields, s'.params.field? name = s.params.field? name := by
  simp only [groupToPivot, bind_eq_ok, pure_eq_ok, Prod.exists] at h
  obtain ⟨p, hp, rows, p', hrows, rfl⟩ := h
  obtain ⟨hparams, -⟩ := paramFields_eq_ok hp
  rw [hparams]
  exact ((((SameSheets.refl p).take (by decide) hrows).erase (by decide)).insert
    (by decide) rows).insert (by decide) _

/-- An edit asks for the sheets that its kind and its sheets and files tell. -/
theorem demand_congr (hkind : s'.kindNow = s.kindNow)
    (hfields : ∀ name ∈ Params.sheetFields, s'.params.field? name = s.params.field? name) :
    s'.named = s.named ∧ s'.created = s.created := by
  have hindex : ∀ name ∈ Params.sheetFields, s'.index? name = s.index? name := fun name hname =>
    congrArg (·.bind Json.index?) (hfields name hname)
  unfold named created
  rw [hkind, hfields "file_names" (by decide), hindex "sheet_index" (by decide),
    hindex "sheet_index_one" (by decide), hindex "sheet_index_two" (by decide),
    hindex "destination_sheet_index" (by decide)]
  exact ⟨rfl, rfl⟩

/-- An upgrade asks for the same sheets as the edit did, and the edits that follow it for
  none. -/
theorem demand_upgrade (h : s.upgrade t = .ok block) :
    ∃ last later, block = last :: later ∧ last.named = s.named ∧ last.created = s.created
      ∧ ∀ b ∈ later, b.named = [] ∧ b.created = 0 := by
  have hcore : ∀ {s : StoredEdit}, s.kind ≠ "group" → s.upgrade t = .ok block →
      ∃ last later, block = last :: later ∧ last.kind = s.kind
        ∧ (∀ name ∈ Params.sheetFields, last.params.field? name = s.params.field? name)
        ∧ ∀ b ∈ later, b.named = [] ∧ b.created = 0 := by
    intro s hgroup h
    obtain ⟨k, last, later, -, -, hadvance, rfl⟩ := (upgrade_eq_ok hgroup).mp h
    obtain ⟨hkind, hfields⟩ := field?_advance hadvance
    refine ⟨last, later, rfl, hkind, hfields, fun b hb => ?_⟩
    rw [later_advance hadvance] at hb
    obtain ⟨version, -, rfl⟩ := List.mem_map.mp hb
    exact ⟨rfl, rfl⟩
  by_cases hgroup : s.kind = "group"
  · obtain ⟨s', hs', hupgrade⟩ := upgrade_of_group hgroup h
    have hkind' := kind_groupToPivot hs'
    obtain ⟨last, later, hblock, hkind, hfields, hlater⟩ := hcore (hkind' ▸ by decide) hupgrade
    have hnow : last.kindNow = s.kindNow := by
      unfold kindNow
      rw [hkind, hkind', if_pos hgroup]
      rfl
    obtain ⟨hnamed, hcreated⟩ := demand_congr hnow fun name hname =>
      (hfields name hname).trans (field?_groupToPivot hs' name hname)
    exact ⟨last, later, hblock, hnamed, hcreated, hlater⟩
  · obtain ⟨last, later, hblock, hkind, hfields, hlater⟩ := hcore hgroup h
    have hnow : last.kindNow = s.kindNow := by rw [kindNow, kindNow, hkind]
    obtain ⟨hnamed, hcreated⟩ := demand_congr hnow hfields
    exact ⟨last, later, hblock, hnamed, hcreated, hlater⟩

end StoredEdit

namespace StoredEdit

variable {t : Translator} {s b : StoredEdit} {block : List StoredEdit}

/-- No upgraded edit is a grouping. -/
theorem kind_ne_group_of_upgrade (h : s.upgrade t = .ok block) : ∀ b ∈ block, b.kind ≠ "group" := by
  intro b hb
  obtain ⟨k, hk, -⟩ := isCurrent_iff.mp ((becomes_of_upgrade h).2 b hb)
  exact EditKind.ne_group_of_ofName? hk

theorem createdAll_upgrade (h : s.upgrade t = .ok block) : createdAll block = s.created := by
  obtain ⟨last, later, rfl, -, hcreated, hlater⟩ := demand_upgrade h
  have hnone : createdAll later = 0 := createdAll_eq_zero fun b hb => (hlater b hb).2
  rw [createdAll_cons, hcreated, hnone, Nat.add_zero]

theorem mem_named_of_upgrade {i : Nat} (h : s.upgrade t = .ok block) (hb : b ∈ block)
    (hi : i ∈ b.named) : i ∈ s.named := by
  obtain ⟨last, later, rfl, hnamed, -, hlater⟩ := demand_upgrade h
  rcases List.mem_cons.mp hb with rfl | hb
  · exact hnamed ▸ hi
  · rw [(hlater b hb).1] at hi
    cases hi

end StoredEdit

/-! ### Samples -/

namespace Sample

/-- An edit that renames the column `A` of the sheet with an index. -/
def relabeling (sheet : Nat) : StoredEdit :=
  ⟨2, "rename_column", .object [("column_id", .string "A"), ("new_column_header", .string "B"),
    ("sheet_index", .int sheet)]⟩

/-- The first sheet is copied, and a column of the copy renamed. -/
def renamedCopy : Analysis :=
  ⟨"0.4.0", [⟨1, "dataframe_duplicate", .object [("sheet_index", .int 0)]⟩, relabeling 1]⟩

end Sample

/-! ### Whole upgrades -/

namespace Analysis

open StoredEdit (createdAll reachAll)
open Translator (capacity countAfter observeWithin)

/-- In an upgrade of edits that starts with a translator, the translator is `t'` when it
  comes to the upgraded edit `u`. -/
inductive Observes : Translator → List StoredEdit → Translator → StoredEdit → Prop where
  | now {t t' : Translator} {s u : StoredEdit} {steps seen rest : List StoredEdit}
      (hs : s.upgrade t = .ok (seen ++ u :: rest))
      (hseen : seen.foldlM Translator.observe t = .ok t') : Observes t (s :: steps) t' u
  | later {t mid t' : Translator} {s u : StoredEdit} {steps block : List StoredEdit}
      (hs : s.upgrade t = .ok block) (hblock : block.foldlM Translator.observe t = .ok mid)
      (h : Observes mid steps t' u) : Observes t (s :: steps) t' u

variable {t t' mid : Translator} {s u : StoredEdit} {steps block seen rest : List StoredEdit}
  {b n : Nat}

theorem Observes.kind_ne_group (h : Observes t steps t' u) : u.kind ≠ "group" := by
  induction h with
  | now hs _ =>
    exact StoredEdit.kind_ne_group_of_upgrade hs _ (List.mem_append_right _ (List.mem_cons_self ..))
  | later _ _ _ ih => exact ih

theorem Observes.named (h : Observes t steps t' u) : ∃ s ∈ steps, ∀ i ∈ u.named, i ∈ s.named := by
  induction h with
  | now hs _ =>
    exact ⟨_, List.mem_cons_self .., fun i hi => StoredEdit.mem_named_of_upgrade hs
      (List.mem_append_right _ (List.mem_cons_self ..)) hi⟩
  | later _ _ _ ih =>
    obtain ⟨s, hs, hnamed⟩ := ih
    exact ⟨s, List.mem_cons_of_mem _ hs, hnamed⟩

/-- Where all edits are current, they are observed one by one. -/
theorem Observes.of_current (hcurrent : ∀ s ∈ steps, s.isCurrent = true)
    (h : Observes t steps t' u) :
    ∃ seen rest, steps = seen ++ u :: rest ∧ seen.foldlM Translator.observe t = .ok t' := by
  induction h with
  | @now t t' s u steps seen rest hs hseen =>
    obtain ⟨hfirst, -⟩ := List.forall_mem_cons.mp hcurrent
    rw [StoredEdit.upgrade_of_isCurrent hfirst] at hs
    cases seen with
    | nil =>
      obtain ⟨rfl, -⟩ := List.cons.inj (Except.ok.inj hs)
      exact ⟨[], steps, rfl, hseen⟩
    | cons v seen => simp at hs
  | @later t mid t' s u steps block hs hmid h ih =>
    obtain ⟨hfirst, hrest⟩ := List.forall_mem_cons.mp hcurrent
    rw [StoredEdit.upgrade_of_isCurrent hfirst] at hs
    obtain rfl := Except.ok.inj hs
    obtain ⟨seen, rest, rfl, hseen⟩ := ih hrest
    refine ⟨s :: seen, rest, rfl, ?_⟩
    simp only [List.foldlM_cons, List.foldlM_nil, bind_eq_ok, pure_eq_ok] at hmid ⊢
    obtain ⟨_, hmid, rfl⟩ := hmid
    exact ⟨_, hmid, hseen⟩

/-- What an upgraded edit names is named where the first edit of its block is observed. -/
theorem Observes.of_upgrade {i : Nat} (h : s.upgrade t = .ok block) (hu : u ∈ block)
    (hi : i ∈ u.named) : ∃ u, Observes t (s :: steps) t u ∧ i ∈ u.named := by
  obtain ⟨last, later, rfl, hnamed, -, -⟩ := StoredEdit.demand_upgrade h
  refine ⟨last, @Observes.now t t s last steps [] later h rfl, ?_⟩
  rw [hnamed]
  exact StoredEdit.mem_named_of_upgrade h hu hi

/-- A translator that comes to no sheets but the first `b` and those it holds never holds
  more than the first `b` and those that are created. -/
theorem Observes.count_le (h : Observes t steps t' u) (ht : t.sheets.length ≤ b)
    (hnamed : ∀ t' u, Observes t steps t' u → ∀ i ∈ u.named, i < max b t'.sheets.length)
    (hn : countAfter t'.sheets.length u = .ok n) : n ≤ b + createdAll steps := by
  have hblock : ∀ {t : Translator} {s : StoredEdit} {steps block : List StoredEdit} {b : Nat},
      s.upgrade t = .ok block → t.sheets.length ≤ b →
      (∀ t' u, Observes t (s :: steps) t' u → ∀ i ∈ u.named, i < max b t'.sheets.length) →
      ∀ u ∈ block, ∀ i ∈ u.named, i < b := by
    intro t s steps block b hs ht hnamed u hu i hi
    obtain ⟨u, hu, hi⟩ := Observes.of_upgrade hs hu hi
    have hlt := hnamed t u hu i hi
    omega
  induction h generalizing b with
  | @now t t' s u steps seen rest hs hseen =>
    have hfits := hblock hs ht hnamed
    have hkinds := StoredEdit.kind_ne_group_of_upgrade hs
    have hlength : t'.sheets.length ≤ b + createdAll seen :=
      Translator.length_foldlM hseen (fun v hv => hkinds v (List.mem_append_left _ hv)) ht
        fun v hv => hfits v (List.mem_append_left _ hv)
    have hu : u ∈ seen ++ u :: rest := List.mem_append_right _ (List.mem_cons_self ..)
    have hlast := (Translator.countAfter_bounds (hkinds u hu) hn).1 _ hlength fun i hi =>
      Nat.lt_add_right _ (hfits u hu i hi)
    have hcreated := StoredEdit.createdAll_upgrade hs
    rw [StoredEdit.createdAll_append, StoredEdit.createdAll_cons] at hcreated
    rw [StoredEdit.createdAll_cons]
    omega
  | @later t mid t' s u steps block hs hmid h ih =>
    have hlength : mid.sheets.length ≤ b + s.created := by
      rw [← StoredEdit.createdAll_upgrade hs]
      exact Translator.length_foldlM hmid (StoredEdit.kind_ne_group_of_upgrade hs) ht
        (hblock hs ht hnamed)
    have hrest := ih hlength (fun t' u hu i hi => ?_) hn
    · rw [StoredEdit.createdAll_cons]
      omega
    · have hlt := hnamed t' u (Observes.later hs hmid hu) i hi
      omega

/-! ### Room for an upgrade -/

theorem foldlM_observeWithin {us : List StoredEdit}
    (hroom : ∀ seen u rest t', us = seen ++ u :: rest →
      seen.foldlM Translator.observe t = .ok t' →
      ∀ n, countAfter t'.sheets.length u = .ok n → n ≤ capacity) :
    us.foldlM observeWithin t = (us.foldlM Translator.observe t).mapError .refused := by
  induction us generalizing t with
  | nil => rfl
  | cons u us ih =>
    rw [List.foldlM_cons, List.foldlM_cons,
      Translator.observeWithin_of_room (hroom [] u us t rfl rfl)]
    cases hu : t.observe u with
    | error f => rfl
    | ok mid =>
      refine ih fun seen v rest t' hus hseen => ?_
      refine hroom (u :: seen) v rest t' (congrArg (u :: ·) hus) ?_
      rw [List.foldlM_cons, hu]
      exact hseen

/-- Where there is room for every translator, nothing but the edits themselves is refused. -/
theorem upgradeStepsWithin_of_room
    (hroom : ∀ t' u, Observes t steps t' u →
      ∀ n, countAfter t'.sheets.length u = .ok n → n ≤ capacity) :
    upgradeStepsWithin t steps = (upgradeSteps t steps).mapError .refused := by
  induction steps generalizing t with
  | nil => rfl
  | cons s steps ih =>
    unfold upgradeStepsWithin upgradeSteps
    cases hs : s.upgrade t with
    | error f => rfl
    | ok block =>
      show (block.foldlM observeWithin t >>= _) = Except.mapError _ (block.foldlM _ t >>= _)
      rw [foldlM_observeWithin fun seen u rest t' hblock hseen =>
        hroom t' u (Observes.now (hblock ▸ hs) hseen)]
      cases hmid : block.foldlM Translator.observe t with
      | error f => rfl
      | ok mid =>
        show (upgradeStepsWithin mid steps >>= _) = Except.mapError _ (upgradeSteps mid steps >>= _)
        rw [ih fun t' u h => hroom t' u (Observes.later hs hmid h)]
        cases upgradeSteps mid steps <;> rfl

/-- An upgrade of an analysis over a number of sheets asks for no more sheets than there are
  up to the last one that it works on or names, and those that it creates.  If there can be
  as many then it ends with an analysis or with the fault of an edit.  The translator never
  holds more, and it holds every sheet that it is asked for; it holds no more than the sheets
  it started with and those that are created, if every edit names sheets that are there. -/
theorem upgrade_in_room (a : Analysis) (count : Nat) :
    (max count (reachAll a.steps) + createdAll a.steps ≤ capacity →
      a.upgradeWithin count = (a.upgrade count).mapError .refused)
    ∧ ∀ t u t', Observes (.ofCount count) a.steps t u → t.observe u = .ok t' →
      t'.sheets.length ≤ max count (reachAll a.steps) + createdAll a.steps
      ∧ (∀ i ∈ u.named, i < t'.sheets.length)
      ∧ ((∀ t u, Observes (.ofCount count) a.steps t u → ∀ i ∈ u.named, i < t.sheets.length) →
        t'.sheets.length ≤ count + createdAll a.steps) := by
  have hstart : (Translator.ofCount count).sheets.length = count := List.length_replicate
  -- an upgraded edit names sheets that its stored one names
  have hreach : ∀ t u, Observes (.ofCount count) a.steps t u → ∀ i ∈ u.named,
      i < max (max count (reachAll a.steps)) t.sheets.length := by
    intro t u h i hi
    obtain ⟨s, hs, hnamed⟩ := h.named
    have hlt := StoredEdit.lt_reach (hnamed i hi)
    have hle := StoredEdit.reach_le_reachAll hs
    omega
  have hbound : ∀ t u, Observes (.ofCount count) a.steps t u → ∀ n,
      countAfter t.sheets.length u = .ok n →
      n ≤ max count (reachAll a.steps) + createdAll a.steps := fun t u h n hn =>
    h.count_le (Nat.le_trans (Nat.le_of_eq hstart) (Nat.le_max_left _ _)) hreach hn
  constructor
  · intro hroom
    have hsteps := upgradeStepsWithin_of_room fun t u h n hn =>
      Nat.le_trans (hbound t u h n hn) hroom
    have hcount : ¬ capacity < count := by omega
    unfold upgradeWithin upgrade
    rw [if_neg hcount, hsteps]
    cases upgradeSteps (.ofCount count) a.steps <;> rfl
  · intro t u t' h hu
    have hn := Translator.countAfter_of_observe hu
    refine ⟨hbound t u h _ hn, (Translator.countAfter_bounds h.kind_ne_group hn).2, ?_⟩
    intro hthere
    have hheld : ∀ t u, Observes (.ofCount count) a.steps t u → ∀ i ∈ u.named,
        i < max count t.sheets.length := fun t u h i hi =>
      Nat.lt_of_lt_of_le (hthere t u h i hi) (Nat.le_max_right _ _)
    exact h.count_le (Nat.le_of_eq hstart) hheld hn

/-- The copy is there when its column is renamed, so no third sheet is held. -/
theorem upgrade_in_room_renamedCopy :
    Sample.renamedCopy.upgradeWithin 1 = (Sample.renamedCopy.upgrade 1).mapError .refused
    ∧ ∃ t t', Observes (.ofCount 1) Sample.renamedCopy.steps t (Sample.relabeling 1)
      ∧ t.observe (Sample.relabeling 1) = .ok t' ∧ t'.sheets.length ≤ 1 + 1 := by
  obtain ⟨hroom, hcourse⟩ := upgrade_in_room Sample.renamedCopy 1
  have hsecond : Observes (.ofCount 1) Sample.renamedCopy.steps ⟨[[], []]⟩ (Sample.relabeling 1) :=
    Observes.later rfl rfl (@Observes.now _ _ _ _ _ [] [] rfl rfl)
  obtain ⟨-, -, hthere⟩ := hcourse _ _ _ hsecond rfl
  refine ⟨hroom (by decide), _, _, hsecond, rfl, hthere fun t u h => ?_⟩
  obtain ⟨seen, rest, hat, hseen⟩ := h.of_current (by decide)
  rcases seen with _ | ⟨first, _ | ⟨second, seen⟩⟩
  · obtain ⟨rfl, -⟩ := List.cons.inj hat
    obtain rfl := Except.ok.inj hseen
    decide
  · obtain ⟨hfirst, hat⟩ := List.cons.inj hat
    obtain ⟨rfl, -⟩ := List.cons.inj hat
    rw [← hfirst] at hseen
    obtain rfl : ⟨[[], []]⟩ = t := Except.ok.inj hseen
    decide
  · simp [Sample.renamedCopy] at hat

/-- An edit can name a sheet that is far away.  Then a translator asks for more than there
  can be, or it holds sheets that nothing has created. -/
theorem holds_more_far_away :
    let farthest : Analysis := ⟨"0.4.0", [Sample.relabeling 0xFFFFFFFFFFFFFFFF]⟩
    let far : Analysis := ⟨"0.4.0", [Sample.relabeling 3]⟩
    parse farthest.text = .ok farthest ∧ farthest.upgradeWithin 1 = .error .overflow
    ∧ parse far.text = .ok far ∧ createdAll far.steps = 0
    ∧ ∃ t', Observes (.ofCount 1) far.steps (.ofCount 1) (Sample.relabeling 3)
      ∧ (Translator.ofCount 1).observe (Sample.relabeling 3) = .ok t' ∧ t'.sheets.length = 4 := by
  have hparse : ∀ i : Nat,
      (⟨"0.4.0", [Sample.relabeling i]⟩ : Analysis).toJson.fits 128 = true →
      parse (⟨"0.4.0", [Sample.relabeling i]⟩ : Analysis).text
        = .ok ⟨"0.4.0", [Sample.relabeling i]⟩ := by
    intro i hfits
    have hversion : (Sample.relabeling i).version < 0x100000000 := (by decide : 2 < 0x100000000)
    have hnames : ["column_id", "new_column_header", "sheet_index"].Pairwise (· < ·) := by decide
    have hparams : (Sample.relabeling i).params.IsCanonical :=
      Json.isCanonical_object hnames (by simp)
    exact parse_text (List.forall_mem_singleton.mpr ⟨hversion, hparams⟩) (ofText?_text hfits)
  refine ⟨hparse _ (by decide), rfl, hparse _ (by decide), rfl, _, ?_, rfl, rfl⟩
  exact @Observes.now _ _ _ _ _ [] [] rfl rfl

end Analysis

end SheetScript
