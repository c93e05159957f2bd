import SheetScript.Proofs.Analysis.Mentions

/-! # Upgrading keeps what is mentioned

  An old edit is upgraded version by version, and on one of the steps its headers
  become ids.  The steps before leave the fields with the headers alone, and the
  steps behind those with the ids.

  Main statement: `StoredEdit.mentions_upgrade`.  An upgraded edit mentions, in
  the same parts and sheets, exactly the columns for which the translator takes
  the headers that the old edit mentions.
-/

namespace SheetScript

/-! ### Reading edits -/

/-- A dictionary has the names of the fields that it is read from. -/
theorem Json.mem_keys_of_dictionaryOf? {α : Type} {read : Json → Option α}
    {fields : List (String × Json)} {d : Dictionary String α} {name : String}
    (h : dictionaryOf? read (.object fields) = some d) :
    name ∈ Dictionary.keys d ↔ name ∈ fields.map Prod.fst := by
  have key : ∀ {fields : List (String × Json)} {entries : List (String × α)},
      fields.mapM (fun f => (read f.2).map fun a => (f.1, a)) = some entries →
      entries.map Prod.fst = fields.map Prod.fst := by
    intro fields
    induction fields with
    | nil =>
      intro entries hentries
      obtain rfl : [] = entries := by simpa using hentries
      rfl
    | cons f rest ih =>
      intro entries hentries
      simp only [List.mapM_cons, Option.bind_eq_bind, Option.bind_eq_some_iff, Option.pure_def,
        Option.some.injEq, Option.map_eq_some_iff] at hentries
      obtain ⟨_, ⟨a, -, rfl⟩, later, hlater, rfl⟩ := hentries
      rw [List.map_cons, List.map_cons, ih hlater]
  obtain ⟨entries, hentries, rfl⟩ := Option.map_eq_some_iff.mp h
  rw [Dictionary.mem_keys_ofList, key hentries]

namespace Edit

variable {p : List (String × Json)} {i : Nat} {id : ColumnId} {x : Edit}

/-- The kinds of edits that are about one column of a sheet. -/
def isAboutColumn : EditKind → Bool
  | .renameColumn | .moveColumn | .setFormula | .changeType | .filterRows | .sortRows => true
  | _ => false

/-- An edit about a column mentions the one in its parameters. -/
theorem mentions_of_column {k : EditKind} (hk : isAboutColumn k = true)
    (hx : ofJson? k (.object p) = some x)
    (hi : (Dictionary.get? p "sheet_index").bind Json.index? = some i)
    (hid : Dictionary.get? p "column_id" = some (.ofColumnId id)) :
    x.mentions = [⟨.column, i, id⟩] := by
  -- every kind about a column reads the two fields in the same way
  have hread : ∀ {names : List String} {r : Json.Record} {j : Nat} {c : ColumnId},
      (Json.object p).record? names = some r → "sheet_index" ∈ names ∧ "column_id" ∈ names →
      r.need "sheet_index" Json.index? = some j → r.need "column_id" Json.columnId? = some c →
      j = i ∧ c = id := by
    intro names r j c hr hnames hj hc
    rw [Json.need_eq hr hnames.1, hi] at hj
    rw [Json.need_eq hr hnames.2, hid] at hc
    exact ⟨(Option.some.inj hj).symm, (Option.some.inj hc).symm⟩
  cases k with
  | renameColumn =>
    obtain ⟨e, he, rfl⟩ := Option.map_eq_some_iff.mp hx
    simp only [RenameColumn.ofJson?, Option.bind_eq_bind, Option.bind_eq_some_iff, Option.pure_def,
      Option.some.injEq] at he
    obtain ⟨r, hr, j, hj, c, hc, _, -, rfl⟩ := he
    obtain ⟨rfl, rfl⟩ := hread hr (by decide) hj hc
    rfl
  | moveColumn =>
    obtain ⟨e, he, rfl⟩ := Option.map_eq_some_iff.mp hx
    simp only [MoveColumn.ofJson?, Option.bind_eq_bind, Option.bind_eq_some_iff, Option.pure_def,
      Option.some.injEq] at he
    obtain ⟨r, hr, j, hj, c, hc, _, -, rfl⟩ := he
    obtain ⟨rfl, rfl⟩ := hread hr (by decide) hj hc
    rfl
  | setFormula =>
    obtain ⟨e, he, rfl⟩ := Option.map_eq_some_iff.mp hx
    simp only [SetFormula.ofJson?, Option.bind_eq_bind, Option.bind_eq_some_iff, Option.pure_def,
      Option.some.injEq] at he
    obtain ⟨r, hr, j, hj, c, hc, _, -, _, -, rfl⟩ := he
    obtain ⟨rfl, rfl⟩ := hread hr (by decide) hj hc
    rfl
  | changeType =>
    obtain ⟨e, he, rfl⟩ := Option.map_eq_some_iff.mp hx
    simp only [ChangeType.ofJson?, Option.bind_eq_bind, Option.bind_eq_some_iff, Option.pure_def,
      Option.some.injEq] at he
    obtain ⟨r, hr, j, hj, c, hc, _, -, _, -, rfl⟩ := he
    obtain ⟨rfl, rfl⟩ := hread hr (by decide) hj hc
    rfl
  | filterRows =>
    obtain ⟨e, he, rfl⟩ := Option.map_eq_some_iff.mp hx
    simp only [FilterRows.ofJson?, Option.bind_eq_bind, Option.bind_eq_some_iff, Option.pure_def,
      Option.some.injEq] at he
    obtain ⟨r, hr, j, hj, c, hc, _, -, _, -, rfl⟩ := he
    obtain ⟨rfl, rfl⟩ := hread hr (by decide) hj hc
    rfl
  | sortRows =>
    obtain ⟨e, he, rfl⟩ := Option.map_eq_some_iff.mp hx
    simp only [SortRows.ofJson?, Option.bind_eq_bind, Option.bind_eq_some_iff, Option.pure_def,
      Option.some.injEq] at he
    obtain ⟨r, hr, j, hj, c, hc, _, -, rfl⟩ := he
    obtain ⟨rfl, rfl⟩ := hread hr (by decide) hj hc
    rfl
  | _ => cases hk

/-- A deletion mentions the columns in its parameters. -/
theorem mentions_of_deleteColumns {ids : List ColumnId}
    (hx : ofJson? .deleteColumns (.object p) = some x)
    (hi : (Dictionary.get? p "sheet_index").bind Json.index? = some i)
    (hids : Dictionary.get? p "column_ids" = some (.ofColumnIds ids)) :
    x.mentions = ids.map fun id => ⟨.column, i, id⟩ := by
  obtain ⟨e, he, rfl⟩ := Option.map_eq_some_iff.mp hx
  simp only [DeleteColumns.ofJson?, Option.bind_eq_bind, Option.bind_eq_some_iff, Option.pure_def,
    Option.some.injEq] at he
  obtain ⟨r, hr, j, hj, cs, hcs, rfl⟩ := he
  rw [Json.need_eq hr (by decide), hi] at hj
  rw [Json.need_eq hr (by decide), hids] at hcs
  rw [← Option.some.inj hj,
    ← Option.some.inj ((Json.columnIds?_ofColumnIds ids).symm.trans hcs)]
  rfl

/-- A merge mentions its keys and the selected columns. -/
theorem mentions_of_merge {one two : Nat} {left right : ColumnId} {leftIds rightIds : List ColumnId}
    (hx : ofJson? .merge (.object p) = some x)
    (hone : (Dictionary.get? p "sheet_index_one").bind Json.index? = some one)
    (htwo : (Dictionary.get? p "sheet_index_two").bind Json.index? = some two)
    (hkeys : Dictionary.get? p "merge_key_column_ids"
      = some (.array [.array [.ofColumnId left, .ofColumnId right]]))
    (hleft : Dictionary.get? p "selected_column_ids_one" = some (.ofColumnIds leftIds))
    (hright : Dictionary.get? p "selected_column_ids_two" = some (.ofColumnIds rightIds)) :
    x.mentions = ⟨.leftKey, one, left⟩ :: ⟨.rightKey, two, right⟩
      :: (leftIds.map (fun id => ⟨.leftSelected, one, id⟩)
        ++ rightIds.map fun id => ⟨.rightSelected, two, id⟩) := by
  obtain ⟨e, he, rfl⟩ := Option.map_eq_some_iff.mp hx
  simp only [Merge.ofJson?, Option.bind_eq_bind, Option.bind_eq_some_iff, Option.pure_def,
    Option.some.injEq] at he
  obtain ⟨r, hr, kind, -, i, hi, j, hj, keys, hks, ls, hls, rs, hrs, rfl⟩ := he
  rw [Json.need_eq hr (by decide), hone] at hi
  rw [Json.need_eq hr (by decide), htwo] at hj
  rw [Json.need_eq hr (by decide), hkeys] at hks
  rw [Json.need_eq hr (by decide), hleft] at hls
  rw [Json.need_eq hr (by decide), hright] at hrs
  rw [← Option.some.inj hi, ← Option.some.inj hj, ← Option.some.inj hks,
    ← Option.some.inj ((Json.columnIds?_ofColumnIds leftIds).symm.trans hls),
    ← Option.some.inj ((Json.columnIds?_ofColumnIds rightIds).symm.trans hrs)]
  rfl

/-- A pivot table mentions its rows, columns and values. -/
theorem mem_mentions_of_pivot {rows columns : List ColumnId} {values : List (String × Json)}
    (hx : ofJson? .pivot (.object p) = some x)
    (hi : (Dictionary.get? p "sheet_index").bind Json.index? = some i)
    (hrows : Dictionary.get? p "pivot_rows_column_ids" = some (.ofColumnIds rows))
    (hcolumns : Dictionary.get? p "pivot_columns_column_ids" = some (.ofColumnIds columns))
    (hvalues : Dictionary.get? p "values_column_ids_map" = some (.object values))
    (m : Mention ColumnId) :
    m ∈ x.mentions ↔ (∃ id ∈ rows, ⟨.pivotRow, i, id⟩ = m)
      ∨ (∃ id ∈ columns, ⟨.pivotColumn, i, id⟩ = m)
      ∨ ∃ name ∈ values.map Prod.fst, ⟨.pivotValue, i, ⟨name⟩⟩ = m := by
  obtain ⟨e, he, rfl⟩ := Option.map_eq_some_iff.mp hx
  simp only [Pivot.ofJson?, Option.bind_eq_bind, Option.bind_eq_some_iff, Option.pure_def,
    Option.some.injEq] at he
  obtain ⟨r, hr, j, hj, rs, hrs, cs, hcs, vs, hvs, _, -, _, -, _, -, rfl⟩ := he
  rw [Json.need_eq hr (by decide), hi] at hj
  rw [Json.need_eq hr (by decide), hrows] at hrs
  rw [Json.Record.orElse, Json.get?_of_record? hr (by decide), hcolumns] at hcs
  rw [Json.need_eq hr (by decide), hvalues] at hvs
  obtain rfl := Option.some.inj hj
  obtain rfl := Option.some.inj ((Json.columnIds?_ofColumnIds rows).symm.trans hrs)
  obtain rfl := Option.some.inj ((Json.columnIds?_ofColumnIds columns).symm.trans hcs)
  obtain ⟨d, hd, rfl⟩ := Option.map_eq_some_iff.mp hvs
  have hkeys : ∀ name, name ∈ Dictionary.keys d ↔ name ∈ values.map Prod.fst := fun name =>
    Json.mem_keys_of_dictionaryOf? hd
  have hids : Dictionary.keys (d.map fun v => ((⟨v.1⟩ : ColumnId), v.2))
      = (Dictionary.keys d).map ColumnId.mk := by
    simp [Dictionary.keys]
  unfold mentions
  simp only [hids, List.mem_append, List.mem_map, or_assoc, ← hkeys, exists_exists_and_eq_and]

end Edit

/-! ### Versions -/

namespace Params

variable {t : Translator} {p p' : List (String × Json)}

/-- The id in place of a header is where the current version looks for it. -/
theorem mentions_headerToId {field : String} (hfield : field ≠ "sheet_index")
    (hp : headerToId t field "column_id" p = .ok p') :
    ∃ i h, mentions p "sheet_index" .column (headers p field) = [⟨.column, i, h⟩]
      ∧ (Dictionary.get? p' "sheet_index").bind Json.index? = some i
      ∧ Dictionary.get? p' "column_id" = some (.ofColumnId (t.translate i h)) := by
  obtain ⟨i, h, hi, hheaders, rfl⟩ := headerToId_eq_ok hp
  refine ⟨i, h, ?_, ?_, ?_⟩
  · rw [mentions_of_sheet hi, hheaders]
    rfl
  · rw [Dictionary.get?_insert, if_neg (by decide), Dictionary.get?_erase, if_neg hfield]
    exact sheet_eq_ok.mp hi
  · rw [Dictionary.get?_insert, if_pos rfl]

/-- What a filter says of its column stays once it does not name a header. -/
theorem filter_again (hnone : Dictionary.get? p "column_header" = none)
    (hp : filter t p = .ok p') :
    Dictionary.get? p' "column_header" = none
      ∧ Dictionary.get? p' "sheet_index" = Dictionary.get? p "sheet_index"
      ∧ Dictionary.get? p' "column_id" = Dictionary.get? p "column_id" := by
  have hnot : Dictionary.contains p "column_header" = false := by simp [Dictionary.contains, hnone]
  simp only [filter, hnot, Bool.false_eq_true, if_false, bind_eq_ok, pure_eq_ok] at hp
  obtain ⟨_, rfl, hp⟩ := hp
  subst hp
  split <;> simp [Dictionary.get?_insert, Dictionary.get?_erase, hnone]

/-- A filter names its column by a header at most once. -/
theorem mentions_filter (hp : filter t p = .ok p') (hsome : headers p "column_header" ≠ []) :
    Dictionary.get? p' "column_header" = none
      ∧ ∃ i h, mentions p "sheet_index" .column (headers p "column_header") = [⟨.column, i, h⟩]
      ∧ (Dictionary.get? p' "sheet_index").bind Json.index? = some i
      ∧ Dictionary.get? p' "column_id" = some (.ofColumnId (t.translate i h)) := by
  have hcontains : Dictionary.contains p "column_header" = true := by
    rw [Dictionary.contains, Option.isSome_iff_ne_none]
    intro hnone
    exact hsome (by simp [headers, hnone])
  simp only [filter, hcontains, if_true, bind_eq_ok, pure_eq_ok] at hp
  obtain ⟨q, hq, hp⟩ := hp
  obtain ⟨i, h, hmentions, hi, hid⟩ := mentions_headerToId (by decide) hq
  obtain ⟨_, _, -, -, hq⟩ := headerToId_eq_ok hq
  have hgone : Dictionary.get? q "column_header" = none := by
    simp [hq, Dictionary.get?_insert, Dictionary.get?_erase]
  subst hp
  refine ⟨?_, i, h, hmentions, ?_, ?_⟩ <;>
    split <;> simp [Dictionary.get?_insert, Dictionary.get?_erase, hgone, hi, hid]

/-- Only the fields that are looked at count. -/
theorem mergeMentions_congr (h : ∀ name ∈ ["sheet_index_one", "sheet_index_two", "merge_key_one",
    "merge_key_two", "selected_columns_one", "selected_columns_two"],
    Dictionary.get? p' name = Dictionary.get? p name) : mergeMentions p' = mergeMentions p := by
  simp only [List.forall_mem_cons] at h
  obtain ⟨h1, h2, h3, h4, h5, h6, -⟩ := h
  have hsheet : ∀ {name}, Dictionary.get? p' name = Dictionary.get? p name →
      sheet p' name = sheet p name := by
    intro name hname
    show need (.object p') name Json.index? = need (.object p) name Json.index?
    unfold need Json.field?
    dsimp only
    rw [hname]
  simp only [mergeMentions, mentions, headers, hsheet h1, hsheet h2, h3, h4, h5, h6]

theorem headers_erase {field name : String} (hne : field ≠ name) :
    headers (Dictionary.erase p field) name = headers p name := by
  simp only [headers, Dictionary.get?_erase, if_neg hne]

/-- The ids of a merge in place of its headers. -/
theorem mentions_mergeIds (hp : mergeIds t p = .ok p') :
    ∃ (one two : Nat) (keyOne keyTwo : Header) (selectedOne selectedTwo : List Header),
      mergeMentions p = ⟨.leftKey, one, keyOne⟩ :: ⟨.rightKey, two, keyTwo⟩
        :: (selectedOne.map (fun h => ⟨.leftSelected, one, h⟩)
          ++ selectedTwo.map fun h => ⟨.rightSelected, two, h⟩)
      ∧ (Dictionary.get? p' "sheet_index_one").bind Json.index? = some one
      ∧ (Dictionary.get? p' "sheet_index_two").bind Json.index? = some two
      ∧ Dictionary.get? p' "merge_key_column_id_one" = some (.ofColumnId (t.translate one keyOne))
      ∧ Dictionary.get? p' "merge_key_column_id_two" = some (.ofColumnId (t.translate two keyTwo))
      ∧ Dictionary.get? p' "selected_column_ids_one"
        = some (.ofColumnIds (selectedOne.map (t.translate one)))
      ∧ Dictionary.get? p' "selected_column_ids_two"
        = some (.ofColumnIds (selectedTwo.map (t.translate two))) := by
  simp only [mergeIds, bind_eq_ok, pure_eq_ok, Prod.exists] at hp
  obtain ⟨one, hone, two, htwo, k1, _, hk1, k2, _, hk2, s1, _, hs1, s2, _, hs2, rfl⟩ := hp
  obtain ⟨hkey1, rfl⟩ := takeHeader_eq_ok hk1
  obtain ⟨hkey2, rfl⟩ := takeHeader_eq_ok hk2
  obtain ⟨hselected1, rfl⟩ := takeHeaders_eq_ok hs1
  obtain ⟨hselected2, rfl⟩ := takeHeaders_eq_ok hs2
  refine ⟨one, two, k1, k2, s1, s2, ?_, ?_, ?_, ?_, ?_, ?_, ?_⟩
  · rw [headers_erase (by decide)] at hkey2
    rw [headers_erase (by decide), headers_erase (by decide)] at hselected1
    rw [headers_erase (by decide), headers_erase (by decide), headers_erase (by decide)]
      at hselected2
    simp only [mergeMentions, mentions_of_sheet hone, mentions_of_sheet htwo, hkey1, hkey2,
      hselected1, hselected2, List.map_cons, List.map_nil, List.cons_append, List.nil_append]
  · simpa [Dictionary.get?_insert, Dictionary.get?_erase] using sheet_eq_ok.mp hone
  · simpa [Dictionary.get?_insert, Dictionary.get?_erase] using sheet_eq_ok.mp htwo
  all_goals simp [Dictionary.get?_insert]

/-- The fields of a pivot table that lead to the columns it mentions. -/
theorem pivotMentions_congr {rows columns rows' columns' : String}
    (hi : Dictionary.get? p' "sheet_index" = Dictionary.get? p "sheet_index")
    (hrows : headers p' rows' = headers p rows)
    (hcolumns : headers p' columns' = headers p columns)
    (hvalues : names p' "values" = names p "values") :
    pivotMentions p' rows' columns' = pivotMentions p rows columns := by
  have hsheet : sheet p' "sheet_index" = sheet p "sheet_index" := by
    unfold sheet need Json.field?
    dsimp only
    rw [hi]
  simp only [pivotMentions, mentions, hsheet, hrows, hcolumns, hvalues]

/-- Lists of aggregations stand at the same columns. -/
theorem pivotMentions_pivotLists (hp : pivotLists p = .ok p') :
    pivotMentions p' "pivot_rows" "pivot_columns"
      = pivotMentions p "pivot_rows" "pivot_columns" := by
  simp only [pivotLists, bind_eq_ok, pure_eq_ok, Prod.exists, take_eq_ok] at hp
  obtain ⟨values, _, ⟨hvalues, rfl⟩, rfl⟩ := hp
  refine pivotMentions_congr ?_ ?_ ?_ ?_
  · simp [Dictionary.get?_insert, Dictionary.get?_erase]
  · simp [headers, Dictionary.get?_insert, Dictionary.get?_erase]
  · simp [headers, Dictionary.get?_insert, Dictionary.get?_erase]
  · unfold names
    rw [Dictionary.get?_insert, if_pos rfl, hvalues]
    cases values with
    | object fields =>
      show (fields.map _).map Prod.fst = fields.map Prod.fst
      rw [List.map_map]
      refine List.map_congr_left fun f _ => ?_
      dsimp only [Function.comp_apply]
      split <;> rfl
    | _ => rfl

/-- The ids of a pivot table in place of its headers. -/
theorem mentions_pivotIds (hp : pivotIds t p = .ok p') :
    ∃ (i : Nat) (rows columns : List Header) (values : List (String × Json)),
      pivotMentions p "pivot_rows" "pivot_columns"
        = rows.map (Mention.mk .pivotRow i) ++ columns.map (Mention.mk .pivotColumn i)
          ++ (values.map Prod.fst).map (Mention.mk .pivotValue i)
      ∧ (Dictionary.get? p' "sheet_index").bind Json.index? = some i
      ∧ Dictionary.get? p' "pivot_rows_column_ids" = some (.ofColumnIds (rows.map (t.translate i)))
      ∧ Dictionary.get? p' "pivot_columns_column_ids"
        = some (.ofColumnIds (columns.map (t.translate i)))
      ∧ Dictionary.get? p' "values_column_ids_map" = some (.object (Dictionary.ofList
          (values.map fun v => ((t.translate i v.1).text, v.2)))) := by
  simp only [pivotIds, bind_eq_ok, Prod.exists, take_eq_ok] at hp
  obtain ⟨i, hi, rows, _, hrows, columns, _, hcolumns, j, _, ⟨hj, rfl⟩, hp⟩ := hp
  obtain ⟨hrow, rfl⟩ := takeHeaders_eq_ok hrows
  obtain ⟨hcolumn, rfl⟩ := takeHeaders_eq_ok hcolumns
  split at hp
  · next values _ heq =>
    obtain ⟨rfl, rfl⟩ := Prod.mk.inj heq
    obtain rfl := pure_eq_ok.mp hp
    simp only [Dictionary.get?_erase, String.reduceEq, if_false] at hj
    refine ⟨i, rows, columns, values, ?_, ?_, ?_, ?_, ?_⟩
    · rw [headers_erase (by decide)] at hcolumn
      simp only [pivotMentions, mentions_of_sheet hi, hrow, hcolumn, names, hj, Option.bind_some,
        Json.fields?, Option.elim_some]
    · simpa [Dictionary.get?_insert, Dictionary.get?_erase] using sheet_eq_ok.mp hi
    all_goals simp [Dictionary.get?_insert]
  · simp at hp

end Params

namespace StoredEdit

variable {t : Translator} {k : EditKind} {s last : StoredEdit} {later block : List StoredEdit}
  {x : Edit} {n : Nat}

/-- The fields of the parameters, if there are any. -/
def fieldsOf (s : StoredEdit) : List (String × Json) := s.params.fields?.getD []

@[simp] theorem fieldsOf_object (version : Nat) (kind : String) (p : List (String × Json)) :
    fieldsOf ⟨version, kind, .object p⟩ = p := rfl

theorem paramFields_eq_ok {p : List (String × Json)} (h : s.paramFields = .ok p) :
    s.params = .object p ∧ s.fieldsOf = p := by
  unfold paramFields at h
  split at h
  · next fields hfields =>
    obtain rfl := Except.ok.inj h
    exact ⟨hfields, by rw [fieldsOf, hfields]; rfl⟩
  · cases h

/-- An edit that is taken a version further. -/
theorem advance_succ (h : advance t k (n + 1) s = .ok (last, later)) :
    ∃ p rest, nextParams t k s.version s.fieldsOf = .ok p
      ∧ advance t k n ⟨s.version + 1, s.kind, .object p⟩ = .ok (last, rest) := by
  simp only [advance, bind_eq_ok, pure_eq_ok, Prod.exists, Prod.mk.injEq] at h
  obtain ⟨fields, hfields, p, hp, _, rest, hrest, rfl, -⟩ := h
  obtain ⟨-, rfl⟩ := paramFields_eq_ok hfields
  exact ⟨p, rest, hp, hrest⟩

theorem advance_zero (h : advance t k 0 s = .ok (last, later)) : last = s := by
  simp only [advance, Except.ok.injEq, Prod.mk.injEq] at h
  exact h.1.symm

theorem resolves_of_map {look : Nat → Header → ColumnId} {ms : List (Mention Header)}
    (h : x.mentions = ms.map (Mention.resolve look)) : Resolves look ms x := by
  intro m
  rw [h, List.mem_map]

/-- An edit is about one column, which it names by a header in its last version but
  one. -/
theorem resolves_column {field : String} (hk : Edit.isAboutColumn k = true)
    (hfield : field ≠ "sheet_index")
    (hnext : nextParams t k s.version s.fieldsOf
      = Params.headerToId t field "column_id" s.fieldsOf)
    (h : advance t k 1 s = .ok (last, later)) (hx : Edit.ofJson? k last.params = some x) :
    Resolves t.translate (Params.mentions s.fieldsOf "sheet_index" .column
      (Params.headers s.fieldsOf field)) x := by
  obtain ⟨p, rest, hp, h⟩ := advance_succ h
  rw [hnext] at hp
  obtain ⟨i, header, hmentions, hi, hid⟩ := Params.mentions_headerToId hfield hp
  obtain rfl := advance_zero h
  refine resolves_of_map ?_
  rw [hmentions, Edit.mentions_of_column hk hx hi hid]
  rfl

/-- A deletion names its column by a header, then by its id, then by a list. -/
theorem resolves_deleteColumns (hv : s.version = 1)
    (h : advance t .deleteColumns 2 s = .ok (last, later))
    (hx : Edit.ofJson? .deleteColumns last.params = some x) :
    Resolves t.translate (Params.mentions s.fieldsOf "sheet_index" .column
      (Params.headers s.fieldsOf "column_header")) x := by
  obtain ⟨p, rest, hp, h⟩ := advance_succ h
  obtain ⟨q, rest, hq, h⟩ := advance_succ h
  obtain rfl := advance_zero h
  rw [hv] at hp
  simp only [hv, nextParams] at hq
  obtain ⟨i, header, hmentions, hi, hid⟩ := Params.mentions_headerToId (by decide) hp
  simp only [bind_eq_ok, pure_eq_ok, Prod.exists, Params.take_eq_ok] at hq
  obtain ⟨j, _, ⟨hj, rfl⟩, rfl⟩ := hq
  rw [fieldsOf_object, hid, Option.some.injEq] at hj
  have hindex : (Dictionary.get? (Dictionary.insert (Dictionary.erase p "column_id") "column_ids"
      (.array [j])) "sheet_index").bind Json.index? = some i := by
    simpa [Dictionary.get?_insert, Dictionary.get?_erase] using hi
  have hids : Dictionary.get? (Dictionary.insert (Dictionary.erase p "column_id") "column_ids"
      (.array [j])) "column_ids" = some (.ofColumnIds [t.translate i header]) := by
    rw [Dictionary.get?_insert, if_pos rfl, ← hj]
    rfl
  refine resolves_of_map ?_
  rw [hmentions, Edit.mentions_of_deleteColumns hx hindex hids]
  rfl

/-- Every version of a filter but the last is taken further alike. -/
theorem nextParams_filterRows (t : Translator) {version : Nat} (hpos : 1 ≤ version)
    (hlt : version < 4) (p : List (String × Json)) :
    nextParams t .filterRows version p = Params.filter t p := by
  obtain rfl | rfl | rfl : version = 1 ∨ version = 2 ∨ version = 3 := by omega
  all_goals rfl

/-- A filter that names its column by an id mentions it in its last version. -/
theorem mentions_filterRows_later {i : Nat} {id : ColumnId} (hpos : 1 ≤ s.version)
    (hn : s.version + n = 4) (h : advance t .filterRows n s = .ok (last, later))
    (hx : Edit.ofJson? .filterRows last.params = some x)
    (hnone : Dictionary.get? s.fieldsOf "column_header" = none)
    (hi : (Dictionary.get? s.fieldsOf "sheet_index").bind Json.index? = some i)
    (hid : Dictionary.get? s.fieldsOf "column_id" = some (.ofColumnId id)) :
    x.mentions = [⟨.column, i, id⟩] := by
  induction n generalizing s later with
  | zero =>
    obtain rfl := advance_zero h
    cases hparams : last.params with
    | object p =>
      rw [fieldsOf, hparams] at hi hid
      rw [hparams] at hx
      exact Edit.mentions_of_column rfl hx hi hid
    | _ =>
      rw [fieldsOf, hparams] at hid
      cases hid
  | succ n ih =>
    obtain ⟨p, rest, hp, h⟩ := advance_succ h
    rw [nextParams_filterRows t hpos (by omega)] at hp
    obtain ⟨hnone, hsheet, hcolumn⟩ := Params.filter_again hnone hp
    exact ih (s := ⟨s.version + 1, s.kind, .object p⟩) (Nat.le_add_left 1 _)
      (by dsimp only; omega) h hnone (hsheet ▸ hi) (hcolumn ▸ hid)

/-- A filter may name its column by a header in any version but the last. -/
theorem resolves_filterRows (hpos : 1 ≤ s.version) (hlt : s.version < 4)
    (h : advance t .filterRows (4 - s.version) s = .ok (last, later))
    (hx : Edit.ofJson? .filterRows last.params = some x)
    (hsome : Params.headers s.fieldsOf "column_header" ≠ []) :
    Resolves t.translate (Params.mentions s.fieldsOf "sheet_index" .column
      (Params.headers s.fieldsOf "column_header")) x := by
  obtain ⟨n, hn⟩ : ∃ n, 4 - s.version = n + 1 := ⟨3 - s.version, by omega⟩
  rw [hn] at h
  obtain ⟨p, rest, hp, h⟩ := advance_succ h
  rw [nextParams_filterRows t hpos hlt] at hp
  obtain ⟨hnone, i, header, hmentions, hi, hid⟩ := Params.mentions_filter hp hsome
  have hlast := mentions_filterRows_later (s := ⟨s.version + 1, s.kind, .object p⟩)
    (Nat.le_add_left 1 _) (by dsimp only; omega) h hx hnone hi hid
  refine resolves_of_map ?_
  rw [hmentions, hlast]
  rfl

/-- The columns of a merge become ids, and then its keys a pair. -/
theorem resolves_mergeIds (hv : s.version = 2)
    (h : advance t .merge 2 s = .ok (last, later))
    (hx : Edit.ofJson? .merge last.params = some x) :
    Resolves t.translate (Params.mergeMentions s.fieldsOf) x := by
  obtain ⟨p, rest, hp, h⟩ := advance_succ h
  obtain ⟨q, rest, hq, h⟩ := advance_succ h
  obtain rfl := advance_zero h
  rw [hv] at hp
  simp only [hv, nextParams] at hq
  obtain ⟨one, two, keyOne, keyTwo, selectedOne, selectedTwo, hmentions, hone, htwo, hleft, hright,
    hselectedOne, hselectedTwo⟩ := Params.mentions_mergeIds hp
  simp only [Params.mergePairs, bind_eq_ok, pure_eq_ok, Prod.exists, Params.take_eq_ok] at hq
  obtain ⟨j, _, ⟨hj, rfl⟩, k, _, ⟨hk, rfl⟩, rfl⟩ := hq
  rw [fieldsOf_object, hleft, Option.some.injEq] at hj
  rw [fieldsOf_object, Dictionary.get?_erase, if_neg (by decide), hright, Option.some.injEq] at hk
  subst hj hk
  rw [fieldsOf_object] at hx
  have hlast : x.mentions = ⟨.leftKey, one, t.translate one keyOne⟩
      :: ⟨.rightKey, two, t.translate two keyTwo⟩
      :: ((selectedOne.map (t.translate one)).map (fun id => ⟨.leftSelected, one, id⟩)
        ++ (selectedTwo.map (t.translate two)).map fun id => ⟨.rightSelected, two, id⟩) := by
    refine Edit.mentions_of_merge hx ?_ ?_ ?_ ?_ ?_
    · simpa [Dictionary.get?_insert, Dictionary.get?_erase] using hone
    · simpa [Dictionary.get?_insert, Dictionary.get?_erase] using htwo
    · rw [Dictionary.get?_insert, if_pos rfl]
    · simpa [Dictionary.get?_insert, Dictionary.get?_erase] using hselectedOne
    · simpa [Dictionary.get?_insert, Dictionary.get?_erase] using hselectedTwo
  refine resolves_of_map ?_
  rw [hlast, hmentions]
  simp [Mention.resolve, Function.comp_def]

/-- The kind of a merge is added before its columns become ids. -/
theorem resolves_merge (hv : s.version = 1 ∨ s.version = 2)
    (h : advance t .merge (4 - s.version) s = .ok (last, later))
    (hx : Edit.ofJson? .merge last.params = some x) :
    Resolves t.translate (Params.mergeMentions s.fieldsOf) x := by
  rcases hv with hv | hv
  · rw [hv] at h
    obtain ⟨p, rest, hp, h⟩ := advance_succ h
    have hlast := resolves_mergeIds (s := ⟨s.version + 1, s.kind, .object p⟩)
      (by dsimp only; rw [hv]) h hx
    rw [fieldsOf_object] at hlast
    simp only [hv, nextParams, Except.ok.injEq] at hp
    -- only the field for the kind is new
    have hsame : Params.mergeMentions p = Params.mergeMentions s.fieldsOf := by
      refine Params.mergeMentions_congr fun name hname => ?_
      rw [← hp]
      split
      · rfl
      · rw [Dictionary.get?_insert, if_neg]
        rintro rfl
        simp at hname
    rwa [← hsame]
  · rw [hv] at h
    exact resolves_mergeIds hv h hx

/-- The columns of a pivot table become ids, which stay in later versions. -/
theorem resolves_pivotIds (hv : s.version = 3) (h : advance t .pivot 3 s = .ok (last, later))
    (hx : Edit.ofJson? .pivot last.params = some x) :
    Resolves t.translate (Params.pivotMentions s.fieldsOf "pivot_rows" "pivot_columns") x := by
  obtain ⟨p, rest, hp, h⟩ := advance_succ h
  obtain ⟨q, rest, hq, h⟩ := advance_succ h
  obtain ⟨r, rest, hr, h⟩ := advance_succ h
  obtain rfl := advance_zero h
  rw [hv] at hp
  simp only [hv, nextParams, fieldsOf_object, Except.ok.injEq] at hq hr
  subst hq hr
  obtain ⟨i, rows, columns, values, hmentions, hi, hrows, hcolumns, hvalues⟩ :=
    Params.mentions_pivotIds hp
  have hlast := Edit.mem_mentions_of_pivot (i := i) hx
    (by simpa [Dictionary.get?_insert, Dictionary.get?_erase] using hi)
    (by simpa [Dictionary.get?_insert, Dictionary.get?_erase] using hrows)
    (by simpa [Dictionary.get?_insert, Dictionary.get?_erase] using hcolumns)
    (by simpa [Dictionary.get?_insert, Dictionary.get?_erase] using hvalues)
  have hnames : ∀ name, name ∈ (Dictionary.ofList (values.map fun v =>
      ((t.translate i v.1).text, v.2))).map Prod.fst
        ↔ ∃ v ∈ values, (t.translate i v.1).text = name := by
    intro name
    refine Dictionary.mem_keys_ofList.trans ?_
    rw [List.map_map, List.mem_map]
    exact Iff.rfl
  intro m
  rw [hlast, hmentions]
  simp only [hnames, List.mem_append, List.mem_map, or_and_right, exists_or, or_assoc,
    exists_exists_and_eq_and]
  exact Iff.rfl

/-- A pivot table gets lists of aggregations before its columns become ids. -/
theorem resolves_pivot (hv : s.version = 1 ∨ s.version = 2 ∨ s.version = 3)
    (h : advance t .pivot (6 - s.version) s = .ok (last, later))
    (hx : Edit.ofJson? .pivot last.params = some x) :
    Resolves t.translate (Params.pivotMentions s.fieldsOf "pivot_rows" "pivot_columns") x := by
  have hsecond : ∀ {s : StoredEdit} {later : List StoredEdit}, s.version = 2 →
      advance t .pivot 4 s = .ok (last, later) →
      Resolves t.translate (Params.pivotMentions s.fieldsOf "pivot_rows" "pivot_columns") x := by
    intro s later hv h
    obtain ⟨p, rest, hp, h⟩ := advance_succ h
    simp only [hv, nextParams, Except.ok.injEq] at hp
    subst hp
    exact resolves_pivotIds (s := ⟨s.version + 1, s.kind, .object s.fieldsOf⟩)
      (by dsimp only; rw [hv]) h hx
  rcases hv with hv | hv | hv
  · rw [hv] at h
    obtain ⟨p, rest, hp, h⟩ := advance_succ h
    simp only [hv, nextParams] at hp
    have hlast := hsecond (s := ⟨s.version + 1, s.kind, .object p⟩) (by dsimp only; rw [hv]) h
    rwa [fieldsOf_object, Params.pivotMentions_pivotLists hp] at hlast
  · rw [hv] at h
    exact hsecond hv h
  · rw [hv] at h
    exact resolves_pivotIds hv h hx

/-! ### All edits -/

theorem upgrade_eq_ok (hgroup : s.kind ≠ "group") :
    s.upgrade t = .ok block ↔ ∃ k last later, EditKind.ofName? s.kind = some k
      ∧ s.version ≤ k.version ∧ advance t k (k.version - s.version) s = .ok (last, later)
      ∧ block = last :: later := by
  unfold upgrade
  simp only [hgroup, if_false, bind_eq_ok, pure_eq_ok, exists_eq_left']
  cases hk : EditKind.ofName? s.kind with
  | none => simp
  | some k =>
    simp only [throw_ite_eq_ok, Nat.not_lt, bind_eq_ok, pure_eq_ok, Prod.exists, Option.some.injEq,
      exists_eq_left', exists_and_left, eq_comm (a := block)]

theorem kind_groupToPivot {s' : StoredEdit} (h : s.groupToPivot = .ok s') :
    s'.kind = EditKind.pivot.name := by
  simp only [groupToPivot, bind_eq_ok, pure_eq_ok, Prod.exists] at h
  obtain ⟨_, -, _, _, -, rfl⟩ := h
  rfl

/-- A grouping is upgraded as the pivot table that it is now. -/
theorem upgrade_of_group (hgroup : s.kind = "group") (h : s.upgrade t = .ok block) :
    ∃ s', s.groupToPivot = .ok s' ∧ s'.upgrade t = .ok block := by
  have hsome : ∃ s', s.groupToPivot = .ok s' := by
    unfold upgrade at h
    simp only [hgroup, if_true, bind_eq_ok] at h
    obtain ⟨s', hs', -⟩ := h
    exact ⟨s', hs'⟩
  obtain ⟨s', hs'⟩ := hsome
  refine ⟨s', hs', ?_⟩
  have hpivot : s'.kind ≠ "group" := by rw [kind_groupToPivot hs']; decide
  unfold upgrade at h ⊢
  simp only [hgroup, if_true, hs', hpivot, if_false] at h ⊢
  exact h

/-- What a grouping mentions is mentioned by the pivot table. -/
theorem upgrade_group (hgroup : s.kind = "group") (h : s.upgrade t = .ok block) :
    ∃ s' : StoredEdit, s'.kind = EditKind.pivot.name ∧ s'.version = 1 ∧ s'.upgrade t = .ok block
      ∧ Params.pivotMentions s'.fieldsOf "pivot_rows" "pivot_columns"
        = Params.pivotMentions s.fieldsOf "group_rows" "group_columns" := by
  obtain ⟨s', hs', hupgrade⟩ := upgrade_of_group hgroup h
  simp only [groupToPivot, bind_eq_ok, pure_eq_ok, Prod.exists, Params.take_eq_ok] at hs'
  obtain ⟨p, hp, rows, _, ⟨hrows, rfl⟩, rfl⟩ := hs'
  obtain ⟨-, hfields⟩ := paramFields_eq_ok hp
  refine ⟨_, rfl, rfl, hupgrade, ?_⟩
  rw [fieldsOf_object, hfields]
  refine Params.pivotMentions_congr ?_ ?_ ?_ ?_
  · simp [Dictionary.get?_insert, Dictionary.get?_erase]
  · simp [Params.headers, Dictionary.get?_insert, Dictionary.get?_erase, hrows]
  · -- a grouping may leave its columns out
    simp only [Params.headers, Dictionary.get?_insert, Dictionary.get?_erase, String.reduceEq,
      if_false, if_true]
    cases Dictionary.get? p "group_columns" <;> rfl
  · simp [Params.names, Dictionary.get?_insert, Dictionary.get?_erase]

/-- There is a current edit in the place of every old one. -/
theorem upgrade_eq_cons (h : s.upgrade t = .ok block) : ∃ last later, block = last :: later := by
  by_cases hgroup : s.kind = "group"
  · obtain ⟨s', hkind, -, hs', -⟩ := upgrade_group hgroup h
    obtain ⟨k, last, later, -, -, -, rfl⟩ := (upgrade_eq_ok (by rw [hkind]; decide)).mp hs'
    exact ⟨last, later, rfl⟩
  · obtain ⟨k, last, later, -, -, -, rfl⟩ := (upgrade_eq_ok hgroup).mp h
    exact ⟨last, later, rfl⟩

theorem kind_advance (h : advance t k n s = .ok (last, later)) : last.kind = s.kind := by
  induction n generalizing s later with
  | zero => rw [advance_zero h]
  | succ n ih =>
    obtain ⟨p, rest, -, h⟩ := advance_succ h
    exact ih (s := ⟨s.version + 1, s.kind, .object p⟩) h

/-- The current edit is read as one of the same kind. -/
theorem ofJson?_upgrade (hgroup : s.kind ≠ "group") (h : s.upgrade t = .ok (last :: later))
    (hx : last.edit = .ok x) :
    ∃ k rest, EditKind.ofName? s.kind = some k
      ∧ advance t k (k.version - s.version) s = .ok (last, rest)
      ∧ Edit.ofJson? k last.params = some x := by
  obtain ⟨k, last, rest, hk, -, hadvance, heq⟩ := (upgrade_eq_ok hgroup).mp h
  obtain ⟨rfl, rfl⟩ := List.cons.inj heq
  obtain ⟨k', hk', -, hx⟩ := edit_eq_ok hx
  rw [kind_advance hadvance, hk, Option.some.injEq] at hk'
  subst hk'
  exact ⟨k, _, hk, hadvance, hx⟩

/-- An upgraded edit mentions, in the same parts and sheets, exactly the columns for
  which the translator takes the headers that the old edit mentions. -/
theorem mentions_upgrade (h : s.upgrade t = .ok (last :: later)) (hx : last.edit = .ok x)
    (hsome : s.mentions ≠ []) : Resolves t.translate s.mentions x := by
  unfold mentions at hsome ⊢
  dsimp only at hsome ⊢
  split
  · next hgroup =>
    obtain ⟨s', hkind, hv, hs', hsame⟩ := upgrade_group hgroup h
    obtain ⟨k, rest, hk, hadvance, hx⟩ :=
      ofJson?_upgrade (by rw [hkind]; decide) hs' hx
    obtain rfl : EditKind.pivot = k := by
      rw [hkind] at hk
      exact Option.some.inj hk
    rw [hv] at hadvance
    exact hsame ▸ resolves_pivot (.inl hv) (hv ▸ hadvance) hx
  · next hgroup =>
    obtain ⟨k, rest, hk, hadvance, hx⟩ := ofJson?_upgrade hgroup h hx
    rw [if_neg hgroup] at hsome
    rw [hk] at hsome ⊢
    have hcolumn : ∀ field : String, Edit.isAboutColumn k = true → k.version = 2 →
        field ≠ "sheet_index" → s.version = 1 →
        nextParams t k 1 s.fieldsOf = Params.headerToId t field "column_id" s.fieldsOf →
        Resolves t.translate (Params.mentions s.fieldsOf "sheet_index" .column
          (Params.headers s.fieldsOf field)) x := by
      intro field habout hversion hfield hv hnext
      rw [hv, hversion] at hadvance
      exact resolves_column habout hfield (hv ▸ hnext) hadvance hx
    have hfilter : k = .filterRows → 1 ≤ s.version → s.version < 4 →
        Params.mentions s.fieldsOf "sheet_index" .column
          (Params.headers s.fieldsOf "column_header") ≠ [] →
        Resolves t.translate (Params.mentions s.fieldsOf "sheet_index" .column
          (Params.headers s.fieldsOf "column_header")) x := by
      rintro rfl hpos hlt hsome
      refine resolves_filterRows hpos hlt hadvance hx fun hnone => hsome ?_
      rw [hnone]
      simp [Params.mentions]
    -- one case for each kind and version that names headers
    split at hsome
    case h_1 | h_2 | h_3 | h_4 =>
      next heq hv =>
      obtain rfl := Option.some.inj heq
      exact hcolumn "column_header" rfl rfl (by decide) hv rfl
    case h_5 =>
      next heq hv =>
      obtain rfl := Option.some.inj heq
      rw [hv] at hadvance
      exact resolves_deleteColumns hv hadvance hx
    case h_6 | h_7 | h_8 =>
      next heq hv =>
      exact hfilter (Option.some.inj heq) (by omega) (by omega) hsome
    case h_9 =>
      next heq hv =>
      obtain rfl := Option.some.inj heq
      exact hcolumn "old_column_header" rfl rfl (by decide) hv rfl
    case h_10 | h_11 =>
      next heq hv =>
      obtain rfl := Option.some.inj heq
      exact resolves_merge (by omega) hadvance hx
    case h_12 | h_13 | h_14 =>
      next heq hv =>
      obtain rfl := Option.some.inj heq
      exact resolves_pivot (by omega) hadvance hx
    case h_15 => exact absurd rfl hsome

end StoredEdit

end SheetScript
