import SheetScript.Proofs.Desk.Simulation
import SheetScript.Proofs.State.Sheets
import SheetScript.State

/-! # Sound states

  In a sound state sheets differ in their ids and in their names, which can name
  variables.  The desk of a state holds the tables of its sheets; replacing,
  adding and removing a sheet are updates of the desk.

  A state of named tables is sound when no table has a header twice, and the ids of
  its columns are those that the headers get anew.  The script finds the sheets of
  a sound state on its desk.
-/

namespace SheetScript

open Symbolic

namespace State

/-- Sheets are sound and told apart by ids and by names, and charts belong to
  sheets. -/
structure Sound (s : State) : Prop where
  names : s.names.Nodup
  ids : (s.sheets.map Sheet.id).Nodup
  below : ∀ sh ∈ s.sheets, sh.id.number < s.nextId
  sheets : ∀ sh ∈ s.sheets, sh.Sound
  named : ∀ sh ∈ s.sheets, Naming.isVariableName sh.name = true
  charts : ∀ e ∈ s.charts, ∃ sh ∈ s.sheets, sh.id = e.2.sheet

/-- Expressions take every header of a column for that column. -/
def Verbatim (s : State) : Prop := ∀ sh ∈ s.sheets, sh.Verbatim

instance (s : State) : Decidable s.Verbatim :=
  inferInstanceAs (Decidable (∀ sh ∈ s.sheets, sh.Verbatim))

/-- The tables of some sheets. -/
def deskOf (sheets : List Sheet) : Desk Unit :=
  fun id => (sheets.find? fun sh => sh.id = id).map Sheet.table

/-- The tables of all sheets. -/
def desk (s : State) : Desk Unit := deskOf s.sheets

variable {s : State} {i : Nat} {sheet after : Sheet} {id : SheetId} {x : Table Unit}

/-! ### Look-up -/

theorem sheet_eq_ok (h : s.sheet i = .ok sheet) :
    ∃ left right, s.sheets = left ++ sheet :: right ∧ left.length = i := by
  unfold State.sheet at h
  split at h
  · next found hfound =>
    obtain rfl := Except.ok.inj h
    obtain ⟨hlt, rfl⟩ := List.getElem?_eq_some_iff.mp hfound
    refine ⟨s.sheets.take i, s.sheets.drop (i + 1), ?_, by simp; omega⟩
    rw [← List.drop_eq_getElem_cons hlt, List.take_append_drop]
  · cases h

theorem sheet_mem (h : s.sheet i = .ok sheet) : sheet ∈ s.sheets := by
  obtain ⟨left, right, heq, -⟩ := sheet_eq_ok h
  simp [heq]

theorem mem_names {n : String} : n ∈ s.names ↔ ∃ sh ∈ s.sheets, sh.name = n := by
  simp [names]

theorem uniqueName_not_mem (s : State) (base : String) : s.uniqueName base ∉ s.names :=
  Naming.firstFree_not_mem _ _

theorem isVariableName_uniqueName (s : State) (base : String) :
    Naming.isVariableName (s.uniqueName base) = true :=
  Naming.isVariableName_firstFree (Naming.isVariableName_variableName base) _

/-- Sheets with different ids are found by them. -/
theorem deskOf_eq_some {sheets : List Sheet} (hids : (sheets.map Sheet.id).Nodup) :
    deskOf sheets id = some x ↔ ∃ sh ∈ sheets, sh.id = id ∧ sh.table = x := by
  unfold deskOf
  rw [Option.map_eq_some_iff]
  constructor
  · rintro ⟨sh, hsh, rfl⟩
    exact ⟨sh, List.mem_of_find?_eq_some hsh, by simpa using List.find?_some hsh, rfl⟩
  · rintro ⟨sh, hmem, rfl, rfl⟩
    cases hfind : sheets.find? fun t => t.id = sh.id with
    | none => simpa using List.find?_eq_none.mp hfind sh hmem
    | some t =>
      have hid : t.id = sh.id := by simpa using List.find?_some hfind
      rw [List.inj_on_of_nodup_map hids (List.mem_of_find?_eq_some hfind) hmem hid]
      exact ⟨sh, rfl, rfl⟩

theorem deskOf_eq_none {sheets : List Sheet} (h : id ∉ sheets.map Sheet.id) :
    deskOf sheets id = none := by
  unfold deskOf
  rw [Option.map_eq_none_iff, List.find?_eq_none]
  intro sh hsh he
  exact h (List.mem_map.mpr ⟨sh, hsh, by simpa using he⟩)

/-! ### Updates -/

section Updates

variable {left right : List Sheet}

theorem deskOf_replace (hid : after.id = sheet.id)
    (hids : ((left ++ sheet :: right).map Sheet.id).Nodup) :
    deskOf (left ++ after :: right)
      = (deskOf (left ++ sheet :: right)).set sheet.id (some after.table) := by
  have hleft : sheet.id ∉ left.map Sheet.id := by
    rw [List.map_append, List.map_cons, List.nodup_middle] at hids
    exact fun h => (List.nodup_cons.mp hids).1 (List.mem_append_left _ h)
  have hnone := deskOf_eq_none hleft
  funext t
  unfold deskOf at hnone ⊢
  by_cases ht : t = sheet.id
  · subst ht
    rw [Option.map_eq_none_iff] at hnone
    simp [List.find?_append, hnone, hid]
  · rw [Desk.set_ne _ _ ht]
    simp [List.find?_append, hid, Ne.symm ht]

theorem deskOf_push {sheets : List Sheet} (hnew : sheet.id ∉ sheets.map Sheet.id) :
    deskOf (sheets ++ [sheet]) = (deskOf sheets).set sheet.id (some sheet.table) := by
  have hnone := deskOf_eq_none hnew
  funext t
  unfold deskOf at hnone ⊢
  by_cases ht : t = sheet.id
  · subst ht
    rw [Option.map_eq_none_iff] at hnone
    simp [List.find?_append, hnone]
  · rw [Desk.set_ne _ _ ht]
    simp [List.find?_append, Ne.symm ht]

theorem deskOf_remove (hids : ((left ++ sheet :: right).map Sheet.id).Nodup) :
    deskOf (left ++ right) = (deskOf (left ++ sheet :: right)).set sheet.id none := by
  have hrest : sheet.id ∉ (left ++ right).map Sheet.id := by
    rw [List.map_append, List.map_cons, List.nodup_middle, ← List.map_append] at hids
    exact (List.nodup_cons.mp hids).1
  have hnone := deskOf_eq_none hrest
  funext t
  by_cases ht : t = sheet.id
  · subst ht
    rw [hnone, Desk.set_self]
  · rw [Desk.set_ne _ _ ht]
    unfold deskOf
    simp [List.find?_append, Ne.symm ht]

end Updates

namespace Sound

/-! ### The desk of a sound state -/

theorem desk_eq_some (hs : s.Sound) :
    s.desk id = some x ↔ ∃ sh ∈ s.sheets, sh.id = id ∧ sh.table = x :=
  deskOf_eq_some hs.ids

theorem desk_sheet (hs : s.Sound) (h : sheet ∈ s.sheets) : s.desk sheet.id = some sheet.table :=
  hs.desk_eq_some.mpr ⟨sheet, h, rfl, rfl⟩

theorem fresh (hs : s.Sound) : (⟨s.nextId⟩ : SheetId) ∉ s.sheets.map Sheet.id := by
  rw [List.mem_map]
  rintro ⟨sh, hsh, he⟩
  have hlt := hs.below sh hsh
  rw [he] at hlt
  exact Nat.lt_irrefl _ hlt

theorem desk_fresh (hs : s.Sound) : s.desk ⟨s.nextId⟩ = none := deskOf_eq_none hs.fresh

theorem free (hs : s.Sound) {n : String} (hn : n ∉ s.names) : s.desk.Free n := by
  intro t x hx he
  obtain ⟨sh, hsh, -, rfl⟩ := hs.desk_eq_some.mp hx
  exact hn (mem_names.mpr ⟨sh, hsh, he⟩)

theorem tidy (hs : s.Sound) : s.desk.Tidy where
  names := by
    intro t u x y hx hy hn
    obtain ⟨sh, hsh, rfl, rfl⟩ := hs.desk_eq_some.mp hx
    obtain ⟨sk, hsk, rfl, rfl⟩ := hs.desk_eq_some.mp hy
    rw [List.inj_on_of_nodup_map hs.names hsh hsk hn]
  headers := by
    intro t x hx
    obtain ⟨sh, hsh, rfl, rfl⟩ := hs.desk_eq_some.mp hx
    rw [(hs.sheets sh hsh).table_headers]
    exact (hs.sheets sh hsh).headers

theorem keyed (hs : s.Sound) : s.desk.Keyed := by
  intro t x hx
  obtain ⟨sh, hsh, rfl, rfl⟩ := hs.desk_eq_some.mp hx
  rw [(hs.sheets sh hsh).table_ids]
  exact (hs.sheets sh hsh).columnIds_nodup

/-! ### Updates of a sound state -/

/-- A sheet replaced by another one with its id, and with its name or a free
  one. -/
theorem replace (hs : s.Sound) (hafter : after.Sound) (hsheet : s.sheet i = .ok sheet)
    (hid : after.id = sheet.id)
    (hname : after.name = sheet.name
      ∨ after.name ∉ s.names ∧ Naming.isVariableName after.name = true) :
    (s.replace i after).Sound
      ∧ (s.replace i after).desk = s.desk.set sheet.id (some after.table) := by
  obtain ⟨left, right, heq, hlen⟩ := sheet_eq_ok hsheet
  have hset : (s.replace i after).sheets = left ++ after :: right := by
    simp [State.replace, heq, ← hlen]
  have hids := hs.ids
  have hnames := hs.names
  have hmem : ∀ sh ∈ left ++ after :: right, sh = after ∨ sh ∈ s.sheets := by
    intro sh hsh
    rw [heq]
    simp only [List.mem_append, List.mem_cons] at hsh ⊢
    tauto
  unfold State.names at hnames
  rw [heq] at hids hnames
  refine ⟨⟨?_, ?_, ?_, ?_, ?_, ?_⟩, ?_⟩
  · unfold State.names
    rw [hset]
    rcases hname with hname | ⟨hnew, -⟩
    · simpa [hname] using hnames
    · rw [List.map_append, List.map_cons, List.nodup_middle, ← List.map_append] at hnames ⊢
      refine List.nodup_cons.mpr ⟨fun h => hnew ?_, (List.nodup_cons.mp hnames).2⟩
      obtain ⟨sh, hsh, he⟩ := List.mem_map.mp h
      refine mem_names.mpr ⟨sh, ?_, he⟩
      rw [heq]
      simp only [List.mem_append, List.mem_cons] at hsh ⊢
      tauto
  · rw [hset]
    simpa [hid] using hids
  · rw [hset]
    intro sh hsh
    rcases hmem sh hsh with rfl | hsh
    · rw [hid]
      exact hs.below sheet (sheet_mem hsheet)
    · exact hs.below sh hsh
  · rw [hset]
    intro sh hsh
    rcases hmem sh hsh with rfl | hsh
    · exact hafter
    · exact hs.sheets sh hsh
  · rw [hset]
    intro sh hsh
    rcases hmem sh hsh with rfl | hsh
    · rcases hname with hname | ⟨-, hvalid⟩
      · rw [hname]
        exact hs.named sheet (sheet_mem hsheet)
      · exact hvalid
    · exact hs.named sh hsh
  · rw [hset]
    intro e he
    obtain ⟨sh, hsh, hchart⟩ := hs.charts e he
    rw [heq] at hsh
    -- a chart of the sheet knows it by its id, which stays
    by_cases hsame : sh = sheet
    · exact ⟨after, by simp, by rw [hid, ← hsame, hchart]⟩
    · refine ⟨sh, ?_, hchart⟩
      simp only [List.mem_append, List.mem_cons] at hsh ⊢
      tauto
  · unfold desk
    rw [hset, heq]
    exact deskOf_replace hid hids

/-- A sheet added under the next id and a free name. -/
theorem push (hs : s.Sound) (hsheet : sheet.Sound) (next : State)
    (hsheets : next.sheets = s.sheets) (hcharts : next.charts = s.charts)
    (hnext : next.nextId = s.nextId + 1) (hid : sheet.id = ⟨s.nextId⟩)
    (hnew : sheet.name ∉ s.names) (hvalid : Naming.isVariableName sheet.name = true) :
    (next.push sheet).Sound
      ∧ (next.push sheet).desk = s.desk.set sheet.id (some sheet.table) := by
  have hpush : (next.push sheet).sheets = s.sheets ++ [sheet] := by rw [State.push, hsheets]
  -- all ids lie below the next one
  have hfresh : sheet.id ∉ s.sheets.map Sheet.id := hid ▸ hs.fresh
  refine ⟨⟨?_, ?_, ?_, ?_, ?_, ?_⟩, ?_⟩
  · unfold State.names
    rw [hpush, List.map_append, List.nodup_append]
    refine ⟨hs.names, by simp, fun n hn m hm he => hnew ?_⟩
    obtain rfl : m = sheet.name := by simpa using hm
    exact he ▸ hn
  · rw [hpush, List.map_append, List.nodup_append]
    refine ⟨hs.ids, by simp, fun n hn m hm he => hfresh ?_⟩
    obtain rfl : m = sheet.id := by simpa using hm
    exact he ▸ hn
  · intro sh hsh
    rw [hpush, List.mem_append, List.mem_singleton] at hsh
    show sh.id.number < next.nextId
    rcases hsh with hsh | rfl
    · have := hs.below sh hsh
      omega
    · rw [hid, hnext]
      exact Nat.lt_succ_self _
  · intro sh hsh
    rw [hpush, List.mem_append, List.mem_singleton] at hsh
    rcases hsh with hsh | rfl
    · exact hs.sheets sh hsh
    · exact hsheet
  · intro sh hsh
    rw [hpush, List.mem_append, List.mem_singleton] at hsh
    rcases hsh with hsh | rfl
    · exact hs.named sh hsh
    · exact hvalid
  · intro e he
    obtain ⟨sh, hsh, hchart⟩ := hs.charts e (hcharts ▸ he)
    exact ⟨sh, by simp [hpush, hsh], hchart⟩
  · unfold desk
    rw [hpush]
    exact deskOf_push hfresh

/-- A sheet removed with its charts. -/
theorem remove (hs : s.Sound) {next : State} (hsheet : s.sheet i = .ok sheet)
    (hnext : s.remove i = .ok next) :
    next.Sound ∧ next.desk = s.desk.set sheet.id none := by
  obtain ⟨left, right, heq, hlen⟩ := sheet_eq_ok hsheet
  simp only [State.remove, hsheet, bind_eq_ok, pure_eq_ok, Except.ok.injEq, exists_eq_left']
    at hnext
  have herase : next.sheets = left ++ right := by
    rw [← hnext]
    simp [heq, List.eraseIdx_append, ← hlen]
  have hsub : (left ++ right).Sublist s.sheets := by
    rw [heq]
    exact List.Sublist.append_left (List.sublist_cons_self _ _) _
  have hids := hs.ids
  rw [heq] at hids
  refine ⟨⟨?_, ?_, ?_, ?_, ?_, ?_⟩, ?_⟩
  · unfold State.names
    rw [herase]
    exact hs.names.sublist (hsub.map _)
  · rw [herase]
    exact hs.ids.sublist (hsub.map _)
  · rw [herase]
    intro sh hsh
    rw [← hnext]
    exact hs.below sh (hsub.subset hsh)
  · rw [herase]
    exact fun sh hsh => hs.sheets sh (hsub.subset hsh)
  · rw [herase]
    exact fun sh hsh => hs.named sh (hsub.subset hsh)
  · intro e he
    rw [← hnext] at he
    obtain ⟨hmem, hne⟩ := List.mem_filter.mp he
    obtain ⟨sh, hsh, hchart⟩ := hs.charts e hmem
    refine ⟨sh, ?_, hchart⟩
    rw [heq, List.mem_append, List.mem_cons] at hsh
    rw [herase, List.mem_append]
    rcases hsh with hsh | rfl | hsh
    · exact .inl hsh
    -- the charts of the sheet went with it
    · simp [hchart] at hne
    · exact .inr hsh
  · unfold desk
    rw [herase, heq]
    exact deskOf_remove hids

end Sound

end State

/-! ### Initial states -/

open Symbolic

/-- The ids of a sheet are those that its headers would get anew. -/
def Sheet.Native (sh : Sheet) : Prop :=
  ∀ h ∈ sh.headers, sh.columns.id? h = (ColumnIds.ofHeaders sh.headers).id? h

namespace State

/-- The ids of all sheets are those that their headers would get anew. -/
def Native (s : State) : Prop := ∀ sh ∈ s.sheets, sh.Native

/-- A state of named tables, none of which has a header twice. -/
def Initial (s : State) : Prop :=
  ∃ inputs, (∀ input ∈ inputs, input.2.headers.Nodup) ∧ State.ofInputs inputs = .ok s

variable {s : State} {τ : Type} {I : Interpretation τ}

theorem Initial.sound_native (h : s.Initial) : s.Sound ∧ s.Native := by
  obtain ⟨inputs, hnd, h⟩ := h
  refine foldlM_keeps (P := fun s => s.Sound ∧ s.Native) (fun {input s next} hin hs hnext => ?_)
    ⟨⟨List.nodup_nil, List.nodup_nil, ?_, ?_, ?_, ?_⟩, ?_⟩ h
  · split at hnext
    · cases hnext
    · next hvalid =>
      split at hnext
      · cases hnext
      · next hnew =>
        obtain rfl := Except.ok.inj hnext
        have hname : Naming.isVariableName input.1 = true := by simpa using hvalid
        have hsheet := Sheet.Sound.ofFrame ⟨s.nextId⟩ input.1 (hnd input hin)
        refine ⟨(hs.1.push hsheet (s.mint input.1 input.2).2 rfl rfl rfl rfl hnew hname).1,
          fun sh hsh => ?_⟩
        rcases List.mem_append.mp hsh with hsh | hsh
        · exact hs.2 sh hsh
        · rw [List.mem_singleton.mp hsh]
          exact fun _ _ => rfl
  all_goals exact fun _ hmem => by cases hmem

namespace Sound

/-! ### The layout of a sound state -/

theorem get?_layout (hs : s.Sound) (t : SheetId) :
    Dictionary.get? s.inputLayout t
      = (s.sheets.find? fun sh => sh.id = t).map fun sh =>
          ⟨sh.name, sh.columnIds.zip sh.headers⟩ :=
  Dictionary.get?_ofList_map _ hs.ids t

/-- The script starts from the sheets of the state. -/
theorem desk_layout (hs : s.Sound) {ids : Prop} :
    s.desk.Alike ids (Desk.ofLayout I s.inputLayout) := by
  intro t
  unfold Desk.AlikeAt Desk.ofLayout
  rw [hs.get?_layout]
  unfold desk deskOf
  cases hfind : s.sheets.find? fun sh => sh.id = t with
  | none => exact .inl ⟨rfl, rfl⟩
  | some sh =>
    have hsh := hs.sheets sh (List.mem_of_find?_eq_some hfind)
    refine .inr ⟨_, _, rfl, rfl, rfl, ?_⟩
    unfold Desk.input
    dsimp only
    rw [hsh.zip_eq]
    exact FramesAlike.of_columns

theorem ascending_layout (s : State) : s.inputLayout.Ascending := Dictionary.ascending_ofList _

theorem names_layout (hs : s.Sound) : (s.inputLayout.map fun e => e.2.name).Nodup := by
  have hasc := ascending_layout s
  have hkeys : (s.inputLayout.map Prod.fst).Nodup := hasc.imp fun hlt he => by
    subst he
    exact Std.Irrefl.irrefl (r := (· < ·)) _ hlt
  -- an entry with the name of a sheet is the entry of that sheet
  have hentry : ∀ e ∈ s.inputLayout, ∃ sh ∈ s.sheets, sh.id = e.1 ∧ sh.name = e.2.name := by
    intro e he
    have hget := hasc.get?_eq_some_iff.mpr he
    rw [hs.get?_layout, Option.map_eq_some_iff] at hget
    obtain ⟨sh, hsh, hi⟩ := hget
    exact ⟨sh, List.mem_of_find?_eq_some hsh, by simpa using List.find?_some hsh,
      congrArg InputSheet.name hi⟩
  refine (List.Nodup.of_map Prod.fst hkeys).map_on fun e he f hf hname => ?_
  obtain ⟨sh, hsh, hid, hn⟩ := hentry e he
  obtain ⟨sk, hsk, hid', hn'⟩ := hentry f hf
  obtain rfl := List.inj_on_of_nodup_map hs.names hsh hsk (hn.trans (hname.trans hn'.symm))
  exact List.inj_on_of_nodup_map hkeys he hf (hid.symm.trans hid')

/-- The machine starts with the sheets of the state. -/
theorem starts (hs : s.Sound) :
    Shows (Machine.start I s.inputLayout) (Desk.ofLayout I s.inputLayout)
      ∧ (Machine.start I s.inputLayout).effects = [] :=
  Shows.start (ascending_layout s) hs.names_layout

end Sound

end State

end SheetScript
