import SheetScript.Proofs.ColumnIds
import SheetScript.Proofs.Desk.Alike
import SheetScript.Proofs.Frames
import SheetScript.Sheet
import SheetScript.Table.Pattern

/-! # Sound sheets

  In a sound sheet the columns that are registered are those of the frame, and
  only they have formulas.  Its table shows what of the sheet the script can
  tell: the name of the variable, and the columns from left to right.
-/

namespace SheetScript

open Symbolic (SymbolicFrame SymbolicColumn Table)

namespace Sheet

/-- The registered columns are those of the frame, and only they have formulas. -/
structure Sound (sh : Sheet) : Prop where
  headers : sh.headers.Nodup
  columns : sh.columns.Sound sh.headers
  formulas : ∀ id ∈ Dictionary.keys sh.formulas, sh.columns.contains id = true

/-- No header of the frame or of a registered column is a pattern, so that expressions take each
  of them for the column under it. -/
structure Verbatim (sh : Sheet) : Prop where
  frame : ∀ h ∈ sh.headers, isPattern h = false
  columns : ∀ h ∈ Dictionary.keys sh.columns.idOf, isPattern h = false

instance (sh : Sheet) : Decidable sh.Verbatim :=
  decidable_of_iff ((∀ h ∈ sh.headers, isPattern h = false)
      ∧ ∀ h ∈ Dictionary.keys sh.columns.idOf, isPattern h = false)
    ⟨fun h => ⟨h.1, h.2⟩, fun h => ⟨h.frame, h.columns⟩⟩

/-- The sheet as the script can tell it. -/
def table (sh : Sheet) : Table Unit :=
  ⟨sh.name, sh.idsWithHeaders.map fun c => ⟨c.1, c.2, ()⟩⟩

/-- The column under a header as the script can tell it. -/
def cell (m : ColumnIds) (h : Header) : SymbolicColumn Unit := ⟨m.columnOf h, h, ()⟩

variable {sh after : Sheet} {id : ColumnId} {h : Header}

@[simp] theorem table_name (sh : Sheet) : sh.table.name = sh.name := rfl

/-! ### Look-up -/

theorem header_eq_ok : sh.header id = .ok h ↔ sh.columns.header? id = some h := by
  unfold header
  cases sh.columns.header? id <;> simp

theorem headersFor_eq_ok {ids : List ColumnId} {hs : List Header} :
    sh.headersFor ids = .ok hs
      ↔ List.Forall₂ (fun id h => sh.columns.header? id = some h) ids hs := by
  simp only [headersFor, mapM_eq_ok, header_eq_ok]

theorem column_eq_ok {c : Column} (hc : sh.column id = .ok c) :
    sh.columns.header? id = some c.header := by
  simp only [column, bind_eq_ok, header_eq_ok] at hc
  obtain ⟨k, hk, hc⟩ := hc
  rw [hk, (Frame.column_eq_ok hc).2]

/-- The column of an id stands in the frame under its header. -/
theorem column_in_frame {c : Column} (hc : sh.column id = .ok c) :
    sh.frame.column c.header = .ok c := by
  simp only [column, bind_eq_ok] at hc
  obtain ⟨k, -, hc⟩ := hc
  rwa [(Frame.column_eq_ok hc).2]

theorem Verbatim.registered (hp : sh.Verbatim) (hid : sh.columns.id? h = some id) :
    isPattern h = false :=
  hp.columns h (Dictionary.get?_isSome_iff.mp (Option.isSome_of_eq_some hid))

namespace Sound

theorem idsWithHeaders_eq (hs : sh.Sound) :
    sh.idsWithHeaders = sh.headers.map fun k => (sh.columns.columnOf k, k) := by
  unfold idsWithHeaders
  rw [← List.filterMap_eq_map]
  refine List.filterMap_congr fun k hk => ?_
  simp [hs.columns.id?_eq hk]

theorem columnIds_eq (hs : sh.Sound) : sh.columnIds = sh.headers.map sh.columns.columnOf := by
  unfold columnIds
  rw [← List.filterMap_eq_map]
  exact List.filterMap_congr fun k hk => hs.columns.id?_eq hk

theorem mem_columnIds (hs : sh.Sound) :
    id ∈ sh.columnIds ↔ ∃ k, sh.columns.header? id = some k := by
  rw [hs.columnIds_eq, List.mem_map]
  constructor
  · rintro ⟨k, hk, rfl⟩
    exact ⟨k, hs.columns.inverse.mpr (hs.columns.id?_eq hk)⟩
  · rintro ⟨k, hk⟩
    exact ⟨k, hs.columns.mem hk, hs.columns.columnOf_eq hk⟩

theorem zip_eq (hs : sh.Sound) : sh.columnIds.zip sh.headers = sh.idsWithHeaders := by
  rw [hs.columnIds_eq, hs.idsWithHeaders_eq]
  have h := @List.zip_map' _ _ _ sh.columns.columnOf (fun k => k) sh.headers
  rwa [List.map_id'] at h

theorem table_frame (hs : sh.Sound) : sh.table.frame = sh.headers.map (cell sh.columns) := by
  simp [table, hs.idsWithHeaders_eq, cell]

theorem table_headers (hs : sh.Sound) : SymbolicFrame.headers sh.table.frame = sh.headers := by
  rw [hs.table_frame]
  simp [SymbolicFrame.headers, cell, Function.comp_def]

theorem table_ids (hs : sh.Sound) : SymbolicFrame.ids sh.table.frame = sh.columnIds := by
  rw [hs.table_frame, hs.columnIds_eq]
  simp [SymbolicFrame.ids, cell]

theorem columnIds_nodup (hs : sh.Sound) : sh.columnIds.Nodup := by
  rw [hs.columnIds_eq]
  exact hs.headers.map_on fun _ hk _ hj => hs.columns.columnOf_injective hk hj

theorem outputIds (hs : sh.Sound) : sh.idsWithHeaders.map Prod.fst = sh.columnIds := by
  rw [hs.idsWithHeaders_eq, hs.columnIds_eq]
  simp

theorem outputHeaders (hs : sh.Sound) : sh.idsWithHeaders.map Prod.snd = sh.headers := by
  rw [hs.idsWithHeaders_eq]
  simp [Function.comp_def]

/-- A registered column stands in the table. -/
theorem hasColumn (hs : sh.Sound) (hid : sh.columns.header? id = some h) :
    SymbolicFrame.HasColumn sh.table.frame id h := by
  rw [hs.table_frame]
  exact ⟨cell sh.columns h, List.mem_map.mpr ⟨h, hs.columns.mem hid, rfl⟩,
    hs.columns.columnOf_eq hid, rfl⟩

/-- A sheet with other data is sound; formulas of columns that are gone are
  dropped. -/
theorem withData (sh : Sheet) {f : Frame} {m : ColumnIds} (hnd : f.headers.Nodup)
    (hm : m.Sound f.headers) : (sh.withData f m).Sound where
  headers := hnd
  columns := hm
  formulas := by
    intro id hid
    obtain ⟨e, he, rfl⟩ := List.mem_map.mp hid
    exact (List.mem_filter.mp he).2

/-- Formulas may change as long as they belong to columns. -/
theorem withFormulas (hs : sh.Sound) (formulas : Dictionary ColumnId String)
    (hf : ∀ id ∈ Dictionary.keys formulas, sh.columns.contains id = true) :
    Sound { sh with formulas := formulas } :=
  ⟨hs.headers, hs.columns, hf⟩

theorem ofFrame {f : Frame} (sid : SheetId) (name : String) (hnd : f.headers.Nodup) :
    (Sheet.ofFrame sid name f).Sound where
  headers := hnd
  columns := ColumnIds.Sound.ofHeaders hnd
  formulas := by simp [Sheet.ofFrame, Dictionary.keys]

end Sound

end Sheet

end SheetScript
