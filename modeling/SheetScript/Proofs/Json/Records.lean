import SheetScript.Edit.Encoding
import SheetScript.Proofs.Collections
import SheetScript.Proofs.Naming

/-! # Records in canonical form

  Parameters are kept in canonical form: the fields of every object ascend, and
  there is one of each name.  A record that is written as an object and brought
  into that form is read back field by field.

  - `Json.isCanonical_canonical`: the canonical form is one.
  - `Json.record?_canonical`, `Record.get?_ofFields`: what a record holds that is read
    from a canonical object.
-/

namespace SheetScript

namespace Dictionary

variable {κ ν : Type} [DecidableEq κ] [LT κ] [DecidableLT κ]

/-- Bindings in order are a dictionary as they are. -/
theorem Ascending.ofList_eq [Trans (α := κ) (β := κ) (γ := κ) (· < ·) (· < ·) (· < ·)]
    [Std.Irrefl (α := κ) (· < ·)] [Std.Trichotomous (α := κ) (· < ·)] {d : Dictionary κ ν}
    (h : Ascending d) : ofList d = d :=
  ext_get? (ascending_ofList d) h fun k => get?_ofList h.nodup k

end Dictionary

namespace Json

/-! ### Canonical values -/

/-- A value with the fields of every object in order. -/
def IsCanonical (j : Json) : Prop := j.canonical = j

theorem canonicalItems_eq_map (items : List Json) : canonicalItems items = items.map canonical := by
  induction items with
  | nil => rfl
  | cons j rest ih => rw [canonicalItems, List.map_cons, ih]

theorem canonicalFields_eq_map (fields : List (String × Json)) :
    canonicalFields fields = fields.map fun f => (f.1, f.2.canonical) := by
  induction fields with
  | nil => rfl
  | cons f rest ih =>
    obtain ⟨name, j⟩ := f
    rw [canonicalFields, List.map_cons, ih]

@[simp] theorem canonical_null : Json.null.canonical = .null := rfl

@[simp] theorem canonical_bool (b : Bool) : (Json.bool b).canonical = .bool b := rfl

@[simp] theorem canonical_int (n : Int) : (Json.int n).canonical = .int n := rfl

@[simp] theorem canonical_string (s : String) : (Json.string s).canonical = .string s := rfl

@[simp] theorem canonical_ofNat (n : Nat) : (ofNat n).canonical = ofNat n := rfl

@[simp] theorem canonical_ofColumnId (id : ColumnId) : (ofColumnId id).canonical = ofColumnId id :=
  rfl

theorem canonical_array (items : List Json) :
    (Json.array items).canonical = .array (items.map canonical) := by
  rw [canonical, canonicalItems_eq_map]

theorem canonical_object (fields : List (String × Json)) :
    (Json.object fields).canonical
      = .object (Dictionary.ofList (fields.map fun f => (f.1, f.2.canonical))) := by
  rw [canonical, canonicalFields_eq_map]

/-- An array of canonical values is canonical. -/
theorem isCanonical_array {items : List Json} (h : ∀ j ∈ items, j.IsCanonical) :
    (Json.array items).IsCanonical := by
  rw [IsCanonical, canonical_array, List.map_congr_left (g := id) h, List.map_id]

/-- An object of canonical values with its fields in order is canonical. -/
theorem isCanonical_object {fields : List (String × Json)} (h : Dictionary.Ascending fields)
    (hvalues : ∀ f ∈ fields, f.2.IsCanonical) : (Json.object fields).IsCanonical := by
  have hsame : ∀ f ∈ fields, (f.1, f.2.canonical) = id f := fun f hf =>
    Prod.ext rfl (hvalues f hf)
  rw [IsCanonical, canonical_object, List.map_congr_left hsame, List.map_id, h.ofList_eq]

mutual

/-- The canonical form is canonical. -/
theorem isCanonical_canonical (j : Json) : j.canonical.IsCanonical :=
  match j with
  | .array items => by
    rw [canonical]
    exact isCanonical_array (isCanonical_items items)
  | .object fields => by
    rw [canonical]
    exact isCanonical_object (Dictionary.ascending_ofList _) fun f hf =>
      isCanonical_fields fields f (Dictionary.mem_of_mem_ofList hf)
  | .null | .bool _ | .int _ | .float _ | .string _ => rfl

theorem isCanonical_items (items : List Json) : ∀ j ∈ canonicalItems items, j.IsCanonical :=
  match items with
  | [] => fun _ h => nomatch h
  | j :: rest => List.forall_mem_cons.mpr ⟨isCanonical_canonical j, isCanonical_items rest⟩

theorem isCanonical_fields (fields : List (String × Json)) :
    ∀ f ∈ canonicalFields fields, f.2.IsCanonical :=
  match fields with
  | [] => fun _ h => nomatch h
  | (_, j) :: rest => List.forall_mem_cons.mpr ⟨isCanonical_canonical j, isCanonical_fields rest⟩

end

/-- The items of a canonical array are canonical. -/
theorem IsCanonical.items {items : List Json} (h : (Json.array items).IsCanonical) :
    ∀ j ∈ items, j.IsCanonical := by
  rw [IsCanonical, canonical_array, array.injEq] at h
  intro j hj
  rw [← h] at hj
  obtain ⟨j', -, rfl⟩ := List.mem_map.mp hj
  exact isCanonical_canonical j'

/-- The fields of a canonical object are in order, with canonical values. -/
theorem IsCanonical.fields {fields : List (String × Json)} (h : (Json.object fields).IsCanonical) :
    Dictionary.Ascending fields ∧ ∀ f ∈ fields, f.2.IsCanonical := by
  rw [IsCanonical, canonical_object, object.injEq] at h
  refine ⟨h ▸ Dictionary.ascending_ofList _, fun f hf => ?_⟩
  rw [← h] at hf
  obtain ⟨f', -, rfl⟩ := List.mem_map.mp (Dictionary.mem_of_mem_ofList hf)
  exact isCanonical_canonical f'.2

/-! ### Records -/

namespace Record

/-- The record with some field names that is read from an object in canonical form. -/
def ofFields (names : List String) (fields : List (String × Json)) : Record :=
  ⟨(Dictionary.ofList (fields.map fun f => (f.1, f.2.canonical))).filter fun f => f.1 ∈ names⟩

variable {names : List String} {fields : List (String × Json)} {name : String}

/-- Every field with one of the names is there, if no name is given twice. -/
@[simp] theorem get?_ofFields (h : (fields.map Prod.fst).Nodup) (hname : name ∈ names) :
    (ofFields names fields).get? name = (Dictionary.get? fields name).map canonical := by
  have hkeys : ((fields.map fun f => (f.1, f.2.canonical)).map Prod.fst).Nodup := by
    rwa [List.map_map]
  rw [get?, ofFields, (Dictionary.ascending_ofList _).get?_filter, Dictionary.get?_ofList hkeys,
    Dictionary.get?_map]
  cases Dictionary.get? fields name <;> simp [hname]

section Fields

variable {α : Type} {read : Json → Option α} {default : α}

@[simp] theorem need_ofFields (h : (fields.map Prod.fst).Nodup) (hname : name ∈ names) :
    (ofFields names fields).need name read
      = (Dictionary.get? fields name).bind fun j => read j.canonical := by
  rw [need, get?_ofFields h hname]
  cases Dictionary.get? fields name <;> rfl

@[simp] theorem orElse_ofFields (h : (fields.map Prod.fst).Nodup) (hname : name ∈ names) :
    (ofFields names fields).orElse name default read
      = (Dictionary.get? fields name).elim (some default) fun j => read j.canonical := by
  rw [orElse, get?_ofFields h hname]
  cases Dictionary.get? fields name <;> rfl

end Fields

end Record

section Objects

variable {p : List (String × Json)} {names : List String} {r : Record} {name : String}

/-- The fields of a record are those of the object. -/
theorem get?_of_record? (h : (Json.object p).record? names = some r) (hname : name ∈ names) :
    r.get? name = Dictionary.get? p name := by
  have hknown : r.given = p.filter fun f => f.1 ∈ names := by
    unfold record? at h
    dsimp only at h
    split at h
    · rw [← Option.some.inj h]
    · cases h
  unfold Record.get?
  rw [hknown]
  clear h hknown
  induction p with
  | nil => rfl
  | cons f rest ih =>
    rw [List.filter_cons]
    split
    · rw [Dictionary.get?_cons, Dictionary.get?_cons, ih]
    · next hf =>
      rw [Dictionary.get?_cons, if_neg fun he : f.1 = name => hf (by simpa [he] using hname), ih]

theorem need_eq {α : Type} {read : Json → Option α} (h : (Json.object p).record? names = some r)
    (hname : name ∈ names) : r.need name read = (Dictionary.get? p name).bind read := by
  rw [Record.need, get?_of_record? h hname]

end Objects

/-- An object that gives no field twice is a record, whatever its field names are. -/
theorem record?_object {fields : List (String × Json)} (h : (fields.map Prod.fst).Nodup)
    (names : List String) :
    (Json.object fields).record? names = some ⟨fields.filter fun f => f.1 ∈ names⟩ := by
  have hnodup : ((fields.filter fun f => f.1 ∈ names).map Prod.fst).Nodup :=
    h.sublist (List.filter_sublist.map Prod.fst)
  exact if_pos (by rw [length_eraseDups_of_nodup hnodup, List.length_map, beq_self_eq_true])

/-- So is an object in canonical form. -/
theorem record?_canonical (names : List String) (fields : List (String × Json)) :
    (Json.object fields).canonical.record? names = some (Record.ofFields names fields) := by
  rw [canonical_object]
  exact record?_object (Dictionary.ascending_ofList _).nodup names

theorem field?_canonical {fields : List (String × Json)} (h : (fields.map Prod.fst).Nodup)
    (name : String) :
    (Json.object fields).canonical.field? name = (Dictionary.get? fields name).map canonical := by
  have hkeys : ((fields.map fun f => (f.1, f.2.canonical)).map Prod.fst).Nodup := by
    rwa [List.map_map]
  rw [canonical_object]
  exact (Dictionary.get?_ofList hkeys name).trans (Dictionary.get?_map canonical)

/-! ### Values that are written and read back -/

section ReadBack

variable {α : Type} {read : Json → Option α} {write : α → Json}

@[simp] theorem string?_string (s : String) : string? (.string s) = some s := rfl

@[simp] theorem bool?_bool (b : Bool) : bool? (.bool b) = some b := rfl

@[simp] theorem index?_int {n : Nat} (h : n < 0x10000000000000000) : index? (.int n) = some n :=
  if_pos h

@[simp] theorem index?_ofNat {n : Nat} (h : n < 0x10000000000000000) : index? (ofNat n) = some n :=
  index?_int h

theorem word32?_ofNat {n : Nat} (h : n < 0x100000000) : word32? (ofNat n) = some n := by
  rw [word32?, index?_ofNat (by omega)]
  exact if_pos h

@[simp] theorem int64?_int {n : Int} (h : -0x8000000000000000 ≤ n ∧ n < 0x8000000000000000) :
    int64? (.int n) = some n :=
  if_pos h

/-- A list is read back if its items are. -/
theorem listOf?_array {l : List α} (h : ∀ a ∈ l, read (write a) = some a) :
    listOf? read (.array (l.map write)) = some l := by
  show (l.map write).mapM read = some l
  induction l with
  | nil => rfl
  | cons a rest ih =>
    obtain ⟨ha, hrest⟩ := List.forall_mem_cons.mp h
    rw [List.map_cons, List.mapM_cons, ih hrest]
    simp [ha]

theorem listOf?_canonical {l : List α} (h : ∀ a ∈ l, read (write a).canonical = some a) :
    listOf? read (Json.array (l.map write)).canonical = some l := by
  rw [canonical_array, List.map_map]
  exact listOf?_array h

/-- A dictionary is read back if its values are. -/
theorem dictionaryOf?_canonical {d : Dictionary String α} (hd : Dictionary.Ascending d)
    (h : ∀ e ∈ d, read (write e.2).canonical = some e.2) :
    dictionaryOf? read (Json.object (d.map fun e => (e.1, write e.2))).canonical = some d := by
  have hascending : Dictionary.Ascending (d.map fun e => (e.1, (write e.2).canonical)) :=
    hd.mapValues fun a => (write a).canonical
  have hall : (d.map fun e => (e.1, (write e.2).canonical)).mapM
      (fun f => (read f.2).map fun a => (f.1, a)) = some d := by
    clear hd hascending
    induction d with
    | nil => rfl
    | cons e rest ih =>
      obtain ⟨he, hrest⟩ := List.forall_mem_cons.mp h
      rw [List.map_cons, List.mapM_cons, ih hrest]
      simp [he]
  have hobject : (Json.object (d.map fun e => (e.1, write e.2))).canonical
      = .object (d.map fun e => (e.1, (write e.2).canonical)) := by
    rw [canonical_object, List.map_map]
    exact congrArg Json.object hascending.ofList_eq
  rw [hobject, dictionaryOf?]
  show Option.map _ (List.mapM _ _) = some d
  rw [hall, Option.map_some, hd.ofList_eq]

/-- So is a dictionary by columns, whose keys are written as texts. -/
theorem dictionaryOf?_columns {d : Dictionary ColumnId α} (hd : Dictionary.Ascending d)
    (h : ∀ e ∈ d, read (write e.2).canonical = some e.2) :
    dictionaryOf? read (Json.object (d.map fun e => (e.1.text, write e.2))).canonical
      = some (d.map fun e => (e.1.text, e.2)) := by
  have hpairs : d.Pairwise fun a b => a.1 < b.1 := List.pairwise_map.mp hd
  have htexts : Dictionary.Ascending (d.map fun e => (e.1.text, e.2)) :=
    List.pairwise_map.mpr (List.pairwise_map.mpr hpairs)
  have hvalues : ∀ e ∈ d.map fun e => (e.1.text, e.2), read (write e.2).canonical = some e.2 := by
    intro e he
    obtain ⟨e', he', rfl⟩ := List.mem_map.mp he
    exact h e' he'
  have hread := dictionaryOf?_canonical htexts hvalues
  rwa [List.map_map] at hread

@[simp] theorem canonical_ofTexts (ss : List String) : (ofTexts ss).canonical = ofTexts ss := by
  rw [ofTexts, canonical_array, List.map_map]
  rfl

@[simp] theorem texts?_ofTexts (ss : List String) : texts? (ofTexts ss) = some ss := by
  rw [← canonical_ofTexts]
  exact listOf?_canonical fun _ _ => rfl

@[simp] theorem canonical_ofColumnIds (ids : List ColumnId) :
    (ofColumnIds ids).canonical = ofColumnIds ids := by
  rw [ofColumnIds, canonical_array, List.map_map]
  rfl

@[simp] theorem columnId?_ofColumnId (id : ColumnId) : columnId? (ofColumnId id) = some id := rfl

@[simp] theorem columnIds?_ofColumnIds (ids : List ColumnId) :
    columnIds? (ofColumnIds ids) = some ids := by
  rw [← canonical_ofColumnIds]
  exact listOf?_canonical fun _ _ => rfl

end ReadBack

end Json

end SheetScript
