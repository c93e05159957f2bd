import Mathlib.Data.List.Nodup
import Mathlib.Data.List.Perm.Subperm
import Mathlib.Data.Prod.Basic
import SheetScript.Chunk.Footprint

/-! # Look-up and membership

  Dictionaries and rosters are lists, so two of them can hold the same bindings
  and still differ.  With ascending keys they cannot: what a dictionary holds is
  then told by look-up alone.

  - `Dictionary.Ascending`: the keys ascend; every operation keeps this.
  - `Dictionary.ext_get?`: ascending dictionaries with equal look-ups are equal.
  - `Dictionary.get?_filter`: look-up after entries were dropped.
-/

namespace SheetScript

/-! ### The order of ids -/

instance : Trans (α := SheetId) (β := SheetId) (γ := SheetId) (· < ·) (· < ·) (· < ·) :=
  ⟨fun {a b c} (h : a.number < b.number) (k : b.number < c.number) =>
    show a.number < c.number from Nat.lt_trans h k⟩

instance : Std.Irrefl (α := SheetId) (· < ·) := ⟨fun a => Nat.lt_irrefl a.number⟩

instance : Std.Trichotomous (α := SheetId) (· < ·) :=
  ⟨fun a b (h : ¬ a.number < b.number) (k : ¬ b.number < a.number) => by
    have : a.number = b.number := by omega
    cases a; cases b; simpa using this⟩

instance : Trans (α := ColumnId) (β := ColumnId) (γ := ColumnId) (· < ·) (· < ·) (· < ·) :=
  ⟨fun {a b c} (h : a.text < b.text) (k : b.text < c.text) =>
    show a.text < c.text from String.lt_trans h k⟩

instance : Std.Irrefl (α := ColumnId) (· < ·) := ⟨fun a => String.lt_irrefl a.text⟩

instance : Std.Trichotomous (α := ColumnId) (· < ·) :=
  ⟨fun a b (h : ¬ a.text < b.text) (k : ¬ b.text < a.text) => by
    have : a.text = b.text := Std.Trichotomous.trichotomous (r := (· < ·)) _ _ h k
    cases a; cases b; simpa using this⟩

namespace Dictionary

variable {κ ν μ : Type}

@[simp] theorem keys_nil : keys ([] : Dictionary κ ν) = [] := rfl

@[simp] theorem keys_cons (e : κ × ν) (d : Dictionary κ ν) : keys (e :: d) = e.1 :: keys d := rfl

theorem mem_keys {d : Dictionary κ ν} {k : κ} : k ∈ keys d ↔ ∃ v, (k, v) ∈ d := by
  simp [keys]

theorem mem_values {d : Dictionary κ ν} {v : ν} : v ∈ values d ↔ ∃ k, (k, v) ∈ d := by
  simp [values]

/-! ### Ascending keys -/

section Ascending

variable [LT κ]

/-- The keys ascend. -/
def Ascending (d : Dictionary κ ν) : Prop := (keys d).Pairwise (· < ·)

@[simp] theorem ascending_nil : Ascending ([] : Dictionary κ ν) := List.Pairwise.nil

theorem ascending_cons {e : κ × ν} {d : Dictionary κ ν} :
    Ascending (e :: d) ↔ (∀ k ∈ keys d, e.1 < k) ∧ Ascending d := List.pairwise_cons

theorem Ascending.filter {d : Dictionary κ ν} (h : Ascending d) (p : κ × ν → Bool) :
    Ascending (d.filter p) :=
  List.Pairwise.sublist (List.Sublist.map Prod.fst List.filter_sublist) h

theorem Ascending.nodup [Std.Irrefl (α := κ) (· < ·)] {d : Dictionary κ ν} (h : Ascending d) :
    (d.map Prod.fst).Nodup :=
  List.Pairwise.imp (fun {a b} (hlt : a < b) (heq : a = b) =>
    Std.Irrefl.irrefl (r := (· < ·)) b (heq ▸ hlt)) h

theorem Ascending.mapValues {d : Dictionary κ ν} (h : Ascending d) (f : ν → μ) :
    Ascending (mapValues f d) := by
  unfold Ascending keys Dictionary.mapValues at *
  simpa [List.map_map, Function.comp_def] using h

end Ascending

variable [DecidableEq κ]

/-! ### Look-up -/

/-- What is looked up stands in the dictionary. -/
theorem mem_of_get? {d : Dictionary κ ν} {k : κ} {v : ν} (h : get? d k = some v) :
    (k, v) ∈ d := by
  induction d with
  | nil => simp at h
  | cons e rest ih =>
    rw [get?_cons] at h
    split at h
    · next he =>
      obtain ⟨j, w⟩ := e
      obtain rfl : w = v := Option.some.inj h
      obtain rfl : j = k := he
      exact List.mem_cons_self
    · exact List.mem_cons_of_mem _ (ih h)

theorem get?_isSome_iff {d : Dictionary κ ν} {k : κ} : (get? d k).isSome ↔ k ∈ keys d := by
  induction d with
  | nil => simp
  | cons e rest ih =>
    rw [get?_cons, keys_cons, List.mem_cons]
    by_cases he : e.1 = k
    · simp [he]
    · rw [if_neg he, ih]
      simp [Ne.symm he]

theorem get?_eq_none_iff {d : Dictionary κ ν} {k : κ} : get? d k = none ↔ k ∉ keys d := by
  rw [← get?_isSome_iff]
  simp

theorem get?_map {d : Dictionary κ ν} {k : κ} (f : ν → μ) :
    get? (d.map fun e => (e.1, f e.2)) k = (get? d k).map f := by
  induction d with
  | nil => rfl
  | cons e rest ih =>
    rw [List.map_cons, get?_cons, get?_cons, ih]
    by_cases he : e.1 = k <;> simp [he]

theorem get?_mapValues {d : Dictionary κ ν} {k : κ} (f : ν → μ) :
    get? (mapValues f d) k = (get? d k).map f :=
  get?_map f

variable [LT κ]

theorem Ascending.erase {d : Dictionary κ ν} (h : Ascending d) (k : κ) :
    Ascending (erase d k) :=
  h.filter _

/-! ### Bindings that are put in -/

section Bindings

variable [DecidableLT κ]

theorem mem_insert_of_mem {d : Dictionary κ ν} {k i : κ} {v w : ν} (h : (i, w) ∈ d) (hi : k ≠ i) :
    (i, w) ∈ insert d k v := by
  induction d with
  | nil => cases h
  | cons e rest ih =>
    obtain ⟨j, u⟩ := e
    rw [Dictionary.insert]
    rcases List.mem_cons.mp h with he | h
    · cases he
      rw [if_neg (Ne.symm hi)]
      split
      · exact List.mem_cons_of_mem _ List.mem_cons_self
      · exact List.mem_cons_self
    · split
      · exact List.mem_cons_of_mem _ h
      · split
        · exact List.mem_cons_of_mem _ (List.mem_cons_of_mem _ h)
        · exact List.mem_cons_of_mem _ (ih h)

theorem mem_of_mem_insert {d : Dictionary κ ν} {k : κ} {v : ν} {e : κ × ν}
    (h : e ∈ insert d k v) : e = (k, v) ∨ e ∈ d := by
  induction d with
  | nil => exact .inl (List.mem_singleton.mp h)
  | cons p rest ih =>
    obtain ⟨j, w⟩ := p
    rw [Dictionary.insert] at h
    split at h
    · rcases List.mem_cons.mp h with h | h
      · exact .inl h
      · exact .inr (List.mem_cons_of_mem _ h)
    · split at h
      · exact List.mem_cons.mp h
      · rcases List.mem_cons.mp h with h | h
        · exact .inr (h ▸ List.mem_cons_self)
        · rcases ih h with h | h
          · exact .inl h
          · exact .inr (List.mem_cons_of_mem _ h)

theorem mem_keys_insert {d : Dictionary κ ν} {k i : κ} {v : ν} :
    i ∈ keys (insert d k v) ↔ i = k ∨ i ∈ keys d := by
  rw [← get?_isSome_iff, ← get?_isSome_iff, get?_insert]
  by_cases hi : k = i
  · simp [hi]
  · simp [hi, Ne.symm hi]

theorem mem_keys_ofList {es : List (κ × ν)} {k : κ} :
    k ∈ keys (ofList es) ↔ k ∈ es.map Prod.fst := by
  -- the induction is on the bindings, with any dictionary to start from
  have key : ∀ (es : List (κ × ν)) (d : Dictionary κ ν),
      k ∈ keys (es.foldl (fun d e => Dictionary.insert d e.1 e.2) d)
        ↔ k ∈ es.map Prod.fst ∨ k ∈ keys d := by
    intro es
    induction es with
    | nil => simp
    | cons e rest ih =>
      intro d
      rw [List.foldl_cons, ih, mem_keys_insert, List.map_cons, List.mem_cons]
      tauto
  simpa [ofList] using key es []

theorem mem_of_mem_ofList {es : List (κ × ν)} {e : κ × ν} (h : e ∈ ofList es) : e ∈ es := by
  -- the induction is on the bindings, with any dictionary to start from
  have key : ∀ (es : List (κ × ν)) (d : Dictionary κ ν),
      e ∈ es.foldl (fun d e => Dictionary.insert d e.1 e.2) d → e ∈ es ∨ e ∈ d := by
    intro es
    induction es with
    | nil => exact fun d h => .inr h
    | cons first rest ih =>
      intro d h
      rcases ih _ h with h | h
      · exact .inl (List.mem_cons_of_mem _ h)
      · rcases mem_of_mem_insert h with rfl | h
        · exact .inl List.mem_cons_self
        · exact .inr h
  simpa [ofList] using key es [] h

/-- Look-up in a dictionary made of bindings with different keys. -/
theorem get?_ofList {es : List (κ × ν)} (h : (es.map Prod.fst).Nodup) (k : κ) :
    get? (ofList es) k = get? es k := by
  -- what was there before counts only if no binding has the key
  have key : ∀ (es : List (κ × ν)) (d : Dictionary κ ν), (es.map Prod.fst).Nodup →
      get? (es.foldl (fun d e => Dictionary.insert d e.1 e.2) d) k
        = (get? es k).or (get? d k) := by
    intro es
    induction es with
    | nil => intro d _; rfl
    | cons e rest ih =>
      intro d hnd
      obtain ⟨hnot, hrest⟩ := List.nodup_cons.mp hnd
      rw [List.foldl_cons, ih _ hrest, get?_cons, get?_insert]
      by_cases he : e.1 = k
      · have hnone : get? rest k = none := get?_eq_none_iff.mpr (he ▸ hnot)
        simp [he, hnone]
      · simp [he]
  simpa [ofList] using key es [] h

/-- Look-up in a dictionary of items under different keys. -/
theorem get?_ofList_map {α : Type} {l : List α} {key : α → κ} (g : α → ν)
    (h : (l.map key).Nodup) (k : κ) :
    get? (ofList (l.map fun a => (key a, g a))) k = (l.find? fun a => key a = k).map g := by
  have hkeys : ((l.map fun a => (key a, g a)).map Prod.fst).Nodup := by
    rw [List.map_map]
    exact h
  rw [get?_ofList hkeys]
  clear h hkeys
  -- from here on the keys need not differ: the first of them counts on both sides
  induction l with
  | nil => rfl
  | cons a rest ih =>
    rw [List.map_cons, get?_cons, List.find?_cons]
    by_cases ha : key a = k
    · simp [ha]
    · simp [ha, ih]

end Bindings

section Insertion

variable [DecidableLT κ] [Trans (α := κ) (β := κ) (γ := κ) (· < ·) (· < ·) (· < ·)]
  [Std.Trichotomous (α := κ) (· < ·)]

theorem Ascending.insert {d : Dictionary κ ν} (h : Ascending d) (k : κ) (v : ν) :
    Ascending (insert d k v) := by
  induction d with
  | nil => simp [Dictionary.insert, ascending_cons]
  | cons e rest ih =>
    obtain ⟨j, w⟩ := e
    obtain ⟨hfirst, hrest⟩ := ascending_cons.mp h
    rw [Dictionary.insert]
    split
    · next hj => exact ascending_cons.mpr ⟨hj ▸ hfirst, hrest⟩
    · next hj =>
      split
      · next hlt =>
        -- the binding goes to the front
        refine ascending_cons.mpr ⟨fun i hi => ?_, h⟩
        rcases List.mem_cons.mp hi with rfl | hi
        · exact hlt
        · exact Trans.trans hlt (hfirst i hi)
      · next hlt =>
        -- the binding goes further back, behind the first key
        have hjk : j < k := by
          by_contra hn
          exact hj (Std.Trichotomous.trichotomous (r := (· < ·)) j k hn hlt)
        refine ascending_cons.mpr ⟨fun i hi => ?_, ih hrest⟩
        rcases mem_keys_insert.mp hi with rfl | hi
        · exact hjk
        · exact hfirst i hi

theorem ascending_ofList (es : List (κ × ν)) : Ascending (ofList es) := by
  -- again for any ascending dictionary to start from
  have key : ∀ (es : List (κ × ν)) (d : Dictionary κ ν), Ascending d →
      Ascending (es.foldl (fun d e => Dictionary.insert d e.1 e.2) d) := by
    intro es
    induction es with
    | nil => intro d h; exact h
    | cons e rest ih => intro d h; exact ih _ (h.insert e.1 e.2)
  exact key es [] ascending_nil

end Insertion

/-! ### Look-up in ascending keys -/

section Irrefl

variable [Std.Irrefl (α := κ) (· < ·)]

/-- In ascending keys every entry is found. -/
theorem Ascending.get?_eq_some_iff {d : Dictionary κ ν} (h : Ascending d) {k : κ} {v : ν} :
    get? d k = some v ↔ (k, v) ∈ d := by
  refine ⟨mem_of_get?, fun hm => ?_⟩
  induction d with
  | nil => simp at hm
  | cons e rest ih =>
    obtain ⟨hfirst, hrest⟩ := ascending_cons.mp h
    rw [get?_cons]
    rcases List.mem_cons.mp hm with rfl | hm
    · simp
    · have hlt : e.1 < k := hfirst k (mem_keys.mpr ⟨v, hm⟩)
      have hne : e.1 ≠ k := fun he => Std.Irrefl.irrefl (r := (· < ·)) k (he ▸ hlt)
      rw [if_neg hne]
      exact ih hrest hm

/-- Look-up after entries were dropped: a value is still there if its entry was
  kept. -/
theorem Ascending.get?_filter {d : Dictionary κ ν} (h : Ascending d) (p : κ × ν → Bool) (k : κ) :
    get? (d.filter p) k = (get? d k).filter fun v => p (k, v) := by
  ext v
  rw [(h.filter p).get?_eq_some_iff, List.mem_filter, Option.filter_eq_some_iff,
    h.get?_eq_some_iff]

/-- A dictionary has at least as many entries as one whose entries it all has reversed. -/
theorem Ascending.length_le_of_reversed [DecidableEq ν] {d : Dictionary κ ν} {e : Dictionary ν κ}
    (hd : Ascending d) (h : ∀ {k v}, get? d k = some v → get? e v = some k) :
    d.length ≤ e.length := by
  have hnd : (d.map Prod.swap).Nodup := hd.nodup.of_map.map Prod.swap_injective
  have hsub : d.map Prod.swap ⊆ e := by
    rintro ⟨v, k⟩ hmem
    obtain ⟨⟨j, w⟩, hentry, heq⟩ := List.mem_map.mp hmem
    obtain ⟨rfl, rfl⟩ := Prod.mk.inj heq
    exact mem_of_get? (h (hd.get?_eq_some_iff.mpr hentry))
  rw [← List.length_map Prod.swap]
  exact (List.subperm_of_subset hnd hsub).length_le

variable [Trans (α := κ) (β := κ) (γ := κ) (· < ·) (· < ·) (· < ·)]

/-- Ascending dictionaries with equal look-ups are equal. -/
theorem ext_get? {a b : Dictionary κ ν} (ha : Ascending a) (hb : Ascending b)
    (h : ∀ k, get? a k = get? b k) : a = b := by
  induction a generalizing b with
  | nil =>
    cases b with
    | nil => rfl
    | cons e rest =>
      have := h e.1
      simp [get?_cons] at this
  | cons e rest ih =>
    cases b with
    | nil =>
      have := h e.1
      simp [get?_cons] at this
    | cons e' rest' =>
      obtain ⟨hfirst, hrest⟩ := ascending_cons.mp ha
      obtain ⟨hfirst', hrest'⟩ := ascending_cons.mp hb
      -- each first key is found in the other list, so neither comes before the other
      have hin : (e.1, e.2) ∈ e' :: rest' :=
        hb.get?_eq_some_iff.mp (by rw [← h e.1, get?_cons, if_pos rfl])
      have hin' : (e'.1, e'.2) ∈ e :: rest :=
        ha.get?_eq_some_iff.mp (by rw [h e'.1, get?_cons, if_pos rfl])
      have heq : e = e' := by
        rcases List.mem_cons.mp hin with he | he
        · exact he
        · rcases List.mem_cons.mp hin' with he' | he'
          · exact he'.symm
          · have hlt := hfirst' e.1 (mem_keys.mpr ⟨e.2, he⟩)
            have hlt' := hfirst e'.1 (mem_keys.mpr ⟨e'.2, he'⟩)
            exact absurd (Trans.trans hlt hlt') (Std.Irrefl.irrefl (r := (· < ·)) e'.1)
      subst heq
      congr 1
      refine ih hrest hrest' fun k => ?_
      have hk := h k
      rw [get?_cons, get?_cons] at hk
      by_cases he : e.1 = k
      · -- the first key occurs in neither rest
        have hnone : ∀ {r : Dictionary κ ν}, (∀ j ∈ keys r, e.1 < j) → get? r k = none := by
          intro r hr
          rw [get?_eq_none_iff]
          intro hmem
          exact Std.Irrefl.irrefl (r := (· < ·)) k (he ▸ hr k hmem)
        rw [hnone hfirst, hnone hfirst']
      · rwa [if_neg he, if_neg he] at hk

end Irrefl

end Dictionary

namespace Roster

variable {α : Type} [DecidableEq α] [LT α] [DecidableLT α]

@[simp] theorem mem_ofList {as : List α} {a : α} : a ∈ ofList as ↔ a ∈ as := by
  have h : ofList as = union [] as := rfl
  rw [h, mem_union]
  simp

omit [LT α] [DecidableLT α] in
theorem meets_eq_false_iff {r s : Roster α} : meets r s = false ↔ ∀ a ∈ r, a ∉ s := by
  rw [← Bool.not_eq_true, meets_iff]
  simp

end Roster

end SheetScript
