import SheetScript.Filter.Mask
import SheetScript.Proofs.Outcomes

/-! # Combined filters

  A filter list asks for a tree of filters: the entries that ask anything, combined
  from the left by the operator of the list, where a group stands for its filters
  combined from the left by its own.  The predicate of the list and its mask are both
  made from this tree, filter by filter, so what is said of the tree is said of both.

  A filter is refused if its condition does not apply to the type of the column or if
  its value is none that the condition compares with.  Nothing else is refused: a list
  whose predicate is accepted has a mask.
-/

namespace SheetScript

/-! ### Accepted filters -/

namespace Filter

variable {f : Filter} {t : DType} {header : Header} {target : String} {q : CellTest}

/-- Whether the value is one that the condition compares with. -/
def parses (f : Filter) : Bool :=
  match f.condition with
  | .number _ => (number? f.value).isSome
  | .moment _ => (Moment.parse? (Text.trim f.textValue)).isSome
  | _ => true

/-- Whether the filter can be asked of the cells of a type. -/
def Fits (t : DType) (f : Filter) : Prop := f.condition.appliesTo t = true ∧ f.parses = true

instance : Decidable (f.Fits t) := inferInstanceAs (Decidable (_ ∧ _))

theorem numberValue_eq_ok {x : Float} : f.numberValue = .ok x ↔ number? f.value = some x := by
  unfold numberValue
  split <;> simp_all

theorem momentValue_eq_ok {m : Moment} :
    f.momentValue = .ok m ↔ Moment.parse? (Text.trim f.textValue) = some m := by
  unfold momentValue
  split <;> simp_all

/-- The tests that a filter can ask, its condition with its value. -/
inductive Asks (f : Filter) : CellTest → Prop
  | number {c x} : f.condition = .number c → number? f.value = some x → f.Asks (.number c x)
  | text {m} : f.condition = .text m → f.Asks (.text m f.textValue)
  | truth {b} : f.condition = .truth b → f.Asks (.truth b)
  | empty : f.condition = .empty → f.Asks .empty
  | notEmpty : f.condition = .notEmpty → f.Asks .notEmpty
  | moment {c m} : f.condition = .moment c → Moment.parse? (Text.trim f.textValue) = some m →
    f.Asks (.moment c m.toMicroseconds)

theorem test_eq_ok : f.test header t = .ok q ↔ f.condition.appliesTo t = true ∧ f.Asks q := by
  unfold test
  split
  · next happly =>
    rw [and_iff_right happly]
    constructor
    · intro h
      split at h
      · next c hc =>
        obtain ⟨x, hx, rfl⟩ := map_eq_ok.mp h
        exact .number hc (numberValue_eq_ok.mp hx)
      · next m hm => exact Except.ok.inj h ▸ .text hm
      · next b hb => exact Except.ok.inj h ▸ .truth hb
      · next he => exact Except.ok.inj h ▸ .empty he
      · next he => exact Except.ok.inj h ▸ .notEmpty he
      · next c hc =>
        obtain ⟨m, hm, rfl⟩ := map_eq_ok.mp h
        exact .moment hc (momentValue_eq_ok.mp hm)
    · intro h
      cases h with
      | number hc hx => simp [hc, numberValue_eq_ok.mpr hx]
      | text hm => simp [hm]
      | truth hb => simp [hb]
      | empty he => simp [he]
      | notEmpty he => simp [he]
      | moment hc hm => simp [hc, momentValue_eq_ok.mpr hm]
  · next happly => simp [happly]

/-- A filter asks something exactly if its value is one to compare with. -/
theorem exists_asks : (∃ q, f.Asks q) ↔ f.parses = true := by
  unfold parses
  constructor
  · rintro ⟨q, h⟩
    cases h <;> simp_all
  · intro h
    split at h
    · next c hc =>
      obtain ⟨x, hx⟩ := Option.isSome_iff_exists.mp h
      exact ⟨_, .number hc hx⟩
    · next c hc =>
      obtain ⟨m, hm⟩ := Option.isSome_iff_exists.mp h
      exact ⟨_, .moment hc hm⟩
    · cases hc : f.condition with
      | number c => simp_all
      | text m => exact ⟨_, .text hc⟩
      | truth b => exact ⟨_, .truth hc⟩
      | empty => exact ⟨_, .empty hc⟩
      | notEmpty => exact ⟨_, .notEmpty hc⟩
      | moment c => simp_all

/-- The filters that are asked are those that fit. -/
theorem exists_test : (∃ q, f.test header t = .ok q) ↔ f.Fits t := by
  simp only [test_eq_ok, exists_and_left, exists_asks, Fits]

/-- A number that is compared with can be written. -/
theorem exists_numberCode {x : Float} (h : number? f.value = some x) :
    ∃ n, f.numberCode = .ok n := by
  unfold numberCode
  split
  · exact ⟨_, rfl⟩
  · exact ⟨_, rfl⟩
  · exact ⟨_, map_eq_ok.mpr ⟨x, numberValue_eq_ok.mpr h, rfl⟩⟩

/-- A filter that is asked has code. -/
theorem Asks.exists_code (h : f.Asks q) (target : String) (t : DType) :
    ∃ c, f.code target t = .ok c := by
  unfold code
  cases h with
  | number hc hx =>
    obtain ⟨n, hn⟩ := exists_numberCode hx
    exact ⟨_, by rw [hc, hn]; rfl⟩
  | text hm => rw [hm]; split <;> simp_all
  | truth hb => exact ⟨_, by rw [hb]⟩
  | empty he => exact ⟨_, by rw [he]⟩
  | notEmpty he => exact ⟨_, by rw [he]⟩
  | moment hc hm => exact ⟨_, by rw [hc, momentValue_eq_ok.mpr hm]; rfl⟩

end Filter

/-- The filters of an entry. -/
def FilterOrGroup.members : FilterOrGroup → List Filter
  | .filter f => [f]
  | .group filters _ => filters

/-! ### Trees of filters -/

/-- Items combined by operators. -/
inductive Combination (α : Type) where
  | item (a : α)
  | combined (operator : BoolOperator) (left right : Combination α)
  deriving DecidableEq, Repr

namespace Combination

variable {α : Type}

/-- The items from left to right. -/
def items : Combination α → List α
  | .item a => [a]
  | .combined _ left right => left.items ++ right.items

/-- Trees combined from the left, if there are any. -/
def join (operator : BoolOperator) : List (Combination α) → Option (Combination α)
  | [] => none
  | c :: rest => some (rest.foldl (.combined operator) c)

/-- What an entry of a filter list asks for. -/
def ofEntry : FilterOrGroup → Option (Combination Filter)
  | .filter f => some (.item f)
  | .group filters operator => join operator (filters.map .item)

/-- What a filter list asks for. -/
def ofFilters (operator : BoolOperator) (filters : List FilterOrGroup) :
    Option (Combination Filter) :=
  join operator (filters.filterMap ofEntry)

/-- The tree as a predicate, each item being a test. -/
def predicate (test : α → CellTest) : Combination α → Predicate
  | .item a => .test (test a)
  | .combined operator left right => .combined operator (left.predicate test) (right.predicate test)

variable {operator : BoolOperator} {cs : List (Combination α)} {c : Combination α}

@[simp] theorem join_eq_none : join operator cs = none ↔ cs = [] := by
  cases cs <;> simp [join]

theorem items_foldl : (cs.foldl (.combined operator) c).items = c.items ++ cs.flatMap items := by
  induction cs generalizing c with
  | nil => simp
  | cons d rest ih => rw [List.foldl_cons, ih]; simp [items]

theorem items_join (h : join operator cs = some c) : c.items = cs.flatMap items := by
  cases cs with
  | nil => cases h
  | cons d rest =>
    obtain rfl := Option.some.inj h
    rw [items_foldl, List.flatMap_cons]

theorem items_ofEntry {entry : FilterOrGroup} {c : Combination Filter}
    (h : ofEntry entry = some c) : c.items = entry.members := by
  cases entry with
  | filter f =>
    obtain rfl := Option.some.inj h
    rfl
  | group filters operator =>
    rw [items_join h, List.flatMap_map]
    simp [items, FilterOrGroup.members]

theorem members_of_ofEntry_none {entry : FilterOrGroup} (h : ofEntry entry = none) :
    entry.members = [] := by
  cases entry with
  | filter f => cases h
  | group filters operator => simpa [ofEntry, FilterOrGroup.members] using h

theorem flatMap_items_entries (filters : List FilterOrGroup) :
    (filters.filterMap ofEntry).flatMap items = filters.flatMap FilterOrGroup.members := by
  induction filters with
  | nil => rfl
  | cons entry rest ih =>
    cases hentry : ofEntry entry with
    | none =>
      rw [List.filterMap_cons_none hentry, ih, List.flatMap_cons, members_of_ofEntry_none hentry,
        List.nil_append]
    | some c =>
      rw [List.filterMap_cons_some hentry, List.flatMap_cons, List.flatMap_cons, ih,
        items_ofEntry hentry]

/-- The filters of the tree are those of the list, in its order. -/
theorem items_ofFilters {filters : List FilterOrGroup} {c : Combination Filter}
    (h : ofFilters operator filters = some c) :
    c.items = filters.flatMap FilterOrGroup.members := by
  rw [items_join h, flatMap_items_entries]

theorem items_ne_nil (c : Combination α) : c.items ≠ [] := by
  induction c with
  | item a => simp [items]
  | combined o left right ihleft _ => simp [items, ihleft]

/-- A list asks for nothing exactly if it has no filter. -/
theorem ofFilters_eq_none {filters : List FilterOrGroup} :
    ofFilters operator filters = none ↔ filters.flatMap FilterOrGroup.members = [] := by
  rw [ofFilters, join_eq_none, ← flatMap_items_entries]
  cases filters.filterMap ofEntry with
  | nil => simp
  | cons c rest => simp [items_ne_nil c]

end Combination

/-! ### The predicate of a tree -/

namespace Predicate

variable {header : Header} {t : DType} {operator : BoolOperator} {filters : List FilterOrGroup}
  {test : Filter → CellTest}

theorem combineAll_map {α : Type} (test : α → CellTest) (cs : List (Combination α)) :
    combineAll operator (cs.map (·.predicate test))
      = (Combination.join operator cs).map (·.predicate test) := by
  cases cs with
  | nil => rfl
  | cons c rest =>
    have hfold : ∀ c : Combination α, (rest.map (·.predicate test)).foldl (.combined operator)
        (c.predicate test) = (rest.foldl (.combined operator) c).predicate test := by
      induction rest with
      | nil => intro c; rfl
      | cons d rest ih => intro c; exact ih (.combined operator c d)
    exact congrArg some (hfold c)

theorem ofEntry_eq_ok {entry : FilterOrGroup}
    (htest : ∀ f ∈ entry.members, f.test header t = .ok (test f)) :
    ofEntry header t entry = .ok ((Combination.ofEntry entry).map (·.predicate test)) := by
  cases entry with
  | filter f =>
    have hf := htest f (by simp [FilterOrGroup.members])
    simp [ofEntry, hf, Combination.ofEntry, Combination.predicate]
  | group fs o =>
    have hfs : fs.mapM (fun f => f.test header t) = .ok (fs.map test) := mapM_eq_ok_map htest
    have hmap : (fs.map test).map Predicate.test
        = (fs.map Combination.item).map (·.predicate test) := by
      simp [Combination.predicate]
    simp only [ofEntry, hfs, bind_eq_ok, Except.ok.injEq, exists_eq_left', pure_eq_ok,
      Combination.ofEntry, hmap, combineAll_map]

/-- Where every filter is asked, the predicate is the tree of the list with each filter
  replaced by its test. -/
theorem ofFilters_eq_ok
    (htest : ∀ f ∈ filters.flatMap FilterOrGroup.members, f.test header t = .ok (test f)) :
    ofFilters header t operator filters
      = .ok ((Combination.ofFilters operator filters).map (·.predicate test)) := by
  have hentries : filters.mapM (ofEntry header t)
      = .ok (filters.map fun entry => (Combination.ofEntry entry).map (·.predicate test)) := by
    apply mapM_eq_ok_map
    intro entry hentry
    exact ofEntry_eq_ok fun f hf => htest f (List.mem_flatMap.mpr ⟨entry, hentry, hf⟩)
  have hfilter :
      (filters.map fun entry => (Combination.ofEntry entry).map (·.predicate test)).filterMap id
        = (filters.filterMap Combination.ofEntry).map (·.predicate test) := by
    rw [List.filterMap_map, List.map_filterMap]
    rfl
  simp only [ofFilters, hentries, bind_eq_ok, Except.ok.injEq, exists_eq_left', pure_eq_ok, hfilter,
    combineAll_map, Combination.ofFilters]

/-- An accepted list has only filters that are asked. -/
theorem test_of_ofFilters {r : Option Predicate} (h : ofFilters header t operator filters = .ok r) :
    ∀ f ∈ filters.flatMap FilterOrGroup.members, ∃ q, f.test header t = .ok q := by
  simp only [ofFilters, bind_eq_ok] at h
  obtain ⟨rs, hrs, -⟩ := h
  intro f hf
  obtain ⟨entry, hentry, hf⟩ := List.mem_flatMap.mp hf
  obtain ⟨r, hr⟩ := exists_mapM_eq_ok.mp ⟨rs, hrs⟩ entry hentry
  cases entry with
  | filter g =>
    obtain rfl : f = g := by simpa [FilterOrGroup.members] using hf
    simp only [ofEntry, bind_eq_ok] at hr
    obtain ⟨q, hq, -⟩ := hr
    exact ⟨q, hq⟩
  | group fs o =>
    simp only [ofEntry, bind_eq_ok] at hr
    obtain ⟨qs, hqs, -⟩ := hr
    exact exists_mapM_eq_ok.mp ⟨qs, hqs⟩ f hf

end Predicate

/-! ### The mask of a filter list -/

namespace Mask

variable {target : String} {t : DType} {operator : BoolOperator} {filters : List FilterOrGroup}
  {code : Filter → String}

/-- The mask of an entry whose filters have the given code. -/
def entryText (code : Filter → String) : FilterOrGroup → Option String
  | .filter f => some (code f)
  | .group [] _ => none
  | .group (f :: rest) operator => some (combined operator ((f :: rest).map code))

/-- The mask of some parts: a single one stands for itself. -/
def joined (operator : BoolOperator) : List String → Option String
  | [] => none
  | [part] => some part
  | parts => some (combined operator parts)

/-- The mask of a filter list whose filters have the given code. -/
def text (code : Filter → String) (operator : BoolOperator) (filters : List FilterOrGroup) :
    Option String :=
  joined operator (filters.filterMap (entryText code))

theorem ofEntry_eq_ok {entry : FilterOrGroup}
    (hcode : ∀ f ∈ entry.members, f.code target t = .ok (code f)) :
    ofEntry target t entry = .ok (entryText code entry) := by
  cases entry with
  | filter f =>
    have hf := hcode f (by simp [FilterOrGroup.members])
    simp [ofEntry, hf, entryText]
  | group fs o =>
    have hfs : fs.mapM (fun f => f.code target t) = .ok (fs.map code) := mapM_eq_ok_map hcode
    simp only [ofEntry, hfs, bind_eq_ok, Except.ok.injEq, exists_eq_left', pure_eq_ok]
    cases fs <;> rfl

/-- Where every filter has code, so has the list. -/
theorem ofFilters_eq_ok
    (hcode : ∀ f ∈ filters.flatMap FilterOrGroup.members, f.code target t = .ok (code f)) :
    ofFilters target t operator filters = .ok (text code operator filters) := by
  have hentries : filters.mapM (ofEntry target t) = .ok (filters.map (entryText code)) := by
    apply mapM_eq_ok_map
    intro entry hentry
    exact ofEntry_eq_ok fun f hf => hcode f (List.mem_flatMap.mpr ⟨entry, hentry, hf⟩)
  simp only [ofFilters, hentries, bind_eq_ok, Except.ok.injEq, exists_eq_left', pure_eq_ok,
    List.filterMap_map, Function.comp_def, id]
  unfold text joined
  split <;> simp_all

/-- A list has a mask exactly if it has a filter. -/
theorem text_eq_none :
    text code operator filters = none ↔ filters.flatMap FilterOrGroup.members = [] := by
  have hjoined : ∀ parts, joined operator parts = none ↔ parts = [] := by
    intro parts
    unfold joined
    split <;> simp_all
  rw [text, hjoined, List.filterMap_eq_nil_iff, List.flatMap_eq_nil_iff]
  refine forall₂_congr fun entry _ => ?_
  cases entry with
  | filter f => simp [entryText, FilterOrGroup.members]
  | group fs o => cases fs <;> simp [entryText, FilterOrGroup.members]

end Mask

end SheetScript
