import SheetScript.Edit.Rows
import SheetScript.Proofs.Filter.Combination
import SheetScript.Proofs.Frames

/-! # Filtered rows

  A filter has a plain meaning: it holds of a cell or it does not.  On a missing cell it
  holds exactly if it asks for a difference or for emptiness.  The answers of tests know
  a third value besides, but a row is kept for a definite yes only, and with nothing but
  `and` and `or` between them the answers of a tree are a definite yes exactly where the
  plain meanings combine to one.

  Main statement: `FilterRows.run_keeps`.
-/

namespace SheetScript

/-! ### The plain meaning of filters -/

/-- Whether a missing cell counts as one that the condition holds of. -/
def Condition.holdsOfMissing : Condition → Bool
  | .number .notExactly | .text .notExactly | .text .lacks | .moment .notExactly | .empty => true
  | _ => false

/-- The microseconds of a cell of dates or moments. -/
def Cell.microseconds? (t : DType) : Cell → Option Int
  | .int n => some (if t = .date then DType.int64.wrap (n * dayLength) else n)
  | _ => none

/-- Whether a filter holds of a cell that is not missing. -/
def Filter.holdsOfValue (t : DType) (f : Filter) (cell : Cell) : Bool :=
  match f.condition with
  | .number c =>
    (number? f.value).any fun x =>
      cell.toFloat?.any fun y => c.holds (compareFloat y (t.rounded x))
  | .text m =>
    match cell with
    | .text u => m.holds f.textValue u
    | _ => false
  | .truth b => cell == .bool b
  | .empty => t == .text && cell == .text ""
  | .notEmpty => !(t == .text && cell == .text "")
  | .moment c =>
    (Moment.parse? (Text.trim f.textValue)).any fun m =>
      (cell.microseconds? t).any fun us => c.holds (compare us m.toMicroseconds)

/-- Whether a filter holds of a cell of a column type. -/
def Filter.holds (t : DType) (f : Filter) (cell : Cell) : Bool :=
  if cell.isMissing then f.condition.holdsOfMissing else f.holdsOfValue t cell

/-- Yes or no of several, combined. -/
def BoolOperator.over : BoolOperator → List Bool → Bool
  | .and, answers => answers.all id
  | .or, answers => answers.any id

/-- Whether an entry of a filter list holds of a cell; a group without filters says
  nothing. -/
def FilterOrGroup.holds? (t : DType) (cell : Cell) : FilterOrGroup → Option Bool
  | .filter f => some (f.holds t cell)
  | .group [] _ => none
  | .group filters operator => some (operator.over (filters.map fun f => f.holds t cell))

/-- Whether a filter list holds of a cell. -/
def FilterOrGroup.allHold (t : DType) (operator : BoolOperator) (filters : List FilterOrGroup)
    (cell : Cell) : Bool :=
  operator.over (filters.filterMap (holds? t cell))

/-! ### Trees in plain logic -/

namespace Combination

variable {α : Type} {operator : BoolOperator} {value : α → Bool}

/-- A tree of yes or no. -/
def eval (value : α → Bool) : Combination α → Bool
  | .item a => value a
  | .combined .and left right => left.eval value && right.eval value
  | .combined .or left right => left.eval value || right.eval value

theorem eval_foldl (cs : List (Combination α)) (c : Combination α) :
    (cs.foldl (.combined operator) c).eval value
      = operator.over (c.eval value :: cs.map (eval value)) := by
  induction cs generalizing c with
  | nil => cases operator <;> simp [BoolOperator.over]
  | cons d rest ih =>
    rw [List.foldl_cons, ih]
    cases operator <;>
      simp [BoolOperator.over, eval, Bool.and_assoc, Bool.or_assoc]

theorem eval_join {cs : List (Combination α)} {c : Combination α} (h : join operator cs = some c) :
    c.eval value = operator.over (cs.map (eval value)) := by
  cases cs with
  | nil => cases h
  | cons d rest =>
    obtain rfl := Option.some.inj h
    exact eval_foldl rest d

variable {t : DType} {cell : Cell}

theorem eval_ofEntry (entry : FilterOrGroup) :
    (ofEntry entry).map (eval fun f => f.holds t cell) = entry.holds? t cell := by
  cases entry with
  | filter f => rfl
  | group filters o =>
    cases filters with
    | nil => rfl
    | cons f rest =>
      have hmap : (rest.map Combination.item).map (eval fun f => f.holds t cell)
          = rest.map fun f => f.holds t cell := by simp [eval]
      refine congrArg some ((eval_foldl _ _).trans ?_)
      rw [hmap]
      rfl

/-- The tree of a filter list holds of a cell where the list does. -/
theorem eval_ofFilters {filters : List FilterOrGroup} {c : Combination Filter}
    (h : ofFilters operator filters = some c) :
    c.eval (fun f => f.holds t cell) = FilterOrGroup.allHold t operator filters cell := by
  rw [eval_join h, FilterOrGroup.allHold, List.map_filterMap]
  exact congrArg operator.over (List.filterMap_congr fun entry _ => eval_ofEntry entry)

end Combination

/-! ### A definite yes -/

theorem bothAnswers_eq_true {a b : Option Bool} :
    bothAnswers a b = some true ↔ a = some true ∧ b = some true := by
  rcases a with _ | _ | _ <;> rcases b with _ | _ | _ <;> decide

theorem eitherAnswer_eq_true {a b : Option Bool} :
    eitherAnswer a b = some true ↔ a = some true ∨ b = some true := by
  rcases a with _ | _ | _ <;> rcases b with _ | _ | _ <;> decide

/-- The answer of a tree is a definite yes where its tests' definite answers combine to
  one. -/
theorem Predicate.answer_eq_true {α : Type} {t : DType} {cell : Cell} {test : α → CellTest}
    {value : α → Bool} {c : Combination α}
    (h : ∀ a ∈ c.items, (test a).answer t cell = some true ↔ value a = true) :
    (c.predicate test).answer t cell = some true ↔ c.eval value = true := by
  induction c with
  | item a => exact h a (by simp [Combination.items])
  | combined o left right ihleft ihright =>
    have hleft := ihleft fun a ha => h a (List.mem_append_left _ ha)
    have hright := ihright fun a ha => h a (List.mem_append_right _ ha)
    cases o with
    | and =>
      simp [Combination.predicate, Predicate.answer, bothAnswers_eq_true, hleft, hright,
        Combination.eval]
    | or =>
      simp [Combination.predicate, Predicate.answer, eitherAnswer_eq_true, hleft, hright,
        Combination.eval]

theorem CellTest.onMissing_eq_true {c : Comparison} :
    CellTest.onMissing c = some true ↔ c = .notExactly := by
  cases c <;> decide

section Answers

variable {f : Filter} {t : DType} {header : Header} {q : CellTest} {cell : Cell}

/-- On a missing cell the condition alone tells the answer. -/
theorem Filter.Asks.answer_missing (h : f.Asks q) :
    q.answer t .missing = some true ↔ f.condition.holdsOfMissing = true := by
  cases h with
  | @number c x hc hx =>
    rw [hc]
    exact CellTest.onMissing_eq_true.trans (by cases c <;> decide)
  | @text m hm =>
    rw [hm]
    cases m <;> simp [CellTest.answer, Condition.holdsOfMissing]
  | @truth b hb => simp [hb, CellTest.answer, Condition.holdsOfMissing]
  | empty he => simp [he, CellTest.answer, Condition.holdsOfMissing, Cell.isMissing]
  | notEmpty he => simp [he, CellTest.answer, Condition.holdsOfMissing, Cell.isMissing]
  | @moment c m hc hm =>
    have hcast : Cell.cast t .datetime .missing = .missing := by cases t <;> rfl
    rw [hc, CellTest.answer, hcast]
    exact CellTest.onMissing_eq_true.trans (by cases c <;> decide)

/-- A cell that is not missing is compared as its type has it. -/
theorem Filter.Asks.answer_value (h : f.Asks q) (happly : f.condition.appliesTo t = true)
    (hcell : t.holds cell = true) (hvalue : cell.isMissing = false) :
    q.answer t cell = some true ↔ f.holdsOfValue t cell = true := by
  unfold Filter.holdsOfValue
  -- a condition applies to one family of types, so no cells of other types occur
  cases h with
  | @number c x hc hx =>
    have hnumeric : t.isNumeric = true := by
      simpa [hc, Condition.appliesTo, Condition.family] using happly
    rw [hc, hx]
    cases cell with
    | missing => cases hvalue
    | int n => simp [CellTest.answer, Cell.toFloat?, DType.rounded]
    | float y => simp [CellTest.answer, Cell.toFloat?, DType.rounded]
    | bool b =>
      obtain rfl : t = .bool := by simpa [DType.holds] using hcell
      exact absurd hnumeric (by decide)
    | text u =>
      obtain rfl : t = .text := by simpa [DType.holds] using hcell
      exact absurd hnumeric (by decide)
  | @text m hm =>
    obtain rfl : t = .text := by simpa [hm, Condition.appliesTo, Condition.family] using happly
    rw [hm]
    cases cell with
    | missing => cases hvalue
    | text u => simp [CellTest.answer]
    | bool b => cases hcell
    | int n => cases hcell
    | float y => cases hcell
  | truth hb => simp [hb, CellTest.answer]
  | empty he => simp [he, CellTest.answer, hvalue]
  | notEmpty he => simp [he, CellTest.answer, hvalue]
  | @moment c m hc hm =>
    have htype : t = .datetime ∨ t = .date := by
      simpa [hc, Condition.appliesTo, Condition.family] using happly
    rw [hc, hm]
    cases cell with
    | missing => cases hvalue
    | int n => rcases htype with rfl | rfl <;> simp [CellTest.answer, Cell.cast, Cell.microseconds?]
    | bool b => rcases htype with rfl | rfl <;> cases hcell
    | float y => rcases htype with rfl | rfl <;> cases hcell
    | text u => rcases htype with rfl | rfl <;> cases hcell

/-- The answer of a filter's test is a definite yes where the filter holds. -/
theorem Filter.answer_eq_true (hq : f.test header t = .ok q) (hcell : t.holds cell = true) :
    q.answer t cell = some true ↔ f.holds t cell = true := by
  obtain ⟨happly, hasks⟩ := Filter.test_eq_ok.mp hq
  unfold Filter.holds
  by_cases hmissing : cell.isMissing = true
  · rw [if_pos hmissing]
    cases cell with
    | missing => exact hasks.answer_missing
    | _ => cases hmissing
  · rw [if_neg hmissing]
    exact hasks.answer_value happly hcell (by simpa using hmissing)

end Answers

/-! ### The rows that are kept -/

/-- The rows of a column that satisfy a predicate, by their numbers. -/
theorem Predicate.rows_eq (p : Predicate) (c : Column) :
    p.rows c
      = (List.range c.cells.length).filter fun i => p.answer c.dtype (c.cell i) = some true := by
  have hcells : c.cells.zipIdx = (List.range c.cells.length).map fun i => (c.cell i, i) := by
    refine List.ext_getElem (by simp) fun i hi _ => ?_
    have hlt : i < c.cells.length := by simpa using hi
    simp [Column.cell, hlt]
  unfold Predicate.rows
  rw [hcells, List.filterMap_map]
  show (List.range c.cells.length).filterMap
    (fun i => if p.answer c.dtype (c.cell i) = some true then some i else none) = _
  rw [← List.filterMap_eq_filter]
  refine List.filterMap_congr fun i _ => ?_
  simp [Option.guard]

/-- The rows that satisfy the predicate of a filter list are those of whose cell the list
  holds. -/
theorem Predicate.rows_ofFilters {frame : Frame} {column : Column} {header : Header}
    {operator : BoolOperator} {filters : List FilterOrGroup} {test : Filter → CellTest}
    {c : Combination Filter} (hproper : frame.Proper) (hmem : column ∈ frame.columns)
    (htest : ∀ f ∈ filters.flatMap FilterOrGroup.members,
      f.test header column.dtype = .ok (test f))
    (hc : Combination.ofFilters operator filters = some c) :
    (c.predicate test).rows column = (List.range frame.height).filter fun i =>
      FilterOrGroup.allHold column.dtype operator filters (column.cell i) := by
  rw [Predicate.rows_eq, hproper.lengths column hmem]
  refine List.filter_congr fun i _ => ?_
  have hanswer : (c.predicate test).answer column.dtype (column.cell i) = some true
      ↔ c.eval (fun f => f.holds column.dtype (column.cell i)) = true :=
    Predicate.answer_eq_true fun f hf =>
      Filter.answer_eq_true (htest f (Combination.items_ofFilters hc ▸ hf))
        (hproper.holds_cell hmem i)
  rw [Combination.eval_ofFilters hc] at hanswer
  simp [hanswer]

namespace FilterRows

/-- The filters of all entries. -/
def members (e : FilterRows) : List Filter := e.filters.flatMap FilterOrGroup.members

variable {e : FilterRows} {s : State} {sheet : Sheet} {column : Column}

/-- The column is tested under its own header, if that is no pattern. -/
theorem tested_of_verbatim {f : Frame} {header : Header} {p : Option Predicate}
    (hplain : isPattern header = false) (hfind : f.column header = .ok column)
    (hpredicate : Predicate.ofFilters header column.dtype e.operator e.filters = .ok p) :
    e.tested f header = .ok column := by
  have hnamed : f.namedAs header header = .ok [column] := Frame.namedAs_self hplain hfind
  simp only [tested, hnamed, bind_eq_ok, Except.ok.injEq, exists_eq_left']
  rw [hpredicate]
  rfl

/-- What is run for a list with a predicate and a mask. -/
theorem run_eq_ok {header : Header} {p : Predicate} {mask : String}
    (hplain : isPattern header = false) (hsheet : s.sheet e.sheet = .ok sheet)
    (hheader : sheet.header e.column = .ok header)
    (hcolumn : sheet.column e.column = .ok column)
    (hpredicate : Predicate.ofFilters header column.dtype e.operator e.filters = .ok (some p))
    (hmask : Mask.ofFilters (sheet.name ++ "[" ++ Literal.text header ++ "]") column.dtype
      e.operator e.filters = .ok (some mask)) :
    let after := sheet.withData (sheet.frame.pickRows (p.rows column)) sheet.columns
    e.run s = .ok ⟨s.replace e.sheet after, [.block (block sheet after e.column header mask)]⟩ := by
  have hfind : sheet.frame.column header = .ok column := by
    rwa [Sheet.column, hheader] at hcolumn
  have htested : e.tested sheet.frame header = .ok column :=
    tested_of_verbatim hplain hfind hpredicate
  simp only [run, hsheet, hheader, hcolumn, hpredicate, htested, bind_eq_ok, Except.ok.injEq,
    exists_eq_left', pure_eq_ok]
  exact ⟨_, hmask, rfl⟩

/-- A list whose filters all fit the column is accepted.  If it has no filter, the state
  stays as it is and there is no code; else the sheet keeps, in their order, exactly the
  rows of whose cell the list holds, as long as the header of the column is no pattern. -/
theorem run_keeps (hsheet : s.sheet e.sheet = .ok sheet)
    (hcolumn : sheet.column e.column = .ok column) (hproper : sheet.frame.Proper)
    (hfits : ∀ f ∈ e.members, f.Fits column.dtype) :
    (e.members = [] → e.run s = .ok ⟨s, []⟩)
      ∧ (e.members ≠ [] → isPattern column.header = false → ∃ frame block,
          e.run s = .ok ⟨s.replace e.sheet (sheet.withData frame sheet.columns), [.block block]⟩
            ∧ frame.Proper ∧ frame.schema = sheet.frame.schema
            ∧ frame.rows = ((sheet.frame.rows.zip column.cells).filter fun row =>
                FilterOrGroup.allHold column.dtype e.operator e.filters row.2).map Prod.fst) := by
  obtain ⟨header, hheader, hfind⟩ := bind_eq_ok.mp hcolumn
  obtain ⟨hmem, rfl⟩ := Frame.column_eq_ok hfind
  let test := fun f : Filter => (f.test column.header column.dtype).toOption.getD default
  -- filters that fit the type of the column have tests and code
  have htest : ∀ f ∈ e.members, f.test column.header column.dtype = .ok (test f) := by
    intro f hf
    have hasked : ∃ q, f.test column.header column.dtype = .ok q :=
      Filter.exists_test.mpr (hfits f hf)
    obtain ⟨q, hq⟩ := hasked
    show f.test column.header column.dtype
      = .ok ((f.test column.header column.dtype).toOption.getD default)
    rw [hq]
    rfl
  have hpredicate : Predicate.ofFilters column.header column.dtype e.operator e.filters
      = .ok ((Combination.ofFilters e.operator e.filters).map (·.predicate test)) :=
    Predicate.ofFilters_eq_ok htest
  constructor
  · intro hnone
    rw [Combination.ofFilters_eq_none.mpr hnone] at hpredicate
    simp [run, hsheet, hheader, hcolumn, hpredicate, Change.none]
  · intro hsome hplain
    obtain ⟨c, hc⟩ := Option.ne_none_iff_exists'.mp (mt Combination.ofFilters_eq_none.mp hsome)
    rw [hc] at hpredicate
    let target := sheet.name ++ "[" ++ Literal.text column.header ++ "]"
    have hcode : ∀ f ∈ e.members, f.code target column.dtype
        = .ok ((f.code target column.dtype).toOption.getD "") := by
      intro f hf
      obtain ⟨text, htext⟩ := (Filter.test_eq_ok.mp (htest f hf)).2.exists_code target column.dtype
      rw [htext]
      rfl
    have hmask : Mask.ofFilters target column.dtype e.operator e.filters
        = .ok (Mask.text (fun f => (f.code target column.dtype).toOption.getD "") e.operator
          e.filters) := Mask.ofFilters_eq_ok hcode
    obtain ⟨mask, htext⟩ := Option.ne_none_iff_exists'.mp (mt Mask.text_eq_none.mp hsome)
    rw [htext] at hmask
    refine ⟨_, _, run_eq_ok hplain hsheet hheader hcolumn hpredicate hmask,
      hproper.pickRows _, Frame.schema_pickRows _ _, ?_⟩
    rw [Predicate.rows_ofFilters hproper hmem htest hc]
    exact hproper.rows_pickRows_filter hmem _

namespace Sample

/-- Names, one of them missing and one empty. -/
def names : Column :=
  ⟨"name", .text, [.text "ann", .missing, .text "", .text "bob", .text "Carl"]⟩

/-- Names with numbers. -/
def people : Sheet :=
  .ofFrame ⟨0⟩ "df1" ⟨[names, ⟨"n", .int64, [.int 1, .int 2, .missing, .int 4, .int 5]⟩], 5⟩

/-- Keeps who has no `B` in the name and is `ann` or has none. -/
def unnamed : FilterRows :=
  ⟨0, ⟨"name"⟩, .and,
    [.filter ⟨.text .lacks, .string "B"⟩,
     .group [] .or,
     .group [⟨.text .exactly, .string "ann"⟩, ⟨.empty, .null⟩] .or]⟩

end Sample

theorem run_keeps_missing :
    let s : State := { sheets := [Sample.people], nextId := 1 }
    s.sheet 0 = .ok Sample.people ∧ Sample.people.column ⟨"name"⟩ = .ok Sample.names
      ∧ Sample.people.frame.Proper
      ∧ (∀ f ∈ Sample.unnamed.members, f.Fits .text) ∧ Sample.unnamed.members ≠ []
      ∧ isPattern Sample.names.header = false
      ∧ ∃ frame block,
          Sample.unnamed.run s
              = .ok ⟨s.replace 0 (Sample.people.withData frame Sample.people.columns),
                  [.block block]⟩
            ∧ frame.Proper ∧ frame.schema = Sample.people.frame.schema
            ∧ frame.rows = [[.text "ann", .int 1], [.missing, .int 2], [.text "", .missing]] := by
  intro s
  have hsheet : s.sheet 0 = .ok Sample.people := rfl
  have hcolumn : Sample.people.column ⟨"name"⟩ = .ok Sample.names := by decide
  have hproper : Sample.people.frame.Proper := ⟨by decide, by decide⟩
  have hfits : ∀ f ∈ Sample.unnamed.members, f.Fits .text := by decide
  have hsome : Sample.unnamed.members ≠ [] := by decide
  have hplain : isPattern Sample.names.header = false := by decide
  obtain ⟨frame, block, hrun, hnew, hschema, hrows⟩ :=
    (run_keeps (e := Sample.unnamed) hsheet hcolumn hproper hfits).2 hsome hplain
  refine ⟨hsheet, hcolumn, hproper, hfits, hsome, hplain, frame, block, hrun, hnew, hschema,
    hrows.trans ?_⟩
  decide

namespace Sample

/-- Two columns, the header of one of which matches that of the other. -/
def alike : Sheet :=
  .ofFrame ⟨0⟩ "df1"
    ⟨[⟨"A", .int64, [.int 1, .int 2]⟩, ⟨"^A$", .int64, [.int 2, .int 1]⟩], 2⟩

/-- Keeps the ones of the second column. -/
def ones : FilterRows := ⟨0, ⟨"^A$"⟩, .and, [.filter ⟨.number .exactly, .int 1⟩]⟩

end Sample

/-- A filter on a column whose header matches another one tests the cells of that other column:
  the row with a one under `A` is kept, not the one with a one under `^A$`. -/
theorem run_keeps_other :
    let s : State := { sheets := [Sample.alike], nextId := 1 }
    let column : Column := ⟨"^A$", .int64, [.int 2, .int 1]⟩
    s.sheet 0 = .ok Sample.alike ∧ Sample.alike.column Sample.ones.column = .ok column
      ∧ Sample.alike.frame.Proper
      ∧ (∀ f ∈ Sample.ones.members, f.Fits column.dtype)
      ∧ (do pure (← (← Sample.ones.run s).state.sheet 0).frame.rows) = .ok [[.int 1, .int 2]]
      ∧ ((Sample.alike.frame.rows.zip column.cells).filter fun row =>
          FilterOrGroup.allHold column.dtype .and Sample.ones.filters row.2).map Prod.fst
        = [[.int 2, .int 1]] := by
  refine ⟨rfl, by decide, ⟨by decide, by decide⟩, by decide, ?_, ?_⟩
  · decide +kernel
  · decide +kernel

end FilterRows

end SheetScript
