import Mathlib.Data.List.Dedup
import SheetScript.Proofs.Table.Groups

/-! # What aggregations give

  Missing cells do not count.  Means, medians and deviations are those of the numbers of
  the cells: in the precision of the type for a column of numbers, their whole part for
  one of dates, moments or durations.  The least and the greatest cell are cells of the
  column.  An aggregation of numbers has a value exactly if there are as many of them as
  it takes.

  Main statements: `Aggregation.of_average`, `Aggregation.of_least` and
  `Aggregation.of_isMissing_iff`.
-/

namespace SheetScript.Aggregation

variable {a : Aggregation} {t : DType} {cells : List Cell}

/-- The cells that are not missing. -/
def present (cells : List Cell) : List Cell := cells.filter fun c => !c.isMissing

/-- The mean, median or deviation of some numbers. -/
def average? : Aggregation → List Float → Option Float
  | .mean => mean?
  | .median => median?
  | .deviation => deviation?
  | _ => fun _ => none

/-- How many values an aggregation takes. -/
def needed : Aggregation → Nat
  | .count | .countUnique | .sum => 0
  | .mean | .median | .least | .greatest => 1
  | .deviation => 2

theorem mem_present {c : Cell} : c ∈ present cells ↔ c ∈ cells ∧ c.isMissing = false := by
  simp [present]

/-- Missing cells do not count. -/
@[simp] theorem of_present : a.of t (present cells) = a.of t cells := by
  simp only [of, present, List.filter_filter, Bool.and_self]

/-- What missing cells do not have is found in the cells that are not missing. -/
theorem filterMap_present {α : Type} {f : Cell → Option α} (hf : f .missing = none) :
    (present cells).filterMap f = cells.filterMap f := by
  unfold present
  rw [List.filterMap_filter]
  refine List.filterMap_congr fun c _ => ?_
  cases c with
  | missing => exact hf.symm
  | bool b | int n | float x | text s => rfl

/-! ### Sums -/

/-- The whole number that a cell counts as in a sum. -/
def whole? : Cell → Option Int
  | .int n => some n
  | .bool b => some (if b then 1 else 0)
  | _ => none

/-- Whole numbers, truth values and durations are added up in the type of their sums, and
  what goes beyond it is cut off. -/
theorem of_sum (ht : t.isInteger = true ∨ t = .bool ∨ t = .duration) :
    of .sum t cells = .int ((sumType t).wrap (cells.filterMap whole?).sum) := by
  have hfold : ∀ (n : Int) (cells : List Cell),
      cells.foldl (fun acc c => match c with
        | .int m => acc + m
        | .bool b => acc + (if b then 1 else 0)
        | _ => acc) n = n + (cells.filterMap whole?).sum := by
    intro n cells
    induction cells generalizing n with
    | nil => exact (Int.add_zero n).symm
    | cons c rest ih =>
      rw [List.foldl_cons, ih]
      cases c <;> simp [List.filterMap_cons, whole?, Int.add_assoc]
  have hsum : of .sum t cells
      = .int ((sumType t).wrap (0 + ((present cells).filterMap whole?).sum)) := by
    rw [← hfold]
    cases t <;> first | rfl | simp [DType.isInteger] at ht
  rw [hsum, filterMap_present rfl, Int.zero_add]

/-! ### Averages -/

theorem of_eq_averageCell (ha : a ∈ [mean, median, deviation]) (ht : t ≠ .text) :
    a.of t cells
      = ((a.average? (cells.filterMap Cell.toFloat?)).map (averageCell t)).getD .missing := by
  have hnumbers : numbers t (present cells) = cells.filterMap Cell.toFloat? := by
    rw [numbers, if_neg ht, filterMap_present rfl]
  rw [← hnumbers]
  simp only [List.mem_cons, List.not_mem_nil, or_false] at ha
  obtain rfl | rfl | rfl := ha <;> rfl

/-- The mean, the median and the deviation of a column of numbers or of truth values are
  those of its numbers, in the precision of the column. -/
theorem of_average (ha : a ∈ [mean, median, deviation])
    (ht : t.isNumeric = true ∨ t = .bool) :
    a.of t cells
      = Cell.ofFloat? ((a.average? (cells.filterMap Cell.toFloat?)).map t.rounded) := by
  have htext : t ≠ .text := by
    rintro rfl
    simp [DType.isNumeric, DType.isInteger, DType.isFloat] at ht
  rw [of_eq_averageCell ha htext]
  cases a.average? (cells.filterMap Cell.toFloat?) with
  | none => rfl
  | some x => simp [averageCell, ht, DType.rounded, Cell.ofFloat?]

/-- Those of a column of dates, moments or durations are cut to whole days or
  microseconds. -/
theorem of_average_temporal (ha : a ∈ [mean, median, deviation]) (ht : t.isTemporal = true) :
    a.of t cells = Cell.ofInt? t
      ((a.average? (cells.filterMap Cell.toFloat?)).bind Decimal.wholePart?) := by
  have htext : t ≠ .text := by
    rintro rfl
    cases ht
  have hnumber : ¬ (t.isNumeric || t = .bool) = true := by
    cases t <;> first | exact Bool.false_ne_true | cases ht
  rw [of_eq_averageCell ha htext]
  cases a.average? (cells.filterMap Cell.toFloat?) with
  | none => rfl
  | some x => simp [averageCell, hnumber, ht]

/-- In a column of numbers or of truth values every value is a number. -/
theorem length_numbers (ht : t.isNumeric = true ∨ t = .bool)
    (hcells : ∀ c ∈ cells, t.holds c = true) :
    (cells.filterMap Cell.toFloat?).length = (present cells).length := by
  have hsome : ∀ c ∈ present cells, c.toFloat?.isSome = true := by
    intro c hc
    obtain ⟨hin, hvalue⟩ := mem_present.mp hc
    have hholds := hcells c hin
    cases c with
    | missing => cases hvalue
    | text s =>
      obtain rfl : t = .text := by simpa [DType.holds] using hholds
      simp [DType.isNumeric, DType.isInteger, DType.isFloat] at ht
    | bool b | int n | float x => rfl
  rw [← filterMap_present rfl, List.length_filterMap_eq_countP, List.countP_eq_length]
  exact hsome

/-- In double precision numbers are added up from the first to the last. -/
theorem sumOf_float64 (hcells : ∀ c ∈ cells, DType.float64.holds c = true) :
    sumOf .float64 cells = .float ((cells.filterMap Cell.toFloat?).foldl (· + ·) 0) := by
  induction cells using List.reverseRecOn with
  | nil => rfl
  | append_singleton cells c ih =>
    obtain ⟨hcells, hc⟩ := by
      simpa only [List.forall_mem_append, List.forall_mem_singleton] using hcells
    have hsum : _ = List.foldl (· + ·) 0 (cells.filterMap Cell.toFloat?) :=
      Cell.float.inj (ih hcells)
    rw [List.filterMap_append, List.foldl_append, ← hsum]
    show Cell.float (List.foldl _ 0 (cells ++ [c])) = _
    rw [List.foldl_append]
    -- a missing cell is passed over
    cases c with
    | missing | float x => rfl
    | bool b | int n | text s => cases hc

/-- The mean of a column of double precision is its sum over the count of its values. -/
theorem of_mean {x : Float} {n : Nat} (hcells : ∀ c ∈ cells, DType.float64.holds c = true)
    (hsum : of .sum .float64 cells = .float x) (hcount : of .count .float64 cells = .int n)
    (hn : 0 < n) : of .mean .float64 cells = .float (x / Float.ofNat n) := by
  have hlength : (cells.filterMap Cell.toFloat?).length = n := by
    rw [length_numbers (.inl rfl) hcells]
    exact Int.natCast_inj.mp (Cell.int.inj hcount)
  -- both the sum and the mean go through the values in their order
  have htotal : (cells.filterMap Cell.toFloat?).foldl (· + ·) 0 = x := by
    have hpresent := sumOf_float64 fun c hc => hcells c (mem_present.mp hc).1
    rw [filterMap_present rfl] at hpresent
    exact Cell.float.inj (hpresent.symm.trans hsum)
  have hne : (cells.filterMap Cell.toFloat?).isEmpty = false := by
    rw [← hlength] at hn
    simpa using List.ne_nil_of_length_pos hn
  rw [of_average (by simp) (.inl rfl), average?, mean?, hne, htotal, hlength]
  rfl

theorem median?_eq_none {xs : List Float} : median? xs = none ↔ xs = [] := by
  unfold median?
  dsimp only
  generalize hsorted : (xs.mergeSort fun x y => compareFloat x y != .gt) = sorted
  have hlength : sorted.length = xs.length := by rw [← hsorted, List.length_mergeSort]
  rw [← List.length_eq_zero_iff, ← hlength]
  rcases Nat.eq_zero_or_pos sorted.length with h | h
  · simp [h]
  · rw [List.getElem?_eq_getElem (i := (sorted.length - 1) / 2) (by omega),
      List.getElem?_eq_getElem (i := sorted.length / 2) (by omega)]
    simp [h.ne']

@[simp] theorem Spread.add_count (s : Spread) (x : Float) : (s.add x).count = s.count + 1 := rfl

/-- A spread counts its numbers. -/
theorem Spread.count_foldl (xs : List Float) (s : Spread) :
    (xs.foldl Spread.add s).count = s.count + xs.length := by
  induction xs generalizing s with
  | nil => rfl
  | cons x rest ih =>
    rw [List.foldl_cons, ih, add_count, List.length_cons]
    omega

/-- Numbers have a mean and a median if there are any, and a deviation if there are two. -/
theorem average?_eq_none (ha : a ∈ [mean, median, deviation]) (xs : List Float) :
    a.average? xs = none ↔ xs.length < a.needed := by
  simp only [List.mem_cons, List.not_mem_nil, or_false] at ha
  obtain rfl | rfl | rfl := ha
  · simp [average?, mean?, needed]
  · simp [average?, median?_eq_none, needed]
  · have hcount := Spread.count_foldl xs {}
    rw [Nat.zero_add] at hcount
    simp only [average?, deviation?, hcount, needed]
    split
    · next h => exact iff_of_true rfl (by omega)
    · next h => exact iff_of_false (by simp) (by omega)

/-! ### The least and the greatest cell -/

theorem extreme_cons_cons (descending : Bool) (c d : Cell) (rest : List Cell) :
    extreme descending (c :: d :: rest) = extreme descending (pick descending c d :: rest) := rfl

theorem pick_cases (descending : Bool) (c d : Cell) :
    pick descending c d = c ∨ pick descending c d = d := by
  unfold pick
  split
  · split_ifs <;> simp
  · dsimp only
    split_ifs <;> simp

/-- The least and the greatest of some cells are among them. -/
theorem extreme_mem (descending : Bool) (hne : cells ≠ []) : extreme descending cells ∈ cells := by
  obtain ⟨c, rest, rfl⟩ := List.exists_cons_of_ne_nil hne
  clear hne
  induction rest generalizing c with
  | nil => exact List.mem_singleton_self c
  | cons d rest ih =>
    rw [extreme_cons_cons]
    rcases List.mem_cons.mp (ih (pick descending c d)) with h | h
    · rw [h]
      rcases pick_cases descending c d with h | h <;> simp [h]
    · exact List.mem_cons_of_mem _ (List.mem_cons_of_mem _ h)

/-- The first of two cells comes before the other, or they are alike; behind it if the
  greater come first. -/
def Leads (descending : Bool) (c d : Cell) : Prop :=
  if descending then d.rank ≤ c.rank else c.rank ≤ d.rank

theorem Leads.refl (descending : Bool) (c : Cell) : Leads descending c c := by
  unfold Leads
  split <;> exact le_refl _

theorem Leads.trans {descending : Bool} {c d e : Cell} (h : Leads descending c d)
    (h' : Leads descending d e) : Leads descending c e := by
  unfold Leads at *
  split_ifs at *
  · exact h'.trans h
  · exact h.trans h'

section Ordered

variable {k : CellKind} (hk : k ≠ .float)

include hk

/-- What is picked of two values leads both. -/
theorem leads_pick (descending : Bool) {c d : Cell}
    (hc : c.isOf k = true ∧ c.isMissing = false) (hd : d.isOf k = true ∧ d.isMissing = false) :
    Leads descending (pick descending c d) c ∧ Leads descending (pick descending c d) d := by
  have hcompare : Cell.compareValue c d = compare c.rank d.rank := by
    simpa [Cell.compareWith, hc.2, hd.2] using Cell.compareWith_eq hk hc.1 hd.1
  -- values that are no numbers with a point are compared by their ranks
  have hpick : pick descending c d
      = if compare c.rank d.rank == (if descending then .lt else .gt) then d else c := by
    rw [← hcompare]
    unfold pick
    split
    · cases k <;> first | exact absurd rfl hk | cases hc.1
    · rfl
  rw [hpick]
  unfold Leads
  rcases lt_trichotomy c.rank d.rank with h | h | h
  · cases descending <;> simp [compare_lt_iff_lt.mpr h, h.le]
  · cases descending <;> simp [h]
  · cases descending <;> simp [compare_gt_iff_gt.mpr h, h.le]

/-- The least and the greatest of some values lead them all. -/
theorem extreme_leads (descending : Bool)
    (hcells : ∀ c ∈ cells, c.isOf k = true ∧ c.isMissing = false) :
    ∀ d ∈ cells, Leads descending (extreme descending cells) d := by
  cases cells with
  | nil => exact fun _ hd => absurd hd List.not_mem_nil
  | cons c rest =>
    induction rest generalizing c with
    | nil =>
      intro d hd
      rw [List.mem_singleton.mp hd]
      exact Leads.refl descending c
    | cons e rest ih =>
      obtain ⟨hc, he, hrest⟩ := by simpa only [List.forall_mem_cons] using hcells
      have hpick := leads_pick hk descending hc he
      have hpicked : (pick descending c e).isOf k = true
          ∧ (pick descending c e).isMissing = false := by
        rcases pick_cases descending c e with h | h <;> rwa [h]
      have hall := ih (pick descending c e) (List.forall_mem_cons.mpr ⟨hpicked, hrest⟩)
      rw [extreme_cons_cons]
      have hfirst := hall _ List.mem_cons_self
      intro d hd
      rcases List.mem_cons.mp hd with rfl | hd
      · exact hfirst.trans hpick.1
      · rcases List.mem_cons.mp hd with rfl | hd
        · exact hfirst.trans hpick.2
        · exact hall d (List.mem_cons_of_mem _ hd)

/-- The least cell is one of the column that no other comes before. -/
theorem of_least (hcells : ∀ c ∈ cells, c.isOf k = true) (hne : present cells ≠ []) :
    of .least t cells ∈ present cells
      ∧ ∀ c ∈ present cells, (of .least t cells).rank ≤ c.rank := by
  have hpresent : ∀ c ∈ present cells, c.isOf k = true ∧ c.isMissing = false := fun c hc =>
    ⟨hcells c (mem_present.mp hc).1, (mem_present.mp hc).2⟩
  exact ⟨extreme_mem false hne, extreme_leads hk false hpresent⟩

/-- The greatest cell is one of the column that no other comes behind. -/
theorem of_greatest (hcells : ∀ c ∈ cells, c.isOf k = true) (hne : present cells ≠ []) :
    of .greatest t cells ∈ present cells
      ∧ ∀ c ∈ present cells, c.rank ≤ (of .greatest t cells).rank := by
  have hpresent : ∀ c ∈ present cells, c.isOf k = true ∧ c.isMissing = false := fun c hc =>
    ⟨hcells c (mem_present.mp hc).1, (mem_present.mp hc).2⟩
  exact ⟨extreme_mem true hne, extreme_leads hk true hpresent⟩

/-- The different values of cells: each of them once. -/
theorem distinct_spec (hcells : ∀ c ∈ cells, c.isOf k = true) :
    (distinct cells).Nodup ∧ ∀ c, c ∈ distinct cells ↔ c ∈ cells := by
  induction cells using List.reverseRecOn with
  | nil => exact ⟨List.nodup_nil, fun _ => Iff.rfl⟩
  | append_singleton cells c ih =>
    obtain ⟨hnd, hmem⟩ := ih fun d hd => hcells d (List.mem_append_left _ hd)
    -- a cell is added if none of those before is the same
    have hstep : distinct (cells ++ [c])
        = if c ∈ distinct cells then distinct cells else distinct cells ++ [c] := by
      have hany : ((distinct cells).any fun d => Cell.same d c) = decide (c ∈ distinct cells) := by
        rw [Bool.eq_iff_iff, List.any_eq_true, decide_eq_true_eq]
        have hc := hcells c (by simp)
        constructor
        · rintro ⟨d, hd, hsame⟩
          have hdk := hcells d (List.mem_append_left _ ((hmem d).mp hd))
          rw [Cell.same_iff hdk hc, Cell.value_inj hk hdk hc] at hsame
          exact hsame ▸ hd
        · exact fun hin => ⟨c, hin, (Cell.same_iff hc hc).mpr rfl⟩
      unfold distinct at hany ⊢
      rw [List.foldl_append, List.foldl_cons, List.foldl_nil, hany]
      simp only [decide_eq_true_eq]
    rw [hstep]
    split
    · next hin =>
      refine ⟨hnd, fun d => ?_⟩
      rw [List.mem_append, List.mem_singleton, ← hmem d]
      exact ⟨.inl, fun h => h.elim id fun heq => heq ▸ hin⟩
    · next habsent =>
      refine ⟨List.nodup_append_comm.mp (List.nodup_cons.mpr ⟨habsent, hnd⟩), fun d => ?_⟩
      rw [List.mem_append, List.mem_append, hmem d]

/-- The count of different cells that are not missing. -/
theorem of_countUnique (hcells : ∀ c ∈ cells, c.isOf k = true) :
    of .countUnique t cells = .int (present cells).dedup.length := by
  have hspec := distinct_spec hk fun c (hc : c ∈ present cells) => hcells c (mem_present.mp hc).1
  have hperm : (distinct (present cells)).Perm (present cells).dedup :=
    (List.perm_ext_iff_of_nodup hspec.1 (List.nodup_dedup _)).mpr fun c => by
      rw [hspec.2 c, List.mem_dedup]
  exact congrArg (fun n : Nat => Cell.int n) hperm.length_eq

end Ordered

/-! ### Which aggregations have a value -/

/-- A column of numbers or of truth values has no aggregation exactly if too few of its cells
  have a value. -/
theorem of_isMissing_iff (ht : t.isNumeric = true ∨ t = .bool)
    (hcells : ∀ c ∈ cells, t.holds c = true) :
    (a.of t cells).isMissing = true ↔ (present cells).length < a.needed := by
  have haverage : a ∈ [mean, median, deviation] →
      ((a.of t cells).isMissing = true ↔ (present cells).length < a.needed) := by
    intro ha
    rw [of_average ha ht, ← length_numbers ht hcells, ← average?_eq_none ha]
    cases a.average? (cells.filterMap Cell.toFloat?) <;> simp [Cell.ofFloat?, Cell.isMissing]
  have hextreme : ∀ descending, (extreme descending (present cells)).isMissing = true
      ↔ (present cells).length < 1 := by
    intro descending
    rw [Nat.lt_one_iff, List.length_eq_zero_iff]
    constructor
    · intro h
      by_contra hne
      rw [(mem_present.mp (extreme_mem descending hne)).2] at h
      cases h
    · intro h
      rw [h]
      rfl
  -- counts and sums always have a value
  cases a with
  | count | countUnique => exact iff_of_false Bool.false_ne_true (Nat.not_lt_zero _)
  | sum =>
    have hsum : (sumOf t (present cells)).isMissing = false := by
      unfold sumOf
      cases t <;> first | rfl | simp [DType.isNumeric, DType.isInteger, DType.isFloat] at ht
    exact iff_of_false (ne_true_of_eq_false hsum) (Nat.not_lt_zero _)
  | mean | median | deviation => exact haverage (by simp)
  | least => exact hextreme false
  | greatest => exact hextreme true

end SheetScript.Aggregation
