import Mathlib.Data.List.Nodup
import Mathlib.Data.List.Perm.Lattice
import SheetScript.Proofs.Table.Order
import SheetScript.Table.Join

/-! # What joins pair

  Every join is made of three lists: the pairs of rows whose keys agree, the left rows
  that have no partner, and the right rows that have none.  Which table leads and in
  which order its rows come does not matter for that.

  The two tables are given by the keys of their rows, numbered from zero.

  Main statements: `left_perm`, `right_perm`, `inner_perm` and `full_perm`.
-/

namespace SheetScript.Join

/-- The rows of a table of `n` rows whose keys agree with a key. -/
def agreeing (r : Nat → Key) (n : Nat) (key : Key) : List Nat :=
  (List.range n).filter fun j => agree key (r j)

/-- The pairs of rows whose keys agree. -/
def matched (l r : Nat → Key) (m n : Nat) : List RowPair :=
  (List.range m).flatMap fun i => (agreeing r n (l i)).map fun j => ⟨some i, some j⟩

/-- The rows whose key agrees with no key of the other table. -/
def unmatched (l r : Nat → Key) (m n : Nat) : List Nat :=
  (List.range m).filter fun i => (agreeing r n (l i)).isEmpty

/-- The left rows without a partner, each alone. -/
def aloneLeft (l r : Nat → Key) (m n : Nat) : List RowPair :=
  (unmatched l r m n).map fun i => ⟨some i, none⟩

/-- The right rows without a partner, each alone. -/
def aloneRight (l r : Nat → Key) (m n : Nat) : List RowPair :=
  (unmatched r l n m).map fun j => ⟨none, some j⟩

variable {l r : Nat → Key} {m n : Nat}

/-! ### Rows by their numbers -/

theorem zipIdx_map_range {α : Type} (f : Nat → α) (n : Nat) :
    ((List.range n).map f).zipIdx = (List.range n).map fun i => (f i, i) :=
  List.ext_getElem (by simp) fun i _ _ => by simp

theorem filterMap_ite {α β : Type} (l : List α) (p : α → Bool) (f : α → β) :
    (l.filterMap fun a => if p a = true then some (f a) else none) = (l.filter p).map f := by
  induction l with
  | nil => rfl
  | cons a rest ih => cases h : p a <;> simp [h, ih]

theorem partners_range (key : Key) : partners ((List.range n).map r) key = agreeing r n key := by
  unfold partners agreeing
  rw [zipIdx_map_range, List.filterMap_map]
  exact (filterMap_ite _ _ id).trans (List.map_id _)

theorem lonely_range :
    lonely ((List.range m).map l) ((List.range n).map r) = unmatched l r m n := by
  unfold lonely unmatched
  rw [zipIdx_map_range, List.filterMap_map]
  simp only [partners_range]
  exact (filterMap_ite _ _ id).trans (List.map_id _)

/-! ### The pairs -/

theorem mem_matched {p : RowPair} :
    p ∈ matched l r m n ↔ ∃ i < m, ∃ j < n, agree (l i) (r j) = true ∧ p = ⟨some i, some j⟩ := by
  simp only [matched, agreeing, List.mem_flatMap, List.mem_map, List.mem_filter, List.mem_range]
  constructor
  · rintro ⟨i, hi, j, ⟨hj, hagree⟩, rfl⟩
    exact ⟨i, hi, j, hj, hagree, rfl⟩
  · rintro ⟨i, hi, j, hj, hagree, rfl⟩
    exact ⟨i, hi, j, ⟨hj, hagree⟩, rfl⟩

theorem nodup_matched : (matched l r m n).Nodup := by
  unfold matched
  rw [List.nodup_flatMap]
  constructor
  · intro i _
    refine List.Nodup.map (fun j k h => ?_) (List.nodup_range.filter _)
    simpa using h
  · refine List.nodup_range.imp fun hne => ?_
    intro p hi hj
    simp only [List.mem_map] at hi hj
    obtain ⟨j, -, rfl⟩ := hi
    obtain ⟨k, -, h⟩ := hj
    simp only [RowPair.mk.injEq, Option.some.injEq] at h
    exact hne h.1.symm

/-- Where agreement goes both ways, the pairs are the same from either side. -/
theorem matched_swap (hcomm : ∀ i j, agree (r j) (l i) = agree (l i) (r j)) :
    ((matched r l n m).map RowPair.swap).Perm (matched l r m n) := by
  have hinj : Function.Injective RowPair.swap := by
    rintro ⟨a, b⟩ ⟨c, d⟩ h
    simpa [RowPair.swap, and_comm] using h
  refine (List.perm_ext_iff_of_nodup (nodup_matched.map hinj) nodup_matched).mpr fun p => ?_
  simp only [List.mem_map, mem_matched]
  constructor
  · rintro ⟨q, ⟨j, hj, i, hi, hagree, rfl⟩, rfl⟩
    exact ⟨i, hi, j, hj, hcomm i j ▸ hagree, rfl⟩
  · rintro ⟨i, hi, j, hj, hagree, rfl⟩
    exact ⟨⟨some j, some i⟩, ⟨j, hj, i, hi, (hcomm i j).trans hagree, rfl⟩, rfl⟩

/-- Each left row contributes its partners and, if there are none, itself. -/
theorem left_range (l r : Nat → Key) (m n : Nat) :
    left ((List.range m).map l) ((List.range n).map r)
      = (List.range m).flatMap fun i =>
          ((agreeing r n (l i)).map fun j => (⟨some i, some j⟩ : RowPair))
            ++ if (agreeing r n (l i)).isEmpty then [⟨some i, none⟩] else [] := by
  unfold left
  rw [zipIdx_map_range, List.flatMap_map]
  refine List.flatMap_congr fun i _ => ?_
  simp only [partners_range]
  split <;> simp_all

theorem left_perm : (left ((List.range m).map l) ((List.range n).map r)).Perm
    (matched l r m n ++ aloneLeft l r m n) := by
  have halone : aloneLeft l r m n = (List.range m).flatMap fun i =>
      if (agreeing r n (l i)).isEmpty then [(⟨some i, none⟩ : RowPair)] else [] := by
    unfold aloneLeft unmatched
    induction List.range m with
    | nil => rfl
    | cons i rest ih =>
      rw [List.flatMap_cons, ← ih, List.filter_cons]
      split <;> simp
  rw [left_range, halone]
  exact (List.flatMap_append_perm _ _ _).symm

theorem map_swap_aloneLeft : (aloneLeft r l n m).map RowPair.swap = aloneRight l r m n := by
  simp [aloneLeft, aloneRight, RowPair.swap, Function.comp_def]

theorem right_perm (hcomm : ∀ i j, agree (r j) (l i) = agree (l i) (r j)) :
    (right ((List.range m).map l) ((List.range n).map r)).Perm
      (matched l r m n ++ aloneRight l r m n) := by
  unfold right
  refine (left_perm.map RowPair.swap).trans ?_
  rw [List.map_append, map_swap_aloneLeft]
  exact (matched_swap hcomm).append_right _

theorem filter_isFull (alone : List Nat) (f : Nat → RowPair) (hf : ∀ i, (f i).isFull = false) :
    (matched l r m n ++ alone.map f).filter RowPair.isFull = matched l r m n := by
  rw [List.filter_append, List.filter_eq_self.mpr, List.filter_eq_nil_iff.mpr, List.append_nil]
  · intro p hp
    obtain ⟨i, -, rfl⟩ := List.mem_map.mp hp
    simp [hf]
  · intro p hp
    obtain ⟨i, -, j, -, -, rfl⟩ := mem_matched.mp hp
    rfl

theorem inner_perm (hcomm : ∀ i j, agree (r j) (l i) = agree (l i) (r j)) :
    (inner ((List.range m).map l) ((List.range n).map r)).Perm (matched l r m n) := by
  unfold inner
  split
  · exact (left_perm.filter _).trans (.of_eq (filter_isFull _ _ fun _ => rfl))
  · exact ((right_perm hcomm).filter _).trans (.of_eq (filter_isFull _ _ fun _ => rfl))

theorem full_perm (hcomm : ∀ i j, agree (r j) (l i) = agree (l i) (r j)) :
    (full ((List.range m).map l) ((List.range n).map r)).Perm
      (matched l r m n ++ (aloneLeft l r m n ++ aloneRight l r m n)) := by
  unfold full
  split
  · rw [lonely_range, ← List.append_assoc]
    exact left_perm.append_right _
  · rw [lonely_range]
    refine ((right_perm hcomm).append_right _).trans ?_
    rw [List.append_assoc]
    exact List.perm_append_comm.append_left _

/-! ### The first partner -/

/-- Whether no row before has the same key. -/
def isFirst (r : Nat → Key) (j : Nat) : Bool :=
  (List.range j).all fun i => !Cell.sameAll (r i) (r j)

/-- The first row whose key agrees with a key. -/
def firstAgreeing (r : Nat → Key) (n : Nat) (key : Key) : Option Nat :=
  (List.range n).find? fun j => agree key (r j)

section Keys

/-- A missing cell agrees with nothing: keys that agree have none on either side. -/
theorem not_missing_of_agree {a b : Key} (h : agree a b = true) :
    (∀ c ∈ a, c.isMissing = false) ∧ ∀ c ∈ b, c.isMissing = false := by
  simp only [agree, Cell.sameAll, Bool.and_eq_true, List.all_eq_true, Bool.not_eq_true',
    beq_iff_eq] at h
  obtain ⟨ha, hlength, hsame⟩ := h
  refine ⟨ha, fun d hd => ?_⟩
  obtain ⟨k, hk, rfl⟩ := List.mem_iff_getElem.mp hd
  have hka : k < a.length := by omega
  have hsame := hsame (a[k], b[k]) (List.mem_iff_getElem.mpr ⟨k, by simp [hka, hk], by simp⟩)
  have hpresent := ha a[k] (List.getElem_mem hka)
  cases hd : b[k] with
  | missing => cases hc : a[k] <;> simp_all [Cell.same, Cell.isMissing]
  | _ => rfl

/-- Keys whose cells are of given kinds, one by one. -/
def Keyed (ks : List CellKind) (key : Key) : Prop :=
  List.Forall₂ (fun k c => Cell.isOf k c = true) ks key

variable {ks : List CellKind} {a b : Key}

theorem agree_iff (ha : Keyed ks a) (hb : Keyed ks b) :
    agree a b = true ↔ (∀ c ∈ a, c.isMissing = false) ∧ a.map Cell.value = b.map Cell.value := by
  rw [agree, Bool.and_eq_true, Cell.sameAll_iff ha hb]
  simp

theorem isMissing_of_value_eq {as bs : List Cell} (h : as.map Cell.value = bs.map Cell.value)
    (hbs : ∀ c ∈ bs, c.isMissing = false) : ∀ c ∈ as, c.isMissing = false := by
  intro c hc
  have hvalue : c.value ∈ bs.map Cell.value := h ▸ List.mem_map.mpr ⟨c, hc, rfl⟩
  obtain ⟨d, hd, hcd⟩ := List.mem_map.mp hvalue
  by_contra hmissing
  rw [Bool.not_eq_false, ← Cell.value_eq_missing, ← hcd, Cell.value_eq_missing] at hmissing
  exact absurd (hbs d hd) (by simp [hmissing])

/-- Agreement goes both ways. -/
theorem agree_comm (ha : Keyed ks a) (hb : Keyed ks b) : agree b a = agree a b := by
  rw [Bool.eq_iff_iff, agree_iff ha hb, agree_iff hb ha]
  exact ⟨fun h => ⟨isMissing_of_value_eq h.2.symm h.1, h.2.symm⟩,
    fun h => ⟨isMissing_of_value_eq h.2.symm h.1, h.2.symm⟩⟩

variable (hl : ∀ i, Keyed ks (l i)) (hr : ∀ j, Keyed ks (r j))

include hr in
theorem isFirst_iff {j : Nat} :
    isFirst r j = true ↔ ∀ i < j, (r i).map Cell.value ≠ (r j).map Cell.value := by
  simp only [isFirst, List.all_eq_true, List.mem_range, Bool.not_eq_true', ← Bool.not_eq_true,
    Cell.sameAll_iff (hr _) (hr j), ne_eq]

include hr in
/-- A key that came before came first somewhere. -/
theorem exists_first {i : Nat} :
    ∃ j ≤ i, isFirst r j = true ∧ (r j).map Cell.value = (r i).map Cell.value := by
  induction i using Nat.strong_induction_on with
  | _ i ih =>
    by_cases hfirst : isFirst r i = true
    · exact ⟨i, Nat.le_refl i, hfirst, rfl⟩
    · rw [isFirst_iff hr] at hfirst
      push Not at hfirst
      obtain ⟨k, hk, hvalue⟩ := hfirst
      obtain ⟨j, hj, hfirst, hsame⟩ := ih k hk
      exact ⟨j, by omega, hfirst, hsame.trans hvalue⟩

include hr in
/-- The rows that are kept as the first of their keys. -/
theorem firstRows_range (n : Nat) :
    firstRows ((List.range n).map r) = (List.range n).filter (isFirst r) := by
  have hseen : ∀ n, ((List.range n).map fun j => (r j, j)).foldl
      (fun (seen : List (Key × Nat)) e =>
        if seen.any fun s => Cell.sameAll s.1 e.1 then seen else seen ++ [e]) []
      = ((List.range n).filter (isFirst r)).map fun j => (r j, j) := by
    intro n
    induction n with
    | zero => rfl
    | succ n ih =>
      rw [List.range_succ, List.map_append, List.foldl_append, ih, List.filter_append]
      -- A key was seen among the first ones exactly if it came before at all.
      have hany : (((List.range n).filter (isFirst r)).map fun j => (r j, j)).any
          (fun s => Cell.sameAll s.1 (r n)) = !isFirst r n := by
        rw [Bool.eq_iff_iff, Bool.not_eq_true', ← Bool.not_eq_true, isFirst_iff hr]
        simp only [List.any_map, List.any_eq_true, List.mem_filter, List.mem_range,
          Function.comp_apply, Cell.sameAll_iff (hr _) (hr n)]
        push Not
        constructor
        · rintro ⟨j, ⟨hj, -⟩, hvalue⟩
          exact ⟨j, hj, hvalue⟩
        · rintro ⟨i, hi, hvalue⟩
          obtain ⟨j, hj, hfirst, hsame⟩ := exists_first hr (i := i)
          exact ⟨j, ⟨by omega, hfirst⟩, hsame.trans hvalue⟩
      simp only [List.map_cons, List.map_nil, List.foldl_cons, List.foldl_nil, hany]
      cases hfirst : isFirst r n <;> simp [hfirst]
  unfold firstRows
  rw [zipIdx_map_range, hseen, List.map_map]
  exact List.map_id _

include hl hr in
/-- Among the first rows of their keys the only partner of a row is its first partner. -/
theorem agreeing_first (i n : Nat) :
    ((List.range n).filter (isFirst r)).filter (fun j => agree (l i) (r j))
      = (firstAgreeing r n (l i)).toList := by
  rw [List.filter_filter]
  unfold firstAgreeing
  cases hfind : (List.range n).find? fun j => agree (l i) (r j) with
  | none =>
    rw [List.find?_eq_none] at hfind
    exact List.filter_eq_nil_iff.mpr fun j hj => by simp [hfind j hj]
  | some j =>
    obtain ⟨hagree, hmem, hbefore⟩ := List.find?_range_eq_some.mp hfind
    have honly : ∀ k ∈ List.range n, (agree (l i) (r k) && isFirst r k) = (k == j) := by
      intro k _
      have hj := (agree_iff (hl i) (hr j)).mp hagree
      have hnone : ∀ k < j, (l i).map Cell.value ≠ (r k).map Cell.value := by
        intro k hk hvalue
        have hk := hbefore k hk
        rw [(agree_iff (hl i) (hr k)).mpr ⟨hj.1, hvalue⟩] at hk
        cases hk
      rw [Bool.eq_iff_iff, Bool.and_eq_true, beq_iff_eq, agree_iff (hl i) (hr k), isFirst_iff hr]
      constructor
      · rintro ⟨⟨-, hvalue⟩, hfirst⟩
        rcases Nat.lt_trichotomy k j with h | h | h
        · exact absurd hvalue (hnone k h)
        · exact h
        · exact absurd (hj.2.symm.trans hvalue) (hfirst j h)
      · rintro rfl
        exact ⟨hj, fun i hi hvalue => hnone i hi (hj.2.trans hvalue.symm)⟩
    rw [List.filter_congr honly, List.filter_beq]
    simp [List.count_eq_one_of_mem List.nodup_range hmem]

end Keys

end SheetScript.Join
