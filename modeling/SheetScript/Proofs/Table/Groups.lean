import Mathlib.Data.Int.ConditionallyCompleteOrder
import Mathlib.Data.List.Induction
import Mathlib.Data.List.Lex
import Mathlib.Data.Prod.Lex
import Mathlib.Order.ConditionallyCompleteLattice.Basic
import Mathlib.Order.WithBot
import SheetScript.Proofs.Table.Join
import SheetScript.Table.Aggregation

/-! # Groups in the order of their keys

  Cells of one kind other than floating-point numbers stand in a linear order: the missing
  cell, then whole numbers by their size, `false` before `true`, texts by their code
  points.  Keys are compared like words.  Rows fall into one group for each key among
  them; the groups come in the order of the keys, and each has the rows of its key in
  their own order.

  Main statement: `Group.sorted_eq`.
-/

namespace SheetScript

namespace Cell

/-- The place of a cell among those of its kind, the missing cell first; floating-point
  numbers are given none. -/
def rank : Cell → WithBot (ℤ ×ₗ String)
  | .missing | .float _ => ⊥
  | .bool b => ↑(toLex ((b.toNat : ℤ), ""))
  | .int n => ↑(toLex (n, ""))
  | .text s => ↑(toLex ((0 : ℤ), s))

/-- The places of the cells of a key. -/
def ranks (key : List Cell) : List (WithBot (ℤ ×ₗ String)) := key.map rank

variable {k : CellKind} {a b : Cell}

/-- Cells of one kind are told apart by their places. -/
theorem rank_inj (hk : k ≠ .float) (ha : a.isOf k = true) (hb : b.isOf k = true) :
    a.rank = b.rank ↔ a = b := by
  cases k with
  | float => exact absurd rfl hk
  | bool =>
    cases a <;> cases b <;> simp_all [rank, isOf]
    next x y => cases x <;> cases y <;> simp
  | int => cases a <;> cases b <;> simp_all [rank, isOf]
  | text => cases a <;> cases b <;> simp_all [rank, isOf]

/-- Cells of one kind are sorted by their places. -/
theorem compareWith_eq (hk : k ≠ .float) (ha : a.isOf k = true) (hb : b.isOf k = true) :
    compareWith false .first a b = compare a.rank b.rank := by
  have hcompare : ∀ {o : Ordering} {x y : WithBot (ℤ ×ₗ String)},
      (o = .lt ↔ x < y) → (o = .gt ↔ y < x) → o = compare x y := by
    intro o x y hlt hgt
    rcases lt_trichotomy x y with h | rfl | h
    · rw [hlt.mpr h, compare_lt_iff_lt.mpr h]
    · cases o <;> simp_all
    · rw [hgt.mpr h, compare_gt_iff_gt.mpr h]
  cases k with
  | float => exact absurd rfl hk
  | bool =>
    apply hcompare <;> cases a <;> cases b <;> simp_all [compareWith, isMissing, rank, isOf]
    all_goals
      next x y =>
        cases x <;> cases y <;>
          simp [compareValue, Prod.Lex.toLex_lt_toLex, compare_lt_iff_lt, compare_gt_iff_gt]
  | int =>
    apply hcompare <;> cases a <;> cases b <;> simp_all [compareWith, isMissing, rank, isOf]
    all_goals simp [compareValue, Prod.Lex.toLex_lt_toLex, compare_lt_iff_lt, compare_gt_iff_gt]
  | text =>
    apply hcompare <;> cases a <;> cases b <;> simp_all [compareWith, isMissing, rank, isOf]
    all_goals
      next s t =>
        unfold compareValue
        rcases lt_trichotomy s t with h | rfl | h
        · simp [h, h.not_gt, Prod.Lex.toLex_lt_toLex]
        · simp
        · simp [h, h.not_gt, Prod.Lex.toLex_lt_toLex]

/-- The values of cells of one kind tell them apart. -/
theorem value_inj (hk : k ≠ .float) (ha : a.isOf k = true) (hb : b.isOf k = true) :
    a.value = b.value ↔ a = b := by
  cases k with
  | float => exact absurd rfl hk
  | bool | int | text => cases a <;> cases b <;> simp_all [value, isOf]

/-- Keys in ascending order differ. -/
theorem nodup_of_ascending {as : List (List Cell)}
    (has : as.Pairwise fun a b => ranks a < ranks b) : as.Nodup := by
  refine has.imp ?_
  rintro a _ hlt rfl
  exact lt_irrefl _ hlt

/-- Keys in ascending order are given by which keys they are. -/
theorem eq_of_ascending {as bs : List (List Cell)}
    (has : as.Pairwise fun a b => ranks a < ranks b)
    (hbs : bs.Pairwise fun a b => ranks a < ranks b) (hmem : ∀ k, k ∈ as ↔ k ∈ bs) : as = bs := by
  exact List.Perm.eq_of_pairwise (fun _ _ _ _ hlt hgt => absurd hlt hgt.asymm) has hbs
    ((List.perm_ext_iff_of_nodup (nodup_of_ascending has) (nodup_of_ascending hbs)).mpr hmem)

section Keys

variable {ks : List CellKind} {as bs : List Cell} (hks : .float ∉ ks)

include hks

/-- Keys of the same kinds are told apart by the places of their cells. -/
theorem ranks_inj (has : Join.Keyed ks as) (hbs : Join.Keyed ks bs) :
    ranks as = ranks bs ↔ as = bs := by
  induction has generalizing bs with
  | nil =>
    cases hbs
    simp
  | @cons k a ks as ha has ih =>
    cases hbs with
    | @cons _ b _ bs hb hbs =>
      rw [List.mem_cons, not_or] at hks
      have hrest := ih hks.2 hbs
      unfold ranks at hrest ⊢
      rw [List.map_cons, List.map_cons, List.cons.injEq, List.cons.injEq, hrest,
        rank_inj (Ne.symm hks.1) ha hb]

/-- Keys of the same kinds are sorted like words. -/
theorem compareKeys_eq_gt_iff (has : Join.Keyed ks as) (hbs : Join.Keyed ks bs) :
    compareKeys false .first as bs = .gt ↔ ranks bs < ranks as := by
  induction has generalizing bs with
  | nil =>
    cases hbs
    simp [compareKeys]
  | @cons k a ks as ha has ih =>
    cases hbs with
    | @cons _ b _ bs hb hbs =>
      rw [List.mem_cons, not_or] at hks
      have hrest := ih hks.2 hbs
      unfold ranks at hrest ⊢
      rw [compareKeys, compareWith_eq (Ne.symm hks.1) ha hb, Ordering.then_eq_gt,
        compare_gt_iff_gt, compare_eq_iff_eq, hrest, List.map_cons, List.map_cons,
        List.cons_lt_cons_iff]
      exact or_congr_right (and_congr_left fun _ => eq_comm)

/-- Keys of the same kinds hold the same values exactly if they are equal. -/
theorem sameAll_iff_eq (has : Join.Keyed ks as) (hbs : Join.Keyed ks bs) :
    sameAll as bs = true ↔ as = bs := by
  rw [sameAll_iff has hbs]
  induction has generalizing bs with
  | nil =>
    cases hbs
    simp
  | @cons k a ks as ha has ih =>
    cases hbs with
    | @cons _ b _ bs hb hbs =>
      rw [List.mem_cons, not_or] at hks
      rw [List.map_cons, List.map_cons, List.cons.injEq, List.cons.injEq, ih hks.2 hbs,
        value_inj (Ne.symm hks.1) ha hb]

end Keys

end Cell

/-! ### Rows by their keys -/

namespace Group

/-- The group of a key among some rows. -/
def ofKey (rows : List (List Cell × Nat)) (key : List Cell) : Group :=
  ⟨key, (rows.filter fun r => r.1 = key).map Prod.snd⟩

/-- A row joins the group of its key, or starts one behind the others. -/
theorem place_ofKey {rows : List (List Cell × Nat)} {key : List Cell} {row : Nat}
    {keys : List (List Cell)} (hnd : keys.Nodup)
    (hsame : ∀ k ∈ keys, Cell.sameAll k key = true ↔ k = key)
    (hrows : key ∉ keys → ∀ r ∈ rows, r.1 ≠ key) :
    place key row (keys.map (ofKey rows))
      = (if key ∈ keys then keys else keys ++ [key]).map (ofKey (rows ++ [(key, row)])) := by
  have hnew : ofKey (rows ++ [(key, row)]) key
      = ⟨key, (ofKey rows key).rows ++ [row]⟩ := by simp [ofKey]
  have hother : ∀ k, k ≠ key → ofKey (rows ++ [(key, row)]) k = ofKey rows k := by
    intro k hk
    simp [ofKey, Ne.symm hk]
  induction keys with
  | nil =>
    have hnone : (ofKey rows key).rows = [] := by
      have habsent := hrows List.not_mem_nil
      simp only [ofKey, List.map_eq_nil_iff, List.filter_eq_nil_iff, decide_eq_true_eq]
      exact habsent
    rw [if_neg List.not_mem_nil, List.nil_append, List.map_singleton, hnew, hnone]
    rfl
  | cons k rest ih =>
    obtain ⟨hk, hrest⟩ := List.nodup_cons.mp hnd
    rw [List.map_cons, place]
    by_cases hkey : k = key
    · subst hkey
      have hgo : Cell.sameAll (ofKey rows k).key k = true := (hsame k List.mem_cons_self).mpr rfl
      rw [if_pos hgo, if_pos List.mem_cons_self, List.map_cons, hnew]
      refine congrArg _ (List.map_congr_left fun k' hk' => (hother k' ?_).symm)
      exact fun heq => hk (heq ▸ hk')
    · have hgo : ¬ Cell.sameAll (ofKey rows k).key key = true := fun h =>
        hkey ((hsame k List.mem_cons_self).mp h)
      have hmem : key ∈ k :: rest ↔ key ∈ rest := by simp [Ne.symm hkey]
      rw [if_neg hgo, ih hrest (fun k' hk' => hsame k' (List.mem_cons_of_mem _ hk'))
        fun h => hrows (hmem.not.mpr h)]
      simp only [hmem]
      split <;> simp [hother k hkey]

/-- Rows with keys of the same kinds are collected by their keys. -/
theorem collect_eq {ks : List CellKind} {rows : List (List Cell × Nat)} (hks : .float ∉ ks)
    (hkeyed : ∀ r ∈ rows, Join.Keyed ks r.1) :
    ∃ keys : List (List Cell), keys.Nodup ∧ (∀ k, k ∈ keys ↔ k ∈ rows.map Prod.fst)
      ∧ collect rows = keys.map (ofKey rows) := by
  induction rows using List.reverseRecOn with
  | nil => exact ⟨[], List.nodup_nil, fun k => Iff.rfl, rfl⟩
  | append_singleton rows r ih =>
    obtain ⟨keys, hnd, hmem, hcollect⟩ := ih fun r hr => hkeyed r (List.mem_append_left _ hr)
    have hr : Join.Keyed ks r.1 := hkeyed r (List.mem_append_right _ List.mem_cons_self)
    have hsame : ∀ k ∈ keys, Cell.sameAll k r.1 = true ↔ k = r.1 := by
      intro k hk
      obtain ⟨r', hr', rfl⟩ := List.mem_map.mp ((hmem k).mp hk)
      exact Cell.sameAll_iff_eq hks (hkeyed r' (List.mem_append_left _ hr')) hr
    refine ⟨if r.1 ∈ keys then keys else keys ++ [r.1], ?_, fun k => ?_, ?_⟩
    · split
      · exact hnd
      · next habsent => exact List.nodup_append_comm.mp (List.nodup_cons.mpr ⟨habsent, hnd⟩)
    · rw [List.map_append, List.mem_append, ← hmem k, List.map_singleton, List.mem_singleton]
      split
      · next hin => exact ⟨.inl, fun h => h.elim id fun heq => heq ▸ hin⟩
      · rw [List.mem_append, List.mem_singleton]
    · have hstep : collect (rows ++ [r]) = place r.1 r.2 (collect rows) := by
        simp [collect]
      rw [hstep, hcollect]
      exact place_ofKey hnd hsame fun habsent r' hr' heq =>
        habsent ((hmem _).mpr (List.mem_map.mpr ⟨r', hr', heq⟩))

/-- Sorted groups: one for each key of the rows, in ascending order, each with the rows of
  its key. -/
theorem sorted_eq {ks : List CellKind} {rows : List (List Cell × Nat)} (hks : .float ∉ ks)
    (hkeyed : ∀ r ∈ rows, Join.Keyed ks r.1) :
    ∃ keys : List (List Cell), keys.Pairwise (fun a b => Cell.ranks a < Cell.ranks b)
      ∧ (∀ k, k ∈ keys ↔ k ∈ rows.map Prod.fst) ∧ sorted rows = keys.map (ofKey rows) := by
  obtain ⟨keys, hnd, hmem, hcollect⟩ := collect_eq hks hkeyed
  have hkey : ∀ k ∈ keys, Join.Keyed ks k := by
    intro k hk
    obtain ⟨r, hr, rfl⟩ := List.mem_map.mp ((hmem k).mp hk)
    exact hkeyed r hr
  have hperm : (sorted rows).Perm (keys.map (ofKey rows)) := hcollect ▸ List.mergeSort_perm _ _
  -- the groups are those of their keys, in whatever order
  have hgroups : ∀ g ∈ sorted rows, ofKey rows g.key = g := by
    intro g hg
    obtain ⟨k, -, rfl⟩ := List.mem_map.mp (hperm.mem_iff.mp hg)
    rfl
  have hkeys : ((sorted rows).map Group.key).Perm keys := by
    refine (hperm.map Group.key).trans (.of_eq ?_)
    rw [List.map_map]
    exact List.map_id keys
  -- by the places of their cells, the keys are sorted in a linear order
  have hcompare : ∀ g ∈ collect rows, ∀ g' ∈ collect rows,
      (Cell.compareKeys false .first g.key g'.key != .gt)
        = decide (Cell.ranks g.key ≤ Cell.ranks g'.key) := by
    intro g hg g' hg'
    rw [hcollect] at hg hg'
    obtain ⟨k, hk, rfl⟩ := List.mem_map.mp hg
    obtain ⟨k', hk', rfl⟩ := List.mem_map.mp hg'
    have hgt : _ ↔ Cell.ranks (ofKey rows k').key < Cell.ranks (ofKey rows k).key :=
      Cell.compareKeys_eq_gt_iff hks (hkey k hk) (hkey k' hk')
    rw [Bool.eq_iff_iff, bne_iff_ne, decide_eq_true_eq, ← not_lt, ← hgt]
  have hsorted : (((sorted rows).map Group.key).map Cell.ranks).Pairwise (· ≤ ·) := by
    rw [List.map_map]
    unfold sorted
    rw [List.map_mergeSort (f := Cell.ranks ∘ Group.key) (s := fun a b => decide (a ≤ b)) hcompare]
    exact List.pairwise_mergeSort' (· ≤ ·) _
  have hdistinct : (((sorted rows).map Group.key).map Cell.ranks).Nodup := by
    refine (hkeys.map Cell.ranks).nodup_iff.mpr (hnd.map_on fun k hk k' hk' heq => ?_)
    exact (Cell.ranks_inj hks (hkey k hk) (hkey k' hk')).mp heq
  refine ⟨(sorted rows).map Group.key, ?_, fun k => hkeys.mem_iff.trans (hmem k), ?_⟩
  · rw [← List.pairwise_map]
    exact hsorted.imp₂ (fun _ _ hle hne => lt_of_le_of_ne hle hne) hdistinct
  · have hsame : (sorted rows).map (ofKey rows ∘ Group.key) = (sorted rows).map id :=
      List.map_congr_left hgroups
    rw [List.map_map, hsame, List.map_id]

end Group

end SheetScript
