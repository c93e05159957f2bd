import Mathlib.Data.List.Basic
import SheetScript.Decimal.Text

/-! # Digits of numbers

  A natural number is written in digits, without a zero at the head, and read back from
  them.  A number of any layout has digits, a point, an exponent and signs.
-/

namespace SheetScript.Decimal

/-- The digits of a natural number: only zero starts with a zero. -/
theorem head_digitsOf (n : Nat) (h : n ≠ 0) : (digitsOf n).head? ≠ some '0' := by
  induction n using Nat.strongRecOn with
  | _ n ih =>
    by_cases hn : n < 10
    · have hdigit : ∀ d < 10, d ≠ 0 → [Nat.digitChar d].head? ≠ some '0' := by decide
      rw [digitsOf, Nat.toDigits_of_lt_base hn]
      exact hdigit n hn h
    · have hprev := ih (n / 10) (by omega) (by omega)
      have hne : Nat.toDigits 10 (n / 10) ≠ [] := Nat.toDigits_ne_nil
      rw [digitsOf, Nat.toDigits_of_base_le (by decide) (by omega)]
      rwa [List.head?_append_of_ne_nil _ hne]

theorem all_digitsOf (n : Nat) : (digitsOf n).all isDigit = true := by
  rw [List.all_eq_true]
  intro c hc
  exact Nat.isDigit_of_mem_toDigits (by decide) (by decide) hc

theorem exists_digitsOf (n : Nat) : ∃ c ds, digitsOf n = c :: ds ∧ isDigit c = true := by
  have hne : digitsOf n ≠ [] := Nat.toDigits_ne_nil
  obtain ⟨c, ds, hds⟩ := List.exists_cons_of_ne_nil hne
  exact ⟨c, ds, hds, List.all_eq_true.mp (all_digitsOf n) c (hds ▸ List.mem_cons_self)⟩

/-- A number is read back from its digits. -/
theorem natOfDigits_digitsOf (n : Nat) : natOfDigits (digitsOf n) = n :=
  Nat.ofDigitChars_ten_toDigits

/-! ### The characters of a number -/

/-- A run of characters ends where no character of its kind is. -/
theorem span_append {p : Char → Bool} {cs rest : List Char} (h : cs.all p = true)
    (hrest : ∀ c ∈ rest.head?, p c = false) :
    (cs ++ rest).takeWhile p = cs ∧ (cs ++ rest).dropWhile p = rest := by
  have hall := List.all_eq_true.mp h
  rw [List.takeWhile_append_of_pos hall, List.dropWhile_append_of_pos hall]
  cases rest with
  | nil => simp
  | cons c rest =>
    have hc : ¬ p c = true := by simp [hrest c rfl]
    rw [List.takeWhile_cons_of_neg hc, List.dropWhile_cons_of_neg hc, List.append_nil]
    exact ⟨rfl, rfl⟩

/-- A character that a number can have. -/
def isMark (c : Char) : Bool :=
  isDigit c || c == '.' || c == 'e' || c == 'E' || c == '+' || c == '-'

theorem isMark_of_isDigit {c : Char} (h : isDigit c = true) : isMark c = true := by
  simp [isMark, h]

theorem all_isMark {ds : List Char} (h : ds.all isDigit = true) : ds.all isMark = true := by
  rw [List.all_eq_true] at h ⊢
  exact fun c hc => isMark_of_isDigit (h c hc)

theorem all_intText (n : Int) : (intText n).toList.all isMark = true := by
  cases n with
  | ofNat n =>
    rw [intText, natText, String.toList_ofList]
    exact all_isMark (all_digitsOf n)
  | negSucc n =>
    rw [intText, natText, String.toList_append, List.all_append,
      String.toList_ofList (l := digitsOf (n + 1)), all_isMark (all_digitsOf _)]
    rfl

theorem all_body (l : Layout) (digits : Nat) (exponent : Int) :
    (l.body digits exponent).all isMark = true := by
  have hdigits := all_isMark (all_digitsOf digits)
  have hexponent := all_intText ((digitsOf digits).length + exponent - 1)
  unfold Layout.body
  dsimp only
  generalize digitsOf digits = ds at hdigits hexponent
  have hpart : ∀ part, part ⊆ ds → part.all isMark = true := fun part hsub =>
    List.all_eq_true.mpr fun c hc => List.all_eq_true.mp hdigits c (hsub hc)
  have hzeros : ∀ k, (List.replicate k '0').all isMark = true := by
    intro k
    rw [List.all_eq_true]
    intro c hc
    rw [List.eq_of_mem_replicate hc]
    rfl
  split
  · split
    · rw [List.all_append, List.all_append, hdigits, hzeros]
      split <;> rfl
    · split
      · rw [List.all_append, List.all_cons, hpart _ (List.take_subset _ _),
          hpart _ (List.drop_subset _ _)]
        rfl
      · rw [List.all_cons, List.all_cons, List.all_append, hzeros, hdigits]
        rfl
  · simp only [List.all_append, List.all_cons, Bool.and_eq_true]
    refine ⟨?_, rfl, ?_, hexponent⟩
    · split
      · simp only [List.all_cons, Bool.and_eq_true] at hdigits ⊢
        exact ⟨hdigits.1, rfl, hdigits.2⟩
      · exact hdigits
    · split <;> rfl

theorem all_render_zero (l : Layout) (negative : Bool) :
    (l.render (.zero negative)).toList.all isMark = true := by
  rw [Layout.render, String.toList_ofList]
  split <;> split <;> rfl

theorem all_render_finite (l : Layout) (negative : Bool) (b : Binary) :
    (l.render (.finite negative b)).toList.all isMark = true := by
  rw [Layout.render, String.toList_ofList, List.all_append, all_body, Bool.and_true]
  cases negative <;> rfl

end SheetScript.Decimal
