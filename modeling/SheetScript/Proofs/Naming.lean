import Mathlib.Data.List.Nodup
import Mathlib.Data.List.Perm.Subperm
import SheetScript.Naming

/-! # Free names

  Numbered names differ from each other, so among one more of them than there are
  taken names one is free, and `Naming.firstFree` finds the first of them.  A list that keeps its
  length when repetitions are erased has none.
-/

namespace SheetScript

theorem nodup_eraseDups {α : Type} [DecidableEq α] (l : List α) : l.eraseDups.Nodup := by
  cases l with
  | nil => exact List.nodup_nil
  | cons a rest =>
    rw [List.eraseDups_cons]
    refine List.nodup_cons.mpr ⟨fun ha => ?_, nodup_eraseDups (rest.filter fun b => !b == a)⟩
    simpa using List.mem_eraseDups.mp ha
termination_by l.length
decreasing_by
  have hle := List.length_filter_le (fun b => !b == a) rest
  rw [List.length_cons]
  omega

theorem length_eraseDups_of_nodup {α : Type} [DecidableEq α] {l : List α} (h : l.Nodup) :
    l.eraseDups.length = l.length := by
  have hsub : l.Subperm l.eraseDups :=
    List.subperm_of_subset h fun a ha => List.mem_eraseDups.mpr ha
  have hback : l.eraseDups.Subperm l :=
    List.subperm_of_subset (nodup_eraseDups l) fun a ha => List.mem_eraseDups.mp ha
  exact Nat.le_antisymm hback.length_le hsub.length_le

/-- A list that loses nothing when repetitions are erased has none. -/
theorem nodup_of_length_eraseDups {α : Type} [DecidableEq α] {l : List α}
    (h : l.eraseDups.length = l.length) : l.Nodup := by
  have hsub : l.eraseDups.Subperm l :=
    List.subperm_of_subset (nodup_eraseDups l) fun a ha => List.mem_eraseDups.mp ha
  exact (hsub.perm_of_length_le (Nat.le_of_eq h.symm)).nodup_iff.mp (nodup_eraseDups l)

namespace Naming

theorem natText_injective {m n : Nat} (h : Decimal.natText m = Decimal.natText n) : m = n := by
  have hdigits : Nat.toDigits 10 m = Nat.toDigits 10 n := by
    simpa [Decimal.natText, Decimal.digitsOf, String.ofList_inj] using h
  rw [← Nat.ofDigitChars_ten_toDigits (n := m), hdigits, Nat.ofDigitChars_ten_toDigits]

theorem numbered_injective {base : String} {m n : Nat} (h : numbered base m = numbered base n) :
    m = n := by
  apply natText_injective
  simpa [numbered, ← String.toList_inj, String.toList_append] using h

theorem toList_natText (n : Nat) : (Decimal.natText n).toList = Nat.toDigits 10 n := by
  simp [Decimal.natText, Decimal.digitsOf]

/-- A text is cut at the last of its separators. -/
theorem cut_last {a a' b b' : List Char} {c : Char} (hb : c ∉ b) (hb' : c ∉ b')
    (h : a ++ c :: b = a' ++ c :: b') : a = a' ∧ b = b' := by
  rcases List.append_eq_append_iff.mp h with ⟨as, rfl, hrest⟩ | ⟨as, rfl, hrest⟩
  · cases as with
    | nil => exact ⟨(List.append_nil a).symm, (List.cons.inj hrest).2⟩
    | cons d as =>
      obtain ⟨rfl, rfl⟩ := List.cons.inj hrest
      exact absurd (List.mem_append_right as List.mem_cons_self) hb
  · cases as with
    | nil => exact ⟨List.append_nil a', (List.cons.inj hrest).2.symm⟩
    | cons d as =>
      obtain ⟨rfl, rfl⟩ := List.cons.inj hrest
      exact absurd (List.mem_append_right as List.mem_cons_self) hb'

/-! ### Searches for a free name -/

/-- A sequence without repetitions has a member that is not taken, and no more of it than
  there are taken names has to be searched. -/
theorem exists_not_mem_of_injective {α : Type} {f : Nat → α} (hf : Function.Injective f)
    (taken : List α) : ∃ n ≤ taken.length, f n ∉ taken := by
  by_contra! hall
  -- otherwise more candidates than there are taken names would be taken
  have hsub : (List.range (taken.length + 1)).map f ⊆ taken := by
    intro a ha
    obtain ⟨n, hn, rfl⟩ := List.mem_map.mp ha
    exact hall n (Nat.lt_succ_iff.mp (List.mem_range.mp hn))
  have hlen := (List.subperm_of_subset (List.nodup_range.map hf) hsub).length_le
  rw [List.length_map, List.length_range] at hlen
  omega

/-- A search that has something to find finds the first of it. -/
theorem exists_find?_range_map {α : Type} (p : α → Bool) (f : Nat → α) {size : Nat}
    (h : ∃ n < size, p (f n) = true) :
    ∃ n < size, ((List.range size).map f).find? p = some (f n) ∧ p (f n) = true
      ∧ ∀ k < n, p (f k) = false := by
  obtain ⟨i, hi, hpi⟩ := h
  rw [List.find?_map]
  cases hfind : (List.range size).find? (p ∘ f) with
  | none => exact absurd hpi (List.find?_eq_none.mp hfind i (List.mem_range.mpr hi))
  | some n =>
    obtain ⟨hpn, hn, hbefore⟩ := List.find?_range_eq_some.mp hfind
    exact ⟨n, List.mem_range.mp hn, rfl, hpn, fun k hk => by simpa using hbefore k hk⟩

theorem firstFree_of_not_mem {taken : List String} {base : String} (h : base ∉ taken) :
    firstFree taken base = base := if_neg h

/-- A name that is taken gets the smallest number that makes it free. -/
theorem firstFree_of_mem {taken : List String} {base : String} (h : base ∈ taken) :
    ∃ n ≤ taken.length, firstFree taken base = numbered base (n + 1)
      ∧ numbered base (n + 1) ∉ taken ∧ ∀ k < n, numbered base (k + 1) ∈ taken := by
  have hinj : Function.Injective fun n => numbered base (n + 1) :=
    fun m n heq => Nat.succ.inj (numbered_injective heq)
  obtain ⟨i, hi, hfree⟩ := exists_not_mem_of_injective hinj taken
  obtain ⟨n, hn, hfind, hnot, hbefore⟩ :=
    exists_find?_range_map (fun name => decide (name ∉ taken))
      (fun n => numbered base (n + 1)) ⟨i, Nat.lt_succ_of_le hi, decide_eq_true hfree⟩
  refine ⟨n, Nat.lt_succ_iff.mp hn, ?_, of_decide_eq_true hnot, fun k hk => ?_⟩
  · unfold firstFree
    rw [if_pos h, hfind, Option.getD_some]
  · simpa using hbefore k hk

/-- The name that is found is not taken. -/
theorem firstFree_not_mem (taken : List String) (base : String) :
    firstFree taken base ∉ taken := by
  by_cases hbase : base ∈ taken
  · obtain ⟨n, -, heq, hfree, -⟩ := firstFree_of_mem hbase
    rwa [heq]
  · rwa [firstFree_of_not_mem hbase]

/-- The name that is found is the given one or a numbered one. -/
theorem firstFree_cases (taken : List String) (base : String) :
    firstFree taken base = base ∨ ∃ n, firstFree taken base = numbered base n := by
  by_cases hbase : base ∈ taken
  · obtain ⟨n, -, heq, -⟩ := firstFree_of_mem hbase
    exact .inr ⟨n + 1, heq⟩
  · exact .inl (firstFree_of_not_mem hbase)

/-! ### Names of variables -/

theorem isVariableName_ofList {c : Char} {rest : List Char} (hc : isNameStart c = true)
    (hrest : ∀ d ∈ rest, isNamePart d = true) (hword : String.ofList (c :: rest) ∉ keywords) :
    isVariableName (String.ofList (c :: rest)) = true := by
  unfold isVariableName
  rw [String.toList_ofList]
  simp only [hc, hword, Bool.and_eq_true, List.all_eq_true, decide_eq_true_eq, true_and,
    not_false_eq_true, and_true]
  exact hrest

/-- A word that is no name of a variable becomes one. -/
theorem isVariableName_escaped {c : Char} (rest : List Char) (hc : isNameStart c = true)
    (hrest : ∀ d ∈ rest, isNamePart d = true) :
    isVariableName (if String.ofList (c :: rest) ∈ keywords then String.ofList (c :: rest) ++ "_df"
      else String.ofList (c :: rest)) = true := by
  split
  · next hword =>
    have hkeywords : ∀ k ∈ keywords, isVariableName (k ++ "_df") = true := by decide
    exact hkeywords _ hword
  · next hword => exact isVariableName_ofList hc hrest hword

/-- Every text is turned into the name of a variable. -/
theorem isVariableName_variableName (name : String) :
    isVariableName (variableName name) = true := by
  unfold variableName
  split
  · assumption
  · have hpart : ∀ d ∈ name.toList.map fun c => if c.isAlphanum then c else '_',
        isNamePart d = true := by
      intro d hd
      obtain ⟨c, -, rfl⟩ := List.mem_map.mp hd
      unfold isNamePart
      split
      · next hc => simp [hc]
      · decide
    generalize (name.toList.map fun c => if c.isAlphanum then c else '_') = cleaned at hpart
    cases cleaned with
    | nil =>
      -- of an empty name only the prefix is left
      have hrest : ['f', '_'].all isNamePart = true := by decide
      exact isVariableName_escaped _ (by decide) (List.all_eq_true.mp hrest)
    | cons c rest =>
      dsimp only
      split
      · next hc =>
        exact isVariableName_escaped rest hc fun d hd => hpart d (List.mem_cons_of_mem _ hd)
      · -- what cannot start a name comes behind the prefix
        refine isVariableName_escaped ('f' :: '_' :: c :: rest) (by decide) fun d hd => ?_
        simp only [List.mem_cons] at hd
        rcases hd with rfl | rfl | hd
        · decide
        · decide
        · exact hpart d (List.mem_cons.mpr hd)

/-- The name of a variable stays one when an underscore and more is put behind it. -/
theorem isVariableName_append {base suffix : String} (hbase : isVariableName base = true)
    (hsuffix : suffix.toList.all isNamePart = true) (hunderscore : '_' ∈ suffix.toList) :
    isVariableName (base ++ suffix) = true := by
  -- no keyword has an underscore
  have hword : base ++ suffix ∉ keywords := by
    have hnone : ∀ k ∈ keywords, '_' ∉ k.toList := by decide
    exact fun hmem => hnone _ hmem (by simp [hunderscore])
  unfold isVariableName at hbase ⊢
  rw [String.toList_append]
  split at hbase
  · cases hbase
  · next c rest hlist =>
    simp only [Bool.and_eq_true, List.all_eq_true] at hbase hsuffix
    obtain ⟨⟨hc, hrest⟩, -⟩ := hbase
    rw [hlist]
    simp only [List.cons_append, hc, hword, List.all_append, Bool.and_eq_true, List.all_eq_true,
      not_false_eq_true, decide_true, and_true, true_and]
    exact ⟨hrest, hsuffix⟩

/-- So it does when it is numbered. -/
theorem isVariableName_numbered {base : String} (hbase : isVariableName base = true) (n : Nat) :
    isVariableName (numbered base n) = true := by
  have hnumber : ("_" ++ Decimal.natText n).toList = '_' :: Nat.toDigits 10 n := by
    rw [String.toList_append, toList_natText]
    rfl
  unfold numbered
  rw [String.append_assoc]
  refine isVariableName_append hbase ?_ (hnumber ▸ List.mem_cons_self)
  rw [hnumber, List.all_eq_true, List.forall_mem_cons]
  refine ⟨by decide, fun d hd => ?_⟩
  have hdigit := Nat.isDigit_of_mem_toDigits (by decide) (by decide) hd
  simp [isNamePart, Char.isAlphanum, hdigit]

theorem isVariableName_firstFree {base : String} (hbase : isVariableName base = true)
    (taken : List String) : isVariableName (firstFree taken base) = true := by
  obtain hsame | ⟨n, hnumbered⟩ := firstFree_cases taken base
  · rwa [hsame]
  · rw [hnumbered]
    exact isVariableName_numbered hbase n

/-! ### Restricted headers -/

theorem legacyHeader_ofList {c : Char} {rest : List Char} (hc : c.isDigit = false)
    (hall : ∀ d ∈ c :: rest, isNamePart d = true) :
    legacyHeader (String.ofList (c :: rest)) = String.ofList (c :: rest) := by
  have hcleaned : (c :: rest).map (fun d => if isNamePart d then d else '_') = c :: rest :=
    (List.map_congr_left fun d hd => if_pos (hall d hd)).trans (List.map_id' _)
  unfold legacyHeader
  rw [String.toList_ofList, hcleaned]
  simp [hc]

/-- A restricted header has name characters only, and does not start with a digit. -/
theorem exists_legacyHeader (h : String) :
    ∃ c rest, legacyHeader h = String.ofList (c :: rest) ∧ c.isDigit = false
      ∧ ∀ d ∈ c :: rest, isNamePart d = true := by
  have hpart : ∀ d ∈ h.toList.map fun c => if isNamePart c then c else '_', isNamePart d = true := by
    intro d hd
    obtain ⟨c, -, rfl⟩ := List.mem_map.mp hd
    split
    · assumption
    · decide
  unfold legacyHeader
  generalize (h.toList.map fun c => if isNamePart c then c else '_') = cleaned at hpart
  have hc : ∀ d ∈ ['c', '_'], isNamePart d = true := by
    simp only [List.forall_mem_cons, List.not_mem_nil, false_imp_iff, implies_true, and_true]
    decide
  cases cleaned with
  | nil => exact ⟨'c', ['_'], rfl, by decide, hc⟩
  | cons c rest =>
    dsimp only
    cases hdigit : c.isDigit with
    | false => exact ⟨c, rest, by simp, hdigit, hpart⟩
    | true =>
      refine ⟨'c', '_' :: c :: rest, by simp, by decide, ?_⟩
      exact List.forall_mem_append.mpr ⟨hc, hpart⟩

/-- A restricted header is not restricted further. -/
theorem legacyHeader_legacyHeader (h : String) :
    legacyHeader (legacyHeader h) = legacyHeader h := by
  obtain ⟨c, rest, heq, hc, hall⟩ := exists_legacyHeader h
  rw [heq, legacyHeader_ofList hc hall]

/-- What is restricted gets an underscore. -/
theorem underscore_mem_legacyHeader {h : String} (hother : legacyHeader h ≠ h) :
    '_' ∈ (legacyHeader h).toList := by
  by_contra hnone
  apply hother
  unfold legacyHeader at hnone ⊢
  cases hcleaned : h.toList.map fun c => if isNamePart c then c else '_' with
  | nil =>
    rw [hcleaned] at hnone
    exact absurd (by decide) hnone
  | cons c rest =>
    rw [hcleaned] at hnone
    dsimp only at hnone ⊢
    rw [String.toList_ofList] at hnone
    split at hnone
    · exact absurd (by simp) hnone
    · next hdigit =>
      -- without an underscore no character was replaced
      have hsame : ∀ d ∈ h.toList, (if isNamePart d then d else '_') = d := by
        intro d hd
        split
        · rfl
        · next hpart =>
          refine absurd ?_ hnone
          rw [← hcleaned, List.mem_map]
          exact ⟨d, hd, if_neg hpart⟩
      rw [if_neg hdigit, ← hcleaned, List.map_congr_left hsame, List.map_id', String.ofList_toList]

/-- Nor is a numbered one. -/
theorem legacyHeader_numbered {base : String} (hbase : legacyHeader base = base) (n : Nat) :
    legacyHeader (numbered base n) = numbered base n := by
  obtain ⟨c, rest, heq, hc, hall⟩ := exists_legacyHeader base
  have htext : numbered base n = String.ofList (c :: (rest ++ '_' :: Nat.toDigits 10 n)) := by
    rw [hbase] at heq
    simp [heq, numbered, toList_natText, ← String.toList_inj]
  rw [htext]
  refine legacyHeader_ofList hc ?_
  rw [← List.cons_append, List.forall_mem_append, List.forall_mem_cons (l := Nat.toDigits 10 n)]
  refine ⟨hall, by decide, fun d hd => ?_⟩
  have hdigit := Nat.isDigit_of_mem_toDigits (by decide) (by decide) hd
  simp [isNamePart, Char.isAlphanum, hdigit]

theorem legacyHeader_firstFree (taken : List String) (h : String) :
    legacyHeader (firstFree taken (legacyHeader h)) = firstFree taken (legacyHeader h) := by
  obtain hsame | ⟨n, hnumbered⟩ := firstFree_cases taken (legacyHeader h)
  · rw [hsame, legacyHeader_legacyHeader]
  · rw [hnumbered, legacyHeader_numbered (legacyHeader_legacyHeader h)]

end Naming

end SheetScript
