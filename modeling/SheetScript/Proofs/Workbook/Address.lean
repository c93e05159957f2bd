import Mathlib
import SheetScript.Proofs.Naming
import SheetScript.Workbook.Address

/-! # Addresses in a workbook

  How columns are lettered and tabs are named.

  - `columnLetters_bijective`: words over the capitals and columns are paired off, in order.
  - `tabNames_wellNamed`: the names of tabs are allowed, and no two of them are alike.
-/

namespace SheetScript.Workbook

/-! ## Letters of columns

  The letters of a column are a numeral in base 26 without a zero: its digits are `A` for 1 up
  to `Z` for 26, and the first column is number 1.  Where the last digit would be a zero it is
  a `Z`, and what stands before it counts one less.  Without a zero there is nothing to put in
  front of a numeral that does not count, so every word is a numeral of its own, and a longer
  one is greater. -/

section Letters

/-- A capital from `A` to `Z`. -/
def IsCapital (c : Char) : Prop := 'A' ≤ c ∧ c ≤ 'Z'

/-- The digit that a capital stands for, from 1 to 26. -/
def digit (c : Char) : Nat := c.toNat - 'A'.toNat + 1

/-- The number that a word of capitals writes. -/
def numeral (word : List Char) : Nat := word.foldl (fun n c => 26 * n + digit c) 0

variable {c : Char} {word v w : List Char} {m n d : Nat}

/-! ### Digits -/

theorem isCapital_iff : IsCapital c ↔ 'A'.toNat ≤ c.toNat ∧ c.toNat ≤ 'Z'.toNat := by
  simp only [IsCapital, Char.le_def, UInt32.le_iff_toNat_le]
  rfl

instance : DecidablePred IsCapital := fun _ => decidable_of_iff' _ isCapital_iff

theorem toNat_letter (hd : d < 26) : (letter d).toNat = 'A'.toNat + d := by
  have hall : ∀ d < 26, (letter d).toNat = 'A'.toNat + d := by decide
  exact hall d hd

theorem isCapital_letter (hd : d < 26) : IsCapital (letter d) := by
  rw [isCapital_iff, toNat_letter hd]
  exact ⟨Nat.le_add_right .., Nat.add_le_add_left (Nat.le_of_lt_succ hd) _⟩

theorem digit_letter (hd : d < 26) : digit (letter d) = d + 1 := by
  rw [digit, toNat_letter hd, Nat.add_sub_cancel_left]

/-- A capital is the letter of its digit. -/
theorem exists_letter (hc : IsCapital c) : ∃ d < 26, c = letter d := by
  obtain ⟨hleast, hgreatest⟩ := isCapital_iff.mp hc
  refine ⟨c.toNat - 'A'.toNat, ?_, ?_⟩
  · have hbound : 'Z'.toNat = 'A'.toNat + 25 := rfl
    omega
  · rw [letter, Nat.add_sub_cancel' hleast, Char.ofNat_toNat]

theorem letter_lt (hmn : m < n) (hn : n < 26) : letter m < letter n := by
  rw [Char.lt_def, UInt32.lt_iff_toNat_lt]
  have hm := toNat_letter (hmn.trans hn)
  have hn := toNat_letter hn
  unfold Char.toNat at hm hn
  omega

/-! ### Reading and writing -/

theorem letters_zero : letters 0 = [] := by
  rw [letters]

theorem letters_succ (n : Nat) : letters (n + 1) = letters (n / 26) ++ [letter (n % 26)] := by
  rw [letters]

theorem numeral_concat (word : List Char) (c : Char) :
    numeral (word ++ [c]) = 26 * numeral word + digit c := by
  rw [numeral, List.foldl_concat]
  rfl

theorem numeral_letters (n : Nat) : numeral (letters n) = n := by
  induction n using letters.induct with
  | case1 =>
    rw [letters_zero]
    rfl
  | case2 n ih =>
    rw [letters_succ, numeral_concat, ih, digit_letter (Nat.mod_lt n (by decide))]
    omega

theorem isCapital_of_mem_letters (hc : c ∈ letters n) : IsCapital c := by
  induction n using letters.induct with
  | case1 =>
    rw [letters_zero] at hc
    cases hc
  | case2 n ih =>
    rw [letters_succ, List.mem_append, List.mem_singleton] at hc
    rcases hc with hc | rfl
    · exact ih hc
    · exact isCapital_letter (Nat.mod_lt n (by decide))

theorem letters_numeral (hword : ∀ c ∈ word, IsCapital c) : letters (numeral word) = word := by
  induction word using List.reverseRecOn with
  | nil => exact letters_zero
  | append_singleton word c ih =>
    obtain ⟨hfront, hlast⟩ := List.forall_mem_append.mp hword
    obtain ⟨d, hd, rfl⟩ := exists_letter (hlast c (List.mem_singleton_self c))
    have hdiv : (26 * numeral word + d) / 26 = numeral word := by omega
    have hmod : (26 * numeral word + d) % 26 = d := by omega
    rw [numeral_concat, digit_letter hd, ← Nat.add_assoc, letters_succ, hdiv, hmod, ih hfront]

/-! ### Order -/

/-- A word comes before another one if it is shorter, or as long and alphabetically earlier. -/
def Precedes (v w : List Char) : Prop := v.length < w.length ∨ v.length = w.length ∧ v < w

/-- Of two words of one length the earlier one stays so, whatever is put behind them. -/
theorem append_lt_append (hlength : v.length = w.length) (h : v < w) (s t : List Char) :
    v ++ s < w ++ t := by
  induction h with
  | nil => cases hlength
  | rel hlt => exact .rel hlt
  | cons _ ih => exact .cons (ih (Nat.succ.inj hlength))

theorem letters_precedes (hmn : m < n) : Precedes (letters m) (letters n) := by
  induction n using letters.induct generalizing m with
  | case1 => exact absurd hmn (Nat.not_lt_zero m)
  | case2 n ih =>
    cases m with
    | zero =>
      rw [letters_zero, letters_succ]
      exact .inl (by simp)
    | succ m =>
      rw [letters_succ, letters_succ]
      have hle : m / 26 ≤ n / 26 := Nat.div_le_div_right (by omega)
      rcases Nat.lt_or_eq_of_le hle with hlt | heq
      · -- the digits in front decide
        rcases ih hlt with hshort | ⟨hlength, hbefore⟩
        · exact .inl (by simpa using hshort)
        · exact .inr ⟨by simpa using hlength, append_lt_append hlength hbefore _ _⟩
      · -- the last digit decides
        have hdigit : m % 26 < n % 26 := by omega
        rw [heq]
        refine .inr ⟨by simp, List.Lex.append_left _ (.rel ?_) _⟩
        exact letter_lt hdigit (Nat.mod_lt n (by decide))

/-! ### Columns -/

/-- A word over the capitals. -/
def IsWord (word : String) : Prop := word ≠ "" ∧ ∀ c ∈ word.toList, IsCapital c

/-- Only the characters of the word are looked at. -/
instance : DecidablePred IsWord := fun word =>
  have : Decidable (∀ c ∈ word.toList, IsCapital c) := List.decidableBAll IsCapital word.toList
  inferInstanceAs (Decidable (word ≠ "" ∧ ∀ c ∈ word.toList, IsCapital c))

/-- The letters of every column are a word that writes the number of the column, which is one more
  than its index; every word is the letters of exactly one column; and of two columns the later
  one has the longer letters, or letters of the same length that are alphabetically later. -/
theorem columnLetters_bijective :
    (∀ index, IsWord (columnLetters index)
        ∧ numeral (columnLetters index).toList = index + 1)
      ∧ (∀ word, IsWord word → ∃! index, columnLetters index = word)
      ∧ ∀ i j, i < j → (columnLetters i).length < (columnLetters j).length
          ∨ (columnLetters i).length = (columnLetters j).length
            ∧ columnLetters i < columnLetters j := by
  have htoList (index : Nat) : (columnLetters index).toList = letters (index + 1) :=
    String.toList_ofList
  refine ⟨fun index => ⟨⟨?_, ?_⟩, ?_⟩, fun word hword => ?_, fun i j hij => ?_⟩
  · intro hempty
    have hnone := htoList index
    rw [hempty, letters_succ] at hnone
    simp at hnone
  · intro c hc
    rw [htoList] at hc
    exact isCapital_of_mem_letters hc
  · rw [htoList, numeral_letters]
  · obtain ⟨hne, hcapitals⟩ := hword
    have hletters := letters_numeral hcapitals
    cases hnumber : numeral word.toList with
    | zero =>
      rw [hnumber, letters_zero] at hletters
      exact absurd (String.toList_eq_nil_iff.mp hletters.symm) hne
    | succ index =>
      refine ⟨index, ?_, fun other hother => ?_⟩
      · show String.ofList (letters (index + 1)) = word
        rw [← hnumber, hletters, String.ofList_toList]
      · have hsame := numeral_letters (other + 1)
        rw [← htoList, hother, hnumber] at hsame
        exact (Nat.succ.inj hsame).symm
  · rw [← String.length_toList, ← String.length_toList, String.lt_iff, htoList, htoList]
    exact letters_precedes (Nat.succ_lt_succ hij)

/-- Behind the last word of two letters comes the first of three. -/
theorem columnLetters_bijective_carry :
    IsWord "AAA" ∧ 701 < 702 ∧ columnLetters 702 = "AAA"
      ∧ (∀ index, columnLetters index = "AAA" → index = 702)
      ∧ ((columnLetters 701).length < "AAA".length
        ∨ (columnLetters 701).length = "AAA".length ∧ columnLetters 701 < "AAA") := by
  obtain ⟨hnumbers, hwords, horder⟩ := columnLetters_bijective
  have hword : IsWord "AAA" := by decide
  have honly : ∀ index, columnLetters index = "AAA" → index = 702 := by
    intro index hindex
    obtain ⟨-, hnumber⟩ := hnumbers index
    have hvalue : numeral "AAA".toList = 703 := by decide
    rw [hindex, hvalue] at hnumber
    omega
  obtain ⟨index, hindex, -⟩ := hwords "AAA" hword
  obtain rfl := honly index hindex
  have hlast := horder 701 702 (by decide)
  rw [hindex] at hlast
  exact ⟨hword, by decide, hindex, honly, hlast⟩

end Letters

/-! ## Names of tabs

  A workbook gives each sheet a tab, in order.  A tab is named after its sheet: signs that
  no tab may have become underscores, and what is too long is cut.  A tab whose name is
  taken, up to the case of letters, gets the smallest number that makes it free.  Numbers
  stand behind an underscore and are read back from the end, however much of the name had to
  give way to them; so the search for a number ends. -/

/-- A tab may have the character in its name. -/
def AllowedChar (c : Char) : Prop :=
  Text.isBlank c = false ∧ c ∉ ['[', ']', ':', '*', '?', '/', '\\']

/-- A text that a tab may have as its name. -/
structure Fits (tab : String) : Prop where
  nonempty : 1 ≤ tab.length
  short : tab.length ≤ tabLength
  allowed : ∀ c ∈ tab.toList, AllowedChar c

/-- One of the tabs is named like this, up to the case of letters. -/
def Taken (tabs : List String) (tab : String) : Prop := foldCase tab ∈ tabs.map foldCase

/-- The name of a tab that stands alone. -/
def plainTab (name : String) : String :=
  let cleaned := name.toList.map tabChar
  if cleaned.isEmpty then "Sheet" else String.ofList (cleaned.take tabLength)

/-- The number behind a name, with its underscore, has room in the name of a tab. -/
def HasRoom (n : Nat) : Prop := ("_" ++ Decimal.natText n).length ≤ tabLength

/-- `tab` is the plain tab of the name, or has the smallest number that makes it free; all
  numbers that are tried have room. -/
inductive NamedAfter (tabs : List String) (name tab : String) : Prop where
  | plain (hfree : ¬Taken tabs (plainTab name)) (htab : tab = plainTab name)
  | counted (n : Nat) (htaken : Taken tabs (plainTab name)) (hn : n ≤ tabs.length)
      (htab : tab = numberedTab (plainTab name) (n + 1)) (hfree : ¬Taken tabs tab)
      (hbefore : ∀ k < n, Taken tabs (numberedTab (plainTab name) (k + 1)))
      (hroom : ∀ k ≤ n, HasRoom (k + 1))

/-! ### Characters -/

theorem allowedChar_tabChar (c : Char) : AllowedChar (tabChar c) := by
  unfold tabChar
  split
  · exact ⟨rfl, by decide⟩
  · next hc => simpa [AllowedChar, and_comm] using hc

theorem tabChar_of_allowed {c : Char} (h : AllowedChar c) : tabChar c = c := by
  refine if_neg ?_
  rw [Bool.or_eq_true, decide_eq_true_eq]
  exact not_or.mpr ⟨h.2, Bool.eq_false_iff.mp h.1⟩

theorem toNat_of_isDigit {c : Char} (h : c.isDigit = true) : 48 ≤ c.toNat ∧ c.toNat ≤ 57 := by
  simpa [Char.isDigit, UInt32.le_iff_toNat_le] using h

theorem allowedChar_of_isDigit {c : Char} (h : c.isDigit = true) : AllowedChar c := by
  have hrange := toNat_of_isDigit h
  constructor
  · simp only [Text.isBlank, Bool.or_eq_false_iff, Bool.and_eq_false_iff,
      decide_eq_false_iff_not, beq_eq_false_iff_ne]
    omega
  · intro hmem
    have hnone : ['[', ']', ':', '*', '?', '/', '\\'].all (!·.isDigit) = true := by decide
    have hother := List.all_eq_true.mp hnone c hmem
    rw [h] at hother
    cases hother

theorem toLower_of_isDigit {c : Char} (h : c.isDigit = true) : c.toLower = c := by
  refine Char.toLower_eq_of_not_isUpper fun hcapital => ?_
  have hleast : 65 ≤ c.toNat ∧ c.toNat ≤ 90 := by
    simpa [Char.isUpper, UInt32.le_iff_toNat_le] using hcapital
  have hrange := toNat_of_isDigit h
  omega

theorem isDigit_of_mem_toDigits {n : Nat} {c : Char} (hc : c ∈ Nat.toDigits 10 n) :
    c.isDigit = true := Nat.isDigit_of_mem_toDigits (by decide) (by decide) hc

/-! ### Plain tabs -/

theorem ne_empty_of_fits {name : String} (h : Fits name) : name.toList ≠ [] := by
  intro hempty
  have hlength := h.nonempty
  rw [← String.length_toList, hempty] at hlength
  cases hlength

theorem plainTab_of_fits {name : String} (h : Fits name) : plainTab name = name := by
  have hsame : name.toList.map tabChar = name.toList := by
    rw [List.map_congr_left fun c hc => tabChar_of_allowed (h.allowed c hc), List.map_id']
  have hshort : name.toList.length ≤ tabLength := by
    rw [String.length_toList]
    exact h.short
  unfold plainTab
  simp [hsame, ne_empty_of_fits h, List.take_of_length_le hshort]

theorem fits_plainTab (name : String) : Fits (plainTab name) := by
  unfold plainTab
  cases hcleaned : name.toList.map tabChar with
  | nil =>
    show Fits "Sheet"
    refine ⟨by decide, by decide, ?_⟩
    have hsheet : "Sheet".toList = "Sheet".toList.map tabChar := by decide
    intro c hc
    rw [hsheet] at hc
    obtain ⟨d, _, rfl⟩ := List.mem_map.mp hc
    exact allowedChar_tabChar d
  | cons c rest =>
    show Fits (String.ofList ((c :: rest).take tabLength))
    refine ⟨?_, ?_, ?_⟩
    · simp [tabLength]
    · rw [String.length_ofList, List.length_take]
      exact Nat.min_le_left _ _
    · intro d hd
      rw [String.toList_ofList] at hd
      obtain ⟨d, -, rfl⟩ := List.mem_map.mp (hcleaned ▸ List.mem_of_mem_take hd)
      exact allowedChar_tabChar d

/-! ### Numbered tabs -/

theorem toList_numberedTab (base : String) (n : Nat) :
    (numberedTab base n).toList
      = base.toList.take (tabLength - ("_" ++ Decimal.natText n).length)
        ++ '_' :: Nat.toDigits 10 n := by
  simp [numberedTab, Naming.toList_natText]

/-- The number is read back from the end, whatever the case of letters. -/
theorem foldCase_numberedTab_injective (base : String) :
    Function.Injective fun n => foldCase (numberedTab base n) := by
  -- digits have no case, and the last underscore is the one before them
  have htext : ∀ n, ∃ front : List Char,
      (foldCase (numberedTab base n)).toList = front ++ '_' :: Nat.toDigits 10 n := by
    intro n
    refine ⟨(base.toList.take (tabLength - ("_" ++ Decimal.natText n).length)).map Char.toLower, ?_⟩
    rw [foldCase, String.toList_map, toList_numberedTab, List.map_append, List.map_cons,
      List.map_congr_left fun c hc => toLower_of_isDigit (isDigit_of_mem_toDigits hc), List.map_id']
    rfl
  intro m n heq
  obtain ⟨front, hm⟩ := htext m
  obtain ⟨front', hn⟩ := htext n
  have hlists := hm.symm.trans ((congrArg String.toList heq).trans hn)
  have hdigits := (Naming.cut_last Nat.underscore_not_in_toDigits Nat.underscore_not_in_toDigits
    hlists).2
  apply Naming.natText_injective
  rw [← String.toList_inj, Naming.toList_natText, Naming.toList_natText, hdigits]

/-- Numbers of a word of 32 bits with a sign have room. -/
theorem hasRoom_of_lt {n : Nat} (h : n < 2 ^ 31) : HasRoom n := by
  have hdigits : (Nat.toDigits 10 n).length ≤ 10 :=
    (Nat.length_toDigits_le_iff (by decide) (by decide)).mpr (h.trans (by decide))
  have hlength : ("_" ++ Decimal.natText n).length = 1 + (Nat.toDigits 10 n).length := by
    rw [String.length_append, ← String.length_toList (s := Decimal.natText n),
      Naming.toList_natText]
    rfl
  rw [HasRoom, hlength, tabLength]
  omega

theorem fits_numberedTab {base : String} {n : Nat} (hbase : Fits base) (hn : HasRoom n) :
    Fits (numberedTab base n) := by
  have hlength : (numberedTab base n).length
      = min (tabLength - ("_" ++ Decimal.natText n).length) base.length
        + ("_" ++ Decimal.natText n).length := by
    simp [numberedTab, String.length_toList]
  refine ⟨?_, ?_, ?_⟩
  · have hunderscore : 1 ≤ ("_" ++ Decimal.natText n).length := by
      rw [String.length_append]
      exact Nat.le_add_right _ _
    omega
  · rw [HasRoom] at hn
    omega
  · rw [toList_numberedTab, List.forall_mem_append, List.forall_mem_cons (l := Nat.toDigits 10 n)]
    refine ⟨fun c hc => hbase.allowed c (List.mem_of_mem_take hc), ⟨rfl, by decide⟩, ?_⟩
    exact fun c hc => allowedChar_of_isDigit (isDigit_of_mem_toDigits hc)

/-! ### One tab -/

/-- The search for the tab of a name ends. -/
theorem namedAfter_tabName {tabs : List String} (hfew : tabs.length + 1 < 2 ^ 31) (name : String) :
    NamedAfter tabs name (tabName tabs name) := by
  have htaken : ∀ tab, (tabs.any fun t => foldCase t == foldCase tab) = true ↔ Taken tabs tab := by
    intro tab
    simp [Taken]
  by_cases hplain : Taken tabs (plainTab name)
  · have hinj : Function.Injective fun n => foldCase (numberedTab (plainTab name) (n + 1)) :=
      fun m n heq => Nat.succ.inj (foldCase_numberedTab_injective (plainTab name) heq)
    -- one number more is tried than there are tabs
    obtain ⟨i, hi, hfree⟩ := Naming.exists_not_mem_of_injective hinj (tabs.map foldCase)
    rw [List.length_map] at hi
    obtain ⟨n, hn, hfind, hnot, hbefore⟩ := Naming.exists_find?_range_map
      (fun tab => !tabs.any fun t => foldCase t == foldCase tab)
      (fun n => numberedTab (plainTab name) (n + 1))
      ⟨i, Nat.lt_succ_of_le hi, by rwa [Bool.not_eq_true', ← Bool.not_eq_true, htaken]⟩
    have hnumber := congrArg (Option.getD · (plainTab name)) hfind
    have htab : tabName tabs name = numberedTab (plainTab name) (n + 1) :=
      (if_pos ((htaken _).mpr hplain)).trans hnumber
    refine .counted n hplain (Nat.lt_succ_iff.mp hn) htab ?_ ?_ ?_
    · rwa [htab, ← htaken, Bool.not_eq_true, ← Bool.not_eq_true']
    · intro k hk
      rw [← htaken]
      simpa using hbefore k hk
    · intro k hk
      apply hasRoom_of_lt
      omega
  · refine .plain hplain (if_neg ?_)
    rwa [htaken]

theorem NamedAfter.fits {tabs : List String} {name tab : String} (h : NamedAfter tabs name tab) :
    Fits tab := by
  cases h with
  | plain hfree htab => exact htab ▸ fits_plainTab name
  | counted n htaken hn htab hfree hbefore hroom =>
    exact htab ▸ fits_numberedTab (fits_plainTab name) (hroom n (Nat.le_refl n))

theorem NamedAfter.not_taken {tabs : List String} {name tab : String}
    (h : NamedAfter tabs name tab) : ¬Taken tabs tab := by
  cases h with
  | plain hfree htab => rwa [htab]
  | counted n htaken hn htab hfree hbefore hroom => exact hfree

/-- A name that a free tab may have is kept. -/
theorem NamedAfter.eq_of_fits {tabs : List String} {name tab : String}
    (h : NamedAfter tabs name tab) (hname : Fits name) (hfree : ¬Taken tabs name) : tab = name := by
  have hplain := plainTab_of_fits hname
  cases h with
  | plain _ htab => rw [htab, hplain]
  | counted n htaken => exact absurd (hplain ▸ htaken) hfree

/-! ### All tabs -/

theorem tabNames_concat (names : List String) (name : String) :
    tabNames (names ++ [name]) = tabNames names ++ [tabName (tabNames names) name] := by
  simp [tabNames]

theorem length_tabNames (names : List String) : (tabNames names).length = names.length := by
  induction names using List.reverseRecOn with
  | nil => rfl
  | append_singleton names name ih => simp [tabNames_concat, ih]

/-- Later names do not change the tabs of earlier ones. -/
theorem exists_tabNames_append (names more : List String) :
    ∃ later, tabNames (names ++ more) = tabNames names ++ later := by
  induction more using List.reverseRecOn with
  | nil => exact ⟨[], by simp⟩
  | append_singleton more name ih =>
    obtain ⟨later, hlater⟩ := ih
    exact ⟨later ++ [_], by rw [← List.append_assoc, tabNames_concat, hlater, List.append_assoc]⟩

theorem fits_of_mem_tabNames {names : List String} (hfew : names.length < 2 ^ 31) :
    ∀ tab ∈ tabNames names, Fits tab := by
  induction names using List.reverseRecOn with
  | nil => simp [tabNames]
  | append_singleton names name ih =>
    rw [List.length_append, List.length_singleton] at hfew
    rw [tabNames_concat, List.forall_mem_append, List.forall_mem_singleton]
    refine ⟨ih (by omega), (namedAfter_tabName ?_ name).fits⟩
    rwa [length_tabNames]

/-- No two tabs are named alike, up to the case of letters. -/
theorem nodup_tabNames {names : List String} (hfew : names.length < 2 ^ 31) :
    ((tabNames names).map foldCase).Nodup := by
  induction names using List.reverseRecOn with
  | nil => exact List.nodup_nil
  | append_singleton names name ih =>
    rw [List.length_append, List.length_singleton] at hfew
    have hroom : (tabNames names).length + 1 < 2 ^ 31 := by rwa [length_tabNames]
    have hnamed := namedAfter_tabName hroom name
    rw [tabNames_concat, List.map_append, List.map_singleton, ← List.concat_eq_append]
    exact (ih (by omega)).concat hnamed.not_taken

/-- The tabs of a workbook: one for each name in order, each with a name that a tab may have,
  and no two alike up to the case of letters.  Each is named after its sheet beside the tabs
  before it; a name that a free tab may have is kept.  The numbers that are tried count in words
  of 32 bits with a sign, so there are fewer names than those have numbers. -/
theorem tabNames_wellNamed (names : List String) (hfew : names.length < 2 ^ 31) :
    (tabNames names).length = names.length
      ∧ (∀ tab ∈ tabNames names, Fits tab)
      ∧ ((tabNames names).map foldCase).Nodup
      ∧ ∀ before name after, names = before ++ name :: after → ∃ tab later,
          tabNames names = tabNames before ++ tab :: later
            ∧ (tabNames before).length = before.length
            ∧ (Fits name → ¬Taken (tabNames before) name → tab = name)
            ∧ NamedAfter (tabNames before) name tab := by
  refine ⟨length_tabNames names, fits_of_mem_tabNames hfew, nodup_tabNames hfew, ?_⟩
  rintro before name after rfl
  have hroom : (tabNames before).length + 1 < 2 ^ 31 := by
    rw [length_tabNames]
    rw [List.length_append, List.length_cons] at hfew
    omega
  have hnamed := namedAfter_tabName hroom name
  obtain ⟨later, hlater⟩ := exists_tabNames_append (before ++ [name]) after
  rw [tabNames_concat, List.append_assoc, List.append_assoc] at hlater
  exact ⟨_, later, hlater, length_tabNames before, hnamed.eq_of_fits, hnamed⟩

/-- A name that looks numbered meets the tab that got this number before it. -/
theorem tabNames_alike :
    tabNames ["a/b", "A_B", "", "a_b_1"] = ["a_b", "A_B_1", "Sheet", "a_b_1_1"]
      ∧ NamedAfter ["a_b", "A_B_1", "Sheet"] "a_b_1" "a_b_1_1" := by
  have htabs : tabNames ["a/b", "A_B", "", "a_b_1"] = ["a_b", "A_B_1", "Sheet", "a_b_1_1"] := by
    cbv
  have hbefore : tabNames ["a/b", "A_B", ""] = ["a_b", "A_B_1", "Sheet"] := by cbv
  have hfew : ["a/b", "A_B", "", "a_b_1"].length < 2 ^ 31 := by simp
  obtain ⟨tab, later, hsplit, -, -, htab⟩ :=
    (tabNames_wellNamed _ hfew).2.2.2 ["a/b", "A_B", ""] "a_b_1" [] rfl
  rw [hbefore] at hsplit htab
  obtain ⟨rfl, -⟩ : "a_b_1_1" = tab ∧ [] = later := by simpa [htabs] using hsplit
  exact ⟨htabs, htab⟩

end SheetScript.Workbook
