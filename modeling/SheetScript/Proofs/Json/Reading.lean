import SheetScript.Json.Printer
import SheetScript.Json.Reader
import SheetScript.Proofs.Decimal

/-! # JSON texts that are read back

  The reader gives back the value whose pretty form it reads, if no number in it is a
  floating-point one, whole numbers have 64 bits, and it is not nested too deep.

  What is read off the head of a text does not depend on the rest, except that nothing may go
  on with a number.  So every lemma has any rest behind the text of a token, and the theorems
  about values, items and fields are one induction on the value, with fuel for twice the
  length of its text.

  Main statement: `Json.ofText?_pretty`.
-/

namespace SheetScript.Json

/-! ### Blanks -/

theorem toList_newLine (n : Nat) : (newLine n).toList = '\n' :: List.replicate (2 * n) ' ' := by
  simp [newLine, String.toList_append]

theorem skipSpace_newLine (n : Nat) (cs : List Char) :
    skipSpace ((newLine n).toList ++ cs) = skipSpace cs := by
  have hreplicate : ∀ k, (List.replicate k ' ' ++ cs).dropWhile isSpace = cs.dropWhile isSpace := by
    intro k
    induction k with
    | zero => rfl
    | succ k ih =>
      rw [List.replicate_succ, List.cons_append, List.dropWhile_cons_of_pos (by decide), ih]
  rw [toList_newLine, skipSpace, List.cons_append, List.dropWhile_cons_of_pos (by decide),
    hreplicate]
  rfl

theorem skipSpace_cons {c : Char} (h : isSpace c = false) (cs : List Char) :
    skipSpace (c :: cs) = c :: cs :=
  List.dropWhile_cons_of_neg (by simp [h])

theorem valueAt?_congr {cs cs' : List Char} (h : skipSpace cs = skipSpace cs') (fuel depth : Nat) :
    valueAt? fuel depth cs = valueAt? fuel depth cs' := by
  cases fuel with
  | zero => simp [valueAt?]
  | succ fuel => rw [valueAt?, valueAt?, h]

/-! ### Strings -/

theorem hexValue?_hexDigit {n : Nat} (h : n < 16) : hexValue? (hexDigit n) = some n := by
  revert h n
  decide

/-- A control character is written by its number. -/
theorem unicodeEscape?_control {c : Char} (h : c.toNat < 32) (rest : List Char) :
    unicodeEscape? ('0' :: '0' :: hexDigit (c.toNat / 16) :: hexDigit (c.toNat % 16) :: rest)
      = some (c, rest) := by
  have hzero : hexValue? '0' = some 0 := rfl
  have hhex : hex4? ('0' :: '0' :: hexDigit (c.toNat / 16) :: hexDigit (c.toNat % 16) :: rest)
      = some (c.toNat, rest) := by
    simp only [hex4?, hzero, hexValue?_hexDigit (show c.toNat / 16 < 16 by omega),
      hexValue?_hexDigit (show c.toNat % 16 < 16 by omega), Option.bind_eq_bind, Option.bind_some]
    exact congrArg (fun n => some (n, rest)) (by omega)
  have hhigh : ¬ (0xD800 ≤ c.toNat) := by omega
  have hlow : ¬ (0xDC00 ≤ c.toNat) := by omega
  simp [unicodeEscape?, hhex, hhigh, hlow]

/-- A character is read back from how it is escaped. -/
theorem stringBody_escapeChar (fuel : Nat) (acc : List Char) (c : Char) (rest : List Char) :
    stringBody (fuel + 1) acc (escapeChar c ++ rest) = stringBody fuel (c :: acc) rest := by
  unfold escapeChar
  split
  case h_8 hquote hslash _ _ _ _ _ =>
    -- without an escape of its own, a character is written by its number or as it is
    split
    · next hcontrol =>
      simp [stringBody, unicodeEscape?_control hcontrol]
    · next hcontrol =>
      have hplain : c ≠ '\\' := hslash
      rw [List.singleton_append, stringBody]
      · simp [hplain, hcontrol]
      all_goals simp_all
  all_goals simp [stringBody, simpleEscape?]

theorem stringBody_quoted (cs : List Char) (fuel : Nat) (acc rest : List Char)
    (h : cs.length < fuel) :
    stringBody fuel acc (cs.flatMap escapeChar ++ '"' :: rest)
      = some (acc.reverse ++ cs, rest) := by
  induction cs generalizing fuel acc with
  | nil =>
    obtain ⟨fuel, rfl⟩ : ∃ n, fuel = n + 1 := ⟨fuel - 1, by omega⟩
    simp [stringBody]
  | cons c cs ih =>
    obtain ⟨fuel, rfl⟩ : ∃ n, fuel = n + 1 := ⟨fuel - 1, by omega⟩
    rw [List.flatMap_cons, List.append_assoc, stringBody_escapeChar, ih]
    · simp
    · simpa using h

theorem toList_quoted (s : String) :
    (quoted s).toList = '"' :: (s.toList.flatMap escapeChar ++ ['"']) := by
  simp [quoted]

/-- A string is read back behind its opening quote. -/
theorem stringAt?_quoted (s : String) (rest : List Char) :
    stringAt? (s.toList.flatMap escapeChar ++ '"' :: rest) = some (s, rest) := by
  -- escaping makes no text shorter, so the length of what is read is fuel enough
  have hlength : ∀ cs : List Char, cs.length ≤ (cs.flatMap escapeChar).length := by
    intro cs
    induction cs with
    | nil => exact Nat.le_refl _
    | cons c cs ih =>
      have hc : 1 ≤ (escapeChar c).length := by
        unfold escapeChar
        split
        case h_8 => split <;> simp
        all_goals simp
      rw [List.flatMap_cons, List.length_append, List.length_cons]
      omega
  have hfuel := hlength s.toList
  rw [stringAt?, stringBody_quoted]
  · simp
  · rw [List.length_append]
    omega

/-! ### Whole numbers -/

/-- Nothing that would go on a number. -/
def Ends (rest : List Char) : Prop :=
  ∀ c ∈ rest.head?, Decimal.isDigit c = false ∧ c ≠ '.' ∧ c ≠ 'e' ∧ c ≠ 'E'

theorem extend_eq {ds : List Char} {s taken : Nat}
    (h : ds.foldl (fun n c => 10 * n + Decimal.digitValue c) s ≤ significandLimit) :
    extend s taken ds
      = (ds.foldl (fun n c => 10 * n + Decimal.digitValue c) s, taken + ds.length, 0) := by
  induction ds generalizing s taken with
  | nil => rfl
  | cons c ds ih =>
    -- what is read so far is never more than the whole number
    have hgrows : ∀ (ds : List Char) (s : Nat),
        s ≤ ds.foldl (fun n c => 10 * n + Decimal.digitValue c) s := by
      intro ds
      induction ds with
      | nil => exact fun s => Nat.le_refl s
      | cons c ds ih =>
        intro s
        exact Nat.le_trans (by omega) (ih (10 * s + Decimal.digitValue c))
    rw [List.foldl_cons] at h ⊢
    rw [extend, if_neg (Nat.not_lt.mpr (Nat.le_trans (hgrows ds _) h)), ih h, List.length_cons]
    simp [Nat.add_assoc, Nat.add_comm 1]

theorem Ends.exponentPart? {rest : List Char} (h : Ends rest) :
    exponentPart? rest = some (none, rest) := by
  cases rest with
  | nil => rfl
  | cons c rest =>
    obtain ⟨-, -, hsmall, hlarge⟩ := h c rfl
    simp [Json.exponentPart?, hsmall, hlarge]

/-- The digits of a number are taken off a text in which nothing goes on with it. -/
theorem Ends.digits {rest : List Char} (h : Ends rest) (n : Nat) :
    (Decimal.digitsOf n ++ rest).takeWhile Decimal.isDigit = Decimal.digitsOf n
      ∧ (Decimal.digitsOf n ++ rest).dropWhile Decimal.isDigit = rest :=
  Decimal.span_append (Decimal.all_digitsOf n) fun c hc => (h c hc).1

/-- Digits of a number are acceptable: there are some, and no zero leads others. -/
theorem digits_acceptable (n : Nat) : ((Decimal.digitsOf n).isEmpty
    || ((Decimal.digitsOf n).head? == some '0' && 1 < (Decimal.digitsOf n).length)) = false := by
  have hne : Decimal.digitsOf n ≠ [] := Nat.toDigits_ne_nil
  by_cases hn : n = 0
  · subst hn
    rfl
  · simp [hne, Decimal.head_digitsOf n hn]

theorem extend_digits {n : Nat} (h : n ≤ significandLimit) :
    extend 0 0 (Decimal.digitsOf n) = (n, 0 + (Decimal.digitsOf n).length, 0) := by
  have hvalue : (Decimal.digitsOf n).foldl (fun n c => 10 * n + Decimal.digitValue c) 0 = n :=
    Decimal.natOfDigits_digitsOf n
  rw [extend_eq (by rwa [hvalue]), hvalue]

theorem number?_natural {n : Nat} {rest : List Char} (h : n ≤ significandLimit)
    (hends : Ends rest) : number? (Decimal.digitsOf n ++ rest) = some (.int n, rest) := by
  obtain ⟨htake, hdrop⟩ := hends.digits n
  rw [number?]
  · dsimp only
    rw [htake, hdrop, digits_acceptable, extend_digits h]
    cases rest with
    | nil => rfl
    | cons c rest =>
      have hpoint : c ≠ '.' := (hends c rfl).2.1
      simp [hpoint, extend, hends.exponentPart?]
  · intro after hminus
    -- a minus is no digit
    obtain ⟨c, ds, hds, hdigit⟩ := Decimal.exists_digitsOf n
    rw [hds, List.cons_append] at hminus
    rw [(List.cons.inj hminus).1] at hdigit
    cases hdigit

theorem number?_negative {n : Nat} {rest : List Char} (h : n + 1 ≤ 0x8000000000000000)
    (hends : Ends rest) :
    number? ('-' :: (Decimal.digitsOf (n + 1) ++ rest)) = some (.int (.negSucc n), rest) := by
  obtain ⟨htake, hdrop⟩ := hends.digits (n + 1)
  have hlimit : n + 1 ≤ significandLimit := Nat.le_trans h (by decide)
  rw [number?]
  dsimp only
  rw [htake, hdrop, digits_acceptable, extend_digits hlimit]
  cases rest with
  | nil => simp [extend, Json.exponentPart?, h, Int.negSucc_eq]
  | cons c rest =>
    have hpoint : c ≠ '.' := (hends c rfl).2.1
    simp [hpoint, extend, hends.exponentPart?, h, Int.negSucc_eq]

/-- A whole number of 64 bits is read back, and its first character starts nothing else. -/
theorem number?_intText {n : Int} {rest : List Char} (hleast : leastInt ≤ n)
    (hgreatest : n ≤ greatestInt) (hends : Ends rest) :
    number? ((Decimal.intText n).toList ++ rest) = some (.int n, rest) := by
  cases n with
  | ofNat n =>
    have htext : (Decimal.intText (.ofNat n)).toList = Decimal.digitsOf n := String.toList_ofList
    have hlimit : n ≤ significandLimit := Int.ofNat_le.mp hgreatest
    rw [htext]
    exact number?_natural hlimit hends
  | negSucc n =>
    have htext : (Decimal.intText (.negSucc n)).toList = '-' :: Decimal.digitsOf (n + 1) := by
      simp [Decimal.intText, Decimal.natText, String.toList_append]
    have hlimit : n + 1 ≤ 0x8000000000000000 := by
      unfold leastInt at hleast
      omega
    rw [htext]
    exact number?_negative hlimit hends

/-- A character at the head of a whole number. -/
theorem exists_intText (n : Int) : ∃ c cs, (Decimal.intText n).toList = c :: cs
    ∧ (Decimal.isDigit c = true ∨ c = '-') := by
  cases n with
  | ofNat n =>
    obtain ⟨c, ds, hds, hdigit⟩ := Decimal.exists_digitsOf n
    exact ⟨c, ds, String.toList_ofList.trans hds, .inl hdigit⟩
  | negSucc n =>
    exact ⟨'-', Decimal.digitsOf (n + 1), by simp [Decimal.intText, Decimal.natText], .inr rfl⟩

/-- What starts a number is no other character. -/
theorem ne_of_starts {c d : Char} (h : Decimal.isDigit c = true ∨ c = '-')
    (hd : Decimal.isDigit d = false) (hminus : d ≠ '-') : c ≠ d := by
  rintro rfl
  rcases h with h | h
  · rw [hd] at h
    cases h
  · exact hminus h

theorem isSpace_of_starts {c : Char} (h : Decimal.isDigit c = true ∨ c = '-') :
    isSpace c = false := by
  have hne : ∀ d, Decimal.isDigit d = false → d ≠ '-' → c ≠ d := fun d => ne_of_starts h
  simp [isSpace, hne ' ' rfl (by decide), hne '\n' rfl (by decide), hne '\t' rfl (by decide),
    hne '\x0d' rfl (by decide)]

/-! ### Lines -/

/-- The items of an array on lines of their own. -/
def itemsText (n : Nat) (items : List Json) : String :=
  ("," ++ newLine n).intercalate (prettyItems n items)

/-- The fields of an object on lines of their own. -/
def fieldsText (n : Nat) (fields : List (String × Json)) : String :=
  ("," ++ newLine n).intercalate (prettyFields n fields)

theorem toList_itemsText_cons (n : Nat) (j j' : Json) (items : List Json) :
    (itemsText n (j :: j' :: items)).toList
      = (prettyAt n j).toList ++ ',' :: ((newLine n).toList
        ++ (itemsText n (j' :: items)).toList) := by
  simp [itemsText, prettyItems, String.intercalate_cons_cons, String.toList_append]

theorem toList_fieldsText_cons (n : Nat) (name : String) (j : Json) (f : String × Json)
    (fields : List (String × Json)) :
    (fieldsText n ((name, j) :: f :: fields)).toList
      = (quoted name).toList ++ ':' :: ' ' :: ((prettyAt n j).toList ++ ',' :: ((newLine n).toList
        ++ (fieldsText n (f :: fields)).toList)) := by
  obtain ⟨name', j'⟩ := f
  simp [fieldsText, prettyFields, String.intercalate_cons_cons, String.toList_append]

theorem toList_itemsText_last (n : Nat) (j : Json) :
    (itemsText n [j]).toList = (prettyAt n j).toList := by
  simp [itemsText, prettyItems]

theorem toList_fieldsText_last (n : Nat) (name : String) (j : Json) :
    (fieldsText n [(name, j)]).toList
      = (quoted name).toList ++ ':' :: ' ' :: (prettyAt n j).toList := by
  simp [fieldsText, prettyFields, String.toList_append]

theorem toList_prettyAt_array (n : Nat) (j : Json) (items : List Json) :
    (prettyAt n (.array (j :: items))).toList
      = '[' :: ((newLine (n + 1)).toList ++ ((itemsText (n + 1) (j :: items)).toList
        ++ ((newLine n).toList ++ [']']))) := by
  simp [prettyAt, itemsText, String.toList_append]

theorem toList_prettyAt_object (n : Nat) (f : String × Json) (fields : List (String × Json)) :
    (prettyAt n (.object (f :: fields))).toList
      = '\x7b' :: ((newLine (n + 1)).toList ++ ((fieldsText (n + 1) (f :: fields)).toList
        ++ ((newLine n).toList ++ ['\x7d']))) := by
  simp [prettyAt, fieldsText, String.toList_append]

/-! ### Values -/

mutual

/-- Whether a value has no floating-point numbers and whole numbers of 64 bits, and is nested
  at most as deep as the reader goes. -/
def fits (depth : Nat) : Json → Bool
  | .null | .bool _ | .string _ => true
  | .int n => leastInt ≤ n && n ≤ greatestInt
  | .float _ => false
  | .array items => 1 < depth && itemsFit (depth - 1) items
  | .object fields => 1 < depth && fieldsFit (depth - 1) fields

/-- Whether all items fit. -/
def itemsFit (depth : Nat) : List Json → Bool
  | [] => true
  | j :: rest => fits depth j && itemsFit depth rest

/-- Whether the values of all fields fit. -/
def fieldsFit (depth : Nat) : List (String × Json) → Bool
  | [] => true
  | (_, j) :: rest => fits depth j && fieldsFit depth rest

end

/-- The pretty form of a value starts with no blank and with no bracket that closes. -/
theorem exists_prettyAt {j : Json} {depth : Nat} (h : j.fits depth = true) (n : Nat) :
    ∃ c cs, (prettyAt n j).toList = c :: cs ∧ isSpace c = false ∧ c ≠ ']' := by
  cases j with
  | null => exact ⟨'n', ['u', 'l', 'l'], by simp [prettyAt], rfl, by decide⟩
  | bool b =>
    cases b
    · exact ⟨'f', ['a', 'l', 's', 'e'], by simp [prettyAt], rfl, by decide⟩
    · exact ⟨'t', ['r', 'u', 'e'], by simp [prettyAt], rfl, by decide⟩
  | int k =>
    obtain ⟨c, cs, htext, hc⟩ := exists_intText k
    exact ⟨c, cs, by rw [prettyAt, htext], isSpace_of_starts hc, ne_of_starts hc rfl (by decide)⟩
  | float x => cases h
  | string s => exact ⟨'"', _, by rw [prettyAt, toList_quoted], rfl, by decide⟩
  | array items =>
    cases items with
    | nil => exact ⟨'[', [']'], by simp [prettyAt], rfl, by decide⟩
    | cons j rest => exact ⟨'[', _, toList_prettyAt_array n j rest, rfl, by decide⟩
  | object fields =>
    cases fields with
    | nil => exact ⟨'\x7b', ['\x7d'], by simp [prettyAt], rfl, by decide⟩
    | cons f rest => exact ⟨'\x7b', _, toList_prettyAt_object n f rest, rfl, by decide⟩

theorem valueAt?_int {n : Int} {rest : List Char} (hleast : leastInt ≤ n)
    (hgreatest : n ≤ greatestInt) (hends : Ends rest) (fuel depth : Nat) :
    valueAt? (fuel + 1) depth ((Decimal.intText n).toList ++ rest) = some (.int n, rest) := by
  have hnumber := number?_intText hleast hgreatest hends
  -- the reader looks for all other forms before it looks for a number
  obtain ⟨c, cs, htext, hc⟩ := exists_intText n
  have hne : ∀ d, Decimal.isDigit d = false → d ≠ '-' → c ≠ d := fun d => ne_of_starts hc
  have hbrace : c.toNat ≠ 123 := fun h => hne '\x7b' rfl (by decide) (Char.toNat_inj.mp h)
  rw [htext, List.cons_append] at hnumber ⊢
  rw [valueAt?, skipSpace_cons (isSpace_of_starts hc)]
  simp [hne 'n' rfl (by decide), hne 't' rfl (by decide), hne 'f' rfl (by decide),
    hne '"' rfl (by decide), hne '[' rfl (by decide), hbrace, hnumber]

theorem valueAt?_string (s : String) (rest : List Char) (fuel depth : Nat) :
    valueAt? (fuel + 1) depth ((quoted s).toList ++ rest) = some (.string s, rest) := by
  have hspace : skipSpace ('"' :: (s.toList.flatMap escapeChar ++ '"' :: rest))
      = '"' :: (s.toList.flatMap escapeChar ++ '"' :: rest) :=
    skipSpace_cons rfl _
  rw [toList_quoted, List.cons_append, List.append_assoc, List.singleton_append, valueAt?, hspace]
  exact congrArg (Option.map fun r => (Json.string r.1, r.2)) (stringAt?_quoted s rest)

theorem valueAt?_null (rest : List Char) (fuel depth : Nat) :
    valueAt? (fuel + 1) depth ("null".toList ++ rest) = some (.null, rest) := by
  simp [valueAt?, skipSpace_cons (show isSpace 'n' = false from rfl), afterWord?]

theorem valueAt?_bool (b : Bool) (rest : List Char) (fuel depth n : Nat) :
    valueAt? (fuel + 1) depth ((prettyAt n (.bool b)).toList ++ rest) = some (.bool b, rest) := by
  cases b
  · simp [prettyAt, valueAt?, skipSpace_cons (show isSpace 'f' = false from rfl), afterWord?]
  · simp [prettyAt, valueAt?, skipSpace_cons (show isSpace 't' = false from rfl), afterWord?]

theorem valueAt?_emptyArray {depth : Nat} (h : 1 < depth) (rest : List Char) (fuel : Nat) :
    valueAt? (fuel + 1) depth ("[]".toList ++ rest) = some (.array [], rest) := by
  simp [valueAt?, skipSpace_cons (show isSpace '[' = false from rfl),
    skipSpace_cons (show isSpace ']' = false from rfl), Nat.not_le.mpr h]

theorem valueAt?_emptyObject {depth : Nat} (h : 1 < depth) (rest : List Char) (fuel : Nat) :
    valueAt? (fuel + 1) depth ("\x7b\x7d".toList ++ rest) = some (.object [], rest) := by
  simp [valueAt?, skipSpace_cons (show isSpace '\x7b' = false from rfl),
    skipSpace_cons (show isSpace '\x7d' = false from rfl), Nat.not_le.mpr h]

/-- An array is read when its items are. -/
theorem valueAt?_array {fuel depth n : Nat} {c : Char} {cs rest : List Char} {items : List Json}
    (hdepth : 1 < depth) (hspace : isSpace c = false) (hc : c ≠ ']')
    (hitems : itemsAt? fuel (depth - 1) (c :: cs) = some (items, rest)) :
    valueAt? (fuel + 1) depth ('[' :: ((newLine n).toList ++ c :: cs))
      = some (.array items, rest) := by
  rw [valueAt?, skipSpace_cons rfl]
  simp only [Nat.not_le.mpr hdepth, if_false]
  rw [skipSpace_newLine, skipSpace_cons hspace]
  split
  · next heq => exact absurd (List.cons.inj heq).1 hc
  · rw [hitems]
    rfl

/-- An object is read when its fields are. -/
theorem valueAt?_object {fuel depth n : Nat} {cs rest : List Char} {fields : List (String × Json)}
    (hdepth : 1 < depth) (hfields : fieldsAt? fuel (depth - 1) ('"' :: cs) = some (fields, rest)) :
    valueAt? (fuel + 1) depth ('\x7b' :: ((newLine n).toList ++ '"' :: cs))
      = some (.object fields, rest) := by
  have hspace : skipSpace ('"' :: cs) = '"' :: cs := skipSpace_cons rfl cs
  rw [valueAt?, skipSpace_cons rfl]
  simp [Nat.not_le.mpr hdepth, skipSpace_newLine, hspace, hfields]

theorem ends_newLine (n : Nat) (cs : List Char) : Ends ((newLine n).toList ++ cs) := by
  intro c hc
  rw [toList_newLine] at hc
  cases hc
  decide

theorem ends_comma (cs : List Char) : Ends (',' :: cs) := by
  intro c hc
  cases hc
  decide

/-- The last item stands before the closing bracket. -/
theorem itemsAt?_last {fuel depth n : Nat} {cs rest : List Char} {j : Json}
    (hj : valueAt? fuel depth cs = some (j, (newLine n).toList ++ ']' :: rest)) :
    itemsAt? (fuel + 1) depth cs = some ([j], rest) := by
  rw [itemsAt?, hj]
  simp [skipSpace_newLine, skipSpace_cons (show isSpace ']' = false from rfl)]

/-- A comma goes on with the next item, wherever its line begins. -/
theorem itemsAt?_more {fuel depth n : Nat} {cs after rest : List Char} {j : Json}
    {items : List Json}
    (hj : valueAt? fuel depth cs = some (j, ',' :: ((newLine n).toList ++ after)))
    (hitems : itemsAt? fuel depth after = some (items, rest)) :
    itemsAt? (fuel + 1) depth cs = some (j :: items, rest) := by
  -- the items skip no blanks themselves, their first value does
  have hline : itemsAt? fuel depth ((newLine n).toList ++ after) = some (items, rest) := by
    cases fuel with
    | zero => simp [itemsAt?] at hitems
    | succ fuel =>
      rw [itemsAt?] at hitems ⊢
      rwa [valueAt?_congr (skipSpace_newLine n after)]
  rw [itemsAt?, hj]
  simp [skipSpace_cons (show isSpace ',' = false from rfl), hline]

/-- The last field stands before the closing brace. -/
theorem fieldsAt?_last {fuel depth n : Nat} {name : String} {cs rest : List Char} {j : Json}
    (hj : valueAt? fuel depth cs = some (j, (newLine n).toList ++ '\x7d' :: rest)) :
    fieldsAt? (fuel + 1) depth ((quoted name).toList ++ ':' :: ' ' :: cs)
      = some ([(name, j)], rest) := by
  have hblank : valueAt? fuel depth (' ' :: cs) = valueAt? fuel depth cs :=
    valueAt?_congr (show skipSpace (' ' :: cs) = skipSpace cs from rfl) fuel depth
  rw [toList_quoted, List.cons_append, List.append_assoc, List.singleton_append, fieldsAt?,
    skipSpace_cons rfl]
  simp [stringAt?_quoted, skipSpace_cons (show isSpace ':' = false from rfl), hblank, hj,
    skipSpace_newLine, skipSpace_cons (show isSpace '\x7d' = false from rfl)]

/-- A comma goes on with the next field, wherever its line begins. -/
theorem fieldsAt?_more {fuel depth n : Nat} {name : String} {cs after rest : List Char} {j : Json}
    {fields : List (String × Json)}
    (hj : valueAt? fuel depth cs = some (j, ',' :: ((newLine n).toList ++ after)))
    (hfields : fieldsAt? fuel depth after = some (fields, rest)) :
    fieldsAt? (fuel + 1) depth ((quoted name).toList ++ ':' :: ' ' :: cs)
      = some ((name, j) :: fields, rest) := by
  have hblank : valueAt? fuel depth (' ' :: cs) = valueAt? fuel depth cs :=
    valueAt?_congr (show skipSpace (' ' :: cs) = skipSpace cs from rfl) fuel depth
  have hline : fieldsAt? fuel depth ((newLine n).toList ++ after) = some (fields, rest) := by
    cases fuel with
    | zero => simp [fieldsAt?] at hfields
    | succ fuel =>
      rw [fieldsAt?] at hfields ⊢
      rwa [skipSpace_newLine]
  rw [toList_quoted, List.cons_append, List.append_assoc, List.singleton_append, fieldsAt?,
    skipSpace_cons rfl]
  simp [stringAt?_quoted, skipSpace_cons (show isSpace ':' = false from rfl), hblank, hj,
    skipSpace_cons (show isSpace ',' = false from rfl), hline]

/-! ### Pretty forms -/

/-- The lines of items start as the first one does. -/
theorem exists_itemsText {j : Json} {items : List Json} {depth : Nat}
    (h : itemsFit depth (j :: items) = true) (n : Nat) :
    ∃ c cs, (itemsText n (j :: items)).toList = c :: cs ∧ isSpace c = false ∧ c ≠ ']' := by
  rw [itemsFit, Bool.and_eq_true] at h
  obtain ⟨c, cs, htext, hc⟩ := exists_prettyAt h.1 n
  cases items with
  | nil => exact ⟨c, cs, (toList_itemsText_last n j).trans htext, hc⟩
  | cons j' items => exact ⟨c, _, by rw [toList_itemsText_cons, htext, List.cons_append], hc⟩

/-- The lines of fields start with the quote of a name. -/
theorem exists_fieldsText (f : String × Json) (fields : List (String × Json)) (n : Nat) :
    ∃ cs, (fieldsText n (f :: fields)).toList = '"' :: cs := by
  cases fields with
  | nil => exact ⟨_, by rw [toList_fieldsText_last, toList_quoted, List.cons_append]⟩
  | cons g fields => exact ⟨_, by rw [toList_fieldsText_cons, toList_quoted, List.cons_append]⟩

mutual

/-- A value that fits is read back from its pretty form, given fuel for twice its length. -/
theorem valueAt?_prettyAt {depth n : Nat} : (j : Json) → ∀ (fuel : Nat) (rest : List Char),
    j.fits depth = true → 2 * (prettyAt n j).toList.length ≤ fuel + 1 → Ends rest →
      valueAt? (fuel + 1) depth ((prettyAt n j).toList ++ rest) = some (j, rest)
  | .null => by
    intro fuel rest _ _ _
    rw [prettyAt]
    exact valueAt?_null rest fuel depth
  | .bool b => by
    intro fuel rest _ _ _
    exact valueAt?_bool b rest fuel depth n
  | .int k => by
    intro fuel rest hfits _ hends
    rw [fits, Bool.and_eq_true, decide_eq_true_eq, decide_eq_true_eq] at hfits
    rw [prettyAt]
    exact valueAt?_int hfits.1 hfits.2 hends fuel depth
  | .float _ => by
    intro fuel rest hfits _ _
    rw [fits] at hfits
    cases hfits
  | .string s => by
    intro fuel rest _ _ _
    rw [prettyAt]
    exact valueAt?_string s rest fuel depth
  | .array [] => by
    intro fuel rest hfits _ _
    rw [fits, Bool.and_eq_true, decide_eq_true_eq] at hfits
    rw [prettyAt]
    exact valueAt?_emptyArray hfits.1 rest fuel
  | .array (j :: items) => by
    intro fuel rest hfits hfuel hends
    rw [fits, Bool.and_eq_true, decide_eq_true_eq] at hfits
    -- an item starts with no blank and no closing bracket, so the array is not empty
    obtain ⟨c, cs, htext, hspace, hc⟩ := exists_itemsText hfits.2 (n + 1)
    rw [toList_prettyAt_array] at hfuel ⊢
    simp only [List.length_cons, List.length_append, List.length_nil] at hfuel
    obtain ⟨fuel, rfl⟩ : ∃ k, fuel = k + 2 := ⟨fuel - 2, by omega⟩
    have hitems : itemsAt? (fuel + 2) (depth - 1) ((itemsText (n + 1) (j :: items)).toList
        ++ ((newLine n).toList ++ ']' :: rest)) = some (j :: items, rest) :=
      itemsAt?_itemsText (j :: items) fuel rest (List.cons_ne_nil _ _) hfits.2 (by omega)
    simp only [List.cons_append, List.append_assoc, List.nil_append]
    rw [htext] at hitems ⊢
    exact valueAt?_array hfits.1 hspace hc hitems
  | .object [] => by
    intro fuel rest hfits _ _
    rw [fits, Bool.and_eq_true, decide_eq_true_eq] at hfits
    rw [prettyAt]
    exact valueAt?_emptyObject hfits.1 rest fuel
  | .object (f :: fields) => by
    intro fuel rest hfits hfuel hends
    rw [fits, Bool.and_eq_true, decide_eq_true_eq] at hfits
    obtain ⟨cs, htext⟩ := exists_fieldsText f fields (n + 1)
    rw [toList_prettyAt_object] at hfuel ⊢
    simp only [List.length_cons, List.length_append, List.length_nil] at hfuel
    obtain ⟨fuel, rfl⟩ : ∃ k, fuel = k + 2 := ⟨fuel - 2, by omega⟩
    have hfields : fieldsAt? (fuel + 2) (depth - 1) ((fieldsText (n + 1) (f :: fields)).toList
        ++ ((newLine n).toList ++ '\x7d' :: rest)) = some (f :: fields, rest) :=
      fieldsAt?_fieldsText (f :: fields) fuel rest (List.cons_ne_nil _ _) hfits.2 (by omega)
    simp only [List.cons_append, List.append_assoc, List.nil_append]
    rw [htext] at hfields ⊢
    exact valueAt?_object hfits.1 hfields
termination_by structural j => j

theorem itemsAt?_itemsText {depth n m : Nat} : (items : List Json) →
    ∀ (fuel : Nat) (rest : List Char), items ≠ [] → itemsFit depth items = true →
    2 * (itemsText n items).toList.length + 1 ≤ fuel + 2 →
      itemsAt? (fuel + 2) depth
          ((itemsText n items).toList ++ ((newLine m).toList ++ ']' :: rest))
        = some (items, rest)
  | [] => by
    intro fuel rest hne
    exact absurd rfl hne
  | [j] => by
    intro fuel rest _ hfit hfuel
    rw [itemsFit, Bool.and_eq_true] at hfit
    rw [toList_itemsText_last] at hfuel ⊢
    exact itemsAt?_last (valueAt?_prettyAt j _ _ hfit.1 (by omega) (ends_newLine m _))
  | j :: j' :: items => by
    intro fuel rest _ hfit hfuel
    rw [itemsFit, Bool.and_eq_true] at hfit
    rw [toList_itemsText_cons] at hfuel ⊢
    simp only [List.length_append, List.length_cons] at hfuel
    obtain ⟨fuel, rfl⟩ : ∃ k, fuel = k + 1 := ⟨fuel - 1, by omega⟩
    rw [List.append_assoc, List.cons_append, List.append_assoc]
    exact itemsAt?_more (valueAt?_prettyAt j _ _ hfit.1 (by omega) (ends_comma _))
      (itemsAt?_itemsText (j' :: items) _ _ (List.cons_ne_nil _ _) hfit.2 (by omega))
termination_by structural items => items

theorem fieldsAt?_fieldsText {depth n m : Nat} : (fields : List (String × Json)) →
    ∀ (fuel : Nat) (rest : List Char), fields ≠ [] → fieldsFit depth fields = true →
    2 * (fieldsText n fields).toList.length + 1 ≤ fuel + 2 →
      fieldsAt? (fuel + 2) depth
          ((fieldsText n fields).toList ++ ((newLine m).toList ++ '\x7d' :: rest))
        = some (fields, rest)
  | [] => by
    intro fuel rest hne
    exact absurd rfl hne
  | [(name, j)] => by
    intro fuel rest _ hfit hfuel
    rw [fieldsFit, Bool.and_eq_true] at hfit
    rw [toList_fieldsText_last] at hfuel ⊢
    simp only [List.length_append, List.length_cons] at hfuel
    rw [List.append_assoc, List.cons_append, List.cons_append]
    exact fieldsAt?_last (valueAt?_prettyAt j _ _ hfit.1 (by omega) (ends_newLine m _))
  | (name, j) :: f :: fields => by
    intro fuel rest _ hfit hfuel
    rw [fieldsFit, Bool.and_eq_true] at hfit
    rw [toList_fieldsText_cons] at hfuel ⊢
    simp only [List.length_append, List.length_cons] at hfuel
    obtain ⟨fuel, rfl⟩ : ∃ k, fuel = k + 1 := ⟨fuel - 1, by omega⟩
    rw [List.append_assoc, List.cons_append, List.cons_append, List.append_assoc, List.cons_append,
      List.append_assoc]
    exact fieldsAt?_more (valueAt?_prettyAt j _ _ hfit.1 (by omega) (ends_comma _))
      (fieldsAt?_fieldsText (f :: fields) _ _ (List.cons_ne_nil _ _) hfit.2 (by omega))
termination_by structural fields => fields

end

/-- The pretty form of a value that fits is read as the value. -/
theorem ofText?_pretty {j : Json} (h : j.fits 128 = true) : ofText? j.pretty = some j := by
  have hvalue : valueAt? (2 * j.pretty.toList.length + 2) 128 (j.pretty.toList ++ [])
      = some (j, []) :=
    valueAt?_prettyAt j _ [] h (Nat.le_add_right _ 2) (by intro c hc; cases hc)
  rw [List.append_nil] at hvalue
  simp only [ofText?, hvalue]
  rfl

end SheetScript.Json
