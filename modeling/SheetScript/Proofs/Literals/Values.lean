import SheetScript.Naming
import SheetScript.Proofs.Decimal.Literal
import SheetScript.Proofs.Json.Records
import SheetScript.Proofs.Literals.Quoted

/-! # Values

  A JSON value is written as a literal of constants, numbers, texts, lists and dictionaries.
  Reading such a literal keeps a number as it is written, since the script rounds it; what the
  whole literal denotes is then a relation to JSON values (`Datum.Is`), and each literal that is
  written denotes one value only.

  A number and a constant end where their characters do, so every lemma about what stands at the
  head of some code has any rest behind it that goes on with neither.  The theorems about values,
  items and entries are one induction on the value, with fuel for the length of its literal.

  Main statements: `datumAt?_value`, that a literal is read; `is_datum_iff`, that it denotes one
  value; and from them `literals_read_back`.
-/

namespace SheetScript

namespace Decimal

/-- The sign of a number. -/
def Reading.isNegative : Reading → Bool
  | .nan => false
  | .infinite negative | .zero negative | .finite negative _ => negative

/-- A reading is known by its sign and by what it is up to the sign of zero. -/
theorem Reading.eq_of_unsigned {r r' : Reading} (h : r.unsigned = r'.unsigned)
    (hsign : r.isNegative = r'.isNegative) : r = r' := by
  cases r <;> cases r' <;> simp_all [unsigned, isNegative]

end Decimal

namespace Literal

open Decimal

/-! ### Reading -/

/-- What a literal of the script denotes.  A number is kept as it is written. -/
inductive Datum where
  | none
  | bool (b : Bool)
  | number (digits : String)
  | text (s : String)
  | list (items : List Datum)
  | dict (entries : List (String × Datum))

/-- What a word denotes, if it is a constant. -/
def constant? (word : List Char) : Option Datum :=
  if word = "None".toList then some .none
  else if word = "True".toList then some (.bool true)
  else if word = "False".toList then some (.bool false)
  else none

/-- A text, a number or a constant at the head of some code, and the code behind it. -/
def atom? (cs : List Char) : Option (Datum × List Char) :=
  match quoted? cs with
  | some (s, rest) => some (.text (String.ofList s), rest)
  | none =>
    let digits := String.ofList (cs.takeWhile isMark)
    if (decimal? digits).isSome then some (.number digits, cs.dropWhile isMark)
    else
      (constant? (cs.takeWhile Naming.isNamePart)).map fun d =>
        (d, cs.dropWhile Naming.isNamePart)

mutual

/-- One literal; `fuel` bounds its length. -/
def datumAt? : Nat → List Char → Option (Datum × List Char)
  | 0, _ => none
  | fuel + 1, cs =>
    match Json.skipSpace cs with
    | '[' :: rest => (itemsAt? fuel rest).map fun r => (.list r.1, r.2)
    | '\x7b' :: rest => (entriesAt? fuel rest).map fun r => (.dict r.1, r.2)
    | atom => atom? atom

/-- The items of a list up to its closing bracket.  A comma may stand behind the last one. -/
def itemsAt? : Nat → List Char → Option (List Datum × List Char)
  | 0, _ => none
  | fuel + 1, cs =>
    match Json.skipSpace cs with
    | ']' :: rest => some ([], rest)
    | item => do
      let (d, rest) ← datumAt? fuel item
      match Json.skipSpace rest with
      | ']' :: rest => some ([d], rest)
      | ',' :: rest => do
        let (ds, rest) ← itemsAt? fuel rest
        some (d :: ds, rest)
      | _ => none

/-- The entries of a dictionary up to its closing brace.  Their keys are texts. -/
def entriesAt? : Nat → List Char → Option (List (String × Datum) × List Char)
  | 0, _ => none
  | fuel + 1, cs =>
    match Json.skipSpace cs with
    | '\x7d' :: rest => some ([], rest)
    | entry =>
      match atom? entry with
      | some (.text key, rest) =>
        match Json.skipSpace rest with
        | ':' :: rest => do
          let (d, rest) ← datumAt? fuel rest
          match Json.skipSpace rest with
          | '\x7d' :: rest => some ([(key, d)], rest)
          | ',' :: rest => do
            let (es, rest) ← entriesAt? fuel rest
            some ((key, d) :: es, rest)
          | _ => none
        | _ => none
      | _ => none

end

/-- What some code denotes that is one literal. -/
def datum? (code : String) : Option Datum :=
  let cs := unifyLines code.toList
  match datumAt? (cs.length + 1) cs with
  | some (d, rest) => if (Json.skipSpace rest).isEmpty then some d else none
  | none => none

mutual

/-- Whether a literal denotes a value.  A number without point and exponent is the whole number
  that it writes, and any other one the nearest floating-point number with its sign.  Of equal
  keys of a dictionary the last one counts. -/
def Datum.Is : Datum → Json → Prop
  | .none, j => j = .null
  | .bool b, j => j = .bool b
  | .number digits, j => ∃ w, decimal? digits = some w ∧
    if w.whole then ∃ n : Int, w.value = n ∧ j = .int n
    else ∃ x, (ofFloat x).Nearest w.value
      ∧ (ofFloat x).isNegative = (digits.toList.head? == some '-') ∧ j = .float x
  | .text s, j => j = .string s
  | .list items, j => ∃ js, j = .array js ∧ areItems items js
  | .dict entries, j => ∃ fields, j = .object (Dictionary.ofList fields) ∧ areFields entries fields

/-- Whether literals denote the items of an array. -/
def areItems : List Datum → List Json → Prop
  | [], js => js = []
  | d :: ds, js => ∃ j rest, js = j :: rest ∧ d.Is j ∧ areItems ds rest

/-- Whether entries denote the fields of an object. -/
def areFields : List (String × Datum) → List (String × Json) → Prop
  | [], fields => fields = []
  | (key, d) :: es, fields => ∃ j rest, fields = (key, j) :: rest ∧ d.Is j ∧ areFields es rest

end

/-! ### What is written -/

mutual

/-- What the literal of a value is read as. -/
def datum : Json → Datum
  | .null => .none
  | .bool b => .bool b
  | .int n => .number (intText n)
  | .float x => .number (Json.floatText x)
  | .string s => .text s
  | .array items => .list (datumItems items)
  | .object fields => .dict (datumEntries fields)

/-- What the items of an array are read as. -/
def datumItems : List Json → List Datum
  | [] => []
  | j :: rest => datum j :: datumItems rest

/-- What the fields of an object are read as. -/
def datumEntries : List (String × Json) → List (String × Datum)
  | [] => []
  | (name, j) :: rest => (name, datum j) :: datumEntries rest

end

mutual

/-- Whether the script has a literal for a value: no number is infinite, and no text holds a
  zero character. -/
def isWritable : Json → Bool
  | .null | .bool _ | .int _ => true
  | .float x => x.isFinite
  | .string s => !s.toList.contains '\x00'
  | .array items => areWritable items
  | .object fields => fieldsWritable fields

/-- Whether there are literals for all items. -/
def areWritable : List Json → Bool
  | [] => true
  | j :: rest => isWritable j && areWritable rest

/-- Whether there are literals for all fields. -/
def fieldsWritable : List (String × Json) → Bool
  | [] => true
  | (name, j) :: rest => !name.toList.contains '\x00' && (isWritable j && fieldsWritable rest)

end

/-! ### Atoms -/

/-- Nothing that goes on with a number, a word or quotes. -/
def Ends (rest : List Char) : Prop :=
  ∀ c ∈ rest.head?, isMark c = false ∧ Naming.isNamePart c = false ∧ isQuote c = false

/-- A character with which a text, a number or a constant can start. -/
def startsAtom (c : Char) : Bool :=
  !Json.isSpace c && c != '[' && c != ']' && c != '\x7b' && c != '\x7d'

variable {cs rest : List Char} {p : Char → Bool} {c : Char} {s : String} {w : Written} {x : Float}
  {j : Json} {d : Datum} {fuel : Nat}

/-- What does not start with a quote is no text. -/
theorem not_quoted (hquote : isQuote c = false) (hraw : c ≠ 'r' ∧ c ≠ 'R') (cs : List Char) :
    quoted? (c :: cs) = none := by
  have hshort : opensLong (c :: cs) = false := by
    unfold opensLong
    split
    · rename_i heq
      rw [(List.cons.inj heq).1] at hquote
      simp [hquote]
    · rfl
  simp [quoted?, inside?, hshort, hquote, hraw]

/-- What starts a number starts neither a text nor anything with brackets. -/
theorem starts_of_isMark (h : isMark c = true) :
    isQuote c = false ∧ (c ≠ 'r' ∧ c ≠ 'R') ∧ startsAtom c = true := by
  have hne : ∀ d, isMark d = false → c ≠ d := by
    rintro d hd rfl
    rw [h] at hd
    cases hd
  refine ⟨?_, ⟨hne 'r' rfl, hne 'R' rfl⟩, ?_⟩
  · simp [isQuote, hne '\'' rfl, hne '"' rfl]
  · simp [startsAtom, Json.isSpace, hne ' ' rfl, hne '\n' rfl, hne '\t' rfl, hne '\x0d' rfl,
      hne '[' rfl, hne ']' rfl, hne '\x7b' rfl, hne '\x7d' rfl]

/-- What has a decimal has a first character. -/
theorem exists_cons_of_decimal? (hall : s.toList.all isMark = true) (h : decimal? s = some w) :
    ∃ c cs, s.toList = c :: cs ∧ isMark c = true := by
  cases hs : s.toList with
  | nil =>
    obtain rfl : s = "" := String.toList_inj.mp hs
    have hnone : decimal? "" = none := rfl
    rw [hnone] at h
    cases h
  | cons c cs => exact ⟨c, cs, rfl, List.all_eq_true.mp hall c (by simp [hs])⟩

/-- A number at the head of some code. -/
theorem atom?_number (hall : s.toList.all isMark = true) (hw : decimal? s = some w)
    (hends : Ends rest) : atom? (s.toList ++ rest) = some (.number s, rest) := by
  obtain ⟨htake, hdrop⟩ := span_append hall fun c hc => (hends c hc).1
  obtain ⟨c, cs, hs, hmark⟩ := exists_cons_of_decimal? hall hw
  obtain ⟨hquote, hraw, -⟩ := starts_of_isMark hmark
  have hquoted := not_quoted hquote hraw (cs ++ rest)
  rw [← List.cons_append, ← hs] at hquoted
  simp [atom?, hquoted, htake, hdrop, hw]

/-- A constant at the head of some code. -/
theorem atom?_constant {word : List Char} (hconstant : constant? word = some d)
    (hparts : word.all Naming.isNamePart = true) (hcons : word = c :: cs) (hmark : isMark c = false)
    (hquote : isQuote c = false) (hraw : c ≠ 'r' ∧ c ≠ 'R') (hends : Ends rest) :
    atom? (word ++ rest) = some (d, rest) := by
  obtain ⟨htake, hdrop⟩ := span_append hparts fun c hc => (hends c hc).2.1
  have hquoted := not_quoted hquote hraw (cs ++ rest)
  -- a number is looked for first, and there is none of no characters
  have hdigits : (c :: (cs ++ rest)).takeWhile isMark = [] :=
    List.takeWhile_cons_of_neg (by simp [hmark])
  have hnone : decimal? (String.ofList []) = none := rfl
  rw [← List.cons_append, ← hcons] at hquoted hdigits
  simp [atom?, hquoted, hdigits, hnone, htake, hdrop, hconstant]

/-- A text at the head of some code. -/
theorem atom?_text (h : '\x00' ∉ s.toList) (hends : Ends rest) :
    atom? ((text s).toList ++ rest) = some (.text s, rest) := by
  have hquoted := (quoted?_text h rest).mpr <| by
    rintro ⟨-, hquote⟩
    exact absurd (hends '\'' hquote).2.2 (by decide)
  simp [atom?, hquoted]

/-! ### Numbers -/

theorem all_floatText (h : x.isFinite = true) : (Json.floatText x).toList.all isMark = true := by
  rw [Json.floatText, if_pos h, jsonText]
  obtain ⟨negative, hx⟩ | ⟨negative, b, hx⟩ := ofFloat_of_isFinite h
  · rw [hx]
    exact all_render_zero _ _
  · rw [hx]
    exact all_render_finite _ _ _

/-- A number shows its sign. -/
theorem isNegative_floatText (h : x.isFinite = true) :
    ((Json.floatText x).toList.head? == some '-') = (ofFloat x).isNegative := by
  rw [Json.floatText, if_pos h, jsonText]
  obtain ⟨negative, hx⟩ | ⟨negative, b, hx⟩ := ofFloat_of_isFinite h
  · rw [hx, Layout.render, String.toList_ofList]
    cases negative <;> rfl
  · rw [hx, Layout.render, String.toList_ofList]
    cases negative with
    | true => rfl
    | false =>
      -- without a sign the first character is a digit
      obtain ⟨c, cs, hbody, hdigit⟩ := exists_isDigit_of_unsignedDecimal?
        (unsignedDecimal?_body .json b.shortest.1 b.shortest.2)
      have hc : c ≠ '-' := by
        rintro rfl
        cases hdigit
      simp [hbody, hc, Reading.isNegative]

/-- What is written for a number denotes that number only. -/
theorem is_number_iff (h : x.isFinite = true) (j : Json) :
    (Datum.number (Json.floatText x)).Is j ↔ j = .float x := by
  obtain ⟨w, hw, hpoint⟩ := exists_decimal?_floatText h
  have hnearest := (floatText_roundsTo h).nearest hw
  rw [Datum.Is, isNegative_floatText h]
  constructor
  · rintro ⟨w', hw', hj⟩
    obtain rfl : w' = w := Option.some.inj (hw'.symm.trans hw)
    rw [hpoint, if_neg Bool.false_ne_true] at hj
    obtain ⟨y, hy, hsign, rfl⟩ := hj
    -- one number is nearest but for the sign of zero, and the literal shows the sign
    have hunsigned := hy.unique (isDouble_ofFloat y) (isDouble_ofFloat x) hnearest
    rw [ofFloat_inj (Reading.eq_of_unsigned hunsigned hsign)]
  · rintro rfl
    refine ⟨w, hw, ?_⟩
    rw [hpoint, if_neg Bool.false_ne_true]
    exact ⟨x, hnearest, rfl, rfl⟩

theorem is_int_iff (n : Int) (j : Json) : (Datum.number (intText n)).Is j ↔ j = .int n := by
  rw [Datum.Is, decimal?_intText]
  constructor
  · rintro ⟨w, hw, hj⟩
    obtain rfl := Option.some.inj hw
    rw [if_pos rfl] at hj
    obtain ⟨m, hm, rfl⟩ := hj
    rw [Int.cast_inj.mp hm]
  · rintro rfl
    refine ⟨_, rfl, ?_⟩
    rw [if_pos rfl]
    exact ⟨n, rfl, rfl⟩

/-! ### One literal, one value -/

mutual

/-- What is read from the literal of a value denotes that value only. -/
theorem is_datum_iff : (v : Json) → v.IsCanonical → isWritable v = true → ∀ j,
    (datum v).Is j ↔ j = v
  | .null, _, _ => fun j => by rw [datum, Datum.Is]
  | .bool b, _, _ => fun j => by rw [datum, Datum.Is]
  | .int n, _, _ => fun j => is_int_iff n j
  | .float x, _, h => fun j => is_number_iff h j
  | .string s, _, _ => fun j => by rw [datum, Datum.Is]
  | .array items, hcanonical, h => fun j => by
    rw [datum, Datum.Is]
    constructor
    · rintro ⟨js, rfl, hitems⟩
      rw [(areItems_iff items hcanonical.items h js).mp hitems]
    · rintro rfl
      exact ⟨items, rfl, (areItems_iff items hcanonical.items h items).mpr rfl⟩
  | .object fields, hcanonical, h => fun j => by
    obtain ⟨hascending, hvalues⟩ := hcanonical.fields
    rw [datum, Datum.Is]
    constructor
    · -- the fields are in order already, so reading them as a dictionary changes nothing
      rintro ⟨fs, rfl, hfields⟩
      rw [(areFields_iff fields hvalues h fs).mp hfields, hascending.ofList_eq]
    · rintro rfl
      exact ⟨fields, by rw [hascending.ofList_eq], (areFields_iff fields hvalues h fields).mpr rfl⟩
termination_by structural v => v

theorem areItems_iff : (items : List Json) → (∀ j ∈ items, j.IsCanonical) →
    areWritable items = true → ∀ js, areItems (datumItems items) js ↔ js = items
  | [], _, _ => fun js => by rw [datumItems, areItems]
  | v :: rest, hcanonical, h => fun js => by
    rw [List.forall_mem_cons] at hcanonical
    rw [areWritable, Bool.and_eq_true] at h
    rw [datumItems, areItems]
    constructor
    · rintro ⟨j, js', rfl, hj, hjs⟩
      rw [(is_datum_iff v hcanonical.1 h.1 j).mp hj, (areItems_iff rest hcanonical.2 h.2 js').mp hjs]
    · rintro rfl
      exact ⟨v, rest, rfl, (is_datum_iff v hcanonical.1 h.1 v).mpr rfl,
        (areItems_iff rest hcanonical.2 h.2 rest).mpr rfl⟩
termination_by structural items => items

theorem areFields_iff : (fields : List (String × Json)) → (∀ f ∈ fields, f.2.IsCanonical) →
    fieldsWritable fields = true → ∀ fs, areFields (datumEntries fields) fs ↔ fs = fields
  | [], _, _ => fun fs => by rw [datumEntries, areFields]
  | (name, v) :: rest, hcanonical, h => fun fs => by
    rw [List.forall_mem_cons] at hcanonical
    rw [fieldsWritable, Bool.and_eq_true, Bool.and_eq_true] at h
    rw [datumEntries, areFields]
    constructor
    · rintro ⟨j, fs', rfl, hj, hfs⟩
      rw [(is_datum_iff v hcanonical.1 h.2.1 j).mp hj,
        (areFields_iff rest hcanonical.2 h.2.2 fs').mp hfs]
    · rintro rfl
      exact ⟨v, rest, rfl, (is_datum_iff v hcanonical.1 h.2.1 v).mpr rfl,
        (areFields_iff rest hcanonical.2 h.2.2 rest).mpr rfl⟩
termination_by structural fields => fields

end

/-! ### Codes of items and entries -/

/-- The code of the items of an array. -/
def itemsCode (items : List Json) : List Char := (", ".intercalate (valueItems items)).toList

/-- The code of the fields of an object. -/
def fieldsCode (fields : List (String × Json)) : List Char :=
  (", ".intercalate (valueFields fields)).toList

theorem itemsCode_last (v : Json) : itemsCode [v] = (value v).toList := by
  simp [itemsCode, valueItems]

theorem itemsCode_cons (v v' : Json) (items : List Json) :
    itemsCode (v :: v' :: items) = (value v).toList ++ ',' :: ' ' :: itemsCode (v' :: items) := by
  simp [itemsCode, valueItems, String.intercalate_cons_cons, String.toList_append]

theorem fieldsCode_last (name : String) (v : Json) :
    fieldsCode [(name, v)] = (text name).toList ++ ':' :: ' ' :: (value v).toList := by
  simp [fieldsCode, valueFields, String.toList_append]

theorem fieldsCode_cons (name : String) (v : Json) (f : String × Json)
    (fields : List (String × Json)) :
    fieldsCode ((name, v) :: f :: fields) = (text name).toList ++ ':' :: ' ' ::
      ((value v).toList ++ ',' :: ' ' :: fieldsCode (f :: fields)) := by
  obtain ⟨name', v'⟩ := f
  simp [fieldsCode, valueFields, String.intercalate_cons_cons, String.toList_append]

theorem toList_value_array (items : List Json) :
    (value (.array items)).toList = '[' :: (itemsCode items ++ [']']) := by
  simp [value, listOf, itemsCode, String.toList_append]

theorem toList_value_object (fields : List (String × Json)) :
    (value (.object fields)).toList = '\x7b' :: (fieldsCode fields ++ ['\x7d']) := by
  simp [value, fieldsCode, String.toList_append]

/-- A character with which a value can start. -/
def StartsValue (c : Char) : Prop := startsAtom c = true ∨ c = '[' ∨ c = '\x7b'

/-- The literal of a value starts with no blank and with nothing that closes. -/
theorem exists_value (h : isWritable j = true) :
    ∃ c cs, (value j).toList = c :: cs ∧ StartsValue c := by
  cases j with
  | null => exact ⟨'N', ['o', 'n', 'e'], by simp [value], .inl rfl⟩
  | bool b =>
    cases b
    · exact ⟨'F', ['a', 'l', 's', 'e'], by simp [value], .inl rfl⟩
    · exact ⟨'T', ['r', 'u', 'e'], by simp [value], .inl rfl⟩
  | int n =>
    obtain ⟨c, cs, htext, hc⟩ := exists_cons_of_decimal? (all_intText n) (decimal?_intText n)
    exact ⟨c, cs, by rw [value, htext], .inl (starts_of_isMark hc).2.2⟩
  | float x =>
    obtain ⟨w, hw, -⟩ := exists_decimal?_floatText h
    obtain ⟨c, cs, htext, hc⟩ := exists_cons_of_decimal? (all_floatText h) hw
    exact ⟨c, cs, by rw [value, htext], .inl (starts_of_isMark hc).2.2⟩
  | string s => exact ⟨'\'', _, by rw [value, toList_text], .inl rfl⟩
  | array items => exact ⟨'[', _, toList_value_array items, .inr (.inl rfl)⟩
  | object fields => exact ⟨'\x7b', _, toList_value_object fields, .inr (.inr rfl)⟩

/-! ### Reading back -/

theorem skipSpace_blank (cs : List Char) : Json.skipSpace (' ' :: cs) = Json.skipSpace cs := rfl

theorem StartsValue.skipSpace (h : StartsValue c) (cs : List Char) :
    Json.skipSpace (c :: cs) = c :: cs := by
  refine List.dropWhile_cons_of_neg ?_
  obtain h | rfl | rfl := h
  · simp only [startsAtom, Bool.and_eq_true, Bool.not_eq_true'] at h
    simp [h.1.1.1.1]
  · decide
  · decide

theorem StartsValue.ne (h : StartsValue c) : c ≠ ']' ∧ c ≠ '\x7d' := by
  constructor
  · rintro rfl
    exact absurd h (by unfold StartsValue; decide)
  · rintro rfl
    exact absurd h (by unfold StartsValue; decide)

theorem datumAt?_blank (fuel : Nat) (cs : List Char) :
    datumAt? fuel (' ' :: cs) = datumAt? fuel cs := by
  cases fuel with
  | zero => rw [datumAt?, datumAt?]
  | succ fuel => rw [datumAt?, datumAt?, skipSpace_blank]

theorem itemsAt?_blank (fuel : Nat) (cs : List Char) :
    itemsAt? fuel (' ' :: cs) = itemsAt? fuel cs := by
  cases fuel with
  | zero => rw [itemsAt?, itemsAt?]
  | succ fuel => rw [itemsAt?, itemsAt?, skipSpace_blank]

theorem entriesAt?_blank (fuel : Nat) (cs : List Char) :
    entriesAt? fuel (' ' :: cs) = entriesAt? fuel cs := by
  cases fuel with
  | zero => rw [entriesAt?, entriesAt?]
  | succ fuel => rw [entriesAt?, entriesAt?, skipSpace_blank]

/-- What starts like an atom is read as one. -/
theorem datumAt?_of_atom (hs : s.toList = c :: cs) (hc : startsAtom c = true)
    (hatom : atom? (s.toList ++ rest) = some (d, rest)) (fuel : Nat) :
    datumAt? (fuel + 1) (s.toList ++ rest) = some (d, rest) := by
  rw [hs, List.cons_append] at hatom ⊢
  rw [datumAt?, StartsValue.skipSpace (.inl hc)]
  simp only [startsAtom, Bool.and_eq_true, bne_iff_ne] at hc
  split
  · next heq => exact absurd (List.cons.inj heq).1 hc.1.1.1.2
  · next heq => exact absurd (List.cons.inj heq).1 hc.1.2
  · exact hatom

theorem datumAt?_number (hall : s.toList.all isMark = true) (hw : decimal? s = some w)
    (hends : Ends rest) (fuel : Nat) :
    datumAt? (fuel + 1) (s.toList ++ rest) = some (.number s, rest) := by
  obtain ⟨c, cs, hs, hc⟩ := exists_cons_of_decimal? hall hw
  exact datumAt?_of_atom hs (starts_of_isMark hc).2.2 (atom?_number hall hw hends) fuel

/-- The last item stands before the closing bracket. -/
theorem itemsAt?_last (hc : StartsValue c)
    (hd : datumAt? fuel (c :: cs) = some (d, ']' :: rest)) :
    itemsAt? (fuel + 1) (c :: cs) = some ([d], rest) := by
  have hclose : Json.skipSpace (']' :: rest) = ']' :: rest := rfl
  rw [itemsAt?, hc.skipSpace]
  split
  · next heq => exact absurd (List.cons.inj heq).1 hc.ne.1
  · simp [hd, hclose]

/-- A comma goes on with the next item. -/
theorem itemsAt?_more {after : List Char} {ds : List Datum} (hc : StartsValue c)
    (hd : datumAt? fuel (c :: cs) = some (d, ',' :: ' ' :: after))
    (hds : itemsAt? fuel after = some (ds, rest)) :
    itemsAt? (fuel + 1) (c :: cs) = some (d :: ds, rest) := by
  have hcomma : Json.skipSpace (',' :: ' ' :: after) = ',' :: ' ' :: after := rfl
  rw [itemsAt?, hc.skipSpace]
  split
  · next heq => exact absurd (List.cons.inj heq).1 hc.ne.1
  · simp [hd, hcomma, itemsAt?_blank, hds]

/-- An entry is read up to what is behind its value. -/
theorem entriesAt?_text (h : '\x00' ∉ s.toList) (fuel : Nat) (cs : List Char) :
    entriesAt? (fuel + 1) ((text s).toList ++ ':' :: ' ' :: cs) = (do
      let (d, rest) ← datumAt? fuel cs
      match Json.skipSpace rest with
      | '\x7d' :: rest => some ([(s, d)], rest)
      | ',' :: rest => do
        let (es, rest) ← entriesAt? fuel rest
        some ((s, d) :: es, rest)
      | _ => none) := by
  have hatom : atom? ((text s).toList ++ ':' :: ' ' :: cs) = some (.text s, ':' :: ' ' :: cs) := by
    refine atom?_text h fun c hc => ?_
    cases hc
    decide
  have hquote : StartsValue '\'' := .inl rfl
  have hcolon : Json.skipSpace (':' :: ' ' :: cs) = ':' :: ' ' :: cs := rfl
  rw [toList_text, List.cons_append] at hatom ⊢
  rw [entriesAt?, hquote.skipSpace]
  split
  · next heq => exact absurd (List.cons.inj heq).1 hquote.ne.2
  · simp only [hatom, hcolon, datumAt?_blank]

/-- The last entry stands before the closing brace. -/
theorem entriesAt?_last (h : '\x00' ∉ s.toList)
    (hd : datumAt? fuel cs = some (d, '\x7d' :: rest)) :
    entriesAt? (fuel + 1) ((text s).toList ++ ':' :: ' ' :: cs) = some ([(s, d)], rest) := by
  have hclose : Json.skipSpace ('\x7d' :: rest) = '\x7d' :: rest := rfl
  rw [entriesAt?_text h, hd]
  simp [hclose]

/-- A comma goes on with the next entry. -/
theorem entriesAt?_more {after : List Char} {es : List (String × Datum)} (h : '\x00' ∉ s.toList)
    (hd : datumAt? fuel cs = some (d, ',' :: ' ' :: after))
    (hes : entriesAt? fuel after = some (es, rest)) :
    entriesAt? (fuel + 1) ((text s).toList ++ ':' :: ' ' :: cs) = some ((s, d) :: es, rest) := by
  have hcomma : Json.skipSpace (',' :: ' ' :: after) = ',' :: ' ' :: after := rfl
  rw [entriesAt?_text h, hd]
  simp [hcomma, entriesAt?_blank, hes]

theorem ends_cons (hc : isMark c = false ∧ Naming.isNamePart c = false ∧ isQuote c = false)
    (cs : List Char) : Ends (c :: cs) := by
  intro d hd
  cases hd
  exact hc

theorem not_mem_of_contains (h : (!s.toList.contains '\x00') = true) : '\x00' ∉ s.toList := by
  simpa using h

mutual

/-- A value is read back from its literal, given fuel for the length of it. -/
theorem datumAt?_value : (v : Json) → ∀ (fuel : Nat) (rest : List Char), isWritable v = true →
    (value v).toList.length ≤ fuel → Ends rest →
      datumAt? (fuel + 1) ((value v).toList ++ rest) = some (datum v, rest)
  | .null => by
    intro fuel rest _ _ hends
    have hatom := atom?_constant (show constant? "None".toList = some .none from rfl) rfl rfl rfl
      rfl (by decide) hends
    rw [value]
    exact datumAt?_of_atom rfl rfl hatom fuel
  | .bool true => by
    intro fuel rest _ _ hends
    have hatom := atom?_constant (show constant? "True".toList = some (.bool true) from rfl) rfl rfl
      rfl rfl (by decide) hends
    rw [value]
    exact datumAt?_of_atom rfl rfl hatom fuel
  | .bool false => by
    intro fuel rest _ _ hends
    have hatom := atom?_constant (show constant? "False".toList = some (.bool false) from rfl) rfl
      rfl rfl rfl (by decide) hends
    rw [value]
    exact datumAt?_of_atom rfl rfl hatom fuel
  | .int n => by
    intro fuel rest _ _ hends
    rw [value]
    exact datumAt?_number (all_intText n) (decimal?_intText n) hends fuel
  | .float x => by
    intro fuel rest h _ hends
    obtain ⟨w, hw, -⟩ := exists_decimal?_floatText h
    rw [value]
    exact datumAt?_number (all_floatText h) hw hends fuel
  | .string s => by
    intro fuel rest h _ hends
    rw [value]
    exact datumAt?_of_atom (toList_text s) rfl (atom?_text (not_mem_of_contains h) hends) fuel
  | .array items => by
    intro fuel rest h hfuel _
    rw [toList_value_array] at hfuel ⊢
    simp only [List.length_cons, List.length_append, List.length_nil] at hfuel
    obtain ⟨fuel, rfl⟩ : ∃ k, fuel = k + 2 := ⟨fuel - 2, by omega⟩
    -- the two brackets are paid for, and the rest is enough for the items
    have hitems := itemsAt?_items items fuel rest h (by omega)
    have hopen : StartsValue '[' := .inr (.inl rfl)
    rw [List.cons_append, List.append_assoc, List.singleton_append, datumAt?, hopen.skipSpace]
    simp only [hitems, Option.map_some, datum]
  | .object fields => by
    intro fuel rest h hfuel _
    rw [toList_value_object] at hfuel ⊢
    simp only [List.length_cons, List.length_append, List.length_nil] at hfuel
    obtain ⟨fuel, rfl⟩ : ∃ k, fuel = k + 2 := ⟨fuel - 2, by omega⟩
    have hfields := entriesAt?_fields fields fuel rest h (by omega)
    have hopen : StartsValue '\x7b' := .inr (.inr rfl)
    rw [List.cons_append, List.append_assoc, List.singleton_append, datumAt?, hopen.skipSpace]
    simp only [hfields, Option.map_some, datum]
termination_by structural v => v

theorem itemsAt?_items : (items : List Json) → ∀ (fuel : Nat) (rest : List Char),
    areWritable items = true → (itemsCode items).length ≤ fuel →
      itemsAt? (fuel + 2) (itemsCode items ++ ']' :: rest) = some (datumItems items, rest)
  | [] => by
    intro fuel rest _ _
    have hclose : Json.skipSpace (']' :: rest) = ']' :: rest := rfl
    have hcode : itemsCode [] = [] := rfl
    rw [hcode, List.nil_append, itemsAt?, hclose, datumItems]
    rfl
  | [v] => by
    intro fuel rest h hfuel
    rw [areWritable, Bool.and_eq_true] at h
    rw [itemsCode_last] at hfuel ⊢
    have hv := datumAt?_value v fuel (']' :: rest) h.1 hfuel (ends_cons (by decide) _)
    obtain ⟨c, cs, htext, hc⟩ := exists_value h.1
    rw [htext, List.cons_append] at hv ⊢
    rw [itemsAt?_last hc hv, datumItems, datumItems]
  | v :: v' :: items => by
    intro fuel rest h hfuel
    rw [areWritable, Bool.and_eq_true] at h
    rw [itemsCode_cons] at hfuel ⊢
    simp only [List.length_append, List.length_cons] at hfuel
    obtain ⟨fuel, rfl⟩ : ∃ k, fuel = k + 1 := ⟨fuel - 1, by omega⟩
    rw [List.append_assoc, List.cons_append, List.cons_append]
    have hv := datumAt?_value v (fuel + 1) (',' :: ' ' :: (itemsCode (v' :: items) ++ ']' :: rest))
      h.1 (by omega) (ends_cons (by decide) _)
    have hitems := itemsAt?_items (v' :: items) fuel rest h.2 (by omega)
    obtain ⟨c, cs, htext, hc⟩ := exists_value h.1
    rw [htext, List.cons_append] at hv ⊢
    rw [itemsAt?_more hc hv hitems, datumItems.eq_2 v]
termination_by structural items => items

theorem entriesAt?_fields : (fields : List (String × Json)) → ∀ (fuel : Nat) (rest : List Char),
    fieldsWritable fields = true → (fieldsCode fields).length ≤ fuel →
      entriesAt? (fuel + 2) (fieldsCode fields ++ '\x7d' :: rest)
        = some (datumEntries fields, rest)
  | [] => by
    intro fuel rest _ _
    have hclose : Json.skipSpace ('\x7d' :: rest) = '\x7d' :: rest := rfl
    have hcode : fieldsCode [] = [] := rfl
    rw [hcode, List.nil_append, entriesAt?, hclose, datumEntries]
    rfl
  | [(name, v)] => by
    intro fuel rest h hfuel
    rw [fieldsWritable, Bool.and_eq_true, Bool.and_eq_true] at h
    rw [fieldsCode_last] at hfuel ⊢
    simp only [List.length_append, List.length_cons] at hfuel
    have hv := datumAt?_value v fuel ('\x7d' :: rest) h.2.1 (by omega) (ends_cons (by decide) _)
    rw [List.append_assoc, List.cons_append, List.cons_append,
      entriesAt?_last (not_mem_of_contains h.1) hv, datumEntries, datumEntries]
  | (name, v) :: f :: fields => by
    intro fuel rest h hfuel
    rw [fieldsWritable, Bool.and_eq_true, Bool.and_eq_true] at h
    rw [fieldsCode_cons] at hfuel ⊢
    simp only [List.length_append, List.length_cons] at hfuel
    obtain ⟨fuel, rfl⟩ : ∃ k, fuel = k + 1 := ⟨fuel - 1, by omega⟩
    have hv := datumAt?_value v (fuel + 1) (',' :: ' ' :: (fieldsCode (f :: fields) ++ '\x7d' :: rest))
      h.2.1 (by omega) (ends_cons (by decide) _)
    have hfields := entriesAt?_fields (f :: fields) fuel rest h.2.2 (by omega)
    rw [List.append_assoc, List.cons_append, List.cons_append, List.append_assoc, List.cons_append,
      List.cons_append, entriesAt?_more (not_mem_of_contains h.1) hv hfields, datumEntries.eq_2 name v]
termination_by structural fields => fields

end

/-! ### Lines -/

theorem InLine.append {cs ds : List Char} (hcs : InLine cs) (hds : InLine ds) : InLine (cs ++ ds) :=
  fun c hc => (List.mem_append.mp hc).elim (hcs c) (hds c)

theorem inLine_of_all (h : cs.all isMark = true) : InLine cs := by
  intro c hc
  have hmark := List.all_eq_true.mp h c hc
  rw [← Bool.not_eq_true]
  intro hbreak
  have hcases : c = '\n' ∨ c = '\x0d' := by simpa [breaksLine] using hbreak
  obtain rfl | rfl := hcases <;> exact absurd hmark (by decide)

theorem inLine_cons (h : breaksLine c = false) (hcs : InLine cs) : InLine (c :: cs) :=
  List.forall_mem_cons.mpr ⟨h, hcs⟩

theorem inLine_nil : InLine [] := List.forall_mem_nil _

mutual

/-- The literal of a value is in one line. -/
theorem inLine_value : (v : Json) → isWritable v = true → InLine (value v).toList
  | .null, _ => by simp [value, InLine, breaksLine]
  | .bool true, _ => by simp [value, InLine, breaksLine]
  | .bool false, _ => by simp [value, InLine, breaksLine]
  | .int n, _ => by
    rw [value]
    exact inLine_of_all (all_intText n)
  | .float x, h => by
    rw [value]
    exact inLine_of_all (all_floatText h)
  | .string s, _ => by
    rw [value]
    exact inLine_text s
  | .array items, h => by
    rw [toList_value_array]
    exact inLine_cons rfl ((inLine_items items h).append (inLine_cons rfl inLine_nil))
  | .object fields, h => by
    rw [toList_value_object]
    exact inLine_cons rfl ((inLine_fields fields h).append (inLine_cons rfl inLine_nil))
termination_by structural v => v

theorem inLine_items : (items : List Json) → areWritable items = true → InLine (itemsCode items)
  | [], _ => inLine_nil
  | [v], h => by
    rw [areWritable, Bool.and_eq_true] at h
    rw [itemsCode_last]
    exact inLine_value v h.1
  | v :: v' :: items, h => by
    rw [areWritable, Bool.and_eq_true] at h
    rw [itemsCode_cons]
    exact (inLine_value v h.1).append
      (inLine_cons rfl (inLine_cons rfl (inLine_items (v' :: items) h.2)))
termination_by structural items => items

theorem inLine_fields : (fields : List (String × Json)) → fieldsWritable fields = true →
    InLine (fieldsCode fields)
  | [], _ => inLine_nil
  | [(name, v)], h => by
    rw [fieldsWritable, Bool.and_eq_true, Bool.and_eq_true] at h
    rw [fieldsCode_last]
    exact (inLine_text name).append
      (inLine_cons rfl (inLine_cons rfl (inLine_value v h.2.1)))
  | (name, v) :: f :: fields, h => by
    rw [fieldsWritable, Bool.and_eq_true, Bool.and_eq_true] at h
    rw [fieldsCode_cons]
    exact (inLine_text name).append (inLine_cons rfl (inLine_cons rfl ((inLine_value v h.2.1).append
      (inLine_cons rfl (inLine_cons rfl (inLine_fields (f :: fields) h.2.2))))))
termination_by structural fields => fields

end

/-! ### Literals -/

/-- The literal of a value is read, and denotes that value only. -/
theorem datum?_value {v : Json} (hcanonical : v.IsCanonical) (h : isWritable v = true) :
    ∃ d, datum? (value v) = some d ∧ ∀ j, d.Is j ↔ j = v := by
  have hlines := unifyLines_eq (inLine_value v h).not_mem.2
  have hread := datumAt?_value v _ [] h (Nat.le_refl _) fun c hc => nomatch hc
  rw [List.append_nil] at hread
  refine ⟨datum v, ?_, is_datum_iff v hcanonical h⟩
  simp only [datum?, hlines, hread]
  rfl

/-- A list of texts is written as an array of them is. -/
theorem list_eq_value (items : List String) : list items = value (.array (items.map .string)) := by
  have hitems : valueItems (items.map .string) = items.map text := by
    induction items with
    | nil => rfl
    | cons s rest ih => rw [List.map_cons, valueItems, value, ih, List.map_cons]
  rw [list, value, hitems]

theorem areWritable_strings {items : List String} (h : ∀ s ∈ items, '\x00' ∉ s.toList) :
    areWritable (items.map .string) = true := by
  induction items with
  | nil => rfl
  | cons s rest ih =>
    rw [List.forall_mem_cons] at h
    simp [areWritable, isWritable, h.1, ih h.2]

/-- Texts, values and lists of texts are read back from their literals.  A text without a zero
  character is one literal in single quotes and in one line, which ends with its closing quote.
  It denotes the text, whatever code is behind it, unless the text is empty and another single
  quote follows: then there are three quotes, which open a long literal. -/
theorem literals_read_back :
    (∀ s : String, '\x00' ∉ s.toList →
      (∀ rest, read? (text s ++ rest) = some (s, unified rest)
          ↔ ¬ (s = "" ∧ rest.toList.head? = some '\''))
        ∧ (text s).toList.head? = some '\'' ∧ (text s).toList.getLast? = some '\''
        ∧ InLine (text s).toList)
    ∧ (∀ v : Json, v.IsCanonical → isWritable v = true →
      ∃ d, datum? (value v) = some d ∧ ∀ j, d.Is j ↔ j = v)
    ∧ ∀ items : List String, (∀ s ∈ items, '\x00' ∉ s.toList) →
      ∃ d, datum? (list items) = some d ∧ ∀ j, d.Is j ↔ j = .array (items.map .string) := by
  refine ⟨fun s hs => ⟨read?_text hs, ?_, ?_, inLine_text s⟩, fun v => datum?_value,
    fun items hitems => ?_⟩
  · rw [toList_text]
    rfl
  · rw [toList_text, ← List.cons_append, List.getLast?_concat]
  · rw [list_eq_value]
    have hcanonical : (Json.array (items.map .string)).IsCanonical :=
      Json.isCanonical_array (List.forall_mem_map.mpr fun s _ => rfl)
    exact datum?_value hcanonical (areWritable_strings hitems)

namespace Sample

/-- A filter whose text has a quote, a backslash and a line break. -/
def filter : Json :=
  .object [("condition", .string "it's\n\\"),
    ("value", .array [.int (-2), .float 1.5, .null, .bool true])]

end Sample

/-- A text before a comma, a filter and a list of two texts. -/
theorem literals_read_back_filter :
    ('\x00' ∉ "it's\n\\".toList ∧ Sample.filter.IsCanonical ∧ isWritable Sample.filter = true
        ∧ ∀ s ∈ ["a'b", ""], '\x00' ∉ s.toList)
      ∧ read? (text "it's\n\\" ++ ", 'b'") = some ("it's\n\\", ", 'b'")
      ∧ (∃ d, datum? (value Sample.filter) = some d ∧ ∀ j, d.Is j ↔ j = Sample.filter)
      ∧ ∃ d, datum? (list ["a'b", ""]) = some d
        ∧ ∀ j, d.Is j ↔ j = .array [.string "a'b", .string ""] := by
  have htext : '\x00' ∉ "it's\n\\".toList := by decide
  have hcanonical : Sample.filter.IsCanonical := rfl
  have hwritable : isWritable Sample.filter = true := by decide
  have hitems : ∀ s ∈ ["a'b", ""], '\x00' ∉ s.toList := by decide
  obtain ⟨htexts, hvalues, hlists⟩ := literals_read_back
  have hrest : unified ", 'b'" = ", 'b'" := unified_eq (by decide)
  refine ⟨⟨htext, hcanonical, hwritable, hitems⟩, ?_, hvalues _ hcanonical hwritable,
    hlists _ hitems⟩
  have hread := ((htexts _ htext).1 ", 'b'").mpr (by simp)
  rw [hrest] at hread
  exact hread

/-- A text in quotes behind the literal of the empty text changes how that is read: the two
  are one long literal that has no end. -/
theorem empty_literal_read_on :
    text "" = "''" ∧ text "x" = "'x'" ∧ '\x00' ∉ "".toList
      ∧ read? (text "") = some ("", "") ∧ read? (text "" ++ text "x") = none := by
  decide

end Literal

end SheetScript
