import SheetScript.Json.Value

/-!
# Reading records

  A record with named fields is written as an object, whose other fields are
  ignored, or as the array of its fields in their order.  A field that is given
  twice is refused.  A variant without contents is written as its name, or as an
  object that maps the name to `null`.
-/

namespace SheetScript.Json

/-- The fields of a record, as far as they are given. -/
structure Record where
  given : List (String × Json)
  deriving Inhabited, Repr

/-- The fields of a record with the given field names. -/
def record? (names : List String) : Json → Option Record
  | .object fields =>
    let known := fields.filter fun f => f.1 ∈ names
    if (known.map Prod.fst).eraseDups.length == known.length then some ⟨known⟩ else none
  | .array items => if items.length ≤ names.length then some ⟨names.zip items⟩ else none
  | _ => none

namespace Record

variable {α : Type}

/-- The value of a field. -/
def get? (r : Record) (name : String) : Option Json := Dictionary.get? r.given name

/-- A field that has to be given. -/
def need (r : Record) (name : String) (read : Json → Option α) : Option α :=
  (r.get? name).bind read

/-- A field that takes a default when it is not given. -/
def orElse (r : Record) (name : String) (default : α) (read : Json → Option α) : Option α :=
  match r.get? name with
  | none => some default
  | some j => read j

/-- A field that may be absent or `null`. -/
def optional (r : Record) (name : String) (read : Json → Option α) : Option (Option α) :=
  match r.get? name with
  | none | some .null => some none
  | some j => (read j).map some

end Record

/-- The name of a variant without contents. -/
def variant? : Json → Option String
  | .string name => some name
  | .object [(name, .null)] => some name
  | _ => none

/-- A list of values of one kind. -/
def listOf? {α : Type} (read : Json → Option α) (j : Json) : Option (List α) :=
  j.items?.bind fun items => items.mapM read

/-- A list of texts. -/
def texts? (j : Json) : Option (List String) := listOf? string? j

/-- A dictionary of values of one kind; of two equal keys the last counts. -/
def dictionaryOf? {α : Type} (read : Json → Option α) (j : Json) : Option (Dictionary String α) :=
  (j.fields?.bind fun fields => fields.mapM fun f => (read f.2).map fun a => (f.1, a)).map
    Dictionary.ofList

/-- A text, or `null` for none. -/
def ofOption : Option String → Json
  | some s => .string s
  | none => .null

/-- A list of texts. -/
def ofTexts (ss : List String) : Json := .array (ss.map .string)

/-- A natural number. -/
def ofNat (n : Nat) : Json := .int n

end SheetScript.Json
