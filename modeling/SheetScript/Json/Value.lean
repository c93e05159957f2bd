import SheetScript.Dictionary

/-!
# JSON values

  The data format of parameters, saved analyses and settings.  Whole numbers are
  kept apart from floating-point ones.  The fields of an object are a dictionary
  once the value is canonical; a text may give a field twice, and then the last
  one counts.
-/

namespace SheetScript

/-- A JSON value. -/
inductive Json where
  | null
  | bool (b : Bool)
  /-- A number written without point and exponent. -/
  | int (n : Int)
  /-- Any other number. -/
  | float (x : Float)
  | string (s : String)
  | array (items : List Json)
  | object (fields : List (String × Json))
  deriving Inhabited, Repr

namespace Json

/-- The smallest and the largest whole number of a JSON value. -/
def leastInt : Int := -0x8000000000000000

@[inherit_doc leastInt]
def greatestInt : Int := 0xFFFFFFFFFFFFFFFF

/-- A field of an object. -/
def field? (j : Json) (name : String) : Option Json :=
  match j with
  | .object fields => Dictionary.get? fields name
  | _ => none

/-- The fields of an object. -/
def fields? : Json → Option (List (String × Json))
  | .object fields => some fields
  | _ => none

/-- The items of an array. -/
def items? : Json → Option (List Json)
  | .array items => some items
  | _ => none

/-- The text of a string. -/
def string? : Json → Option String
  | .string s => some s
  | _ => none

/-- The truth value of a boolean. -/
def bool? : Json → Option Bool
  | .bool b => some b
  | _ => none

/-- A whole number that fits an unsigned word of 64 bits. -/
def index? : Json → Option Nat
  | .int (.ofNat n) => if n < 0x10000000000000000 then some n else none
  | _ => none

/-- A whole number that fits an unsigned word of 32 bits. -/
def word32? (j : Json) : Option Nat := j.index?.bind fun n => if n < 0x100000000 then some n else none

/-- A whole number that fits a signed word of 64 bits. -/
def int64? : Json → Option Int
  | .int n => if -0x8000000000000000 ≤ n ∧ n < 0x8000000000000000 then some n else none
  | _ => none

mutual

/-- The value with the fields of every object in order, the last of equal names
  kept. -/
def canonical : Json → Json
  | .array items => .array (canonicalItems items)
  | .object fields => .object (Dictionary.ofList (canonicalFields fields))
  | j => j

/-- The items in canonical form. -/
def canonicalItems : List Json → List Json
  | [] => []
  | j :: rest => canonical j :: canonicalItems rest

/-- The fields with their values in canonical form. -/
def canonicalFields : List (String × Json) → List (String × Json)
  | [] => []
  | (name, j) :: rest => (name, canonical j) :: canonicalFields rest

end

/-- An object of the given fields. -/
def ofFields (fields : List (String × Json)) : Json := .object (Dictionary.ofList fields)

end Json

end SheetScript
