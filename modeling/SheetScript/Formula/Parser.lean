import SheetScript.Formula.Basic

/-!
# Reading formulas

  Operators bind in six levels, from comparisons, which bind least, over `&`,
  sums and products to powers and signs.  Operators of one level group to the
  left, but for powers, which group to the right.  Brackets that are still open
  at the end of the text are closed there.

  The descent is by fuel; `Formula.ofTokens` gives it enough for every list of
  tokens.
-/

namespace SheetScript.Formula

/-- The levels whose operators group to the left. -/
inductive Level where
  | comparison
  | joining
  | sum
  | product
  deriving DecidableEq, Repr

/-- The operators of a level. -/
def Level.operators : Level → List Operator
  | .comparison => [.equal, .notEqual, .less, .greater, .lessOrEqual, .greaterOrEqual]
  | .joining => [.join]
  | .sum => [.add, .subtract]
  | .product => [.multiply, .divide]

/-- The next level that groups to the left, if there is one. -/
def Level.next : Level → Option Level
  | .comparison => some .joining
  | .joining => some .sum
  | .sum => some .product
  | .product => none

/-- A closing bracket, or the end of the tokens. -/
def close : List Token → Except FormulaError (List Token)
  | [] => .ok []
  | .closing :: rest => .ok rest
  | t :: _ => .error (.expectedClosing t)

/-- A name that stands for a column if there is one, and otherwise for a truth
  value. -/
def resolveName (headers : List Header) (name : String) : Except FormulaError Formula :=
  if name ∈ headers then .ok (.column name)
  else if Function.capitals name = "TRUE" then .ok (.bool true)
  else if Function.capitals name = "FALSE" then .ok (.bool false)
  else .error (.unknownColumn name)

/-- Whether a formula is a natural number. -/
def isNatural : Formula → Bool
  | .number x => 0 ≤ x && Decimal.isWhole x
  | _ => false

/-- A call with its arguments checked. -/
def checkedCall (f : Function) (name : String) (args : List Formula) : Except FormulaError Formula :=
  if !f.accepts args.length then
    .error (.argumentCount (Function.capitals name) f.arityText args.length)
  else if f = .round && !(args[1]?.all isNatural) then .error .roundDigits
  else .ok (.call f args)

mutual

/-- Operands of a level with its operators between them. -/
def level (headers : List Header) :
    Nat → Level → List Token → Except FormulaError (Formula × List Token)
  | 0, _, _ => .error .endedEarly
  | fuel + 1, l, ts => do
    let (first, rest) ← operand headers fuel l ts
    chain headers fuel l first rest

/-- What follows an operand of a level. -/
def chain (headers : List Header) :
    Nat → Level → Formula → List Token → Except FormulaError (Formula × List Token)
  | 0, _, _, _ => .error .endedEarly
  | fuel + 1, l, left, ts =>
    match ts with
    | .operator o :: rest =>
      if o ∈ l.operators then do
        let (right, rest) ← operand headers fuel l rest
        chain headers fuel l (.binary o left right) rest
      else .ok (left, ts)
    | _ => .ok (left, ts)

/-- An operand of a level. -/
def operand (headers : List Header) :
    Nat → Level → List Token → Except FormulaError (Formula × List Token)
  | 0, _, _ => .error .endedEarly
  | fuel + 1, l, ts =>
    match l.next with
    | some tighter => level headers fuel tighter ts
    | none => power headers fuel ts

/-- A signed operand with an optional exponent. -/
def power (headers : List Header) : Nat → List Token → Except FormulaError (Formula × List Token)
  | 0, _ => .error .endedEarly
  | fuel + 1, ts => do
    let (base, rest) ← signed headers fuel ts
    match rest with
    | .operator .power :: rest => do
      let (exponent, rest) ← power headers fuel rest
      .ok (.binary .power base exponent, rest)
    | _ => .ok (base, rest)

/-- An operand behind any number of signs. -/
def signed (headers : List Header) : Nat → List Token → Except FormulaError (Formula × List Token)
  | 0, _ => .error .endedEarly
  | fuel + 1, ts =>
    match ts with
    | .operator .subtract :: rest => do
      let (e, rest) ← signed headers fuel rest
      .ok (.negate e, rest)
    | .operator .add :: rest => signed headers fuel rest
    | _ => primary headers fuel ts

/-- A constant, a column, a call or a formula in brackets. -/
def primary (headers : List Header) : Nat → List Token → Except FormulaError (Formula × List Token)
  | 0, _ => .error .endedEarly
  | fuel + 1, ts =>
    match ts with
    | [] => .error .endedEarly
    | .number x :: rest => .ok (.number x, rest)
    | .text s :: rest => .ok (.text s, rest)
    | .quotedName h :: rest =>
      if h ∈ headers then .ok (.column h, rest) else .error (.unknownColumn h)
    | .opening :: rest => do
      let (e, rest) ← level headers fuel .comparison rest
      let rest ← close rest
      .ok (e, rest)
    | .name name :: .opening :: rest =>
      match Function.ofName? name with
      | none => .error (.unknownFunction name)
      | some f => do
        let (args, rest) ← arguments headers fuel rest
        let rest ← close rest
        let e ← checkedCall f name args
        .ok (e, rest)
    | .name name :: rest => do
      let e ← resolveName headers name
      .ok (e, rest)
    | t :: _ => .error (.unexpected t)

/-- The arguments of a call, up to its closing bracket. -/
def arguments (headers : List Header) :
    Nat → List Token → Except FormulaError (List Formula × List Token)
  | 0, _ => .error .endedEarly
  | fuel + 1, ts =>
    match ts with
    | [] => .ok ([], [])
    | .closing :: _ => .ok ([], ts)
    | _ => someArguments headers fuel ts

/-- One argument or more, with commas between them. -/
def someArguments (headers : List Header) :
    Nat → List Token → Except FormulaError (List Formula × List Token)
  | 0, _ => .error .endedEarly
  | fuel + 1, ts => do
    let (e, rest) ← level headers fuel .comparison ts
    match rest with
    | .comma :: rest => do
      let (more, rest) ← someArguments headers fuel rest
      .ok (e :: more, rest)
    | _ => .ok ([e], rest)

end

/-- The formula that a list of tokens writes over the given headers. -/
def ofTokens (headers : List Header) (ts : List Token) : Except FormulaError Formula := do
  let (e, rest) ← level headers (16 * (ts.length + 1)) .comparison ts
  match rest with
  | [] => .ok e
  | t :: _ => .error (.leftOver t)

/-- The characters of a formula after its optional equals sign. -/
def body (text : String) : List Char :=
  match Text.trimList text.toList with
  | '=' :: rest => rest
  | cs => cs

/-- The formula that a text writes over the given headers; a blank one is
  zero. -/
def parse (text : String) (headers : List Header) : Except FormulaError Formula :=
  let cs := body text
  if cs.all Text.isBlank then .ok (.number 0)
  else do
    let ts ← tokens cs
    ofTokens headers ts

end SheetScript.Formula
