import Mathlib.Logic.Function.Iterate
import SheetScript.Proofs.Formula.Grammar
import SheetScript.Proofs.Formula.Neighbours

/-! # The descent of the formula readers

  The readers of formulas call each other, and each call is one step deeper.  That they come to
  an end cannot be seen from their results alone, since a reader without steps left refuses the
  tokens as if they had ended.  So the readers are taken apart: `Readers.next` says what one step
  makes of any readers whatever, and the readers of `n` steps are `n` such steps on top of readers
  that refuse everything.

  Main statements: on tokens for which `n` steps are enough, nothing depends on what stands below
  the `n` steps (`Readers.agree`); with enough steps for every list of tokens the readers meet the
  equations of the descent without any count (`Readers.next_settled`).
-/

namespace SheetScript.Formula

/-- A reader for each kind of phrase. -/
@[ext] structure Readers where
  level : Level → List Token → Except FormulaError (Formula × List Token)
  chain : Level → Formula → List Token → Except FormulaError (Formula × List Token)
  operand : Level → List Token → Except FormulaError (Formula × List Token)
  power : List Token → Except FormulaError (Formula × List Token)
  signed : List Token → Except FormulaError (Formula × List Token)
  primary : List Token → Except FormulaError (Formula × List Token)
  arguments : List Token → Except FormulaError (List Formula × List Token)
  someArguments : List Token → Except FormulaError (List Formula × List Token)

namespace Readers

/-- The readers of `n` steps. -/
def ofSteps (headers : List Header) (n : Nat) : Readers where
  level := Formula.level headers n
  chain := Formula.chain headers n
  operand := Formula.operand headers n
  power := Formula.power headers n
  signed := Formula.signed headers n
  primary := Formula.primary headers n
  arguments := Formula.arguments headers n
  someArguments := Formula.someArguments headers n

/-- One step on top of given readers. -/
def next (headers : List Header) (r : Readers) : Readers where
  level l ts := do
    let (first, rest) ← r.operand l ts
    r.chain l first rest
  chain l left ts :=
    match ts with
    | .operator o :: rest =>
      if o ∈ l.operators then do
        let (right, rest) ← r.operand l rest
        r.chain l (.binary o left right) rest
      else .ok (left, ts)
    | _ => .ok (left, ts)
  operand l ts :=
    match l.next with
    | some tighter => r.level tighter ts
    | none => r.power ts
  power ts := do
    let (base, rest) ← r.signed ts
    match rest with
    | .operator .power :: rest => do
      let (exponent, rest) ← r.power rest
      .ok (.binary .power base exponent, rest)
    | _ => .ok (base, rest)
  signed ts :=
    match ts with
    | .operator .subtract :: rest => do
      let (e, rest) ← r.signed rest
      .ok (.negate e, rest)
    | .operator .add :: rest => r.signed rest
    | _ => r.primary ts
  primary ts :=
    match ts with
    | [] => .error .endedEarly
    | .number x :: rest => .ok (.number x, rest)
    | .text s :: rest => .ok (.text s, rest)
    | .quotedName h :: rest =>
      if h ∈ headers then .ok (.column h, rest) else .error (.unknownColumn h)
    | .opening :: rest => do
      let (e, rest) ← r.level .comparison rest
      let rest ← close rest
      .ok (e, rest)
    | .name name :: .opening :: rest =>
      match Function.ofName? name with
      | none => .error (.unknownFunction name)
      | some f => do
        let (args, rest) ← r.arguments rest
        let rest ← close rest
        let e ← checkedCall f name args
        .ok (e, rest)
    | .name name :: rest => do
      let e ← resolveName headers name
      .ok (e, rest)
    | t :: _ => .error (.unexpected t)
  arguments ts :=
    match ts with
    | [] => .ok ([], [])
    | .closing :: _ => .ok ([], ts)
    | _ => r.someArguments ts
  someArguments ts := do
    let (e, rest) ← r.level .comparison ts
    match rest with
    | .comma :: rest => do
      let (more, rest) ← r.someArguments rest
      .ok (e :: more, rest)
    | _ => .ok ([e], rest)

/-- A step more is a step on top. -/
theorem ofSteps_succ (headers : List Header) (n : Nat) :
    ofSteps headers (n + 1) = next headers (ofSteps headers n) := by
  simp only [ofSteps, next, Readers.mk.injEq]
  refine ⟨?_, ?_, ?_, ?_, ?_, ?_, ?_, ?_⟩
  all_goals
    funext
    rfl

/-- What the readers of `n` steps answer, on top of given ones. -/
theorem iterate_next_ofSteps (headers : List Header) (m n : Nat) :
    (next headers)^[n] (ofSteps headers m) = ofSteps headers (m + n) := by
  induction n with
  | zero => rfl
  | succ n ih => rw [Function.iterate_succ_apply', ih, ← ofSteps_succ, Nat.add_assoc]

/-! ### Steps that are enough -/

/-- Readers that answer alike on all tokens for which `n` steps are enough.  A token is worth
  sixteen steps: the longest way from one token to the next leads through all levels. -/
structure Agree (n : Nat) (r r' : Readers) : Prop where
  level {l ts} : 16 * ts.length + 11 ≤ n + 2 * l.strength → r.level l ts = r'.level l ts
  chain {l left ts} : 16 * ts.length + 1 ≤ n → r.chain l left ts = r'.chain l left ts
  operand {l ts} : 16 * ts.length + 10 ≤ n + 2 * l.strength → r.operand l ts = r'.operand l ts
  power {ts} : 16 * ts.length + 3 ≤ n → r.power ts = r'.power ts
  signed {ts} : 16 * ts.length + 2 ≤ n → r.signed ts = r'.signed ts
  primary {ts} : 16 * ts.length + 1 ≤ n → r.primary ts = r'.primary ts
  arguments {ts} : 16 * ts.length + 13 ≤ n → r.arguments ts = r'.arguments ts
  someArguments {ts} : 16 * ts.length + 12 ≤ n → r.someArguments ts = r'.someArguments ts

variable {headers : List Header} {n m : Nat} {r r' : Readers}

/-- Computations go on alike if they do so from every result. -/
theorem bind_congr_ok {α β : Type} {x : Except FormulaError α} {f g : α → Except FormulaError β}
    (h : ∀ a, x = .ok a → f a = g a) : (x >>= f) = (x >>= g) := by
  cases x with
  | error e => rfl
  | ok a => exact h a rfl

/-- Readers that agree for `n` steps agree for one more with a step on top.  What the second ones
  leave of the tokens is known only as far as they agree with the first. -/
theorem Agree.next (h : Agree n (ofSteps headers m) r') :
    Agree (n + 1) (Readers.next headers (ofSteps headers m)) (Readers.next headers r') := by
  -- a call that takes no token goes to a reader of less strength, and every token that is
  -- taken pays for sixteen calls
  have hjoin := readersJoin headers m
  constructor
  case level =>
    intro l ts hn
    simp only [Readers.next]
    rw [← h.operand (by omega)]
    refine bind_congr_ok fun ⟨first, rest⟩ hfirst => ?_
    have hle := (hjoin.operand hfirst).suffix.length_le
    have hstrength := l.strength_le
    exact h.chain (show 16 * rest.length + 1 ≤ n by omega)
  case chain =>
    intro l left ts hn
    cases ts with
    | nil => rfl
    | cons t rest =>
      rw [List.length_cons] at hn
      cases t with
      | operator o =>
        simp only [Readers.next]
        split
        · rw [← h.operand (by omega)]
          refine bind_congr_ok fun ⟨right, rest'⟩ hright => ?_
          have hle := (hjoin.operand hright).suffix.length_le
          exact h.chain (show 16 * rest'.length + 1 ≤ n by omega)
        · rfl
      | _ => rfl
  case operand =>
    intro l ts hn
    simp only [Readers.next]
    split
    · next tighter htighter =>
      have hstrength := strength_of_next htighter
      exact h.level (by omega)
    · next hnone =>
      have hstrength := strength_of_next_eq_none hnone
      exact h.power (by omega)
  case power =>
    intro ts hn
    simp only [Readers.next]
    rw [← h.signed (by omega)]
    refine bind_congr_ok fun ⟨base, rest⟩ hbase => ?_
    have hle := (hjoin.signed hbase).suffix.length_le
    dsimp only
    split
    · rw [List.length_cons] at hle
      rw [← h.power (by omega)]
    · rfl
  case signed =>
    intro ts hn
    simp only [Readers.next]
    split
    · rw [List.length_cons] at hn
      rw [← h.signed (by omega)]
    · rw [List.length_cons] at hn
      exact h.signed (by omega)
    · exact h.primary (by omega)
  case primary =>
    intro ts hn
    simp only [Readers.next]
    split
    case h_5 =>
      rw [List.length_cons] at hn
      rw [← h.level (by omega)]
    case h_6 =>
      rw [List.length_cons, List.length_cons] at hn
      split
      · rfl
      · rw [← h.arguments (by omega)]
    all_goals rfl
  case arguments =>
    intro ts hn
    simp only [Readers.next]
    split
    · rfl
    · rfl
    · exact h.someArguments (by omega)
  case someArguments =>
    intro ts hn
    simp only [Readers.next]
    rw [← h.level (by omega)]
    refine bind_congr_ok fun ⟨first, rest⟩ hfirst => ?_
    have hle := (hjoin.level hfirst).suffix.length_le
    dsimp only
    split
    · rw [List.length_cons] at hle
      rw [← h.someArguments (by omega)]
    · rfl

/-- Where `n` steps are enough, nothing depends on the readers below them. -/
theorem agree (headers : List Header) (n : Nat) (r : Readers) :
    Agree n (ofSteps headers n) ((next headers)^[n] r) := by
  induction n with
  | zero =>
    -- every reader needs a step
    have hstrength := Level.strength_le
    constructor <;> intros <;> grind
  | succ n ih =>
    rw [ofSteps_succ, Function.iterate_succ_apply']
    exact ih.next

/-- Where `n` steps are enough, more steps change nothing. -/
theorem agree_of_le (hnm : n ≤ m) : Agree n (ofSteps headers n) (ofSteps headers m) := by
  have h := agree headers n (ofSteps headers (m - n))
  rwa [iterate_next_ofSteps, Nat.sub_add_cancel hnm] at h

/-! ### Enough steps for all tokens -/

/-- Readers with steps enough for every list of tokens. -/
def settled (headers : List Header) : Readers where
  level l ts := Formula.level headers (16 * (ts.length + 1)) l ts
  chain l left ts := Formula.chain headers (16 * (ts.length + 1)) l left ts
  operand l ts := Formula.operand headers (16 * (ts.length + 1)) l ts
  power ts := Formula.power headers (16 * (ts.length + 1)) ts
  signed ts := Formula.signed headers (16 * (ts.length + 1)) ts
  primary ts := Formula.primary headers (16 * (ts.length + 1)) ts
  arguments ts := Formula.arguments headers (16 * (ts.length + 1)) ts
  someArguments ts := Formula.someArguments headers (16 * (ts.length + 1)) ts

theorem Agree.of_common {s : Readers} (h : Agree n s r) (h' : Agree n s r') : Agree n r r' where
  level hn := (h.level hn).symm.trans (h'.level hn)
  chain hn := (h.chain hn).symm.trans (h'.chain hn)
  operand hn := (h.operand hn).symm.trans (h'.operand hn)
  power hn := (h.power hn).symm.trans (h'.power hn)
  signed hn := (h.signed hn).symm.trans (h'.signed hn)
  primary hn := (h.primary hn).symm.trans (h'.primary hn)
  arguments hn := (h.arguments hn).symm.trans (h'.arguments hn)
  someArguments hn := (h.someArguments hn).symm.trans (h'.someArguments hn)

theorem agree_settled (headers : List Header) (n : Nat) :
    Agree n (ofSteps headers n) (settled headers) := by
  have hboth {k m : Nat} (hn : k ≤ n) (hm : k ≤ m) :
      Agree k (ofSteps headers n) (ofSteps headers m) :=
    (agree_of_le hn).of_common (agree_of_le hm)
  constructor
  case level =>
    intro l ts hn
    have hagree := hboth (k := 16 * ts.length + 11 - 2 * l.strength)
      (m := 16 * (ts.length + 1)) (by omega) (by omega)
    exact hagree.level (by omega)
  case operand =>
    intro l ts hn
    have hagree := hboth (k := 16 * ts.length + 10 - 2 * l.strength)
      (m := 16 * (ts.length + 1)) (by omega) (by omega)
    exact hagree.operand (by omega)
  case chain => exact fun hn => (hboth hn (by omega)).chain (Nat.le_refl _)
  case power => exact fun hn => (hboth hn (by omega)).power (Nat.le_refl _)
  case signed => exact fun hn => (hboth hn (by omega)).signed (Nat.le_refl _)
  case primary => exact fun hn => (hboth hn (by omega)).primary (Nat.le_refl _)
  case arguments => exact fun hn => (hboth hn (by omega)).arguments (Nat.le_refl _)
  case someArguments => exact fun hn => (hboth hn (by omega)).someArguments (Nat.le_refl _)

/-- The readers meet the equations of the descent. -/
theorem next_settled (headers : List Header) :
    next headers (settled headers) = settled headers := by
  have h (ts : List Token) : Agree (16 * (ts.length + 1)) (ofSteps headers (16 * (ts.length + 1)))
      (next headers (settled headers)) := by
    have hsteps : 16 * (ts.length + 1) = 16 * ts.length + 15 + 1 := by omega
    rw [hsteps, ofSteps_succ]
    exact (agree_settled headers _).next
  ext
  case level l ts => exact ((h ts).level (by omega)).symm
  case operand l ts => exact ((h ts).operand (by omega)).symm
  case chain l left ts => exact ((h ts).chain (by omega)).symm
  case power ts => exact ((h ts).power (by omega)).symm
  case signed ts => exact ((h ts).signed (by omega)).symm
  case primary ts => exact ((h ts).primary (by omega)).symm
  case arguments ts => exact ((h ts).arguments (by omega)).symm
  case someArguments ts => exact ((h ts).someArguments (by omega)).symm

/-- No list of tokens keeps the readers descending: with its number of steps or more the answer is
  the same, whatever stands below these steps. -/
theorem level_settled (headers : List Header) (l : Level) (ts : List Token) (below : Readers)
    (hn : 16 * (ts.length + 1) ≤ n) :
    ((next headers)^[n] below).level l ts = (settled headers).level l ts := by
  have hagree := (agree headers n below).of_common (agree_settled headers n)
  exact hagree.level (by omega)

end Readers

end SheetScript.Formula
