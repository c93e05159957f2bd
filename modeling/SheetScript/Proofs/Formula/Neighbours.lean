import SheetScript.Formula.Parser
import SheetScript.Proofs.Outcomes
import Mathlib.Data.List.Chain

/-! # Tokens side by side

  A formula in which two operands stood side by side would not be read.  So between the end
  of an operand and the beginning of another there is an operator, a comma or a bracket; only
  the name of a function stands in front of its opening bracket.

  Main statement: `Formula.mayPrecede_of_level`.
-/

namespace SheetScript.Formula

/-! ### Which tokens may stand next to each other -/

/-- Whether an operand can end with a token. -/
def Token.endsOperand : Token → Bool
  | .number _ | .text _ | .name _ | .quotedName _ | .closing => true
  | _ => false

/-- Whether an operand can begin with a token. -/
def Token.beginsOperand : Token → Bool
  | .number _ | .text _ | .name _ | .quotedName _ | .opening => true
  | _ => false

/-- Whether a token may stand in front of another: not where an operand ends and the next
  one begins, unless a function is called there. -/
def Token.MayPrecede (a b : Token) : Prop :=
  a.endsOperand = true → b.beginsOperand = true → (∃ s, a = .name s) ∧ b = .opening

variable {ts mid rest : List Token} {a : Token}

/-- The tokens in front of `rest` may stand next to each other. -/
def Joined (ts rest : List Token) : Prop :=
  ∃ used, ts = used ++ rest ∧ used.IsChain Token.MayPrecede

/-- The tokens in front of `rest` may stand next to each other and behind an operand. -/
def Continued (ts rest : List Token) : Prop :=
  ∃ used, ts = used ++ rest ∧ used.IsChain Token.MayPrecede
    ∧ ∀ b ∈ used.head?, b.beginsOperand = false

namespace Joined

theorem nil (ts : List Token) : Joined ts ts := ⟨[], rfl, .nil⟩

theorem single (a : Token) (rest : List Token) : Joined (a :: rest) rest :=
  ⟨[a], rfl, .singleton a⟩

theorem suffix (h : Joined ts rest) : rest <:+ ts := by
  obtain ⟨used, rfl, -⟩ := h
  exact List.suffix_append _ _

theorem behind (ha : a.endsOperand = false) (h : Joined ts rest) : Joined (a :: ts) rest := by
  obtain ⟨used, rfl, hused⟩ := h
  refine ⟨a :: used, rfl, List.isChain_cons.mpr ⟨fun b _ hends => ?_, hused⟩⟩
  rw [ha] at hends
  cases hends

theorem continued (ha : a.endsOperand = false) (hbegins : a.beginsOperand = false)
    (h : Joined ts rest) : Continued (a :: ts) rest := by
  obtain ⟨used, rfl, hused⟩ := h
  refine ⟨a :: used, rfl, List.isChain_cons.mpr ⟨fun b _ hends => ?_, hused⟩, fun b hb => ?_⟩
  · rw [ha] at hends
    cases hends
  · exact Option.some.inj hb ▸ hbegins

theorem called (s : String) (h : Joined ts rest) : Joined (.name s :: .opening :: ts) rest := by
  obtain ⟨used, rfl, hused⟩ := h
  have hopening : (Token.opening :: used).IsChain Token.MayPrecede :=
    List.isChain_cons.mpr ⟨fun b _ hends => (nomatch hends), hused⟩
  exact ⟨.name s :: .opening :: used, rfl,
    List.isChain_cons_cons.mpr ⟨fun _ _ => ⟨⟨s, rfl⟩, rfl⟩, hopening⟩⟩

end Joined

theorem isChain_append {used more : List Token} (hused : used.IsChain Token.MayPrecede)
    (hmore : more.IsChain Token.MayPrecede) (hhead : ∀ b ∈ more.head?, b.beginsOperand = false) :
    (used ++ more).IsChain Token.MayPrecede := by
  refine hused.append hmore fun a _ b hb _ hbegins => ?_
  rw [hhead b hb] at hbegins
  cases hbegins

theorem Continued.nil (ts : List Token) : Continued ts ts := ⟨[], rfl, .nil, nofun⟩

theorem Joined.append (h : Joined ts mid) (hmid : Continued mid rest) : Joined ts rest := by
  obtain ⟨used, rfl, hused⟩ := h
  obtain ⟨more, rfl, hmore, hhead⟩ := hmid
  exact ⟨used ++ more, (List.append_assoc ..).symm, isChain_append hused hmore hhead⟩

theorem Continued.append (h : Continued ts mid) (hmid : Continued mid rest) :
    Continued ts rest := by
  obtain ⟨used, rfl, hused, hhead⟩ := h
  obtain ⟨more, rfl, hmore, hhead'⟩ := hmid
  refine ⟨used ++ more, (List.append_assoc ..).symm, isChain_append hused hmore hhead', ?_⟩
  cases used with
  | nil => exact hhead'
  | cons a used => exact hhead

/-! ### What is read is joined -/

theorem continued_of_close (h : close ts = .ok rest) : Continued ts rest := by
  unfold close at h
  split at h
  · cases h
    exact .nil []
  · cases h
    exact ⟨[.closing], rfl, .singleton _, fun b hb => Option.some.inj hb ▸ rfl⟩
  · cases h

/-- What every reader of `n` steps takes from the tokens. -/
structure ReadersJoin (headers : List Header) (n : Nat) : Prop where
  level {l ts e rest} : level headers n l ts = .ok (e, rest) → Joined ts rest
  chain {l left ts e rest} : chain headers n l left ts = .ok (e, rest) → Continued ts rest
  operand {l ts e rest} : operand headers n l ts = .ok (e, rest) → Joined ts rest
  power {ts e rest} : power headers n ts = .ok (e, rest) → Joined ts rest
  signed {ts e rest} : signed headers n ts = .ok (e, rest) → Joined ts rest
  primary {ts e rest} : primary headers n ts = .ok (e, rest) → Joined ts rest
  arguments {ts args rest} : arguments headers n ts = .ok (args, rest) → Joined ts rest
  someArguments {ts args rest} : someArguments headers n ts = .ok (args, rest) → Joined ts rest

theorem readersJoin (headers : List Header) (n : Nat) : ReadersJoin headers n := by
  -- the readers call each other, so all of them are followed at once
  induction n with
  | zero => constructor <;> intros <;> rename_i h <;> cases h
  | succ n ih =>
    constructor
    case level =>
      intro l ts e rest h
      simp only [level, bind_eq_ok] at h
      obtain ⟨⟨first, mid⟩, hfirst, hchain⟩ := h
      exact (ih.operand hfirst).append (ih.chain hchain)
    case chain =>
      intro l left ts e rest h
      unfold Formula.chain at h
      split at h
      · split at h
        · simp only [bind_eq_ok] at h
          obtain ⟨⟨right, mid⟩, hright, hchain⟩ := h
          exact ((ih.operand hright).continued rfl rfl).append (ih.chain hchain)
        · cases h
          exact .nil _
      · cases h
        exact .nil _
    case operand =>
      intro l ts e rest h
      unfold Formula.operand at h
      split at h
      · exact ih.level h
      · exact ih.power h
    case power =>
      intro ts e rest h
      simp only [Formula.power, bind_eq_ok] at h
      obtain ⟨⟨base, mid⟩, hbase, h⟩ := h
      dsimp only at h
      split at h
      · simp only [bind_eq_ok] at h
        obtain ⟨⟨exponent, mid'⟩, hexponent, h⟩ := h
        cases h
        exact (ih.signed hbase).append ((ih.power hexponent).continued rfl rfl)
      · cases h
        exact ih.signed hbase
    case signed =>
      intro ts e rest h
      unfold Formula.signed at h
      split at h
      · simp only [bind_eq_ok] at h
        obtain ⟨⟨operand, mid⟩, hoperand, h⟩ := h
        cases h
        exact (ih.signed hoperand).behind rfl
      · exact (ih.signed h).behind rfl
      · exact ih.primary h
    case primary =>
      intro ts e rest h
      unfold Formula.primary at h
      split at h
      · cases h
      · cases h
        exact .single _ _
      · cases h
        exact .single _ _
      · split at h <;> cases h
        exact .single _ _
      · simp only [bind_eq_ok] at h
        obtain ⟨⟨inner, mid⟩, hinner, mid', hclose, h⟩ := h
        cases h
        exact ((ih.level hinner).append (continued_of_close hclose)).behind rfl
      · split at h
        · cases h
        · simp only [bind_eq_ok] at h
          obtain ⟨⟨args, mid⟩, hargs, mid', hclose, call, -, h⟩ := h
          cases h
          exact ((ih.arguments hargs).append (continued_of_close hclose)).called _
      · simp only [bind_eq_ok] at h
        obtain ⟨named, -, h⟩ := h
        cases h
        exact .single _ _
      · cases h
    case arguments =>
      intro ts args rest h
      unfold Formula.arguments at h
      split at h
      · cases h
        exact .nil _
      · cases h
        exact .nil _
      · exact ih.someArguments h
    case someArguments =>
      intro ts args rest h
      simp only [Formula.someArguments, bind_eq_ok] at h
      obtain ⟨⟨first, mid⟩, hfirst, h⟩ := h
      dsimp only at h
      split at h
      · simp only [bind_eq_ok] at h
        obtain ⟨⟨more, mid'⟩, hmore, h⟩ := h
        cases h
        exact (ih.level hfirst).append ((ih.someArguments hmore).continued rfl rfl)
      · cases h
        exact ih.level hfirst

/-- The tokens of a formula may stand next to each other. -/
theorem mayPrecede_of_level {headers : List Header} {n : Nat} {l : Level} {e : Formula}
    (h : level headers n l ts = .ok (e, [])) : ts.IsChain Token.MayPrecede := by
  obtain ⟨used, rfl, hused⟩ := (readersJoin headers n).level h
  rwa [List.append_nil]

theorem mayPrecede_of_ofTokens {headers : List Header} {e : Formula}
    (h : ofTokens headers ts = .ok e) : ts.IsChain Token.MayPrecede := by
  simp only [ofTokens, bind_eq_ok] at h
  obtain ⟨⟨e', rest⟩, hlevel, h⟩ := h
  dsimp only at h
  split at h
  · exact mayPrecede_of_level hlevel
  · cases h

end SheetScript.Formula
