import SheetScript.Proofs.Formula.Descent
import SheetScript.Proofs.Formula.Retitling

/-! # Which tokens are formulas

  The readers of formulas accept what the grammar derives, and give the formula that it derives.
  Soundness is by induction on the steps of the readers.  Completeness is by induction on the
  derivation.  A phrase whose operators group to the left is derived from its end, while the
  readers start at its beginning; therefore the induction says how far a reader of a level has come
  behind a part of its phrase (`ReadBy`).

  Main statement: `Formula.ofTokens_eq_ok_iff`.
-/

namespace SheetScript.Formula

variable {headers : List Header} {k n : Nat} {ts us mid rest zs : List Token} {e : Formula}
  {l : Level} {t : Token}

/-! ### What is read is derived -/

/-- The tokens that were read from `ts` up to `rest` write a formula of strength `k`. -/
def WrittenUpTo (headers : List Header) (k : Nat) (ts : List Token) (e : Formula)
    (rest : List Token) : Prop :=
  ∃ zs, Supplied zs ts rest ∧ Derives headers k zs e

/-- The tokens that were read from `ts` up to `rest` write the arguments of a call. -/
def ListedUpTo (headers : List Header) (ts : List Token) (args : List Formula) (rest : List Token) :
    Prop :=
  ∃ parts : List (List Token × Formula),
    Supplied ([Token.comma].intercalate (parts.map Prod.fst)) ts rest ∧
      (∀ a ∈ parts, Derives headers 0 a.1 a.2) ∧ parts.map Prod.snd = args

namespace WrittenUpTo

theorem weaken (h : WrittenUpTo headers (k + 1) ts e rest) : WrittenUpTo headers k ts e rest := by
  obtain ⟨zs, hzs, hd⟩ := h
  exact ⟨zs, hzs, .weaken hd⟩

theorem single (h : Derives headers k [t] e) : WrittenUpTo headers k (t :: rest) e rest :=
  ⟨[t], .token t (.nil rest), h⟩

theorem listed (h : WrittenUpTo headers 0 ts e rest) : ListedUpTo headers ts [e] rest := by
  obtain ⟨zs, hzs, hd⟩ := h
  refine ⟨[(zs, e)], ?_, List.forall_mem_singleton.mpr hd, rfl⟩
  rwa [List.map_singleton, List.intercalate_singleton]

end WrittenUpTo

theorem ListedUpTo.cons {args : List Formula} (h : WrittenUpTo headers 0 ts e (.comma :: mid))
    (hmore : ListedUpTo headers mid args rest) (hne : args ≠ []) :
    ListedUpTo headers ts (e :: args) rest := by
  obtain ⟨zs, hzs, hd⟩ := h
  obtain ⟨parts, hparts, hds, rfl⟩ := hmore
  refine ⟨(zs, e) :: parts, ?_, List.forall_mem_cons.mpr ⟨hd, hds⟩, rfl⟩
  rw [List.map_cons, List.intercalate_cons_of_ne_nil (by simpa using hne), List.append_assoc]
  exact hzs.append (.token _ hparts)

theorem callable_of_checkedCall {f : Function} {name : String} {args : List Formula}
    (h : checkedCall f name args = .ok e) : Callable f args ∧ e = .call f args := by
  unfold checkedCall at h
  split at h
  · cases h
  · next haccepts =>
    split at h
    · cases h
    · next hround =>
      cases h
      refine ⟨⟨by simpa using haccepts, ?_⟩, rfl⟩
      rintro rfl digits hdigits
      have hnatural : isNatural digits = true := by
        rw [Option.mem_def] at hdigits
        simpa [hdigits] using hround
      cases digits with
      | number x => exact ⟨x, rfl, by simpa [isNatural] using hnatural⟩
      | _ => cases hnatural

theorem derives_of_resolveName {name : String} (h : resolveName headers name = .ok e) :
    Derives headers 6 [.name name] e := by
  unfold resolveName at h
  split at h
  · next hmem =>
    cases h
    exact .column hmem
  · next hmem =>
    split at h
    · next htrue =>
      cases h
      exact .truth true hmem htrue
    · split at h
      · next hfalse =>
        cases h
        exact .truth false hmem hfalse
      · cases h

/-- What every reader of `n` steps reads is derived.  A chain makes a longer phrase of the phrase
  that stands in front of it. -/
structure ReadersSound (headers : List Header) (n : Nat) : Prop where
  level : ∀ {l ts e rest}, level headers n l ts = .ok (e, rest) →
    WrittenUpTo headers l.strength ts e rest
  chain : ∀ {l left ts e rest}, chain headers n l left ts = .ok (e, rest) →
    ∃ zs, Supplied zs ts rest ∧
      ∀ us, Derives headers l.strength us left → Derives headers l.strength (us ++ zs) e
  operand : ∀ {l ts e rest}, operand headers n l ts = .ok (e, rest) →
    WrittenUpTo headers (l.strength + 1) ts e rest
  power : ∀ {ts e rest}, power headers n ts = .ok (e, rest) → WrittenUpTo headers 4 ts e rest
  signed : ∀ {ts e rest}, signed headers n ts = .ok (e, rest) → WrittenUpTo headers 5 ts e rest
  primary : ∀ {ts e rest}, primary headers n ts = .ok (e, rest) → WrittenUpTo headers 6 ts e rest
  arguments : ∀ {ts args rest}, arguments headers n ts = .ok (args, rest) →
    ListedUpTo headers ts args rest
  someArguments : ∀ {ts args rest}, someArguments headers n ts = .ok (args, rest) →
    ListedUpTo headers ts args rest ∧ args ≠ []

namespace ReadersSound

theorem level_succ (ih : ReadersSound headers n)
    (h : Formula.level headers (n + 1) l ts = .ok (e, rest)) :
    WrittenUpTo headers l.strength ts e rest := by
  simp only [Formula.level, bind_eq_ok] at h
  obtain ⟨⟨first, mid⟩, hfirst, hchain⟩ := h
  obtain ⟨zs, hzs, hd⟩ := ih.operand hfirst
  obtain ⟨us, hus, hextend⟩ := ih.chain hchain
  exact ⟨zs ++ us, hzs.append hus, hextend zs (.weaken hd)⟩

theorem chain_succ {left : Formula} (ih : ReadersSound headers n)
    (h : Formula.chain headers (n + 1) l left ts = .ok (e, rest)) :
    ∃ zs, Supplied zs ts rest ∧
      ∀ us, Derives headers l.strength us left → Derives headers l.strength (us ++ zs) e := by
  have hnone (left : Formula) : ∃ zs, Supplied zs ts ts ∧
      ∀ us, Derives headers l.strength us left → Derives headers l.strength (us ++ zs) left :=
    ⟨[], .nil ts, fun us hus => by rwa [List.append_nil]⟩
  unfold Formula.chain at h
  split at h
  · next o ts =>
    split at h
    · next ho =>
      simp only [bind_eq_ok] at h
      obtain ⟨⟨right, mid⟩, hright, hchain⟩ := h
      obtain ⟨zs, hzs, hd⟩ := ih.operand hright
      obtain ⟨vs, hvs, hextend⟩ := ih.chain hchain
      have hstrength := mem_operators_iff.mp ho
      have hpower : o ≠ .power := by
        rintro rfl
        cases l <;> cases hstrength
      refine ⟨.operator o :: zs ++ vs, (Supplied.token _ hzs).append hvs, fun us hus => ?_⟩
      rw [← hstrength] at hus hd hextend ⊢
      rw [← List.append_assoc]
      exact hextend _ (.binary hpower hus hd)
    · cases h
      exact hnone _
  · cases h
    exact hnone _

theorem operand_succ (ih : ReadersSound headers n)
    (h : Formula.operand headers (n + 1) l ts = .ok (e, rest)) :
    WrittenUpTo headers (l.strength + 1) ts e rest := by
  unfold Formula.operand at h
  split at h
  · next tighter htighter =>
    rw [← strength_of_next htighter]
    exact ih.level h
  · next hnone =>
    rw [strength_of_next_eq_none hnone]
    exact ih.power h

theorem power_succ (ih : ReadersSound headers n)
    (h : Formula.power headers (n + 1) ts = .ok (e, rest)) : WrittenUpTo headers 4 ts e rest := by
  simp only [Formula.power, bind_eq_ok] at h
  obtain ⟨⟨base, mid⟩, hbase, h⟩ := h
  have hwritten := ih.signed hbase
  dsimp only at h
  split at h
  · simp only [bind_eq_ok] at h
    obtain ⟨⟨exponent, mid'⟩, hexponent, h⟩ := h
    cases h
    obtain ⟨zs, hzs, hd⟩ := hwritten
    obtain ⟨us, hus, hd'⟩ := ih.power hexponent
    exact ⟨zs ++ .operator .power :: us, hzs.append (.token _ hus), .power hd hd'⟩
  · cases h
    exact hwritten.weaken

theorem signed_succ (ih : ReadersSound headers n)
    (h : Formula.signed headers (n + 1) ts = .ok (e, rest)) : WrittenUpTo headers 5 ts e rest := by
  unfold Formula.signed at h
  split at h
  · simp only [bind_eq_ok] at h
    obtain ⟨⟨operand, mid⟩, hoperand, h⟩ := h
    cases h
    obtain ⟨zs, hzs, hd⟩ := ih.signed hoperand
    exact ⟨_, .token _ hzs, .negated hd⟩
  · obtain ⟨zs, hzs, hd⟩ := ih.signed h
    exact ⟨_, .token _ hzs, .signed hd⟩
  · exact (ih.primary h).weaken

theorem primary_succ (ih : ReadersSound headers n)
    (h : Formula.primary headers (n + 1) ts = .ok (e, rest)) : WrittenUpTo headers 6 ts e rest := by
  unfold Formula.primary at h
  split at h
  · cases h
  · cases h
    exact .single (.number _)
  · cases h
    exact .single (.text _)
  · split at h
    · next hmem =>
      cases h
      exact .single (.quotedColumn hmem)
    · cases h
  · simp only [bind_eq_ok] at h
    obtain ⟨⟨inner, mid⟩, hinner, mid', hclose, h⟩ := h
    cases h
    obtain ⟨zs, hzs, hd⟩ := ih.level hinner
    exact ⟨_, .token _ (hzs.append (close_eq_ok_iff.mp hclose)), .bracketed hd⟩
  · split at h
    · cases h
    · next f hf =>
      simp only [bind_eq_ok] at h
      obtain ⟨⟨args, mid⟩, hargs, mid', hclose, call, hcall, h⟩ := h
      obtain ⟨parts, hparts, hds, rfl⟩ := ih.arguments hargs
      obtain ⟨hcallable, rfl⟩ := callable_of_checkedCall hcall
      cases h
      have hsupplied := hparts.append (close_eq_ok_iff.mp hclose)
      exact ⟨_, .token _ (.token _ hsupplied), .call parts hf hds hcallable⟩
  · simp only [bind_eq_ok] at h
    obtain ⟨named, hnamed, h⟩ := h
    cases h
    exact .single (derives_of_resolveName hnamed)
  · cases h

theorem arguments_succ {args : List Formula} (ih : ReadersSound headers n)
    (h : Formula.arguments headers (n + 1) ts = .ok (args, rest)) :
    ListedUpTo headers ts args rest := by
  have hnone (ts : List Token) : ListedUpTo headers ts [] ts := ⟨[], .nil ts, nofun, rfl⟩
  unfold Formula.arguments at h
  split at h
  · cases h
    exact hnone []
  · cases h
    exact hnone _
  · exact (ih.someArguments h).1

theorem someArguments_succ {args : List Formula} (ih : ReadersSound headers n)
    (h : Formula.someArguments headers (n + 1) ts = .ok (args, rest)) :
    ListedUpTo headers ts args rest ∧ args ≠ [] := by
  simp only [Formula.someArguments, bind_eq_ok] at h
  obtain ⟨⟨first, mid⟩, hfirst, h⟩ := h
  dsimp only at h
  split at h
  · simp only [bind_eq_ok] at h
    obtain ⟨⟨more, mid'⟩, hmore, h⟩ := h
    cases h
    obtain ⟨hlisted, hne⟩ := ih.someArguments hmore
    exact ⟨.cons (ih.level hfirst) hlisted hne, List.cons_ne_nil _ _⟩
  · cases h
    exact ⟨(ih.level hfirst).listed, List.cons_ne_nil _ _⟩

end ReadersSound

theorem readersSound (headers : List Header) (n : Nat) : ReadersSound headers n := by
  induction n with
  | zero => constructor <;> intros <;> rename_i h <;> cases h
  | succ n ih =>
    exact ⟨ih.level_succ, ih.chain_succ, ih.operand_succ, ih.power_succ, ih.signed_succ,
      ih.primary_succ, ih.arguments_succ, ih.someArguments_succ⟩

/-! ### What is derived is read -/

/-- A phrase of strength `k` is over before `rest`: no operator goes on with it, and no bracket
  makes a call of its last name. -/
def Over (k : Nat) (rest : List Token) : Prop :=
  ∀ t ∈ rest.head?, t ≠ .opening ∧ ∀ o, t = .operator o → o.strength < k

namespace Over

theorem mono {j : Nat} (h : Over j rest) (hjk : j ≤ k) : Over k rest := fun t ht =>
  ⟨(h t ht).1, fun o ho => Nat.lt_of_lt_of_le ((h t ht).2 o ho) hjk⟩

theorem operator {o : Operator} (h : o.strength < k) : Over k (.operator o :: rest) := by
  rintro t ⟨⟩
  exact ⟨nofun, fun o' ho' => Token.operator.inj ho' ▸ h⟩

theorem comma (k : Nat) (rest : List Token) : Over k (.comma :: rest) := by
  rintro t ⟨⟩
  exact ⟨nofun, nofun⟩

/-- Every phrase is over before the bracket that closes it, be it there or missing. -/
theorem closing (k : Nat) (h : Supplied [.closing] mid rest) : Over k mid := by
  cases h with
  | token => rintro t ⟨⟩; exact ⟨nofun, nofun⟩
  | missing => nofun

theorem ne_operator {o : Operator} (h : Over k ts) (ho : k ≤ o.strength) (rest : List Token) :
    ts ≠ .operator o :: rest := by
  rintro rfl
  exact absurd ((h _ rfl).2 o rfl) (Nat.not_lt.mpr ho)

end Over

theorem Derives.le (h : Derives headers k ts e) : k ≤ 6 := by
  induction h with
  | @binary o => cases o <;> decide
  | weaken _ ih => omega
  | _ => decide

/-- A phrase begins with an operand or, if it has any, with its signs. -/
theorem Derives.begins (h : Derives headers k ts e) :
    ∃ t us, ts = t :: us ∧
      (t.beginsOperand = true ∨ k ≤ 5 ∧ (t = .operator .subtract ∨ t = .operator .add)) := by
  induction h with
  | number | text | quotedColumn | column | truth | bracketed | call => exact ⟨_, _, rfl, .inl rfl⟩
  | negated => exact ⟨_, _, rfl, .inr ⟨Nat.le_refl 5, .inl rfl⟩⟩
  | signed => exact ⟨_, _, rfl, .inr ⟨Nat.le_refl 5, .inr rfl⟩⟩
  | power _ _ ih _ =>
    obtain ⟨t, us, rfl, ht⟩ := ih
    exact ⟨t, _, rfl, ht.imp_right fun h => ⟨by decide, h.2⟩⟩
  | binary _ _ _ ih _ =>
    obtain ⟨t, us, rfl, ht⟩ := ih
    exact ⟨t, _, rfl, ht⟩
  | weaken _ ih =>
    obtain ⟨t, us, rfl, ht⟩ := ih
    exact ⟨t, us, rfl, ht.imp_right fun h => ⟨by omega, h.2⟩⟩

open Readers

/-- The readers read the phrase `zs` of strength `k` as `e`.  A reader of a level may find more of
  its operators behind the phrase: then it goes on from there. -/
structure ReadBy (headers : List Header) (k : Nat) (zs : List Token) (e : Formula) : Prop where
  level : ∀ {l ts rest}, l.strength = k → Supplied zs ts rest → Over (k + 1) rest →
    (settled headers).level l ts = (settled headers).chain l e rest
  power : ∀ {ts rest}, k = 4 → Supplied zs ts rest → Over 4 rest →
    (settled headers).power ts = .ok (e, rest)
  signed : ∀ {ts rest}, k = 5 → Supplied zs ts rest → Over 5 rest →
    (settled headers).signed ts = .ok (e, rest)
  primary : ∀ {ts rest}, k = 6 → Supplied zs ts rest → Over 6 rest →
    (settled headers).primary ts = .ok (e, rest)

theorem chain_of_over (h : Over l.strength rest) :
    (settled headers).chain l e rest = .ok (e, rest) :=
  chain_of_ne fun _ ho _ => h.ne_operator (Nat.le_of_eq (mem_operators_iff.mp ho).symm) _

namespace ReadBy

variable {a b : Formula} {o : Operator}

theorem ne_strength (hk : 4 ≤ k) : l.strength ≠ k := by
  have hle := l.strength_le
  omega

theorem ofPrimary (h : ∀ {ts rest}, Supplied zs ts rest → Over 6 rest →
    (settled headers).primary ts = .ok (e, rest)) : ReadBy headers 6 zs e where
  level hl := absurd hl (ne_strength (by decide))
  power := nofun
  signed := nofun
  primary _ := h

theorem ofSigned (h : ∀ {ts rest}, Supplied zs ts rest → Over 5 rest →
    (settled headers).signed ts = .ok (e, rest)) : ReadBy headers 5 zs e where
  level hl := absurd hl (ne_strength (by decide))
  power := nofun
  signed _ := h
  primary := nofun

theorem ofPower (h : ∀ {ts rest}, Supplied zs ts rest → Over 4 rest →
    (settled headers).power ts = .ok (e, rest)) : ReadBy headers 4 zs e where
  level hl := absurd hl (ne_strength (by decide))
  power _ := h
  signed := nofun
  primary := nofun

/-- A token that is a phrase of its own. -/
theorem single (h : ∀ rest, Over 6 rest → (settled headers).primary (t :: rest) = .ok (e, rest))
    (ht : t ≠ .closing) : ReadBy headers 6 [t] e := by
  refine ofPrimary fun hsupplied hover => ?_
  obtain ⟨us, rfl, hus⟩ := hsupplied.of_cons ht
  cases hus
  exact h _ hover

/-- A whole phrase of the least strength. -/
theorem comparison (h : ReadBy headers 0 zs e) (hsupplied : Supplied zs ts rest)
    (hover : Over 0 rest) : (settled headers).level .comparison ts = .ok (e, rest) := by
  rw [h.level rfl hsupplied (hover.mono (Nat.zero_le 1))]
  exact chain_of_over hover

/-- An operand of a level. -/
theorem operand (h : ReadBy headers (l.strength + 1) zs e) (hsupplied : Supplied zs ts rest)
    (hover : Over (l.strength + 1) rest) : (settled headers).operand l ts = .ok (e, rest) := by
  rw [← next_settled]
  dsimp only [next]
  split
  · next tighter htighter =>
    have hstrength := strength_of_next htighter
    rw [h.level hstrength hsupplied (hover.mono (Nat.le_succ _))]
    exact chain_of_over (hstrength ▸ hover)
  · next hnone =>
    have hstrength := strength_of_next_eq_none hnone
    rw [hstrength] at h hover
    exact h.power rfl hsupplied hover

theorem binary (hpower : o ≠ .power) (ha : ReadBy headers o.strength zs a)
    (hb : ReadBy headers (o.strength + 1) us b) :
    ReadBy headers o.strength (zs ++ .operator o :: us) (.binary o a b) where
  level {l ts rest} hl hsupplied hover := by
    obtain ⟨mid, hzs, hmid⟩ := hsupplied.split
    obtain ⟨behind, rfl, hus⟩ := hmid.of_cons nofun
    rw [ha.level hl hzs (.operator (Nat.lt_succ_self _))]
    rw [← hl] at hb hover
    conv_lhs => rw [← next_settled]
    dsimp only [next]
    rw [if_pos (mem_operators_iff.mpr hl.symm), hb.operand hus hover]
    rfl
  power h := by cases o <;> cases h; exact absurd rfl hpower
  signed h := by cases o <;> cases h
  primary h := by cases o <;> cases h

theorem exponent (ha : ReadBy headers 5 zs a) (hb : ReadBy headers 4 us b) :
    ReadBy headers 4 (zs ++ .operator .power :: us) (.binary .power a b) := by
  refine ofPower fun hsupplied hover => ?_
  obtain ⟨mid, hzs, hmid⟩ := hsupplied.split
  obtain ⟨behind, rfl, hus⟩ := hmid.of_cons nofun
  rw [← next_settled]
  simp only [next, bind_eq_ok]
  refine ⟨_, ha.signed rfl hzs (.operator (by decide)), ?_⟩
  simp only [bind_eq_ok]
  exact ⟨_, hb.power rfl hus hover, rfl⟩

theorem negated (h : ReadBy headers 5 zs e) :
    ReadBy headers 5 (.operator .subtract :: zs) (.negate e) := by
  refine ofSigned fun hsupplied hover => ?_
  obtain ⟨behind, rfl, hzs⟩ := hsupplied.of_cons nofun
  rw [← next_settled]
  simp only [next, bind_eq_ok]
  exact ⟨_, h.signed rfl hzs hover, rfl⟩

theorem signedPlus (h : ReadBy headers 5 zs e) : ReadBy headers 5 (.operator .add :: zs) e := by
  refine ofSigned fun hsupplied hover => ?_
  obtain ⟨behind, rfl, hzs⟩ := hsupplied.of_cons nofun
  rw [← next_settled]
  exact h.signed rfl hzs hover

/-- What binds more is read where less is asked for. -/
theorem weaken (hd : Derives headers (k + 1) zs e) (h : ReadBy headers (k + 1) zs e) :
    ReadBy headers k zs e where
  level {l ts rest} hl hsupplied hover := by
    rw [← hl] at h hover
    conv_lhs => rw [← next_settled]
    simp only [next, h.operand hsupplied hover]
    rfl
  power {ts rest} hk hsupplied hover := by
    subst hk
    rw [← next_settled]
    simp only [next, bind_eq_ok]
    refine ⟨_, h.signed rfl hsupplied (hover.mono (by decide)), ?_⟩
    dsimp only
    split
    · next behind =>
      have hpower : 4 ≤ Operator.power.strength := by decide
      exact absurd rfl (hover.ne_operator hpower behind)
    · rfl
  signed {ts rest} hk hsupplied hover := by
    subst hk
    rw [← next_settled]
    obtain ⟨t, us, rfl, ht | ⟨hle, -⟩⟩ := hd.begins
    · have hprimary := h.primary rfl hsupplied (hover.mono (by decide))
      obtain ⟨more, rfl, -⟩ := hsupplied.of_cons (by rintro rfl; cases ht)
      cases t with
      | operator => cases ht
      | _ => exact hprimary
    · exact absurd hle (by decide)
  primary hk := by
    have hle := hd.le
    omega

theorem bracketed (h : ReadBy headers 0 zs e) :
    ReadBy headers 6 (.opening :: (zs ++ [.closing])) e := by
  refine ofPrimary fun hsupplied hover => ?_
  obtain ⟨behind, rfl, hmid⟩ := hsupplied.of_cons nofun
  obtain ⟨mid, hzs, hclose⟩ := hmid.split
  rw [← next_settled]
  simp only [next, bind_eq_ok]
  exact ⟨_, h.comparison hzs (.closing 0 hclose), _, close_eq_ok_iff.mpr hclose, rfl⟩

/-! #### Calls -/

theorem checkedCall_of_callable {f : Function} {name : String} {args : List Formula}
    (h : Callable f args) : checkedCall f name args = .ok (.call f args) := by
  obtain ⟨haccepts, hdigits⟩ := h
  have hnatural : ¬ (f = .round ∧ !(args[1]?.all isNatural)) := by
    rintro ⟨hround, hnot⟩
    cases hsecond : args[1]? with
    | none => simp [hsecond] at hnot
    | some digits =>
      obtain ⟨x, rfl, hle, hwhole⟩ := hdigits hround digits hsecond
      simp [hsecond, isNatural, hle, hwhole] at hnot
  unfold checkedCall
  rw [haccepts]
  simpa using hnatural

/-- Arguments in front of a bracket that closes them. -/
theorem someArguments {parts : List (List Token × Formula)} (hne : parts ≠ [])
    (h : ∀ a ∈ parts, ReadBy headers 0 a.1 a.2)
    (hsupplied : Supplied ([Token.comma].intercalate (parts.map Prod.fst)) ts mid)
    (hclose : Supplied [.closing] mid rest) :
    (settled headers).someArguments ts = .ok (parts.map Prod.snd, mid) := by
  induction parts generalizing ts with
  | nil => exact absurd rfl hne
  | cons a parts ih =>
    rw [List.forall_mem_cons] at h
    rw [← next_settled]
    simp only [next, bind_eq_ok]
    cases parts with
    | nil =>
      rw [List.map_singleton, List.intercalate_singleton] at hsupplied
      refine ⟨_, h.1.comparison hsupplied (.closing 0 hclose), ?_⟩
      dsimp only
      split
      · cases hclose
      · rfl
    | cons b parts =>
      rw [List.map_cons, List.map_cons, List.intercalate_cons_cons, List.append_assoc] at hsupplied
      obtain ⟨front, ha, hfront⟩ := hsupplied.split
      obtain ⟨behind, rfl, hbehind⟩ := hfront.of_cons nofun
      refine ⟨_, h.1.comparison ha (.comma 0 behind), ?_⟩
      simp only [bind_eq_ok]
      exact ⟨_, ih nofun h.2 hbehind, rfl⟩

theorem arguments {parts : List (List Token × Formula)}
    (hd : ∀ a ∈ parts, Derives headers 0 a.1 a.2) (h : ∀ a ∈ parts, ReadBy headers 0 a.1 a.2)
    (hsupplied : Supplied ([Token.comma].intercalate (parts.map Prod.fst)) ts mid)
    (hclose : Supplied [.closing] mid rest) :
    (settled headers).arguments ts = .ok (parts.map Prod.snd, mid) := by
  rw [← next_settled]
  dsimp only [next]
  cases parts with
  | nil =>
    cases hsupplied
    cases hclose with
    | token => rfl
    | missing => rfl
  | cons a parts =>
    have hsome := someArguments (List.cons_ne_nil a parts) h hsupplied hclose
    -- the first argument begins with no closing bracket
    obtain ⟨t, us, hzs, ht⟩ := (hd a List.mem_cons_self).begins
    have hne : t ≠ .closing := by
      rintro rfl
      rcases ht with ht | ⟨-, ht | ht⟩ <;> cases ht
    have hfirst : ∃ more, [Token.comma].intercalate ((a :: parts).map Prod.fst) = t :: more := by
      cases parts with
      | nil => exact ⟨us, by simpa using hzs⟩
      | cons b parts =>
        rw [List.map_cons, List.map_cons, List.intercalate_cons_cons, hzs]
        exact ⟨_, rfl⟩
    obtain ⟨more, hmore⟩ := hfirst
    rw [hmore] at hsupplied
    obtain ⟨behind, rfl, -⟩ := hsupplied.of_cons hne
    cases t with
    | closing => exact absurd rfl hne
    | _ => exact hsome

theorem call {s : String} {f : Function} {args : List (List Token × Formula)}
    (hf : Function.ofName? s = some f) (hd : ∀ a ∈ args, Derives headers 0 a.1 a.2)
    (hcallable : Callable f (args.map Prod.snd)) (h : ∀ a ∈ args, ReadBy headers 0 a.1 a.2) :
    ReadBy headers 6
      (.name s :: .opening :: ([Token.comma].intercalate (args.map Prod.fst) ++ [.closing]))
      (.call f (args.map Prod.snd)) := by
  refine ofPrimary fun hsupplied hover => ?_
  obtain ⟨front, rfl, hfront⟩ := hsupplied.of_cons nofun
  obtain ⟨behind, rfl, hbehind⟩ := hfront.of_cons nofun
  obtain ⟨mid, hargs, hclose⟩ := hbehind.split
  rw [← next_settled]
  simp only [next, hf, bind_eq_ok]
  exact ⟨_, arguments hd h hargs hclose, _, close_eq_ok_iff.mpr hclose, _,
    checkedCall_of_callable hcallable, rfl⟩

/-- A name in front of anything but a bracket. -/
theorem name {s : String} (h : resolveName headers s = .ok e) :
    ReadBy headers 6 [.name s] e := by
  refine single (fun rest hover => ?_) nofun
  have hprimary : (settled headers).primary (.name s :: rest) = _ :=
    primary_name fun hhead => (hover _ hhead).1 rfl
  rw [hprimary, h]
  rfl

end ReadBy

/-- What the grammar derives is read. -/
theorem Derives.readBy (h : Derives headers k zs e) : ReadBy headers k zs e := by
  induction h with
  | number | text => exact .single (fun _ _ => rfl) nofun
  | quotedColumn hmem => exact .single (fun _ _ => if_pos hmem) nofun
  | column hmem => exact .name (if_pos hmem)
  | truth b hmem hcapitals =>
    refine .name ?_
    unfold resolveName
    rw [if_neg hmem, hcapitals]
    cases b <;> rfl
  | bracketed _ ih => exact ih.bracketed
  | call args hf hd hcallable ih => exact .call hf hd hcallable ih
  | negated _ ih => exact ih.negated
  | signed _ ih => exact ih.signedPlus
  | power _ _ iha ihb => exact iha.exponent ihb
  | binary hpower _ _ iha ihb => exact .binary hpower iha ihb
  | weaken hd ih => exact ih.weaken hd

/-- The grammar is unambiguous. -/
theorem Derives.unique {e' : Formula} (h : Derives headers 0 zs e) (h' : Derives headers 0 zs e') :
    e = e' := by
  have hsupplied : Supplied zs zs [] := supplied_nil_iff.mpr ⟨0, (List.append_nil zs).symm⟩
  have hread := h.readBy.comparison hsupplied nofun
  rw [h'.readBy.comparison hsupplied nofun] at hread
  cases hread
  rfl

theorem ofTokens_of_derives (h : Derives headers 0 (ts ++ List.replicate n .closing) e) :
    ofTokens headers ts = .ok e := by
  unfold ofTokens
  rw [bind_eq_ok]
  exact ⟨_, h.readBy.comparison (supplied_nil_iff.mpr ⟨n, rfl⟩) nofun, rfl⟩

theorem exists_derives_of_ofTokens (h : ofTokens headers ts = .ok e) :
    ∃ n, Derives headers 0 (ts ++ List.replicate n .closing) e := by
  unfold ofTokens at h
  rw [bind_eq_ok] at h
  obtain ⟨⟨e', rest⟩, hlevel, h⟩ := h
  dsimp only at h
  split at h
  · cases h
    obtain ⟨zs, hzs, hd⟩ := (readersSound headers _).level hlevel
    obtain ⟨n, rfl⟩ := supplied_nil_iff.mp hzs
    exact ⟨n, hd⟩
  · cases h

/-- The readers come to an end on every list of tokens: nothing depends on what stands below as many
  steps as `ofTokens` takes.  Then a formula is accepted if the grammar derives it from the tokens,
  completed by a closing bracket for each one that is open behind them. -/
theorem ofTokens_eq_ok_iff (headers : List Header) (ts : List Token) :
    (∀ (below : Readers) (n : Nat), 16 * (ts.length + 1) ≤ n →
        ((Readers.next headers)^[n] below).level .comparison ts
          = Formula.level headers (16 * (ts.length + 1)) .comparison ts)
      ∧ ∀ e, ofTokens headers ts = .ok e
          ↔ Derives headers 0 (ts ++ List.replicate (unclosed ts) .closing) e := by
  refine ⟨fun below n hn => level_settled headers .comparison ts below hn, fun e => ?_⟩
  constructor
  · intro h
    obtain ⟨n, hd⟩ := exists_derives_of_ofTokens h
    rwa [← eq_unclosed_of_derives hd]
  · exact ofTokens_of_derives

example : ofTokens ["A"] [.name "SUM", .opening, .name "A", .comma, .opening, .number 1] =
    .ok (.call .sum [.column "A", .number 1]) := rfl

/-! ### The columns of formulas -/

theorem columnsOfAll_eq_flatMap (es : List Formula) : columnsOfAll es = es.flatMap columns := by
  induction es with
  | nil => rfl
  | cons e rest ih => rw [columnsOfAll, List.flatMap_cons, ih]

/-- A formula of the grammar names headers only. -/
theorem Derives.columns_subset (h : Derives headers k zs e) : e.columns ⊆ headers := by
  induction h with
  | number | text | truth => exact List.nil_subset _
  | quotedColumn hmem | column hmem => exact List.cons_subset.mpr ⟨hmem, List.nil_subset _⟩
  | bracketed _ ih | negated _ ih | signed _ ih | weaken _ ih => exact ih
  | power _ _ iha ihb | binary _ _ _ iha ihb => exact List.append_subset.mpr ⟨iha, ihb⟩
  | @call s f args _ _ _ ih =>
    show columnsOfAll (args.map Prod.snd) ⊆ headers
    rw [columnsOfAll_eq_flatMap, List.flatMap_map]
    intro k hk
    obtain ⟨a, ha, hin⟩ := List.mem_flatMap.mp hk
    exact ih a ha hin

/-- What is read from a text names headers only. -/
theorem columns_of_parse {text : String} (h : parse text headers = .ok e) :
    e.columns ⊆ headers := by
  unfold parse at h
  dsimp only at h
  split at h
  · rw [← Except.ok.inj h]
    exact List.nil_subset _
  · obtain ⟨ts, -, hts⟩ := bind_eq_ok.mp h
    obtain ⟨n, hd⟩ := exists_derives_of_ofTokens hts
    exact hd.columns_subset

end SheetScript.Formula
