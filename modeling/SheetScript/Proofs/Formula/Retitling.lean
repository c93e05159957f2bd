import SheetScript.Formula.Reference
import SheetScript.Proofs.Formula.Neighbours

/-! # Formulas over a renamed header

  When a header is renamed, the tokens that name it are replaced by one that names the new
  header.  Where the tokens were read as a formula, the replaced ones are read as the same
  formula over the new headers, with the header renamed in it.

  The proof is by induction on the readers.  What could go wrong is that a replaced name comes
  to stand in front of a bracket and is read as a call; no formula has such neighbours.

  Main statement: `Formula.ofTokens_marked_of_noTruth`.
-/

namespace SheetScript.Formula

/-! ### Renamed headers -/

/-- The header after `old` became `new`. -/
def retitle (old new h : Header) : Header := if h = old then new else h

mutual

/-- The formula with other headers. -/
def mapColumns (f : Header → Header) : Formula → Formula
  | .number x => .number x
  | .text s => .text s
  | .bool b => .bool b
  | .column h => .column (f h)
  | .negate e => .negate (mapColumns f e)
  | .binary o l r => .binary o (mapColumns f l) (mapColumns f r)
  | .call g args => .call g (mapAllColumns f args)

/-- The formulas with other headers. -/
def mapAllColumns (f : Header → Header) : List Formula → List Formula
  | [] => []
  | e :: rest => mapColumns f e :: mapAllColumns f rest

end

theorem mapAllColumns_eq_map (f : Header → Header) (args : List Formula) :
    mapAllColumns f args = args.map (mapColumns f) := by
  induction args with
  | nil => rfl
  | cons e rest ih => rw [mapAllColumns, ih, List.map_cons]

/-! ### Replaced tokens -/

variable {old new : Header} {headers : List Header} {ts rest : List Token} {t : Token}

/-- The token that names a header. -/
def spelled (h : Header) : Token := if isBare h then .name h else .quotedName h

/-- The tokens with those that name `old` replaced. -/
def marked (old new : Header) : List Token → List Token
  | [] => []
  | t :: rest => (if names old t rest.head? then spelled new else t) :: marked old new rest

/-- The number of tokens that name `old`. -/
def mentions (old : Header) : List Token → Nat
  | [] => 0
  | t :: rest => (if names old t rest.head? then 1 else 0) + mentions old rest

/-- Whether a token is a name of either kind. -/
def Token.isName : Token → Bool
  | .name _ | .quotedName _ => true
  | _ => false

theorem names_of_not_isName (ht : t.isName = false) (next : Option Token) :
    names old t next = false := by
  cases t with
  | name _ | quotedName _ => cases ht
  | _ => rfl

theorem isName_spelled (h : Header) : (spelled h).isName = true := by
  unfold spelled
  split <;> rfl

theorem marked_cons_of_names (h : names old t rest.head? = true) :
    marked old new (t :: rest) = spelled new :: marked old new rest := by
  rw [marked, if_pos h]

theorem marked_cons_of_not (h : names old t rest.head? = false) :
    marked old new (t :: rest) = t :: marked old new rest := by
  rw [marked, if_neg (Bool.not_eq_true _ ▸ h)]

theorem mentions_cons_of_names (h : names old t rest.head? = true) :
    mentions old (t :: rest) = mentions old rest + 1 := by
  rw [mentions, if_pos h, Nat.add_comm]

theorem mentions_cons_of_not (h : names old t rest.head? = false) :
    mentions old (t :: rest) = mentions old rest := by
  rw [mentions, if_neg (Bool.not_eq_true _ ▸ h), Nat.zero_add]

/-- Tokens other than names are at the head only where they were. -/
theorem marked_ne_cons (ht : t.isName = false) (h : ∀ rest, ts ≠ t :: rest) (rest : List Token) :
    marked old new ts ≠ t :: rest := by
  cases ts with
  | nil => nofun
  | cons u us =>
    rw [marked]
    split
    · intro heq
      obtain ⟨rfl, -⟩ := List.cons.inj heq
      rw [isName_spelled] at ht
      cases ht
    · intro heq
      obtain ⟨rfl, -⟩ := List.cons.inj heq
      exact h us rfl

theorem head?_marked (ht : t.isName = false) (h : ts.head? ≠ some t) :
    (marked old new ts).head? ≠ some t := by
  intro hhead
  obtain ⟨rest, hrest⟩ := List.head?_eq_some_iff.mp hhead
  exact marked_ne_cons ht (fun rest heq => h (congrArg List.head? heq)) rest hrest

theorem length_marked (old new : Header) (ts : List Token) :
    (marked old new ts).length = ts.length := by
  induction ts with
  | nil => rfl
  | cons t rest ih => rw [marked, List.length_cons, List.length_cons, ih]

/-! ### Parts that need no reader -/

theorem close_marked (old new : Header) (h : close ts = .ok rest) :
    close (marked old new ts) = .ok (marked old new rest)
      ∧ mentions old ts = mentions old rest := by
  unfold close at h
  split at h
  · cases h
    exact ⟨rfl, rfl⟩
  · cases h
    rw [marked_cons_of_not rfl, mentions_cons_of_not rfl]
    exact ⟨rfl, rfl⟩
  · cases h

theorem isNatural_mapColumns (f : Header → Header) (e : Formula) :
    isNatural (mapColumns f e) = isNatural e := by
  cases e <;> rfl

theorem checkedCall_mapColumns {g : Function} {name : String} {args : List Formula} {e : Formula}
    (f : Header → Header) (h : checkedCall g name args = .ok e) :
    checkedCall g name (mapAllColumns f args) = .ok (mapColumns f e)
      ∧ e.columns = columnsOfAll args := by
  have hdigits : (mapAllColumns f args)[1]?.all isNatural = args[1]?.all isNatural := by
    rw [mapAllColumns_eq_map, List.getElem?_map]
    cases args[1]? with
    | none => rfl
    | some a => exact isNatural_mapColumns f a
  have hlength : (mapAllColumns f args).length = args.length := by
    rw [mapAllColumns_eq_map, List.length_map]
  unfold checkedCall at h ⊢
  rw [hlength, hdigits]
  split at h
  · cases h
  · next haccepts =>
    split at h
    · cases h
    · next hround =>
      cases h
      rw [if_neg haccepts, if_neg hround]
      exact ⟨rfl, rfl⟩

theorem retitle_of_ne {h : Header} (hne : h ≠ old) : retitle old new h = h := if_neg hne

theorem mem_retitled (hold : old ∈ headers) : new ∈ headers.map (retitle old new) :=
  List.mem_map.mpr ⟨old, hold, if_pos rfl⟩

theorem mem_retitled_of_ne {h : Header} (hne : h ≠ old) (hh : h ∈ headers) :
    h ∈ headers.map (retitle old new) :=
  List.mem_map.mpr ⟨h, hh, retitle_of_ne hne⟩

/-- No truth value is written like the header where there are such headers: it is one of them, or
  no word for a truth value. -/
def NoTruth (headers : List Header) (h : Header) : Prop :=
  h ∉ headers → Function.capitals h ≠ "TRUE" ∧ Function.capitals h ≠ "FALSE"

/-- A name that is not renamed stands for what it stood for, unless it is the new header and stood
  for a truth value. -/
theorem resolveName_retitled {name : String} {e : Formula} (hne : name ≠ old)
    (hno : NoTruth headers new) (h : resolveName headers name = .ok e) :
    resolveName (headers.map (retitle old new)) name = .ok (mapColumns (retitle old new) e)
      ∧ e.columns.count old = 0 := by
  have hnot : name ∉ headers → name ≠ new → name ∉ headers.map (retitle old new) := by
    intro hmem hnew hmap
    obtain ⟨h, hh, heq⟩ := List.mem_map.mp hmap
    by_cases hold : h = old
    · rw [hold, retitle, if_pos rfl] at heq
      exact hnew heq.symm
    · rw [retitle_of_ne hold] at heq
      exact hmem (heq ▸ hh)
  unfold resolveName at h ⊢
  split at h
  · next hmem =>
    cases h
    rw [if_pos (mem_retitled_of_ne hne hmem), mapColumns, retitle_of_ne hne]
    exact ⟨rfl, List.count_eq_zero.mpr fun hcount => hne (List.mem_singleton.mp hcount).symm⟩
  · next hmem =>
    split at h
    · next hcapitals =>
      cases h
      rw [if_neg (hnot hmem fun heq => (hno (heq ▸ hmem)).1 (heq ▸ hcapitals)), if_pos hcapitals]
      exact ⟨rfl, rfl⟩
    · next hcapitals =>
      split at h
      · next hcapitals' =>
        cases h
        rw [if_neg (hnot hmem fun heq => (hno (heq ▸ hmem)).2 (heq ▸ hcapitals')),
          if_neg hcapitals, if_pos hcapitals']
        exact ⟨rfl, rfl⟩
      · cases h

/-! ### Readers -/

theorem chain_of_ne {n : Nat} {l : Level} {left : Formula}
    (h : ∀ o ∈ l.operators, ∀ rest, ts ≠ .operator o :: rest) :
    chain headers (n + 1) l left ts = .ok (left, ts) := by
  unfold chain
  split
  · next o rest => rw [if_neg fun ho => h o ho rest rfl]
  · rfl

theorem signed_of_ne {n : Nat} (hsubtract : ∀ rest, ts ≠ .operator .subtract :: rest)
    (hadd : ∀ rest, ts ≠ .operator .add :: rest) :
    signed headers (n + 1) ts = primary headers n ts := by
  unfold signed
  split
  · next rest => exact absurd rfl (hsubtract rest)
  · next rest => exact absurd rfl (hadd rest)
  · rfl

theorem arguments_of_ne {n : Nat} (hnil : ts ≠ []) (hclosing : ∀ rest, ts ≠ .closing :: rest) :
    arguments headers (n + 1) ts = someArguments headers n ts := by
  unfold arguments
  split
  · exact absurd rfl hnil
  · next rest => exact absurd rfl (hclosing rest)
  · rfl

/-- A name in front of anything but a bracket calls no function. -/
theorem primary_name {n : Nat} {s : String} (hrest : rest.head? ≠ some .opening) :
    primary headers (n + 1) (.name s :: rest)
      = (resolveName headers s).bind fun e => .ok (e, rest) := by
  cases rest with
  | nil => rfl
  | cons t rest =>
    cases t with
    | opening => exact absurd rfl hrest
    | _ => rfl

/-- The new name of a header is read as its column. -/
theorem primary_spelled {n : Nat} (hnew : new ∈ headers) (hrest : rest.head? ≠ some .opening) :
    primary headers (n + 1) (spelled new :: rest) = .ok (.column new, rest) := by
  unfold spelled
  split
  · have hcolumn : resolveName headers new = .ok (.column new) := if_pos hnew
    rw [primary_name hrest, hcolumn]
    rfl
  · exact if_pos hnew

/-- What a reader reads over the old headers it reads over the new ones, with the header
  renamed; and it reads as many references as there are. -/
def Follows (old new : Header) (headers : List Header)
    (read : List Header → List Token → Except FormulaError (Formula × List Token)) : Prop :=
  ∀ {ts e rest}, ts.IsChain Token.MayPrecede → read headers ts = .ok (e, rest) →
    read (headers.map (retitle old new)) (marked old new ts)
        = .ok (mapColumns (retitle old new) e, marked old new rest)
      ∧ mentions old ts = e.columns.count old + mentions old rest

/-- The same of a reader that goes on behind a formula. -/
def FollowsBehind (old new : Header) (headers : List Header) (left : Formula)
    (read : List Header → Formula → List Token → Except FormulaError (Formula × List Token)) :
    Prop :=
  ∀ {ts e rest}, ts.IsChain Token.MayPrecede → read headers left ts = .ok (e, rest) →
    read (headers.map (retitle old new)) (mapColumns (retitle old new) left) (marked old new ts)
        = .ok (mapColumns (retitle old new) e, marked old new rest)
      ∧ left.columns.count old + mentions old ts = e.columns.count old + mentions old rest

/-- The same of a reader of several formulas. -/
def FollowsAll (old new : Header) (headers : List Header)
    (read : List Header → List Token → Except FormulaError (List Formula × List Token)) : Prop :=
  ∀ {ts args rest}, ts.IsChain Token.MayPrecede → read headers ts = .ok (args, rest) →
    read (headers.map (retitle old new)) (marked old new ts)
        = .ok (mapAllColumns (retitle old new) args, marked old new rest)
      ∧ mentions old ts = (columnsOfAll args).count old + mentions old rest

/-- What every reader of `n` steps reads over the new headers. -/
structure ReadersFollow (old new : Header) (headers : List Header) (n : Nat) : Prop where
  level l : Follows old new headers fun hs => level hs n l
  chain l left : FollowsBehind old new headers left fun hs => chain hs n l
  operand l : Follows old new headers fun hs => operand hs n l
  power : Follows old new headers fun hs => power hs n
  signed : Follows old new headers fun hs => signed hs n
  primary : Follows old new headers fun hs => primary hs n
  arguments : FollowsAll old new headers fun hs => arguments hs n
  someArguments : FollowsAll old new headers fun hs => someArguments hs n

/-! ### Names as operands -/

variable {n : Nat}

/-- A token that names the header is read as its column, before and after. -/
theorem primary_of_names (hold : old ∈ headers) (hnames : names old t rest.head? = true)
    (hhead : rest.head? ≠ some .opening) :
    primary (headers.map (retitle old new)) (n + 1) (marked old new (t :: rest))
        = .ok (mapColumns (retitle old new) (.column old), marked old new rest)
      ∧ mentions old (t :: rest) = (Formula.column old).columns.count old + mentions old rest := by
  rw [marked_cons_of_names hnames, mentions_cons_of_names hnames, mapColumns, retitle, if_pos rfl,
    columns, List.count_singleton_self]
  exact ⟨primary_spelled (mem_retitled hold) (head?_marked rfl hhead), Nat.add_comm _ _⟩

theorem primary_quotedName {header : Header} (hold : old ∈ headers)
    (hts : (.quotedName header :: rest).IsChain Token.MayPrecede) (hmem : header ∈ headers) :
    primary (headers.map (retitle old new)) (n + 1) (marked old new (.quotedName header :: rest))
        = .ok (mapColumns (retitle old new) (.column header), marked old new rest)
      ∧ mentions old (.quotedName header :: rest)
        = (Formula.column header).columns.count old + mentions old rest := by
  by_cases hheader : header = old
  · subst hheader
    refine primary_of_names hold (beq_self_eq_true _) fun hhead => ?_
    -- only a bare name calls a function
    obtain ⟨⟨s, hname⟩, -⟩ := (List.isChain_cons.mp hts).1 _ hhead rfl rfl
    cases hname
  · have hnames : names old (.quotedName header) rest.head? = false :=
      beq_eq_false_iff_ne.mpr hheader
    rw [marked_cons_of_not hnames, mentions_cons_of_not hnames, mapColumns, retitle_of_ne hheader,
      columns, List.count_singleton, if_neg (by simpa using hheader), Nat.zero_add]
    exact ⟨if_pos (mem_retitled_of_ne hheader hmem), rfl⟩

theorem primary_bareName {name : String} {e : Formula} (hold : old ∈ headers)
    (hno : NoTruth headers new) (hhead : rest.head? ≠ some .opening)
    (hname : resolveName headers name = .ok e) :
    primary (headers.map (retitle old new)) (n + 1) (marked old new (.name name :: rest))
        = .ok (mapColumns (retitle old new) e, marked old new rest)
      ∧ mentions old (.name name :: rest) = e.columns.count old + mentions old rest := by
  by_cases hsame : name = old
  · subst hsame
    have hcolumn : resolveName headers name = .ok (.column name) := if_pos hold
    obtain rfl := Except.ok.inj (hcolumn.symm.trans hname)
    exact primary_of_names hold (by simp [names, hhead]) hhead
  · have hnames : names old (.name name) rest.head? = false := by simp [names, hsame]
    obtain ⟨hname', hcount⟩ := resolveName_retitled hsame hno hname
    rw [marked_cons_of_not hnames, mentions_cons_of_not hnames,
      primary_name (head?_marked rfl hhead), hname', hcount, Nat.zero_add]
    exact ⟨rfl, rfl⟩

/-! ### One step of the readers -/

namespace ReadersFollow

theorem level_succ (ih : ReadersFollow old new headers n) (l : Level) :
    Follows old new headers fun hs => Formula.level hs (n + 1) l := by
  intro ts e rest hts h
  simp only [Formula.level, bind_eq_ok] at h ⊢
  obtain ⟨⟨first, mid⟩, hfirst, hchain⟩ := h
  dsimp only at hchain
  have hmid := hts.suffix ((readersJoin headers n).operand hfirst).suffix
  obtain ⟨hfirst', hcount⟩ := ih.operand l hts hfirst
  obtain ⟨hchain', hcount'⟩ := ih.chain l first hmid hchain
  exact ⟨⟨_, hfirst', hchain'⟩, by omega⟩

theorem chain_succ (ih : ReadersFollow old new headers n) (l : Level) (left : Formula) :
    FollowsBehind old new headers left fun hs => Formula.chain hs (n + 1) l := by
  intro ts e rest hts h
  dsimp only at h ⊢
  unfold Formula.chain at h
  split at h
  · next o ts =>
    split at h
    · next ho =>
      simp only [bind_eq_ok] at h
      obtain ⟨⟨right, mid⟩, hright, hchain⟩ := h
      dsimp only at hchain
      have hbehind := hts.suffix (List.suffix_cons _ _)
      have hmid := hbehind.suffix ((readersJoin headers n).operand hright).suffix
      obtain ⟨hright', hcount⟩ := ih.operand _ hbehind hright
      obtain ⟨hchain', hcount'⟩ := ih.chain _ _ hmid hchain
      rw [marked_cons_of_not rfl, mentions_cons_of_not rfl]
      constructor
      · unfold Formula.chain
        simp only [if_pos ho, bind_eq_ok]
        exact ⟨_, hright', hchain'⟩
      · rw [columns, List.count_append] at hcount'
        omega
    · next ho =>
      cases h
      refine ⟨chain_of_ne fun o' ho' => marked_ne_cons rfl fun rest heq => ?_, rfl⟩
      obtain ⟨heq, -⟩ := List.cons.inj heq
      exact ho (Token.operator.inj heq ▸ ho')
  · next hne =>
    cases h
    exact ⟨chain_of_ne fun o' _ => marked_ne_cons rfl (hne o'), rfl⟩

theorem operand_succ (ih : ReadersFollow old new headers n) (l : Level) :
    Follows old new headers fun hs => Formula.operand hs (n + 1) l := by
  intro ts e rest hts h
  dsimp only at h ⊢
  unfold Formula.operand at h ⊢
  split at h
  · exact ih.level _ hts h
  · exact ih.power hts h

theorem power_succ (ih : ReadersFollow old new headers n) :
    Follows old new headers fun hs => Formula.power hs (n + 1) := by
  intro ts e rest hts h
  simp only [Formula.power, bind_eq_ok] at h ⊢
  obtain ⟨⟨base, mid⟩, hbase, h⟩ := h
  dsimp only at h
  obtain ⟨hbase', hcount⟩ := ih.signed hts hbase
  have hmid := hts.suffix ((readersJoin headers n).signed hbase).suffix
  split at h
  · next behind =>
    simp only [bind_eq_ok] at h
    obtain ⟨⟨exponent, mid'⟩, hexponent, h⟩ := h
    dsimp only at h
    obtain ⟨rfl, rfl⟩ := Prod.mk.inj (Except.ok.inj h)
    obtain ⟨hexponent', hcount'⟩ := ih.power (hmid.suffix (List.suffix_cons _ _)) hexponent
    rw [marked_cons_of_not rfl] at hbase'
    rw [mentions_cons_of_not rfl] at hcount
    refine ⟨⟨_, hbase', ?_⟩, ?_⟩
    · simp only [bind_eq_ok]
      exact ⟨_, hexponent', rfl⟩
    · rw [columns, List.count_append]
      omega
  · next hne =>
    obtain ⟨rfl, rfl⟩ := Prod.mk.inj (Except.ok.inj h)
    refine ⟨⟨_, hbase', ?_⟩, hcount⟩
    dsimp only
    split
    · next hmarked => exact absurd hmarked (marked_ne_cons rfl hne _)
    · rfl

theorem signed_succ (ih : ReadersFollow old new headers n) :
    Follows old new headers fun hs => Formula.signed hs (n + 1) := by
  intro ts e rest hts h
  dsimp only at h ⊢
  unfold Formula.signed at h
  split at h
  · simp only [bind_eq_ok] at h
    obtain ⟨⟨operand, mid⟩, hoperand, h⟩ := h
    cases h
    obtain ⟨hoperand', hcount⟩ := ih.signed (hts.suffix (List.suffix_cons _ _)) hoperand
    rw [marked_cons_of_not rfl, mentions_cons_of_not rfl]
    constructor
    · unfold Formula.signed
      simp only [bind_eq_ok]
      exact ⟨_, hoperand', rfl⟩
    · exact hcount
  · obtain ⟨h', hcount⟩ := ih.signed (hts.suffix (List.suffix_cons _ _)) h
    rw [marked_cons_of_not rfl, mentions_cons_of_not rfl]
    exact ⟨h', hcount⟩
  · next hsubtract hadd =>
    rw [signed_of_ne (marked_ne_cons rfl hsubtract) (marked_ne_cons rfl hadd)]
    exact ih.primary hts h

theorem primary_succ (ih : ReadersFollow old new headers n) (hold : old ∈ headers)
    (hno : NoTruth headers new) :
    Follows old new headers fun hs => Formula.primary hs (n + 1) := by
  intro ts e rest hts h
  dsimp only at h ⊢
  unfold Formula.primary at h
  split at h
  · cases h
  · obtain ⟨rfl, rfl⟩ := Prod.mk.inj (Except.ok.inj h)
    rw [marked_cons_of_not rfl, mentions_cons_of_not rfl]
    exact ⟨rfl, (Nat.zero_add _).symm⟩
  · obtain ⟨rfl, rfl⟩ := Prod.mk.inj (Except.ok.inj h)
    rw [marked_cons_of_not rfl, mentions_cons_of_not rfl]
    exact ⟨rfl, (Nat.zero_add _).symm⟩
  · split at h
    · next hmem =>
      obtain ⟨rfl, rfl⟩ := Prod.mk.inj (Except.ok.inj h)
      exact primary_quotedName hold hts hmem
    · cases h
  · simp only [bind_eq_ok] at h
    obtain ⟨⟨inner, mid⟩, hinner, mid', hclose, h⟩ := h
    dsimp only at h hclose
    obtain ⟨rfl, rfl⟩ := Prod.mk.inj (Except.ok.inj h)
    obtain ⟨hinner', hcount⟩ := ih.level _ (hts.suffix (List.suffix_cons _ _)) hinner
    obtain ⟨hclose', hcount'⟩ := close_marked old new hclose
    rw [marked_cons_of_not rfl, mentions_cons_of_not rfl]
    constructor
    · unfold Formula.primary
      simp only [bind_eq_ok]
      exact ⟨_, hinner', _, hclose', rfl⟩
    · omega
  · next name behind =>
    split at h
    · cases h
    · next f hf =>
      simp only [bind_eq_ok] at h
      obtain ⟨⟨args, mid⟩, hargs, mid', hclose, call, hcall, h⟩ := h
      dsimp only at h hclose hcall
      obtain ⟨rfl, rfl⟩ := Prod.mk.inj (Except.ok.inj h)
      have hbehind := (hts.suffix (List.suffix_cons _ _)).suffix (List.suffix_cons _ _)
      obtain ⟨hargs', hcount⟩ := ih.arguments hbehind hargs
      obtain ⟨hclose', hcount'⟩ := close_marked old new hclose
      obtain ⟨hcall', hcolumns⟩ := checkedCall_mapColumns (retitle old new) hcall
      -- the name of a function is no reference, whatever the header is
      have hnames : names old (.name name) (Token.opening :: behind).head? = false := by
        simp [names]
      rw [marked_cons_of_not hnames, mentions_cons_of_not hnames, marked_cons_of_not rfl,
        mentions_cons_of_not rfl]
      constructor
      · unfold Formula.primary
        simp only [hf, bind_eq_ok]
        exact ⟨_, hargs', _, hclose', _, hcall', rfl⟩
      · rw [hcolumns]
        omega
  · next name behind hne =>
    simp only [bind_eq_ok] at h
    obtain ⟨named, hnamed, h⟩ := h
    obtain ⟨rfl, rfl⟩ := Prod.mk.inj (Except.ok.inj h)
    refine primary_bareName hold hno (fun hhead => ?_) hnamed
    obtain ⟨more, rfl⟩ := List.head?_eq_some_iff.mp hhead
    exact hne more rfl
  · cases h

theorem arguments_succ (ih : ReadersFollow old new headers n) :
    FollowsAll old new headers fun hs => Formula.arguments hs (n + 1) := by
  intro ts args rest hts h
  dsimp only at h ⊢
  unfold Formula.arguments at h
  split at h
  · cases h
    exact ⟨rfl, rfl⟩
  · cases h
    rw [marked_cons_of_not rfl, mentions_cons_of_not rfl]
    exact ⟨rfl, (Nat.zero_add _).symm⟩
  · next hnil hclosing =>
    have hmarked : marked old new ts ≠ [] := fun heq => hnil
      (List.length_eq_zero_iff.mp (length_marked old new ts ▸ congrArg List.length heq))
    rw [arguments_of_ne hmarked (marked_ne_cons rfl hclosing)]
    exact ih.someArguments hts h

theorem someArguments_succ (ih : ReadersFollow old new headers n) :
    FollowsAll old new headers fun hs => Formula.someArguments hs (n + 1) := by
  intro ts args rest hts h
  simp only [Formula.someArguments, bind_eq_ok] at h ⊢
  obtain ⟨⟨first, mid⟩, hfirst, h⟩ := h
  dsimp only at h
  obtain ⟨hfirst', hcount⟩ := ih.level _ hts hfirst
  have hmid := hts.suffix ((readersJoin headers n).level hfirst).suffix
  split at h
  · simp only [bind_eq_ok] at h
    obtain ⟨⟨more, mid'⟩, hmore, h⟩ := h
    dsimp only at h
    obtain ⟨rfl, rfl⟩ := Prod.mk.inj (Except.ok.inj h)
    obtain ⟨hmore', hcount'⟩ := ih.someArguments (hmid.suffix (List.suffix_cons _ _)) hmore
    rw [marked_cons_of_not rfl] at hfirst'
    rw [mentions_cons_of_not rfl] at hcount
    refine ⟨⟨_, hfirst', ?_⟩, ?_⟩
    · simp only [bind_eq_ok]
      exact ⟨_, hmore', rfl⟩
    · rw [columnsOfAll, List.count_append]
      omega
  · next hne =>
    obtain ⟨rfl, rfl⟩ := Prod.mk.inj (Except.ok.inj h)
    refine ⟨⟨_, hfirst', ?_⟩, ?_⟩
    · dsimp only
      split
      · next hmarked => exact absurd hmarked (marked_ne_cons rfl hne _)
      · rfl
    · rw [columnsOfAll, columnsOfAll, List.append_nil]
      exact hcount

end ReadersFollow

/-! ### All of the text -/

theorem readersFollow (hold : old ∈ headers) (hno : NoTruth headers new) (n : Nat) :
    ReadersFollow old new headers n := by
  induction n with
  | zero =>
    constructor <;> (try unfold Follows) <;> (try unfold FollowsBehind) <;>
      (try unfold FollowsAll) <;> intros <;> rename_i h <;> cases h
  | succ n ih =>
    exact ⟨ih.level_succ, ih.chain_succ, ih.operand_succ, ih.power_succ, ih.signed_succ,
      ih.primary_succ hold hno, ih.arguments_succ, ih.someArguments_succ⟩

/-- Tokens that write a formula write it over the new headers once those that name the header
  are replaced, and there is one for every reference. -/
theorem ofTokens_marked_of_noTruth {e : Formula} (hold : old ∈ headers)
    (hno : NoTruth headers new) (h : ofTokens headers ts = .ok e) :
    ofTokens (headers.map (retitle old new)) (marked old new ts)
        = .ok (mapColumns (retitle old new) e)
      ∧ mentions old ts = e.columns.count old := by
  unfold ofTokens at h ⊢
  simp only [bind_eq_ok] at h ⊢
  obtain ⟨⟨e', rest⟩, hlevel, h⟩ := h
  dsimp only at h
  split at h
  · cases h
    obtain ⟨hlevel', hcount⟩ :=
      (readersFollow hold hno _).level _ (mayPrecede_of_level hlevel) hlevel
    rw [length_marked]
    exact ⟨⟨_, hlevel', rfl⟩, hcount⟩
  · cases h

/-- The same if the new header is no word for a truth value. -/
theorem ofTokens_marked {e : Formula} (hold : old ∈ headers)
    (htrue : Function.capitals new ≠ "TRUE") (hfalse : Function.capitals new ≠ "FALSE")
    (h : ofTokens headers ts = .ok e) :
    ofTokens (headers.map (retitle old new)) (marked old new ts)
        = .ok (mapColumns (retitle old new) e)
      ∧ mentions old ts = e.columns.count old :=
  ofTokens_marked_of_noTruth hold (fun _ => ⟨htrue, hfalse⟩) h

end SheetScript.Formula
