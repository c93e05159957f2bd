import SheetScript.Proofs.Formula.Acceptance
import SheetScript.Proofs.Formula.Respelling

/-! # References to headers

  A formula names a header bare where the lexer reads the header as one name that is neither a
  function nor a truth value, and between backquotes otherwise.  The reference alone is then a
  formula, the column; and where a column gets another header, the references that take the
  place of the old ones are read as that column.

  Between backquotes there is no way to write a backquote.  So a header with a backquote has
  no reference: no formula over any headers names it.

  - `Formula.Derives.exists_of_subset`: a formula stays one over more headers.
  - `Formula.not_mem_columns_of_quote`: no formula names a header with a backquote.
  - `Formula.reference_denotes_iff`: the references of all other headers are read as they
    should be.
-/

namespace SheetScript.Formula

variable {headers headers' : List Header} {old new : Header} {k n : Nat} {ts : List Token}
  {e : Formula} {text : String}

/-! ### More headers -/

theorem Derives.of_subset (hsub : headers ⊆ headers') (hno : ∀ h ∈ headers', NoTruth headers h)
    (h : Derives headers k ts e) : Derives headers' k ts e := by
  induction h with
  | number x => exact .number x
  | text s => exact .text s
  | quotedColumn hmem => exact .quotedColumn (hsub hmem)
  | column hmem => exact .column (hsub hmem)
  | @truth s b hmem hcapitals =>
    refine .truth b (fun hmem' => ?_) hcapitals
    obtain ⟨htrue, hfalse⟩ := hno s hmem' hmem
    cases b
    · exact hfalse hcapitals
    · exact htrue hcapitals
  | bracketed _ ih => exact .bracketed ih
  | call args hf _ hcallable ih => exact .call args hf ih hcallable
  | negated _ ih => exact .negated ih
  | signed _ ih => exact .signed ih
  | power _ _ iha ihb => exact .power iha ihb
  | binary hpower _ _ iha ihb => exact .binary hpower iha ihb
  | weaken _ ih => exact .weaken ih

/-- What can be called with some arguments can be called with as many others that have the same
  numbers among them. -/
theorem Callable.congr {f : Function} {args args' : List Formula} (hcallable : Callable f args)
    (h : List.Forall₂ (fun e e' => ∀ x, e = .number x → e' = .number x) args args') :
    Callable f args' := by
  obtain ⟨haccepts, hdigits⟩ := hcallable
  refine ⟨h.length_eq ▸ haccepts, fun hround digits' hmem => ?_⟩
  cases h with
  | nil => cases hmem
  | cons _ hmore =>
    cases hmore with
    | nil => cases hmem
    | cons hnumber _ =>
      obtain rfl := Option.some.inj hmem
      obtain ⟨x, rfl, hx⟩ := hdigits hround _ rfl
      exact ⟨x, hnumber x rfl, hx⟩

/-- The tokens of an argument write another one over other headers, but the same numbers. -/
structure RereadOver (headers' : List Header) (a a' : List Token × Formula) : Prop where
  tokens : a'.1 = a.1
  derives : Derives headers' 0 a'.1 a'.2
  numbers : ∀ x, a.2 = .number x → a'.2 = .number x

/-- A formula stays one where there are more headers.  It is another one only if one of them is
  written like a truth value, and even then it has the same numbers. -/
theorem Derives.exists_of_subset (hsub : headers ⊆ headers') (h : Derives headers k ts e) :
    ∃ e', Derives headers' k ts e' ∧ ∀ x, e = .number x → e' = .number x := by
  induction h with
  | number x => exact ⟨_, .number x, fun _ h => h⟩
  | text s => exact ⟨_, .text s, fun _ h => h⟩
  | quotedColumn hmem => exact ⟨_, .quotedColumn (hsub hmem), fun _ h => h⟩
  | column hmem => exact ⟨_, .column (hsub hmem), fun _ h => h⟩
  | @truth s b hmem hcapitals =>
    -- a truth value becomes the column of its name
    by_cases hmem' : s ∈ headers'
    · exact ⟨_, .column hmem', nofun⟩
    · exact ⟨_, .truth b hmem' hcapitals, fun _ h => h⟩
  | bracketed _ ih =>
    obtain ⟨e', hd, hnumber⟩ := ih
    exact ⟨e', .bracketed hd, hnumber⟩
  | @call s f args hf _ hcallable ih =>
    obtain ⟨args', hargs⟩ : ∃ args', List.Forall₂ (RereadOver headers') args args' :=
      exists_forall₂_iff.mpr fun a ha =>
        let ⟨e', hd, hnumber⟩ := ih a ha
        ⟨(a.1, e'), rfl, hd, hnumber⟩
    have htokens : args'.map Prod.fst = args.map Prod.fst :=
      map_eq_of_forall₂ hargs fun _ _ hread => hread.tokens
    have hderives : ∀ a' ∈ args', Derives headers' 0 a'.1 a'.2 := fun a' ha' =>
      let ⟨_, _, hread⟩ := exists_of_mem_right hargs ha'
      hread.derives
    have hnumbers : List.Forall₂ (fun e e' => ∀ x, e = .number x → e' = .number x)
        (args.map Prod.snd) (args'.map Prod.snd) := by
      rw [List.forall₂_map_left_iff, List.forall₂_map_right_iff]
      exact hargs.imp fun _ _ hread => hread.numbers
    refine ⟨.call f (args'.map Prod.snd), ?_, nofun⟩
    rw [← htokens]
    exact .call args' hf hderives (hcallable.congr hnumbers)
  | negated _ ih =>
    obtain ⟨e', hd, -⟩ := ih
    exact ⟨_, .negated hd, nofun⟩
  | signed _ ih =>
    obtain ⟨e', hd, hnumber⟩ := ih
    exact ⟨e', .signed hd, hnumber⟩
  | power _ _ iha ihb =>
    obtain ⟨a', ha, -⟩ := iha
    obtain ⟨b', hb, -⟩ := ihb
    exact ⟨_, .power ha hb, nofun⟩
  | binary hpower _ _ iha ihb =>
    obtain ⟨a', ha, -⟩ := iha
    obtain ⟨b', hb, -⟩ := ihb
    exact ⟨_, .binary hpower ha hb, nofun⟩
  | weaken _ ih =>
    obtain ⟨e', hd, hnumber⟩ := ih
    exact ⟨e', .weaken hd, hnumber⟩

theorem parse_of_subset (hsub : headers ⊆ headers') (hno : ∀ h ∈ headers', NoTruth headers h)
    (h : parse text headers = .ok e) : parse text headers' = .ok e := by
  rw [parse_eq_ok] at h ⊢
  rcases h with hblank | ⟨hnot, ts, hts, hformula⟩
  · exact .inl hblank
  · obtain ⟨n, hd⟩ := exists_derives_of_ofTokens hformula
    exact .inr ⟨hnot, ts, hts, ofTokens_of_derives (hd.of_subset hsub hno)⟩

theorem exists_parse_of_subset (hsub : headers ⊆ headers') (h : parse text headers = .ok e) :
    ∃ e', parse text headers' = .ok e' := by
  simp only [parse_eq_ok] at h ⊢
  rcases h with hblank | ⟨hnot, ts, hts, hformula⟩
  · exact ⟨e, .inl hblank⟩
  · obtain ⟨n, hd⟩ := exists_derives_of_ofTokens hformula
    obtain ⟨e', hd', -⟩ := hd.exists_of_subset hsub
    exact ⟨e', .inr ⟨hnot, ts, hts, ofTokens_of_derives hd'⟩⟩

/-! ### References alone -/

theorem derives_spelled (hmem : new ∈ headers) :
    Derives headers 0 [spelled new] (.column new) := by
  have hphrase : Derives headers 6 [spelled new] (.column new) := by
    unfold spelled
    split
    · exact .column hmem
    · exact .quotedColumn hmem
  exact .weaken (.weaken (.weaken (.weaken (.weaken (.weaken hphrase)))))

theorem cut_reference (hquote : '`' ∉ new.toList) :
    Cut (reference new).toList [⟨[], (reference new).toList, spelled new⟩] [] := by
  have hcut : Cut ([] ++ ((reference new).toList ++ []))
      [⟨[], (reference new).toList, spelled new⟩] [] :=
    .cons nofun (spells_reference hquote) nofun (.nil nofun)
  rwa [List.append_nil] at hcut

theorem splitEquals_formula (text : String) :
    splitEquals ("=" ++ text).toList = (['='], text.toList) := by
  rw [String.toList_append]
  exact splitEquals_of_equals (List.forall_mem_nil _) text.toList

theorem parse_reference (hmem : new ∈ headers) (hquote : '`' ∉ new.toList) :
    parse ("=" ++ reference new) headers = .ok (.column new) := by
  rw [parse_eq_ok, splitEquals_formula]
  have hcut := cut_reference hquote
  have hblank : ¬ ∀ c ∈ (reference new).toList, Text.isBlank c = true := by
    rw [hcut.blank_iff]
    nofun
  refine .inr ⟨by simpa using hblank, [spelled new], tokens_eq_ok.mpr ⟨_, _, hcut, rfl⟩, ?_⟩
  exact ofTokens_of_derives (n := 0) (derives_spelled hmem)

/-! ### Backquotes -/

theorem not_quote_of_names {lexeme : List Char} {t : Token} {next : Option Token}
    (hspells : Spells lexeme t) (hnames : names new t next = true) : '`' ∉ new.toList := by
  cases hspells with
  | @name c more hc _ hmore =>
    obtain ⟨heq, -⟩ := Bool.and_eq_true_iff.mp hnames
    rw [← beq_iff_eq.mp heq, String.toList_ofList]
    intro hmem
    have hparts : ∀ d ∈ c :: more, isNamePart d = true := List.forall_mem_cons.mpr ⟨hc, hmore⟩
    exact absurd (hparts _ hmem) (by decide)
  | quotedName hinner =>
    rwa [← beq_iff_eq.mp hnames, String.toList_ofList]
  | _ => cases hnames

theorem Cut.spells {cs trailing : List Char} {ps : List Piece} (h : Cut cs ps trailing) :
    ∀ p ∈ ps, Spells p.lexeme p.token := by
  induction h with
  | nil _ => nofun
  | cons _ hspells _ _ ih => exact List.forall_mem_cons.mpr ⟨hspells, ih⟩

theorem exists_names_of_mentions (h : mentions new ts ≠ 0) :
    ∃ t ∈ ts, ∃ next, names new t next = true := by
  induction ts with
  | nil => exact absurd rfl h
  | cons t rest ih =>
    cases hnames : names new t rest.head? with
    | true => exact ⟨t, List.mem_cons_self, _, hnames⟩
    | false =>
      rw [mentions_cons_of_not hnames] at h
      obtain ⟨u, hu, hnext⟩ := ih h
      exact ⟨u, List.mem_cons_of_mem _ hu, hnext⟩

/-- No formula names a header with a backquote. -/
theorem not_quote_of_mem_columns (hmem : new ∈ headers) (h : parse text headers = .ok e)
    (hcolumn : new ∈ e.columns) : '`' ∉ new.toList := by
  rcases parse_eq_ok.mp h with ⟨-, rfl⟩ | ⟨-, ts, hts, hformula⟩
  · cases hcolumn
  · obtain ⟨ps, trailing, hcut, rfl⟩ := tokens_eq_ok.mp hts
    have hno : NoTruth headers new := absurd hmem
    obtain ⟨-, hcount⟩ := ofTokens_marked_of_noTruth hmem hno hformula
    obtain ⟨t, ht, next, hnames⟩ : ∃ t ∈ ps.map Piece.token, ∃ next, names new t next = true := by
      refine exists_names_of_mentions ?_
      rw [hcount]
      exact (List.count_pos_iff.mpr hcolumn).ne'
    obtain ⟨p, hp, rfl⟩ := List.mem_map.mp ht
    exact not_quote_of_names (hcut.spells p hp) hnames

/-! ### References that are replaced -/

/-- The references to a header that became another one are read as that one, whatever the other
  header is: should it be written like a truth value, then the names that stood for the value are
  read as it, too. -/
theorem parse_renamed (hquote : '`' ∉ new.toList) (hold : old ∈ headers)
    (h : parse text headers = .ok e) :
    ∃ e', parse text (new :: headers) = .ok e' ∧ (NoTruth headers new → e' = e)
      ∧ parse (renameReferences text old new) (headers.map (retitle old new))
        = .ok (mapColumns (retitle old new) e') := by
  have hsub : headers ⊆ new :: headers := List.subset_cons_self new headers
  obtain ⟨e', he'⟩ := exists_parse_of_subset hsub h
  refine ⟨e', he', fun hno => ?_, ?_⟩
  · have hall : ∀ h ∈ new :: headers, NoTruth headers h :=
      List.forall_mem_cons.mpr ⟨hno, fun _ hmem => absurd hmem⟩
    have hsame := parse_of_subset hsub hall h
    rw [he'] at hsame
    exact Except.ok.inj hsame
  · have hmem : new ∈ new :: headers := List.mem_cons_self
    have hrenamed := parse_respelled_of_noTruth he' (hsub hold) hquote (absurd hmem)
    -- the new header is there in the place of the old one
    have hsame : (new :: headers).map (retitle old new) ⊆ headers.map (retitle old new) := by
      rw [List.map_cons]
      refine List.cons_subset.mpr ⟨?_, List.Subset.refl _⟩
      have hnew : retitle old new new = new := ite_self new
      rw [hnew]
      exact mem_retitled hold
    exact parse_of_subset hsame (fun h hh => absurd (List.mem_cons_of_mem _ hh)) hrenamed

/-- The reference to a header is read as its column exactly if no backquote is in the header, and
  if one is, no formula at all names the header.  A header without backquotes that another one
  becomes is what every replaced reference denotes: the new text is read over the new headers as
  what the old text writes once the new header is known, with the one renamed to the other. -/
theorem reference_denotes_iff (h : Header) :
    (∀ headers, h ∈ headers →
        (parse ("=" ++ reference h) headers = .ok (.column h) ↔ '`' ∉ h.toList))
      ∧ (∀ headers text e, h ∈ headers → parse text headers = .ok e → h ∈ e.columns →
        '`' ∉ h.toList)
      ∧ ('`' ∉ h.toList → ∀ headers old text e, old ∈ headers → parse text headers = .ok e →
        ∃ e', parse text (h :: headers) = .ok e' ∧ (NoTruth headers h → e' = e)
          ∧ parse (renameReferences text old h) (headers.map (retitle old h))
            = .ok (mapColumns (retitle old h) e')) := by
  refine ⟨fun headers hmem => ⟨fun hparse => ?_, parse_reference hmem⟩,
    fun headers text e hmem => not_quote_of_mem_columns hmem,
    fun hquote headers old text e hold => parse_renamed hquote hold⟩
  exact not_quote_of_mem_columns hmem hparse (List.mem_singleton_self h)

namespace Sample

/-- A formula over one column and a truth value. -/
def mixed : String := "=A&TRUE"

theorem parse_mixed {headers : List Header} {e : Formula}
    (h : ofTokens headers [.name "A", .operator .join, .name "TRUE"] = .ok e) :
    parse mixed headers = .ok e := by
  have htokens : tokens (splitEquals mixed.toList).2 = .ok
      [.name "A", .operator .join, .name "TRUE"] := by decide +kernel
  exact parse_eq_ok.mpr (.inr ⟨⟨'A', by decide, by decide⟩, _, htokens, h⟩)

end Sample

/-- A column can be called like a truth value: its reference is put between backquotes. -/
theorem reference_denotes_iff_truth :
    "TRUE" ∈ ["TRUE"] ∧ '`' ∉ "TRUE".toList
      ∧ parse ("=" ++ reference "TRUE") ["TRUE"] = .ok (.column "TRUE")
      ∧ renameReferences Sample.mixed "A" "TRUE" = "=`TRUE`&TRUE"
      ∧ parse "=`TRUE`&TRUE" ["TRUE"] = .ok (.binary .join (.column "TRUE") (.column "TRUE")) := by
  have hmem : "TRUE" ∈ ["TRUE"] := List.mem_singleton_self _
  have hquote : '`' ∉ "TRUE".toList := by decide
  have hrenamed : renameReferences Sample.mixed "A" "TRUE" = "=`TRUE`&TRUE" := by decide +kernel
  obtain ⟨halone, -, hreplaced⟩ := reference_denotes_iff "TRUE"
  have hold : "A" ∈ ["A"] := List.mem_singleton_self _
  have hvalue : parse Sample.mixed ["A"] = .ok (.binary .join (.column "A") (.bool true)) :=
    Sample.parse_mixed rfl
  have hcolumn : parse Sample.mixed ["TRUE", "A"]
      = .ok (.binary .join (.column "A") (.column "TRUE")) :=
    Sample.parse_mixed rfl
  obtain ⟨e', he', -, hnew⟩ := hreplaced hquote ["A"] "A" _ _ hold hvalue
  obtain rfl := Except.ok.inj (hcolumn.symm.trans he')
  rw [hrenamed] at hnew
  exact ⟨hmem, hquote, (halone _ hmem).mpr hquote, hrenamed, hnew⟩

/-- A backquote in a header ends the reference to it. -/
theorem reference_cut_short :
    "a`b" ∈ ["a`b"] ∧ reference "a`b" = "`a`b`"
      ∧ parse ("=" ++ reference "a`b") ["a`b"] = .error (.unterminated '`' 4)
      ∧ renameReferences "=A" "A" "a`b" = "=`a`b`" := by
  have htext : "=" ++ reference "a`b" = "=`a`b`" := by decide
  have htokens : tokens (body "=`a`b`") = .error (.unterminated '`' 4) := by decide +kernel
  refine ⟨by decide, by decide, ?_, by decide +kernel⟩
  rw [htext]
  unfold parse
  rw [if_neg (by decide +kernel), htokens]
  rfl

end SheetScript.Formula
