import SheetScript.Proofs.Optimizer.Passes

/-! # Where shortening ends

  Every rewrite takes one chunk away, or both of a pair.  So the report on a run tells
  how many chunks are left up to that choice, and with more passes than there are chunks
  no pair is left that could be rewritten.  Which passes are run together does not
  matter: a run that is cut off and taken up again ends with the same chunks as one that
  is not cut off.

  - `length_rewriteOnce_le`: a rewrite takes away two chunks at most.
  - `shorten_shorten`: a run that is taken up again.
  - `optimize_converges`: all of it, of every list of chunks and every bound.
-/

namespace SheetScript.Optimizer

variable {older newer : Chunk} {between after chunks next out : List Chunk}

/-! ### What a rewrite takes away -/

/-- What stands between a pair stays. -/
theorem Rewrite.length_le_apply (r : Rewrite) (older : Chunk) (between : List Chunk)
    (newer : Chunk) : between.length ≤ (r.apply older between newer).length := by
  cases r <;> simp [apply]

theorem length_rewriteWith_le (h : rewriteWith older between after = some out) :
    (older :: between ++ after).length ≤ out.length + 2 := by
  induction after generalizing between with
  | nil => cases h
  | cons newer rest ih =>
    rw [rewriteWith] at h
    split at h
    · next r _ =>
      cases h
      have hpair := r.length_le_apply older between newer
      simp only [List.length_append, List.length_cons]
      omega
    · have hlater := ih h
      simp only [List.length_append, List.length_cons, List.length_nil] at hlater ⊢
      omega

/-- A rewrite takes away two chunks at most. -/
theorem length_rewriteOnce_le (h : rewriteOnce chunks = some next) :
    chunks.length ≤ next.length + 2 := by
  induction chunks generalizing next with
  | nil => cases h
  | cons c rest ih =>
    rw [rewriteOnce] at h
    split at h
    · next hout =>
      cases h
      exact length_rewriteWith_le hout
    · obtain ⟨out, hout, rfl⟩ := Option.map_eq_some_iff.mp h
      have hrest := ih hout
      simp only [List.length_cons]
      omega

/-! ### What a run takes away -/

/-- A run takes away a chunk or two for each of its rewrites. -/
theorem length_shorten (limit : Nat) (chunks : List Chunk) :
    (shorten limit chunks).chunks.length + (shorten limit chunks).rewrites ≤ chunks.length
      ∧ chunks.length
        ≤ (shorten limit chunks).chunks.length + 2 * (shorten limit chunks).rewrites := by
  induction limit generalizing chunks with
  | zero => simp [shorten]
  | succ limit ih =>
    rw [shorten]
    cases h : rewriteOnce chunks with
    | none => simp
    | some next =>
      obtain ⟨hmost, hleast⟩ := ih next
      have hfewer := length_rewriteOnce h
      have htwo := length_rewriteOnce_le h
      constructor
      · show (shorten limit next).chunks.length + ((shorten limit next).rewrites + 1) ≤ _
        omega
      · show _ ≤ (shorten limit next).chunks.length + 2 * ((shorten limit next).rewrites + 1)
        omega

/-! ### Chunks that are left -/

/-- The bound was not met, so the last pass found no pair. -/
theorem not_rewritable_shorten {limit : Nat} (h : (shorten limit chunks).hitLimit = false) :
    ¬ Rewritable (shorten limit chunks).chunks := by
  obtain ⟨-, hlimit, hpair⟩ := shorten_by_needed limit chunks
  rw [hpair]
  have hlt : ¬ limit ≤ needed chunks := fun hle => by simp [hlimit.mpr hle] at h
  omega

/-- Where no pair can be rewritten, a run changes nothing. -/
theorem shorten_of_not_rewritable (limit : Nat) (h : ¬ Rewritable chunks) :
    shorten limit chunks = ⟨chunks, 0, limit == 0⟩ := by
  cases limit with
  | zero => rfl
  | succ limit =>
    rw [shorten, rewriteOnce_eq_none_iff.mpr h]
    rfl

/-- Any two bounds above the number of chunks allow the same run. -/
theorem shorten_eq_of_length_lt {m n : Nat} (hm : chunks.length < m) (hn : chunks.length < n) :
    shorten m chunks = shorten n chunks := by
  have hleast : ∀ {k}, chunks.length < k →
      shorten k chunks = shorten (chunks.length + 1) chunks := fun hk =>
    shorten_eq_of_le hk (hitLimit_shorten_of_length_lt (Nat.lt_succ_self _))
  rw [hleast hm, hleast hn]

/-- A run that was cut off ends, when it is taken up again without a bound, as it would
  have ended without the cut. -/
theorem shorten_shorten {limit m n : Nat} (hm : (shorten limit chunks).chunks.length < m)
    (hn : chunks.length < n) :
    (shorten m (shorten limit chunks).chunks).chunks = (shorten n chunks).chunks := by
  induction limit generalizing chunks n with
  | zero => exact congrArg _ (shorten_eq_of_length_lt hm hn)
  | succ limit ih =>
    rw [shorten] at hm ⊢
    cases h : rewriteOnce chunks with
    | none =>
      rw [h] at hm
      exact congrArg _ (shorten_eq_of_length_lt hm hn)
    | some next =>
      rw [h] at hm
      obtain ⟨n, rfl⟩ : ∃ k, n = k + 1 := ⟨n - 1, by omega⟩
      have hfewer := length_rewriteOnce h
      have hnext : next.length < n := by omega
      -- the first rewrite of the run without a cut is the same
      rw [shorten, h]
      exact ih hm hnext

/-! ### Every run -/

/-- Without verification the optimizer always answers, within its bound of passes.  Each
  rewrite takes one chunk away or two.  Unless the bound was met, no pair of the result can
  be rewritten and another run changes nothing; a bound above the number of chunks is never
  met and allows the same run as any other such bound; and a result that was cut off leads
  to the chunks of the run that was not. -/
theorem optimize_converges (limit : Nat) (inputs : Symbolic.InputLayout) (chunks : List Chunk) :
    ∃ out report, optimize limit false inputs chunks = .ok (out, report)
      ∧ report.before = chunks.length ∧ report.after = out.length
      ∧ report.passes ≤ limit
      ∧ (∀ next, rewriteOnce chunks = some next →
          next.length + 1 ≤ chunks.length ∧ chunks.length ≤ next.length + 2)
      ∧ report.after + report.rewrites ≤ report.before
      ∧ report.before ≤ report.after + 2 * report.rewrites
      ∧ (report.hitLimit = false →
          ¬ Rewritable out
            ∧ ∀ m, ∃ again, optimize m false inputs out = .ok (out, again) ∧ again.rewrites = 0)
      ∧ (chunks.length < limit →
          report.hitLimit = false
            ∧ ∀ m, chunks.length < m → optimize m false inputs chunks = .ok (out, report))
      ∧ ∀ m n, out.length < m → chunks.length < n →
          (optimize m false inputs out).map Prod.fst
            = (optimize n false inputs chunks).map Prod.fst := by
  have hpasses : ((shorten limit chunks).report chunks).passes ≤ limit := by
    show (shorten limit chunks).passes ≤ limit
    rw [passes_shorten]
    exact Nat.min_le_left _ _
  obtain ⟨hmost, hleast⟩ := length_shorten limit chunks
  refine ⟨(shorten limit chunks).chunks, (shorten limit chunks).report chunks, rfl, rfl, rfl,
    hpasses, ?_, hmost, hleast, ?_, ?_, ?_⟩
  · intro next h
    exact ⟨length_rewriteOnce h, length_rewriteOnce_le h⟩
  · intro hhit
    have hnone := not_rewritable_shorten hhit
    refine ⟨hnone, fun m => ?_⟩
    unfold optimize
    rw [shorten_of_not_rewritable m hnone]
    exact ⟨_, rfl, rfl⟩
  · intro hlt
    refine ⟨hitLimit_shorten_of_length_lt hlt, fun m hm => ?_⟩
    unfold optimize
    rw [shorten_eq_of_length_lt hm hlt]
    rfl
  · intro m n hm hn
    exact congrArg Except.ok (shorten_shorten hm hn)

namespace Sample

/-- A formula. -/
def formula : Chunk := ⟨.generated 0, .setFormula ⟨⟨0⟩, "df1"⟩ ⟨"A"⟩ "A" "1" []⟩

/-- The formula, set three times. -/
def thrice : List Chunk := [formula, formula, formula]

end Sample

theorem optimize_converges_thrice :
    (∃ report, optimize 1 false [] Sample.thrice = .ok ([Sample.formula, Sample.formula], report)
        ∧ report.hitLimit = true)
      ∧ (∃ report, optimize 4 false [] Sample.thrice = .ok ([Sample.formula], report)
        ∧ report.hitLimit = false ∧ report.rewrites = 2)
      ∧ ¬ Rewritable [Sample.formula]
      ∧ (optimize 3 false [] [Sample.formula, Sample.formula]).map Prod.fst
        = .ok [Sample.formula] := by
  obtain ⟨out, report, hout, -, -, -, -, -, -, hfixed, hunlimited, -⟩ :=
    optimize_converges 4 [] Sample.thrice
  obtain ⟨cut, short, hcut, -, -, -, -, -, -, -, -, hagain⟩ := optimize_converges 1 [] Sample.thrice
  have hfull : optimize 4 false [] Sample.thrice = .ok ([Sample.formula], ⟨3, 1, 2, 3, false⟩) := by
    decide
  have hlimited : optimize 1 false [] Sample.thrice
      = .ok ([Sample.formula, Sample.formula], ⟨3, 2, 1, 1, true⟩) := by
    decide
  obtain ⟨rfl, rfl⟩ := Prod.mk.inj (Except.ok.inj (hfull.symm.trans hout))
  obtain ⟨rfl, rfl⟩ := Prod.mk.inj (Except.ok.inj (hlimited.symm.trans hcut))
  refine ⟨⟨_, hlimited, rfl⟩, ⟨_, hfull, (hunlimited (by decide)).1, rfl⟩, (hfixed rfl).1, ?_⟩
  rw [hagain 3 4 (by decide) (by decide), hfull]
  rfl

end SheetScript.Optimizer
