import SheetScript.Proofs.Outcomes
import SheetScript.Symbolic.Verification

/-! # Chunks with the same bodies

  Nothing that becomes of chunks depends on the steps they come from: chunks with the same
  bodies are rewritten alike, are verified alike, and are shortened with the same report.
-/

namespace SheetScript

/-- What some chunks do, without the steps they come from. -/
def Chunk.bodies (chunks : List Chunk) : List ChunkBody := chunks.map Chunk.body

/-- A run depends on the bodies alone. -/
theorem Symbolic.Machine.run_bodies {τ : Type} (I : Interpretation τ) (inputs : InputLayout)
    (chunks : List Chunk) :
    run I inputs chunks = (Chunk.bodies chunks).foldl (step I) (start I inputs) := by
  rw [Chunk.bodies, List.foldl_map]
  rfl

namespace Optimizer

variable {older older' newer newer' : Chunk} {between between' rest rest' : List Chunk}

theorem Rewrite.apply_bodies (r : Rewrite) (older older' : Chunk)
    (hbetween : Chunk.bodies between = Chunk.bodies between')
    (hnewer : newer.body = newer'.body) :
    Chunk.bodies (r.apply older between newer) = Chunk.bodies (r.apply older' between' newer') := by
  unfold Chunk.bodies at *
  cases r <;> simp [Rewrite.apply, hbetween, hnewer]

theorem isClear_bodies (holder : older.body = older'.body)
    (hbetween : Chunk.bodies between = Chunk.bodies between') (hnewer : newer.body = newer'.body) :
    isClear older between newer = isClear older' between' newer' := by
  -- what a chunk between the two has to say is said by its body
  have hall : ∀ (older newer : Chunk) (between : List Chunk), isClear older between newer
      = (Chunk.bodies between).all fun b =>
        !b.footprint.conflictsWith older.body.footprint
          && !b.footprint.conflictsWith newer.body.footprint := by
    intro older newer between
    rw [Chunk.bodies, List.all_map]
    rfl
  rw [hall, hall, hbetween, holder, hnewer]

theorem rewriteWith_bodies (holder : older.body = older'.body)
    (hbetween : Chunk.bodies between = Chunk.bodies between')
    (hrest : Chunk.bodies rest = Chunk.bodies rest') :
    (rewriteWith older between rest).map Chunk.bodies
      = (rewriteWith older' between' rest').map Chunk.bodies := by
  induction rest generalizing between between' rest' with
  | nil =>
    obtain rfl : rest' = [] := List.map_eq_nil_iff.mp hrest.symm
    rfl
  | cons newer after ih =>
    cases rest' with
    | nil => cases hrest
    | cons newer' after' =>
      obtain ⟨hnewer, hafter⟩ := List.cons.inj hrest
      rw [rewriteWith, rewriteWith, holder, hnewer, isClear_bodies holder hbetween hnewer]
      split
      · next r _ =>
        have happly := r.apply_bodies older older' hbetween hnewer
        simp only [Option.map_some, Chunk.bodies, List.map_append] at happly hafter ⊢
        rw [happly, hafter]
      · refine ih ?_ hafter
        simp only [Chunk.bodies, List.map_append, List.map_cons, List.map_nil] at hbetween ⊢
        rw [hbetween, hnewer]

theorem rewriteOnce_bodies (h : Chunk.bodies rest = Chunk.bodies rest') :
    (rewriteOnce rest).map Chunk.bodies = (rewriteOnce rest').map Chunk.bodies := by
  induction rest generalizing rest' with
  | nil =>
    obtain rfl : rest' = [] := List.map_eq_nil_iff.mp h.symm
    rfl
  | cons c after ih =>
    cases rest' with
    | nil => cases h
    | cons c' after' =>
      obtain ⟨hc, hafter⟩ := List.cons.inj h
      have hfirst : (rewriteWith c [] after).map Chunk.bodies
          = (rewriteWith c' [] after').map Chunk.bodies :=
        rewriteWith_bodies hc rfl hafter
      -- without a rewriting of the first chunk, it stays where it is
      have hcons : ∀ (c : Chunk) (x : Option (List Chunk)), (x.map (c :: ·)).map Chunk.bodies
          = (x.map Chunk.bodies).map (c.body :: ·) := by
        intro c x
        cases x <;> rfl
      rw [rewriteOnce, rewriteOnce]
      cases hwith : rewriteWith c [] after with
      | none =>
        rw [hwith] at hfirst
        rw [Option.map_eq_none_iff.mp hfirst.symm]
        show ((rewriteOnce after).map (c :: ·)).map _ = ((rewriteOnce after').map (c' :: ·)).map _
        rw [hcons, hcons, ih hafter, hc]
      | some next =>
        rw [hwith] at hfirst
        obtain ⟨next', hwith', -⟩ := Option.map_eq_some_iff.mp hfirst.symm
        rw [hwith'] at hfirst ⊢
        exact hfirst

theorem length_bodies (chunks : List Chunk) : (Chunk.bodies chunks).length = chunks.length :=
  List.length_map _

/-- Shortening takes the same course. -/
theorem shorten_bodies (limit : Nat) (h : Chunk.bodies rest = Chunk.bodies rest') :
    Chunk.bodies (shorten limit rest).chunks = Chunk.bodies (shorten limit rest').chunks
      ∧ (shorten limit rest).rewrites = (shorten limit rest').rewrites
      ∧ (shorten limit rest).hitLimit = (shorten limit rest').hitLimit := by
  induction limit generalizing rest rest' with
  | zero => exact ⟨h, rfl, rfl⟩
  | succ limit ih =>
    have honce := rewriteOnce_bodies h
    rw [shorten, shorten]
    cases hnext : rewriteOnce rest with
    | none =>
      rw [hnext] at honce
      rw [Option.map_eq_none_iff.mp honce.symm]
      exact ⟨h, rfl, rfl⟩
    | some next =>
      rw [hnext] at honce
      obtain ⟨next', hnext', hbodies⟩ := Option.map_eq_some_iff.mp honce.symm
      obtain ⟨hchunks, hrewrites, hlimit⟩ := ih hbodies.symm
      rw [hnext']
      exact ⟨hchunks, congrArg (· + 1) hrewrites, hlimit⟩

/-- So do shortening and verifying, with the same report. -/
theorem optimize_bodies {limit : Nat} {verifying : Bool} {inputs : Symbolic.InputLayout}
    {chunks : List Chunk} {report : Report} (h : Chunk.bodies rest = Chunk.bodies rest')
    (hrest : optimize limit verifying inputs rest = .ok (chunks, report)) :
    ∃ chunks', optimize limit verifying inputs rest' = .ok (chunks', report)
      ∧ Chunk.bodies chunks' = Chunk.bodies chunks := by
  obtain ⟨hchunks, hrewrites, hlimit⟩ := shorten_bodies limit h
  have hreport : (shorten limit rest).report rest = (shorten limit rest').report rest' := by
    have hbefore : rest.length = rest'.length := by rw [← length_bodies, h, length_bodies]
    have hafter : (shorten limit rest).chunks.length = (shorten limit rest').chunks.length := by
      rw [← length_bodies, hchunks, length_bodies]
    simp only [Shortened.report, Shortened.passes, hbefore, hafter, hrewrites, hlimit]
  -- the machine runs bodies, and does not see from which steps they are
  have hverify : Symbolic.verify inputs rest (shorten limit rest).chunks
      = Symbolic.verify inputs rest' (shorten limit rest').chunks := by
    unfold Symbolic.verify Symbolic.verifyWith
    simp only [Symbolic.Machine.run_bodies, h, hchunks]
  simp only [optimize, hverify, hreport] at hrest ⊢
  cases verifying with
  | false =>
    obtain ⟨rfl, rfl⟩ := Prod.mk.inj (Except.ok.inj hrest)
    exact ⟨_, rfl, hchunks.symm⟩
  | true =>
    simp only [if_true, bind_eq_ok, pure_eq_ok, Prod.mk.injEq] at hrest ⊢
    obtain ⟨u, hu, rfl, rfl⟩ := hrest
    exact ⟨_, ⟨u, hu, rfl, rfl⟩, hchunks.symm⟩

end Optimizer

end SheetScript
