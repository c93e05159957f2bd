import SheetScript.Proofs.Undoing

/-! # How many passes the optimizer needs

  A pass applies one rewrite, and a last pass finds that nothing is left to rewrite.  A
  bound on the passes is therefore a bound on the rewrites, whatever their cause: it cuts
  off a long session in which every rule does what it should, not only a loop of rules
  that undo each other.

  Every rewrite takes a chunk away, so as many passes as there are chunks are enough.

  - `Optimizer.rewriteOnce_eq_none_iff`: a pass finds nothing where no pair is rewritable.
  - `Optimizer.shorten_by_needed`: what a bound does to a run, by the rewrites it needs.
  - `Session.fixed_point_iff`: the same, of every session.
-/

namespace SheetScript

namespace Optimizer

/-! ### Rewritable pairs -/

/-- Somewhere in the chunks is a pair that can be rewritten, with no chunk in between that
  conflicts with either of the two. -/
def Rewritable (chunks : List Chunk) : Prop :=
  ∃ front older between newer back r, chunks = front ++ older :: between ++ newer :: back ∧
    rewriteFor older.body newer.body = some r ∧ isClear older between newer = true

variable {older : Chunk} {between after chunks next out : List Chunk}

/-- A chunk is rewritten with a later one if some later one allows it. -/
theorem isSome_rewriteWith :
    (rewriteWith older between after).isSome = true ↔
      ∃ mid newer back r, after = mid ++ newer :: back ∧
        rewriteFor older.body newer.body = some r ∧
        isClear older (between ++ mid) newer = true := by
  induction after generalizing between with
  | nil => simp [rewriteWith]
  | cons c rest ih =>
    rw [rewriteWith]
    split
    · next r hr =>
      obtain ⟨hrule, hclear⟩ := Option.filter_eq_some_iff.mp hr
      refine ⟨fun _ => ⟨[], c, rest, r, rfl, hrule, ?_⟩, fun _ => rfl⟩
      rwa [List.append_nil]
    · next hnone =>
      rw [ih]
      constructor
      · rintro ⟨mid, newer, back, r, rfl, hrule, hclear⟩
        refine ⟨c :: mid, newer, back, r, rfl, hrule, ?_⟩
        rwa [List.append_cons]
      · rintro ⟨mid, newer, back, r, hsplit, hrule, hclear⟩
        cases mid with
        | nil =>
          -- the pair with `c` itself was passed over
          obtain ⟨rfl, -⟩ := List.cons.inj hsplit
          rw [List.append_nil] at hclear
          rw [hrule, Option.filter_some, if_pos hclear] at hnone
          cases hnone
        | cons c' mid =>
          obtain ⟨rfl, rfl⟩ := List.cons.inj hsplit
          rw [List.append_cons] at hclear
          exact ⟨mid, newer, back, r, rfl, hrule, hclear⟩

theorem isSome_rewriteOnce : (rewriteOnce chunks).isSome = true ↔ Rewritable chunks := by
  induction chunks with
  | nil => simp [rewriteOnce, Rewritable]
  | cons c rest ih =>
    rw [rewriteOnce]
    split
    · next out hout =>
      have hsome := isSome_rewriteWith.mp (Option.isSome_of_eq_some hout)
      obtain ⟨mid, newer, back, r, rfl, hrule, hclear⟩ := hsome
      exact ⟨fun _ => ⟨[], c, mid, newer, back, r, rfl, hrule, hclear⟩, fun _ => rfl⟩
    · next hnone =>
      rw [Option.isSome_map, ih]
      constructor
      · rintro ⟨front, older, between, newer, back, r, rfl, h⟩
        exact ⟨c :: front, older, between, newer, back, r, rfl, h⟩
      · rintro ⟨front, older, between, newer, back, r, hsplit, hrule, hclear⟩
        cases front with
        | nil =>
          simp only [List.nil_append, List.cons_append, List.cons.injEq] at hsplit
          obtain ⟨rfl, rfl⟩ := hsplit
          have hclear' : isClear c ([] ++ between) newer = true := hclear
          have hsome := isSome_rewriteWith.mpr ⟨between, newer, back, r, rfl, hrule, hclear'⟩
          rw [hnone] at hsome
          cases hsome
        | cons c' front =>
          obtain ⟨rfl, rfl⟩ := List.cons.inj hsplit
          exact ⟨front, older, between, newer, back, r, rfl, hrule, hclear⟩

/-- A pair is two chunks. -/
theorem Rewritable.two_le_length (h : Rewritable chunks) : 2 ≤ chunks.length := by
  obtain ⟨front, older, between, newer, back, r, rfl, -⟩ := h
  simp only [List.length_append, List.length_cons]
  omega

/-- A pass finds nothing exactly where no pair can be rewritten. -/
theorem rewriteOnce_eq_none_iff : rewriteOnce chunks = none ↔ ¬ Rewritable chunks := by
  rw [← isSome_rewriteOnce, Bool.not_eq_true, Option.isSome_eq_false_iff, Option.isNone_iff_eq_none]

/-! ### Every rewrite takes a chunk away -/

theorem Rewrite.length_apply (r : Rewrite) (older : Chunk) (between : List Chunk) (newer : Chunk) :
    (r.apply older between newer).length ≤ between.length + 1 := by
  cases r <;> simp [apply]

theorem length_rewriteWith (h : rewriteWith older between after = some out) :
    out.length < (older :: between ++ after).length := by
  induction after generalizing between with
  | nil => cases h
  | cons newer rest ih =>
    rw [rewriteWith] at h
    split at h
    · next r _ =>
      cases h
      have hpair := r.length_apply older between newer
      simp only [List.length_append, List.length_cons]
      omega
    · have hlater := ih h
      simp only [List.length_append, List.length_cons, List.length_nil] at hlater ⊢
      omega

theorem length_rewriteOnce (h : rewriteOnce chunks = some out) : out.length < chunks.length := by
  induction chunks generalizing out with
  | nil => cases h
  | cons c rest ih =>
    rw [rewriteOnce] at h
    split at h
    · next hout =>
      cases h
      exact length_rewriteWith hout
    · obtain ⟨out', hout, rfl⟩ := Option.map_eq_some_iff.mp h
      exact Nat.succ_lt_succ (ih hout)

/-! ### Rewrites that are needed -/

/-- The rewrites on the way to chunks of which no pair can be rewritten. -/
def needed (chunks : List Chunk) : Nat := (shorten (chunks.length + 1) chunks).rewrites

/-- Chunks that are too few to meet the bound, do not meet it. -/
theorem hitLimit_shorten_of_length_lt {limit : Nat} (h : chunks.length < limit) :
    (shorten limit chunks).hitLimit = false := by
  induction limit generalizing chunks with
  | zero => cases h
  | succ limit ih =>
    rw [shorten]
    split
    · rfl
    · next next hnext =>
      have hfewer := length_rewriteOnce hnext
      exact ih (by omega)

/-- More passes change nothing once the bound is not met. -/
theorem shorten_eq_of_le {limit limit' : Nat} (hle : limit ≤ limit')
    (h : (shorten limit chunks).hitLimit = false) :
    shorten limit' chunks = shorten limit chunks := by
  induction limit generalizing limit' chunks with
  | zero => cases h
  | succ limit ih =>
    obtain ⟨limit', rfl⟩ : ∃ n, limit' = n + 1 := ⟨limit' - 1, by omega⟩
    rw [shorten] at h
    rw [shorten, shorten]
    split
    · rfl
    · next next hnext =>
      rw [hnext] at h
      rw [ih (Nat.le_of_succ_le_succ hle) h]

theorem needed_of_none (h : rewriteOnce chunks = none) : needed chunks = 0 := by
  rw [needed, shorten, h]

theorem needed_of_some (h : rewriteOnce chunks = some next) : needed chunks = needed next + 1 := by
  have hfewer := length_rewriteOnce h
  have hsame : shorten chunks.length next = shorten (next.length + 1) next :=
    shorten_eq_of_le hfewer (hitLimit_shorten_of_length_lt (Nat.lt_succ_self _))
  rw [needed, shorten, h]
  dsimp only
  rw [hsame, needed]

/-- There are more chunks than rewrites that are needed, unless none is. -/
theorem needed_le (chunks : List Chunk) : needed chunks ≤ chunks.length - 1 := by
  -- by induction on the number of chunks, which every rewrite lowers
  induction hn : chunks.length using Nat.strongRecOn generalizing chunks with
  | ind n ih =>
    subst hn
    cases h : rewriteOnce chunks with
    | none =>
      rw [needed_of_none h]
      exact Nat.zero_le _
    | some next =>
      have hfewer := length_rewriteOnce h
      have htwo := (isSome_rewriteOnce.mp (Option.isSome_of_eq_some h)).two_le_length
      have hlater := ih next.length hfewer next rfl
      rw [needed_of_some h]
      omega

/-! ### What a bound does -/

/-- A run with a bound makes the rewrites that are needed as far as the bound allows.  It
  meets the bound if there are as many of them, and leaves a pair if there are more. -/
theorem shorten_by_needed (limit : Nat) (chunks : List Chunk) :
    (shorten limit chunks).rewrites = min limit (needed chunks)
      ∧ ((shorten limit chunks).hitLimit = true ↔ limit ≤ needed chunks)
      ∧ (Rewritable (shorten limit chunks).chunks ↔ limit < needed chunks) := by
  induction limit generalizing chunks with
  | zero =>
    refine ⟨(Nat.zero_min _).symm, by simp [shorten], ?_⟩
    show Rewritable chunks ↔ _
    rw [← isSome_rewriteOnce]
    cases h : rewriteOnce chunks with
    | none => simp [needed_of_none h]
    | some next => simp [needed_of_some h]
  | succ limit ih =>
    rw [shorten]
    cases h : rewriteOnce chunks with
    | none => simp [needed_of_none h, rewriteOnce_eq_none_iff.mp h]
    | some next =>
      obtain ⟨hrewrites, hlimit, hpair⟩ := ih next
      rw [needed_of_some h]
      refine ⟨?_, hlimit.trans Nat.succ_le_succ_iff.symm, hpair.trans Nat.succ_lt_succ_iff.symm⟩
      show (shorten limit next).rewrites + 1 = _
      omega

/-- One pass for each rewrite and one more to find that nothing is left, within the bound. -/
theorem passes_shorten (limit : Nat) (chunks : List Chunk) :
    (shorten limit chunks).passes = min limit (needed chunks + 1) := by
  obtain ⟨hrewrites, hlimit, -⟩ := shorten_by_needed limit chunks
  unfold Shortened.passes
  split
  · next hhit =>
    have hle := hlimit.mp hhit
    omega
  · next hhit =>
    have hlt := mt hlimit.mpr hhit
    omega

end Optimizer

/-- Where shortening is asked for, a script has the shortened chunks and their report. -/
theorem Script.shortened_build {settings : Settings} {steps : List Step} {final : State}
    {script : Script} (hoptimizes : settings.optimizes = true)
    (h : build settings steps final = .ok script) :
    let r := Optimizer.shorten settings.passLimit (chunksOf steps)
    script.chunks = r.chunks ∧ script.report = r.report (chunksOf steps) := by
  simp only [build, bind_eq_ok, pure_eq_ok, Prod.exists] at h
  obtain ⟨chunks, report, hshort, stylers, -, rfl⟩ := h
  unfold shortened Optimizer.optimize at hshort
  rw [if_pos hoptimizes] at hshort
  split at hshort
  · simp only [bind_eq_ok, pure_eq_ok, Prod.mk.injEq] at hshort
    obtain ⟨-, -, rfl, rfl⟩ := hshort
    exact ⟨rfl, rfl⟩
  · cases hshort
    exact ⟨rfl, rfl⟩

/-- Verification accepts what shortening makes of accepted steps that overlook nothing. -/
theorem State.Sound.verify_shorten {s : State} {steps : List Step} (limit : Nat) (hs : s.Sound)
    (ha : s.Accepts steps) (hregular : ∀ step ∈ steps, step.Regular)
    (hids : ∀ step ∈ steps, step.ResetsNative)
    (hnothing : Optimizer.NothingOverlooked (Script.chunksOf steps)) :
    Symbolic.verify s.inputLayout (Script.chunksOf steps)
      (Optimizer.shorten limit (Script.chunksOf steps)).chunks = .ok () := by
  obtain ⟨⟨d, hd⟩, ⟨e, he⟩⟩ :=
    hs.shorten_shows Symbolic.Fingerprint.interpretation limit ha hregular hids
  obtain ⟨-, -, hframes, heffects⟩ := hs.shorten_machines limit (.inr hnothing) ha hregular hids
  exact (Symbolic.verifyWith_eq_ok_iff hd he).mpr ⟨hframes, heffects⟩

/-- Only blocks overlook anything. -/
theorem Optimizer.nothingOverlooked_of_columns {chunks : List Chunk}
    (h : ∀ c ∈ chunks, c.body.isBlock = false) : NothingOverlooked chunks := by
  intro older k newer hsub t ht id hid hnewer hoverlooks
  have hblock := h k (hsub.subset (by simp))
  rw [hoverlooks.1] at hblock
  cases hblock

namespace Session

open Optimizer Symbolic

/-! ### Every session -/

variable {settings : Settings} {inputs : List (String × Frame)} {first : Session}

/-- However a session came about, if its settings ask for shortening: its script is at a fixed
  point, and the report says so, exactly if the chunks of its steps need fewer rewrites than
  the bound allows passes.  They need fewer rewrites than there are chunks, so a session with
  no more chunks than the bound is safe; with more rewrites than the bound, a pair is left. -/
theorem fixed_point_iff (hstart : start settings inputs = .ok first)
    (hoptimizes : settings.optimizes = true) (calls : List (Disk × Call)) :
    let s := first.performAll calls
    let chunks := Script.chunksOf s.applied
    let report := s.script.report
    (report.hitLimit = false ∧ ¬ Rewritable s.script.chunks ↔ needed chunks < settings.passLimit)
      ∧ (report.hitLimit = true ↔ settings.passLimit ≤ needed chunks)
      ∧ (Rewritable s.script.chunks ↔ settings.passLimit < needed chunks)
      ∧ report.before = chunks.length ∧ report.after = s.script.chunks.length
      ∧ report.rewrites = min settings.passLimit (needed chunks)
      ∧ report.passes = min settings.passLimit (needed chunks + 1)
      ∧ needed chunks ≤ chunks.length - 1 := by
  intro s chunks report
  obtain ⟨hfirst, hsettings, -⟩ :
    first.Consistent (fun _ => True) (fun _ => True) first ∧ _ := consistent_start hstart
  have hs : s.Consistent (fun _ => True) (fun _ => True) first :=
    hfirst.performAll Disk.closed_all fun _ _ => ⟨trivial, fun _ _ => trivial⟩
  -- the script was built under the settings of the start
  have hscript := hs.script
  rw [hs.settings, hsettings] at hscript
  obtain ⟨hchunks, hreport⟩ := Script.shortened_build hoptimizes hscript
  obtain ⟨hrewrites, hlimit, hpair⟩ := shorten_by_needed settings.passLimit chunks
  have hreport : report = (shorten settings.passLimit chunks).report chunks := hreport
  rw [hreport, hchunks]
  refine ⟨?_, hlimit, hpair, rfl, rfl, hrewrites, passes_shorten _ _, needed_le chunks⟩
  show (shorten settings.passLimit chunks).hitLimit = false ∧ _ ↔ _
  rw [← Bool.not_eq_true, hlimit, hpair]
  omega

/-! ### Samples

  One formula is set again and again.  Every repetition makes the one before it
  superfluous, so a log of two needs one rewrite, and a log of 66 needs 65. -/

namespace Sample

/-- A table of one column. -/
def lone : List (String × Frame) := [("df1", ⟨[⟨"A", .int64, [.int 1]⟩], 1⟩)]

/-- The formula. -/
def formula : Edit := .setFormula ⟨0, ⟨"A"⟩, "=1", none⟩

/-- The session over the table, without verification. -/
def hasty : Session := (start { verifies := false } lone).toOption.getD default

end Sample

theorem fixed_point_iff_repeated :
    let s := Sample.hasty.performAll [({}, .push Sample.formula), ({}, .push Sample.formula)]
    start { verifies := false } Sample.lone = .ok Sample.hasty
      ∧ s.script.report = ⟨2, 1, 1, 2, false⟩ ∧ ¬ Rewritable s.script.chunks := by
  intro s
  have hstart : start { verifies := false } Sample.lone = .ok Sample.hasty :=
    eq_ok_of_toBool (by decide) default
  have hneeded : needed (Script.chunksOf s.applied) < 64 := by decide +kernel
  obtain ⟨hpoint, -⟩ := fixed_point_iff hstart rfl
    [({}, .push Sample.formula), ({}, .push Sample.formula)]
  exact ⟨hstart, by decide +kernel, (hpoint.mpr hneeded).2⟩

/-- A session that loads column edits has the shortened chunks and their report, also if its
  settings ask for verification. -/
theorem load_of_columns {s : Session} {d : Disk} {a : Analysis} {edits : List Edit}
    {steps : List Step} (hs : s.initial.Initial) (hoptimizes : s.settings.optimizes = true)
    (hedits : (a.upgrade s.initial.sheets.length).bind Analysis.edits = .ok edits)
    (hreplay : (Step.replay d s.initial
      (edits.zipIdx.map fun e => (StepId.generated (s.nextStep + e.2), e.1))).1 = .ok steps)
    (hlegacy : ∀ step ∈ steps, step.edit.usesLegacyIds = false)
    (hfirst : Step.ResetsFirst steps)
    (hcolumns : ∀ c ∈ Script.chunksOf steps, c.body.isBlock = false)
    (hstylers : ∀ sh ∈ (s.initial.after steps).sheets, (Styler.code sh).toBool = true) :
    let r := shorten s.settings.passLimit (Script.chunksOf steps)
    let script := (s.performAll [(d, .load a)]).script
    script.chunks = r.chunks ∧ script.report = r.report (Script.chunksOf steps) := by
  intro r script
  -- the script of the steps can be built
  obtain ⟨ha, -⟩ :=
    Step.acceptsOn_of_replay Disk.closed_all trivial (fun _ _ => trivial) hreplay
  have ha : s.initial.Accepts steps := ha
  obtain ⟨hsound, hnative⟩ := hs.sound_native
  have hverbatim := ha.verbatim_of_columns hcolumns
  have hregular : ∀ step ∈ steps, step.Regular := fun step hstep =>
    .of_native (hlegacy step hstep) (hverbatim step hstep)
  have hids := hfirst.resetsNative hsound hnative ha hregular
  have hverify := hsound.verify_shorten s.settings.passLimit ha hregular hids
    (nothingOverlooked_of_columns hcolumns)
  have hbuild : ∃ built, Script.build s.settings steps (s.initial.after steps) = .ok built :=
    (Script.exists_build ha).mpr
      ⟨fun sh hsh => ⟨_, eq_ok_of_toBool (hstylers sh hsh) none⟩, fun _ _ => hverify⟩
  obtain ⟨built, hbuilt⟩ := hbuild
  -- so the log is taken over
  have hload : (s.load d a).1 = .ok
      { s with
        nextStep := s.nextStep + edits.length, steps, index := steps.length, script := built } := by
    rw [load_eq, hedits]
    dsimp only
    simp only [rerun, State.after, commit, bind_eq_ok, pure_eq_ok]
    refine ⟨steps, hreplay, built, ?_, rfl⟩
    rw [List.nil_append, List.take_length]
    exact hbuilt
  have hscript : script = built := by
    show (s.perform (d, .load a)).script = built
    rw [perform_eq, Call.outcome, hload]
  rw [hscript]
  exact Script.shortened_build hoptimizes hbuilt

namespace Sample

/-- The session over the table, under the default settings. -/
def standard : Session where
  settings := {}
  initial := (State.ofInputs lone).toOption.getD {}
  script := ⟨standardPreamble, [], [], ⟨0, 0, 0, 1, false⟩⟩

/-- The formula, 66 times. -/
def repetition : Analysis := ⟨Analysis.currentVersion, List.replicate 66 (.ofEdit formula)⟩

/-- The edits under the ids that they are loaded with. -/
def numbered : List (StepId × Edit) :=
  ((Call.load repetition).edits 1).zipIdx.map fun e =>
    (StepId.generated (standard.nextStep + e.2), e.1)

/-- The steps that they are loaded as. -/
def repeated : List Step := (Step.replay {} standard.initial numbered).1.toOption.getD []

theorem start_standard : start {} lone = .ok standard := by
  have hinitial : State.ofInputs lone = .ok standard.initial := rfl
  have hverify : verify standard.initial.inputLayout [] [] = .ok () := verifyWith_self _ _ _
  simp only [start, hinitial, bind_eq_ok, pure_eq_ok]
  refine ⟨_, rfl, standard.script, ?_, rfl⟩
  simp only [Script.build, bind_eq_ok, Prod.exists]
  refine ⟨[], ⟨0, 0, 0, 1, false⟩, ?_, [none], rfl, rfl⟩
  show (do verify standard.initial.inputLayout [] []; pure _) = _
  rw [hverify]
  rfl

end Sample

/-- The default bound cuts the optimizer off: a pair is left that can be rewritten. -/
theorem default_bound_cuts_off :
    let s := Sample.standard.performAll [({}, .load Sample.repetition)]
    start {} Sample.lone = .ok Sample.standard
      ∧ s.script.report = ⟨66, 2, 64, 64, true⟩
      ∧ Rewritable s.script.chunks := by
  intro s
  have hinitial : Sample.standard.initial.Initial := ⟨Sample.lone, by decide, rfl⟩
  have hedits : ((Sample.repetition.upgrade 1).bind Analysis.edits).toBool = true := by
    decide +kernel
  have hreplay : (Step.replay {} Sample.standard.initial Sample.numbered).1 = .ok Sample.repeated :=
    eq_ok_of_toBool (by decide +kernel) []
  obtain ⟨hchunks, hreport⟩ := load_of_columns hinitial rfl (eq_ok_of_toBool hedits []) hreplay
    (by decide +kernel) (by decide +kernel) (by decide +kernel) (by decide +kernel)
  have hleft : (rewriteOnce
      (shorten 64 (Script.chunksOf Sample.repeated)).chunks).isSome = true := by
    decide +kernel
  rw [hreport, hchunks]
  exact ⟨Sample.start_standard, by decide +kernel, isSome_rewriteOnce.mp hleft⟩

end Session

end SheetScript
