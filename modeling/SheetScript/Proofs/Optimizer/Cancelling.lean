import SheetScript.Proofs.Optimizer.Passes

/-! # A column that comes and goes

  A column is added, edited any number of times and deleted, maybe with others.  All of
  these chunks write the column, so each conflicts with each, and only neighbours can be
  rewritten.  Formulas that read the column and changes of type hold some rewrites up, but
  the last edit before the deletion can always go; so every pass takes one edit away, and
  in the end the insertion meets the deletion.

  - `conflictsWith_of_edits`: chunks that edit one column conflict.
  - `rewriteOnce_of_adds`: a pass takes one edit away.
  - `shorten_of_adds`: all passes.
  - `optimize_comes_and_goes`: the deletion of the other columns is left, if there are any.
-/

namespace SheetScript

open Symbolic

variable {s : SheetId} {id : ColumnId} {a b : ChunkBody}

namespace ChunkBody

/-! ### Chunks about one column -/

/-- Whether a chunk adds a column to a sheet. -/
def Adds (b : ChunkBody) (s : SheetId) (id : ColumnId) : Prop :=
  match b with
  | .addColumn t i _ _ _ _ => t.sheet = s ∧ i = id
  | _ => False

/-- Whether a chunk gives a column of a sheet other values: by a formula or by a change of
  type. -/
def Refills (b : ChunkBody) (s : SheetId) (id : ColumnId) : Prop :=
  match b with
  | .setFormula t i _ _ _ => t.sheet = s ∧ i = id
  | .changeType t i _ _ => t.sheet = s ∧ i = id
  | _ => False

instance : (b : ChunkBody) → Decidable (b.Refills s id)
  | .setFormula t i _ _ _ => inferInstanceAs (Decidable (t.sheet = s ∧ i = id))
  | .changeType t i _ _ => inferInstanceAs (Decidable (t.sheet = s ∧ i = id))
  | .addColumn .. | .deleteColumns .. | .renameColumn .. | .duplicateSheet .. | .deleteSheet ..
  | .renameSheet .. | .block .. => .isFalse fun h => h

/-- Whether a chunk deletes a column of a sheet, maybe with others. -/
def Drops (b : ChunkBody) (s : SheetId) (id : ColumnId) : Prop :=
  match b with
  | .deleteColumns t ids _ => t.sheet = s ∧ id ∈ ids
  | _ => False

theorem Adds.edits (h : b.Adds s id) : b.Edits s id := by
  cases b with
  | addColumn t i => exact ⟨⟨t, rfl, h.1⟩, List.mem_singleton.mpr h.2.symm⟩
  | _ => exact h.elim

theorem Refills.edits (h : b.Refills s id) : b.Edits s id := by
  cases b with
  | setFormula t i | changeType t i => exact ⟨⟨t, rfl, h.1⟩, List.mem_singleton.mpr h.2.symm⟩
  | _ => exact h.elim

theorem Drops.edits (h : b.Drops s id) : b.Edits s id := by
  cases b with
  | deleteColumns t ids => exact ⟨⟨t, rfl, h.1⟩, h.2⟩
  | _ => exact h.elim

theorem Edits.isBlock (h : b.Edits s id) : b.isBlock = false := by
  obtain ⟨⟨t, ht, -⟩, -⟩ := h
  cases b with
  | block => cases ht
  | _ => rfl

/-- Chunks that edit one column conflict, since both write it. -/
theorem conflictsWith_of_edits (ha : a.Edits s id) (hb : b.Edits s id) :
    a.footprint.conflictsWith b.footprint = true := by
  obtain ⟨⟨t, ht, rfl⟩, hida⟩ := ha
  obtain ⟨⟨u, hu, husheet⟩, hidb⟩ := hb
  by_contra hclear
  have hwrites := get?_writes_column hu
  rw [husheet] at hwrites
  have hspares := Footprint.spares_of_clear (Bool.not_eq_true _ ▸ hclear) hwrites hidb
  exact (spares_column ht hspares).1 hida

end ChunkBody

namespace Optimizer

variable {older newer add del : Chunk} {between after edits : List Chunk}

/-! ### Neighbours -/

/-- Past a chunk that edits the column there is nothing to rewrite a chunk with that edits
  it too. -/
theorem rewriteWith_of_edits (holder : older.body.Edits s id)
    (hbetween : ∃ k ∈ between, k.body.Edits s id) : rewriteWith older between after = none := by
  obtain ⟨k, hk, hedits⟩ := hbetween
  -- what was passed over stays in between, so no later chunk is clear of it either
  induction after generalizing between with
  | nil => rfl
  | cons newer rest ih =>
    have hclear : isClear older between newer = false := by
      have hconflict : interferes k older = true := ChunkBody.conflictsWith_of_edits hedits holder
      unfold isClear
      rw [List.all_eq_false]
      exact ⟨k, hk, by simp [hconflict]⟩
    have hnone : (rewriteFor older.body newer.body).filter (fun _ => false) = none := by
      cases rewriteFor older.body newer.body <;> rfl
    rw [rewriteWith, hclear, hnone]
    exact ih (List.mem_append_left _ hk)

/-- Of chunks that all edit the column, only neighbours are rewritten. -/
theorem rewriteOnce_of_edits (holder : older.body.Edits s id) (hnewer : newer.body.Edits s id) :
    rewriteOnce (older :: newer :: after) = match rewriteFor older.body newer.body with
      | some r => some (r.apply older [] newer ++ after)
      | none => (rewriteOnce (newer :: after)).map (older :: ·) := by
  have hlater : rewriteWith older ([] ++ [newer]) after = none :=
    rewriteWith_of_edits holder ⟨newer, List.mem_singleton_self _, hnewer⟩
  rw [rewriteOnce, rewriteWith]
  cases rewriteFor older.body newer.body with
  | none => simp only [Option.filter_none, hlater]
  | some r => rfl

/-! ### Rules -/

/-- An edit before another one goes, unless the later one needs it. -/
theorem rewriteFor_refills (ha : a.Refills s id) (hb : b.Refills s id) :
    rewriteFor a b = none ∨ rewriteFor a b = some .dropOlder := by
  cases a with
  | setFormula t i =>
    cases b with
    | setFormula u j header value reads =>
      by_cases hrule : t.sheet = u.sheet ∧ i = j ∧ i ∉ reads
      · exact .inr (if_pos hrule)
      · exact .inl (if_neg hrule)
    | changeType => exact .inl rfl
    | _ => exact hb.elim
  | changeType =>
    cases b with
    | setFormula | changeType => exact .inl rfl
    | _ => exact hb.elim
  | _ => exact ha.elim

/-- An insertion takes a formula over, unless the formula reads the column. -/
theorem rewriteFor_adds (ha : a.Adds s id) (hb : b.Refills s id) :
    rewriteFor a b = none ∨ ∃ body, rewriteFor a b = some (.merge body) ∧ body.Adds s id := by
  cases a with
  | addColumn t i =>
    cases b with
    | setFormula u j header value reads =>
      by_cases hrule : t.sheet = u.sheet ∧ i = j ∧ i ∉ reads
      · exact .inr ⟨_, if_pos hrule, ha⟩
      · exact .inl (if_neg hrule)
    | changeType => exact .inl rfl
    | _ => exact hb.elim
  | _ => exact ha.elim

/-- The last edit before the deletion always goes. -/
theorem rewriteFor_drops (ha : a.Refills s id) (hb : b.Drops s id) :
    rewriteFor a b = some .dropOlder := by
  cases b with
  | deleteColumns u ids hs =>
    have hdeletes : deletes (.deleteColumns u ids hs) s id = true := by
      simpa [deletes] using And.intro hb.1 hb.2
    cases a with
    | setFormula t i | changeType t i =>
      obtain ⟨rfl, rfl⟩ := ha
      exact if_pos hdeletes
    | _ => exact ha.elim
  | _ => exact hb.elim

/-! ### One pass -/

/-- A pass over some edits before the deletion takes one of them away. -/
theorem rewriteOnce_of_refills (hne : edits ≠ []) (hedits : ∀ k ∈ edits, k.body.Refills s id)
    (hdel : del.body.Drops s id) :
    ∃ fewer, rewriteOnce (edits ++ [del]) = some (fewer ++ [del])
      ∧ fewer.length + 1 = edits.length ∧ ∀ k ∈ fewer, k.body.Refills s id := by
  induction edits with
  | nil => exact absurd rfl hne
  | cons first rest ih =>
    obtain ⟨hfirst, hrest⟩ := List.forall_mem_cons.mp hedits
    cases rest with
    | nil =>
      refine ⟨[], ?_, rfl, nofun⟩
      show rewriteOnce [first, del] = _
      rw [rewriteOnce_of_edits hfirst.edits hdel.edits, rewriteFor_drops hfirst hdel]
      rfl
    | cons second rest =>
      have hsecond := hrest second List.mem_cons_self
      rw [List.cons_append, List.cons_append, rewriteOnce_of_edits hfirst.edits hsecond.edits]
      rcases rewriteFor_refills hfirst hsecond with hrule | hrule
      · -- the first edit stays, and some later one goes
        obtain ⟨fewer, hpass, hlength, hfewer⟩ := ih (List.cons_ne_nil _ _) hrest
        refine ⟨first :: fewer, ?_, ?_, List.forall_mem_cons.mpr ⟨hfirst, hfewer⟩⟩
        · rw [hrule, ← List.cons_append, hpass]
          rfl
        · rw [List.length_cons, hlength, ← List.length_cons]
      · refine ⟨second :: rest, ?_, rfl, hrest⟩
        rw [hrule]
        rfl

/-- So does a pass over the insertion with the edits behind it. -/
theorem rewriteOnce_of_adds (hadd : add.body.Adds s id) (hne : edits ≠ [])
    (hedits : ∀ k ∈ edits, k.body.Refills s id) (hdel : del.body.Drops s id) :
    ∃ add' fewer, rewriteOnce (add :: edits ++ [del]) = some (add' :: fewer ++ [del])
      ∧ add'.body.Adds s id ∧ fewer.length + 1 = edits.length
      ∧ ∀ k ∈ fewer, k.body.Refills s id := by
  cases edits with
  | nil => exact absurd rfl hne
  | cons first rest =>
    obtain ⟨hfirst, hrest⟩ := List.forall_mem_cons.mp hedits
    rw [List.cons_append, List.cons_append, rewriteOnce_of_edits hadd.edits hfirst.edits]
    rcases rewriteFor_adds hadd hfirst with hrule | ⟨body, hrule, hbody⟩
    · obtain ⟨fewer, hpass, hlength, hfewer⟩ := rewriteOnce_of_refills hne hedits hdel
      refine ⟨add, fewer, ?_, hadd, hlength, hfewer⟩
      rw [hrule, ← List.cons_append, hpass]
      rfl
    · refine ⟨{ add with body }, rest, ?_, hbody, rfl, hrest⟩
      rw [hrule]
      rfl

/-! ### All passes -/

/-- The deletion of the columns other than one, if there are any. -/
def dropOthers (step : StepId) (u : Target) (columns : List (ColumnId × Header)) (id : ColumnId) :
    List Chunk :=
  let others := columns.filter fun c => c.1 ≠ id
  if others = [] then []
  else [⟨step, .deleteColumns u (others.map Prod.fst) (others.map Prod.snd)⟩]

section Passes

variable {u : Target} {columns : List (ColumnId × Header)}

theorem rewriteOnce_dropOthers (step : StepId) :
    rewriteOnce (dropOthers step u columns id) = none := by
  unfold dropOthers
  dsimp only
  split_ifs <;> rfl

/-- The insertion goes with the deletion behind it. -/
theorem rewriteOnce_pair (hadd : add.body.Adds u.sheet id)
    (hdel : del.body = .deleteColumns u (columns.map Prod.fst) (columns.map Prod.snd))
    (hid : id ∈ columns.map Prod.fst) :
    rewriteOnce [add, del] = some (dropOthers del.step u columns id) := by
  have hdrops : del.body.Drops u.sheet id := by
    rw [hdel]
    exact ⟨rfl, hid⟩
  rw [rewriteOnce_of_edits hadd.edits hdrops.edits, hdel]
  obtain ⟨step, body⟩ := add
  cases body with
  | addColumn t i header index value reads =>
    obtain ⟨hsheet, rfl⟩ : t.sheet = u.sheet ∧ i = id := hadd
    have hzip : (columns.map Prod.fst).zip (columns.map Prod.snd) = columns := by
      simp [List.zip_map', List.map_id'']
    unfold rewriteFor dropOthers
    simp only [hsheet, hid, and_self, if_true, withoutColumn, hzip, List.unzip_eq_map,
      List.isEmpty_iff, List.map_eq_nil_iff]
    split_ifs <;> rfl
  | _ => exact hadd.elim

/-- Every pass but the last takes an edit away, until the insertion meets the deletion. -/
theorem shorten_of_adds (hadd : add.body.Adds u.sheet id)
    (hedits : ∀ k ∈ edits, k.body.Refills u.sheet id)
    (hdel : del.body = .deleteColumns u (columns.map Prod.fst) (columns.map Prod.snd))
    (hid : id ∈ columns.map Prod.fst) (more : Nat) :
    shorten (edits.length + 2 + more) (add :: edits ++ [del])
      = ⟨dropOthers del.step u columns id, edits.length + 1, false⟩ := by
  have hdrops : del.body.Drops u.sheet id := by
    rw [hdel]
    exact ⟨rfl, hid⟩
  -- on the number of edits; a pass may leave another insertion, which took a formula over
  generalize hn : edits.length = n
  induction n generalizing add edits with
  | zero =>
    obtain rfl := List.length_eq_zero_iff.mp hn
    have hpair : rewriteOnce (add :: [] ++ [del]) = some (dropOthers del.step u columns id) :=
      rewriteOnce_pair hadd hdel hid
    rw [show 0 + 2 + more = more + 1 + 1 by omega, shorten, hpair]
    dsimp only
    rw [shorten, rewriteOnce_dropOthers]
  | succ n ih =>
    have hne : edits ≠ [] := by
      rintro rfl
      cases hn
    obtain ⟨add', fewer, hpass, hadd', hlength, hfewer⟩ :=
      rewriteOnce_of_adds hadd hne hedits hdrops
    rw [show n + 1 + 2 + more = n + 2 + more + 1 by omega, shorten, hpass]
    dsimp only
    rw [ih hadd' hfewer (by omega)]

/-- A column that is added, edited and deleted leaves no trace: with a pass for each chunk, all
  that is left is the deletion of the other columns in their order, if there are any.  Where
  accepted steps emitted the chunks, verification agrees. -/
theorem optimize_comes_and_goes {limit : Nat} (hadd : add.body.Adds u.sheet id)
    (hedits : ∀ k ∈ edits, k.body.Refills u.sheet id)
    (hdel : del.body = .deleteColumns u (columns.map Prod.fst) (columns.map Prod.snd))
    (hid : id ∈ columns.map Prod.fst) (hlimit : edits.length + 2 ≤ limit) :
    let chunks := add :: edits ++ [del]
    let others := columns.filter fun c => c.1 ≠ id
    let left : List Chunk := if others = [] then []
      else [⟨del.step, .deleteColumns u (others.map Prod.fst) (others.map Prod.snd)⟩]
    let report : Report := ⟨edits.length + 2, left.length, edits.length + 1, edits.length + 2, false⟩
    (∀ inputs, optimize limit false inputs chunks = .ok (left, report))
      ∧ ∀ (first : State) (steps : List Step), first.Initial → first.Accepts steps →
          (∀ step ∈ steps, step.edit.usesLegacyIds = false) → Step.ResetsFirst steps →
          Script.chunksOf steps = chunks →
          optimize limit true first.inputLayout chunks = .ok (left, report) := by
  intro chunks others left report
  have hshort : shorten limit chunks = ⟨left, edits.length + 1, false⟩ := by
    obtain ⟨more, rfl⟩ := Nat.exists_eq_add_of_le hlimit
    exact shorten_of_adds hadd hedits hdel hid more
  have hreport : (shorten limit chunks).report chunks = report := by
    rw [hshort]
    simp [Shortened.report, Shortened.passes, chunks, report]
  have hplain : ∀ inputs, optimize limit false inputs chunks = .ok (left, report) := by
    intro inputs
    show Except.ok ((shorten limit chunks).chunks, (shorten limit chunks).report chunks) = _
    rw [hreport, hshort]
  refine ⟨hplain, fun first steps hfirst haccepts hlegacy hresets hchunks => ?_⟩
  obtain ⟨hsound, hnative⟩ := hfirst.sound_native
  -- no chunk is a block, so nothing can be overlooked, and no columns are selected
  have hcolumns : ∀ k ∈ Script.chunksOf steps, k.body.isBlock = false := by
    rw [hchunks]
    intro k hk
    have hk : k = add ∨ k ∈ edits ∨ k = del := by simpa [chunks] using hk
    rcases hk with rfl | hk | rfl
    · exact hadd.edits.isBlock
    · exact (hedits k hk).edits.isBlock
    · rw [hdel]
      rfl
  have hverbatim := haccepts.verbatim_of_columns hcolumns
  have hregular : ∀ step ∈ steps, step.Regular := fun step hstep =>
    .of_native (hlegacy step hstep) (hverbatim step hstep)
  have hids := hresets.resetsNative hsound hnative haccepts hregular
  have hverify := hsound.verify_shorten limit haccepts hregular hids
    (nothingOverlooked_of_columns hcolumns)
  rw [hchunks] at hverify
  rw [optimize_eq_iff.mpr hverify, hplain]

end Passes

end Optimizer

/-! ### A sample

  Behind an insertion come a formula, a formula and a change of type that need what is there
  before, and one more formula of that kind.  Then the column is deleted with another one. -/

namespace Sample

/-- The sheet of the column. -/
def first : Target := ⟨⟨0⟩, "df1"⟩

/-- The steps. -/
def briefly : List Step := (Step.replay {} state
  [(.generated 0, .addColumn ⟨0, "D", 1⟩),
   (.generated 1, .setFormula ⟨0, ⟨"D"⟩, "=A", none⟩),
   (.generated 2, .setFormula ⟨0, ⟨"D"⟩, "=D+B", none⟩),
   (.generated 3, .changeType ⟨0, ⟨"D"⟩, .whole, .text⟩),
   (.generated 4, .setFormula ⟨0, ⟨"D"⟩, "=LEN(D)", none⟩),
   (.generated 5, .deleteColumns ⟨0, [⟨"B"⟩, ⟨"D"⟩]⟩)]).1.toOption.getD []

/-- The insertion. -/
def comes : Chunk := ⟨.generated 0, .addColumn first ⟨"D"⟩ "D" 1 none []⟩

/-- The edits of the column. -/
def stays : List Chunk := ((Script.chunksOf briefly).drop 1).take 4

/-- The columns that are deleted. -/
def dropped : List (ColumnId × Header) := [(⟨"B"⟩, "B"), (⟨"D"⟩, "D")]

/-- The deletion. -/
def goes : Chunk := ⟨.generated 5, .deleteColumns first [⟨"B"⟩, ⟨"D"⟩] ["B", "D"]⟩

theorem chunks_briefly : Script.chunksOf briefly = comes :: stays ++ [goes] := by
  have hcomes : (Script.chunksOf briefly).take 1 = [comes] := by decide +kernel
  have hgoes : ((Script.chunksOf briefly).drop 1).drop 4 = [goes] := by decide +kernel
  calc Script.chunksOf briefly
      = (Script.chunksOf briefly).take 1 ++ (Script.chunksOf briefly).drop 1 :=
        (List.take_append_drop 1 _).symm
    _ = [comes] ++ (stays ++ [goes]) := by rw [hcomes, ← hgoes, stays, List.take_append_drop]

end Sample

theorem Optimizer.optimize_comes_and_goes_briefly :
    let chunks := Sample.comes :: Sample.stays ++ [Sample.goes]
    let left : List Chunk := [⟨.generated 5, .deleteColumns Sample.first [⟨"B"⟩] ["B"]⟩]
    Sample.comes.body.Adds ⟨0⟩ ⟨"D"⟩
      ∧ Sample.stays.length = 4 ∧ (∀ k ∈ Sample.stays, k.body.Refills ⟨0⟩ ⟨"D"⟩)
      ∧ Sample.state.Accepts Sample.briefly ∧ Script.chunksOf Sample.briefly = chunks
      ∧ optimize 6 false [] chunks = .ok (left, ⟨6, 1, 5, 6, false⟩)
      ∧ optimize 6 true Sample.state.inputLayout chunks = .ok (left, ⟨6, 1, 5, 6, false⟩) := by
  intro chunks left
  have hadd : Sample.comes.body.Adds ⟨0⟩ ⟨"D"⟩ := ⟨rfl, rfl⟩
  have hlength : Sample.stays.length = 4 := by decide +kernel
  have hedits : ∀ k ∈ Sample.stays, k.body.Refills ⟨0⟩ ⟨"D"⟩ := by decide +kernel
  have haccepts : Sample.state.Accepts Sample.briefly := State.accepts_of_replay (by decide +kernel)
  have hlimit : Sample.stays.length + 2 ≤ 6 := Nat.le_of_eq (by rw [hlength])
  have hdel : Sample.goes.body = .deleteColumns Sample.first
      (Sample.dropped.map Prod.fst) (Sample.dropped.map Prod.snd) := rfl
  obtain ⟨hplain, hverified⟩ :=
    optimize_comes_and_goes (u := Sample.first) hadd hedits hdel (by decide) hlimit
  rw [hlength] at hplain hverified
  exact ⟨hadd, hlength, hedits, haccepts, Sample.chunks_briefly, hplain [],
    hverified Sample.state Sample.briefly Sample.initial haccepts (by decide +kernel)
      (by decide +kernel) Sample.chunks_briefly⟩

end SheetScript
