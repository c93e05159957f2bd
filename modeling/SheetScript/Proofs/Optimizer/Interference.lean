import SheetScript.Proofs.Desk.Commuting
import SheetScript.Proofs.Emission

/-! # Chunks that do not interfere

  A footprint is meant to tell which chunks interfere: two chunks without a conflict
  should run in either order to the same end.  They do, apart from two cases.

  An insertion declares that it goes by the places of columns, and a deletion, which
  moves the columns to its right, does not.  So a deletion to the left of the place of
  an insertion is no conflict, and the column lands elsewhere or nowhere.  And effects
  are no part of a footprint, so two exports that trade places are done in the other
  order.

  - `clear_chunks_commute_iff`: chunks without a conflict, on any machine.
  - `deletion_moves_insertion`: they do not always commute.
-/

namespace SheetScript

namespace Symbolic

variable {τ : Type} {I : Interpretation τ} {m : Machine τ} {d : Desk τ} {a b : ChunkBody}

theorem Desk.holds_edit {s t : SheetId} {n : String}
    (φ : SymbolicFrame τ → SymbolicFrame τ) : (d.edit s φ).Holds n t ↔ d.Holds n t := by
  by_cases ht : t = s
  · subst ht
    cases hx : d t with
    | none => simp [Desk.Holds, Desk.edit, hx]
    | some x => simp [Desk.Holds, Desk.edit, hx]
  · rw [Desk.Holds, Desk.Holds, d.edit_ne _ ht]

/-- Machines with equal variables show one desk, if the variables hold the same sheets. -/
theorem Shows.desk_eq {m' : Machine τ} {d' : Desk τ} (h : Shows m d) (h' : Shows m' d')
    (heq : m.boundFrames = m'.boundFrames) (hnames : ∀ n s, d.Holds n s ↔ d'.Holds n s) :
    d = d' := by
  funext s
  cases hx : d s with
  | none =>
    cases hy : d' s with
    | none => rfl
    | some y =>
      obtain ⟨x, hx', -⟩ := (hnames y.name s).mpr ⟨y, hy, rfl⟩
      rw [hx] at hx'
      cases hx'
  | some x =>
    obtain ⟨y, hy, hname⟩ := (hnames x.name s).mp ⟨x, hx, rfl⟩
    obtain ⟨o, ho, hb, -⟩ := h.table hx
    obtain ⟨p, hp, hb', -⟩ := h'.table hy
    have hframe : x.frame = y.frame := by
      have hsame := congrArg (fun f => Dictionary.get? f x.name) heq
      simp only [Machine.boundFrames, Dictionary.get?_mapValues] at hsame
      rw [hb, ← hname, hb', Option.map_some, Option.map_some, h.frame_eq hx ho,
        h'.frame_eq hy hp] at hsame
      exact Option.some.inj hsame
    rw [hy]
    cases x
    cases y
    cases hname
    cases hframe
    rfl

/-- Two chunks without a conflict run in the other order without a fault, and leave the
  same variables, frames and effects, if and only if neither deletes a column to the left
  of where the other inserts one, and they do not have different effects. -/
theorem clear_chunks_commute_iff (hm : Shows m d) (htidy : d.Tidy) (hkeyed : d.Keyed)
    (ha : d.Means a) (hb : (d.step I a).Means b)
    (hclear : a.footprint.conflictsWith b.footprint = false)
    (hsees : I.IsNarrow ∨ ¬ a.Watches b ∧ ¬ b.Watches a)
    (hquiet : ((m.step I a).step I b).faults = []) :
    let forth := (m.step I a).step I b
    let back := (m.step I b).step I a
    back.faults = [] ∧ back.boundFrames = forth.boundFrames ∧ back.effects = forth.effects
      ↔ ¬ d.Shifts a b ∧ ¬ d.Races I a b := by
  intro forth back
  have hra := hm.runs ha (Machine.faults_step hquiet)
  obtain ⟨hshowA, heffA⟩ := hm.step (I := I) htidy hra
  have hrb := hshowA.runs hb hquiet
  obtain ⟨hforth, heffForth⟩ := hshowA.step (I := I) (hra.tidy htidy) hrb
  obtain ⟨⟨hmb, hrb'⟩, hback, ⟨hsameB, hsameA⟩, hiff⟩ :=
    Desk.swap hclear htidy hkeyed ha hra hb hrb hsees
  obtain ⟨hshowB, heffB⟩ := hm.step (I := I) htidy hrb'
  have hshows : (d.step I b).Runs a → Shows back ((d.step I b).step I a)
      ∧ (back.effects = forth.effects ↔ ¬ d.Races I a b) := by
    intro hra'
    obtain ⟨hshow, heffBack⟩ := hshowB.step (I := I) (hrb'.tidy htidy) hra'
    refine ⟨hshow, ?_⟩
    show ((m.step I b).step I a).effects = ((m.step I a).step I b).effects ↔ _
    rw [heffBack, heffForth, heffA, heffB, hsameA, hsameB, List.append_assoc, List.append_assoc,
      List.append_cancel_left_eq, Desk.effects_append_comm]
  constructor
  · rintro ⟨hq, hframes, heff⟩
    have hra' := hshowB.runs hback hq
    obtain ⟨hshow, heffects⟩ := hshows hra'
    refine ⟨fun hshift => ?_, heffects.mp heff⟩
    -- edits of columns leave names alone, so equal variables mean equal desks
    obtain ⟨s, x, ⟨⟨t, ht, -⟩, u, hu, -⟩, -, -⟩ := id hshift
    have hdesk : (d.step I a).step I b = (d.step I b).step I a := by
      refine hforth.desk_eq hshow hframes.symm fun n s => ?_
      simp only [Desk.step_column ht, Desk.step_column hu, Desk.holds_edit]
    exact hiff.mp ⟨hra', hdesk⟩ hshift
  · rintro ⟨hshift, hrace⟩
    obtain ⟨hra', hdesk⟩ := hiff.mpr hshift
    obtain ⟨hshow, heffects⟩ := hshows hra'
    rw [← hdesk] at hshow
    exact ⟨hshow.faults, hshow.boundFrames_eq hforth, heffects.mpr hrace⟩

end Symbolic

open Symbolic

/-! ### A sample

  A column is added to the right of another one, which is deleted next.  Behind the
  first column the new one finds its place in either order.  Behind both columns it is
  added at a place that is gone after the deletion. -/

namespace Sample

/-- A column added at the place, and another one deleted. -/
def addedAt (index : Nat) (deleted : ColumnId) : List Step :=
  (Step.replay {} state [(.generated 0, .addColumn ⟨0, "D", index⟩),
    (.generated 1, .deleteColumns ⟨0, [deleted]⟩)]).1.toOption.getD []

/-- The insertion of the column. -/
def insertion (index : Nat) : ChunkBody :=
  .addColumn ⟨⟨0⟩, "df1"⟩ ⟨"D"⟩ "D" index none []

/-- The deletion of a column that is called by its id. -/
def deletion (deleted : ColumnId) : ChunkBody :=
  .deleteColumns ⟨⟨0⟩, "df1"⟩ [deleted] [deleted.text]

end Sample

namespace Symbolic

theorem clear_chunks_commute_beside :
    let a := Sample.insertion 1
    let b := Sample.deletion ⟨"B"⟩
    let m := Machine.start Sample.origins Sample.state.inputLayout
    let d := Desk.ofLayout Sample.origins Sample.state.inputLayout
    let forth := (m.step Sample.origins a).step Sample.origins b
    let back := (m.step Sample.origins b).step Sample.origins a
    Shows m d ∧ d.Tidy ∧ d.Keyed ∧ d.Means a ∧ (d.step Sample.origins a).Means b
      ∧ a.footprint.conflictsWith b.footprint = false
      ∧ (¬ a.Watches b ∧ ¬ b.Watches a)
      ∧ forth.faults = []
      ∧ (¬ d.Shifts a b ∧ ¬ d.Races Sample.origins a b)
      ∧ back.faults = [] ∧ back.boundFrames = forth.boundFrames
      ∧ back.effects = forth.effects := by
  intro a b m d forth back
  obtain ⟨hs, hnative⟩ := Sample.initial.sound_native
  have ha : Sample.state.Accepts (Sample.addedAt 1 ⟨"B"⟩) :=
    State.accepts_of_replay (by decide)
  have hlegacy : ∀ step ∈ Sample.addedAt 1 ⟨"B"⟩, step.edit.usesLegacyIds = false := by
    decide
  have hverbatim : ∀ step ∈ Sample.addedAt 1 ⟨"B"⟩, step.Verbatim := by decide
  have hregular : ∀ step ∈ Sample.addedAt 1 ⟨"B"⟩, step.Regular := fun step hmem =>
    .of_native (hlegacy step hmem) (hverbatim step hmem)
  have hfirst : Step.ResetsFirst (Sample.addedAt 1 ⟨"B"⟩) := by decide
  have hlooks : Sample.state.desk.Alike True d := hs.desk_layout
  have hmeans := hs.means (I := Sample.origins) ha hregular
    (hfirst.resetsNative hs hnative ha hregular) hlooks
  have hchunks : Script.chunksOf (Sample.addedAt 1 ⟨"B"⟩)
      = [⟨.generated 0, a⟩, ⟨.generated 1, b⟩] := by decide
  rw [hchunks] at hmeans
  obtain ⟨hma, hmb, -⟩ := hmeans
  have hshow : Shows m d := hs.starts.1
  have htidy := hlooks.tidy hs.tidy
  have hkeyed : d.Keyed := hlooks.keyed trivial hs.keyed
  have hclear : a.footprint.conflictsWith b.footprint = false := by decide
  have hwatch : ¬ a.Watches b ∧ ¬ b.Watches a :=
    ⟨fun h => absurd h.1 (by decide), fun h => absurd h.1 (by decide)⟩
  have hquiet : forth.faults = [] := by decide
  have hleft : ∀ x ∈ d ⟨0⟩, ∀ c ∈ x.frame.take 1, c.id ≠ ⟨"B"⟩ := by decide
  have hcalm : ¬ d.Shifts a b ∧ ¬ d.Races Sample.origins a b := by
    refine ⟨?_, fun ⟨_, hv, _⟩ => by cases hv⟩
    rintro ⟨s, x, ⟨⟨t, ht, rfl⟩, -⟩, hx, ⟨i, hi, c, hc, hdel⟩ | ⟨i, hi, -⟩⟩
    · cases ht
      cases hi
      exact hleft x hx c hc (List.mem_singleton.mp hdel)
    · cases hi
  exact ⟨hshow, htidy, hkeyed, hma, hmb, hclear, hwatch, hquiet, hcalm,
    (clear_chunks_commute_iff hshow htidy hkeyed hma hmb hclear (.inr hwatch) hquiet).mpr hcalm⟩

/-- An insertion and a deletion that do not conflict, of which the insertion fails behind
  the deletion. -/
theorem deletion_moves_insertion :
    let a := Sample.insertion 2
    let b := Sample.deletion ⟨"A"⟩
    let steps := Sample.addedAt 2 ⟨"A"⟩
    let run := Machine.run Sample.origins Sample.state.inputLayout
    Sample.state.Initial ∧ Sample.state.Accepts steps
      ∧ Script.chunksOf steps = [⟨.generated 0, a⟩, ⟨.generated 1, b⟩]
      ∧ a.footprint.conflictsWith b.footprint = false
      ∧ (run [⟨.generated 0, a⟩, ⟨.generated 1, b⟩]).faults = []
      ∧ (run [⟨.generated 1, b⟩, ⟨.generated 0, a⟩]).faults
          = [.insertBeyond "D" 2 1 "df1"] := by
  exact ⟨Sample.initial, State.accepts_of_replay (by decide), by decide,
    by decide, by decide, by decide⟩

end Symbolic

end SheetScript
