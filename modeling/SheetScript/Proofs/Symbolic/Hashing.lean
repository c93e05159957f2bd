import Mathlib.Data.List.Basic
import SheetScript.Proofs.Symbolic.Mapping

/-! # Values that tell how they came about

  Fingerprints are hashes of texts and numbers, of lists of hashes, and of hashes that
  may be missing.  Where these hashes are injective, a value tells what statement
  computed it from what: two values that are equal came about alike, so they are
  equal under every other interpretation as well.

  A block is the exception.  Its hash holds the sheets that it reads; what stood in a
  sheet that it writes is in the hash only if that is asked for.

  - `Arises.told`: what a hash says of another value.
  - `Machine.Agree.of_hashing`: machines that agree under hashes agree under every
    interpretation that regards no more.
-/

namespace SheetScript.Symbolic

variable {τ σ : Type}

/-! ### Hashing -/

/-- Hashes of parts and of what is put together of them. -/
structure Hashing (τ : Type) where
  /-- A mark of what follows. -/
  tag : UInt64 → τ
  number : Nat → τ
  text : String → τ
  list : List τ → τ
  missing : τ
  present : τ → τ

namespace Hashing

/-- The hash of something that may be missing. -/
def option {α : Type} (H : Hashing τ) (f : α → τ) : Option α → τ
  | none => H.missing
  | some a => H.present (f a)

/-- The hash of a column. -/
def column (H : Hashing τ) (c : SymbolicColumn τ) : τ :=
  H.list [H.text c.id.text, H.text c.header, c.value]

/-- The hash of a sheet that a block meets: all of it, whatever the block declares. -/
def sight (H : Hashing τ) (s : Sight τ) : τ :=
  H.option (fun frame => H.list (frame.map H.column)) s.frame

/-- The hashes of sheets are those of their frames. -/
theorem map_sight (H : Hashing τ) (l : List (Sight τ)) :
    l.map H.sight = (l.map Sight.frame).map
      (H.option fun frame : SymbolicFrame τ => H.list (frame.map H.column)) := by
  rw [List.map_map]
  rfl

/-- Values as hashes.  Of a block they hold the sheets that it reads, and, if `whole`,
  those that it writes as they were before. -/
def interpretation (H : Hashing τ) (whole : Bool) : Interpretation τ where
  input s id := H.list [H.tag 1, H.number s.number, H.text id.text]
  value code reads := H.list [H.tag 2, H.text code, H.list (reads.map (H.option fun v => v))]
  retyped statements v := H.list [H.tag 3, H.list (statements.map H.text), v]
  seen statements reads writes :=
    H.list ([H.tag 4, H.list (statements.map H.text), H.list (reads.map H.sight)]
      ++ if whole then [H.list (writes.map H.sight)] else [])
  produced seen id := H.list [H.tag 5, seen, H.text id.text]

/-- The hashes of fingerprints. -/
def fingerprint : Hashing Fingerprint where
  tag n := n
  number n := hash n
  text := Fingerprint.ofText
  list := Fingerprint.ofList
  missing := 11
  present := mixHash 13

/-- Fingerprints are values as hashes; a block is known by the sheets that it reads. -/
theorem interpretation_fingerprint :
    fingerprint.interpretation false = Fingerprint.interpretation := by
  have hoption : ∀ {α : Type} (f : α → Fingerprint),
      fingerprint.option f = Fingerprint.ofOption f := by
    intro α f
    funext a
    cases a <;> rfl
  have hcolumn : fingerprint.column = Fingerprint.ofColumn := rfl
  unfold interpretation Fingerprint.interpretation sight
  simp only [hoption, hcolumn]
  rfl

/-- Whether hashes tell what they are hashes of. -/
structure IsInjective (H : Hashing τ) : Prop where
  tag : Function.Injective H.tag
  number : Function.Injective H.number
  text : Function.Injective H.text
  list : Function.Injective H.list
  present : Function.Injective H.present
  missing_ne : ∀ a, H.missing ≠ H.present a

namespace IsInjective

variable {H : Hashing τ}

theorem list_eq (h : H.IsInjective) {a b : List τ} : H.list a = H.list b ↔ a = b := h.list.eq_iff

theorem texts_eq (h : H.IsInjective) {a b : List String} :
    a.map H.text = b.map H.text ↔ a = b := (List.map_injective_iff.mpr h.text).eq_iff

theorem option {α : Type} (h : H.IsInjective) {f : α → τ} (hf : Function.Injective f) :
    Function.Injective (H.option f) := by
  intro a b hab
  cases a with
  | none =>
    cases b with
    | none => rfl
    | some b => exact absurd hab (h.missing_ne _)
  | some a =>
    cases b with
    | none => exact absurd hab.symm (h.missing_ne _)
    | some b => rw [hf (h.present hab)]

theorem column (h : H.IsInjective) : Function.Injective H.column := by
  intro c d hcd
  simp only [Hashing.column, h.list_eq, List.cons.injEq, h.text.eq_iff, and_true] at hcd
  obtain ⟨⟨⟨id⟩, header, value⟩, ⟨⟨id'⟩, header', value'⟩⟩ := c, d
  obtain ⟨rfl, rfl, rfl⟩ := hcd
  rfl

/-- The hash of a sheet tells its frame. -/
theorem sights_eq (h : H.IsInjective) {a b : List (Sight τ)} :
    a.map H.sight = b.map H.sight ↔ a.map Sight.frame = b.map Sight.frame := by
  have hframe : Function.Injective (H.option fun frame : SymbolicFrame τ =>
      H.list (frame.map H.column)) :=
    h.option (h.list.comp (List.map_injective_iff.mpr h.column))
  rw [H.map_sight, H.map_sight, (List.map_injective_iff.mpr hframe).eq_iff]

end IsInjective

end Hashing

/-! ### Hashes that keep everything -/

/-- What was hashed, as it was put together. -/
inductive Tree where
  | tag (n : UInt64)
  | number (n : Nat)
  | text (s : String)
  | missing
  | present (t : Tree)
  | none
  | more (first rest : Tree)
  deriving DecidableEq

/-- The trees of a list. -/
def Tree.ofList (parts : List Tree) : Tree := parts.foldr .more .none

/-- Hashes from which all can be read back. -/
def Hashing.tree : Hashing Tree where
  tag := .tag
  number := .number
  text := .text
  list := .ofList
  missing := .missing
  present := .present

theorem Hashing.isInjective_tree : Hashing.tree.IsInjective where
  tag _ _ h := Tree.tag.inj h
  number _ _ h := Tree.number.inj h
  text _ _ h := Tree.text.inj h
  present _ _ h := Tree.present.inj h
  missing_ne _ h := by cases h
  list a b h := by
    have hlist : Tree.ofList a = Tree.ofList b := h
    clear h
    induction a generalizing b with
    | nil =>
      cases b with
      | nil => rfl
      | cons _ _ => cases hlist
    | cons first rest ih =>
      cases b with
      | nil => cases hlist
      | cons other others =>
        obtain ⟨rfl, hrest⟩ := Tree.more.inj hlist
        rw [ih others hrest]

/-! ### What blocks regard -/

/-- Whether blocks compute from their statements and the frames that they read alone,
  and, if `whole`, from those that they write as they were before. -/
def Interpretation.Regards (whole : Bool) (I : Interpretation τ) : Prop :=
  ∀ statements reads reads' writes writes',
    reads.map Sight.frame = reads'.map Sight.frame →
      (whole = true → writes.map Sight.frame = writes'.map Sight.frame) →
        I.seen statements reads writes = I.seen statements reads' writes'

/-- Hashes of blocks hold nothing that the frames of their sheets do not tell. -/
theorem Hashing.regards (H : Hashing τ) (whole : Bool) :
    (H.interpretation whole).Regards whole := by
  intro statements reads reads' writes writes' hreads hwrites
  simp only [Hashing.interpretation, H.map_sight, hreads]
  cases whole with
  | false => rfl
  | true => simp only [if_true, hwrites rfl]

theorem regards_fingerprint : Fingerprint.interpretation.Regards false :=
  Hashing.interpretation_fingerprint ▸ Hashing.fingerprint.regards false

/-! ### Values under two interpretations -/

/-- Values that the same statements compute under two interpretations. -/
inductive Arises (I : Interpretation τ) (J : Interpretation σ) : τ × σ → Prop where
  | input (s : SheetId) (id : ColumnId) : Arises I J (I.input s id, J.input s id)
  | value (code : String) (reads : List (Option (τ × σ)))
      (h : ∀ r ∈ reads, ∀ p, r = some p → Arises I J p) :
      Arises I J (I.value code (reads.map (Option.map Prod.fst)),
        J.value code (reads.map (Option.map Prod.snd)))
  | retyped (statements : List String) (p : τ × σ) (h : Arises I J p) :
      Arises I J (I.retyped statements p.1, J.retyped statements p.2)
  | seen (statements : List String) (reads writes : List (Sight (τ × σ)))
      (hreads : ∀ s ∈ reads, ∀ frame, s.frame = some frame → ∀ c ∈ frame, Arises I J c.value)
      (hwrites : ∀ s ∈ writes, ∀ frame, s.frame = some frame → ∀ c ∈ frame, Arises I J c.value) :
      Arises I J
        (I.seen statements (reads.map (Sight.map Prod.fst)) (writes.map (Sight.map Prod.fst)),
          J.seen statements (reads.map (Sight.map Prod.snd)) (writes.map (Sight.map Prod.snd)))
  | produced (p : τ × σ) (id : ColumnId) (h : Arises I J p) :
      Arises I J (I.produced p.1 id, J.produced p.2 id)

/-- A map that is injective on the items of two lists tells the lists. -/
theorem eq_of_map_eq {α β : Type} {f : α → β} {l r : List α}
    (h : ∀ a ∈ l, ∀ b ∈ r, f a = f b → a = b) (heq : l.map f = r.map f) : l = r := by
  induction l generalizing r with
  | nil => exact (List.map_eq_nil_iff.mp heq.symm).symm
  | cons a rest ih =>
    cases r with
    | nil => cases heq
    | cons b s =>
      obtain ⟨hab, hrest⟩ := List.cons.inj heq
      rw [h a List.mem_cons_self b List.mem_cons_self hab,
        ih (fun a ha b hb => h a (.tail _ ha) b (.tail _ hb)) hrest]

section Unique

variable {I : Interpretation τ} {J : Interpretation σ}

/-- Whether a value tells the other one of the pair. -/
def Told (I : Interpretation τ) (J : Interpretation σ) (p : τ × σ) : Prop :=
  ∀ q, Arises I J q → p.1 = q.1 → p = q

/-- Values that tell the other ones do so where some may be missing. -/
theorem options_eq_of_told {l r : List (Option (τ × σ))}
    (hl : ∀ o ∈ l, ∀ p, o = some p → Told I J p) (hr : ∀ o ∈ r, ∀ q, o = some q → Arises I J q)
    (heq : l.map (Option.map Prod.fst) = r.map (Option.map Prod.fst)) : l = r := by
  refine eq_of_map_eq (fun a ha b hb hab => ?_) heq
  cases a with
  | none =>
    cases b with
    | none => rfl
    | some q => cases hab
  | some p =>
    cases b with
    | none => cases hab
    | some q => rw [hl _ ha p rfl q (hr _ hb q rfl) (Option.some.inj hab)]

theorem frames_map {ρ : Type} (f : τ → ρ) (l : List (Sight τ)) :
    (l.map (Sight.map f)).map Sight.frame
      = (l.map Sight.frame).map (Option.map (SymbolicFrame.mapValues f)) := by
  rw [List.map_map, List.map_map]
  rfl

/-- So they do in the frames that a block meets. -/
theorem frames_eq_of_told {l r : List (Sight (τ × σ))}
    (hl : ∀ s ∈ l, ∀ frame, s.frame = some frame → ∀ c ∈ frame, Told I J c.value)
    (hr : ∀ s ∈ r, ∀ frame, s.frame = some frame → ∀ c ∈ frame, Arises I J c.value)
    (heq : (l.map (Sight.map Prod.fst)).map Sight.frame
      = (r.map (Sight.map Prod.fst)).map Sight.frame) :
    l.map Sight.frame = r.map Sight.frame := by
  rw [frames_map, frames_map] at heq
  refine eq_of_map_eq (fun a ha b hb hab => ?_) heq
  obtain ⟨s, hs, rfl⟩ := List.mem_map.mp ha
  obtain ⟨t, ht, rfl⟩ := List.mem_map.mp hb
  cases hleft : s.frame with
  | none =>
    rw [hleft] at hab
    exact (Option.map_eq_none_iff.mp hab.symm).symm
  | some frame =>
    rw [hleft] at hab
    obtain ⟨other, hright, hmap⟩ := Option.map_eq_some_iff.mp hab.symm
    rw [hright]
    refine congrArg some (eq_of_map_eq (fun c hc d hd hcd => ?_) hmap.symm)
    have hvalue := hl s hs frame hleft c hc _ (hr t ht other hright d hd)
      (congrArg SymbolicColumn.value hcd)
    obtain ⟨id, header, value⟩ := c
    obtain ⟨id', header', value'⟩ := d
    obtain ⟨rfl, rfl, -⟩ := SymbolicColumn.mk.inj hcd
    obtain rfl : value = value' := hvalue
    rfl

end Unique

/-- A hash tells the other value, if the other interpretation regards no more than the
  hash holds. -/
theorem Arises.told {H : Hashing τ} {whole : Bool} {J : Interpretation σ}
    (hH : H.IsInjective) (hJ : J.Regards whole) {p : τ × σ}
    (hp : Arises (H.interpretation whole) J p) : Told (H.interpretation whole) J p := by
  induction hp with
  | input s id =>
    intro q hq heq
    cases hq <;> simp only [Hashing.interpretation, hH.list_eq, List.cons_append, List.nil_append,
      List.cons.injEq, hH.tag.eq_iff, hH.number.eq_iff, hH.text.eq_iff, and_true] at heq
    case input s' id' =>
      obtain ⟨⟨n⟩, ⟨t⟩⟩ := s, id
      obtain ⟨⟨n'⟩, ⟨t'⟩⟩ := s', id'
      obtain ⟨-, hs, hid⟩ := heq
      obtain rfl : n = n' := hs
      obtain rfl : t = t' := hid
      rfl
    all_goals exact absurd heq.1 (by decide)
  | value code reads _ ih =>
    intro q hq heq
    cases hq <;> simp only [Hashing.interpretation, hH.list_eq, List.cons_append, List.nil_append,
      List.cons.injEq, hH.tag.eq_iff, hH.text.eq_iff, and_true, true_and] at heq
    case value code' reads' hreads' =>
      obtain ⟨rfl, hreads⟩ := heq
      have hvalues := (List.map_injective_iff.mpr (hH.option Function.injective_id)) hreads
      obtain rfl := options_eq_of_told ih hreads' hvalues
      rfl
    all_goals exact absurd heq.1 (by decide)
  | retyped statements p _ ih =>
    intro q hq heq
    cases hq <;> simp only [Hashing.interpretation, hH.list_eq, List.cons_append, List.nil_append,
      List.cons.injEq, hH.tag.eq_iff, hH.texts_eq, and_true, true_and] at heq
    case retyped statements' q hq =>
      obtain ⟨rfl, hvalue⟩ := heq
      rw [ih q hq hvalue]
    all_goals exact absurd heq.1 (by decide)
  | seen statements reads writes _ _ ihreads ihwrites =>
    intro q hq heq
    cases hq <;> simp only [Hashing.interpretation, hH.list_eq, List.cons_append, List.nil_append,
      List.cons.injEq, hH.tag.eq_iff, hH.texts_eq, hH.sights_eq, true_and] at heq
    case seen statements' reads' writes' hreads' hwrites' =>
      obtain ⟨rfl, hreads, hwrites⟩ := heq
      have hread := frames_eq_of_told ihreads hreads' hreads
      have hwritten : whole = true → writes.map Sight.frame = writes'.map Sight.frame := by
        rintro rfl
        simp only [if_true, List.cons.injEq, hH.list_eq, hH.sights_eq, and_true] at hwrites
        exact frames_eq_of_told ihwrites hwrites' hwrites
      -- with equal frames before them, blocks see the same under both
      refine Prod.ext (H.regards whole _ _ _ _ _ ?_ fun hw => ?_) (hJ _ _ _ _ _ ?_ fun hw => ?_)
      · rw [frames_map, frames_map, hread]
      · rw [frames_map, frames_map, hwritten hw]
      · rw [frames_map, frames_map, hread]
      · rw [frames_map, frames_map, hwritten hw]
    all_goals exact absurd heq.1 (by decide)
  | produced p id _ ih =>
    intro q hq heq
    cases hq <;> simp only [Hashing.interpretation, hH.list_eq, List.cons_append, List.nil_append,
      List.cons.injEq, hH.tag.eq_iff, hH.text.eq_iff, and_true, true_and] at heq
    case produced q id' hq =>
      obtain ⟨⟨t⟩, ⟨t'⟩⟩ := id, id'
      obtain ⟨hvalue, rfl⟩ := heq
      rw [ih q hq hvalue]
    all_goals exact absurd heq.1 (by decide)

/-! ### Machines under two interpretations -/

/-- Machines that leave the same variables bound to equal frames, with the same
  effects. -/
structure Machine.Agree (m n : Machine τ) : Prop where
  frames : ∀ name, Dictionary.get? m.boundFrames name = Dictionary.get? n.boundFrames name
  effects : m.effects = n.effects

namespace Machine.Agree

variable {m n : Machine τ} {f : τ → σ}

theorem map (h : m.Agree n) (f : τ → σ) : (m.map f).Agree (n.map f) := by
  refine ⟨fun name => ?_, congrArg (List.map f) h.effects⟩
  rw [boundFrames_map, boundFrames_map, Dictionary.get?_mapValues, Dictionary.get?_mapValues,
    h.frames]

theorem of_map (hf : Function.Injective f) (h : (m.map f).Agree (n.map f)) : m.Agree n := by
  have hcolumn : Function.Injective (SymbolicColumn.map f) := by
    rintro ⟨id, header, value⟩ ⟨id', header', value'⟩ heq
    obtain ⟨hid, hheader, hvalue⟩ := SymbolicColumn.mk.inj heq
    exact congr (congr (congrArg SymbolicColumn.mk hid) hheader) (hf hvalue)
  have hframe : Function.Injective (SymbolicFrame.mapValues f) := List.map_injective_iff.mpr hcolumn
  refine ⟨fun name => ?_, List.map_injective_iff.mpr hf h.effects⟩
  have hname := h.frames name
  rw [boundFrames_map, boundFrames_map, Dictionary.get?_mapValues, Dictionary.get?_mapValues] at hname
  exact Option.map_injective hframe hname

end Machine.Agree

/-- The values that arise under two interpretations, as values of their own. -/
def paired (I : Interpretation τ) (J : Interpretation σ) :
    Interpretation { p : τ × σ // Arises I J p } where
  input s id := ⟨_, .input s id⟩
  value code reads :=
    ⟨_, .value code (reads.map (Option.map Subtype.val)) fun r hr p hp => by
      obtain ⟨o, -, rfl⟩ := List.mem_map.mp hr
      obtain ⟨v, -, rfl⟩ := Option.map_eq_some_iff.mp hp
      exact v.2⟩
  retyped statements v := ⟨_, .retyped statements v.1 v.2⟩
  seen statements reads writes :=
    have harise : ∀ l : List (Sight { p : τ × σ // Arises I J p }),
        ∀ s ∈ l.map (Sight.map Subtype.val), ∀ frame, s.frame = some frame →
          ∀ c ∈ frame, Arises I J c.value := by
      intro l s hs frame hframe c hc
      obtain ⟨t, -, rfl⟩ := List.mem_map.mp hs
      obtain ⟨g, -, rfl⟩ := Option.map_eq_some_iff.mp hframe
      obtain ⟨d, -, rfl⟩ := List.mem_map.mp hc
      exact d.value.2
    ⟨_, .seen statements (reads.map (Sight.map Subtype.val)) (writes.map (Sight.map Subtype.val))
      (harise reads) (harise writes)⟩
  produced seen id := ⟨_, .produced seen.1 id seen.2⟩

section Paired

variable {I : Interpretation τ} {J : Interpretation σ}

theorem Sight.map_map {ρ : Type} (f : τ → σ) (g : σ → ρ) (s : Sight τ) :
    (s.map f).map g = s.map (g ∘ f) := by
  have hframe : ∀ frame : SymbolicFrame τ,
      (frame.mapValues f).mapValues g = frame.mapValues (g ∘ f) := by
    intro frame
    unfold SymbolicFrame.mapValues
    rw [List.map_map]
    rfl
  unfold Sight.map
  rw [Option.map_map]
  exact congrArg (Sight.mk s.columns) (congrArg (fun h => Option.map h s.frame) (funext hframe))

theorem maps_fst : (paired I J).Maps (fun p => p.1.1) I where
  input _ _ := rfl
  value code reads := by
    show I.value code _ = I.value code _
    rw [List.map_map]
    exact congrArg _ (List.map_congr_left fun o _ => by cases o <;> rfl)
  retyped _ _ := rfl
  seen statements reads writes := by
    show I.seen statements _ _ = I.seen statements _ _
    rw [List.map_map, List.map_map]
    simp only [Function.comp_def, Sight.map_map]
  produced _ _ := rfl

theorem maps_snd : (paired I J).Maps (fun p => p.1.2) J where
  input _ _ := rfl
  value code reads := by
    show J.value code _ = J.value code _
    rw [List.map_map]
    exact congrArg _ (List.map_congr_left fun o _ => by cases o <;> rfl)
  retyped _ _ := rfl
  seen statements reads writes := by
    show J.seen statements _ _ = J.seen statements _ _
    rw [List.map_map, List.map_map]
    simp only [Function.comp_def, Sight.map_map]
  produced _ _ := rfl

end Paired

/-- Chunks that leave the same hashes leave the same under every interpretation that
  regards no more than the hashes hold. -/
theorem Machine.Agree.of_hashing {H : Hashing τ} {whole : Bool} {J : Interpretation σ}
    {inputs : InputLayout} {before after : List Chunk} (hH : H.IsInjective)
    (hJ : J.Regards whole)
    (h : (run (H.interpretation whole) inputs before).Agree
      (run (H.interpretation whole) inputs after)) :
    (run J inputs before).Agree (run J inputs after) := by
  -- both runs are projections of one run on pairs, and the first projection is injective
  have hfirst : Function.Injective
      fun p : { p : τ × σ // Arises (H.interpretation whole) J p } => p.1.1 :=
    fun p q heq => Subtype.ext (p.2.told hH hJ q.1 q.2 heq)
  have hpaired : (run (paired (H.interpretation whole) J) inputs before).Agree
      (run (paired (H.interpretation whole) J) inputs after) := by
    refine .of_map hfirst ?_
    rw [maps_fst.run, maps_fst.run]
    exact h
  have hsecond := hpaired.map fun p => p.1.2
  rw [maps_snd.run, maps_snd.run] at hsecond
  exact hsecond

end SheetScript.Symbolic
