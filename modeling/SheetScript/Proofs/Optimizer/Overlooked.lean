import Mathlib.Data.List.Forall2
import Mathlib.Data.List.Sublists
import SheetScript.Optimizer.Basic
import SheetScript.Proofs.Footprints

/-! # What blocks overlook

  A block overlooks a column if it reads others of the sheet but not this one.  That
  matters where the column is edited before and after the block: the optimizer may
  then take the first edit away, and whoever looks at the whole sheet can tell.

  - `NothingOverlooked`: no block stands in such a place.
  - `NothingOverlooked.rewriteOnce`: rewriting brings no block there, since chunks go
    or are replaced by ones that edit no more.
-/

namespace SheetScript

variable {s : SheetId} {id : ColumnId} {b : ChunkBody}

/-! ### Deciding what is overlooked -/

/-- Whether a column is not in the set. -/
def ColumnSet.Lacks (c : ColumnSet) (id : ColumnId) : Prop := ∃ ids, c = .only ids ∧ id ∉ ids

instance ColumnSet.decidableLacks : (c : ColumnSet) → Decidable (c.Lacks id)
  | .all => .isFalse fun ⟨_, h, _⟩ => nomatch h
  | .only ids => decidable_of_iff (id ∉ ids) (by simp [ColumnSet.Lacks])

namespace Footprint

variable {f : Footprint}

theorem spares_iff :
    f.Spares s id ↔ ∀ e ∈ f.reads ++ f.effectiveWrites, e.1 = s → e.2.Lacks id := by
  constructor
  · rintro h ⟨t, c⟩ he rfl
    exact h c (List.mem_append.mp he)
  · intro h c hc
    exact h (s, c) (List.mem_append.mpr hc) rfl

theorem avoids_iff : f.Avoids s ↔ ∀ e ∈ f.reads ++ f.effectiveWrites, e.1 ≠ s := by
  constructor
  · rintro h ⟨t, c⟩ he rfl
    exact h c (List.mem_append.mp he)
  · intro h c hc
    exact h (s, c) (List.mem_append.mpr hc) rfl

instance : Decidable (f.Spares s id) := decidable_of_iff _ spares_iff.symm

instance : Decidable (f.Avoids s) := decidable_of_iff _ avoids_iff.symm

end Footprint

namespace ChunkBody

instance : Decidable (b.Edits s id) :=
  inferInstanceAs (Decidable ((∃ t ∈ b.columnTarget?, t.sheet = s) ∧ id ∈ b.editedIds))

instance : Decidable (b.Overlooks s id) :=
  inferInstanceAs
    (Decidable (b.isBlock = true ∧ b.footprint.Spares s id ∧ ¬ b.footprint.Avoids s))

end ChunkBody

namespace Optimizer

/-- Whether a column that two chunks edit is not overlooked by a third. -/
def Heeds (older k newer : Chunk) : Prop :=
  ∀ t ∈ older.body.columnTarget?, ∀ id ∈ older.body.editedIds, newer.body.Edits t.sheet id →
    ¬ k.body.Overlooks t.sheet id

instance {older k newer : Chunk} : Decidable (Heeds older k newer) :=
  inferInstanceAs (Decidable (∀ t ∈ older.body.columnTarget?, ∀ id ∈ older.body.editedIds,
    newer.body.Edits t.sheet id → ¬ k.body.Overlooks t.sheet id))

/-- No block overlooks a column that is edited before and after it. -/
def NothingOverlooked (chunks : List Chunk) : Prop :=
  ∀ older k newer, [older, k, newer].Sublist chunks → Heeds older k newer

theorem nothingOverlooked_iff {chunks : List Chunk} :
    NothingOverlooked chunks ↔ ∀ l ∈ chunks.sublistsLen 3,
      ∀ older ∈ l[0]?, ∀ k ∈ l[1]?, ∀ newer ∈ l[2]?, Heeds older k newer := by
  constructor
  · rintro h l hl older ho k hk newer hn
    obtain ⟨hsub, hlen⟩ := List.mem_sublistsLen.mp hl
    obtain ⟨a, b, c, rfl⟩ := List.length_eq_three.mp hlen
    cases ho
    cases hk
    cases hn
    exact h _ _ _ hsub
  · intro h older k newer hsub
    exact h _ (List.mem_sublistsLen.mpr ⟨hsub, rfl⟩) older rfl k rfl newer rfl

instance {chunks : List Chunk} : Decidable (NothingOverlooked chunks) :=
  decidable_of_iff _ nothingOverlooked_iff.symm

/-! ### Rewriting -/

/-- A chunk that edits and overlooks no more than another one. -/
structure Lessens (a b : ChunkBody) : Prop where
  edits : ∀ {s id}, a.Edits s id → b.Edits s id
  overlooks : ∀ {s id}, a.Overlooks s id → b.Overlooks s id

instance : Std.Refl fun a b : Chunk => Lessens a.body b.body := ⟨fun _ => ⟨fun he => he, fun ho => ho⟩⟩

instance : IsTrans Chunk fun a b => Lessens a.body b.body :=
  ⟨fun _ _ _ h h' => ⟨fun he => h'.edits (h.edits he), fun ho => h'.overlooks (h.overlooks ho)⟩⟩

/-- Chunks that stand for some of a list in their order, and edit and overlook no
  more. -/
abbrev Thins (as bs : List Chunk) : Prop :=
  List.SublistForall₂ (fun a b : Chunk => Lessens a.body b.body) as bs

theorem Thins.of_sublist {as bs : List Chunk} (h : as.Sublist bs) : Thins as bs :=
  h.sublistForall₂

theorem Thins.append {as bs cs ds : List Chunk} (h : Thins as bs) (h' : Thins cs ds) :
    Thins (as ++ cs) (bs ++ ds) := by
  obtain ⟨l, hl, hlsub⟩ := List.sublistForall₂_iff.mp h
  obtain ⟨m, hm, hmsub⟩ := List.sublistForall₂_iff.mp h'
  exact List.sublistForall₂_iff.mpr ⟨l ++ m, List.rel_append hl hm, hlsub.append hmsub⟩

theorem NothingOverlooked.of_thins {as bs : List Chunk} (h : NothingOverlooked bs)
    (ht : Thins as bs) : NothingOverlooked as := by
  intro older k newer hsub t hot id hid hnewer hover
  have hthree : Thins [older, k, newer] bs := IsTrans.trans _ _ _ (Thins.of_sublist hsub) ht
  obtain ⟨l, hl, hlsub⟩ := List.sublistForall₂_iff.mp hthree
  obtain ⟨older', l₁, ho, h₁, rfl⟩ := List.forall₂_cons_left_iff.mp hl
  obtain ⟨k', l₂, hk, h₂, rfl⟩ := List.forall₂_cons_left_iff.mp h₁
  obtain ⟨newer', l₃, hn, h₃, rfl⟩ := List.forall₂_cons_left_iff.mp h₂
  obtain rfl := List.forall₂_nil_left_iff.mp h₃
  obtain ⟨⟨u, hu, hut⟩, hid'⟩ := ho.edits (s := t.sheet) ⟨⟨t, hot, rfl⟩, hid⟩
  exact h older' k' newer' hlsub u hu id hid' (hut ▸ hn.edits hnewer) (hut ▸ hk.overlooks hover)

/-- A chunk that is no block overlooks nothing. -/
theorem Lessens.of_edits {a b : ChunkBody} (hblock : a.isBlock = false)
    (h : ∀ {s id}, a.Edits s id → b.Edits s id) : Lessens a b :=
  ⟨h, fun ho => absurd ho.1 (by simp [hblock])⟩

/-- What a rewrite puts in the place of a pair lessens it. -/
def Rewrite.IsLess (older newer : ChunkBody) : Rewrite → Prop
  | .merge body => Lessens body older
  | .replaceNewer body => Lessens body newer
  | .dropOlder | .dropBoth => True

theorem isLess_beforeDeletion {older newer : ChunkBody} {r : Rewrite}
    (h : beforeDeletion older s = some r) : r.IsLess older newer := by
  unfold beforeDeletion at h
  dsimp only at h
  split at h
  · split at h
    · cases h
      trivial
    · cases h
      trivial
  · cases h

theorem isLess_rewriteFor {older newer : ChunkBody} {r : Rewrite}
    (h : rewriteFor older newer = some r) : r.IsLess older newer := by
  unfold rewriteFor at h
  split at h
  · -- a formula before the deletion of its column
    split at h
    · cases h
      trivial
    · cases h
  · -- a change of type before the deletion of its column
    split at h
    · cases h
      trivial
    · cases h
  · next t id header index value reads u is hs =>
    -- an insertion and the deletion of the column
    split at h
    · next hcond =>
      simp only [withoutColumn, List.unzip_eq_map] at h
      split at h
      · cases h
        trivial
      · cases h
        refine .of_edits rfl fun {k j} he => ⟨?_, ?_⟩
        · obtain ⟨⟨v, hv, hk⟩, -⟩ := he
          cases hv
          exact ⟨u, rfl, hcond.1 ▸ hk⟩
        · obtain ⟨p, hp, rfl⟩ := List.mem_map.mp he.2
          exact (List.of_mem_zip (List.mem_filter.mp hp).1).1
    · cases h
  · -- an insertion and a formula for the column
    split at h
    · cases h
      exact .of_edits rfl fun he => he
    · cases h
  · -- a formula before another one
    split at h
    · cases h
      trivial
    · cases h
  · -- two renamings of a column
    split at h
    · split at h
      · cases h
        trivial
      · cases h
        exact .of_edits rfl fun he => he
    · cases h
  · -- two renamings of a sheet
    split at h
    · split at h
      · cases h
        trivial
      · cases h
        exact .of_edits rfl fun he => he
    · cases h
  · -- a renaming and the deletion of the sheet
    split at h
    · cases h
      exact .of_edits rfl fun he => he
    · exact isLess_beforeDeletion h
  · exact isLess_beforeDeletion h
  · cases h

theorem thins_apply {older newer : Chunk} {ks : List Chunk} {r : Rewrite}
    (h : r.IsLess older.body newer.body) :
    Thins (r.apply older ks newer) (older :: ks ++ [newer]) := by
  cases r with
  | dropOlder => exact .of_sublist (List.sublist_cons_self _ _)
  | dropBoth =>
    exact .of_sublist ((List.sublist_append_left ks [newer]).trans (List.sublist_cons_self _ _))
  | merge body => exact .cons h (Thins.of_sublist (List.sublist_append_left ks [newer]))
  | replaceNewer body =>
    refine .cons_right ?_
    rw [List.sublistForall₂_iff]
    exact ⟨ks ++ [newer], List.rel_append (List.forall₂_refl ks) (.cons h .nil), .refl _⟩

theorem thins_rewriteWith {older : Chunk} {ks after out : List Chunk}
    (h : rewriteWith older ks after = some out) : Thins out (older :: ks ++ after) := by
  induction after generalizing ks with
  | nil => cases h
  | cons newer rest ih =>
    rw [rewriteWith] at h
    split at h
    · next r hrule =>
      cases h
      obtain ⟨hrule, -⟩ := Option.filter_eq_some_iff.mp hrule
      have hpair : Thins (r.apply older ks newer) (older :: ks ++ [newer]) :=
        thins_apply (isLess_rewriteFor hrule)
      simpa using hpair.append (Thins.of_sublist (List.Sublist.refl rest))
    · simpa using ih h

/-- A pass leaves chunks that edit and overlook no more. -/
theorem thins_rewriteOnce {chunks out : List Chunk} (h : rewriteOnce chunks = some out) :
    Thins out chunks := by
  induction chunks generalizing out with
  | nil => cases h
  | cons c rest ih =>
    rw [rewriteOnce] at h
    split at h
    · next out' hw =>
      cases h
      exact thins_rewriteWith hw
    · obtain ⟨out', hout, rfl⟩ := Option.map_eq_some_iff.mp h
      exact .cons ⟨fun he => he, fun ho => ho⟩ (ih hout)

theorem NothingOverlooked.rewriteOnce {chunks out : List Chunk} (h : NothingOverlooked chunks)
    (hr : Optimizer.rewriteOnce chunks = some out) : NothingOverlooked out :=
  h.of_thins (thins_rewriteOnce hr)

end Optimizer

end SheetScript
