import SheetScript.Proofs.Desk.Exchange
import SheetScript.Proofs.Desk.Locality

/-! # Chunks in either order

  Two chunks without a conflict reach different sheets, or edit columns of one sheet.
  What lay there for the one lies there after the other as well, and none of them sees
  what the other does, so they can trade places.

  Two things are not in a footprint.  A deletion moves the columns to its right, and an
  insertion goes by their places.  And a block that reads some columns of a sheet may
  look at the others.

  - `Desk.seen_step`: what blocks see.
  - `Desk.swap_of_not_shared`: chunks of different sheets.
  - `Desk.swap_of_shared`: edits of one sheet.
  - `Desk.swap`: any two chunks.
-/

namespace SheetScript

namespace ChunkBody

/-- Whether a chunk is a block that accesses a sheet which another one touches. -/
def Watches (a b : ChunkBody) : Prop :=
  a.isBlock = true ∧ ∃ s ∈ b.footprint.touched, ¬ a.footprint.Avoids s

/-- Whether two chunks edit columns of the sheet. -/
def ShareSheet (a b : ChunkBody) (s : SheetId) : Prop :=
  (∃ t, a.columnTarget? = some t ∧ t.sheet = s) ∧ ∃ t, b.columnTarget? = some t ∧ t.sheet = s

end ChunkBody

namespace Symbolic

variable {τ : Type} {I : Interpretation τ}

/-! ### What blocks see -/

theorem SymbolicFrame.valueOf?_of_mem {f : SymbolicFrame τ} (hids : (ids f).Nodup)
    {c : SymbolicColumn τ} (hc : c ∈ f) : Machine.valueOf? f c.id = some c.value := by
  have hfind : (f.find? fun e => e.id = c.id).isSome := by
    rw [List.find?_isSome]
    exact ⟨c, hc, by simp⟩
  obtain ⟨e, he⟩ := Option.isSome_iff_exists.mp hfind
  have hid : e.id = c.id := by simpa using List.find?_some he
  rw [Machine.valueOf?, he, eq_of_id hids (List.mem_of_find?_eq_some he) hc hid]
  rfl

namespace Desk

variable {d : Desk τ} {a b : ChunkBody} {s : SheetId}

/-- Of a sheet that it writes in part, a block leaves the other columns as they are. -/
theorem filter_output {k : Block} (hm : d.BlockMeans k) {o : BlockOutput} (ho : o ∈ k.outputs)
    {js : Roster ColumnId}
    (hjs : Dictionary.get? k.footprint.effectiveWrites o.sheet = some (.only js))
    {x : Table τ} (hx : d o.sheet = some x) (hids : (SymbolicFrame.ids x.frame).Nodup)
    {is : Roster ColumnId} (hdisj : ∀ id ∈ is, id ∉ js) :
    (d.output I k o).frame.filter (fun c => c.id ∈ is) = x.frame.filter fun c => c.id ∈ is := by
  have hwrites : Dictionary.get? k.footprint.writes o.sheet = some (.only js) := by
    rw [Footprint.get?_effectiveWrites] at hjs
    split at hjs
    · cases hjs
    · exact hjs
  -- the columns that are seen are among those that are retained
  have hcolumns : o.columns.filter (fun c => c.1 ∈ is)
      = (x.frame.filter fun c => c.id ∈ is).map fun c => (c.id, c.header) := by
    have hsub : ∀ l : List (ColumnId × Header),
        (l.filter fun c => c.1 ∉ js).filter (fun c => c.1 ∈ is)
          = l.filter fun c => c.1 ∈ is := by
      intro l
      rw [List.filter_filter]
      refine List.filter_congr fun c _ => ?_
      by_cases hc : c.1 ∈ is
      · simp [hc, hdisj _ hc]
      · simp [hc]
    rw [← hsub, hm.retains o ho js hjs x hx, hsub, List.filter_map]
    rfl
  have hoff : (d.output I k o).frame.filter (fun c => c.id ∈ is)
      = (o.columns.filter fun c => c.1 ∈ is).map fun c => ⟨c.1, c.2,
          (Machine.kept? k.footprint.writes o.sheet (some x.frame) c.1).getD
            (I.produced (d.seen I k) c.1)⟩ := by
    simp only [output, Machine.outputFrame, hx, Option.map_some]
    rw [List.filter_map]
    rfl
  rw [hoff, hcolumns, List.map_map]
  refine (List.map_congr_left fun c hc => ?_).trans (List.map_id _)
  obtain ⟨hmem, hid⟩ := List.mem_filter.mp hc
  have hnot : c.id ∉ js := hdisj _ (by simpa using hid)
  simp [Machine.kept?, hwrites, hnot, SymbolicFrame.valueOf?_of_mem hids hmem]

/-- Of columns that a chunk does not write, the same is seen after it. -/
theorem filter_step (htidy : d.Tidy) (hkeyed : d.Keyed) (hm : d.Means b) (hr : d.Runs b)
    {js : Roster ColumnId}
    (hjs : Dictionary.get? b.footprint.effectiveWrites s = some (.only js))
    {is : Roster ColumnId} (hdisj : ∀ id ∈ is, id ∉ js) :
    (d.step I b s).map (fun x => x.frame.filter fun c => c.id ∈ is)
      = (d s).map fun x => x.frame.filter fun c => c.id ∈ is := by
  have hin : s ∈ b.footprint.touched := Dictionary.get?_isSome_iff.mp (by rw [hjs]; rfl)
  induction b using ChunkBody.kind_cases with
  | column b t ht =>
    obtain ⟨x, hx, -⟩ := (runs_column ht d).mp hr
    rw [touched_column ht, List.mem_singleton] at hin
    subst hin
    rw [ChunkBody.get?_writes_column ht] at hjs
    obtain rfl : Roster.ofList b.editedIds = js := ColumnSet.only.inj (Option.some.inj hjs)
    have hm : SymbolicFrame.Matches x.frame b :=
      (matches_column ht d).mp ((means_column ht).mp hm) x hx
    rw [step_column ht, edit_self hx, hx, Option.map_some, Option.map_some,
      SymbolicFrame.filter_retouch (hkeyed hx) (htidy.headers hx) hm
        fun id hid => by simpa using hdisj id hid]
  | duplicateSheet source copy =>
    rw [ChunkBody.touched_duplicateSheet, List.mem_singleton] at hin
    subst hin
    rw [Footprint.get?_effectiveWrites, ChunkBody.creates_duplicateSheet, if_pos (by simp)] at hjs
    cases hjs
  | deleteSheet t =>
    rw [ChunkBody.touched_deleteSheet, List.mem_singleton] at hin
    subst hin
    rw [ChunkBody.get?_writes_deleteSheet] at hjs
    cases hjs
  | renameSheet u old new =>
    rw [ChunkBody.touched_renameSheet, List.mem_singleton] at hin
    subst hin
    rw [ChunkBody.get?_writes_renameSheet] at hjs
    cases hjs
  | block k =>
    rw [ChunkBody.effectiveWrites_block] at hjs
    by_cases h : ∃ o ∈ k.outputs, o.sheet = s
    · obtain ⟨o, ho, rfl⟩ := h
      -- a sheet that is created is written as a whole
      have hold : o.sheet ∉ k.footprint.creates := by
        intro hc
        rw [Footprint.get?_effectiveWrites, if_pos (List.mem_append_left _ hc)] at hjs
        cases hjs
      obtain ⟨x, hx⟩ := Option.isSome_iff_exists.mp (hm.block.kept o ho hold)
      rw [step_block_output hr.sheets ho, hx, Option.map_some, Option.map_some,
        filter_output hm ho hjs hx (hkeyed hx) hdisj]
    · rw [step_block_ne fun o ho hos => h ⟨o, ho, hos⟩]

/-- A block sees the same after a chunk that changes nothing of what it declares, if it
  sees no more than that, or accesses no sheet that the chunk touches. -/
theorem seen_step {k : Block} (hsees : I.IsNarrow ∨ ¬ (ChunkBody.block k).Watches b)
    (hclear : (ChunkBody.block k).footprint.conflictsWith b.footprint = false) (htidy : d.Tidy)
    (hkeyed : d.Keyed) (hm : d.Means b) (hr : d.Runs b) :
    (d.step I b).seen I k = d.seen I k := by
  have haccess : ∀ e ∈ k.footprint.reads ++ k.footprint.writes,
      (ChunkBody.block k).footprint.Accesses e.1 e.2
        ∨ (ChunkBody.block k).footprint.Accesses e.1 .all := by
    intro e he
    simp only [ChunkBody.accesses_block]
    rcases List.mem_append.mp he with he | he
    · exact .inl (.inl he)
    · exact Footprint.accesses_of_mem_writes he
  rcases hsees with hI | hwatch
  · -- what the chunk writes of a sheet is declared not to be seen
    have hsights : ∀ l : ColumnAccess, (∀ e ∈ l, e ∈ k.footprint.reads ++ k.footprint.writes) →
        ((d.step I b).sights l).map Sight.narrow = (d.sights l).map Sight.narrow := by
      intro l hl
      unfold sights
      rw [List.map_map, List.map_map]
      refine List.map_congr_left fun e he => ?_
      by_cases hin : e.1 ∈ b.footprint.touched
      · obtain ⟨w, hw⟩ := Option.isSome_iff_exists.mp (Dictionary.get?_isSome_iff.mpr hin)
        have hover : e.2.overlaps w = false := by
          rcases haccess e (hl e he) with h | h
          · exact Footprint.overlaps_of_clear hclear hw h
          · have hall := Footprint.overlaps_of_clear hclear hw h
            rw [ColumnSet.overlaps_all_left] at hall
            cases hall
        obtain ⟨is, js, his, rfl, hdisj⟩ := ColumnSet.overlaps_eq_false hover
        have hsame := filter_step (I := I) htidy hkeyed hm hr hw hdisj
        simpa [Sight.narrow, his, Function.comp_def] using hsame
      · simp only [Function.comp_apply, step_of_not_touched hm.matches hin]
    exact hI _ (hsights _ fun e he => List.mem_append_left _ he)
      (hsights _ fun e he => List.mem_append_right _ he)
  · have hsights : ∀ l : ColumnAccess, (∀ e ∈ l, e ∈ k.footprint.reads ++ k.footprint.writes) →
        (d.step I b).sights l = d.sights l := by
      intro l hl
      refine List.map_congr_left fun e he => ?_
      have hout : e.1 ∉ b.footprint.touched := by
        intro hin
        refine hwatch ⟨rfl, e.1, hin, fun havoids => ?_⟩
        rcases haccess e (hl e he) with h | h
        · exact havoids _ h
        · exact havoids _ h
      rw [step_of_not_touched hm.matches hout]
    unfold seen
    rw [hsights _ fun e he => List.mem_append_left _ he,
      hsights _ fun e he => List.mem_append_right _ he]

theorem effects_step (hsees : I.IsNarrow ∨ ¬ a.Watches b)
    (hclear : a.footprint.conflictsWith b.footprint = false) (htidy : d.Tidy) (hkeyed : d.Keyed)
    (hm : d.Means b) (hr : d.Runs b) : (d.step I b).effects I a = d.effects I a := by
  cases a with
  | block k => simp only [effects, seen_step hsees hclear htidy hkeyed hm hr]
  | _ => rfl

/-! ### Chunks of different sheets -/

theorem Means.ordered (hm : d.Means b) : b.footprint.Ordered := by
  refine ChunkBody.ordered_footprint fun k hk => ?_
  subst hk
  exact hm.ordered

/-- A chunk leaves what another one reaches, unless both edit columns of the sheet. -/
theorem step_of_clear {e : Desk τ} (hab : a.footprint.conflictsWith b.footprint = false)
    (hba : b.footprint.conflictsWith a.footprint = false) (ha : e.Matches a) (hb : d.Matches b)
    (hshare : ¬ a.ShareSheet b s) (hs : ¬ a.Bypasses s) : d.step I b s = d s := by
  have hleft : a.footprint.Accesses s .all → d.step I b s = d s := by
    intro hall
    refine step_of_not_touched hb fun hin => ?_
    obtain ⟨w, hw⟩ := Option.isSome_iff_exists.mp (Dictionary.get?_isSome_iff.mpr hin)
    have hover := Footprint.overlaps_of_clear hab hw hall
    rw [ColumnSet.overlaps_all_left] at hover
    cases hover
  rcases reach_cases ha s with ⟨t, ht, rfl⟩ | hbypass | hall
  · rcases reach_cases hb t.sheet with ⟨u, hu, hut⟩ | hbypass | hall
    · exact absurd ⟨⟨t, ht, rfl⟩, u, hu, hut⟩ hshare
    · exact step_bypassed hbypass
    · -- who reads a whole sheet conflicts with the edit of a column
      have hover := Footprint.overlaps_of_clear hba (ChunkBody.get?_writes_column ht) hall
      rw [ColumnSet.overlaps_all_left] at hover
      cases hover
  · exact absurd hbypass hs
  · exact hleft hall

section Swap

variable (hab : a.footprint.conflictsWith b.footprint = false)
  (hba : b.footprint.conflictsWith a.footprint = false) (hma : d.Means a) (hra : d.Runs a)
  (hmb : (d.step I a).Means b) (hrb : (d.step I a).Runs b)
include hab hba hma hra hmb hrb

/-- What the later of two chunks was emitted for lay there before the earlier one. -/
theorem first_of_clear (hshare : ∀ s, ¬ a.ShareSheet b s) : d.Means b ∧ d.Runs b := by
  have hagree : AgreeFor b (d.step I a) d := fun s hs =>
    step_of_clear hba hab hmb.matches hma.matches (fun h => hshare s ⟨h.2, h.1⟩) hs
  refine ⟨Means.congr hagree hmb, Runs.congr hagree (fun n hn s => ?_) hrb⟩
  exact holds_step ⟨hra, hma.matches⟩ (Footprint.not_mem_binds_of_clear hab (.inl hn)) s

/-- Chunks that edit columns of one sheet at most run in either order, and to the same
  effect. -/
theorem swap_of_not_shared (hshare : ∀ s, ¬ a.ShareSheet b s)
    (hseen : (∀ k, a = .block k → (d.step I b).seen I k = d.seen I k)
      ∧ ∀ k, b = .block k → (d.step I a).seen I k = d.seen I k) :
    (d.step I b).Means a ∧ (d.step I b).Runs a
      ∧ (d.step I a).step I b = (d.step I b).step I a := by
  obtain ⟨hmb', hrb'⟩ := first_of_clear hab hba hma hra hmb hrb hshare
  have hagree : AgreeFor a (d.step I b) d := fun s hs =>
    step_of_clear hab hba hma.matches hmb'.matches (hshare s) hs
  have hagree' : AgreeFor b (d.step I a) d := fun s hs =>
    step_of_clear hba hab hmb.matches hma.matches (fun h => hshare s ⟨h.2, h.1⟩) hs
  refine ⟨Means.congr hagree.symm hma, Runs.congr hagree.symm (fun n hn s => ?_) hra, ?_⟩
  · exact (holds_step ⟨hrb', hmb'.matches⟩
      (Footprint.not_mem_binds_of_clear hba (.inl hn)) s).symm
  · funext s
    -- a sheet is left by the chunk that bypasses it, and by both if both reach it
    by_cases hsa : a.Bypasses s <;> by_cases hsb : b.Bypasses s
    · rw [step_bypassed hsb, step_bypassed hsa, step_bypassed hsa, step_bypassed hsb]
    · rw [step_congr hagree' hseen.2 s hsb, step_bypassed hsa]
    · rw [step_bypassed hsb, step_congr hagree hseen.1 s hsa]
    · rw [step_congr hagree' hseen.2 s hsb, step_congr hagree hseen.1 s hsa, hagree s hsa,
        hagree' s hsb]

end Swap

/-! ### Edits of one sheet -/

/-- Whether one of two chunks deletes a column of a sheet to the left of the place where
  the other inserts one. -/
def Shifts (d : Desk τ) (a b : ChunkBody) : Prop :=
  ∃ s x, a.ShareSheet b s ∧ d s = some x
    ∧ (SymbolicFrame.Displaces x.frame b a ∨ SymbolicFrame.Displaces x.frame a b)

/-- Edits of one sheet without a conflict are apart. -/
theorem apart_of_clear (hab : a.footprint.conflictsWith b.footprint = false)
    (hba : b.footprint.conflictsWith a.footprint = false) (hs : a.ShareSheet b s) :
    SymbolicFrame.Apart s a b := by
  obtain ⟨⟨t, ht, rfl⟩, u, hu, hut⟩ := hs
  have hspareA : ∀ id ∈ b.editedIds, id ∉ a.editedIds ∧ id ∉ a.readIds := fun id hid =>
    ChunkBody.spares_column ht (Footprint.spares_of_clear hab
      (hut ▸ ChunkBody.get?_writes_column hu) hid)
  have hspareB : ∀ id ∈ a.editedIds, id ∉ b.editedIds ∧ id ∉ b.readIds := fun id hid =>
    ChunkBody.spares_column hu (Footprint.spares_of_clear hba
      (hut.symm ▸ ChunkBody.get?_writes_column ht) hid)
  refine ⟨⟨t, ht, rfl⟩, ⟨u, hu, hut⟩, fun id hid => (hspareB id hid).1,
    fun id hid hin => (hspareA id hin).2 hid, fun id hid hin => (hspareB id hin).2 hid,
    fun h hin => Footprint.not_mem_binds_of_clear hba (.inl hin), ?_⟩
  -- two insertions would both count the columns of the sheet
  cases a with
  | addColumn v id header index value reads =>
    cases ht
    cases b with
    | addColumn =>
      cases hu
      exact absurd (hut ▸ ChunkBody.positions_addColumn ..)
        (Footprint.not_mem_positions_of_clear hba (ChunkBody.positions_addColumn ..))
    | _ => exact .inr rfl
  | _ => exact .inl rfl

theorem step_step_column {t u : Target} (ht : a.columnTarget? = some t)
    (hu : b.columnTarget? = some u) (htu : u.sheet = t.sheet) {x : Table τ}
    (hx : d t.sheet = some x) :
    (d.step I a).step I b = d.set t.sheet
      (some { x with frame := SymbolicFrame.retouch I (SymbolicFrame.retouch I x.frame a) b }) := by
  rw [step_column ht, step_column hu, htu, edit_eq hx, edit_eq (set_self _ _ _), set_set]

/-- Edits of one sheet run in the other order, and lead to one frame, if and only if
  neither shifts where the other inserts. -/
theorem swap_of_shared (hab : a.footprint.conflictsWith b.footprint = false)
    (hba : b.footprint.conflictsWith a.footprint = false) (htidy : d.Tidy) (hkeyed : d.Keyed)
    (hma : d.Means a) (hra : d.Runs a) (hmb : (d.step I a).Means b)
    (hrb : (d.step I a).Runs b) (hs : a.ShareSheet b s) :
    (d.Means b ∧ d.Runs b) ∧ (d.step I b).Means a
      ∧ ((d.step I b).Runs a ∧ (d.step I a).step I b = (d.step I b).step I a
        ↔ ¬ d.Shifts a b) := by
  have hapart := apart_of_clear hab hba hs
  obtain ⟨⟨t, ht, rfl⟩, u, hu, hut⟩ := id hs
  obtain ⟨x, hx, hname, hra⟩ := (runs_column ht d).mp hra
  have hids := hkeyed hx
  have hh := htidy.headers hx
  have ha : SymbolicFrame.Matches x.frame a := (matches_column ht d).mp hma.matches x hx
  -- both edits find the frame of the sheet, before the other one or behind it
  have hafter : d.step I a u.sheet
      = some { x with frame := SymbolicFrame.retouch I x.frame a } := by
    rw [hut, step_column ht, edit_self hx]
  obtain ⟨y, hy, hname', hrb⟩ := (runs_column hu _).mp hrb
  rw [hafter] at hy
  cases hy
  have hb := (hapart.symm.matches_iff hids hh ha).mp ((matches_column hu _).mp hmb.matches _ hafter)
  have hrb' := hapart.symm.runs_of_retouch hids hh ha hrb hb
  have hxu : d u.sheet = some x := hut ▸ hx
  have hback : d.step I b t.sheet
      = some { x with frame := SymbolicFrame.retouch I x.frame b } := by
    rw [← hut, step_column hu, edit_self hxu]
  refine ⟨⟨?_, ?_⟩, ?_, ?_⟩
  · rw [means_column hu, matches_column hu]
    intro z hz
    rw [hxu] at hz
    exact Option.some.inj hz ▸ hb
  · exact (runs_column hu d).mpr ⟨x, hxu, hname', hrb'⟩
  · rw [means_column ht, matches_column ht]
    intro z hz
    rw [hback] at hz
    exact Option.some.inj hz ▸ (hapart.matches_iff hids hh hb).mpr ha
  · have hruns : (d.step I b).Runs a
        ↔ SymbolicFrame.Runs (SymbolicFrame.retouch I x.frame b) a := by
      rw [runs_column ht, hback]
      constructor
      · rintro ⟨z, hz, -, hr⟩
        cases hz
        exact hr
      · exact fun hr => ⟨_, rfl, hname, hr⟩
    have heq : (d.step I a).step I b = (d.step I b).step I a
        ↔ SymbolicFrame.retouch I (SymbolicFrame.retouch I x.frame a) b
          = SymbolicFrame.retouch I (SymbolicFrame.retouch I x.frame b) a := by
      rw [step_step_column ht hu hut hx, step_step_column hu ht hut.symm hxu, hut]
      constructor
      · intro h
        have hsame := congrFun h t.sheet
        rw [set_self, set_self] at hsame
        exact congrArg Table.frame (Option.some.inj hsame)
      · intro h
        rw [h]
    have hshift : d.Shifts a b
        ↔ SymbolicFrame.Displaces x.frame b a ∨ SymbolicFrame.Displaces x.frame a b := by
      constructor
      · rintro ⟨s, y, ⟨⟨v, hv, rfl⟩, -⟩, hy, h⟩
        rw [ht] at hv
        cases hv
        rw [hx] at hy
        exact Option.some.inj hy ▸ h
      · exact fun h => ⟨t.sheet, x, hs, hx, h⟩
    rw [hruns, heq, hapart.exchange_iff hids hh hra ha hrb' hb hrb, hshift, not_or]

/-! ### Any two chunks -/

/-- What the later of two chunks was emitted for lay there before the earlier one, and what
  the earlier one was emitted for lies there after the later one.  The chunks show what
  they showed, and lead to one desk, if and only if neither shifts where the other inserts. -/
theorem swap (hab : a.footprint.conflictsWith b.footprint = false) (htidy : d.Tidy)
    (hkeyed : d.Keyed) (hma : d.Means a) (hra : d.Runs a) (hmb : (d.step I a).Means b)
    (hrb : (d.step I a).Runs b) (hsees : I.IsNarrow ∨ ¬ a.Watches b ∧ ¬ b.Watches a) :
    (d.Means b ∧ d.Runs b) ∧ (d.step I b).Means a
      ∧ ((d.step I a).effects I b = d.effects I b ∧ (d.step I b).effects I a = d.effects I a)
      ∧ ((d.step I b).Runs a ∧ (d.step I a).step I b = (d.step I b).step I a
        ↔ ¬ d.Shifts a b) := by
  have hba := hab
  rw [Footprint.conflictsWith_comm hma.ordered hmb.ordered] at hba
  have hwatch : I.IsNarrow ∨ ¬ a.Watches b := hsees.imp_right And.left
  have hwatch' : I.IsNarrow ∨ ¬ b.Watches a := hsees.imp_right And.right
  by_cases hs : ∃ s, a.ShareSheet b s
  · obtain ⟨s, hs⟩ := hs
    obtain ⟨hb, hback, hiff⟩ := swap_of_shared hab hba htidy hkeyed hma hra hmb hrb hs
    exact ⟨hb, hback, ⟨effects_step hwatch' hba htidy hkeyed hma hra,
      effects_step hwatch hab htidy hkeyed hb.1 hb.2⟩, hiff⟩
  · rw [not_exists] at hs
    have hb := first_of_clear hab hba hma hra hmb hrb hs
    obtain ⟨hback, hruns, heq⟩ := swap_of_not_shared hab hba hma hra hmb hrb hs
      ⟨fun k hk => seen_step (hk ▸ hwatch) (hk ▸ hab) htidy hkeyed hb.1 hb.2,
        fun k hk => seen_step (hk ▸ hwatch') (hk ▸ hba) htidy hkeyed hma hra⟩
    refine ⟨hb, hback, ⟨effects_step hwatch' hba htidy hkeyed hma hra,
      effects_step hwatch hab htidy hkeyed hb.1 hb.2⟩, iff_of_true ⟨hruns, heq⟩ ?_⟩
    rintro ⟨s, x, hshare, -⟩
    exact hs s hshare

/-- Whether two chunks have effects, and not the same one. -/
def Races (I : Interpretation τ) (d : Desk τ) (a b : ChunkBody) : Prop :=
  ∃ v ∈ d.effects I a, ∃ w ∈ d.effects I b, v ≠ w

theorem effects_append_comm :
    d.effects I b ++ d.effects I a = d.effects I a ++ d.effects I b ↔ ¬ d.Races I a b := by
  have hlist : ∀ c, d.effects I c = [] ∨ ∃ v, d.effects I c = [v] := by
    intro c
    cases c with
    | block k =>
      by_cases hk : k.keep = true
      · exact .inr ⟨d.seen I k, by simp [effects, hk]⟩
      · exact .inl (by simp [effects, hk])
    | _ => exact .inl rfl
  unfold Races
  rcases hlist a with ha | ⟨v, ha⟩ <;> rcases hlist b with hb | ⟨w, hb⟩ <;> rw [ha, hb]
  · simp
  · simp
  · simp
  · simp [eq_comm]

end Desk

end Symbolic

end SheetScript
