import SheetScript.Proofs.Analysis.Canonical

/-! # Filling in defaults

  An old chart says how it looks only where its author chose so; an upgrade fills in the rest.
  Values and defaults are trees of objects, and a place in a tree is a path of field names.  The
  two trees are walked together: where both have an object its fields are merged, where only one
  of them has a value that is taken, and in all other cases the author's value stays, with
  nothing below it.

  - `Json.follow?`: the value at a path.
  - `Params.follow?_completed_of_some`, `Params.follow?_completed_of_none`: what stands at a
    path after the defaults were filled in.
  - `Params.FillsIn`: what it means that only gaps were filled.
  - `Params.completed_fillsIn`: filling in defaults fills gaps only, and filling them in again
    changes nothing.
-/

namespace SheetScript

namespace Json

/-! ### Paths -/

/-- The value that a path of field names leads to. -/
def follow? : Json → List String → Option Json
  | j, [] => some j
  | j, name :: path => (j.field? name).bind fun v => follow? v path

variable {j v : Json} {name : String} {path rest : List String} {fields : List (String × Json)}

@[simp] theorem follow?_nil (j : Json) : j.follow? [] = some j := rfl

theorem follow?_cons (j : Json) (name : String) (path : List String) :
    j.follow? (name :: path) = (j.field? name).bind fun v => v.follow? path := rfl

theorem follow?_append (j : Json) (path rest : List String) :
    j.follow? (path ++ rest) = (j.follow? path).bind fun v => v.follow? rest := by
  induction path generalizing j with
  | nil => rfl
  | cons name path ih =>
    rw [List.cons_append, follow?_cons, follow?_cons, Option.bind_assoc]
    exact congrArg _ (funext fun v => ih v)

/-- A value without fields has no field. -/
theorem field?_of_fields?_eq_none (h : j.fields? = none) (name : String) :
    j.field? name = none := by
  cases j with
  | object _ => cases h
  | _ => rfl

theorem eq_object_of_fields? (h : j.fields? = some fields) : j = .object fields := by
  cases j <;> cases h
  rfl

theorem fields?_of_field? (h : j.field? name = some v) : ∃ fields, j = .object fields := by
  cases j with
  | object fields => exact ⟨fields, rfl⟩
  | _ => cases h

theorem isCanonical_of_field? (hj : j.IsCanonical) (h : j.field? name = some v) :
    v.IsCanonical := by
  obtain ⟨fields, rfl⟩ := fields?_of_field? h
  exact hj.fields.2 _ (Dictionary.mem_of_get? h)

theorem isCanonical_of_follow? (hj : j.IsCanonical) (h : j.follow? path = some v) :
    v.IsCanonical := by
  induction path generalizing j with
  | nil => exact Option.some.inj h ▸ hj
  | cons name path ih =>
    obtain ⟨w, hw, hv⟩ := Option.bind_eq_some_iff.mp h
    exact ih (isCanonical_of_field? hj hw) hv

theorem sizeOf_lt_of_field? (h : j.field? name = some v) : sizeOf v < sizeOf j := by
  obtain ⟨fields, rfl⟩ := fields?_of_field? h
  have hmem : (name, v) ∈ fields := Dictionary.mem_of_get? h
  have hfields := List.sizeOf_lt_of_mem hmem
  simp only [Prod.mk.sizeOf_spec, object.sizeOf_spec] at hfields ⊢
  omega

/-- What holds of a value if it holds of its fields holds of every value. -/
@[elab_as_elim] theorem fieldwise {P : Json → Prop}
    (h : ∀ j : Json, (∀ name v, j.field? name = some v → P v) → P j) (j : Json) : P j :=
  h j fun _ v _ => fieldwise h v
termination_by sizeOf j
decreasing_by exact sizeOf_lt_of_field? ‹_›

end Json

open Json

namespace Params

variable {default target v w : Json} {name : String} {path : List String}

/-! ### Fields -/

theorem completed_of_fields?_eq_none (h : target.fields? = none) (default : Json) :
    completed default target = target := by
  cases target with
  | object _ => cases h
  | _ => cases default <;> rfl

theorem get?_completedFields {defaults : List (String × Json)}
    (hnodup : (defaults.map Prod.fst).Nodup) (target : Params) (name : String) :
    Dictionary.get? (completedFields defaults target) name
      = Option.merge completed (Dictionary.get? defaults name) (Dictionary.get? target name) := by
  induction defaults generalizing target with
  | nil => rw [completedFields, Dictionary.get?_nil, Option.merge_none_left]
  | cons f rest ih =>
    obtain ⟨first, default⟩ := f
    obtain ⟨hfirst, hrest⟩ := List.nodup_cons.mp hnodup
    rw [completedFields, ih hrest, Dictionary.get?_cons]
    by_cases hname : first = name
    · subst hname
      have hnone : Dictionary.get? rest first = none := Dictionary.get?_eq_none_iff.mpr hfirst
      rw [hnone, if_pos rfl, Option.merge_none_left]
      split
      · next v hv => rw [Dictionary.get?_insert, if_pos rfl, hv, Option.merge_some_some]
      · next hv => rw [Dictionary.get?_insert, if_pos rfl, hv, Option.merge_none_right]
    · rw [if_neg hname]
      split <;> rw [Dictionary.get?_insert, if_neg hname]

/-- The field of an object that was completed: the two fields are merged. -/
theorem field?_completed (hdefault : default.IsCanonical) (fields : Params) (name : String) :
    (completed default (.object fields)).field? name
      = Option.merge completed (default.field? name) ((Json.object fields).field? name) := by
  cases default with
  | object defaults =>
    exact get?_completedFields hdefault.fields.1.nodup fields name
  | _ => exact Option.merge_none_left.symm

/-! ### Values at paths -/

/-- A value of the target stays in its place; if there is a default there, it is completed by
  that one. -/
theorem follow?_completed_of_some (hdefault : default.IsCanonical)
    (h : target.follow? path = some v) :
    (completed default target).follow? path
      = some ((default.follow? path).elim v fun d => completed d v) := by
  induction path generalizing default target with
  | nil =>
    cases h
    rfl
  | cons name path ih =>
    obtain ⟨w, hw, hv⟩ := Option.bind_eq_some_iff.mp h
    obtain ⟨fields, rfl⟩ := fields?_of_field? hw
    rw [follow?_cons, follow?_cons, field?_completed hdefault, hw]
    cases hd : default.field? name with
    | none => exact hv
    | some d => exact ih (isCanonical_of_field? hdefault hd) hv

/-- A value of the target that is no object stays as it is. -/
theorem follow?_completed_of_value (hdefault : default.IsCanonical)
    (hv : target.follow? path = some v) (hfields : v.fields? = none) :
    (completed default target).follow? path = some v := by
  rw [follow?_completed_of_some hdefault hv]
  cases default.follow? path with
  | none => rfl
  | some d => exact congrArg some (completed_of_fields?_eq_none hfields d)

/-- A value that is no object stands in the way of a path. -/
def Blocks (target : Json) (path : List String) : Prop :=
  ∃ front name rest v, path = front ++ name :: rest ∧ target.follow? front = some v
    ∧ v.fields? = none

theorem Blocks.cons (hw : target.field? name = some w) (h : Blocks w path) :
    Blocks target (name :: path) := by
  obtain ⟨front, next, rest, v, rfl, hv, hfields⟩ := h
  exact ⟨name :: front, next, rest, v, rfl, by rw [follow?_cons, hw]; exact hv, hfields⟩

/-- Nothing is behind a value that is no object. -/
theorem Blocks.follow?_eq_none (h : Blocks target path) : target.follow? path = none := by
  obtain ⟨front, name, rest, v, rfl, hv, hfields⟩ := h
  rw [follow?_append, hv, Option.bind_some, follow?_cons, field?_of_fields?_eq_none hfields]
  rfl

theorem Blocks.completed (hdefault : default.IsCanonical) (h : Blocks target path) :
    Blocks (completed default target) path := by
  obtain ⟨front, name, rest, v, hpath, hv, hfields⟩ := h
  exact ⟨front, name, rest, v, hpath, follow?_completed_of_value hdefault hv hfields, hfields⟩

/-- Where the target has nothing the default is put, if no other value is in the way. -/
theorem follow?_completed_of_none (hdefault : default.IsCanonical)
    (h : target.follow? path = none) (hfree : ¬ Blocks target path) :
    (completed default target).follow? path = default.follow? path := by
  induction path generalizing default target with
  | nil => cases h
  | cons name path ih =>
    cases hfields : target.fields? with
    | none => exact absurd ⟨[], name, path, target, rfl, rfl, hfields⟩ hfree
    | some fields =>
      obtain rfl := eq_object_of_fields? hfields
      rw [follow?_cons, follow?_cons, field?_completed hdefault]
      cases hw : (Json.object fields).field? name with
      | none => rw [Option.merge_none_right]
      | some w =>
        rw [follow?_cons, hw, Option.bind_some] at h
        cases hd : default.field? name with
        | none => exact h
        | some d =>
          exact ih (isCanonical_of_field? hdefault hd) h fun hblocks => hfree (hblocks.cons hw)

/-! ### Twice -/

/-- Nothing changes if every default is there and has nothing to add to the field. -/
theorem completedFields_eq_self {defaults : List (String × Json)} {fields : Params}
    (hdefaults : (Json.object defaults).IsCanonical) (hfields : fields.IsCanonical)
    (h : ∀ {name d}, Dictionary.get? defaults name = some d →
      ∃ v, Dictionary.get? fields name = some v ∧ completed d v = v) :
    completedFields defaults fields = fields := by
  have hcompleted := isCanonical_completedFields defaults fields hdefaults.fields.2 hfields
  refine Dictionary.ext_get? hcompleted.fields.1 hfields.fields.1 fun name => ?_
  rw [get?_completedFields hdefaults.fields.1.nodup]
  cases hd : Dictionary.get? defaults name with
  | none => exact Option.merge_none_left
  | some d =>
    obtain ⟨v, hv, hsame⟩ := h hd
    rw [hv, Option.merge_some_some, hsame]

theorem completed_self (h : default.IsCanonical) : completed default default = default := by
  induction default using fieldwise with
  | h default ih =>
    cases default with
    | object defaults =>
      refine congrArg Json.object (completedFields_eq_self h h fun {name d} hd => ?_)
      exact ⟨d, hd, ih name d hd (isCanonical_of_field? h hd)⟩
    | _ => rfl

theorem completed_completed (hdefault : default.IsCanonical) (htarget : target.IsCanonical) :
    completed default (completed default target) = completed default target := by
  induction default using fieldwise generalizing target with
  | h default ih =>
    cases hfields : target.fields? with
    | none => rw [completed_of_fields?_eq_none hfields, completed_of_fields?_eq_none hfields]
    | some fields =>
      obtain rfl := eq_object_of_fields? hfields
      cases default with
      | object defaults =>
        have hcompleted :=
          isCanonical_completedFields defaults fields hdefault.fields.2 htarget
        refine congrArg Json.object
          (completedFields_eq_self hdefault hcompleted fun {name d} hd => ?_)
        have hcanonical := isCanonical_of_field? hdefault hd
        rw [get?_completedFields hdefault.fields.1.nodup, hd]
        cases hv : Dictionary.get? fields name with
        | none => exact ⟨d, rfl, completed_self hcanonical⟩
        | some v => exact ⟨_, rfl, ih name d hd hcanonical (isCanonical_of_field? htarget hv)⟩
      | _ => rfl

/-! ### Filled gaps -/

/-- What stands where both trees have a value: the one of the target, with the fields of both if
  both are objects. -/
inductive Kept : Json → Json → Json → Prop where
  | value {default v : Json} (h : default.fields? = none ∨ v.fields? = none) : Kept default v v
  | object {defaults fields merged : List (String × Json)}
      (h : ∀ name, name ∈ Dictionary.keys merged
        ↔ name ∈ Dictionary.keys fields ∨ name ∈ Dictionary.keys defaults) :
      Kept (.object defaults) (.object fields) (.object merged)

/-- `result` is `target` with its gaps filled from `defaults`. -/
structure FillsIn (defaults target result : Json) : Prop where
  /-- A value that is no object stays as it is. -/
  values : ∀ {path v}, target.follow? path = some v → v.fields? = none →
    result.follow? path = some v
  /-- An object stays an object, and none of its fields is lost. -/
  objects : ∀ {path fields}, target.follow? path = some (.object fields) →
    ∃ merged, result.follow? path = some (.object merged)
      ∧ ∀ name ∈ Dictionary.keys fields, name ∈ Dictionary.keys merged
  /-- Every default is put where nothing was, and elsewhere what was there is kept; or a value
    that is no object stands in the way. -/
  places : ∀ {path default}, defaults.follow? path = some default →
    target.follow? path = none ∧ result.follow? path = some default
      ∨ (∃ v kept, target.follow? path = some v ∧ result.follow? path = some kept
          ∧ Kept default v kept)
      ∨ Blocks target path
  /-- What is new at a path is the default for it. -/
  nothingElse : ∀ {path v}, result.follow? path = some v →
    (∃ u, target.follow? path = some u) ∨ defaults.follow? path = some v

theorem keys_completedFields {defaults : List (String × Json)}
    (hnodup : (defaults.map Prod.fst).Nodup) (fields : Params) (name : String) :
    name ∈ Dictionary.keys (completedFields defaults fields)
      ↔ name ∈ Dictionary.keys fields ∨ name ∈ Dictionary.keys defaults := by
  simp only [← Dictionary.get?_isSome_iff, get?_completedFields hnodup, Option.isSome_merge,
    Bool.or_eq_true, or_comm]

theorem kept_completed (hdefault : default.IsCanonical) (v : Json) :
    Kept default v (completed default v) := by
  cases hfields : v.fields? with
  | none =>
    rw [completed_of_fields?_eq_none hfields]
    exact .value (.inr hfields)
  | some fields =>
    obtain rfl := eq_object_of_fields? hfields
    cases default with
    | object defaults => exact .object (keys_completedFields hdefault.fields.1.nodup fields)
    | _ => exact .value (.inl rfl)

theorem Kept.object_of_object {fields : List (String × Json)}
    (h : Kept default (.object fields) w) :
    ∃ merged, w = .object merged
      ∧ ∀ name ∈ Dictionary.keys fields, name ∈ Dictionary.keys merged := by
  cases h with
  | value _ => exact ⟨fields, rfl, fun _ hname => hname⟩
  | object hkeys => exact ⟨_, rfl, fun name hname => (hkeys name).mpr (.inl hname)⟩

theorem fillsIn_completed (hdefault : default.IsCanonical) (target : Json) :
    FillsIn default target (completed default target) where
  values := follow?_completed_of_value hdefault
  objects {path fields} hv := by
    rw [follow?_completed_of_some hdefault hv]
    cases hd : default.follow? path with
    | none => exact ⟨fields, rfl, fun _ hname => hname⟩
    | some d =>
      have hkept := kept_completed (isCanonical_of_follow? hdefault hd) (.object fields)
      obtain ⟨merged, hmerged, hkeys⟩ := hkept.object_of_object
      exact ⟨merged, congrArg some hmerged, hkeys⟩
  places {path d} hd := by
    cases hv : target.follow? path with
    | some v =>
      refine .inr (.inl ⟨v, _, rfl, follow?_completed_of_some hdefault hv, ?_⟩)
      rw [hd]
      exact kept_completed (isCanonical_of_follow? hdefault hd) v
    | none =>
      by_cases hblocks : Blocks target path
      · exact .inr (.inr hblocks)
      · exact .inl ⟨rfl, (follow?_completed_of_none hdefault hv hblocks).trans hd⟩
  nothingElse {path v} h := by
    cases hv : target.follow? path with
    | some u => exact .inl ⟨u, rfl⟩
    | none =>
      have hfree : ¬ Blocks target path := by
        intro hblocks
        rw [(hblocks.completed hdefault).follow?_eq_none] at h
        cases h
      exact .inr ((follow?_completed_of_none hdefault hv hfree).symm.trans h)

/-- To fill in defaults is to fill gaps: values of the target that are no objects stay, objects
  lose no field, every default is put where there is room for it and nothing was, and nothing
  else is added.  Then no gap is left, so that the same defaults change nothing any more. -/
theorem completed_fillsIn {defaults target : Json} (hdefaults : defaults.IsCanonical)
    (htarget : target.IsCanonical) :
    FillsIn defaults target (completed defaults target)
      ∧ completed defaults (completed defaults target) = completed defaults target :=
  ⟨fillsIn_completed hdefaults target, completed_completed hdefaults htarget⟩

namespace Sample

/-- A look with a title of its own, a truth value for an axis, and an object for a color. -/
def look : Json :=
  .ofFields
    [("title", .ofFields [("title", .string "Mine")]), ("xaxis", .bool false),
     ("paper_bgcolor", .ofFields [("dark", .string "#000000")])]

theorem isCanonical_look : look.IsCanonical :=
  isCanonical_ofFields (by simp [isCanonical_ofFields])

end Sample

/-- A title that is there is kept and made visible, and an axis that is none stays so. -/
theorem completed_fillsIn_look :
    stylingDefaults.IsCanonical ∧ Sample.look.IsCanonical
      ∧ FillsIn stylingDefaults Sample.look (completed stylingDefaults Sample.look)
      ∧ (completed stylingDefaults Sample.look).follow? ["title", "title"] = some (.string "Mine")
      ∧ (completed stylingDefaults Sample.look).follow? ["title", "visible"] = some (.bool true)
      ∧ (completed stylingDefaults Sample.look).follow? ["xaxis"] = some (.bool false)
      ∧ completed stylingDefaults (completed stylingDefaults Sample.look)
        = completed stylingDefaults Sample.look := by
  obtain ⟨hfills, htwice⟩ :=
    completed_fillsIn isCanonical_stylingDefaults Sample.isCanonical_look
  exact ⟨isCanonical_stylingDefaults, Sample.isCanonical_look, hfills, hfills.values rfl rfl, rfl,
    hfills.values rfl rfl, htwice⟩

end Params

end SheetScript
