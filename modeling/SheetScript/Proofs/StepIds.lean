import Mathlib.Data.List.Induction
import Mathlib.Data.List.Infix
import Mathlib.Data.List.Nodup
import SheetScript.Proofs.Editing
import SheetScript.Proofs.Undoing

/-! # Ids of steps

  A step that is edited is found by its id, so ids should differ.  A session looks at the
  last step only when an id is sent to it: an id of an earlier step is taken as if it were
  new.  That is the one way in which two steps of a log come by the same id.

  Every call either sends an id for one more step, or keeps some of the ids and numbers
  new steps with ids that were not generated before (`Session.ids_of_sent`,
  `Session.ids_of_unsent`).

  Main statement: `Session.ids_differ_iff`.
-/

namespace SheetScript

namespace Session

/-- The ids of all steps, undone ones included. -/
def ids (s : Session) : List StepId := s.steps.map Step.id

/-- The ids of the steps that are not undone. -/
def appliedIds (s : Session) : List StepId := s.applied.map Step.id

/-- The id that is sent with a call for a step that the call makes. -/
def Call.sent? : Call → Option StepId
  | .apply id _ => some id
  | .handle event => some event.step
  | _ => none

/-- A call that sends the id of a step that is not undone, and not that of the last one. -/
def Resends (s : Session) (c : Call) : Prop :=
  ∃ id, c.sent? = some id ∧ id ∈ s.appliedIds.dropLast

/-- Whoever sends a generated id knows it from the session. -/
def Knows (s : Session) (c : Call) : Prop :=
  ∀ k, c.sent? = some (.generated k) → k < s.nextStep

/-- The generated ids of a log were generated by the session. -/
def Numbered (s : Session) : Prop := ∀ k, StepId.generated k ∈ s.ids → k < s.nextStep

/-- Ids that were not generated before. -/
def numbers (start count : Nat) : List StepId := (List.range' start count).map .generated

theorem mem_numbers {start count : Nat} {id : StepId} :
    id ∈ numbers start count ↔ ∃ k, id = .generated k ∧ start ≤ k ∧ k < start + count := by
  simp only [numbers, List.mem_map, List.mem_range'_1]
  constructor
  · rintro ⟨k, ⟨hle, hlt⟩, rfl⟩
    exact ⟨k, rfl, hle, hlt⟩
  · rintro ⟨k, rfl, hle, hlt⟩
    exact ⟨k, ⟨hle, hlt⟩, rfl⟩

theorem nodup_numbers (start count : Nat) : (numbers start count).Nodup :=
  List.Nodup.map (fun _ _ h => StepId.generated.inj h) (List.nodup_range' 1 Nat.one_pos)

section Calls

variable {s next : Session} {d : Disk} {c : Call} {id : StepId} {e : Edit} {kept : List Step}
  {es : List (StepId × Edit)} {index : Nat} {steps : List Step}

/-! ### The ids after a call -/

theorem appliedIds_sublist (s : Session) : s.appliedIds.Sublist s.ids :=
  (List.take_sublist s.index s.steps).map Step.id

theorem nextStep_commit (h : s.commit steps index = .ok next) :
    next.steps = steps ∧ next.nextStep = s.nextStep := by
  simp only [commit, bind_eq_ok, pure_eq_ok] at h
  obtain ⟨script, -, rfl⟩ := h
  exact ⟨rfl, rfl⟩

/-- An applied edit goes behind the steps that are not undone, or takes the place of the
  last of them. -/
theorem ids_apply (hs : s.index ≤ s.steps.length) (h : (s.apply d id e).1 = .ok next) :
    next.ids = (if s.appliedIds.getLast? = some id then s.appliedIds.dropLast
      else s.appliedIds) ++ [id] ∧ next.nextStep = s.nextStep := by
  have hreplaces : s.applied.getLast?.any (fun last => last.id = id)
      = decide (s.appliedIds.getLast? = some id) := by
    unfold appliedIds
    rw [List.getLast?_map]
    cases s.applied.getLast? <;> simp
  have hlast : s.steps.take (s.index - 1) = s.applied.dropLast := by
    rw [List.dropLast_eq_take, length_applied hs, applied, List.take_take,
      Nat.min_eq_left (Nat.sub_le _ _)]
  rw [apply_eq] at h
  simp only [bind_eq_ok, hreplaces] at h
  obtain ⟨step, hrun, hcommit⟩ := h
  obtain ⟨hsteps, hnext⟩ := nextStep_commit hcommit
  obtain ⟨hid, -, -⟩ := Step.eq_of_run hrun
  refine ⟨?_, hnext⟩
  rw [ids, hsteps, List.map_append, List.map_singleton, hid]
  by_cases hlastId : s.appliedIds.getLast? = some id
  · rw [decide_eq_true hlastId, if_pos rfl, if_pos hlastId, hlast, List.map_dropLast]
    rfl
  · rw [decide_eq_false hlastId, if_neg Bool.false_ne_true, if_neg hlastId]
    rfl

/-- Edits that run again keep their ids. -/
theorem ids_rerun {before : State} (h : (s.rerun d kept before es).1 = .ok next) :
    next.ids = kept.map Step.id ++ es.map Prod.fst ∧ next.nextStep = s.nextStep := by
  obtain ⟨later, script, hlater, -, rfl⟩ := rerun_eq_ok.mp h
  obtain ⟨-, hagain⟩ := Step.acceptsOn_of_replay Disk.closed_all trivial (fun _ _ => trivial) hlater
  refine ⟨?_, rfl⟩
  show (kept ++ later).map Step.id = _
  rw [List.map_append, ← hagain, List.map_map]
  rfl

/-- A call that sends an id. -/
theorem ids_of_sent (hs : s.index ≤ s.steps.length) (hsent : c.sent? = some id)
    (h : (c.outcome s d).1 = .ok next) :
    next.ids = (if s.appliedIds.getLast? = some id then s.appliedIds.dropLast
      else s.appliedIds) ++ [id] ∧ next.nextStep = s.nextStep := by
  cases c with
  | apply id' e =>
    obtain rfl := Option.some.inj hsent
    exact ids_apply hs h
  | handle event =>
    obtain rfl := Option.some.inj hsent
    rw [Call.outcome, handle_eq] at h
    split at h
    · cases h
    · exact ids_apply hs h
  | _ => cases hsent

theorem ids_editStep {idText : String} (h : (s.editStep d id e idText).1 = .ok next) :
    next.ids = s.appliedIds ∧ next.nextStep = s.nextStep := by
  rw [editStep_eq] at h
  split at h
  · cases h
  · next i hi =>
    obtain ⟨hlt, hid, -⟩ := List.findIdx?_eq_some_iff_getElem.mp hi
    obtain ⟨hids, hnext⟩ := ids_rerun h
    refine ⟨?_, hnext⟩
    have hsplit := List.take_append_drop i s.appliedIds
    have hlt' : i < s.appliedIds.length := by rwa [appliedIds, List.length_map]
    rw [List.drop_eq_getElem_cons hlt'] at hsplit
    have hat : s.appliedIds[i] = id :=
      (List.getElem_map Step.id).trans (of_decide_eq_true hid)
    rw [hids, ← hsplit, hat, List.map_cons, List.map_map, appliedIds, List.map_take, List.map_drop]
    rfl

/-- A call that sends none keeps some of the ids, and numbers what is new. -/
theorem ids_of_unsent (hs : s.index ≤ s.steps.length) (hsent : c.sent? = none)
    (h : (c.outcome s d).1 = .ok next) :
    ∃ old count, old.Sublist s.ids ∧ next.ids = old ++ numbers s.nextStep count
      ∧ next.nextStep = s.nextStep + count := by
  have hkept : next.ids.Sublist s.ids → next.nextStep = s.nextStep →
      ∃ old count, old.Sublist s.ids ∧ next.ids = old ++ numbers s.nextStep count
        ∧ next.nextStep = s.nextStep + count := fun hsub hnext =>
    ⟨next.ids, 0, hsub, (List.append_nil _).symm, hnext⟩
  cases c with
  | apply id e => cases hsent
  | handle event => cases hsent
  | push e =>
    -- the new id is that of no step, so nothing is replaced, whatever the last id is
    rw [Call.outcome, push_eq] at h
    obtain ⟨hids, hnext⟩ := ids_apply (s := { s with nextStep := s.nextStep + 1 }) hs h
    have hsub : (if s.appliedIds.getLast? = some s.freshId then s.appliedIds.dropLast
        else s.appliedIds).Sublist s.ids := by
      split
      · exact (List.dropLast_sublist _).trans s.appliedIds_sublist
      · exact s.appliedIds_sublist
    exact ⟨_, 1, hsub, hids, hnext⟩
  | undo =>
    rw [Call.outcome, undo_eq] at h
    split at h
    · cases h
      exact hkept (.refl _) rfl
    · obtain ⟨hsteps, hnext⟩ := nextStep_commit h
      exact hkept (by rw [ids, hsteps]; exact .refl _) hnext
  | redo =>
    rw [Call.outcome, redo_eq] at h
    split at h
    · cases h
      exact hkept (.refl _) rfl
    · obtain ⟨hsteps, hnext⟩ := nextStep_commit h
      exact hkept (by rw [ids, hsteps]; exact .refl _) hnext
  | clear =>
    rw [Call.outcome, clear_eq] at h
    obtain ⟨hids, hnext⟩ := ids_rerun h
    refine hkept ?_ hnext
    rw [hids, List.map_nil, List.nil_append, List.map_map]
    exact ((List.filter_sublist.map Step.id).trans s.appliedIds_sublist)
  | editStep id e idText =>
    obtain ⟨hids, hnext⟩ := ids_editStep h
    exact hkept (hids ▸ s.appliedIds_sublist) hnext
  | load a =>
    rw [Call.outcome, load_eq] at h
    split at h
    · cases h
    · next edits _ =>
      obtain ⟨hids, hnext⟩ := ids_rerun h
      refine ⟨[], edits.length, List.nil_sublist _, ?_, hnext⟩
      rw [hids, List.map_nil, List.map_map, numbers]
      show [] ++ edits.zipIdx.map (fun e => StepId.generated (s.nextStep + e.2)) = _
      rw [List.range'_eq_map_range, List.map_map, List.range_eq_range', ← List.zipIdx_map_snd,
        List.map_map]
      rfl

/-! ### What a call keeps -/

/-- Generated ids stay those that were generated. -/
theorem Numbered.after (hnumbered : s.Numbered) (hknows : s.Knows c)
    (hs : s.index ≤ s.steps.length) (h : (c.outcome s d).1 = .ok next) : next.Numbered := by
  intro k hk
  cases hsent : c.sent? with
  | some id =>
    obtain ⟨hids, hnext⟩ := ids_of_sent hs hsent h
    rw [hnext]
    rw [hids] at hk
    rcases List.mem_append.mp hk with hk | hk
    · refine hnumbered k (s.appliedIds_sublist.subset ?_)
      split at hk
      · exact List.dropLast_subset _ hk
      · exact hk
    · exact hknows k (by rw [hsent, List.mem_singleton.mp hk])
  | none =>
    obtain ⟨old, count, hold, hids, hnext⟩ := ids_of_unsent hs hsent h
    rw [hnext]
    rw [hids] at hk
    rcases List.mem_append.mp hk with hk | hk
    · exact Nat.lt_add_right _ (hnumbered k (hold.subset hk))
    · obtain ⟨j, hj, -, hlt⟩ := mem_numbers.mp hk
      rwa [StepId.generated.inj hj]

/-- Where ids differ, they differ after a call unless it sends the id of an earlier step. -/
theorem nodup_ids_next (hnd : s.ids.Nodup) (hnumbered : s.Numbered)
    (hs : s.index ≤ s.steps.length) (h : (c.outcome s d).1 = .ok next) :
    next.ids.Nodup ↔ ¬ s.Resends c := by
  have happlied : s.appliedIds.Nodup := hnd.sublist s.appliedIds_sublist
  have hsnoc : ∀ (l : List StepId) (id : StepId), l.Nodup → ((l ++ [id]).Nodup ↔ id ∉ l) := by
    intro l id hl
    rw [← List.concat_eq_append, List.nodup_concat, and_iff_left hl]
  unfold Resends
  cases hsent : c.sent? with
  | some id =>
    obtain ⟨hids, -⟩ := ids_of_sent hs hsent h
    simp only [Option.some.injEq, exists_eq_left']
    rw [hids]
    split
    · exact hsnoc _ id (happlied.sublist (List.dropLast_sublist _))
    · next hlast =>
      rw [hsnoc _ id happlied]
      -- the id is not that of the last step, so it is that of an earlier one or new
      cases hl : s.appliedIds.getLast? with
      | none => simp [List.getLast?_eq_none_iff.mp hl]
      | some last =>
        obtain ⟨front, hfront⟩ := List.getLast?_eq_some_iff.mp hl
        have hne : id ≠ last := fun heq => hlast (by rw [hl, heq])
        simp [hfront, hne]
  | none =>
    obtain ⟨old, count, hold, hids, -⟩ := ids_of_unsent hs hsent h
    have hdisjoint : old.Disjoint (numbers s.nextStep count) := by
      intro id hmem hnew
      obtain ⟨k, rfl, hle, -⟩ := mem_numbers.mp hnew
      exact Nat.not_lt.mpr hle (hnumbered k (hold.subset hmem))
    have hnext : next.ids.Nodup := by
      rw [hids]
      exact (hnd.sublist hold).append (nodup_numbers _ _) hdisjoint
    simp [hnext]

/-- Where ids differ, an edited step is the one step with its id, and no other edit is
  touched. -/
theorem edited_of_nodup {idText : String} (hnd : s.ids.Nodup)
    (h : (s.editStep d id e idText).1 = .ok next) :
    ∃ i step, s.applied[i]? = some step ∧ step.id = id
      ∧ (∀ k ∈ s.steps, k.id = id → k = step)
      ∧ next.steps.map again = (s.applied.map again).set i (id, e) := by
  rw [editStep_eq] at h
  split at h
  · cases h
  · next i hi =>
    obtain ⟨hlt, hid, -⟩ := List.findIdx?_eq_some_iff_getElem.mp hi
    have hid : s.applied[i].id = id := of_decide_eq_true hid
    obtain ⟨later, script, hlater, -, rfl⟩ := rerun_eq_ok.mp h
    obtain ⟨-, hagain⟩ :=
      Step.acceptsOn_of_replay Disk.closed_all trivial (fun _ _ => trivial) hlater
    refine ⟨i, s.applied[i], List.getElem?_eq_getElem hlt, hid, fun k hk hkid => ?_, ?_⟩
    · have hmem : s.applied[i] ∈ s.steps := List.mem_of_mem_take (List.getElem_mem hlt)
      exact List.inj_on_of_nodup_map hnd hk hmem (hkid.trans hid.symm)
    · rw [map_again_set hlt, ← hagain]
      exact List.map_append

end Calls

/-! ### Every session -/

section Runs

variable {settings : Settings} {inputs : List (String × Frame)} {first : Session}
  {calls : List (Disk × Call)}

theorem performAll_concat (first : Session) (calls : List (Disk × Call)) (c : Disk × Call) :
    first.performAll (calls ++ [c]) = (first.performAll calls).perform c := by
  unfold performAll
  rw [List.foldl_append]
  rfl

theorem ids_start (hstart : start settings inputs = .ok first) : first.ids = [] := by
  simp only [start, bind_eq_ok, pure_eq_ok] at hstart
  obtain ⟨initial, -, script, -, rfl⟩ := hstart
  rfl

theorem index_le_performAll (hstart : start settings inputs = .ok first)
    (calls : List (Disk × Call)) :
    (first.performAll calls).index ≤ (first.performAll calls).steps.length := by
  have hconsistent : (first.performAll calls).Consistent (fun _ => True) (fun _ => True) first :=
    (consistent_start hstart).1.performAll Disk.closed_all fun _ _ => ⟨trivial, fun _ _ => trivial⟩
  exact hconsistent.index_le

/-- All along the calls the generated ids of the log are those that were generated. -/
theorem numbered_performAll (hstart : start settings inputs = .ok first)
    (hknows : ∀ before c, before ++ [c] <+: calls → (first.performAll before).Knows c.2) :
    (first.performAll calls).Numbered := by
  induction calls using List.reverseRecOn with
  | nil =>
    intro k hk
    rw [performAll, List.foldl_nil, ids_start hstart] at hk
    cases hk
  | append_singleton before c ih =>
    have hbefore := ih fun earlier c' hc' =>
      hknows earlier c' (hc'.trans (List.prefix_append _ _))
    rw [performAll_concat, perform_eq]
    split
    · next next hnext =>
      exact hbefore.after (hknows before c (List.prefix_refl _)) (index_le_performAll hstart before)
        hnext
    · exact hbefore

end Runs

/-- Along any calls, where generated ids are sent only after they were generated: at all
  times the ids of the steps differ exactly if no accepted call sends the id of a step that
  is neither undone nor the last.  Where they differ, an edit reaches the one step with the
  given id and no other. -/
theorem ids_differ_iff {settings : Settings} {inputs : List (String × Frame)} {first : Session}
    (hstart : start settings inputs = .ok first) (calls : List (Disk × Call))
    (hknows : ∀ before c, before ++ [c] <+: calls → (first.performAll before).Knows c.2) :
    ((∀ before, before <+: calls → (first.performAll before).ids.Nodup)
        ↔ ∀ before c, before ++ [c] <+: calls → ∀ next,
            (c.2.outcome (first.performAll before) c.1).1 = .ok next →
              ¬ (first.performAll before).Resends c.2)
      ∧ ∀ before, before <+: calls →
          let s := first.performAll before
          s.ids.Nodup → ∀ d id e idText next, (s.editStep d id e idText).1 = .ok next →
            ∃ i step, s.applied[i]? = some step ∧ step.id = id
              ∧ (∀ k ∈ s.steps, k.id = id → k = step)
              ∧ next.steps.map again = (s.applied.map again).set i (id, e) := by
  have hnext : ∀ {before c next}, before ++ [c] <+: calls →
      (c.2.outcome (first.performAll before) c.1).1 = .ok next →
      (first.performAll before).ids.Nodup →
        (next.ids.Nodup ↔ ¬ (first.performAll before).Resends c.2) := by
    intro before c next hbefore hnext hnd
    have hnumbered : (first.performAll before).Numbered := numbered_performAll hstart
      fun earlier c' hc' => hknows earlier c'
        (hc'.trans ((List.prefix_append _ _).trans hbefore))
    exact nodup_ids_next hnd hnumbered (index_le_performAll hstart before) hnext
  refine ⟨⟨fun hnd before c hbefore next houtcome => ?_, fun hnone before => ?_⟩,
    fun before _ hnd d id e idText next hedited => edited_of_nodup hnd hedited⟩
  · refine (hnext hbefore houtcome (hnd before ((List.prefix_append _ _).trans hbefore))).mp ?_
    have hafter := hnd _ hbefore
    rw [performAll_concat, perform_eq, houtcome] at hafter
    exact hafter
  -- the induction is on the calls, of which the last one resends an id or does not
  · induction before using List.reverseRecOn with
    | nil =>
      intro _
      rw [performAll, List.foldl_nil, ids_start hstart]
      exact List.nodup_nil
    | append_singleton before c ih =>
      intro hbefore
      have hnd := ih ((List.prefix_append _ _).trans hbefore)
      rw [performAll_concat, perform_eq]
      split
      · next next houtcome =>
        exact (hnext hbefore houtcome hnd).mpr (hnone before c hbefore next houtcome)
      · exact hnd

/-! ### Samples -/

namespace Sample

/-- The imported table is renamed; the formula behind is undone with the move, and then the
  renaming is sent again under its id, as the last step that is not undone. -/
def resendingCalls : List (Disk × Call) :=
  branchCalls ++ [(disk, .undo), (disk, .undo), (disk, .apply (.named "rename") otherName)]

/-- Three columns are added under two ids. -/
def collidingCalls : List (Disk × Call) :=
  [({}, .apply (.named "a") (.addColumn ⟨0, "D", -1⟩)),
   ({}, .apply (.named "b") (.addColumn ⟨0, "E", -1⟩)),
   ({}, .apply (.named "a") (.addColumn ⟨0, "F", -1⟩))]

/-- Who sends no generated id need know none. -/
theorem knows_of_named {first : Session} {calls : List (Disk × Call)}
    (h : ∀ c ∈ calls, ∀ k, c.2.sent? ≠ some (.generated k)) :
    ∀ before c, before ++ [c] <+: calls → (first.performAll before).Knows c.2 :=
  fun _ c hcalls k hk => absurd hk (h c (hcalls.subset (by simp)) k)

end Sample

/-- The renaming was sent twice and stands in the log once, so it can be edited. -/
theorem ids_differ_iff_renamed :
    let s := Sample.first.performAll Sample.resendingCalls
    start { verifies := false } [] = .ok Sample.first
      ∧ (∀ before c, before ++ [c] <+: Sample.resendingCalls →
          (Sample.first.performAll before).Knows c.2)
      ∧ s.ids = [.generated 0, .named "rename"]
      ∧ (∀ before c, before ++ [c] <+: Sample.resendingCalls → ∀ next,
          (c.2.outcome (Sample.first.performAll before) c.1).1 = .ok next →
            ¬ (Sample.first.performAll before).Resends c.2)
      ∧ ∃ step next, step.id = .named "rename" ∧ (∀ k ∈ s.steps, k.id = .named "rename" → k = step)
          ∧ (s.editStep Sample.disk (.named "rename") (.renameColumn ⟨0, ⟨"Y"⟩, "V"⟩) "").1
              = .ok next
          ∧ next.current.sheets.map Sheet.headers = [["X", "V"]] := by
  intro s
  have hstart : start { verifies := false } [] = .ok Sample.first :=
    eq_ok_of_toBool (by decide) default
  have hknows : ∀ before c, before ++ [c] <+: Sample.resendingCalls →
      (Sample.first.performAll before).Knows c.2 :=
    Sample.knows_of_named (by simp [Sample.resendingCalls, Sample.branchCalls, Call.sent?])
  have hids : s.ids = [.generated 0, .named "rename"] := by decide +kernel
  have hnodup : ∀ before, before <+: Sample.resendingCalls →
      (Sample.first.performAll before).ids.Nodup := by
    have hall : ∀ before ∈ Sample.resendingCalls.inits,
        (Sample.first.performAll before).ids.Nodup := by decide +kernel
    exact fun before hbefore => hall before ((List.mem_inits _ _).mpr hbefore)
  obtain ⟨hiff, hedit⟩ := ids_differ_iff hstart Sample.resendingCalls hknows
  have hedited := eq_ok_of_toBool
    (x := (s.editStep Sample.disk (.named "rename") (.renameColumn ⟨0, ⟨"Y"⟩, "V"⟩) "").1)
    (by decide +kernel) default
  obtain ⟨_, step, -, hid, honly, -⟩ := hedit _ (List.prefix_refl _) (hnodup _ (List.prefix_refl _))
    _ _ _ _ _ hedited
  exact ⟨hstart, hknows, hids, hiff.mp hnodup, step, _, hid, honly, hedited, by decide +kernel⟩

/-- The id of the first step is sent again behind the second.  Then two steps have it, and
  an edit under it reaches the first. -/
theorem ids_collide :
    let s := Sample.tables.performAll Sample.collidingCalls
    start { verifies := false } SheetScript.Sample.inputs = .ok Sample.tables
      ∧ (∀ before c, before ++ [c] <+: Sample.collidingCalls →
          (Sample.tables.performAll before).Knows c.2)
      ∧ s.ids = [.named "a", .named "b", .named "a"] ∧ ¬ s.ids.Nodup
      ∧ s.current.sheets.map Sheet.headers = [["A", "B", "D", "E", "F"], ["A", "C"]]
      ∧ ∃ next, (s.editStep {} (.named "a") (.addColumn ⟨0, "G", -1⟩) "a").1 = .ok next
          ∧ next.current.sheets.map Sheet.headers = [["A", "B", "G", "E", "F"], ["A", "C"]] := by
  intro s
  have hids : s.ids = [.named "a", .named "b", .named "a"] := by decide
  refine ⟨eq_ok_of_toBool (by decide) default,
    Sample.knows_of_named (by simp [Sample.collidingCalls, Call.sent?]), hids, ?_,
    by decide, _, eq_ok_of_toBool (by decide) default, by decide⟩
  rw [hids]
  decide

end Session

end SheetScript
