import Mathlib.Data.List.Forall2

/-! # Accepted computations

  What it takes for a computation that may be refused to be accepted: each of its
  parts was, and no guard refused it.
-/

namespace SheetScript

variable {ε α β : Type}

@[simp] theorem bind_eq_ok {x : Except ε α} {f : α → Except ε β} {b : β} :
    (x >>= f) = .ok b ↔ ∃ a, x = .ok a ∧ f a = .ok b := by
  cases x <;> simp [bind, Except.bind]

@[simp] theorem map_eq_ok {x : Except ε α} {f : α → β} {b : β} :
    x.map f = .ok b ↔ ∃ a, x = .ok a ∧ f a = b := by
  cases x <;> simp [Except.map]

@[simp] theorem functor_map_eq_ok {x : Except ε α} {f : α → β} {b : β} :
    f <$> x = .ok b ↔ ∃ a, x = .ok a ∧ f a = b :=
  map_eq_ok

@[simp] theorem pure_eq_ok {a b : α} : (pure a : Except ε α) = .ok b ↔ a = b := by
  simp [pure, Except.pure]

@[simp] theorem throw_ne_ok {e : ε} {a : α} : (throw e : Except ε α) ≠ .ok a := by
  simp [throw, throwThe, MonadExceptOf.throw]

/-- A guard that throws was passed. -/
@[simp] theorem throw_ite_eq_ok {p : Prop} [Decidable p] {e : ε} {x : Except ε α} {a : α} :
    (if p then throw e else x) = .ok a ↔ ¬ p ∧ x = .ok a := by
  by_cases hp : p <;> simp [hp]

/-- A guard whose alternative throws was passed. -/
@[simp] theorem ite_throw_eq_ok {p : Prop} [Decidable p] {e : ε} {x : Except ε α} {a : α} :
    (if p then x else throw e) = .ok a ↔ p ∧ x = .ok a := by
  by_cases hp : p <;> simp [hp]

/-- An accepted computation yields its result, whatever would stand for none. -/
theorem eq_ok_of_toBool {x : Except ε α} (h : x.toBool = true) (a : α) :
    x = .ok (x.toOption.getD a) := by
  cases x with
  | error e => cases h
  | ok b => rfl

/-- Items of a list are accepted one by one. -/
theorem mapM_eq_ok {f : α → Except ε β} {l : List α} {r : List β} :
    l.mapM f = .ok r ↔ List.Forall₂ (fun a b => f a = .ok b) l r := by
  induction l generalizing r with
  | nil => cases r <;> simp
  | cons a rest ih =>
    rw [List.mapM_cons]
    cases r with
    | nil => simp
    | cons b s => simp [ih]

theorem mapM_eq_ok_map {f : α → Except ε β} {g : α → β} {l : List α}
    (h : ∀ a ∈ l, f a = .ok (g a)) : l.mapM f = .ok (l.map g) := by
  rw [mapM_eq_ok, List.forall₂_map_right_iff, List.forall₂_same]
  exact h

/-- A list has partners if each of its items has one. -/
theorem exists_forall₂_iff {R : α → β → Prop} {l : List α} :
    (∃ r, List.Forall₂ R l r) ↔ ∀ a ∈ l, ∃ b, R a b := by
  induction l with
  | nil => simp
  | cons a rest ih =>
    rw [List.forall_mem_cons, ← ih]
    constructor
    · rintro ⟨_, h⟩
      cases h with
      | cons hb hr => exact ⟨⟨_, hb⟩, _, hr⟩
    · rintro ⟨⟨b, hb⟩, r, hr⟩
      exact ⟨b :: r, .cons hb hr⟩

/-- A list is accepted if each of its items is. -/
theorem exists_mapM_eq_ok {f : α → Except ε β} {l : List α} :
    (∃ r, l.mapM f = .ok r) ↔ ∀ a ∈ l, ∃ b, f a = .ok b := by
  simp only [mapM_eq_ok]
  exact exists_forall₂_iff

/-- What every accepted round of a loop keeps, the loop keeps. -/
theorem foldlM_keeps {f : β → α → Except ε β} {P : β → Prop} {l : List α} {b r : β}
    (hstep : ∀ {a b b'}, a ∈ l → P b → f b a = .ok b' → P b') (hb : P b)
    (h : l.foldlM f b = .ok r) : P r := by
  induction l generalizing b with
  | nil =>
    simp only [List.foldlM_nil, pure_eq_ok] at h
    exact h ▸ hb
  | cons a rest ih =>
    simp only [List.foldlM_cons, bind_eq_ok] at h
    obtain ⟨next, hnext, h⟩ := h
    exact ih (fun hmem => hstep (List.mem_cons_of_mem _ hmem)) (hstep List.mem_cons_self hb hnext) h

/-- Loops whose rounds do the same on every item do the same. -/
theorem foldlM_congr {f g : β → α → Except ε β} {l : List α} (h : ∀ a ∈ l, ∀ b, f b a = g b a)
    (b : β) : l.foldlM f b = l.foldlM g b := by
  induction l generalizing b with
  | nil => rfl
  | cons a rest ih =>
    rw [List.foldlM_cons, List.foldlM_cons, h a List.mem_cons_self]
    exact congrArg (g b a >>= ·) (funext fun next => ih (fun k hk => h k (.tail _ hk)) next)

/-- What is done to every item alike is done to the list alike. -/
theorem mapM_congr {f g : α → Except ε β} {l : List α} (h : ∀ a ∈ l, f a = g a) :
    l.mapM f = l.mapM g := by
  induction l with
  | nil => rfl
  | cons a rest ih =>
    rw [List.mapM_cons, List.mapM_cons, h a List.mem_cons_self,
      ih fun b hb => h b (List.mem_cons_of_mem _ hb)]

/-! ### Pairs of items -/

theorem exists_of_mem_left {R : α → β → Prop} {l : List α} {r : List β} (h : List.Forall₂ R l r)
    {a : α} (ha : a ∈ l) : ∃ b ∈ r, R a b := by
  induction h with
  | nil => cases ha
  | cons hab _ ih =>
    rcases List.mem_cons.mp ha with rfl | ha
    · exact ⟨_, List.mem_cons_self, hab⟩
    · obtain ⟨b, hb, hR⟩ := ih ha
      exact ⟨b, List.mem_cons_of_mem _ hb, hR⟩

theorem exists_of_mem_right {R : α → β → Prop} {l : List α} {r : List β}
    (h : List.Forall₂ R l r) {b : β} (hb : b ∈ r) : ∃ a ∈ l, R a b :=
  exists_of_mem_left h.flip hb

/-- What is accepted for the second item of every pair is accepted for the list, with what
  the first items tell of the results. -/
theorem exists_mapM_of_forall₂ {γ : Type} {R : α → β → Prop} {Q : α → γ → Prop}
    {f : β → Except ε γ} {l : List α} {r : List β} (h : List.Forall₂ R l r)
    (hf : ∀ a b, R a b → ∃ c, f b = .ok c ∧ Q a c) :
    ∃ cs, r.mapM f = .ok cs ∧ List.Forall₂ Q l cs := by
  induction h with
  | nil => exact ⟨[], rfl, .nil⟩
  | @cons a b _ _ hab _ ih =>
    obtain ⟨c, hc, hQ⟩ := hf a b hab
    obtain ⟨cs, hcs, hQs⟩ := ih
    exact ⟨c :: cs, by simp [List.mapM_cons, hc, hcs], .cons hQ hQs⟩

/-- The first items of the pairs are those of the list. -/
theorem mem_of_forall₂ {R : α → β → Prop} {l : List α} {r : List β} (h : List.Forall₂ R l r) :
    List.Forall₂ (fun a b => a ∈ l ∧ R a b) l r := by
  obtain ⟨hlength, hzip⟩ := List.forall₂_iff_zip.mp h
  exact List.forall₂_iff_zip.mpr ⟨hlength, fun hab => ⟨(List.of_mem_zip hab).1, hzip hab⟩⟩

/-- Lists of one item each, put together. -/
theorem flatten_of_forall₂ {R : α → β → Prop} {l : List α} {rs : List (List β)}
    (h : List.Forall₂ (fun a r => ∃ b, r = [b] ∧ R a b) l rs) : List.Forall₂ R l rs.flatten := by
  induction h with
  | nil => exact .nil
  | cons hab _ ih =>
    obtain ⟨b, rfl, hR⟩ := hab
    exact .cons hR ih

/-- What pairs agree on, the two lists agree on from left to right. -/
theorem map_eq_of_forall₂ {γ : Type} {R : α → β → Prop} {l : List α} {r : List β}
    (h : List.Forall₂ R l r) {f : α → γ} {g : β → γ} (hfg : ∀ a b, R a b → g b = f a) :
    r.map g = l.map f := by
  induction h with
  | nil => rfl
  | cons hab _ ih => rw [List.map_cons, List.map_cons, ih, hfg _ _ hab]

end SheetScript
