/-!
# Dictionaries and rosters

  A dictionary is a list of keys with values, the keys ascending; a roster is a
  list of members, ascending.  Both are plain lists, so that they can stand
  inside recursive types; the operations below keep the order, and the lemmas
  describe them by look-up and membership alone.
-/

namespace SheetScript

/-- Keys with values, in ascending order of the keys. -/
abbrev Dictionary (κ : Type) (ν : Type) : Type := List (κ × ν)

namespace Dictionary

variable {κ ν μ : Type} [DecidableEq κ]

/-- The value of a key. -/
def get? (d : Dictionary κ ν) (k : κ) : Option ν :=
  match d with
  | [] => none
  | (j, v) :: rest => if j = k then some v else get? rest k

/-- Whether a key has a value. -/
def contains (d : Dictionary κ ν) (k : κ) : Bool := (get? d k).isSome

/-- The dictionary without a key. -/
def erase (d : Dictionary κ ν) (k : κ) : Dictionary κ ν := d.filter fun e => e.1 ≠ k

/-- The keys, ascending. -/
def keys (d : Dictionary κ ν) : List κ := d.map Prod.fst

/-- The values in the order of their keys. -/
def values (d : Dictionary κ ν) : List ν := d.map Prod.snd

/-- The dictionary with every value replaced. -/
def mapValues (f : ν → μ) (d : Dictionary κ ν) : Dictionary κ μ := d.map fun e => (e.1, f e.2)

variable [LT κ] [DecidableLT κ]

/-- The dictionary with `k` bound to `v`, in place of any earlier value. -/
def insert (d : Dictionary κ ν) (k : κ) (v : ν) : Dictionary κ ν :=
  match d with
  | [] => [(k, v)]
  | (j, w) :: rest =>
    if j = k then (k, v) :: rest
    else if k < j then (k, v) :: (j, w) :: rest
    else (j, w) :: insert rest k v

/-- The dictionary of a list of bindings, of which the last for a key counts. -/
def ofList (es : List (κ × ν)) : Dictionary κ ν := es.foldl (fun d e => insert d e.1 e.2) []

omit [LT κ] [DecidableLT κ] in
@[simp] theorem get?_nil (k : κ) : get? ([] : Dictionary κ ν) k = none := rfl

omit [LT κ] [DecidableLT κ] in
theorem get?_cons (e : κ × ν) (d : Dictionary κ ν) (k : κ) :
    get? (e :: d) k = if e.1 = k then some e.2 else get? d k := by
  obtain ⟨j, v⟩ := e
  rfl

/-- What is looked up after a binding: the new value of the key, and the old value
  of any other. -/
theorem get?_insert (d : Dictionary κ ν) (k : κ) (v : ν) (i : κ) :
    get? (insert d k v) i = if k = i then some v else get? d i := by
  induction d with
  | nil => simp [insert, get?_cons]
  | cons e rest ih =>
    obtain ⟨j, w⟩ := e
    rw [insert]
    by_cases hj : j = k
    · subst hj
      rw [if_pos rfl, get?_cons, get?_cons]
      by_cases hi : j = i <;> simp [hi]
    · rw [if_neg hj]
      split
      · rw [get?_cons]
      · rw [get?_cons, get?_cons, ih]
        by_cases hi : j = i
        · subst hi
          simp [Ne.symm hj]
        · simp [hi]

omit [LT κ] [DecidableLT κ] in
/-- What is looked up after a key is gone. -/
theorem get?_erase (d : Dictionary κ ν) (k i : κ) :
    get? (erase d k) i = if k = i then none else get? d i := by
  induction d with
  | nil => simp [erase]
  | cons e rest ih =>
    rw [erase] at ih ⊢
    rw [List.filter_cons, get?_cons]
    by_cases hk : e.1 = k
    · subst hk
      rw [if_neg (by simp), ih]
      by_cases hi : e.1 = i <;> simp [hi]
    · rw [if_pos (by simpa using hk), get?_cons, ih]
      by_cases hi : e.1 = i
      · subst hi
        simp [Ne.symm hk]
      · simp [hi]

end Dictionary

/-- Members in ascending order, each once. -/
abbrev Roster (α : Type) : Type := List α

namespace Roster

variable {α : Type} [DecidableEq α] [LT α] [DecidableLT α]

/-- The roster with one more member. -/
def insert (r : Roster α) (a : α) : Roster α :=
  match r with
  | [] => [a]
  | b :: rest =>
    if b = a then b :: rest
    else if a < b then a :: b :: rest
    else b :: insert rest a

/-- The roster of the members of a list. -/
def ofList (as : List α) : Roster α := as.foldl insert []

/-- The members of both rosters. -/
def union (r s : Roster α) : Roster α := s.foldl insert r

omit [LT α] [DecidableLT α] in
/-- Whether two rosters share a member. -/
def meets (r s : Roster α) : Bool := r.any fun a => decide (a ∈ s)

@[simp] theorem mem_insert {r : Roster α} {a b : α} : b ∈ insert r a ↔ b = a ∨ b ∈ r := by
  induction r with
  | nil => simp [insert]
  | cons c rest ih =>
    rw [insert]
    split
    · next h => subst h; simp
    · split
      · simp
      · simp only [List.mem_cons, ih]; grind

@[simp] theorem mem_union {r s : Roster α} {a : α} : a ∈ union r s ↔ a ∈ r ∨ a ∈ s := by
  induction s generalizing r with
  | nil => simp [union]
  | cons b rest ih =>
    have h : union r (b :: rest) = union (insert r b) rest := rfl
    rw [h, ih, mem_insert, List.mem_cons]
    grind

omit [LT α] [DecidableLT α] in
theorem meets_iff {r s : Roster α} : meets r s = true ↔ ∃ a, a ∈ r ∧ a ∈ s := by
  simp [meets]

end Roster

end SheetScript
