import SheetScript.Proofs.Desk.Invariants

/-! # Machines and desks

  A machine shows a desk when it raised no fault and every sheet of the desk has a
  frame of its own, bound to the sheet's variable and to nothing else.  Each
  statement of the machine is one update of the desk; from these a chunk that runs
  on the desk runs on the machine without a fault.

  - `Shows.step`: a chunk that runs keeps machine and desk together.
  - `Shows.run`: so does a list of chunks.
  - `Shows.boundFrames_eq`: machines that show one desk have equal variables.
-/

namespace SheetScript.Symbolic

variable {τ : Type} {I : Interpretation τ}

/-- The machine holds what lies on the desk, and nothing went wrong. -/
structure Shows (m : Machine τ) (d : Desk τ) : Prop where
  faults : m.faults = []
  bindings : m.bindings.Ascending
  sheets : m.sheets.Ascending
  /-- A sheet of the desk has a frame, which its variable is bound to. -/
  table : ∀ {s x}, d s = some x → ∃ o, Dictionary.get? m.sheets s = some o
    ∧ Dictionary.get? m.bindings x.name = some o ∧ m.objects[o]? = some x.frame
  /-- The machine knows no other sheets. -/
  live : ∀ {s o}, Dictionary.get? m.sheets s = some o → ∃ x, d s = some x
  /-- Every variable holds a sheet of the desk. -/
  bound : ∀ {n o}, Dictionary.get? m.bindings n = some o →
    ∃ s x, d s = some x ∧ x.name = n ∧ Dictionary.get? m.sheets s = some o
  /-- No two sheets share a frame. -/
  apart : ∀ {s t o}, Dictionary.get? m.sheets s = some o → Dictionary.get? m.sheets t = some o →
    s = t

namespace Shows

variable {m : Machine τ} {d : Desk τ} {s : SheetId} {x : Table τ}

/-! ### Look-up -/

/-- The frame of a sheet of the desk, and the variable that is bound to it. -/
theorem held (h : Shows m d) {o : Nat} (hx : d s = some x)
    (ho : Dictionary.get? m.sheets s = some o) :
    Dictionary.get? m.bindings x.name = some o ∧ m.objects[o]? = some x.frame := by
  obtain ⟨o', hs, hb, hf⟩ := h.table hx
  rw [ho] at hs
  cases hs
  exact ⟨hb, hf⟩

theorem frame_eq (h : Shows m d) {o : Nat} (hx : d s = some x)
    (ho : Dictionary.get? m.sheets s = some o) : m.frame o = x.frame := by
  simp [Machine.frame, (h.held hx ho).2]

theorem lt_length (h : Shows m d) {o : Nat} (ho : Dictionary.get? m.sheets s = some o) :
    o < m.objects.length := by
  obtain ⟨x, hx⟩ := h.live ho
  exact (List.getElem?_eq_some_iff.mp (h.held hx ho).2).1

theorem get?_sheets_of_none (h : Shows m d) (hs : d s = none) :
    Dictionary.get? m.sheets s = none := by
  cases ho : Dictionary.get? m.sheets s with
  | none => rfl
  | some o =>
    obtain ⟨x, hx⟩ := h.live ho
    rw [hs] at hx
    cases hx

/-- What a block meets on the machine lies on the desk. -/
theorem sheetFrame?_eq (h : Shows m d) (s : SheetId) :
    m.sheetFrame? s = (d s).map Table.frame := by
  unfold Machine.sheetFrame?
  cases hd : d s with
  | none => simp [h.get?_sheets_of_none hd]
  | some x =>
    obtain ⟨o, ho, -, -⟩ := h.table hd
    simp [ho, h.frame_eq hd ho]

theorem sights_eq (h : Shows m d) (a : ColumnAccess) : m.sights a = d.sights a := by
  simp [Machine.sights, Desk.sights, h.sheetFrame?_eq]

/-- A target whose variable holds its sheet is found. -/
theorem resolve_eq (h : Shows m d) {t : Target} (hx : d t.sheet = some x) (hn : x.name = t.df) :
    ∃ o, Dictionary.get? m.sheets t.sheet = some o ∧ m.resolve t = (some o, m)
      ∧ m.frame o = x.frame := by
  obtain ⟨o, hs, hb, hf⟩ := h.table hx
  refine ⟨o, hs, ?_, h.frame_eq hx hs⟩
  rw [hn] at hb
  simp [Machine.resolve, hb, hs, Machine.failWhen]

/-- A variable that holds no sheet of the desk is not bound. -/
theorem get?_bindings_of_free (h : Shows m d) {n : String} (hn : d.Free n) :
    Dictionary.get? m.bindings n = none := by
  cases hb : Dictionary.get? m.bindings n with
  | none => rfl
  | some o =>
    obtain ⟨s, x, hx, hname, -⟩ := h.bound hb
    exact absurd hname (hn s x hx)

/-! ### Updates -/

/-- What was shown stays so. -/
theorem withEffects (h : Shows m d) (es : List τ) : Shows { m with effects := es } d :=
  ⟨h.faults, h.bindings, h.sheets, h.table, h.live, h.bound, h.apart⟩

/-- Replacing the frame of a sheet. -/
theorem setFrame (h : Shows m d) {o : Nat} (hx : d s = some x)
    (ho : Dictionary.get? m.sheets s = some o) (f : SymbolicFrame τ) :
    Shows (m.setFrame o f) (d.set s (some { x with frame := f })) := by
  have hin := h.lt_length ho
  refine ⟨h.faults, h.bindings, h.sheets, ?table, ?live, ?bound, h.apart⟩
  case table =>
    intro t y hy
    obtain ⟨rfl, rfl⟩ | ⟨ht, hy⟩ := Desk.set_some_eq_some.mp hy
    · exact ⟨o, ho, (h.held hx ho).1, by simp [Machine.setFrame, hin]⟩
    · obtain ⟨o', hs, hb, hf⟩ := h.table hy
      -- another sheet has another frame, which the update does not reach
      have hne : o ≠ o' := fun he => ht (h.apart hs (he ▸ ho))
      exact ⟨o', hs, hb, by simpa [Machine.setFrame, List.getElem?_set, hne] using hf⟩
  case live =>
    intro t o' hs
    by_cases ht : t = s
    · exact ⟨{ x with frame := f }, by rw [ht, Desk.set_self]⟩
    · rw [d.set_ne _ ht]
      exact h.live hs
  case bound =>
    intro n o' hb
    obtain ⟨t, y, hy, hname, hs⟩ := h.bound hb
    by_cases ht : t = s
    · obtain rfl : y = x := by
        rw [ht, hx] at hy
        exact (Option.some.inj hy).symm
      exact ⟨t, { y with frame := f }, by rw [ht, Desk.set_self], hname, hs⟩
    · exact ⟨t, y, by rw [d.set_ne _ ht, hy], hname, hs⟩

/-- Replacing the frame of a sheet by one made from it. -/
theorem edit (h : Shows m d) {o : Nat} (hx : d s = some x)
    (ho : Dictionary.get? m.sheets s = some o) (φ : SymbolicFrame τ → SymbolicFrame τ) :
    Shows (m.setFrame o (φ x.frame)) (d.edit s φ) := by
  rw [Desk.edit_eq hx]
  exact h.setFrame hx ho _

/-- Binding a new frame to the variable of a sheet. -/
theorem place (h : Shows m d) {n : String} (hn : d.Reserved n s) (f : SymbolicFrame τ) :
    Shows ((m.push f).2.bind n (m.push f).1 s) (d.set s (some ⟨n, f⟩))
      ∧ ((m.push f).2.bind n (m.push f).1 s).effects = m.effects := by
  -- a variable of that name can only hold the sheet itself
  have hquiet : (m.push f).2.bind n (m.push f).1 s
      = { objects := m.objects ++ [f]
          bindings := Dictionary.insert m.bindings n m.objects.length
          sheets := Dictionary.insert m.sheets s m.objects.length
          effects := m.effects, faults := m.faults } := by
    unfold Machine.bind Machine.push
    cases hb : Dictionary.get? m.bindings n with
    | none => simp [Machine.failWhen]
    | some o =>
      obtain ⟨t, y, hy, hname, hs⟩ := h.bound hb
      obtain rfl : t = s := (hn t y hy).mpr hname
      simp [hs, Machine.failWhen]
  rw [hquiet]
  refine ⟨⟨h.faults, h.bindings.insert _ _, h.sheets.insert _ _, ?table, ?live, ?bound, ?apart⟩,
    rfl⟩
  case table =>
    intro t y hy
    obtain ⟨rfl, rfl⟩ | ⟨ht, hy⟩ := Desk.set_some_eq_some.mp hy
    · exact ⟨m.objects.length, by simp [Dictionary.get?_insert]⟩
    · obtain ⟨o, hs, hb, hf⟩ := h.table hy
      have hname : n ≠ y.name := fun he => ht ((hn t y hy).mpr he.symm)
      refine ⟨o, ?_, ?_, ?_⟩
      · simp [Dictionary.get?_insert, Ne.symm ht, hs]
      · simp [Dictionary.get?_insert, hname, hb]
      · rw [List.getElem?_append_left (h.lt_length hs), hf]
  case live =>
    intro t o hs
    by_cases ht : t = s
    · exact ⟨⟨n, f⟩, by rw [ht, Desk.set_self]⟩
    · rw [Dictionary.get?_insert, if_neg (Ne.symm ht)] at hs
      rw [d.set_ne _ ht]
      exact h.live hs
  case bound =>
    intro n' o hb
    rw [Dictionary.get?_insert] at hb
    by_cases hname : n = n'
    · subst hname
      obtain rfl : m.objects.length = o := by simpa using hb
      exact ⟨s, ⟨n, f⟩, by simp [Dictionary.get?_insert]⟩
    · rw [if_neg hname] at hb
      obtain ⟨t, y, hy, hyn, hs⟩ := h.bound hb
      have ht : t ≠ s := fun he => hname (((hn t y hy).mp he).symm.trans hyn)
      exact ⟨t, y, by rw [d.set_ne _ ht, hy], hyn,
        by simp [Dictionary.get?_insert, Ne.symm ht, hs]⟩
  case apart =>
    intro t u o hs hu
    rw [Dictionary.get?_insert] at hs hu
    by_cases ht : s = t <;> by_cases hu' : s = u
    · exact ht.symm.trans hu'
    · -- old frames lie before the new one
      rw [if_pos ht] at hs
      rw [if_neg hu'] at hu
      have hlt := h.lt_length hu
      have : m.objects.length = o := Option.some.inj hs
      omega
    · rw [if_neg ht] at hs
      rw [if_pos hu'] at hu
      have hlt := h.lt_length hs
      have : m.objects.length = o := Option.some.inj hu
      omega
    · rw [if_neg ht] at hs
      rw [if_neg hu'] at hu
      exact h.apart hs hu

/-- Freeing the variable of a sheet. -/
theorem unbind (h : Shows m d) (hd : d.Tidy) (hx : d s = some x) :
    Shows (m.unbind x.name) (d.set s none) ∧ (m.unbind x.name).effects = m.effects := by
  obtain ⟨o, ho, hb, -⟩ := h.table hx
  have hquiet : m.unbind x.name
      = { m with
          bindings := Dictionary.erase m.bindings x.name
          sheets := m.sheets.filter fun e =>
            e.2 ∈ Dictionary.values (Dictionary.erase m.bindings x.name) } := by
    simp [Machine.unbind, Dictionary.contains, hb, Machine.failWhen]
  -- a frame is left if a variable of another sheet holds it
  have hleft : ∀ {p : Nat}, p ∈ Dictionary.values (Dictionary.erase m.bindings x.name) ↔
      ∃ n, n ≠ x.name ∧ Dictionary.get? m.bindings n = some p := by
    intro p
    rw [Dictionary.mem_values]
    constructor
    · rintro ⟨n, hn⟩
      have hget := (h.bindings.erase x.name).get?_eq_some_iff.mpr hn
      rw [Dictionary.get?_erase] at hget
      by_cases he : x.name = n
      · simp [he] at hget
      · rw [if_neg he] at hget
        exact ⟨n, Ne.symm he, hget⟩
    · rintro ⟨n, hn, hget⟩
      refine ⟨n, (h.bindings.erase x.name).get?_eq_some_iff.mp ?_⟩
      rw [Dictionary.get?_erase, if_neg (Ne.symm hn), hget]
  -- so the sheets that are left are the others
  have hsheet : ∀ {t p}, Dictionary.get? (m.sheets.filter fun e =>
        e.2 ∈ Dictionary.values (Dictionary.erase m.bindings x.name)) t = some p ↔
      t ≠ s ∧ Dictionary.get? m.sheets t = some p := by
    intro t p
    rw [h.sheets.get?_filter, Option.filter_eq_some_iff, decide_eq_true_iff, hleft]
    constructor
    · rintro ⟨hp, n, hn, hget⟩
      obtain ⟨u, y, hy, hname, hu⟩ := h.bound hget
      refine ⟨fun he => hn ?_, hp⟩
      subst he
      obtain rfl := h.apart hp hu
      rw [hx] at hy
      rw [← hname, ← Option.some.inj hy]
    · rintro ⟨ht, hp⟩
      obtain ⟨y, hy⟩ := h.live hp
      exact ⟨hp, y.name, fun he => ht (hd.names hy hx he), (h.held hy hp).1⟩
  rw [hquiet]
  refine ⟨⟨h.faults, h.bindings.erase _, h.sheets.filter _, ?table, ?live, ?bound, ?apart⟩, rfl⟩
  case table =>
    intro t y hy
    obtain ⟨ht, hy⟩ := Desk.set_none_eq_some.mp hy
    obtain ⟨p, hp, hget, hf⟩ := h.table hy
    refine ⟨p, hsheet.mpr ⟨ht, hp⟩, ?_, hf⟩
    rw [Dictionary.get?_erase, if_neg fun he => ht (hd.names hy hx he.symm), hget]
  case live =>
    intro t p hp
    obtain ⟨ht, hp⟩ := hsheet.mp hp
    rw [d.set_ne _ ht]
    exact h.live hp
  case bound =>
    intro n p hget
    rw [Dictionary.get?_erase] at hget
    by_cases hn : x.name = n
    · simp [hn] at hget
    · rw [if_neg hn] at hget
      obtain ⟨t, y, hy, hname, hp⟩ := h.bound hget
      have ht : t ≠ s := by
        rintro rfl
        rw [hx] at hy
        exact hn (by rw [← hname, Option.some.inj hy])
      exact ⟨t, y, by rw [d.set_ne _ ht, hy], hname, hsheet.mpr ⟨ht, hp⟩⟩
  case apart =>
    intro t u p ht hu
    exact h.apart (hsheet.mp ht).2 (hsheet.mp hu).2

/-- Binding the frame of a sheet to a free variable and freeing the old one. -/
theorem rename (h : Shows m d) {o : Nat} {new : String} (hx : d s = some x)
    (ho : Dictionary.get? m.sheets s = some o) (hd : d.Tidy) (hn : d.Free new) :
    Shows ((m.bind new o s).unbind x.name) (d.set s (some { x with name := new }))
      ∧ ((m.bind new o s).unbind x.name).effects = m.effects := by
  obtain ⟨hb, hf⟩ := h.held hx ho
  have hne : new ≠ x.name := fun he => hn s x hx he.symm
  -- the sheet keeps its frame
  have hsame : Dictionary.insert m.sheets s o = m.sheets := by
    refine Dictionary.ext_get? (h.sheets.insert _ _) h.sheets fun t => ?_
    rw [Dictionary.get?_insert]
    by_cases ht : s = t
    · rw [if_pos ht, ← ht, ho]
    · rw [if_neg ht]
  have hget : ∀ n, Dictionary.get?
        (Dictionary.erase (Dictionary.insert m.bindings new o) x.name) n
      = if x.name = n then none else if new = n then some o else Dictionary.get? m.bindings n := by
    intro n
    rw [Dictionary.get?_erase, Dictionary.get?_insert]
  have hasc := (h.bindings.insert new o).erase x.name
  -- every frame is still held: that of the sheet by its new name, others as before
  have hkept : m.sheets.filter (fun e => decide (e.2 ∈ Dictionary.values
      (Dictionary.erase (Dictionary.insert m.bindings new o) x.name))) = m.sheets := by
    refine List.filter_eq_self.mpr fun e he => ?_
    rw [decide_eq_true_iff, Dictionary.mem_values]
    have hp := h.sheets.get?_eq_some_iff.mpr (show (e.1, e.2) ∈ m.sheets from he)
    obtain ⟨y, hy⟩ := h.live hp
    by_cases ht : e.1 = s
    · refine ⟨new, hasc.get?_eq_some_iff.mp ?_⟩
      rw [hget, if_neg (Ne.symm hne), if_pos rfl]
      rw [ht, ho] at hp
      exact hp
    · refine ⟨y.name, hasc.get?_eq_some_iff.mp ?_⟩
      rw [hget, if_neg fun he => ht (hd.names hy hx he.symm), if_neg fun he => hn _ y hy he.symm,
        (h.held hy hp).1]
  have hquiet : (m.bind new o s).unbind x.name
      = { m with
          bindings := Dictionary.erase (Dictionary.insert m.bindings new o) x.name } := by
    have hfree := h.get?_bindings_of_free hn
    unfold Machine.bind Machine.unbind
    simp [hfree, Machine.failWhen, hsame, hkept, Dictionary.contains, Dictionary.get?_insert, hne,
      hb]
  rw [hquiet]
  refine ⟨⟨h.faults, hasc, h.sheets, ?table, ?live, ?bound, h.apart⟩, rfl⟩
  case table =>
    intro t y hy
    obtain ⟨rfl, rfl⟩ | ⟨ht, hy⟩ := Desk.set_some_eq_some.mp hy
    · exact ⟨o, ho, by rw [hget, if_neg (Ne.symm hne), if_pos rfl], hf⟩
    · obtain ⟨p, hp, hby, hfy⟩ := h.table hy
      refine ⟨p, hp, ?_, hfy⟩
      rw [hget, if_neg fun he => ht (hd.names hy hx he.symm), if_neg fun he => hn t y hy he.symm,
        hby]
  case live =>
    intro t p hp
    by_cases ht : t = s
    · exact ⟨{ x with name := new }, by rw [ht, Desk.set_self]⟩
    · rw [d.set_ne _ ht]
      exact h.live hp
  case bound =>
    intro n p hp
    rw [hget] at hp
    by_cases hold : x.name = n
    · simp [hold] at hp
    · rw [if_neg hold] at hp
      by_cases hnew : new = n
      · subst hnew
        obtain rfl : o = p := by simpa using hp
        exact ⟨s, { x with name := new }, by simp, rfl, ho⟩
      · rw [if_neg hnew] at hp
        obtain ⟨t, y, hy, hname, hs⟩ := h.bound hp
        have ht : t ≠ s := by
          rintro rfl
          rw [hx] at hy
          exact hold (by rw [← hname, Option.some.inj hy])
        exact ⟨t, y, by rw [d.set_ne _ ht, hy], hname, hs⟩

/-! ### Chunks -/

theorem hasHeader_iff {f : SymbolicFrame τ} {header : Header} :
    Machine.hasHeader f header = true ↔ header ∈ SymbolicFrame.headers f := by
  simp [Machine.hasHeader, SymbolicFrame.headers]

/-- Dropping columns one after the other drops them all. -/
theorem dropColumns (h : Shows m d) {o : Nat} (df : String) (hx : d s = some x)
    (ho : Dictionary.get? m.sheets s = some o) {headers : List Header} (hnd : headers.Nodup)
    (hin : ∀ header ∈ headers, header ∈ SymbolicFrame.headers x.frame) :
    Shows (headers.foldl (Machine.dropColumn df o) m)
        (d.edit s fun f => f.filter fun c => c.header ∉ headers)
      ∧ (headers.foldl (Machine.dropColumn df o) m).effects = m.effects := by
  induction headers generalizing m d x with
  | nil =>
    have hid : d.edit s (fun f => f.filter fun c => c.header ∉ ([] : List Header)) = d := by
      simp [Desk.edit]
    rw [hid]
    exact ⟨h, rfl⟩
  | cons header rest ih =>
    obtain ⟨hnot, hrest⟩ := List.nodup_cons.mp hnd
    have hhas : Machine.hasHeader x.frame header = true :=
      hasHeader_iff.mpr (hin header List.mem_cons_self)
    have hdrop : Machine.dropColumn df o m header
        = m.setFrame o (x.frame.filter fun c => c.header ≠ header) := by
      simp [Machine.dropColumn, hhas, Machine.failWhen, h.frame_eq hx ho]
    have hnext := h.setFrame hx ho (x.frame.filter fun c => c.header ≠ header)
    -- the headers differ, so those that come later are still there
    have hheaders : ∀ k ∈ rest,
        k ∈ SymbolicFrame.headers (x.frame.filter fun c => c.header ≠ header) := by
      intro k hk
      obtain ⟨c, hc, hck⟩ := List.mem_map.mp (hin k (List.mem_cons_of_mem _ hk))
      refine List.mem_map.mpr ⟨c, List.mem_filter.mpr ⟨hc, ?_⟩, hck⟩
      rw [decide_eq_true_iff, hck]
      rintro rfl
      exact hnot hk
    rw [List.foldl_cons, hdrop]
    obtain ⟨hshow, heff⟩ := ih hnext (Desk.set_self _ _ _) ho hrest hheaders
    refine ⟨?_, heff⟩
    have hsame : d.edit s (fun f => f.filter fun c => c.header ∉ header :: rest)
        = (d.set s (some ⟨x.name, x.frame.filter fun c => c.header ≠ header⟩)).edit s
            fun f => f.filter fun c => c.header ∉ rest := by
      simp [Desk.edit, hx, List.filter_filter, Bool.and_comm]
    rw [hsame]
    exact hshow

/-- Writing the sheets of a block one after the other leaves each as the block
  leaves it. -/
theorem writeOutputs (b : Block) (d₀ : Desk τ) {outs : List BlockOutput} (h : Shows m d)
    (hsheets : (outs.map BlockOutput.sheet).Nodup) (hnames : (outs.map BlockOutput.name).Nodup)
    (hres : ∀ o ∈ outs, d.Reserved o.name o.sheet) (hsame : ∀ o ∈ outs, d o.sheet = d₀ o.sheet) :
    Shows (outs.foldl (Machine.writeOutput I (d₀.seen I b) b.footprint.writes) m)
        (fun s => match outs.find? fun o => o.sheet = s with
          | some o => some (d₀.output I b o)
          | none => d s)
      ∧ (outs.foldl (Machine.writeOutput I (d₀.seen I b) b.footprint.writes) m).effects
        = m.effects := by
  induction outs generalizing m d with
  | nil => exact ⟨h, rfl⟩
  | cons o rest ih =>
    obtain ⟨hso, hsrest⟩ := List.nodup_cons.mp hsheets
    obtain ⟨hno, hnrest⟩ := List.nodup_cons.mp hnames
    have hwrite : Machine.writeOutput I (d₀.seen I b) b.footprint.writes m o
        = (m.push (d₀.output I b o).frame).2.bind o.name
            (m.push (d₀.output I b o).frame).1 o.sheet := by
      simp [Machine.writeOutput, h.sheetFrame?_eq, hsame o List.mem_cons_self, Desk.output]
    rw [List.foldl_cons, hwrite]
    obtain ⟨hplace, heff⟩ := h.place (hres o List.mem_cons_self) (d₀.output I b o).frame
    -- no later output is for this sheet or has its name, so their names stay reserved
    have hne : ∀ p ∈ rest, p.sheet ≠ o.sheet := fun p hp he =>
      hso (List.mem_map.mpr ⟨p, hp, he⟩)
    have hnn : ∀ p ∈ rest, p.name ≠ o.name := fun p hp he =>
      hno (List.mem_map.mpr ⟨p, hp, he⟩)
    obtain ⟨hshow, heff'⟩ := ih hplace hsrest hnrest
      (fun p hp t y hy => by
        obtain ⟨rfl, rfl⟩ | ⟨-, hy⟩ := Desk.set_some_eq_some.mp hy
        · exact ⟨fun he => absurd he.symm (hne p hp), fun he => absurd he.symm (hnn p hp)⟩
        · exact hres p (List.mem_cons_of_mem _ hp) t y hy)
      (fun p hp => by
        rw [d.set_ne _ (hne p hp)]
        exact hsame p (List.mem_cons_of_mem _ hp))
    refine ⟨?_, heff'.trans heff⟩
    convert hshow using 1
    funext t
    by_cases ht : o.sheet = t
    · subst ht
      have hnone : rest.find? (fun p => decide (p.sheet = o.sheet)) = none := by
        rw [List.find?_eq_none]
        intro p hp
        simpa using hne p hp
      simp [hnone, Desk.output]
    · simp [ht, Desk.set_ne _ _ (Ne.symm ht)]

/-- A chunk that runs on the desk raises no fault and does to the machine what it
  does to the desk. -/
theorem step (h : Shows m d) (hd : d.Tidy) {b : ChunkBody} (hr : d.Runs b) :
    Shows (m.step I b) (d.step I b) ∧ (m.step I b).effects = m.effects ++ d.effects I b := by
  -- the object that a name is bound to holds the frame of the desk, so no check of the
  -- machine fails
  cases b with
  | addColumn t id header index value reads =>
    obtain ⟨x, hx, hn, hnew, hindex⟩ := (Desk.runs_column rfl d).mp hr
    obtain ⟨o, ho, hres, hf⟩ := h.resolve_eq hx hn
    have hhas : Machine.hasHeader x.frame header = false := by
      rw [← Bool.not_eq_true, hasHeader_iff]
      exact hnew
    have hle : ¬ x.frame.length < index := by omega
    have hstep : m.step I (.addColumn t id header index value reads)
        = m.setFrame o (x.frame.take index ++
            ⟨id, header, I.value (value.getD "0") (reads.map (Machine.valueOf? x.frame))⟩
              :: x.frame.drop index) := by
      simp [Machine.step, Machine.onTarget, hres, Machine.insertColumn, hf, hhas, hle,
        Machine.failWhen]
    rw [hstep]
    exact ⟨h.edit hx ho fun f => f.take index ++
      ⟨id, header, I.value (value.getD "0") (reads.map (Machine.valueOf? f))⟩ :: f.drop index,
      by simp [Machine.setFrame, Desk.effects]⟩
  | deleteColumns t ids headers =>
    obtain ⟨x, hx, hn, hnd, hin⟩ := (Desk.runs_column rfl d).mp hr
    obtain ⟨o, ho, hres, -⟩ := h.resolve_eq hx hn
    have hstep : m.step I (.deleteColumns t ids headers)
        = headers.foldl (Machine.dropColumn t.df o) m := by
      simp [Machine.step, Machine.onTarget, hres]
    rw [hstep]
    obtain ⟨hshow, heff⟩ := h.dropColumns t.df hx ho hnd hin
    exact ⟨hshow, by simp [heff, Desk.effects]⟩
  | renameColumn t id old new =>
    obtain ⟨x, hx, hn, hold, hnew⟩ := (Desk.runs_column rfl d).mp hr
    obtain ⟨o, ho, hres, hf⟩ := h.resolve_eq hx hn
    have hhas : Machine.hasHeader x.frame old = true := hasHeader_iff.mpr hold
    have hfree : Machine.hasHeader x.frame new = false := by
      rw [← Bool.not_eq_true, hasHeader_iff]
      exact hnew
    have hstep : m.step I (.renameColumn t id old new)
        = m.setFrame o (Machine.onHeader x.frame old fun c => { c with header := new }) := by
      simp [Machine.step, Machine.onTarget, hres, Machine.renameColumn, hf, hhas, hfree,
        Machine.failWhen]
    rw [hstep]
    exact ⟨h.edit hx ho fun f => Machine.onHeader f old fun c => { c with header := new },
      by simp [Machine.setFrame, Desk.effects]⟩
  | setFormula t id header value reads =>
    obtain ⟨x, hx, hn, hin⟩ := (Desk.runs_column rfl d).mp hr
    obtain ⟨o, ho, hres, hf⟩ := h.resolve_eq hx hn
    have hhas : Machine.hasHeader x.frame header = true := hasHeader_iff.mpr hin
    have hstep : m.step I (.setFormula t id header value reads)
        = m.setFrame o (Machine.onHeader x.frame header fun c =>
            { c with value := I.value value (reads.map (Machine.valueOf? x.frame)) }) := by
      simp [Machine.step, Machine.onTarget, hres, hf, hhas]
    rw [hstep]
    exact ⟨h.edit hx ho fun f => Machine.onHeader f header fun c =>
      { c with value := I.value value (reads.map (Machine.valueOf? f)) },
      by simp [Machine.setFrame, Desk.effects]⟩
  | changeType t id header statements =>
    obtain ⟨x, hx, hn, hin⟩ := (Desk.runs_column rfl d).mp hr
    obtain ⟨o, ho, hres, hf⟩ := h.resolve_eq hx hn
    have hhas : Machine.hasHeader x.frame header = true := hasHeader_iff.mpr hin
    have hstep : m.step I (.changeType t id header statements)
        = m.setFrame o (Machine.onHeader x.frame header fun c =>
            { c with value := I.retyped statements c.value }) := by
      simp [Machine.step, Machine.onTarget, hres, hf, hhas, Machine.failWhen]
    rw [hstep]
    exact ⟨h.edit hx ho fun f => Machine.onHeader f header fun c =>
      { c with value := I.retyped statements c.value },
      by simp [Machine.setFrame, Desk.effects]⟩
  | duplicateSheet source copy =>
    obtain ⟨⟨x, hx, hn⟩, hnone, hfree⟩ := hr
    obtain ⟨o, ho, hres, hf⟩ := h.resolve_eq hx hn
    have hstep : m.step I (.duplicateSheet source copy)
        = (m.push x.frame).2.bind copy.df (m.push x.frame).1 copy.sheet := by
      simp [Machine.step, Machine.onTarget, hres, hf]
    rw [hstep]
    obtain ⟨hshow, heff⟩ := h.place (Desk.Reserved.of_free hnone hfree) x.frame
    exact ⟨by simpa [Desk.step, hx] using hshow, by simp [heff, Desk.effects]⟩
  | deleteSheet t =>
    obtain ⟨x, hx, hn⟩ := hr
    obtain ⟨o, ho, hres, -⟩ := h.resolve_eq hx hn
    have hstep : m.step I (.deleteSheet t) = m.unbind x.name := by
      simp [Machine.step, hres, hn]
    rw [hstep]
    obtain ⟨hshow, heff⟩ := h.unbind hd hx
    exact ⟨hshow, by simp [heff, Desk.effects]⟩
  | renameSheet s old new =>
    obtain ⟨⟨x, hx, rfl⟩, hfree⟩ := hr
    obtain ⟨o, ho, hres, -⟩ := h.resolve_eq (t := ⟨s, x.name⟩) hx rfl
    have hstep : m.step I (.renameSheet s x.name new) = (m.bind new o s).unbind x.name := by
      simp [Machine.step, Machine.onTarget, hres]
    rw [hstep]
    obtain ⟨hshow, heff⟩ := h.rename hx ho hd hfree
    exact ⟨by simpa [Desk.step, hx] using hshow, by simp [heff, Desk.effects]⟩
  | block b =>
    have hseen : I.seen b.statements (m.sights b.footprint.reads) (m.sights b.footprint.writes)
        = d.seen I b := by
      simp [Desk.seen, h.sights_eq]
    have hstep : m.step I (.block b)
        = b.outputs.foldl (Machine.writeOutput I (d.seen I b) b.footprint.writes)
            { m with effects := m.effects ++ d.effects I (.block b) } := by
      simp only [Machine.step, hseen, hr.deletes, List.foldl_nil, Desk.effects]
      cases b.keep <;> simp
    rw [hstep]
    obtain ⟨hshow, heff⟩ := (h.withEffects _).writeOutputs b d hr.sheets hr.names hr.reserved
      fun _ _ => rfl
    exact ⟨hshow, heff⟩

/-- Chunks that run one after the other raise no fault. -/
theorem run (h : Shows m d) (hd : d.Tidy) {chunks : List Chunk} (hr : d.AllRun I chunks) :
    Shows (chunks.foldl (fun m c => m.step I c.body) m) (d.run I chunks)
      ∧ (chunks.foldl (fun m c => m.step I c.body) m).effects = m.effects ++ d.trace I chunks := by
  induction chunks generalizing m d with
  | nil => exact ⟨h, by simp [Desk.trace]⟩
  | cons c rest ih =>
    obtain ⟨hc, hrest⟩ := hr
    obtain ⟨hshow, heff⟩ := h.step (I := I) hd hc
    obtain ⟨hshow', heff'⟩ := ih hshow (hc.tidy hd) hrest
    exact ⟨hshow', by rw [List.foldl_cons, heff', heff, List.append_assoc]; rfl⟩

/-! ### The start -/

/-- The empty machine shows the empty desk. -/
theorem empty : Shows ({} : Machine τ) fun _ => none where
  faults := rfl
  bindings := Dictionary.ascending_nil
  sheets := Dictionary.ascending_nil
  table := by simp
  live := by simp
  bound := by simp
  apart := by simp

/-- Putting input sheets down one after the other. -/
theorem putAll {inputs : List (SheetId × InputSheet)} (h : Shows m d)
    (hkeys : (inputs.map Prod.fst).Nodup) (hnames : (inputs.map fun e => e.2.name).Nodup)
    (hnew : ∀ e ∈ inputs, d e.1 = none) (hfree : ∀ e ∈ inputs, d.Free e.2.name) :
    Shows (inputs.foldl (Machine.put I) m)
        (fun s => match Dictionary.get? inputs s with
          | some i => some (Desk.input I s i)
          | none => d s)
      ∧ (inputs.foldl (Machine.put I) m).effects = m.effects := by
  induction inputs generalizing m d with
  | nil => exact ⟨h, rfl⟩
  | cons e rest ih =>
    obtain ⟨hk, hkrest⟩ := List.nodup_cons.mp hkeys
    obtain ⟨hn, hnrest⟩ := List.nodup_cons.mp hnames
    have hfirst := hfree e List.mem_cons_self
    obtain ⟨hplace, heff⟩ := h.place
      (Desk.Reserved.of_free (hnew e List.mem_cons_self) hfirst) (Desk.input I e.1 e.2).frame
    -- binding a free variable raises no fault
    have hput : Machine.put I m e = (m.push (Desk.input I e.1 e.2).frame).2.bind e.2.name
        (m.push (Desk.input I e.1 e.2).frame).1 e.1 := by
      simp [Machine.put, Machine.bind, Machine.push, Desk.input, h.get?_bindings_of_free hfirst,
        Machine.failWhen]
    rw [← hput] at hplace heff
    rw [List.foldl_cons]
    have hke : ∀ p ∈ rest, p.1 ≠ e.1 := fun p hp he => hk (List.mem_map.mpr ⟨p, hp, he⟩)
    have hne : ∀ p ∈ rest, p.2.name ≠ e.2.name := fun p hp he =>
      hn (List.mem_map.mpr ⟨p, hp, he⟩)
    obtain ⟨hshow, heff'⟩ := ih hplace hkrest hnrest
      (fun p hp => by
        rw [d.set_ne _ (hke p hp)]
        exact hnew p (List.mem_cons_of_mem _ hp))
      (fun p hp t y hy => by
        obtain ⟨-, rfl⟩ | ⟨-, hy⟩ := Desk.set_some_eq_some.mp hy
        · exact Ne.symm (hne p hp)
        · exact hfree p (List.mem_cons_of_mem _ hp) t y hy)
    refine ⟨?_, heff'.trans heff⟩
    convert hshow using 1
    funext t
    rw [Dictionary.get?_cons]
    by_cases ht : e.1 = t
    · subst ht
      have hnone : Dictionary.get? rest e.1 = none := Dictionary.get?_eq_none_iff.mpr hk
      simp [hnone, Desk.input]
    · simp [ht, Desk.set_ne _ _ (Ne.symm ht)]

/-- A machine starts with the input sheets on the desk. -/
theorem start {inputs : InputLayout} (hkeys : inputs.Ascending)
    (hnames : (inputs.map fun e => e.2.name).Nodup) :
    Shows (Machine.start I inputs) (Desk.ofLayout I inputs)
      ∧ (Machine.start I inputs).effects = [] := by
  have hnd : (inputs.map Prod.fst).Nodup := hkeys.imp fun hlt he => by
    subst he
    exact Std.Irrefl.irrefl (r := (· < ·)) _ hlt
  obtain ⟨hshow, heff⟩ := empty.putAll (I := I) hnd hnames (fun _ _ => rfl)
    fun _ _ _ _ hy => by cases hy
  have hdesk : Desk.ofLayout I inputs = fun s => match Dictionary.get? inputs s with
      | some i => some (Desk.input I s i)
      | none => none := by
    funext s
    cases h : Dictionary.get? inputs s <;> simp [Desk.ofLayout, h]
  rw [hdesk]
  exact ⟨hshow, heff⟩

/-- Machines that show one desk have the same variables, bound to equal frames. -/
theorem boundFrames_eq {m' : Machine τ} (h : Shows m d) (h' : Shows m' d) :
    m.boundFrames = m'.boundFrames := by
  -- what one machine binds, the other binds to an equal frame
  have key : ∀ {m m' : Machine τ}, Shows m d → Shows m' d → ∀ {n o},
      Dictionary.get? m.bindings n = some o →
      (Dictionary.get? m'.bindings n).map m'.frame = some (m.frame o) := by
    intro m m' h h' n o ho
    obtain ⟨s, x, hx, rfl, hs⟩ := h.bound ho
    obtain ⟨o', hs', hb', -⟩ := h'.table hx
    rw [hb', Option.map_some, h'.frame_eq hx hs', h.frame_eq hx hs]
  refine Dictionary.ext_get? (h.bindings.mapValues _) (h'.bindings.mapValues _) fun n => ?_
  rw [Machine.boundFrames, Machine.boundFrames, Dictionary.get?_mapValues,
    Dictionary.get?_mapValues]
  cases ho : Dictionary.get? m.bindings n with
  | some o => rw [key h h' ho, Option.map_some]
  | none =>
    cases ho' : Dictionary.get? m'.bindings n with
    | none => rfl
    | some o =>
      have := key h' h ho'
      rw [ho] at this
      cases this

end Shows

end SheetScript.Symbolic
