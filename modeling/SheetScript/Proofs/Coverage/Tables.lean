import SheetScript.Proofs.Coverage.Sheets
import SheetScript.Proofs.Edit.Tables

/-! # Edits that make sheets are covered

  A merge reads its keys and the columns that it takes over, a pivot table its keys
  and its values.  Both depend on those columns and on the heights of the frames, so
  the rest of their inputs makes no difference where none of the headers is a pattern.
  Imports read no sheet at all.
-/

namespace SheetScript

variable {plain : Prop} {s : State} {c : Change}

/-! ### New sheets -/

/-- A frame on a new sheet under a free name. -/
theorem State.Linked.mint (hs : s.Linked) {f : Frame} (hnd : f.headers.Nodup) (name : String) :
    ((s.mint name f).2.push (s.mint name f).1).Linked :=
  hs.push (s.mint name f).2 rfl rfl rfl ⟨hnd, (ColumnIds.Sound.ofHeaders hnd).linked⟩

/-- A block that makes one sheet of a frame. -/
theorem Change.Covered.minted {run : State → Except Fault Change} {b : Block} {f : Frame}
    {base : String} (hs : s.Linked) (hnd : f.headers.Nodup)
    (htouch : b.footprint.touched = [⟨s.nextId⟩])
    (hagain : plain → ∀ t, s.AlikeBut (Code.Spares [.block b]) t →
      run t = .ok ⟨(t.mint (t.uniqueName base) f).2.push (t.mint (t.uniqueName base) f).1,
        [.block b]⟩) :
    Change.Covered plain run s
      ⟨(s.mint (s.uniqueName base) f).2.push (s.mint (s.uniqueName base) f).1, [.block b]⟩ := by
  refine .added (hs.mint hnd _) rfl (hs.not_touched ?_) fun hplain t ht => ?_
  · rw [Footprint.touched, ChunkBody.effectiveWrites_block]
    exact htouch
  · rw [hagain hplain t ht, ht.uniqueName_eq, ht.rest]
    rfl

/-! ### Columns that are read -/

/-- The code reads the column. -/
def Footprint.Reads (f : Footprint) (s : SheetId) (id : ColumnId) : Prop :=
  ∃ c, Dictionary.get? f.reads s = some c ∧ ∀ ids, c = .only ids → id ∈ ids

namespace Footprint

variable {f : Footprint} {s : SheetId} {id : ColumnId} {ids : List ColumnId}

theorem Spares.not_reads (h : f.Spares s id) : ¬ f.Reads s id := by
  rintro ⟨c, hc, hids⟩
  obtain ⟨ids, rfl, hid⟩ := h c (.inl (Dictionary.mem_of_get? hc))
  exact hid (hids ids rfl)

/-- Code that reads more columns still reads those that it read. -/
theorem Reads.read (h : f.Reads s id) (t : SheetId) (c : ColumnSet) : (f.read t c).Reads s id := by
  obtain ⟨d, hd, hids⟩ := h
  unfold Footprint.read ColumnAccess.add Footprint.Reads
  dsimp only
  by_cases hst : t = s
  · subst hst
    rw [hd]
    refine ⟨d.union c, by rw [Dictionary.get?_insert, if_pos rfl], fun is his => ?_⟩
    cases d with
    | all => cases c <;> cases his
    | only js =>
      cases c with
      | all => cases his
      | only ks =>
        obtain rfl := ColumnSet.only.inj his
        exact Roster.mem_union.mpr (.inl (hids js rfl))
  · refine ⟨d, ?_, hids⟩
    split <;> rw [Dictionary.get?_insert, if_neg hst, hd]

/-- The columns that are read last are read. -/
theorem reads_read (f : Footprint) (s : SheetId) (hid : id ∈ ids) :
    (f.read s (.ofList ids)).Reads s id := by
  unfold Footprint.read ColumnAccess.add Footprint.Reads
  dsimp only
  split
  · next d _ =>
    refine ⟨d.union (.ofList ids), by rw [Dictionary.get?_insert, if_pos rfl], fun is his => ?_⟩
    cases d with
    | all => cases his
    | only js =>
      obtain rfl := ColumnSet.only.inj his
      exact Roster.mem_union.mpr (.inr (by simpa using hid))
  · refine ⟨.ofList ids, by rw [Dictionary.get?_insert, if_pos rfl], fun is his => ?_⟩
    obtain rfl := ColumnSet.only.inj his
    simpa using hid

/-- What a block reads its chunk does not spare. -/
theorem Reads.not_spares {b : Block} (h : b.footprint.Reads s id) :
    ¬ Code.Spares [.block b] s id := by
  intro hspares
  refine (Code.spares_singleton.mp hspares).not_reads ?_
  unfold Footprint.Reads
  rw [ChunkBody.reads_block]
  exact h

end Footprint

/-! ### Merging -/

/-- A selection depends on the columns that it names, and on the height. -/
theorem Frame.selectAs_congr {names : List (Header × Header)} {f g : Frame}
    (hplain : ∀ n ∈ names, isPattern n.1 = false)
    (hcolumn : ∀ n ∈ names, g.column n.1 = f.column n.1) (hheight : g.height = f.height) :
    g.selectAs names = f.selectAs names := by
  have hnamed : ∀ n ∈ names, g.namedAs n.1 n.2 = f.namedAs n.1 n.2 := by
    intro n hn
    unfold Frame.namedAs
    rw [Frame.named_of_verbatim (hplain n hn), Frame.named_of_verbatim (hplain n hn)]
    show [n.1].mapM (fun k => do pure { ← g.column k with header := n.2 })
      = [n.1].mapM (fun k => do pure { ← f.column k with header := n.2 })
    exact mapM_congr fun k hk => by rw [List.mem_singleton.mp hk, hcolumn n hn]
  unfold Frame.selectAs
  rw [mapM_congr hnamed, hheight]

namespace Merge

/-- A side of a merge depends on its keys and its columns, and on the height. -/
theorem side_congr {f g : Frame} {columns : List Renaming} {keys : List Header}
    {copy : Nat → Header} (hplain : ∀ k ∈ keys ++ columns.map Renaming.input, isPattern k = false)
    (hcolumn : ∀ k ∈ keys ++ columns.map Renaming.input, g.column k = f.column k)
    (hheight : g.height = f.height) : side g columns keys copy = side f columns keys copy := by
  have hnames : ∀ n ∈ columns.map (fun c => (c.input, c.output))
      ++ keys.zipIdx.map (fun k => (k.1, copy k.2)), n.1 ∈ keys ++ columns.map Renaming.input := by
    intro n hn
    rcases List.mem_append.mp hn with hn | hn
    · obtain ⟨c, hc, rfl⟩ := List.mem_map.mp hn
      exact List.mem_append_right _ (List.mem_map_of_mem hc)
    · obtain ⟨k, hk, rfl⟩ := List.mem_map.mp hn
      exact List.mem_append_left _ (List.fst_mem_of_mem_zipIdx hk)
  exact Frame.selectAs_congr (fun n hn => hplain _ (hnames n hn))
    (fun n hn => hcolumn _ (hnames n hn)) hheight

theorem mem_withKeys {selected keys : List ColumnId} {id : ColumnId}
    (h : id ∈ keys ∨ id ∈ selected) : id ∈ withKeys selected keys := by
  unfold withKeys
  by_cases hs : id ∈ selected
  · exact List.mem_append_right _ hs
  · exact List.mem_append_left _ (List.mem_filter.mpr ⟨h.resolve_right hs, by simpa using hs⟩)

/-- What a plan names are headers of the columns that are read. -/
theorem plan_headers {e : Merge} {one two : Sheet} {p : Plan} (h : e.plan one two = .ok p) :
    (∀ k ∈ p.leftKeys ++ p.left.map Renaming.input,
        ∃ id ∈ e.leftIds, one.columns.header? id = some k)
      ∧ ∀ k ∈ p.rightKeys ++ p.right.map Renaming.input,
        ∃ id ∈ e.rightIds, two.columns.header? id = some k := by
  unfold Merge.plan at h
  simp only [throw_ite_eq_ok, bind_eq_ok, pure_eq_ok, mapM_eq_ok, Sheet.headersFor_eq_ok] at h
  obtain ⟨-, keys, hkeys, ls, hls, rs, hrs, rfl⟩ := h
  have hpair : ∀ key ∈ keys, ∃ pair ∈ e.keys, one.columns.header? pair.1 = some key.1
      ∧ two.columns.header? pair.2 = some key.2 := by
    intro key hkey
    obtain ⟨pair, hmem, hpair⟩ := exists_of_mem_right hkeys hkey
    simp only [keyPair, bind_eq_ok, Sheet.header_eq_ok, ite_throw_eq_ok, pure_eq_ok] at hpair
    obtain ⟨_, -, _, -, a, ha, b, hb, -, rfl⟩ := hpair
    exact ⟨pair, hmem, ha, hb⟩
  constructor
  · intro k hk
    rcases List.mem_append.mp hk with hk | hk
    · obtain ⟨key, hkey, rfl⟩ := List.mem_map.mp hk
      obtain ⟨pair, hmem, hheader, -⟩ := hpair key hkey
      exact ⟨pair.1, mem_withKeys (.inl (List.mem_map_of_mem hmem)), hheader⟩
    · have hkls : k ∈ ls := by simpa using hk
      exact exists_of_mem_right hls hkls
  · intro k hk
    rcases List.mem_append.mp hk with hk | hk
    · obtain ⟨key, hkey, rfl⟩ := List.mem_map.mp hk
      obtain ⟨pair, hmem, -, hheader⟩ := hpair key hkey
      exact ⟨pair.2, mem_withKeys (.inl (List.mem_map_of_mem hmem)), hheader⟩
    · have hkrs : k ∈ rs := by
        rw [List.map_map, List.mem_map] at hk
        obtain ⟨j, hj, rfl⟩ := hk
        exact List.mem_of_mem_filter hj
      exact exists_of_mem_right hrs hkrs

/-- A plan depends on headers and types. -/
theorem plan_congr {e : Merge} {one two : Sheet} {g k : Frame} {p q : Header → Prop}
    (hg : one.frame.AlikeBut p g) (hk : two.frame.AlikeBut q k) :
    e.plan { one with frame := g } { two with frame := k } = e.plan one two := by
  have hpair : keyPair { one with frame := g } { two with frame := k } = keyPair one two := by
    funext pair
    unfold keyPair
    rw [Sheet.dtype_eq hg, Sheet.dtype_eq hk]
    rfl
  unfold Merge.plan
  rw [hpair]
  rfl

theorem covered {e : Merge} (hs : s.Linked) (h : e.run s = .ok c) :
    c.Covered s.Verbatim e.run s := by
  unfold Merge.run at h
  simp only [bind_eq_ok, pure_eq_ok] at h
  obtain ⟨one, hone, two, htwo, p, hplan, f, hf, rfl⟩ := h
  refine .minted hs (Merge.headers_frame hf) rfl fun hverbatim t ht => ?_
  obtain ⟨sk, hsk, halike⟩ := ht.sheet hone
  obtain ⟨g, rfl, hg⟩ := halike.exists_frame
  obtain ⟨sk', hsk', halike'⟩ := ht.sheet htwo
  obtain ⟨k, rfl, hk⟩ := halike'.exists_frame
  have hleft := hs.sheets one (State.sheet_mem hone)
  have hright := hs.sheets two (State.sheet_mem htwo)
  obtain ⟨hheadersLeft, hheadersRight⟩ := plan_headers hplan
  -- the columns that the plan names are read, so they are not spared
  have hsideLeft : side g p.left p.leftKeys leftCopy = side one.frame p.left p.leftKeys leftCopy := by
    refine side_congr (fun j hj => ?_) (fun j hj => ?_) hg.height
    · obtain ⟨id, -, hheader⟩ := hheadersLeft j hj
      exact (hverbatim one (State.sheet_mem hone)).frame j (hleft.columns.live hheader)
    · obtain ⟨id, hid, hheader⟩ := hheadersLeft j hj
      refine hg.column_eq (hleft.not_freed hheader ?_)
      exact Footprint.Reads.not_spares ((Footprint.reads_read {} one.id hid).read two.id _)
  have hsideRight : side k p.right p.rightKeys rightCopy
      = side two.frame p.right p.rightKeys rightCopy := by
    refine side_congr (fun j hj => ?_) (fun j hj => ?_) hk.height
    · obtain ⟨id, -, hheader⟩ := hheadersRight j hj
      exact (hverbatim two (State.sheet_mem htwo)).frame j (hright.columns.live hheader)
    · obtain ⟨id, hid, hheader⟩ := hheadersRight j hj
      refine hk.column_eq (hright.not_freed hheader ?_)
      exact Footprint.Reads.not_spares (Footprint.reads_read _ two.id hid)
  have hagain : e.frame p g k = .ok f := by
    rw [← hf]
    unfold Merge.frame
    rw [hsideLeft, hsideRight]
  unfold Merge.run
  simp only [bind_eq_ok, pure_eq_ok]
  refine ⟨_, hsk, _, hsk', p, (plan_congr hg hk).trans hplan, f, hagain, ?_⟩
  rw [ht.uniqueName_eq, ht.rest]
  rfl

end Merge

/-! ### Pivot tables -/

namespace Pivot

/-- A pivot table depends on the columns that it names, and on the height. -/
theorem frame_congr {e : Pivot} {l : Layout} {f g out : Frame}
    (hplain : ∀ k ∈ l.rows ++ l.columns ++ l.values.map Prod.fst, isPattern k = false)
    (hcolumn : ∀ k ∈ l.rows ++ l.columns ++ l.values.map Prod.fst, g.column k = f.column k)
    (hheight : g.height = f.height) (h : e.frame l f = .ok out) : e.frame l g = .ok out := by
  obtain ⟨hsome, hnd, columns, rows, values, hcolumns, hspan, hrows, hvalues, hout⟩ :=
    (frame_eq_ok hplain).mp h
  have hfound : ∀ {hs : List Header} {cs : List Column},
      (∀ k ∈ hs, k ∈ l.rows ++ l.columns ++ l.values.map Prod.fst) →
      List.Forall₂ (fun k c => f.column k = .ok c) hs cs →
      List.Forall₂ (fun k c => g.column k = .ok c) hs cs := by
    intro hs cs hin hcs
    rw [← mapM_eq_ok] at hcs ⊢
    rw [← hcs]
    exact mapM_congr fun k hk => hcolumn k (hin k hk)
  have hkept : List.Forall₂ (fun v (w : Column × List Aggregation) =>
      g.column v.1 = .ok w.1 ∧ w.2 = v.2) l.values values := by
    obtain ⟨hlen, hzip⟩ := List.forall₂_iff_zip.mp hvalues
    refine List.forall₂_iff_zip.mpr ⟨hlen, fun {v w} hvw => ?_⟩
    have hmem : v.1 ∈ l.values.map Prod.fst := List.mem_map_of_mem (List.of_mem_zip hvw).1
    rw [hcolumn v.1 (List.mem_append_right _ hmem)]
    exact hzip hvw
  refine (frame_eq_ok hplain).mpr ⟨hsome, hnd, columns, rows, values, ?_, hspan, ?_, hkept, ?_⟩
  · exact hfound (fun k hk => List.mem_append_left _ (List.mem_append_right _ hk)) hcolumns
  · exact hfound (fun k hk => List.mem_append_left _ (List.mem_append_left _ hk)) hrows
  · rwa [hheight]

theorem reads_block {e : Pivot} {l : Layout} {source output : Sheet} {id : ColumnId}
    (hid : id ∈ e.rows ++ e.columns ++ Dictionary.keys e.values) :
    (e.block l source output).footprint.Reads source.id id := by
  have hread := Footprint.reads_read {} source.id hid
  unfold Pivot.block
  dsimp only
  split <;> exact hread

/-- What a layout names are headers of the frame. -/
theorem not_isPattern {e : Pivot} {source : Sheet} {l : Layout} (hs : source.Linked)
    (hverbatim : source.Verbatim) (hlayout : e.layout source = .ok l) :
    ∀ k ∈ l.rows ++ l.columns ++ l.values.map Prod.fst, isPattern k = false := by
  intro k hk
  obtain ⟨id, -, hid⟩ := layout_headers hlayout hk
  exact hverbatim.frame k (hs.columns.live hid)

/-- On a state that differs in spared columns only, the pivot table is the same. -/
theorem frame_again {e : Pivot} {l : Layout} {source output : Sheet} {f g : Frame}
    (hs : source.Linked) (hverbatim : source.Verbatim) (hlayout : e.layout source = .ok l)
    (hf : e.frame l source.frame = .ok f)
    (hg : source.frame.AlikeBut
      (source.Freed (Code.Spares [.block (e.block l source output)] source.id)) g) :
    e.layout { source with frame := g } = .ok l ∧ e.frame l g = .ok f := by
  refine ⟨hlayout, ?_⟩
  refine frame_congr (not_isPattern hs hverbatim hlayout) (fun k hk => ?_) hg.height hf
  obtain ⟨id, hid, hheader⟩ := layout_headers hlayout hk
  exact hg.column_eq (hs.not_freed hheader (Footprint.Reads.not_spares (reads_block hid)))

theorem covered {e : Pivot} (hs : s.Linked) (hp : e.destination.isSome = true → s.Verbatim)
    (h : e.run s = .ok c) : c.Covered s.Verbatim e.run s := by
  unfold Pivot.run at h
  simp only [bind_eq_ok] at h
  obtain ⟨source, hsource, l, hlayout, f, hf, h⟩ := h
  have hnd := Pivot.headers_frame hf
  have hlinked := hs.sheets source (State.sheet_mem hsource)
  split at h
  · next i hi =>
    simp only [bind_eq_ok, pure_eq_ok] at h
    obtain ⟨target, htarget, headers, hheaders, rfl⟩ := h
    have hverbatim : source.Verbatim := hp (hi ▸ rfl) source (State.sheet_mem hsource)
    have hplain := not_isPattern hlinked hverbatim hlayout
    obtain rfl : headers = f.headers :=
      Except.ok.inj (hheaders.symm.trans (headers_eq_ok hplain hf))
    -- the table has its headers for ids, whatever stood in its place
    refine .rewrite hs htarget rfl ⟨hnd, (ColumnIds.Sound.ofHeaders hnd).linked⟩ ?_
      fun _ t ht hsk => ?_
    · rw [ChunkBody.effectiveWrites_block]
      simp only [Pivot.block, hi]
      rfl
    · obtain ⟨sk, hsk', halike⟩ := ht.sheet hsource
      obtain ⟨g, rfl, hg⟩ := halike.exists_frame
      obtain ⟨hlayout', hf'⟩ := frame_again hlinked hverbatim hlayout hf hg
      unfold Pivot.run
      simp only [bind_eq_ok]
      refine ⟨_, hsk', l, hlayout', f, hf', ?_⟩
      rw [hi]
      simp only [bind_eq_ok, pure_eq_ok]
      exact ⟨target, hsk, f.headers, headers_eq_ok hplain hf', rfl⟩
  · next hnone =>
    simp only [pure_eq_ok] at h
    subst h
    refine .minted hs hnd ?_ fun hverbatim t ht => ?_
    · simp only [Pivot.block, hnone]
      rfl
    · obtain ⟨sk, hsk, halike⟩ := ht.sheet hsource
      obtain ⟨g, rfl, hg⟩ := halike.exists_frame
      obtain ⟨hlayout', hf'⟩ := frame_again hlinked
        (hverbatim source (State.sheet_mem hsource)) hlayout hf hg
      unfold Pivot.run
      simp only [bind_eq_ok]
      refine ⟨_, hsk, l, hlayout', f, hf', ?_⟩
      rw [hnone, ht.uniqueName_eq, ht.rest]
      rfl

end Pivot

/-! ### Imports -/

namespace ImportFiles

variable {e : ImportFiles} {d : Disk}

theorem linked_legacyColumns {headers : List Header} (hnd : headers.Nodup) :
    (legacyColumns headers).Linked headers := by
  have hpairs : ((headers.map fun h => ((⟨Naming.legacyHeader h⟩ : ColumnId), h)).map
      Prod.snd).Nodup := by
    simpa [Function.comp_def] using hnd
  have h := ColumnIds.Linked.empty.insertPairs hpairs fun _ _ => List.not_mem_nil
  rw [List.foldl_map, List.map_map, List.append_nil] at h
  simpa [legacyColumns, Function.comp_def] using h

theorem linked_addFile {path : String} {acc next : State × List Sheet} (hacc : acc.1.Linked)
    (h : e.addFile d acc path = .ok next) : next.1.Linked := by
  simp only [ImportFiles.addFile, bind_eq_ok, pure_eq_ok] at h
  obtain ⟨f, hf, rfl⟩ := h
  have hnd := Csv.headers_load hf
  refine hacc.push (acc.1.mint (acc.1.uniqueName (baseName path)) f).2 rfl rfl ?_ ?_
  · split <;> rfl
  · split
    · exact ⟨hnd, linked_legacyColumns hnd⟩
    · exact ⟨hnd, (ColumnIds.Sound.ofHeaders hnd).linked⟩

/-- Files are added to the sheets of two states alike if those have the same names. -/
theorem addFiles_again {files : List String} {acc next : State × List Sheet} {ss : List Sheet}
    (ts : List Sheet) (hnames : ts.map Sheet.name = ss.map Sheet.name) (hacc : acc.1.sheets = ss ++ acc.2)
    (h : files.foldlM (e.addFile d) acc = .ok next) :
    next.1.sheets = ss ++ next.2
      ∧ files.foldlM (e.addFile d) ({ acc.1 with sheets := ts ++ acc.2 }, acc.2)
        = .ok ({ next.1 with sheets := ts ++ next.2 }, next.2) := by
  induction files generalizing acc with
  | nil =>
    simp only [List.foldlM_nil, pure_eq_ok] at h
    subst h
    exact ⟨hacc, rfl⟩
  | cons path rest ih =>
    simp only [List.foldlM_cons, bind_eq_ok] at h ⊢
    obtain ⟨mid, hmid, h⟩ := h
    simp only [ImportFiles.addFile, bind_eq_ok, pure_eq_ok] at hmid ⊢
    obtain ⟨f, hf, rfl⟩ := hmid
    have hbase : State.uniqueName { acc.1 with sheets := ts ++ acc.2 } (baseName path)
        = acc.1.uniqueName (baseName path) := by
      unfold State.uniqueName State.names
      rw [hacc, List.map_append, List.map_append, hnames]
    have hmid : ∀ new : Sheet, acc.1.sheets ++ [new] = ss ++ (acc.2 ++ [new]) := fun new => by
      rw [hacc, List.append_assoc]
    obtain ⟨hsheets, hagain⟩ := ih (hmid _) h
    refine ⟨hsheets, _, ⟨f, hf, rfl⟩, ?_⟩
    rw [hbase, ← hagain, ← List.append_assoc]
    rfl

/-- An import adds a sheet for every file. -/
theorem sheets_run {s : State} {c : Change} (h : e.run d s = .ok c) :
    ∃ new, c.state.sheets = s.sheets ++ new
      ∧ List.Forall₂ (fun path sheet => Csv.load d path = .ok sheet.frame ∧ sheet.columns
          = if e.legacyIds then legacyColumns sheet.headers else .ofHeaders sheet.headers)
        e.files new := by
  have hall : ∀ {files : List String} {acc next : State × List Sheet},
      files.foldlM (e.addFile d) acc = .ok next →
      ∃ new, next.1.sheets = acc.1.sheets ++ new
        ∧ List.Forall₂ (fun path sheet => Csv.load d path = .ok sheet.frame ∧ sheet.columns
            = if e.legacyIds then legacyColumns sheet.headers else .ofHeaders sheet.headers)
          files new := by
    intro files
    induction files with
    | nil =>
      intro acc next h
      simp only [List.foldlM_nil, pure_eq_ok] at h
      exact ⟨[], by rw [h, List.append_nil], .nil⟩
    | cons path rest ih =>
      intro acc next h
      simp only [List.foldlM_cons, bind_eq_ok] at h
      obtain ⟨mid, hmid, h⟩ := h
      simp only [ImportFiles.addFile, bind_eq_ok, pure_eq_ok] at hmid
      obtain ⟨f, hf, rfl⟩ := hmid
      obtain ⟨new, hsheets, hnew⟩ := ih h
      refine ⟨_ :: new, hsheets.trans (List.append_assoc _ [_] new), .cons ?_ hnew⟩
      split
      · exact ⟨hf, rfl⟩
      · exact ⟨hf, rfl⟩
  unfold ImportFiles.run at h
  simp only [throw_ite_eq_ok, bind_eq_ok, pure_eq_ok] at h
  obtain ⟨-, ⟨next, sheets⟩, hnext, rfl⟩ := h
  exact hall hnext

theorem touched_block (sheets : List Sheet) (t : SheetId) :
    t ∈ (ChunkBody.block (e.block sheets)).footprint.touched ↔ ∃ sh ∈ sheets, sh.id = t := by
  have hwrites : ∀ (sheets : List Sheet) (f : Footprint),
      (sheets.foldl (fun f sheet => f.create sheet.id) f).writes = f.writes := by
    intro sheets
    induction sheets with
    | nil => exact fun f => rfl
    | cons sheet rest ih => exact fun f => ih _
  obtain ⟨hcreates, hdeletes⟩ := foldl_create sheets {}
  have hfoot : (e.block sheets).footprint
      = sheets.foldl (fun f sheet => f.create sheet.id) {} := rfl
  rw [Footprint.touched, ChunkBody.effectiveWrites_block, ← Dictionary.get?_isSome_iff,
    Footprint.get?_effectiveWrites, hfoot, hdeletes, hwrites, List.append_nil]
  have hin : t ∈ (sheets.foldl (fun f sheet => f.create sheet.id) ({} : Footprint)).creates
      ↔ ∃ sh ∈ sheets, sh.id = t := by
    rw [hcreates]
    simp
  by_cases ht : ∃ sh ∈ sheets, sh.id = t
  · rw [if_pos (hin.mpr ht)]
    simp [ht]
  · rw [if_neg fun h => ht (hin.mp h)]
    simp [ht]

theorem covered (hs : s.Linked) (h : e.run d s = .ok c) : c.Covered plain (e.run d) s := by
  unfold ImportFiles.run at h
  simp only [throw_ite_eq_ok, bind_eq_ok, pure_eq_ok] at h
  obtain ⟨hsome, ⟨next, sheets⟩, hnext, rfl⟩ := h
  have hlinked : next.Linked := foldlM_keeps (P := fun acc => acc.1.Linked)
    (fun _ hacc hfile => linked_addFile hacc hfile) hs hnext
  obtain ⟨hsheets, -⟩ := addFiles_again s.sheets rfl (List.append_nil _).symm hnext
  refine .added hlinked hsheets ?_ fun _ t ht => ?_
  · -- the ids of all sheets differ, so the new ones are not among the old
    intro sh hsh hin
    obtain ⟨sk, hsk, hid⟩ := (touched_block sheets sh.id).mp hin
    have hids := hlinked.ids
    rw [hsheets, List.map_append, List.nodup_append] at hids
    exact hids.2.2 _ (List.mem_map_of_mem hsh) _ (List.mem_map_of_mem hsk) hid.symm
  · have hnames : t.sheets.map Sheet.name = s.sheets.map Sheet.name := ht.names_eq
    obtain ⟨-, hagain⟩ := addFiles_again t.sheets hnames (List.append_nil _).symm hnext
    have hstart : { s with sheets := t.sheets ++ [] } = t := by
      rw [List.append_nil]
      exact ht.rest.symm
    dsimp only at hagain
    rw [hstart] at hagain
    unfold ImportFiles.run
    simp only [throw_ite_eq_ok, bind_eq_ok, pure_eq_ok]
    exact ⟨hsome, _, hagain, rfl⟩

end ImportFiles

end SheetScript
