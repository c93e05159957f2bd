import SheetScript.Chunk.Basic

/-!
# Shortening chunks

  Chunks are rewritten one pair at a time until no pair can be rewritten.  Every
  rewrite takes at least one chunk away, so the loop comes to an end; a bound on
  the number of passes stops it earlier if one is wanted.
-/

/-!
## Rewriting chunks

  A pair of chunks, the older before the newer, can often be replaced by fewer
  chunks: an edit whose result is overwritten or deleted goes, two renames become
  one.  `rewriteFor` says how; it looks at the two chunks alone.  A pair is only
  rewritten when no chunk between the two conflicts with either of them.

  Inserting a column depends on positions, so two inserts into one sheet always
  conflict: without the first the second would land elsewhere.
-/

namespace SheetScript.Optimizer

/-- What becomes of a pair of chunks. -/
inductive Rewrite where
  | dropOlder
  | dropBoth
  /-- The older chunk is replaced and the newer one goes. -/
  | merge (body : ChunkBody)
  /-- The older chunk goes and the newer one is replaced. -/
  | replaceNewer (body : ChunkBody)
  deriving DecidableEq, Repr

/-- Whether a chunk deletes a column of a sheet. -/
def deletes (b : ChunkBody) (sheet : SheetId) (id : ColumnId) : Bool :=
  match b with
  | .deleteColumns t ids _ => t.sheet = sheet && id ∈ ids
  | _ => false

/-- A deletion without one of its columns. -/
def withoutColumn (id : ColumnId) (ids : List ColumnId) (headers : List Header) :
    List ColumnId × List Header :=
  ((ids.zip headers).filter fun p => p.1 ≠ id).unzip

/-- What becomes of a chunk before the deletion of a sheet.  An input sheet
  exists before the script runs, so its deletion stays when the edits before it
  go. -/
def beforeDeletion (older : ChunkBody) (sheet : SheetId) : Option Rewrite :=
  let f := older.footprint
  if older.isDroppable && f.touched == [sheet] then
    some (if sheet ∈ f.creates then .dropBoth else .dropOlder)
  else none

/-- How a pair of chunks can be rewritten. -/
def rewriteFor (older newer : ChunkBody) : Option Rewrite :=
  match older, newer with
  | .setFormula t id _ _ _, .deleteColumns u ids hs =>
    if deletes (.deleteColumns u ids hs) t.sheet id then some .dropOlder else none
  | .changeType t id _ _, .deleteColumns u ids hs =>
    if deletes (.deleteColumns u ids hs) t.sheet id then some .dropOlder else none
  | .addColumn t id _ _ _ _, .deleteColumns u ids headers =>
    if t.sheet = u.sheet ∧ id ∈ ids then
      let (ids, headers) := withoutColumn id ids headers
      if ids.isEmpty then some .dropBoth
      else some (.replaceNewer (.deleteColumns ⟨t.sheet, u.df⟩ ids headers))
    else none
  | .addColumn t id header index _ _, .setFormula u id' _ value reads =>
    if t.sheet = u.sheet ∧ id = id' ∧ id ∉ reads then
      some (.merge (.addColumn t id header index (some value) reads))
    else none
  | .setFormula t id _ _ _, .setFormula u id' _ _ reads =>
    if t.sheet = u.sheet ∧ id = id' ∧ id ∉ reads then some .dropOlder else none
  | .renameColumn t id old _, .renameColumn u id' _ new =>
    if t.sheet = u.sheet ∧ id = id' then
      if old = new then some .dropBoth else some (.merge (.renameColumn t id old new))
    else none
  | .renameSheet s old _, .renameSheet s' _ new =>
    if s = s' then
      if old = new then some .dropBoth else some (.merge (.renameSheet s old new))
    else none
  | .renameSheet s old _, .deleteSheet t =>
    if s = t.sheet then some (.replaceNewer (.deleteSheet ⟨s, old⟩))
    else beforeDeletion older t.sheet
  | older, .deleteSheet t => beforeDeletion older t.sheet
  | _, _ => none

/-- The chunks in place of a pair with the chunks between it. -/
def Rewrite.apply (r : Rewrite) (older : Chunk) (between : List Chunk) (newer : Chunk) :
    List Chunk :=
  match r with
  | .dropOlder => between ++ [newer]
  | .dropBoth => between
  | .merge body => { older with body := body } :: between
  | .replaceNewer body => between ++ [{ newer with body := body }]

/-- Whether two chunks may not change places. -/
def interferes (a b : Chunk) : Bool := a.body.footprint.conflictsWith b.body.footprint

/-- Whether no chunk between a pair conflicts with either of the two. -/
def isClear (older : Chunk) (between : List Chunk) (newer : Chunk) : Bool :=
  between.all fun k => !interferes k older && !interferes k newer

/-- Rewrites a chunk with the first of the later chunks that allows it;
  `between` holds the chunks that were passed over. -/
def rewriteWith (older : Chunk) (between : List Chunk) : List Chunk → Option (List Chunk)
  | [] => none
  | newer :: after =>
    match (rewriteFor older.body newer.body).filter fun _ => isClear older between newer with
    | some r => some (r.apply older between newer ++ after)
    | none => rewriteWith older (between ++ [newer]) after

/-- Rewrites the first pair that allows it, older chunks first. -/
def rewriteOnce : List Chunk → Option (List Chunk)
  | [] => none
  | c :: rest =>
    match rewriteWith c [] rest with
    | some chunks => some chunks
    | none => (rewriteOnce rest).map (c :: ·)

/-! ## Passes -/

/-- How shortening went. -/
structure Report where
  /-- Chunks before. -/
  before : Nat := 0
  /-- Chunks after. -/
  after : Nat := 0
  rewrites : Nat := 0
  /-- Passes, with the last one, which found nothing. -/
  passes : Nat := 0
  /-- The bound was met before a pass found nothing. -/
  hitLimit : Bool := false
  deriving DecidableEq, Repr, Inhabited

/-- Chunks after some rewrites. -/
structure Shortened where
  chunks : List Chunk
  rewrites : Nat
  hitLimit : Bool
  deriving DecidableEq, Repr

/-- Rewrites in at most the given number of passes. -/
def shorten : Nat → List Chunk → Shortened
  | 0, chunks => ⟨chunks, 0, true⟩
  | limit + 1, chunks =>
    match rewriteOnce chunks with
    | none => ⟨chunks, 0, false⟩
    | some next =>
      let r := shorten limit next
      { r with rewrites := r.rewrites + 1 }

/-- The passes that were run: one for each rewrite, and the last one unless the
  bound kept it away. -/
def Shortened.passes (r : Shortened) : Nat := if r.hitLimit then r.rewrites else r.rewrites + 1

/-- The report on shortening a list of chunks. -/
def Shortened.report (r : Shortened) (chunks : List Chunk) : Report where
  before := chunks.length
  after := r.chunks.length
  rewrites := r.rewrites
  passes := r.passes
  hitLimit := r.hitLimit

/-- The report on chunks that are left alone. -/
def Report.untouched (chunks : List Chunk) : Report where
  before := chunks.length
  after := chunks.length

end SheetScript.Optimizer
