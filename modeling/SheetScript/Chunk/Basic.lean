import SheetScript.Chunk.Footprint
import SheetScript.Literal

/-!
# Chunks of generated code

  A step emits chunks.  Edits of single columns and sheets have kinds of their
  own, which can be merged and cancelled; everything that rewrites a whole sheet
  is a block, of which only the footprint and the outputs are known.
-/

namespace SheetScript

/-- A sheet and the variable that holds it. -/
structure Target where
  sheet : SheetId
  df : String
  deriving DecidableEq, Repr, Inhabited

/-- A sheet as a block leaves it. -/
structure BlockOutput where
  sheet : SheetId
  name : String
  /-- Ids and headers from left to right. -/
  columns : List (ColumnId × Header)
  deriving DecidableEq, Repr, Inhabited

/-- Statements that are not looked into. -/
structure Block where
  displayName : String
  description : String
  statements : List String
  footprint : Footprint
  outputs : List BlockOutput
  /-- The statements have effects beyond the tables, such as writing a file. -/
  keep : Bool
  deriving DecidableEq, Repr, Inhabited

/-- What a chunk does. -/
inductive ChunkBody where
  /-- `value` computes the cells and reads the columns `reads`; zeros when it is
  absent. -/
  | addColumn (target : Target) (id : ColumnId) (header : Header) (index : Nat)
      (value : Option String) (reads : List ColumnId)
  | deleteColumns (target : Target) (ids : List ColumnId) (headers : List Header)
  | renameColumn (target : Target) (id : ColumnId) (old new : Header)
  | setFormula (target : Target) (id : ColumnId) (header : Header) (value : String)
      (reads : List ColumnId)
  | changeType (target : Target) (id : ColumnId) (header : Header) (statements : List String)
  | duplicateSheet (source copy : Target)
  | deleteSheet (target : Target)
  | renameSheet (sheet : SheetId) (old new : String)
  | block (b : Block)
  deriving DecidableEq, Repr, Inhabited

/-- A chunk and the step it comes from. -/
structure Chunk where
  step : StepId
  body : ChunkBody
  deriving DecidableEq, Repr, Inhabited

namespace ChunkBody

/-- The kind of a chunk in words. -/
def displayName : ChunkBody → String
  | .addColumn .. => "Added column"
  | .deleteColumns .. => "Deleted columns"
  | .renameColumn .. => "Renamed column"
  | .setFormula .. => "Set formula"
  | .changeType .. => "Changed dtype"
  | .duplicateSheet .. => "Duplicated dataframe"
  | .deleteSheet .. => "Deleted dataframe"
  | .renameSheet .. => "Renamed dataframe"
  | .block b => b.displayName

/-- One line on what the statements do. -/
def description : ChunkBody → String
  | .addColumn t _ header _ _ _ => "Added column " ++ header ++ " to " ++ t.df
  | .deleteColumns t _ headers => "Deleted columns " ++ ", ".intercalate headers ++ " from " ++ t.df
  | .renameColumn t _ old new => "Renamed " ++ old ++ " to " ++ new ++ " in " ++ t.df
  | .setFormula t _ header _ _ => "Set formula of " ++ header ++ " in " ++ t.df
  | .changeType t _ header _ => "Changed " ++ header ++ " dtype in " ++ t.df
  | .duplicateSheet source copy => "Duplicated " ++ source.df ++ " as " ++ copy.df
  | .deleteSheet t => "Deleted " ++ t.df
  | .renameSheet _ old new => "Renamed " ++ old ++ " to " ++ new
  | .block b => b.description

/-- The statements in the order in which they run. -/
def code : ChunkBody → List String
  | .addColumn t _ header index value _ =>
    [t.df ++ ".insert(" ++ Decimal.natText index ++ ", " ++ Literal.text header ++ ", "
      ++ value.getD "0" ++ ")"]
  | .deleteColumns t _ headers =>
    [t.df ++ ".drop(" ++ Literal.list headers ++ ", axis=1, inplace=True)"]
  | .renameColumn t _ old new =>
    [t.df ++ ".rename(columns=\x7b" ++ Literal.text old ++ ": " ++ Literal.text new
      ++ "\x7d, inplace=True)"]
  | .setFormula t _ header value _ => [t.df ++ "[" ++ Literal.text header ++ "] = " ++ value]
  | .changeType _ _ _ statements => statements
  | .duplicateSheet source copy => [copy.df ++ " = " ++ source.df ++ ".copy(deep=True)"]
  | .deleteSheet t => ["del " ++ t.df]
  | .renameSheet _ old new => [new ++ " = " ++ old, "del " ++ old]
  | .block b => b.statements

/-- What the statements read and change. -/
def footprint : ChunkBody → Footprint
  | .addColumn t id header _ _ reads =>
    ((((({} : Footprint).read t.sheet (.ofList reads)).write t.sheet (.ofList [id])).positional
      t.sheet).use (.variable t.df)).bind (.header t.sheet header)
  | .deleteColumns t ids headers =>
    headers.foldl (fun f h => f.bind (.header t.sheet h))
      ((({} : Footprint).write t.sheet (.ofList ids)).use (.variable t.df))
  | .renameColumn t id old new =>
    (((({} : Footprint).write t.sheet (.ofList [id])).use (.variable t.df)).bind
      (.header t.sheet old)).bind (.header t.sheet new)
  | .setFormula t id header _ reads =>
    (((({} : Footprint).read t.sheet (.ofList reads)).write t.sheet (.ofList [id])).use
      (.variable t.df)).use (.header t.sheet header)
  | .changeType t id header _ =>
    (((({} : Footprint).read t.sheet (.ofList [id])).write t.sheet (.ofList [id])).use
      (.variable t.df)).use (.header t.sheet header)
  | .duplicateSheet source copy =>
    (((({} : Footprint).read source.sheet .all).create copy.sheet).use
      (.variable source.df)).bind (.variable copy.df)
  | .deleteSheet t => (({} : Footprint).delete t.sheet).bind (.variable t.df)
  | .renameSheet sheet old new =>
    ((({} : Footprint).write sheet .all).bind (.variable old)).bind (.variable new)
  | .block b => b.outputs.foldl (fun f o => f.bind (.variable o.name)) b.footprint

/-- Whether the chunk may go when everything it produced is discarded later. -/
def isDroppable : ChunkBody → Bool
  | .block b => !b.keep
  | _ => true

end ChunkBody

end SheetScript
