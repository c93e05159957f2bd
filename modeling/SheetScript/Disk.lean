import SheetScript.Dictionary

/-!
# The disk

  The files that imports read and exports write.  A path leads to its place from
  the root of the disk, or from the working directory if it does not start there.
-/

/-!
## Paths

  A path is a text of parts between slashes.  Empty parts and dots after the
  first part mean nothing at its end; the last part that means something names
  the file.
-/

namespace SheetScript.Path

/-- The parts of a path between its slashes. -/
def parts (path : String) : List String :=
  let step (c : Char) (acc : List (List Char)) : List (List Char) :=
    match acc with
    | [] => [[c]]
    | w :: ws => if c == '/' then [] :: w :: ws else (c :: w) :: ws
  (path.toList.foldr step [[]]).map String.ofList

/-- The path of some parts. -/
def join (ps : List String) : String := "/".intercalate ps

/-- Whether a path starts at the root. -/
def isAbsolute (path : String) : Bool := path.toList.head? == some '/'

/-- Whether a part stands for the directory before it. -/
def isIdle (p : String) : Bool := p == "" || p == "."

/-- The parts up to the last one that means something. -/
def trimmed : List String → List String
  | [] => []
  | p :: rest => p :: (rest.reverse.dropWhile isIdle).reverse

/-- The name of the file that a path leads to. -/
def fileName? (path : String) : Option String :=
  (trimmed (parts path)).getLast?.filter fun name => !isIdle name && name != ".."

/-- The directory part of a path: empty for a name alone, and the root for a name
  at the root. -/
def parent (path : String) : String :=
  match trimmed (trimmed (parts path)).dropLast with
  | [""] => "/"
  | ps => join ps

/-- A name before and after its last point; a point at the start does not count. -/
def splitName (name : String) : String × Option String :=
  let after := (name.toList.reverse.takeWhile (· != '.')).reverse
  let before := name.toList.take (name.length - after.length - 1)
  if before.isEmpty || after.length = name.length then (name, none)
  else (String.ofList before, some (String.ofList after))

/-- The file name without what follows its last point. -/
def stem? (path : String) : Option String := (fileName? path).map fun n => (splitName n).1

/-- What follows the last point of the file name. -/
def extension? (path : String) : Option String := (fileName? path).bind fun n => (splitName n).2

/-- The path with another extension. -/
def withExtension (path extension : String) : String :=
  match stem? path with
  | some stem => join ((trimmed (parts path)).dropLast ++ [stem ++ "." ++ extension])
  | none => path

/-- The path with another file name. -/
def withFileName (path name : String) : String :=
  let directory := if (fileName? path).isSome then parent path else path
  if directory == "" then name
  else if directory == "/" then directory ++ name
  else join [directory, name]

end SheetScript.Path

/-! ## Files -/

namespace SheetScript

/-- What a file holds. -/
inductive FileContent where
  | text (s : String)
  /-- A workbook, which is no text. -/
  | workbook
  deriving DecidableEq, Repr, Inhabited

/-- Files and directories by their paths from the root. -/
structure Disk where
  /-- The working directory, as the parts on the way from the root. -/
  home : List String := []
  files : Dictionary String FileContent := []
  directories : Roster String := []
  deriving DecidableEq, Repr, Inhabited

namespace Disk

/-- The place that a path leads to, as the parts on the way from the root.  Nothing
  is above the root. -/
def place (d : Disk) (path : String) : List String :=
  (Path.parts path).foldl
    (fun way p => if Path.isIdle p then way else if p == ".." then way.dropLast else way ++ [p])
    (if Path.isAbsolute path then [] else d.home)

/-- The places above a place, the nearest last; the root is not among them. -/
def above (way : List String) : List String :=
  (List.range way.length).filterMap fun n => if n == 0 then none else some (Path.join (way.take n))

/-- The directories on the way to a place, which is the last one. -/
def directoriesTo (way : List String) : List String :=
  if way.isEmpty then [] else above way ++ [Path.join way]

/-- Whether a place is a directory. -/
def isDirectory (d : Disk) (way : List String) : Bool :=
  way.isEmpty || Path.join way ∈ d.directories

/-- Whether a path can only mean a directory. -/
def endsWithSlash (path : String) : Bool := path.toList.getLast? == some '/'

/-- The content of a file. -/
def content? (d : Disk) (path : String) : Option FileContent :=
  if path == "" || endsWithSlash path then none
  else Dictionary.get? d.files (Path.join (d.place path))

/-- The text of a file, if it holds one. -/
def read? (d : Disk) (path : String) : Option String :=
  match d.content? path with
  | some (.text s) => some s
  | _ => none

/-- Whether a path leads to a file or a directory. -/
def contains (d : Disk) (path : String) : Bool :=
  let way := d.place path
  path != "" && (d.isDirectory way
    || (!endsWithSlash path && Dictionary.contains d.files (Path.join way)))

/-- Whether a path leads to a directory. -/
def containsDirectory (d : Disk) (path : String) : Bool :=
  path != "" && d.isDirectory (d.place path)

/-- The disk with a directory and those above it, unless a file is in the way. -/
def makeDirectory? (d : Disk) (path : String) : Option Disk :=
  let places := directoriesTo (d.place path)
  if places.any fun p => Dictionary.contains d.files p then none
  else some { d with directories := Roster.union d.directories places }

/-- The disk with a file written, whose directory has to exist. -/
def write? (d : Disk) (path : String) (content : FileContent) : Option Disk :=
  let way := d.place path
  if path == "" || endsWithSlash path then none
  else if !way.isEmpty && !d.isDirectory way && d.isDirectory way.dropLast then
    some { d with files := Dictionary.insert d.files (Path.join way) content }
  else none

/-- The disk with a text in a file and with the directories above it. -/
def put (d : Disk) (path text : String) : Disk :=
  match (d.makeDirectory? (Path.parent path)).bind fun e => e.write? path (.text text) with
  | some e => e
  | none => d

/-- A disk with nothing but a working directory. -/
def empty (home : List String) : Disk := { home, directories := directoriesTo home }

/-- The disk of some files, whose paths may start from a working directory. -/
def ofFiles (files : List (String × String)) : Disk :=
  files.foldl (fun d f => d.put f.1 f.2) (empty ["work"])

end Disk

end SheetScript
