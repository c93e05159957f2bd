import SheetScript.CommandLine.Run

/-!
# The program

  Puts the files that a command needs on a disk, runs the command, and writes back
  the files that it changed.
-/

namespace SheetScript

open CommandLine

/-- The text of a file, if there is one. -/
def readText? (path : String) : IO (Option String) := do
  try
    let text ← IO.FS.readFile path
    return some text
  catch _ => return none

/-- The disk with those of some files on it that exist. -/
def Disk.withFiles (d : Disk) (paths : List String) : IO Disk :=
  paths.foldlM (fun d path => do
    match ← readText? path with
    | some text => return d.put path text
    | none => return d) d

/-- The disk with the user's settings on it. -/
def Disk.withUserSettings (d : Disk) : IO Disk := do
  let directory ← match ← IO.getEnv "XDG_CONFIG_HOME" with
    | some path => pure path
    | none => pure ((← IO.getEnv "HOME").getD "" ++ "/.config")
  match ← readText? (directory ++ "/sheetstep/settings.json") with
  | some text => return d.put Settings.filePath text
  | none => return d

/-- The variables of the environment that are set. -/
def readEnvironment : IO (Dictionary String String) :=
  variableNames.foldlM (fun e name => do
    match ← IO.getEnv name with
    | some value => return Dictionary.insert e name value
    | none => return e) []

/-- A disk with the working directory of the program. -/
def Disk.here : IO Disk := do
  let path := (← IO.currentDir).toString
  return .empty ((Path.parts path).filter fun p => !Path.isIdle p)

/-- The disk that an invocation starts from. -/
def diskFor (i : Invocation) : IO Disk := do
  let d ← (← (← Disk.here).withUserSettings).withFiles i.namedFiles
  let d ← d.withFiles ((i.edits d).flatMap importedFiles)
  let directories := (i.writtenFiles d).map Path.parent
  return directories.foldl (fun d path => (d.makeDirectory? path).getD d) d

/-- Writes the text files that a command changed.  Workbooks are not written. -/
def writeBack (before after : Disk) : IO Unit :=
  (changedFiles before after).forM fun f =>
    match f.2 with
    | .text s => IO.FS.writeFile ("/" ++ f.1) s
    | .workbook => pure ()

/-- Runs the invocation and returns the exit code. -/
def execute (i : Invocation) : IO UInt32 := do
  let environment ← readEnvironment
  let i := i.withEnvironment environment
  let before ← diskFor i
  let (result, after) := i.run before environment
  writeBack before after
  match result with
  | .ok text =>
    IO.print text
    return 0
  | .error t =>
    IO.eprintln (troubleReport t)
    return 1

end SheetScript

open SheetScript CommandLine in
/-- Runs the command that the words ask for. -/
def main (words : List String) : IO UInt32 := do
  match Invocation.parse words with
  | .ok i => execute i
  | .error e =>
    if e.isAnswer then
      IO.println e.message
      return 0
    else
      IO.eprintln e.message
      return 2
