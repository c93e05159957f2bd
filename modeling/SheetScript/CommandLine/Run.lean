import SheetScript.CommandLine.Arguments
import SheetScript.Session

/-!
# Running commands

  A command reads its files from the disk and yields the text that it prints and
  the disk afterwards.  What exports of a replayed analysis wrote stays on the disk
  even if the command fails later.
-/

namespace SheetScript.CommandLine

/-- What a command prints, and the disk after it. -/
abbrev Outcome := Except Trouble String × Disk

/-- The settings of an invocation: those of the named file, or the user's. -/
def settingsOf (i : Invocation) (d : Disk) (environment : Dictionary String String) :
    Except Trouble Settings :=
  match i.settings with
  | none => Settings.load d environment
  | some path =>
    match d.read? path with
    | some text => Settings.parse text
    | none => .error (.plain ("Failed to read settings " ++ path))

/-- The analysis in a file. -/
def readAnalysis (d : Disk) (path : String) : Except Fault Analysis :=
  match d.read? path with
  | some text => Analysis.parse text
  | none =>
    .error ((Fault.io "the file holds no text").inContext ("Failed to read saved analysis " ++ path))

/-- The disk with an analysis in a file. -/
def writeAnalysis (d : Disk) (path : String) (a : Analysis) : Except Fault Disk :=
  match d.write? path (.text a.text) with
  | some d => .ok d
  | none =>
    .error ((Fault.io "the file cannot be written").inContext "Failed to write saved analysis")

/-- The table of an input. -/
def readInput (d : Disk) (i : InputFile) : Except Trouble (String × Frame) :=
  match Csv.load d i.path with
  | .ok f => .ok (i.name, f)
  | .error f => .error (.within ("Failed to read input " ++ i.path) f)

/-- A session over inputs with the analysis that it is to replay. -/
def prepare (settings : Settings) (d : Disk) (analysis : String) (inputs : List InputFile) :
    Except Trouble (Session × Analysis) := do
  let a ← (readAnalysis d analysis).mapError .fault
  let tables ← inputs.mapM (readInput d)
  let s ← (Session.start settings tables).mapError .fault
  pure (s, a)

/-- What a command prints about a session that replayed an analysis. -/
def replayed (settings : Settings) (d : Disk) (analysis : String) (inputs : List InputFile)
    (report : Session → String) : Outcome :=
  match prepare settings d analysis inputs with
  | .error t => (.error t, d)
  | .ok (s, a) =>
    match s.load d a with
    | (.error f, d) => (.error (.within "Failed to replay saved analysis" f), d)
    | (.ok s, d) => (.ok (report s), d)

/-- The line about the size of a sheet. -/
def sizeLine (s : Sheet) : String :=
  s.name ++ "\t" ++ Decimal.natText s.frame.height ++ " rows\t" ++ Decimal.natText s.frame.width
    ++ " columns\n"

/-- The lines of a script, each ended. -/
def endedLines (s : Script) : String := String.join (s.lines.map fun line => line ++ "\n")

/-- Prints an upgraded analysis, or writes it to a file. -/
def upgraded (d : Disk) (analysis : String) (output : Option String) :
    Except Fault (String × Disk) := do
  let a ← (← readAnalysis d analysis).upgrade 0
  match output with
  | none => pure (a.text ++ "\n", d)
  | some path => pure ("", ← writeAnalysis d path a)

/-- Runs a command. -/
def Command.run (c : Command) (settings : Settings) (d : Disk) : Outcome :=
  match c with
  | .code analysis inputs comments verbatim =>
    let settings := { settings with optimizes := settings.optimizes && !verbatim }
    replayed settings d analysis inputs fun s =>
      if comments then s.script.commented else endedLines s.script
  | .upgrade analysis output =>
    match upgraded d analysis output with
    | .ok (text, d) => (.ok text, d)
    | .error f => (.error (.fault f), d)
  | .replay analysis inputs =>
    replayed settings d analysis inputs fun s => String.join (s.current.sheets.map sizeLine)

/-- Runs an invocation. -/
def Invocation.run (i : Invocation) (d : Disk) (environment : Dictionary String String) : Outcome :=
  match settingsOf i d environment with
  | .error t => (.error t, d)
  | .ok settings => i.command.run settings d

/-!
## Files of a command

  Which files a command may read and write, so that a front end knows what to put
  on the disk before it runs the command and what to take from it afterwards.
-/

/-- The file of the analysis. -/
def Command.analysis : Command → String
  | .code analysis .. | .upgrade analysis _ | .replay analysis _ => analysis

/-- The inputs of a command. -/
def Command.inputs : Command → List InputFile
  | .code _ inputs .. | .replay _ inputs => inputs
  | .upgrade .. => []

/-- The files that the words of an invocation name for reading. -/
def Invocation.namedFiles (i : Invocation) : List String :=
  i.settings.toList ++ i.command.analysis :: i.command.inputs.map InputFile.path

/-- The edits of the analysis on a disk, or none if it cannot be read. -/
def Invocation.edits (i : Invocation) (d : Disk) : List Edit :=
  let edits := do
    let a ← readAnalysis d i.command.analysis
    (← a.upgrade i.command.inputs.length).edits
  match edits with
  | .ok edits => edits
  | .error _ => []

/-- The files that an edit reads. -/
def importedFiles : Edit → List String
  | .importFiles e => e.files
  | _ => []

/-- The files that an edit writes. -/
def exportedFiles : Edit → List String
  | .exportSheets e => e.paths
  | _ => []

/-- The files that a command writes. -/
def Invocation.writtenFiles (i : Invocation) (d : Disk) : List String :=
  match i.command with
  | .upgrade _ output => output.toList
  | _ => (i.edits d).flatMap exportedFiles

/-- The files of a disk that another does not have or has with another content. -/
def changedFiles (before after : Disk) : List (String × FileContent) :=
  after.files.filter fun f => Dictionary.get? before.files f.1 != some f.2

/-- An invocation that takes the name of the settings file from the environment if
  the words do not say it. -/
def Invocation.withEnvironment (i : Invocation) (environment : Dictionary String String) :
    Invocation :=
  { i with settings := i.settings.or (Dictionary.get? environment "SHEETSTEP_SETTINGS") }

/-- The variables of the environment that matter. -/
def variableNames : List String :=
  ["SHEETSTEP_SETTINGS", "SHEETSTEP_OPTIMIZE_CODE", "SHEETSTEP_MAX_OPTIMIZER_PASSES",
   "SHEETSTEP_VERIFY_OPTIMIZATION", "SHEETSTEP_LOG_LEVEL", "SHEETSTEP_LOG_DIR"]

/-- A trouble with its cause below it. -/
def troubleReport (t : Trouble) : String :=
  match t with
  | .within task cause => "Error: " ++ task ++ "\n\nCaused by:\n    " ++ cause.message
  | t => "Error: " ++ t.message

end SheetScript.CommandLine
