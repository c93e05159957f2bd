import SheetScript.Text.Character

/-!
# Usage

  The arguments that each verb takes, and why the words of a command line may not
  amount to a command.  Asking for help or for the version is among the reasons.
-/

/-!
## Invocations

  What a command line asks for: to print the script of a saved analysis, to
  upgrade it, or to replay it and print the sizes of its sheets.
-/

namespace SheetScript.CommandLine

/-- A named table in a file, written `name=path`. -/
structure InputFile where
  name : String
  path : String
  deriving DecidableEq, Repr, Inhabited

/-- Reads a named table.  The first equals sign ends the name, and neither side
  may be blank. -/
def InputFile.parse? (word : String) : Option InputFile :=
  match word.toList.span (· ≠ '=') with
  | (_, []) => none
  | (name, _ :: path) =>
    let name := Text.trimList name
    let path := Text.trimList path
    if name.isEmpty || path.isEmpty then none
    else some ⟨String.ofList name, String.ofList path⟩

/-- What a command does. -/
inductive Verb where
  | code
  | upgrade
  | replay
  deriving DecidableEq, Repr, Inhabited

namespace Verb

/-- Every verb. -/
def all : List Verb := [.code, .upgrade, .replay]

/-- The word for a verb. -/
def name : Verb → String
  | .code => "code"
  | .upgrade => "upgrade"
  | .replay => "replay"

/-- The verb of a word. -/
def ofName? (word : String) : Option Verb := all.find? fun v => v.name == word

end Verb

/-- What is to be done with a saved analysis. -/
inductive Command where
  /-- Prints the script; with comments each chunk is described, and verbatim it is
    not shortened. -/
  | code (analysis : String) (inputs : List InputFile) (comments verbatim : Bool)
  /-- Prints the analysis in the current format, or writes it to a file. -/
  | upgrade (analysis : String) (output : Option String)
  /-- Prints the size of every sheet in the end. -/
  | replay (analysis : String) (inputs : List InputFile)
  deriving DecidableEq, Repr, Inhabited

/-- A command with the settings file that it uses, if one is named. -/
structure Invocation where
  settings : Option String := none
  command : Command
  deriving DecidableEq, Repr, Inhabited

/-! ## Arguments and refusals -/

/-- An argument. -/
inductive Argument where
  | settings
  /-- The file of the analysis, which is given by its place. -/
  | analysis
  | inputs
  | output
  | comments
  | verbatim
  | help
  | version
  deriving DecidableEq, Repr, Inhabited

/-- Where an argument stands: behind a verb, or before any. -/
abbrev Place := Option Verb

namespace Argument

/-- The arguments that may stand in a place. -/
def allowed : Place → List Argument
  | none => [.settings, .help, .version]
  | some .code => [.analysis, .inputs, .comments, .verbatim, .settings, .help]
  | some .upgrade => [.analysis, .output, .settings, .help]
  | some .replay => [.analysis, .inputs, .settings, .help]

/-- The name behind two dashes. -/
def longName? : Argument → Option String
  | .settings => some "settings"
  | .analysis => none
  | .inputs => some "input"
  | .output => some "output"
  | .comments => some "comments"
  | .verbatim => some "no-optimize"
  | .help => some "help"
  | .version => some "version"

/-- The letter behind one dash. -/
def letter? : Argument → Option Char
  | .inputs => some 'i'
  | .output => some 'o'
  | .help => some 'h'
  | .version => some 'V'
  | .settings | .analysis | .comments | .verbatim => none

/-- Whether a value belongs to the argument. -/
def takesValue : Argument → Bool
  | .settings | .analysis | .inputs | .output => true
  | .comments | .verbatim | .help | .version => false

/-- The argument of a name. -/
def ofLongName? (place : Place) (name : String) : Option Argument :=
  (allowed place).find? fun a => a.longName? == some name

/-- The argument of a letter. -/
def ofLetter? (place : Place) (letter : Char) : Option Argument :=
  (allowed place).find? fun a => a.letter? == some letter

/-- How the argument is written. -/
def shown : Argument → String
  | .settings => "--settings <SETTINGS>"
  | .analysis => "<ANALYSIS>"
  | .inputs => "--input <INPUTS>"
  | .output => "--output <OUTPUT>"
  | .comments => "--comments"
  | .verbatim => "--no-optimize"
  | .help => "--help"
  | .version => "--version"

/-- What the argument is for. -/
def purpose : Argument → String
  | .settings => "Settings file to use instead of the per-user one"
  | .analysis => "Saved analysis JSON file"
  | .inputs => "Input dataframe as name=path.csv (repeatable)"
  | .output => "Write the upgraded analysis here instead of stdout"
  | .comments => "Precede each chunk with a comment describing it"
  | .verbatim => "Emit every chunk as generated, without optimizing"
  | .help => "Print help"
  | .version => "Print version"

end Argument

/-- Why words are not a command. -/
inductive UsageError where
  /-- Help was asked for. -/
  | help (place : Place)
  /-- The version was asked for. -/
  | version
  /-- There are no words, so help is shown. -/
  | empty
  | missingVerb
  | unknownVerb (word : String)
  | unknownArgument (word : String)
  /-- A value stands at an argument that takes none. -/
  | unexpectedValue (argument : Argument) (value : String)
  | missingValue (argument : Argument)
  /-- An input is not written as a name and a path. -/
  | malformedInput (word : String)
  | repeated (argument : Argument)
  | missingAnalysis
  deriving DecidableEq, Repr, Inhabited

/-- The name of the program. -/
def programName : String := "sheetstep"

/-- The line that names the program and its version. -/
def versionLine : String := programName ++ " 0.4.0"

namespace Verb

/-- What a verb is for. -/
def purpose : Verb → String
  | .code => "Print the script a saved analysis generates"
  | .upgrade => "Print a saved analysis upgraded to the current format"
  | .replay => "Replay a saved analysis and print the shape of every sheet"

end Verb

/-- How a command line is written. -/
def usageLine : Place → String
  | none => "Usage: " ++ programName ++ " [OPTIONS] <COMMAND>"
  | some v => "Usage: " ++ programName ++ " " ++ v.name ++ " [OPTIONS] <ANALYSIS>"

/-- A line of a list in a help text. -/
def entry (name purpose : String) : String :=
  "  " ++ name ++ String.ofList (List.replicate (24 - name.length) ' ') ++ "  " ++ purpose

/-- The name of an argument in a help text. -/
def Argument.heading (a : Argument) : String :=
  match a.letter? with
  | some c => "-" ++ String.singleton c ++ ", " ++ a.shown
  | none => a.shown

/-- The help text for a place. -/
def helpText (place : Place) : String :=
  let options := "Options:" :: (Argument.allowed place).filterMap fun a =>
    if a = .analysis then none else some (entry a.heading a.purpose)
  let first := match place with
    | none => ["Replay spreadsheet edits as pandas code", "", usageLine place, "", "Commands:"]
        ++ Verb.all.map fun v => entry v.name v.purpose
    | some v => [v.purpose, "", usageLine place, "", "Arguments:",
        entry Argument.analysis.shown Argument.analysis.purpose]
  "\n".intercalate (first ++ "" :: options)

namespace UsageError

/-- Whether the text answers a question of the user. -/
def isAnswer : UsageError → Bool
  | .help _ | .version => true
  | _ => false

/-- The complaint of a misuse. -/
def complaint : UsageError → String
  | .help _ | .version | .empty => ""
  | .missingVerb => "'" ++ programName ++ "' requires a subcommand but one was not provided"
  | .unknownVerb word => "unrecognized subcommand '" ++ word ++ "'"
  | .unknownArgument word => "unexpected argument '" ++ word ++ "' found"
  | .unexpectedValue a value =>
    "unexpected value '" ++ value ++ "' for '" ++ a.shown ++ "' found; no more were expected"
  | .missingValue a => "a value is required for '" ++ a.shown ++ "' but none was supplied"
  | .malformedInput word =>
    "invalid value '" ++ word ++ "' for '" ++ Argument.inputs.shown ++ "': expected name=path, got '"
      ++ word ++ "'"
  | .repeated a => "the argument '" ++ a.shown ++ "' cannot be used multiple times"
  | .missingAnalysis =>
    "the following required arguments were not provided:\n  " ++ Argument.analysis.shown

/-- The text for the user. -/
def message : UsageError → String
  | .help place => helpText place
  | .version => versionLine
  | .empty => helpText none
  | e => "error: " ++ e.complaint ++ "\n\nFor more information, try '--help'."

end UsageError

end SheetScript.CommandLine
