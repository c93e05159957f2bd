import SheetScript.CommandLine.Usage

/-!
# Command-line arguments

  The words of a command line are read from left to right.  A value is checked
  only when the next argument has been understood, so a word that nobody expects
  is reported before a bad value in front of it.  Options before the verb are
  checked last of all.
-/

namespace SheetScript.CommandLine

/-! ### Words -/

/-- What a word can be. -/
inductive Word where
  /-- Two dashes, after which no word is an option. -/
  | separator
  | long (name : String) (value : Option String)
  | short (letters : List Char)
  | plain
  deriving DecidableEq, Repr

/-- Reads a word.  A single dash is a plain word. -/
def Word.ofChars : List Char → Word
  | ['-', '-'] => .separator
  | '-' :: '-' :: cs =>
    match cs.span (· ≠ '=') with
    | (name, []) => .long (String.ofList name) none
    | (name, _ :: value) => .long (String.ofList name) (some (String.ofList value))
  | '-' :: c :: cs => .short (c :: cs)
  | _ => .plain

/-! ### Values -/

/-- What the arguments of a place say. -/
structure Given where
  settings : Option String := none
  analysis : Option String := none
  inputs : List InputFile := []
  output : Option String := none
  comments : Bool := false
  verbatim : Bool := false
  deriving DecidableEq, Repr, Inhabited

/-- The value of an argument that may stand once and names a path. -/
def onlyPath (a : Argument) (old : Option String) (word : String) :
    Except UsageError (Option String) :=
  if old.isSome then .error (.repeated a)
  else if word.isEmpty then .error (.missingValue a)
  else .ok (some word)

/-- A flag that may stand once. -/
def onlyFlag (a : Argument) (old : Bool) : Except UsageError Bool :=
  if old then .error (.repeated a) else .ok true

/-- What is given after one more argument with its value. -/
def Given.add (g : Given) (place : Place) (a : Argument) (value : Option String) :
    Except UsageError Given :=
  match a, value with
  | .help, _ => .error (.help place)
  | .version, _ => .error .version
  | .comments, _ => do pure { g with comments := ← onlyFlag a g.comments }
  | .verbatim, _ => do pure { g with verbatim := ← onlyFlag a g.verbatim }
  | a, none => .error (.missingValue a)
  | .settings, some word => do pure { g with settings := ← onlyPath a g.settings word }
  | .analysis, some word => do pure { g with analysis := ← onlyPath a g.analysis word }
  | .output, some word => do pure { g with output := ← onlyPath a g.output word }
  | .inputs, some word =>
    match InputFile.parse? word with
    | some input => .ok { g with inputs := g.inputs ++ [input] }
    | none => .error (.malformedInput word)

/-! ### Reading words -/

/-- How far the words of a place have been read. -/
structure Scan where
  given : Given := {}
  /-- The last argument, which is not checked yet; its value may be still to come. -/
  waiting : Option (Argument × Option String) := none
  /-- A separator was read. -/
  separated : Bool := false
  deriving DecidableEq, Repr, Inhabited

namespace Scan

/-- The scan after a check of the argument that waits. -/
def settled (s : Scan) (place : Place) : Except UsageError Scan :=
  match s.waiting with
  | none => .ok s
  | some (a, value) => do
    pure { s with given := ← s.given.add place a value, waiting := none }

/-- The scan after an argument that is complete. -/
def add (s : Scan) (place : Place) (a : Argument) (value : Option String) :
    Except UsageError Scan := do
  let s ← s.settled place
  pure { s with given := ← s.given.add place a value }

/-- The scan with an argument that waits. -/
def await (s : Scan) (place : Place) (a : Argument) (value : Option String) :
    Except UsageError Scan := do
  pure { ← s.settled place with waiting := some (a, value) }

/-- Whether the file of the analysis has been read. -/
def hasAnalysis (s : Scan) : Bool :=
  s.given.analysis.isSome || (s.waiting.any fun w => w.1 = .analysis)

/-- The option whose value is the next plain word. -/
def wanting? (s : Scan) : Option Argument :=
  match s.waiting with
  | some (a, none) => if s.separated then none else some a
  | _ => none

/-- Reads an option by its name. -/
def long (s : Scan) (place : Place) (word name : String) (value : Option String) :
    Except UsageError Scan :=
  match Argument.ofLongName? place name with
  | none => .error (.unknownArgument word)
  | some a =>
    match a.takesValue, value with
    | true, none => s.await place a none
    | false, some value => .error (.unexpectedValue a value)
    | _, value => s.add place a value

/-- Reads options by their letters.  What follows the letter of an option that
  takes a value is the value, with an equals sign in front of it or without. -/
def short (s : Scan) (place : Place) (word : String) : List Char → Except UsageError Scan
  | [] => .ok s
  | c :: rest =>
    match Argument.ofLetter? place c with
    | none => .error (.unknownArgument word)
    | some a =>
      if a.takesValue then
        match rest with
        | [] => s.await place a none
        | '=' :: value => s.add place a (some (String.ofList value))
        | value => s.add place a (some (String.ofList value))
      else do (← s.add place a none).short place word rest

/-- Reads a word that is no option.  It is the file of the analysis if that was not
  read yet; before the verb nothing fits. -/
def positional (s : Scan) (place : Place) (word : String) : Except UsageError Scan :=
  match place with
  | none =>
    if s.separated && (word = "help" || (Verb.ofName? word).isSome) then
      .error (.unknownArgument word)
    else .error (.unknownVerb word)
  | some _ =>
    if s.hasAnalysis then .error (.unknownArgument word)
    else s.await place .analysis (some word)

/-- Reads a word. -/
def read (place : Place) (s : Scan) (word : String) : Except UsageError Scan :=
  if s.separated then s.positional place word
  else
    match Word.ofChars word.toList with
    | .separator => .ok { s with separated := true }
    | .long name value => s.long place word name value
    | .short letters => s.short place word letters
    | .plain =>
      match s.wanting? with
      | some a => .ok { s with waiting := some (a, some word) }
      | none => s.positional place word

end Scan

/-! ### Command lines -/

/-- What the words behind `help` ask for. -/
def helpFor : List String → UsageError
  | [] => .help none
  | word :: rest =>
    if word = "help" || (Verb.ofName? word).isSome then
      match rest with
      | [] => .help (Verb.ofName? word)
      | next :: _ => .unknownVerb next
    else .unknownVerb word

/-- The command of a verb and what its arguments say. -/
def Given.command (g : Given) (v : Verb) : Except UsageError Command :=
  match g.analysis with
  | none => .error .missingAnalysis
  | some analysis =>
    .ok (match v with
      | .code => .code analysis g.inputs g.comments g.verbatim
      | .upgrade => .upgrade analysis g.output
      | .replay => .replay analysis g.inputs)

/-- The invocation of a verb and the words behind it, after a scan of those before
  it.  Settings that are named behind the verb replace those named before it. -/
def invocation (before : Scan) (v : Verb) (words : List String) : Except UsageError Invocation := do
  let behind ← words.foldlM (Scan.read (some v)) {}
  let behind := (← behind.settled (some v)).given
  let command ← behind.command v
  let before := (← before.settled none).given
  pure ⟨behind.settings.or before.settings, command⟩

/-- The invocation that words ask for, after a scan of some words before a verb. -/
def Invocation.parseFrom (s : Scan) : List String → Except UsageError Invocation
  | [] => do
    let s ← s.settled none
    throw (if s.given.settings.isSome then .missingVerb else .empty)
  | word :: rest =>
    let mayBeVerb := !s.separated && s.wanting?.isNone
    if mayBeVerb && word = "help" then .error (helpFor rest)
    else
      match if mayBeVerb then Verb.ofName? word else none with
      | some v => invocation s v rest
      | none => do Invocation.parseFrom (← s.read none word) rest

/-- The invocation that words ask for. -/
def Invocation.parse (words : List String) : Except UsageError Invocation :=
  Invocation.parseFrom {} words

end SheetScript.CommandLine
