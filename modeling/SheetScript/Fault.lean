/-!
# Faults

  Why an edit, an analysis or a command was refused.  A fault has a kind, which
  a front end acts on, and a text for the user; context put in front of the text
  keeps the kind where the kind says something about the cause.
-/

namespace SheetScript

/-- Why running an edit on the data failed. -/
inductive ExecutionKind where
  /-- A column that the edit needs is not there. -/
  | missingColumn
  /-- Values do not have the required type. -/
  | typeMismatch
  /-- A file could not be reached. -/
  | connectionFailure
  /-- A header that the edit would create exists already. -/
  | duplicateValue
  /-- The formula cannot be read or evaluated. -/
  | formulaError
  | unknown
  deriving DecidableEq, Repr

/-- The identifier of a kind. -/
def ExecutionKind.name : ExecutionKind → String
  | .missingColumn => "missing_column"
  | .typeMismatch => "type_mismatch"
  | .connectionFailure => "connection_failure"
  | .duplicateValue => "duplicate_value"
  | .formulaError => "formula_error"
  | .unknown => "unknown"

/-- Every kind of failure. -/
def ExecutionKind.all : List ExecutionKind :=
  [.missingColumn, .typeMismatch, .connectionFailure, .duplicateValue, .formulaError, .unknown]

/-- What table operations complain about. -/
inductive TableError where
  | columnNotFound
  | schemaFieldNotFound
  | structFieldNotFound
  | schemaMismatch
  | invalidOperation
  | duplicate
  | compute
  | shape
  | outOfBounds
  | noData
  | file
  deriving DecidableEq, Repr

/-- The kind of failure that a complaint about a table amounts to. -/
def TableError.kind : TableError → ExecutionKind
  | .columnNotFound | .schemaFieldNotFound | .structFieldNotFound => .missingColumn
  | .schemaMismatch | .invalidOperation => .typeMismatch
  | .duplicate => .duplicateValue
  | .file => .connectionFailure
  | .compute | .shape | .outOfBounds | .noData => .unknown

/-- The words of a complaint about a table. -/
def TableError.text : TableError → String
  | .columnNotFound => "no column of this name"
  | .schemaFieldNotFound => "no field of this name in the schema"
  | .structFieldNotFound => "no field of this name in the record"
  | .schemaMismatch => "the types of the columns differ"
  | .invalidOperation => "the operation does not apply to these types"
  | .duplicate => "the column name is used twice"
  | .compute => "the values cannot be computed"
  | .shape => "the columns differ in length"
  | .outOfBounds => "the index lies outside the table"
  | .noData => "there is nothing to read"
  | .file => "the file cannot be reached"

/-- Why something was refused. -/
inductive Fault where
  /-- The parameters do not fit the state; nothing ran. -/
  | invalidParams (text : String)
  /-- The data could not be changed as asked. -/
  | execution (kind : ExecutionKind) (text : String)
  /-- A saved analysis cannot be brought up to date. -/
  | upgrade (text : String)
  /-- Shortened code would not leave the same tables behind. -/
  | invariant (text : String)
  /-- No step has this name. -/
  | unknownStep (name : String)
  /-- A file could not be read or written. -/
  | io (text : String)
  /-- A text is not the JSON that is expected. -/
  | serialization (text : String)
  | other (text : String)
  deriving DecidableEq, Repr

namespace Fault

/-- A complaint about a table as a fault. -/
def ofTable (e : TableError) : Fault := .execution e.kind e.text

/-- The identifier of the fault's kind. -/
def kind : Fault → String
  | .invalidParams _ => "invalid_params"
  | .execution k _ => k.name
  | .upgrade _ => "upgrade_error"
  | .invariant _ => "optimization_invariant_violation"
  | .unknownStep _ => "unknown_step"
  | .io _ => "io_error"
  | .serialization _ => "serialization_error"
  | .other _ => "unknown"

/-- The text for the user. -/
def message : Fault → String
  | .invalidParams text => "Invalid params: " ++ text
  | .execution k text => "Execution error (" ++ k.name ++ "): " ++ text
  | .upgrade text => "Upgrade error: " ++ text
  | .invariant text => "Optimization invariant violated: " ++ text
  | .unknownStep name => "Unknown step type: " ++ name
  | .io text => "I/O error: " ++ text
  | .serialization text => "Serialization error: " ++ text
  | .other text => text

/-- Whether a report carries a trace for developers. -/
def hasTrace : Fault → Bool
  | .io _ => true
  | _ => false

/-- The fault with context in front of its text. -/
def inContext (context : String) : Fault → Fault
  | .invalidParams text => .invalidParams (context ++ ": " ++ text)
  | .execution k text => .execution k (context ++ ": " ++ text)
  | .upgrade text => .upgrade (context ++ ": " ++ text)
  | .invariant text => .invariant (context ++ ": " ++ text)
  | fault => .other (context ++ ": " ++ fault.message)

end Fault

/-- Why a command or the settings failed: a fault, a fault within a wider task,
  or a plain complaint. -/
inductive Trouble where
  | fault (cause : Fault)
  | within (task : String) (cause : Fault)
  | plain (text : String)
  deriving DecidableEq, Repr

/-- The outermost text of a trouble. -/
def Trouble.message : Trouble → String
  | .fault cause => cause.message
  | .within task _ => task
  | .plain text => text

/-- A trouble as the fault of a session. -/
def Trouble.toFault (t : Trouble) : Fault := .other t.message

end SheetScript
