import SheetScript.Analysis.Basic
import SheetScript.Analysis.Encoding
import SheetScript.Analysis.Translator
import SheetScript.Analysis.Upgrade
import SheetScript.Calendar
import SheetScript.Chunk.Basic
import SheetScript.Chunk.Footprint
import SheetScript.ColumnIds
import SheetScript.CommandLine.Arguments
import SheetScript.CommandLine.Run
import SheetScript.CommandLine.Usage
import SheetScript.Csv
import SheetScript.Decimal.Shortest
import SheetScript.Decimal.Text
import SheetScript.Dictionary
import SheetScript.Disk
import SheetScript.Edit.Basic
import SheetScript.Edit.Columns
import SheetScript.Edit.Encoding
import SheetScript.Edit.Files
import SheetScript.Edit.LegacyHeaders
import SheetScript.Edit.Merge
import SheetScript.Edit.OneHot
import SheetScript.Edit.Pivot
import SheetScript.Edit.Retype
import SheetScript.Edit.Rows
import SheetScript.Edit.Sheets
import SheetScript.Fault
import SheetScript.Filter.Basic
import SheetScript.Filter.Condition
import SheetScript.Filter.Encoding
import SheetScript.Filter.Mask
import SheetScript.Format.Basic
import SheetScript.Format.Encoding
import SheetScript.Formula.Basic
import SheetScript.Formula.Code
import SheetScript.Formula.Evaluation
import SheetScript.Formula.Parser
import SheetScript.Formula.Reference
import SheetScript.Formula.Token
import SheetScript.Json.Number
import SheetScript.Json.Printer
import SheetScript.Json.Reader
import SheetScript.Json.Record
import SheetScript.Json.Value
import SheetScript.Literal
import SheetScript.Main
import SheetScript.Naming
import SheetScript.Optimizer.Basic
import SheetScript.Proofs.Analysis.Alignment
import SheetScript.Proofs.Analysis.Canonical
import SheetScript.Proofs.Analysis.Completeness
import SheetScript.Proofs.Analysis.Defaults
import SheetScript.Proofs.Analysis.Offline
import SheetScript.Proofs.Analysis.Room
import SheetScript.Proofs.Analysis.Saving
import SheetScript.Proofs.Assignments
import SheetScript.Proofs.Branching
import SheetScript.Proofs.Captures
import SheetScript.Proofs.Collections
import SheetScript.Proofs.ColumnIds
import SheetScript.Proofs.Comments
import SheetScript.Proofs.Coverage.Steps
import SheetScript.Proofs.Decimal
import SheetScript.Proofs.Desk.Alike
import SheetScript.Proofs.Desk.Basic
import SheetScript.Proofs.Desk.Commuting
import SheetScript.Proofs.Desk.Elsewhere
import SheetScript.Proofs.Desk.Exchange
import SheetScript.Proofs.Desk.Faults
import SheetScript.Proofs.Desk.Locality
import SheetScript.Proofs.Desk.Patches
import SheetScript.Proofs.Desk.Simulation
import SheetScript.Proofs.Edit.Basic
import SheetScript.Proofs.Edit.Columns
import SheetScript.Proofs.Edit.Decoding
import SheetScript.Proofs.Edit.Encoding
import SheetScript.Proofs.Edit.LegacyHeaders
import SheetScript.Proofs.Edit.Merge
import SheetScript.Proofs.Edit.Pivot
import SheetScript.Proofs.Edit.PivotHeaders
import SheetScript.Proofs.Edit.Retype
import SheetScript.Proofs.Edit.Sheets
import SheetScript.Proofs.Edit.Tables
import SheetScript.Proofs.Edit.UniqueMerge
import SheetScript.Proofs.Emission
import SheetScript.Proofs.Exports
import SheetScript.Proofs.Expression.Structure
import SheetScript.Proofs.Filter.Grammar
import SheetScript.Proofs.Filter.Phrase
import SheetScript.Proofs.Filter.Reading
import SheetScript.Proofs.Filter.Rows
import SheetScript.Proofs.Filter.Values
import SheetScript.Proofs.Formula.References
import SheetScript.Proofs.IssuedIds
import SheetScript.Proofs.Json.Reading
import SheetScript.Proofs.Json.Records
import SheetScript.Proofs.LegacyImports
import SheetScript.Proofs.Literals.Paths
import SheetScript.Proofs.Literals.Values
import SheetScript.Proofs.Optimizer.Bodies
import SheetScript.Proofs.Optimizer.Cancelling
import SheetScript.Proofs.Optimizer.Convergence
import SheetScript.Proofs.Optimizer.Equivalence
import SheetScript.Proofs.Optimizer.Interference
import SheetScript.Proofs.Optimizer.Overlooked
import SheetScript.Proofs.Optimizer.Passes
import SheetScript.Proofs.Optimizer.Rules
import SheetScript.Proofs.Optimizer.Shortening
import SheetScript.Proofs.Optimizer.Verification
import SheetScript.Proofs.Playback
import SheetScript.Proofs.Reload
import SheetScript.Proofs.Reshaping
import SheetScript.Proofs.RestrictedHeaders
import SheetScript.Proofs.Session
import SheetScript.Proofs.State.Invariant
import SheetScript.Proofs.StepIds
import SheetScript.Proofs.Symbolic.Hashing
import SheetScript.Proofs.Table.Aggregation
import SheetScript.Proofs.Table.Groups
import SheetScript.Proofs.Table.Join
import SheetScript.Proofs.Undoing
import SheetScript.Proofs.Untouched
import SheetScript.Proofs.Workbook.Address
import SheetScript.Proofs.Workbook.Formatting
import SheetScript.Proofs.Workbook.Rules
import SheetScript.Script
import SheetScript.Session
import SheetScript.Settings
import SheetScript.Sheet
import SheetScript.State
import SheetScript.Step
import SheetScript.Styler
import SheetScript.Symbolic.Machine
import SheetScript.Symbolic.Verification
import SheetScript.Table.Aggregation
import SheetScript.Table.Cell
import SheetScript.Table.Frame
import SheetScript.Table.Join
import SheetScript.Table.Operand
import SheetScript.Table.Pattern
import SheetScript.Text.Case
import SheetScript.Text.Character
import SheetScript.Text.Printable
import SheetScript.Workbook.Address
import SheetScript.Workbook.Code
import SheetScript.Workbook.Plan
