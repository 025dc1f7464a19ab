import ScriptTypes.Assoc
import ScriptTypes.Layout
import ScriptTypes.Text.Blank
import ScriptTypes.Text.Bytes
import ScriptTypes.Text.Distance
import ScriptTypes.Text.Escape
import ScriptTypes.Text.Identifier
import ScriptTypes.Text.Json
import ScriptTypes.Text.LowerCase
import ScriptTypes.Text.Quoted
import ScriptTypes.Number.Magnitude
import ScriptTypes.Number.Shortest
import ScriptTypes.Source.Span
import ScriptTypes.Source.File
import ScriptTypes.Token.Lexer
import ScriptTypes.Script.Tree
import ScriptTypes.Script.Parser
import ScriptTypes.Ty.Basic
import ScriptTypes.Ty.Binding
import ScriptTypes.Ty.Supply
import ScriptTypes.Ty.Printer
import ScriptTypes.Annotation.Parser
import ScriptTypes.Annotation.Match
import ScriptTypes.Unify.Solver
import ScriptTypes.Unify.Requirements
import ScriptTypes.Typing.Scope
import ScriptTypes.Typing.Checking
import ScriptTypes.Typing.Infer
import ScriptTypes.Diagnostic.Explain
import ScriptTypes.Diagnostic.Report
import ScriptTypes.Program
import ScriptTypes.Command
import ScriptTypes.Main
import ScriptTypes.Proofs.Except
import ScriptTypes.Proofs.Source.Span
import ScriptTypes.Proofs.Unify.Solver
import ScriptTypes.Proofs.Unify.Requirements
import ScriptTypes.Proofs.Typing.Soundness
import ScriptTypes.Proofs.Typing.Completeness
import ScriptTypes.Proofs.Ty.Renaming
import ScriptTypes.Proofs.Ty.Copies
import ScriptTypes.Proofs.Ty.Rows
import ScriptTypes.Proofs.Ty.Kinds
import ScriptTypes.Proofs.Ty.Over
import ScriptTypes.Proofs.Unify.Machine
import ScriptTypes.Proofs.Unify.Shape
import ScriptTypes.Proofs.Typing.Ensures
import ScriptTypes.Proofs.Annotation.Shape
import ScriptTypes.Proofs.Typing.InPlace
import ScriptTypes.Proofs.Typing.Over
import ScriptTypes.Proofs.Typing.Canonical
import ScriptTypes.Proofs.Unify.Termination
import ScriptTypes.Proofs.Ty.Opening
import ScriptTypes.Proofs.Unify.Records
import ScriptTypes.Proofs.Ty.Substitution
import ScriptTypes.Proofs.Ty.Relabel
import ScriptTypes.Proofs.Unify.Relabel
import ScriptTypes.Proofs.Typing.Simulation
import ScriptTypes.Proofs.Typing.OwnName
import ScriptTypes.Proofs.Script.Rename
import ScriptTypes.Proofs.Typing.Regions
import ScriptTypes.Proofs.Typing.Calls
import ScriptTypes.Proofs.Typing.Stopping
import ScriptTypes.Proofs.Typing.Asking
import ScriptTypes.Proofs.Typing.Freshness
import ScriptTypes.Proofs.Typing.Places
import ScriptTypes.Proofs.Typing.BoundNames
import ScriptTypes.Proofs.Token.Lossless
import ScriptTypes.Proofs.Script.Cursor
import ScriptTypes.Proofs.Script.Descent
import ScriptTypes.Proofs.Script.Frame
import ScriptTypes.Proofs.Script.TemplateEnd
import ScriptTypes.Proofs.Script.Templates
import ScriptTypes.Proofs.Annotation.Documents
import ScriptTypes.Proofs.Annotation.Printed
import ScriptTypes.Proofs.Annotation.Instances
import ScriptTypes.Proofs.Annotation.RoundTrip
import ScriptTypes.Proofs.Unify.Triangular
import ScriptTypes.Proofs.Unify.KindsApart
import ScriptTypes.Proofs.Script.Marks
import ScriptTypes.Proofs.Script.Spanning
import ScriptTypes.Proofs.Script.Inside
import ScriptTypes.Proofs.Typing.BackReferences
import ScriptTypes.Proofs.Diagnostic.Labels
import ScriptTypes.Proofs.Script.Operands
import ScriptTypes.Proofs.Script.Printed
import ScriptTypes.Proofs.Script.ReadBack
import ScriptTypes.Proofs.Script.Reparsed
import ScriptTypes.Proofs.Script.Numbering
import ScriptTypes.Proofs.Script.SpanNesting
import ScriptTypes.Proofs.Script.Precedence
import ScriptTypes.Proofs.Typing.Resolution
import ScriptTypes.Proofs.Script.Trim
import ScriptTypes.Proofs.Typing.EarlyReturn
import ScriptTypes.Proofs.Typing.Listing
import ScriptTypes.Proofs.Script.Names
import ScriptTypes.Proofs.Annotation.ShownLabels
import ScriptTypes.Proofs.Ty.Register
import ScriptTypes.Proofs.Token.Literal
import ScriptTypes.Proofs.Token.ModeStack
import ScriptTypes.Proofs.Script.Progress
import ScriptTypes.Proofs.Ty.Merge
import ScriptTypes.Proofs.Token.Identifier
