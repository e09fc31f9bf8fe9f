import FlatScript.Analysis.Analyze
import FlatScript.Analysis.Calls
import FlatScript.Analysis.Report
import FlatScript.Analysis.Scan
import FlatScript.Builtin
import FlatScript.Decimal.Basic
import FlatScript.Decimal.Numeral
import FlatScript.Decimal.Shortest
import FlatScript.Decimal.Whole
import FlatScript.Double.Arithmetic
import FlatScript.Double.Basic
import FlatScript.Double.Elementary
import FlatScript.Eval.Condition
import FlatScript.Eval.Exec
import FlatScript.Eval.Expr
import FlatScript.Eval.Machine
import FlatScript.Fault
import FlatScript.Flat
import FlatScript.Json
import FlatScript.Overwrite
import FlatScript.Proofs.BitPattern
import FlatScript.Proofs.Cause
import FlatScript.Proofs.Chain
import FlatScript.Proofs.Classification
import FlatScript.Proofs.Commute
import FlatScript.Proofs.Comparison
import FlatScript.Proofs.Contents
import FlatScript.Proofs.Definedness
import FlatScript.Proofs.Desugar
import FlatScript.Proofs.Display
import FlatScript.Proofs.Ending
import FlatScript.Proofs.Failure
import FlatScript.Proofs.FlatForms
import FlatScript.Proofs.ForeignKinds
import FlatScript.Proofs.Frame
import FlatScript.Proofs.Grammar
import FlatScript.Proofs.History
import FlatScript.Proofs.Host
import FlatScript.Proofs.Isolation
import FlatScript.Proofs.LastWrite
import FlatScript.Proofs.Literals
import FlatScript.Proofs.Log
import FlatScript.Proofs.Loop
import FlatScript.Proofs.LoopRuns
import FlatScript.Proofs.LoopTrace
import FlatScript.Proofs.Native
import FlatScript.Proofs.Noninterference
import FlatScript.Proofs.NumericForm
import FlatScript.Proofs.NumericText
import FlatScript.Proofs.Overwriting
import FlatScript.Proofs.Parts
import FlatScript.Proofs.Pieces
import FlatScript.Proofs.Provenance
import FlatScript.Proofs.Reading
import FlatScript.Proofs.Remainder
import FlatScript.Proofs.Rename
import FlatScript.Proofs.Reports
import FlatScript.Proofs.RoundTrip
import FlatScript.Proofs.Rounding
import FlatScript.Proofs.SelfCalls
import FlatScript.Proofs.SourceParser
import FlatScript.Proofs.Strictness
import FlatScript.Proofs.Unconditional
import FlatScript.Proofs.UnknownFields
import FlatScript.Proofs.Variant
import FlatScript.Schema.Decode
import FlatScript.Schema.Issue
import FlatScript.Schema.Model
import FlatScript.Schema.Node
import FlatScript.Schema.Print
import FlatScript.Schema.Tree
import FlatScript.Session
import FlatScript.SourceText
import FlatScript.Spelled
import FlatScript.Store
import FlatScript.Syntax.Condition
import FlatScript.Syntax.Expr
import FlatScript.Syntax.Program
import FlatScript.Syntax.Source
import FlatScript.Syntax.Stmt
import FlatScript.Text.Blank
import FlatScript.Text.Digit
import FlatScript.Text.Printable
import FlatScript.Text.Quoted
import FlatScript.Value
