import SmallLisp.CommandLine.Options
import SmallLisp.CommandLine.Program
import SmallLisp.CommandLine.Repl
import SmallLisp.Console
import SmallLisp.Editor.Index
import SmallLisp.Editor.Position
import SmallLisp.Editor.Signature
import SmallLisp.Editor.Workspace
import SmallLisp.Environment
import SmallLisp.Error
import SmallLisp.Eval.Evaluate
import SmallLisp.Eval.Forms
import SmallLisp.Eval.Primitives
import SmallLisp.Eval.Run
import SmallLisp.Files.Path
import SmallLisp.Files.Tree
import SmallLisp.Interpreter
import SmallLisp.Journal
import SmallLisp.Json.Basic
import SmallLisp.Json.Printer
import SmallLisp.Json.Reader
import SmallLisp.LineServer
import SmallLisp.Log
import SmallLisp.Main
import SmallLisp.Number.Binary64
import SmallLisp.Number.Integer
import SmallLisp.Number.Literal
import SmallLisp.Number.Shortest
import SmallLisp.Primitive
import SmallLisp.Proofs.CommandLine.Segments
import SmallLisp.Proofs.CommandLine.Status
import SmallLisp.Proofs.Editor.Definitions
import SmallLisp.Proofs.Editor.Entries
import SmallLisp.Proofs.Editor.History
import SmallLisp.Proofs.Editor.Words
import SmallLisp.Proofs.Environment.History
import SmallLisp.Proofs.Eval.Adequacy
import SmallLisp.Proofs.Eval.ArgumentBinding
import SmallLisp.Proofs.Eval.Arithmetic
import SmallLisp.Proofs.Eval.Bounded
import SmallLisp.Proofs.Eval.Comparison
import SmallLisp.Proofs.Eval.Effect
import SmallLisp.Proofs.Eval.Faults
import SmallLisp.Proofs.Eval.FrameEffect
import SmallLisp.Proofs.Eval.NaturalSemantics
import SmallLisp.Proofs.Eval.Ownership
import SmallLisp.Proofs.Eval.Parts
import SmallLisp.Proofs.Eval.PrintedClosure
import SmallLisp.Proofs.Eval.Reachable
import SmallLisp.Proofs.Eval.Renaming
import SmallLisp.Proofs.Eval.Repetition
import SmallLisp.Proofs.Eval.Simulation
import SmallLisp.Proofs.Eval.StackLimit
import SmallLisp.Proofs.Eval.Steady
import SmallLisp.Proofs.Eval.Streams
import SmallLisp.Proofs.Eval.Subevaluation
import SmallLisp.Proofs.Eval.UsedFiles
import SmallLisp.Proofs.Eval.Weakening
import SmallLisp.Proofs.Files.Names
import SmallLisp.Proofs.Files.Paths
import SmallLisp.Proofs.Interpreter.Composition
import SmallLisp.Proofs.Interpreter.Faults
import SmallLisp.Proofs.Interpreter.Isolation
import SmallLisp.Proofs.Interpreter.Loading
import SmallLisp.Proofs.Interpreter.Sessions
import SmallLisp.Proofs.Json.Limits
import SmallLisp.Proofs.Json.RoundTrip
import SmallLisp.Proofs.LineServer.Framing
import SmallLisp.Proofs.LineServer.Replies
import SmallLisp.Proofs.Number.Decimal
import SmallLisp.Proofs.Number.Grammar
import SmallLisp.Proofs.Number.Numeral
import SmallLisp.Proofs.Number.Rounding
import SmallLisp.Proofs.Reader.ErrorPlace
import SmallLisp.Proofs.Reader.Extension
import SmallLisp.Proofs.Reader.Grammar
import SmallLisp.Proofs.Reader.Layout
import SmallLisp.Proofs.Reader.Lines
import SmallLisp.Proofs.Reader.Lookahead
import SmallLisp.Proofs.Reader.Progress
import SmallLisp.Proofs.Reader.Readable
import SmallLisp.Proofs.Reader.RoundTrip
import SmallLisp.Proofs.Reader.SameText
import SmallLisp.Proofs.Reader.Scan
import SmallLisp.Proofs.Store.Closed
import SmallLisp.Proofs.Store.Frames
import SmallLisp.Proofs.Store.Hiding
import SmallLisp.Proofs.Store.Identities
import SmallLisp.Proofs.Store.Ownership
import SmallLisp.Proofs.Store.Renaming
import SmallLisp.Proofs.Store.Roots
import SmallLisp.Proofs.Text.Boundaries
import SmallLisp.Proofs.Text.Lines
import SmallLisp.Proofs.Value.Alike
import SmallLisp.Reader.Cursor
import SmallLisp.Reader.Form
import SmallLisp.Reader.Lookahead
import SmallLisp.Reader.Token
import SmallLisp.Settings
import SmallLisp.Store
import SmallLisp.Table
import SmallLisp.Text.Basic
import SmallLisp.Text.Blank
import SmallLisp.Text.Digit
import SmallLisp.Text.Lines
import SmallLisp.Text.Printable
import SmallLisp.Text.Quoted
import SmallLisp.Text.Utf8
import SmallLisp.Value.Basic
import SmallLisp.Value.Equality
import SmallLisp.Value.Printer
