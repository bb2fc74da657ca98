import LineTrace.Command.Helper
import LineTrace.Command.Launch
import LineTrace.Command.Lookup
import LineTrace.Command.Version
import LineTrace.CommandLine.App
import LineTrace.CommandLine.Arguments
import LineTrace.CommandLine.Grammar
import LineTrace.Config.Draft
import LineTrace.Config.Load
import LineTrace.Config.Setting
import LineTrace.Config.Toml
import LineTrace.Coverage.Map
import LineTrace.Coverage.Resultset
import LineTrace.Coverage.ResultsetFile
import LineTrace.Coverage.Schema
import LineTrace.Failure.Basic
import LineTrace.Failure.Report
import LineTrace.FileSystem.Basic
import LineTrace.Json.Basic
import LineTrace.Json.Display
import LineTrace.Json.Reader
import LineTrace.Json.Writer
import LineTrace.Log.Record
import LineTrace.Log.Rotating
import LineTrace.Log.Sink
import LineTrace.Log.Template
import LineTrace.Log.Timestamp
import LineTrace.Main
import LineTrace.Number.Count
import LineTrace.Number.Double
import LineTrace.Number.Shortest
import LineTrace.Path.Basic
import LineTrace.Proofs.Coverage.Accumulation
import LineTrace.Proofs.Coverage.AtomicWrite
import LineTrace.Proofs.Coverage.Canonical
import LineTrace.Proofs.Coverage.Conservation
import LineTrace.Proofs.Coverage.Document
import LineTrace.Proofs.Coverage.Format
import LineTrace.Proofs.Coverage.Proper
import LineTrace.Proofs.Coverage.Recording
import LineTrace.Proofs.Coverage.RoundTrip
import LineTrace.Proofs.Coverage.Untrusted
import LineTrace.Proofs.FileSystem.Files
import LineTrace.Proofs.FileSystem.Replacing
import LineTrace.Proofs.Json.Reading
import LineTrace.Proofs.Json.RoundTrip
import LineTrace.Proofs.Json.Tokens
import LineTrace.Proofs.Json.Values
import LineTrace.Proofs.Json.Writing
import LineTrace.Proofs.Number.Rounding
import LineTrace.Proofs.Number.Shortest
import LineTrace.Proofs.Run.Course
import LineTrace.Proofs.Run.Draining
import LineTrace.Proofs.Run.Interruption
import LineTrace.Proofs.Table
import LineTrace.Proofs.Text.Encoding
import LineTrace.Proofs.Text.Numerals
import LineTrace.Proofs.Text.Order
import LineTrace.Proofs.Text.Splitting
import LineTrace.Proofs.Trace.Attribution
import LineTrace.Proofs.Trace.Directories
import LineTrace.Proofs.Trace.Outcomes
import LineTrace.Proofs.Trace.Overlong
import LineTrace.Proofs.Trace.Passes
import LineTrace.Proofs.Trace.Prefixes
import LineTrace.Proofs.Trace.Reading
import LineTrace.Proofs.Trace.Recovery
import LineTrace.Proofs.Trace.TornRecords
import LineTrace.Proofs.Trace.Truncation
import LineTrace.Proofs.Trace.Wire
import LineTrace.Proofs.Trace.Writers
import LineTrace.Run.Child
import LineTrace.Run.Drain
import LineTrace.Run.Progress
import LineTrace.Run.Tracer
import LineTrace.Shell.Evaluation
import LineTrace.Shell.Machine
import LineTrace.Shell.Script
import LineTrace.Shell.Session
import LineTrace.Shell.Utility
import LineTrace.Shell.Word
import LineTrace.Table
import LineTrace.Text.Basic
import LineTrace.Text.Blank
import LineTrace.Text.Integer
import LineTrace.Text.LineBreak
import LineTrace.Text.Printable
import LineTrace.Text.Quoted
import LineTrace.Text.ShellWord
import LineTrace.Text.Utf8
import LineTrace.Trace.Directories
import LineTrace.Trace.Format
import LineTrace.Trace.Hits
import LineTrace.Trace.LogFile
import LineTrace.Trace.StartupFile
import LineTrace.Trace.Stream
import LineTrace.Proofs.FileSystem.Beside
import LineTrace.Proofs.Run.Ending
import LineTrace.Proofs.Run.Lifecycle
import LineTrace.Proofs.Run.StartupFile
import LineTrace.Proofs.Command.Lookup
import LineTrace.Proofs.Coverage.Reload
import LineTrace.Proofs.Run.Findings
import LineTrace.Proofs.CommandLine.Export
import LineTrace.Proofs.Shell.Quoting
import LineTrace.Proofs.Trace.StartupText
import LineTrace.Proofs.Trace.LogFile
import LineTrace.Proofs.Trace.Mentions
import LineTrace.Proofs.Run.Independence
import LineTrace.Proofs.Trace.Calls
import LineTrace.Proofs.Trace.Stack
import LineTrace.Proofs.Trace.Excursions
import LineTrace.Proofs.Trace.Sources
import LineTrace.Proofs.Config.Distinct
import LineTrace.Proofs.Config.Usable
import LineTrace.Proofs.Path.Normal
import LineTrace.Proofs.Trace.Classification
import LineTrace.Coverage.Store
import LineTrace.Proofs.Coverage.Merging
import LineTrace.Proofs.Coverage.Store
import LineTrace.Proofs.Coverage.Algebra
import LineTrace.Proofs.Coverage.Keys
import LineTrace.Proofs.Coverage.Scope
import LineTrace.Proofs.Text.Escaping
import LineTrace.Proofs.Coverage.Names
import LineTrace.Proofs.Coverage.Decoding
import LineTrace.Proofs.Failure.Telling
import LineTrace.Proofs.Trace.Unwinding
import LineTrace.Proofs.Text.FirstOccurrences
import LineTrace.Proofs.Trace.Candidates
