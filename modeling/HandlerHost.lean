import HandlerHost.Child.Launch
import HandlerHost.Child.Schedule
import HandlerHost.Child.Supervisor
import HandlerHost.Child.Termination
import HandlerHost.Cli.Arguments
import HandlerHost.Cli.Form
import HandlerHost.Cli.Run
import HandlerHost.Config.Basic
import HandlerHost.Config.Example
import HandlerHost.Config.KeyPath
import HandlerHost.Config.Setting
import HandlerHost.Config.Source
import HandlerHost.Decimal.Binary64
import HandlerHost.Decimal.Extended
import HandlerHost.Decimal.Layout
import HandlerHost.Decimal.Shortest
import HandlerHost.Execution
import HandlerHost.Host.Basic
import HandlerHost.Host.Errno
import HandlerHost.Host.FileSystem
import HandlerHost.Host.Path
import HandlerHost.Interpreter
import HandlerHost.Invoker.Call
import HandlerHost.Invoker.Operation
import HandlerHost.Invoker.Pool
import HandlerHost.Invoker.Stage
import HandlerHost.Isolation
import HandlerHost.Json.Decoder
import HandlerHost.Json.Fault
import HandlerHost.Json.Reader
import HandlerHost.Json.Scan
import HandlerHost.Json.Skip
import HandlerHost.Json.Value
import HandlerHost.Json.Writer
import HandlerHost.Language
import HandlerHost.Main
import HandlerHost.Output.Chunks
import HandlerHost.Output.Frame
import HandlerHost.Output.Lines
import HandlerHost.Output.Sentinel
import HandlerHost.Payload
import HandlerHost.Proofs.Child.Announced
import HandlerHost.Proofs.Execution.Classification
import HandlerHost.Proofs.Execution.TrailingResult
import HandlerHost.Proofs.Output.Conservation
import HandlerHost.Proofs.Output.Grammar
import HandlerHost.Proofs.Output.Lines
import HandlerHost.Proofs.Output.Reading
import HandlerHost.Proofs.Output.Turn
import HandlerHost.Proofs.Text.Utf8
import HandlerHost.Reply
import HandlerHost.Request
import HandlerHost.Response
import HandlerHost.Result
import HandlerHost.Runner.Script
import HandlerHost.Runner.Template
import HandlerHost.Shell.Escape
import HandlerHost.Shell.Run
import HandlerHost.Shell.Script
import HandlerHost.Shell.State
import HandlerHost.Shell.Token
import HandlerHost.Shell.Utility
import HandlerHost.Text.Blank
import HandlerHost.Text.Dictionary
import HandlerHost.Text.Hidden
import HandlerHost.Text.Natural
import HandlerHost.Text.Quoted
import HandlerHost.Text.Utf8
import HandlerHost.Toml.Document
import HandlerHost.Toml.Reader
import HandlerHost.Toml.Scalar
import HandlerHost.Workspace
import HandlerHost.Proofs.Json.Literal
import HandlerHost.Proofs.Json.Numeral
import HandlerHost.Proofs.Json.Canonical
import HandlerHost.Proofs.Json.Printing
import HandlerHost.Proofs.Json.Decoding
import HandlerHost.Proofs.Json.Denoted
import HandlerHost.Proofs.Wire.Payload
import HandlerHost.Proofs.Json.RoundTrip
import HandlerHost.Proofs.Wire.Response
import HandlerHost.Proofs.Wire.Reply
import HandlerHost.Proofs.Invoker.Slots
import HandlerHost.Proofs.Child.Supervision
import HandlerHost.Proofs.Json.NumeralExtent
import HandlerHost.Proofs.Json.TokenExtent
import HandlerHost.Proofs.Json.Extent
import HandlerHost.Proofs.Child.Attendance
import HandlerHost.Proofs.Execution.LineLimit
import HandlerHost.Proofs.Host.Path
import HandlerHost.Proofs.Host.Tree
import HandlerHost.Proofs.Workspace.Footprint
import HandlerHost.Proofs.Invoker.Course
import HandlerHost.Proofs.Invoker.Failure
import HandlerHost.Proofs.Invoker.Progress
import HandlerHost.Proofs.Invoker.Cleanup
import HandlerHost.Proofs.Output.Retention
import HandlerHost.Proofs.Output.Order
import HandlerHost.Proofs.Runner.Rendering
import HandlerHost.Proofs.Workspace.Housing
import HandlerHost.Proofs.Invoker.Tenancy
import HandlerHost.Proofs.Invoker.Separation
import HandlerHost.Proofs.Config.Example
import HandlerHost.Proofs.Config.Merge
import HandlerHost.Proofs.Config.Validity
import HandlerHost.Proofs.Toml.Tidy
import HandlerHost.Proofs.Config.Layers
import HandlerHost.Proofs.Wire.Defaults
import HandlerHost.Proofs.Workspace.Contents
import HandlerHost.Proofs.Invoker.Fate
import HandlerHost.Proofs.Invoker.Arrival
import HandlerHost.Proofs.Invoker.Answers
import HandlerHost.Proofs.Invoker.Cancellation
import HandlerHost.Proofs.Output.Segments
import HandlerHost.Proofs.Output.LogCap
import HandlerHost.Proofs.Child.Deadline
import HandlerHost.Proofs.Child.Grace
import HandlerHost.Proofs.Interpreter.Selection
import HandlerHost.Proofs.Interpreter.Start
import HandlerHost.Proofs.Runner.Substitution
import HandlerHost.Proofs.Wire.Coercion
import HandlerHost.Proofs.Wire.Status
import HandlerHost.Proofs.Json.Formed
import HandlerHost.Proofs.Wire.Members
import HandlerHost.Proofs.Workspace.Names
import HandlerHost.Proofs.Text.Lossy
import HandlerHost.Proofs.Output.Forwarding
import HandlerHost.Proofs.Output.Cut
import HandlerHost.Proofs.Execution.Notes
import HandlerHost.Proofs.Config.Acceptance
import HandlerHost.Proofs.Output.ResultSize
import HandlerHost.Proofs.Invoker.GroupKill
import HandlerHost.Proofs.Config.Capacity
import HandlerHost.Proofs.Config.WorkspaceRoot
import HandlerHost.Proofs.Wire.Message
import HandlerHost.Proofs.Output.Bounds
import HandlerHost.Proofs.Child.Completion
import HandlerHost.Proofs.Invoker.Completion
import HandlerHost.Proofs.Invoker.Lodging
import HandlerHost.Proofs.Invoker.Filling
