import ConsoleShell.Commands.Probe
import ConsoleShell.Console.Server
import ConsoleShell.Log.KeyedCounter
import ConsoleShell.Main
import ConsoleShell.Shell.SampleStream
import ConsoleShell.Shell.Transcript
import ConsoleShell.Proofs.Line.Grammar
import ConsoleShell.Proofs.Line.Printing
import ConsoleShell.Proofs.File.Store
import ConsoleShell.Proofs.File.ReadOnly
import ConsoleShell.Proofs.File.Auditing
import ConsoleShell.Proofs.Shell.Exchange
import ConsoleShell.Proofs.Shell.Frame
import ConsoleShell.Proofs.Shell.Redirection
import ConsoleShell.Proofs.Shell.Invocation
import ConsoleShell.Proofs.Shell.Loop
import ConsoleShell.Proofs.Shell.Dispatch
import ConsoleShell.Proofs.Shell.Evolution
import ConsoleShell.Proofs.Shell.ReadOnlySession
import ConsoleShell.Proofs.Shell.Containment
import ConsoleShell.Proofs.Commands.Plain
import ConsoleShell.Proofs.File.Overlay
import ConsoleShell.Proofs.Shell.Diversion
import ConsoleShell.Proofs.Shell.DiversionLine
import ConsoleShell.Proofs.Shell.OutputRedirection
import ConsoleShell.Proofs.Shell.Handoff
import ConsoleShell.Proofs.Json.Reading
import ConsoleShell.Proofs.Line.Expansion
import ConsoleShell.Proofs.Recording.Asciicast
import ConsoleShell.Proofs.Recording.Playback
import ConsoleShell.Proofs.Recording.Records
import ConsoleShell.Proofs.Recording.Tee
import ConsoleShell.Proofs.Table.History
import ConsoleShell.Proofs.History.Numbering
import ConsoleShell.Proofs.Line.Scoping
import ConsoleShell.Proofs.Log.Reading
import ConsoleShell.Proofs.Log.Report
import ConsoleShell.Proofs.Log.Rows
import ConsoleShell.Proofs.Shell.AuditTrail
import ConsoleShell.Proofs.Shell.MacroScopes
import ConsoleShell.Proofs.Table.Refused
import ConsoleShell.Proofs.DefinitionList.Printing
import ConsoleShell.Proofs.Shell.SessionRuns
import ConsoleShell.Proofs.Commands.Policy
import ConsoleShell.Proofs.Shell.Diagnosis
import ConsoleShell.Proofs.Shell.InputScript
import ConsoleShell.Proofs.Shell.SingleLine
import ConsoleShell.Proofs.Substitution.Concatenation
import ConsoleShell.Proofs.Substitution.Depth
import ConsoleShell.Proofs.Redirects.Nesting
import ConsoleShell.Proofs.Substitution.Default
import ConsoleShell.Proofs.Line.Template
import ConsoleShell.Proofs.Shell.Completion
import ConsoleShell.Proofs.DefinitionList.Quoting
import ConsoleShell.Proofs.DefinitionList.Names
import ConsoleShell.Proofs.Argument.Binding
import ConsoleShell.Proofs.Argument.Integer
import ConsoleShell.Proofs.Commands.Assignment
import ConsoleShell.Proofs.Environment.Listing
import ConsoleShell.Proofs.Time.Fraction
import ConsoleShell.Proofs.Time.Width
import ConsoleShell.Proofs.Commands.Echo
import ConsoleShell.Proofs.Line.Verbatim
import ConsoleShell.Proofs.Shell.Acceptance
import ConsoleShell.Proofs.Substitution.Brackets
import ConsoleShell.Proofs.Commands.Columns
