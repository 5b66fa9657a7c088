import SourceDesk.Bytes
import SourceDesk.CommandLine.Conduct
import SourceDesk.CommandLine.Invocation
import SourceDesk.CommandLine.Report
import SourceDesk.CommandLine.Switch
import SourceDesk.CommandLine.Usage
import SourceDesk.CommandLine.Use
import SourceDesk.CommandLine.Work
import SourceDesk.Diagnostic
import SourceDesk.Document.Basic
import SourceDesk.Document.Set
import SourceDesk.Double.Basic
import SourceDesk.Double.Shortest
import SourceDesk.Event
import SourceDesk.Failure
import SourceDesk.Json.Codec
import SourceDesk.Json.Fault
import SourceDesk.Json.Numeral
import SourceDesk.Json.Scan
import SourceDesk.Json.Skip
import SourceDesk.Json.Tree
import SourceDesk.Json.Write
import SourceDesk.Log
import SourceDesk.Main
import SourceDesk.Path
import SourceDesk.Session.Attempt
import SourceDesk.Session.Basic
import SourceDesk.Session.Loading
import SourceDesk.Session.Saving
import SourceDesk.Settings
import SourceDesk.Storage.Basic
import SourceDesk.Storage.Disk
import SourceDesk.Storage.Memory
import SourceDesk.Storage.Recorded
import SourceDesk.Text.Charset
import SourceDesk.Text.Coordinates
import SourceDesk.Text.Padded
import SourceDesk.Text.Quoted
import SourceDesk.Text.Unprintable
import SourceDesk.Text.Utf8
import SourceDesk.Text.Windows1252
import SourceDesk.Translator.Basic
import SourceDesk.Translator.External
import SourceDesk.Translator.Process
import SourceDesk.Translator.Request
import SourceDesk.Translator.Response
import SourceDesk.Session.History
import SourceDesk.Proofs.Document.Changes
import SourceDesk.Proofs.Document.Set
import SourceDesk.Proofs.Session.Course
import SourceDesk.Proofs.Document.Follows
import SourceDesk.Proofs.Session.Attempt
import SourceDesk.Proofs.Session.Dirty
import SourceDesk.Proofs.Session.Saving
import SourceDesk.Proofs.Session.Stored
import SourceDesk.Proofs.Session.Submission
import SourceDesk.Proofs.Session.Sources
import SourceDesk.Proofs.Session.Translation
import SourceDesk.Proofs.Path
import SourceDesk.Proofs.Session.Export
import SourceDesk.Proofs.Storage.Disk
import SourceDesk.Proofs.Session.ExportedFiles
import SourceDesk.Proofs.CommandLine.Deliveries
import SourceDesk.Proofs.CommandLine.Requests
import SourceDesk.Proofs.CommandLine.Gates
import SourceDesk.Proofs.Text.Coordinates
import SourceDesk.Proofs.Session.Location
import SourceDesk.Proofs.Session.Reloaded
import SourceDesk.Proofs.Json.Spelling
import SourceDesk.Proofs.Json.Scan
import SourceDesk.Proofs.Json.Numeral
import SourceDesk.Proofs.Json.Tree
import SourceDesk.Proofs.Json.Write
import SourceDesk.Proofs.Json.Settle
import SourceDesk.Proofs.Json.Record
import SourceDesk.Proofs.Translator.Request
import SourceDesk.Proofs.Translator.Response
import SourceDesk.Proofs.Translator.Payload
import SourceDesk.Proofs.Translator.External
import SourceDesk.Proofs.CommandLine.Places
import SourceDesk.Proofs.CommandLine.Heard
import SourceDesk.Proofs.CommandLine.Verbosity
import SourceDesk.Proofs.Text.RoundTrip
import SourceDesk.Proofs.Session.Loading
import SourceDesk.Proofs.Session.Placed
import SourceDesk.Proofs.Document.Equality
import SourceDesk.Proofs.Text.Encoding
import SourceDesk.Proofs.Text.Lines
import SourceDesk.Proofs.Json.Skip
import SourceDesk.Proofs.Json.Direct
import SourceDesk.Proofs.Interchange
