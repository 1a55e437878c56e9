import SqlConsole.Binary64.Basic
import SqlConsole.Binary64.Nearest
import SqlConsole.Binary64.Shortest
import SqlConsole.CommandLine.Invocation
import SqlConsole.CommandLine.Scope
import SqlConsole.CommandLine.Usage
import SqlConsole.Fault
import SqlConsole.Files.Tree
import SqlConsole.Json.Basic
import SqlConsole.Json.Numeral
import SqlConsole.Json.Printer
import SqlConsole.Lexeme.Basic
import SqlConsole.Lexeme.Cut
import SqlConsole.Log.Filter
import SqlConsole.Log.Record
import SqlConsole.Main
import SqlConsole.Output.Action
import SqlConsole.Output.Port
import SqlConsole.Output.Sink
import SqlConsole.Program
import SqlConsole.Report.Structured
import SqlConsole.Report.Table
import SqlConsole.Report.Tokenize
import SqlConsole.Report.Writing
import SqlConsole.Scan.Basic
import SqlConsole.Scan.Fault
import SqlConsole.Scan.Scanner
import SqlConsole.Settings.Basic
import SqlConsole.Settings.Document
import SqlConsole.Shell.Buffer
import SqlConsole.Shell.Command
import SqlConsole.Shell.Conversation
import SqlConsole.Shell.Session
import SqlConsole.Text.Bytes
import SqlConsole.Text.Fields
import SqlConsole.Text.Letter
import SqlConsole.Text.Position
import SqlConsole.Text.Space
import SqlConsole.Token.Basic
import SqlConsole.Token.Keyword
import SqlConsole.Token.Kind
import SqlConsole.Toml.Document
import SqlConsole.Toml.Moment
import SqlConsole.Toml.Quoted
import SqlConsole.Toml.Reader
import SqlConsole.Toml.Scalar
import SqlConsole.Toml.Value
import SqlConsole.Toml.Writer
import SqlConsole.Proofs.Lexeme.Reading
import SqlConsole.Proofs.Lexeme.Body
import SqlConsole.Proofs.Lexeme.Longest
import SqlConsole.Proofs.Scan.Tokenisation
import SqlConsole.Proofs.Scan.Positions
import SqlConsole.Proofs.Lexeme.Separation
import SqlConsole.Proofs.Scan.Joining
import SqlConsole.Proofs.Shell.Batch
import SqlConsole.Proofs.Shell.Transcript
import SqlConsole.Proofs.Lexeme.Stopping
import SqlConsole.Proofs.Scan.Blanking
import SqlConsole.Proofs.Scan.Printing
import SqlConsole.Proofs.Scan.Heads
import SqlConsole.Proofs.Scan.Lookahead
import SqlConsole.Proofs.Toml.Statements
import SqlConsole.Proofs.Files.Writing
import SqlConsole.Proofs.Settings.RoundTrip
import SqlConsole.Proofs.Shell.Streaming
import SqlConsole.Proofs.Output.Plain
import SqlConsole.Proofs.Output.Calls
import SqlConsole.Proofs.Output.FailingSink
import SqlConsole.Proofs.Json.Reader
import SqlConsole.Proofs.Json.Numerals
import SqlConsole.Proofs.Json.RoundTrip
import SqlConsole.Proofs.Report.Decoding
import SqlConsole.Proofs.Settings.Precedence
import SqlConsole.Proofs.Text.LetterCase
import SqlConsole.Proofs.Scan.LetterCase
import SqlConsole.Proofs.Scan.LineEnds
import SqlConsole.Proofs.Scan.Literals
import SqlConsole.Proofs.Binary64.Nearest
import SqlConsole.Proofs.Binary64.ReadBack
import SqlConsole.Proofs.Scan.Numbers
import SqlConsole.Proofs.Report.Numbers
import SqlConsole.Proofs.Log.Directives
import SqlConsole.Proofs.Log.Warnings
import SqlConsole.Proofs.Program.LogLevel
import SqlConsole.Proofs.Program.Messages
import SqlConsole.Proofs.Program.ExitCode
import SqlConsole.Proofs.Report.Lines
import SqlConsole.Proofs.Settings.Layering
import SqlConsole.Proofs.Scan.Words
import SqlConsole.Proofs.Scan.Driving
import SqlConsole.Proofs.Scan.Safety
import SqlConsole.Proofs.Log.Warnings
