import DspCheck.ArgumentList
import DspCheck.Catalog.Basic
import DspCheck.Catalog.Document
import DspCheck.Check.Bindings
import DspCheck.Check.Calls
import DspCheck.Check.Delay
import DspCheck.Check.Division
import DspCheck.Check.Validation
import DspCheck.Command.Arguments
import DspCheck.Command.Artifacts
import DspCheck.Command.Configuration
import DspCheck.Command.Fault
import DspCheck.Command.Notice
import DspCheck.Command.Run
import DspCheck.Command.Wording
import DspCheck.Diagnostic.Basic
import DspCheck.Diagnostic.Code
import DspCheck.Diagnostic.Finding
import DspCheck.Files.Access
import DspCheck.Files.Path
import DspCheck.Files.Tree
import DspCheck.Json.Reader
import DspCheck.Json.Token
import DspCheck.Json.Writer
import DspCheck.Library.Build
import DspCheck.Library.DocBlock
import DspCheck.Library.DocLine
import DspCheck.Library.File
import DspCheck.Library.Naming
import DspCheck.Library.Usage
import DspCheck.Main
import DspCheck.Number.Binary64
import DspCheck.OrderedMap
import DspCheck.Phrase
import DspCheck.Proofs.Bytewise.Order
import DspCheck.Proofs.Bytewise.Runs
import DspCheck.Proofs.Bytewise.Usage
import DspCheck.Proofs.Bytewise.Validation
import DspCheck.Proofs.Catalog.RoundTrip
import DspCheck.Proofs.Catalog.Suggestions
import DspCheck.Proofs.Check.CallForm
import DspCheck.Proofs.Check.Concatenation
import DspCheck.Proofs.Check.Definitions
import DspCheck.Proofs.Check.DelayLimit
import DspCheck.Proofs.Check.EntryPoint
import DspCheck.Proofs.Check.ImportLine
import DspCheck.Proofs.Check.Inertness
import DspCheck.Proofs.Check.LineEnds
import DspCheck.Proofs.Check.LocalLibraries
import DspCheck.Proofs.Check.Mentions
import DspCheck.Proofs.Check.Numerals
import DspCheck.Proofs.Check.Places
import DspCheck.Proofs.Check.Pointing
import DspCheck.Proofs.Check.SourceOrder
import DspCheck.Proofs.Check.TopLevel
import DspCheck.Proofs.Check.Verdict
import DspCheck.Proofs.Command.Effects
import DspCheck.Proofs.Files.Atomic
import DspCheck.Proofs.Files.Changes
import DspCheck.Proofs.Files.Tree
import DspCheck.Proofs.Json.RoundTrip
import DspCheck.Proofs.Json.Token
import DspCheck.Proofs.Library.Alias
import DspCheck.Proofs.Library.Counts
import DspCheck.Proofs.Library.Declarations
import DspCheck.Proofs.Library.Enumeration
import DspCheck.Proofs.Library.LeftOut
import DspCheck.Proofs.Library.Merge
import DspCheck.Proofs.Library.Sections
import DspCheck.Proofs.Library.Written
import DspCheck.Proofs.Library.WrittenFile
import DspCheck.Proofs.Number.Decimal
import DspCheck.Proofs.Number.Numeral
import DspCheck.Proofs.Phrase
import DspCheck.Proofs.Remedy.CompilerReports
import DspCheck.Proofs.Remedy.FirstRemedy
import DspCheck.Proofs.Remedy.Literals
import DspCheck.Proofs.Remedy.Reports
import DspCheck.Proofs.Remedy.RoundTrip
import DspCheck.Proofs.Remedy.Sightings
import DspCheck.Proofs.Renaming.Suggestion
import DspCheck.Proofs.Report.Plain
import DspCheck.Proofs.Source.ArgumentCount
import DspCheck.Proofs.Source.ArgumentGrammar
import DspCheck.Proofs.Source.ArgumentList
import DspCheck.Proofs.Source.Below
import DspCheck.Proofs.Source.Blanking
import DspCheck.Proofs.Source.Continuation
import DspCheck.Proofs.Source.Expression
import DspCheck.Proofs.Source.ExpressionCalls
import DspCheck.Proofs.Source.ExpressionText
import DspCheck.Proofs.Source.Identifier
import DspCheck.Proofs.Source.Lexer
import DspCheck.Proofs.Source.Pieces
import DspCheck.Proofs.Source.Program
import DspCheck.Proofs.Source.Reference
import DspCheck.Proofs.Source.Statement
import DspCheck.Proofs.Text.Alone
import DspCheck.Proofs.Text.Lines
import DspCheck.Proofs.Text.Place
import DspCheck.Proofs.Value
import DspCheck.Remedy.Basic
import DspCheck.Remedy.Document
import DspCheck.Remedy.Explanation
import DspCheck.Remedy.Scan
import DspCheck.Remedy.Standard
import DspCheck.Report.Document
import DspCheck.Report.Plain
import DspCheck.Rules
import DspCheck.Source.Line
import DspCheck.Source.Masking
import DspCheck.Source.Program
import DspCheck.Source.Reference
import DspCheck.Span
import DspCheck.Text.Basic
import DspCheck.Text.Classes
import DspCheck.Text.Lines
import DspCheck.Text.Search
import DspCheck.Text.Utf8
import DspCheck.Toml.Reader
import DspCheck.Toml.Scalar
import DspCheck.Toml.Table
import DspCheck.Toml.Token
import DspCheck.Value
