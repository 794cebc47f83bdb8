import ImportUsage.Automaton.Action
import ImportUsage.Automaton.Reader
import ImportUsage.Automaton.Run
import ImportUsage.Automaton.State
import ImportUsage.Automaton.Token
import ImportUsage.Automaton.Tree
import ImportUsage.CommandLine.Argument
import ImportUsage.CommandLine.Help
import ImportUsage.CommandLine.Parse
import ImportUsage.CommandLine.Program
import ImportUsage.Digest.Sha256
import ImportUsage.Discovery.Basic
import ImportUsage.Discovery.Walk
import ImportUsage.FileTree.Create
import ImportUsage.FileTree.Fault
import ImportUsage.FileTree.Lookup
import ImportUsage.FileTree.Node
import ImportUsage.FileTree.Path
import ImportUsage.Grammar.Construct
import ImportUsage.Grammar.Plain
import ImportUsage.Grammar.Plain.Callable
import ImportUsage.Grammar.Plain.Expression
import ImportUsage.Grammar.Plain.Markup
import ImportUsage.Grammar.Plain.Module
import ImportUsage.Grammar.Plain.Pattern
import ImportUsage.Grammar.Plain.Statement
import ImportUsage.Grammar.Production
import ImportUsage.Grammar.Rank
import ImportUsage.Grammar.Rule
import ImportUsage.Grammar.Tables
import ImportUsage.Grammar.Terminal
import ImportUsage.Grammar.Typed
import ImportUsage.Grammar.Typed.Callable
import ImportUsage.Grammar.Typed.Expression
import ImportUsage.Grammar.Typed.Markup
import ImportUsage.Grammar.Typed.Module
import ImportUsage.Grammar.Typed.Statement
import ImportUsage.Grammar.Typed.Type
import ImportUsage.Graph.Basic
import ImportUsage.Graph.Color
import ImportUsage.Graph.Dot
import ImportUsage.Json.Value
import ImportUsage.Lexical.LineEnd
import ImportUsage.Lexical.Literal
import ImportUsage.Lexical.Markup
import ImportUsage.Lexical.Text
import ImportUsage.Lexical.Word
import ImportUsage.Main
import ImportUsage.Report.Basic
import ImportUsage.Report.Csv
import ImportUsage.Report.Format
import ImportUsage.Report.Json
import ImportUsage.Report.Markdown
import ImportUsage.Report.Text
import ImportUsage.Scan.Basic
import ImportUsage.Scan.Options
import ImportUsage.Scan.Run
import ImportUsage.Source.Contribution
import ImportUsage.Source.Declaration
import ImportUsage.Source.File
import ImportUsage.Source.Import
import ImportUsage.Source.Language
import ImportUsage.Source.LocalExport
import ImportUsage.Source.Parsed
import ImportUsage.Source.Reader
import ImportUsage.Source.Statement
import ImportUsage.Usage.Distinct
import ImportUsage.Usage.Exclusion
import ImportUsage.Usage.Index
import ImportUsage.Usage.Resolution
import ImportUsage.Usage.Selection
import ImportUsage.Proofs.Automaton.Moved
import ImportUsage.Proofs.Discovery.ByteOrder
import ImportUsage.Proofs.Discovery.Extensions
import ImportUsage.Proofs.Discovery.FileType
import ImportUsage.Proofs.Discovery.Unseen
import ImportUsage.Proofs.Discovery.Walk
import ImportUsage.Proofs.Dot.Identity
import ImportUsage.Proofs.Dot.ReadBack
import ImportUsage.Proofs.Dot.Reader
import ImportUsage.Proofs.FileTree.Below
import ImportUsage.Proofs.FileTree.Follow
import ImportUsage.Proofs.FileTree.Kept
import ImportUsage.Proofs.FileTree.LastName
import ImportUsage.Proofs.FileTree.Spelling
import ImportUsage.Proofs.FileTree.WellFormed
import ImportUsage.Proofs.FileTree.Write
import ImportUsage.Proofs.FileTree.WriteAll
import ImportUsage.Proofs.Grammar.Derivation
import ImportUsage.Proofs.Grammar.Moved
import ImportUsage.Proofs.Grammar.Opening
import ImportUsage.Proofs.Grammar.Spelled
import ImportUsage.Proofs.Grammar.Tokens
import ImportUsage.Proofs.Graph.Index
import ImportUsage.Proofs.Graph.Numbers
import ImportUsage.Proofs.Graph.Sound
import ImportUsage.Proofs.Json.ReadBack
import ImportUsage.Proofs.Json.Reader
import ImportUsage.Proofs.Lexical.Gap
import ImportUsage.Proofs.Markdown.ReadBack
import ImportUsage.Proofs.Markdown.Reader
import ImportUsage.Proofs.Report.Counts
import ImportUsage.Proofs.Report.Csv
import ImportUsage.Proofs.Report.Json
import ImportUsage.Proofs.Scan.Again
import ImportUsage.Proofs.Scan.Excluded
import ImportUsage.Proofs.Scan.Failure
import ImportUsage.Proofs.Scan.FirstCause
import ImportUsage.Proofs.Scan.Importers
import ImportUsage.Proofs.Scan.Narrow
import ImportUsage.Proofs.Scan.Respelled
import ImportUsage.Proofs.Scan.Steps
import ImportUsage.Proofs.Scan.Strict
import ImportUsage.Proofs.Scan.Summaries
import ImportUsage.Proofs.Scan.Written
import ImportUsage.Proofs.Source.Brief
import ImportUsage.Proofs.Source.Commented
import ImportUsage.Proofs.Source.DeclarationRoundTrip
import ImportUsage.Proofs.Source.DeclarationTree
import ImportUsage.Proofs.Source.Declaring
import ImportUsage.Proofs.Source.DeclaringTree
import ImportUsage.Proofs.Source.Destructuring
import ImportUsage.Proofs.Source.ImportTree
import ImportUsage.Proofs.Source.Lexeme
import ImportUsage.Proofs.Source.LocalExport
import ImportUsage.Proofs.Source.MovedTree
import ImportUsage.Proofs.Source.Pattern
import ImportUsage.Proofs.Source.PatternTree
import ImportUsage.Proofs.Source.PatternWriting
import ImportUsage.Proofs.Source.Reading
import ImportUsage.Proofs.Source.RoundTrip
import ImportUsage.Proofs.Source.Spelling
import ImportUsage.Proofs.Source.StatementTree
import ImportUsage.Proofs.Source.TextTree
import ImportUsage.Proofs.Source.TreeReading
import ImportUsage.Proofs.Source.VariableTree
import ImportUsage.Proofs.Source.Written
import ImportUsage.Proofs.Source.WrittenTree
import ImportUsage.Proofs.Text.Cut
import ImportUsage.Proofs.Text.Transduce
import ImportUsage.Proofs.Usage.Account
import ImportUsage.Proofs.Usage.Distinct
import ImportUsage.Proofs.Usage.History
import ImportUsage.Proofs.Usage.Index
import ImportUsage.Proofs.Usage.Modules
import ImportUsage.Proofs.Usage.Resolution
import ImportUsage.Proofs.Usage.Selection
