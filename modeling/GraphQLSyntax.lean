import GraphQLSyntax.Command.Arguments
import GraphQLSyntax.Command.CheckFiles
import GraphQLSyntax.Command.FileTree
import GraphQLSyntax.Command.Input
import GraphQLSyntax.Command.Log
import GraphQLSyntax.Command.ParseInput
import GraphQLSyntax.Command.Report
import GraphQLSyntax.Command.Run
import GraphQLSyntax.Construct
import GraphQLSyntax.Diagnostic.Note
import GraphQLSyntax.Diagnostic.ParseError
import GraphQLSyntax.Diagnostic.Snippet
import GraphQLSyntax.Grammar.Keyword
import GraphQLSyntax.Grammar.Symbol
import GraphQLSyntax.Main
import GraphQLSyntax.Node.Definition
import GraphQLSyntax.Node.Printer
import GraphQLSyntax.Node.Selection
import GraphQLSyntax.Node.TypeReference
import GraphQLSyntax.Node.Value
import GraphQLSyntax.Node.Walk
import GraphQLSyntax.Number.Binary64
import GraphQLSyntax.Number.Decimal
import GraphQLSyntax.Number.FloatText
import GraphQLSyntax.Number.Integer
import GraphQLSyntax.Number.Literal
import GraphQLSyntax.Number.Shortest
import GraphQLSyntax.Outline.Basic
import GraphQLSyntax.Outline.Indented
import GraphQLSyntax.Outline.Json
import GraphQLSyntax.Outline.Node
import GraphQLSyntax.Parse
import GraphQLSyntax.Parser.Definition
import GraphQLSyntax.Parser.Enclosure
import GraphQLSyntax.Parser.Expected
import GraphQLSyntax.Parser.Selection
import GraphQLSyntax.Parser.State
import GraphQLSyntax.Parser.TypeReference
import GraphQLSyntax.Parser.Value
import GraphQLSyntax.Proofs.Command.PathOrder
import GraphQLSyntax.Proofs.Command.Report
import GraphQLSyntax.Proofs.Command.Schedule
import GraphQLSyntax.Proofs.Command.Selection
import GraphQLSyntax.Proofs.Diagnostic.Snippet
import GraphQLSyntax.Proofs.Faults.Accounts
import GraphQLSyntax.Proofs.Faults.Brackets
import GraphQLSyntax.Proofs.Faults.Cause
import GraphQLSyntax.Proofs.Faults.Definition
import GraphQLSyntax.Proofs.Faults.Document
import GraphQLSyntax.Proofs.Faults.Enclosure
import GraphQLSyntax.Proofs.Faults.FilePath
import GraphQLSyntax.Proofs.Faults.Foresees
import GraphQLSyntax.Proofs.Faults.InputEnd
import GraphQLSyntax.Proofs.Faults.Lexical
import GraphQLSyntax.Proofs.Faults.Places
import GraphQLSyntax.Proofs.Faults.Prefix
import GraphQLSyntax.Proofs.Faults.Prospect
import GraphQLSyntax.Proofs.Faults.Reached
import GraphQLSyntax.Proofs.Faults.Selection
import GraphQLSyntax.Proofs.Faults.SelectionSet
import GraphQLSyntax.Proofs.Faults.Steps
import GraphQLSyntax.Proofs.Faults.StringLiteral
import GraphQLSyntax.Proofs.Faults.Truncation
import GraphQLSyntax.Proofs.Faults.TypeReference
import GraphQLSyntax.Proofs.Faults.Value
import GraphQLSyntax.Proofs.Grammar.Alternative
import GraphQLSyntax.Proofs.Grammar.Constant
import GraphQLSyntax.Proofs.Grammar.Induction
import GraphQLSyntax.Proofs.Grammar.Nesting
import GraphQLSyntax.Proofs.Grammar.Phrase
import GraphQLSyntax.Proofs.Lexing.Adjacent
import GraphQLSyntax.Proofs.Lexing.Cut
import GraphQLSyntax.Proofs.Lexing.Lines
import GraphQLSyntax.Proofs.Lexing.Lossless
import GraphQLSyntax.Proofs.Lexing.Measures
import GraphQLSyntax.Proofs.Lexing.NumberText
import GraphQLSyntax.Proofs.Lexing.OneLine
import GraphQLSyntax.Proofs.Lexing.Order
import GraphQLSyntax.Proofs.Lexing.Passing
import GraphQLSyntax.Proofs.Lexing.Positions
import GraphQLSyntax.Proofs.Lexing.Progress
import GraphQLSyntax.Proofs.Lexing.Run
import GraphQLSyntax.Proofs.Lexing.Runs
import GraphQLSyntax.Proofs.Lexing.Spelling
import GraphQLSyntax.Proofs.Lexing.StringText
import GraphQLSyntax.Proofs.Number.Digits
import GraphQLSyntax.Proofs.Number.Overflow
import GraphQLSyntax.Proofs.Number.Scaling
import GraphQLSyntax.Proofs.Number.Shortest
import GraphQLSyntax.Proofs.Number.Size
import GraphQLSyntax.Proofs.Number.Written
import GraphQLSyntax.Proofs.Parsing.Alternative
import GraphQLSyntax.Proofs.Parsing.Constant
import GraphQLSyntax.Proofs.Parsing.Definition
import GraphQLSyntax.Proofs.Parsing.Document
import GraphQLSyntax.Proofs.Parsing.Enclosure
import GraphQLSyntax.Proofs.Parsing.Implements
import GraphQLSyntax.Proofs.Parsing.Language
import GraphQLSyntax.Proofs.Parsing.Literal
import GraphQLSyntax.Proofs.Parsing.NumberValue
import GraphQLSyntax.Proofs.Parsing.Progress
import GraphQLSyntax.Proofs.Parsing.Selection
import GraphQLSyntax.Proofs.Parsing.SelectionSet
import GraphQLSyntax.Proofs.Parsing.TypeReference
import GraphQLSyntax.Proofs.Parsing.Value
import GraphQLSyntax.Proofs.Printing.Definition
import GraphQLSyntax.Proofs.Printing.Erasure
import GraphQLSyntax.Proofs.Printing.Restores
import GraphQLSyntax.Proofs.Printing.Roundtrip
import GraphQLSyntax.Proofs.Printing.Selection
import GraphQLSyntax.Proofs.Printing.TypeReference
import GraphQLSyntax.Proofs.Printing.Value
import GraphQLSyntax.Proofs.Relocation.Document
import GraphQLSyntax.Proofs.Relocation.Erasure
import GraphQLSyntax.Proofs.Relocation.Insertion
import GraphQLSyntax.Proofs.Relocation.Node
import GraphQLSyntax.Proofs.Relocation.Parser
import GraphQLSyntax.Proofs.Relocation.Value
import GraphQLSyntax.Proofs.StringLiteral.BlockCuts
import GraphQLSyntax.Proofs.StringLiteral.BlockValue
import GraphQLSyntax.Proofs.StringLiteral.Escape
import GraphQLSyntax.Proofs.StringLiteral.Image
import GraphQLSyntax.Proofs.StringLiteral.Value
import GraphQLSyntax.Proofs.Termination.Code
import GraphQLSyntax.Proofs.Termination.Consumption
import GraphQLSyntax.Proofs.Termination.Returns
import GraphQLSyntax.Proofs.Termination.Runs
import GraphQLSyntax.Proofs.Termination.Unfolding
import GraphQLSyntax.Proofs.Tree.Children
import GraphQLSyntax.Proofs.Tree.Layout
import GraphQLSyntax.Proofs.Tree.Levels
import GraphQLSyntax.Proofs.Tree.Ranges
import GraphQLSyntax.Proofs.Tree.Readings
import GraphQLSyntax.Proofs.Tree.Slices
import GraphQLSyntax.Proofs.Tree.WellFormed
import GraphQLSyntax.Source.Lines
import GraphQLSyntax.Source.Path
import GraphQLSyntax.Source.Position
import GraphQLSyntax.Source.Slice
import GraphQLSyntax.Source.Span
import GraphQLSyntax.StringLiteral.Block
import GraphQLSyntax.StringLiteral.Decode
import GraphQLSyntax.StringLiteral.Escape
import GraphQLSyntax.StringLiteral.Fault
import GraphQLSyntax.StringLiteral.Quoted
import GraphQLSyntax.Text.Escaped
import GraphQLSyntax.Text.GraphemeExtend
import GraphQLSyntax.Text.Hex
import GraphQLSyntax.Text.JsonString
import GraphQLSyntax.Text.Layout
import GraphQLSyntax.Text.Space
import GraphQLSyntax.Text.Split
import GraphQLSyntax.Text.Unprintable
import GraphQLSyntax.Text.Utf8
import GraphQLSyntax.Token.Basic
import GraphQLSyntax.Token.Fault
import GraphQLSyntax.Token.Lexer
import GraphQLSyntax.Token.Scan
import GraphQLSyntax.Token.Stream
import GraphQLSyntax.Proofs.Relocation.Concatenation
import GraphQLSyntax.Proofs.Ending.Parser
import GraphQLSyntax.Proofs.Ending.Value
import GraphQLSyntax.Proofs.Ending.Document
import GraphQLSyntax.Proofs.Lookahead.Steps
import GraphQLSyntax.Proofs.Lookahead.Productions
import GraphQLSyntax.Proofs.Lexing.LongestNumber
import GraphQLSyntax.Proofs.Printing.StringLiteral
import GraphQLSyntax.Proofs.Number.Overflow
import GraphQLSyntax.Proofs.Number.Size
import GraphQLSyntax.Proofs.Lexing.LineNumbers
import GraphQLSyntax.Proofs.StringLiteral.Idempotence
import GraphQLSyntax.Proofs.Lookahead.Requests
import GraphQLSyntax.Proofs.Ledger.Assembly
import GraphQLSyntax.Proofs.Ledger.Productions
import GraphQLSyntax.Proofs.Ledger.Routines
