import SolText.CommandLine.Arguments
import SolText.CommandLine.Directory
import SolText.CommandLine.Run
import SolText.Document
import SolText.Forest.Basic
import SolText.Forest.Dump
import SolText.Forest.Walk
import SolText.Highlight.Role
import SolText.Highlight.Style
import SolText.Json.Basic
import SolText.Json.Decode
import SolText.Json.Printer
import SolText.Json.Reader
import SolText.Layout
import SolText.Main
import SolText.Node.Basic
import SolText.Node.Json
import SolText.Node.Keyword
import SolText.Node.Kind
import SolText.Node.Summary
import SolText.Number.Binary
import SolText.Number.Decimal
import SolText.Number.Rounding
import SolText.Options
import SolText.Proofs.Document
import SolText.Proofs.Except
import SolText.Proofs.Forest.Ancestry
import SolText.Proofs.Forest.Dump
import SolText.Proofs.Forest.Growth
import SolText.Proofs.Forest.Order
import SolText.Proofs.Forest.Rounds
import SolText.Proofs.Forest.Shape
import SolText.Proofs.Highlight.Markup
import SolText.Proofs.Json.Canonical
import SolText.Proofs.Map
import SolText.Proofs.Node.Json
import SolText.Proofs.Options
import SolText.Proofs.SourceMap.Absolute
import SolText.Proofs.SourceMap.Drift
import SolText.Proofs.SourceMap.Failure
import SolText.Proofs.SourceMap.Local
import SolText.Proofs.SourceMap.Location
import SolText.Proofs.SourceMap.Missing
import SolText.Proofs.SourceMap.Nesting
import SolText.Proofs.SourceMap.Path
import SolText.Proofs.SourceMap.Recorded
import SolText.Proofs.SourceMap.Search
import SolText.Proofs.SourceMap.Shared
import SolText.Proofs.SourceMap.Stepwise
import SolText.Proofs.SourceMap.Words
import SolText.Proofs.SourceMap.Written
import SolText.Proofs.Text.Brackets
import SolText.Proofs.Text.Literal
import SolText.Proofs.Text.Numeral
import SolText.Proofs.Text.Occurrence
import SolText.Proofs.Text.Reading
import SolText.Proofs.Version
import SolText.Proofs.Write.Braces
import SolText.Proofs.Write.Brackets
import SolText.Proofs.Write.Failure
import SolText.Proofs.Write.Faithful
import SolText.Proofs.Write.Operators
import SolText.Proofs.Write.Pieces
import SolText.Proofs.Write.Recording
import SolText.Proofs.Write.Spacing
import SolText.Proofs.Write.Text
import SolText.Proofs.Write.Views
import SolText.Proofs.Yul.Attributes
import SolText.Proofs.Yul.Brackets
import SolText.Proofs.Yul.Complaints
import SolText.Proofs.Yul.Indentation
import SolText.Proofs.Yul.Metadata
import SolText.Proofs.Yul.Parallel
import SolText.SourceMap.Absolute
import SolText.SourceMap.Location
import SolText.SourceMap.Range
import SolText.SourceMap.Search
import SolText.Table
import SolText.Text.Bytes
import SolText.Text.Hidden
import SolText.Text.Literal
import SolText.Text.Numeral
import SolText.Text.Order
import SolText.Text.Quoted
import SolText.Text.Split
import SolText.Version
import SolText.Write.Error
import SolText.Write.Piece
import SolText.Write.Rules
import SolText.Write.View
import SolText.Write.Writer
import SolText.Yul.Error
import SolText.Yul.Node
import SolText.Yul.Rules
import SolText.Yul.Writer
