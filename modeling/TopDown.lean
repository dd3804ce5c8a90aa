import TopDown.Analysis.First
import TopDown.Analysis.Follow
import TopDown.Analysis.Lookahead
import TopDown.Analysis.Table
import TopDown.Analysis.WellFormed
import TopDown.Calc
import TopDown.CommandLine.Options
import TopDown.CommandLine.Program
import TopDown.Cursor
import TopDown.Decimal.Shortest
import TopDown.Decimal.Text
import TopDown.Ebnf
import TopDown.Grammar
import TopDown.Json.Language
import TopDown.Json.Literal
import TopDown.Json.Value
import TopDown.Lexer
import TopDown.Log
import TopDown.Main
import TopDown.Parse.Engine
import TopDown.Parse.Error
import TopDown.Parse.Language
import TopDown.Parse.Recording
import TopDown.Parse.Recovery
import TopDown.Parse.State
import TopDown.Parse.Step
import TopDown.Proofs.Accounting
import TopDown.Proofs.Anchoring
import TopDown.Proofs.Barrier
import TopDown.Proofs.Brackets
import TopDown.Proofs.Calc.Evaluation
import TopDown.Proofs.Calc.Text
import TopDown.Proofs.Chart
import TopDown.Proofs.Completeness
import TopDown.Proofs.Conservative
import TopDown.Proofs.Continuation
import TopDown.Proofs.Decimal.Nearest
import TopDown.Proofs.Decimal.Numeral
import TopDown.Proofs.Decimal.Packing
import TopDown.Proofs.Decimal.Rounding
import TopDown.Proofs.Derivation
import TopDown.Proofs.Discipline
import TopDown.Proofs.Ebnf
import TopDown.Proofs.Enclosure
import TopDown.Proofs.Exactness
import TopDown.Proofs.First
import TopDown.Proofs.Follow
import TopDown.Proofs.Hierarchy
import TopDown.Proofs.Interruption
import TopDown.Proofs.Json.Acceptance
import TopDown.Proofs.Json.Decoding
import TopDown.Proofs.Json.Lexing
import TopDown.Proofs.Json.Numerals
import TopDown.Proofs.Json.Printing
import TopDown.Proofs.Json.Surrogates
import TopDown.Proofs.Json.Text
import TopDown.Proofs.LL1
import TopDown.Proofs.Layout
import TopDown.Proofs.Literals
import TopDown.Proofs.Locality
import TopDown.Proofs.Lookahead
import TopDown.Proofs.Machine
import TopDown.Proofs.Matching
import TopDown.Proofs.Moves
import TopDown.Proofs.Nesting
import TopDown.Proofs.Nullable
import TopDown.Proofs.Order
import TopDown.Proofs.Overlap
import TopDown.Proofs.Prediction
import TopDown.Proofs.Predictive
import TopDown.Proofs.Progress
import TopDown.Proofs.Reading
import TopDown.Proofs.Recording
import TopDown.Proofs.Recovery
import TopDown.Proofs.Resumption
import TopDown.Proofs.Run
import TopDown.Proofs.Samples
import TopDown.Proofs.Scanning
import TopDown.Proofs.Segmentation
import TopDown.Proofs.SetOperations
import TopDown.Proofs.Skipping
import TopDown.Proofs.Soundness
import TopDown.Proofs.Spacing
import TopDown.Proofs.Spans
import TopDown.Proofs.Spelling
import TopDown.Proofs.Transcription
import TopDown.Proofs.Unwinding
import TopDown.Proofs.Veil
import TopDown.Proofs.WellFormed
import TopDown.Regex.Basic
import TopDown.Regex.Bracket
import TopDown.Regex.Match
import TopDown.Regex.Parser
import TopDown.Regex.Reader
import TopDown.Report.Diagnostic
import TopDown.Report.Render
import TopDown.Report.Source
import TopDown.Sample
import TopDown.Text.Blank
import TopDown.Text.Case
import TopDown.Text.CharSet
import TopDown.Text.Digit
import TopDown.Text.Letter
import TopDown.Text.Quoted
import TopDown.Text.Width
import TopDown.Text.Word
import TopDown.TokenSet
import TopDown.TokenSet.Bits
import TopDown.Vocabulary
