import MiniPascal.Main
import MiniPascal.Proofs.Lexing.Spelling
import MiniPascal.Proofs.Lexing.Trivia
import MiniPascal.Proofs.Lexing.Lossless
import MiniPascal.Proofs.Lexing.Places
import MiniPascal.Proofs.Lexing.Boundary
import MiniPascal.Proofs.Lexing.Progress
import MiniPascal.Proofs.Lexing.Slices
import MiniPascal.Proofs.Report
import MiniPascal.Proofs.Tree.Bare
import MiniPascal.Proofs.Tree.Values
import MiniPascal.Proofs.Tree.Writable
import MiniPascal.Proofs.Tree.Json
import MiniPascal.Proofs.Bindings
import MiniPascal.Proofs.Bindings.Indexed
import MiniPascal.Proofs.Number.Words
import MiniPascal.Proofs.Number.Operations
import MiniPascal.Proofs.Sequence
import MiniPascal.Proofs.Agreement
import MiniPascal.Proofs.Grammar
import MiniPascal.Proofs.Grammar.Language
import MiniPascal.Proofs.Reading.Blind
import MiniPascal.Proofs.Reading.Path
import MiniPascal.Proofs.Reading.Sound
import MiniPascal.Proofs.Reading.Complete
import MiniPascal.Proofs.Reading.Exact
import MiniPascal.Proofs.Reading.Recognize
import MiniPascal.Proofs.Reading.Lazy
import MiniPascal.Proofs.Reading.Viable
import MiniPascal.Proofs.Run.Blind
import MiniPascal.Proofs.Run.Spacing
import MiniPascal.Proofs.Run.Fold
import MiniPascal.Proofs.Run.Integral
import MiniPascal.Proofs.Run.Source
import MiniPascal.Proofs.Run.Passes
import MiniPascal.Proofs.Run.Evaluation
import MiniPascal.Proofs.Run.Finite
import MiniPascal.Proofs.Run.Visits
import MiniPascal.Proofs.Names.Occurrences
import MiniPascal.Proofs.Tree.Spans
import MiniPascal.Proofs.Tree.Nodes
import MiniPascal.Proofs.Tree.Placed
import MiniPascal.Proofs.Names.Resolution
import MiniPascal.Proofs.Names.Table
import MiniPascal.Proofs.Run.Accesses
import MiniPascal.Proofs.Run.Commutation
import MiniPascal.Proofs.Names.Uses
import MiniPascal.Proofs.Names.Declarations
import MiniPascal.Proofs.Run.Blame
import MiniPascal.Proofs.Run.Effect
import MiniPascal.Proofs.Run.Journal
import MiniPascal.Proofs.Run.Store
import MiniPascal.Proofs.Run.Kinds
import MiniPascal.Proofs.Run.Actions
import MiniPascal.Proofs.Run.EarlyReads
import MiniPascal.Proofs.Command.Arguments
import MiniPascal.Proofs.Command.Outcome
import MiniPascal.Proofs.Binary64.Nearest
import MiniPascal.Proofs.Decimal.Literal
import MiniPascal.Proofs.Json.Number
import MiniPascal.Proofs.Json.Numeral
import MiniPascal.Proofs.Json.Text
import MiniPascal.Proofs.Json.Reading
import MiniPascal.Proofs.Printing.Words
import MiniPascal.Proofs.Printing.Text
import MiniPascal.Proofs.Printing.Blind
import MiniPascal.Proofs.Printing.Roundtrip
import MiniPascal.Proofs.Grammar.Parentheses
import MiniPascal.Proofs.Reading.Excerpt
import MiniPascal.Proofs.Number.Literal
import MiniPascal.Proofs.Printing.Sexp
import MiniPascal.Proofs.Printing.Faithful
import MiniPascal.Proofs.Printing.Json
import MiniPascal.Proofs.Printing.Store
import MiniPascal.Proofs.Tree.WellFormed
import MiniPascal.Proofs.Reading.Integers
import MiniPascal.Proofs.Grammar.Enclosing
import MiniPascal.Proofs.Reading.Counting
import MiniPascal.Proofs.Reading.Records
import MiniPascal.Proofs.Reading.Following
import MiniPascal.Proofs.Reading.Calls
import MiniPascal.Proofs.Reading.Counters
