import Descent.Outline
import Descent.Parser.Builder
import Descent.Script
import Descent.Token.Cursor
import Descent.Tree.Dump
import Descent.Grammar.CycleSearch
import Descent.Lexical.Scanner
import Descent.Proofs.Grammar.Cycle
import Descent.Proofs.Grammar.CycleSearch
import Descent.Proofs.Grammar.ElementaryCycle
import Descent.Proofs.Grammar.LeftRank
import Descent.Proofs.List.FirstOccurrence
import Descent.Proofs.Grammar.References
import Descent.Proofs.Grammar.Forms
import Descent.Proofs.Grammar.LeftRecursion
import Descent.Proofs.Grammar.Nullable
import Descent.Proofs.Matching.Attempt
import Descent.Proofs.Matching.Frame
import Descent.Proofs.Matching.Progress
import Descent.Proofs.Matching.Nullable
import Descent.Proofs.Matching.Termination
import Descent.Proofs.Matching.Derivation
import Descent.Proofs.Matching.Pushing
import Descent.Proofs.Grammar.Operators
import Descent.Proofs.Matching.Coverage
import Descent.Proofs.Matching.Retry
import Descent.Proofs.Matching.Parting
import Descent.Proofs.Matching.Expected
import Descent.Proofs.Matching.Backtracking
import Descent.Proofs.Matching.Likeness
import Descent.Proofs.Tree.Expression
import Descent.Proofs.Matching.Peg
import Descent.Proofs.Matching.Grouping
import Descent.Proofs.Grammar.Language
import Descent.Proofs.RuleText.Parse
import Descent.Proofs.Parser.Build
import Descent.Proofs.Parser.Extraction
import Descent.Proofs.Parser.Defects
import Descent.Proofs.Parser.FurthestError
import Descent.Proofs.Parser.Display
import Descent.Proofs.Parser.Callbacks
import Descent.Proofs.Parser.Answers
import Descent.Proofs.Lexical.Places
import Descent.Proofs.Lexical.Counting
import Descent.Proofs.Lexical.Ranges
import Descent.Proofs.Lexical.Scanner
import Descent.Proofs.Matching.Declared
import Descent.Proofs.Matching.Contribution
import Descent.Proofs.Grammar.Layering
import Descent.Proofs.Tree.Folding
import Descent.Proofs.Matching.Layering
import Descent.Proofs.Grammar.Unmarked
import Descent.Proofs.Matching.Unmarked
import Descent.Proofs.Diagnostic.Header
import Descent.Proofs.Diagnostic.Ruled
import Descent.Proofs.Diagnostic.Rows
import Descent.Proofs.Diagnostic.Template
import Descent.Proofs.Parser.Report
import Descent.Grammar.Indexed
import Descent.Proofs.Grammar.Profile
import Descent.Proofs.Grammar.Ungrouped
import Descent.Proofs.Grammar.Additions
import Descent.Proofs.Tree.Places
import Descent.Proofs.Tree.Map
import Descent.Proofs.Tree.Line
import Descent.Proofs.Tree.Dump
import Descent.Proofs.Tree.LiveFold
import Descent.Proofs.Tree.Live
import Descent.Proofs.Tree.Calls
import Descent.Proofs.Text.Separated
import Descent.Proofs.Text.Quoted
import Descent.Proofs.Matching.Rewriting
import Descent.Proofs.Matching.Ungrouped
import Descent.Proofs.Parser.Dump
import Descent.Proofs.Parser.Additions
