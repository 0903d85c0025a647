import Formulary.Arith.Assignment
import Formulary.Arith.Eval
import Formulary.Arith.Layout
import Formulary.Arith.Profile
import Formulary.Arith.ProfileFile
import Formulary.Arith.Scan
import Formulary.Chain.Parser
import Formulary.Forest
import Formulary.Main
import Formulary.Number.Arithmetic
import Formulary.Number.Integer
import Formulary.Number.Written
import Formulary.Proofs.Lookahead
import Formulary.Rules.Parser
import Formulary.Rules.Production
import Formulary.Scope
import Formulary.Text.Distance
import Formulary.Text.Pascal
import Formulary.Tree.Render
import Formulary.Proofs.Chain.Stage
import Formulary.Proofs.Chain.Derivation
import Formulary.Proofs.Chain.Soundness
import Formulary.Proofs.Chain.Completeness
import Formulary.Proofs.Chain.Language
import Formulary.Proofs.Number.Bits
import Formulary.Proofs.Number.Rounding
import Formulary.Proofs.Arith.Lexing
import Formulary.Proofs.Arith.Compiled
import Formulary.Proofs.Arith.WellFormed
import Formulary.Proofs.Arith.Printing
import Formulary.Proofs.Arith.RoundTrip
import Formulary.Proofs.Arith.Parentheses
import Formulary.Proofs.Rules.Lexing
import Formulary.Proofs.Rules.Notation
import Formulary.Proofs.Rules.RoundTrip
import Formulary.Proofs.Rules.Definitions
import Formulary.Proofs.Chain.Walk
import Formulary.Proofs.Chain.Course
import Formulary.Proofs.Chain.Limit
import Formulary.Proofs.Chain.Viability
import Formulary.Proofs.Chain.Tracing
import Formulary.Proofs.Chain.Conversion
import Formulary.Proofs.Chain.Conservation
import Formulary.Proofs.Calls
import Formulary.Proofs.Forest
import Formulary.Proofs.Bindings
import Formulary.Proofs.Scope
import Formulary.Proofs.LexicalScope
import Formulary.Proofs.Session
import Formulary.Proofs.Text.Casing
import Formulary.Proofs.Text.Quoting
import Formulary.Proofs.Text.Decoding
import Formulary.Proofs.Exactness
import Formulary.Proofs.Arith.Lexemes
import Formulary.Proofs.Rules.Lexemes
import Formulary.Proofs.Positions
import Formulary.Proofs.Ebnf.Package
import Formulary.Proofs.Ebnf.Lexing
import Formulary.Proofs.Ebnf.Reading
import Formulary.Proofs.Ebnf.Search
import Formulary.Proofs.Rules.Naming
import Formulary.Proofs.Rules.Translation
import Formulary.Proofs.Rules.Verified
import Formulary.Proofs.Rules.Correspondence
import Formulary.Proofs.Explorer
import Formulary.Proofs.Arith.Evaluation
import Formulary.Proofs.ReadBack
import Formulary.Proofs.Traversal
import Formulary.Proofs.Arith.Strictness
import Formulary.Proofs.Arith.Numbers
import Formulary.Proofs.Blanks
import Formulary.Proofs.Tree.Notations
import Formulary.Proofs.Arith.Labels
import Formulary.Proofs.Tree.Graph
import Formulary.Proofs.Drawing
import Formulary.Proofs.Copies
import Formulary.Proofs.Rules.Capitals
import Formulary.Proofs.Text.Encoding
import Formulary.Proofs.Text.Pascal
import Formulary.Proofs.Chain.Marks
import Formulary.Proofs.Arith.Levels
import Formulary.Proofs.Chain.Unbounded
import Formulary.Proofs.Chain.Termination
import Formulary.Proofs.Rules.Numbering
