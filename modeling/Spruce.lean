import Spruce.Parse
import Spruce.Precedence.Grouping
import Spruce.Tree.Equality
import Spruce.Tree.Outline
import Spruce.Tree.Printer
import Spruce.Proofs.Grammar.Lookahead
import Spruce.Proofs.Grammar.Uniqueness
import Spruce.Proofs.Grammar.Expression
import Spruce.Proofs.Grammar.Unambiguous
import Spruce.Proofs.Grammar.Productive
import Spruce.Proofs.Grammar.Viable
import Spruce.Proofs.Grammar.Parentheses
import Spruce.Proofs.Reference.Grammar
import Spruce.Proofs.Reference.Image
import Spruce.Proofs.Reference.Preimage
import Spruce.Proofs.Reference.Unambiguous
import Spruce.Proofs.Reference.Meaning
import Spruce.Proofs.Reference.Sentences
import Spruce.Proofs.Reference.Signs
import Spruce.Proofs.Reference.Acceptance
import Spruce.Proofs.Reference.Failures
import Spruce.Proofs.Tree.Descendants
import Spruce.Proofs.Tree.Substitution
import Spruce.Proofs.Tree.Fields
import Spruce.Proofs.Tree.Names
import Spruce.Proofs.Tree.Equality
import Spruce.Proofs.Token.Cutting
import Spruce.Proofs.Token.Longest
import Spruce.Proofs.Token.Cuts
import Spruce.Proofs.Token.Layout
import Spruce.Proofs.Token.Renaming
import Spruce.Proofs.Token.Joining
import Spruce.Proofs.RoundTrip.Equality
import Spruce.Proofs.RoundTrip.Grammatical
import Spruce.Proofs.RoundTrip.Reads
import Spruce.Proofs.RoundTrip.Atoms
import Spruce.Proofs.RoundTrip.Lists
import Spruce.Proofs.RoundTrip.Expressions
import Spruce.Proofs.RoundTrip.Statements
import Spruce.Proofs.RoundTrip.Printing
import Spruce.Proofs.RoundTrip.Lone
import Spruce.Proofs.RoundTrip.PrintedAlike
import Spruce.Proofs.RoundTrip.Settling
import Spruce.Proofs.Meaning.Alike
import Spruce.Proofs.Meaning.Layout
import Spruce.Proofs.Meaning.Nodes
import Spruce.Proofs.Meaning.Slices
import Spruce.Proofs.Meaning.Spans
import Spruce.Proofs.Meaning.Grammatical
import Spruce.Proofs.Meaning.Carried
import Spruce.Proofs.Meaning.Mentions
import Spruce.Proofs.Meaning.Renaming
import Spruce.Proofs.Meaning.Joined
import Spruce.Proofs.Precedence.Splitting
import Spruce.Proofs.Precedence.Regrouping
import Spruce.Proofs.Precedence.Joining
import Spruce.Proofs.Precedence.Resolving
import Spruce.Proofs.Precedence.Program
import Spruce.Proofs.Precedence.Stretches
import Spruce.Proofs.Precedence.Congruence
import Spruce.Proofs.Precedence.Agreement
import Spruce.Proofs.Meaning.Resolved
import Spruce.Proofs.Meaning.Chains
import Spruce.Proofs.Meaning.Operations
import Spruce.Proofs.Meaning.Invariants
import Spruce.Proofs.Tree.Occurrences
import Spruce.Proofs.Tree.Rebuilding
import Spruce.Proofs.Precedence.Comparisons
import Spruce.Proofs.Tree.Sharing
import Spruce.Proofs.Precedence.Warnings
import Spruce.Proofs.Meaning.Warnings
import Spruce.Proofs.Token.Languages
import Spruce.Proofs.Token.Munch
import Spruce.Proofs.Reference.Positions
import Spruce.Proofs.Meaning.LoneExpressions
import Spruce.Proofs.Reference.Expected
import Spruce.Proofs.Meaning.Assigned
import Spruce.Proofs.Precedence.Leaves
import Spruce.Proofs.Printing.Lines
import Spruce.Proofs.Printing.Inline
import Spruce.Proofs.Printing.Indentation
import Spruce.Proofs.Text.Quoted
import Spruce.Proofs.Tree.FieldTypes
import Spruce.Proofs.Tree.OutlineEquality
import Spruce.Proofs.Tree.DescriptionEquality
import Spruce.Proofs.Number.Grid
import Spruce.Proofs.Number.Rounding
import Spruce.Proofs.Number.Decimals
import Spruce.Proofs.Number.Literals
import Spruce.Proofs.Precedence.Positions
import Spruce.Proofs.Tree.Preorder
import Spruce.Proofs.Precedence.Missing
