import LambdaQuery.Command
import LambdaQuery.Host.Expr.Equality
import LambdaQuery.Host.Queryable
import LambdaQuery.Main
import LambdaQuery.Proofs.Alike.Compilations
import LambdaQuery.Proofs.Alike.Merged
import LambdaQuery.Proofs.Folding.Evaluation
import LambdaQuery.Proofs.Folding.Maximal
import LambdaQuery.Proofs.Folding.Spelling
import LambdaQuery.Proofs.Folding.Stability
import LambdaQuery.Proofs.Fresh
import LambdaQuery.Proofs.Parameters
import LambdaQuery.Proofs.Scoping
import LambdaQuery.Proofs.Text.Unambiguous
import LambdaQuery.Proofs.Meaning.Alike
import LambdaQuery.Proofs.Meaning.Bounds
import LambdaQuery.Proofs.Meaning.Chains
import LambdaQuery.Proofs.Meaning.Edits
import LambdaQuery.Proofs.Meaning.Inversion
import LambdaQuery.Proofs.Meaning.Operators
import LambdaQuery.Proofs.Kept.Builtins
import LambdaQuery.Proofs.Kept.Expressions
import LambdaQuery.Proofs.Kept.Operators
import LambdaQuery.Proofs.Kept.Unreachable
import LambdaQuery.Proofs.Naming.Paths
import LambdaQuery.Proofs.Renaming.Evaluation
import LambdaQuery.Proofs.Renaming.Folding
import LambdaQuery.Proofs.Renaming.Lexical
import LambdaQuery.Proofs.Renaming.Queries
import LambdaQuery.Proofs.Meaning.Joins
import LambdaQuery.Proofs.Meaning.Sequences
import LambdaQuery.Proofs.Kept.Reported
import LambdaQuery.Proofs.Referenced.Computations
import LambdaQuery.Proofs.Referenced.Flattening
import LambdaQuery.Proofs.Referenced.Operators
import LambdaQuery.Proofs.Referenced.Queries
import LambdaQuery.Proofs.Meaning.Endings
import LambdaQuery.Proofs.Meaning.Nested
import LambdaQuery.Proofs.Meaning.Grouped
import LambdaQuery.Proofs.Json.Expressions
import LambdaQuery.Proofs.Asked.Queries
import LambdaQuery.Proofs.Folding.Compilation
import LambdaQuery.Proofs.Reductions.Queries
import LambdaQuery.Proofs.Naming.Comparisons
import LambdaQuery.Proofs.Denotation.Substitution
import LambdaQuery.Proofs.Meaning.Assembled
import LambdaQuery.Proofs.Naming.Equality
import LambdaQuery.Proofs.Naming.Constants
import LambdaQuery.Proofs.Naming.NonFinite
import LambdaQuery.Proofs.Denotation.Logic
import LambdaQuery.Proofs.Naming.Operations
import LambdaQuery.Proofs.Text.Lines
import LambdaQuery.Proofs.Denotation.Objects
import LambdaQuery.Proofs.Conditions.Queries
import LambdaQuery.Proofs.Text.Escapes
import LambdaQuery.Proofs.Json.Literals
import LambdaQuery.Proofs.Folding.Traversal
import LambdaQuery.Proofs.Number.Exact
import LambdaQuery.Proofs.Naming.CamelCase
import LambdaQuery.Proofs.Supply
