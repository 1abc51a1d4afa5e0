import TinyScript.Evaluation.Depth
import TinyScript.Main
import TinyScript.Proofs.Blame.Sources
import TinyScript.Proofs.Collection.Indexing
import TinyScript.Proofs.Collection.Literal
import TinyScript.Proofs.Collection.Sequence
import TinyScript.Proofs.Equality.Comparison
import TinyScript.Proofs.Equality.Keys
import TinyScript.Proofs.Evaluation.Locality
import TinyScript.Proofs.Evaluation.Unwinding
import TinyScript.Proofs.Folding.Reduce
import TinyScript.Proofs.Layout.Insensitivity
import TinyScript.Proofs.Layout.Sources
import TinyScript.Proofs.Layout.Writing
import TinyScript.Proofs.Matching.Tracelessness
import TinyScript.Proofs.Nesting.Invariance
import TinyScript.Proofs.Rendering.Functions
import TinyScript.Proofs.Rendering.Hashes
import TinyScript.Proofs.Rendering.Reparsing
import TinyScript.Proofs.Scope.History
import TinyScript.Proofs.Session.Batch
import TinyScript.Proofs.Session.Following
import TinyScript.Proofs.Session.IdleLines
import TinyScript.Proofs.Soundness.Graph
import TinyScript.Proofs.Soundness.Singletons
import TinyScript.Proofs.Syntax.Accounting
import TinyScript.Proofs.Syntax.Finality
import TinyScript.Proofs.Syntax.Mistakes
import TinyScript.Proofs.Syntax.Order
import TinyScript.Proofs.Token.Printing
