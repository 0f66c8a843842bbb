import StreamGrammar.Text.Printable
import StreamGrammar.Text.Identifier
import StreamGrammar.Text.Lowercase
import StreamGrammar.Numeral
import StreamGrammar.Position
import StreamGrammar.Chunk
import StreamGrammar.View.Basic
import StreamGrammar.View.Search
import StreamGrammar.Value.Basic
import StreamGrammar.Value.Equality
import StreamGrammar.Value.Printer
import StreamGrammar.Raised
import StreamGrammar.Value.Operation
import StreamGrammar.Policy
import StreamGrammar.Chain
import StreamGrammar.Outcome
import StreamGrammar.Fault
import StreamGrammar.Value.Search
import StreamGrammar.Diagnostic
import StreamGrammar.Primitive.Integer
import StreamGrammar.Primitive.Alphabet
import StreamGrammar.Primitive.Basic
import StreamGrammar.Grammar.Basic
import StreamGrammar.Event
import StreamGrammar.Run
import StreamGrammar.Grammar.Parse
import StreamGrammar.Runner
import StreamGrammar.Grammar.Build
import StreamGrammar.Stock.Digits
import StreamGrammar.Stock.Transform
import StreamGrammar.Stock.Predicate
import StreamGrammar.Stock.Fold
import StreamGrammar.Stock.Leaf
import StreamGrammar.Vocabulary
import StreamGrammar.Proofs.Suffix
import StreamGrammar.Proofs.Search
import StreamGrammar.Proofs.Subgrammar
import StreamGrammar.Proofs.Primitives
import StreamGrammar.Proofs.RunLogic
import StreamGrammar.Proofs.Contract
import StreamGrammar.Proofs.Similarity
import StreamGrammar.Proofs.Yields
import StreamGrammar.Proofs.Remainder
import StreamGrammar.Proofs.Extension
import StreamGrammar.Proofs.Totality
import StreamGrammar.Proofs.PolicyChange
import StreamGrammar.Proofs.Translation
import StreamGrammar.Proofs.FailureChain
import StreamGrammar.Proofs.Termination
import StreamGrammar.Proofs.Discipline
import StreamGrammar.Proofs.Unmasked
import StreamGrammar.Proofs.Abort
import StreamGrammar.Proofs.Observation
import StreamGrammar.Proofs.Deferral
import StreamGrammar.Proofs.Request
import StreamGrammar.Proofs.LoopLaws
import StreamGrammar.Proofs.Chaining
import StreamGrammar.Proofs.LoopForm
import StreamGrammar.Proofs.LoopSplits
import StreamGrammar.Proofs.LoopFusion
import StreamGrammar.Proofs.LoopCounts
import StreamGrammar.Proofs.Encoding
import StreamGrammar.Proofs.Mirror
import StreamGrammar.Proofs.Rendition
import StreamGrammar.Proofs.Alternatives
import StreamGrammar.Proofs.Stretches
import StreamGrammar.Proofs.SymbolRuns
import StreamGrammar.Proofs.Literals
import StreamGrammar.Proofs.Splitting
import StreamGrammar.Proofs.FixedWidth
import StreamGrammar.Proofs.Completion
import StreamGrammar.Proofs.ByteForms
import StreamGrammar.Proofs.Cuts
import StreamGrammar.Proofs.Lookups
