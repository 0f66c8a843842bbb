import StreamGrammar.Run

/-! # Ordered choice

The first candidate that does not fail decides, even if a later one would consume more. An undecided
candidate decides too, since more input might let it succeed. When all fail, the chain of the last one
is kept, with an entry at the start added to it. -/

namespace StreamGrammar.Parser

variable {α : Type}

def choice : Parser α → List (Parser α) → Parser α
  | p, [], v => do
    match ← p v with
    | .failed chain => return .failed (chain.within .alternativesExhausted v.start)
    | outcome => return outcome
  | p, q :: qs, v => do
    match ← p v with
    | .failed _ => choice q qs v
    | outcome => return outcome

end StreamGrammar.Parser
