import StreamGrammar.Run

/-! # Running parsers one after the other

The first failure ends the sequence, with an entry at its start added to the chain; the first
undecided outcome ends it as it is. -/

namespace StreamGrammar.Parser

variable {α β : Type}

/-- Each parser runs on what the one before it left; all outputs are collected. -/
def thread (origin : Position) : List (Parser α) → Parser (List α)
  | [], v => pure (.done v [])
  | p :: ps, v => do
    match ← p v with
    | .done rest x => return (← thread origin ps rest).map (x :: ·)
    | .failed chain => return .failed (chain.within .sequence origin)
    | .incomplete needed => return .incomplete needed

/-- The parsers in a row, and then `finish` on their outputs. -/
def sequence (finish : List α → Except Raised β) (ps : List (Parser α)) : Parser β := fun v => do
  (← thread v.start ps v).mapM fun xs => (liftM (finish xs) : Run β)

end StreamGrammar.Parser
