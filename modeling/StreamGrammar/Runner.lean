import StreamGrammar.Grammar.Parse

/-! # From outcomes to results

Whether a failed or undecided outcome is an error is for the caller to say. `Run.finish` accepts only
a match, `Grammar.parseComplete` only one that leaves nothing of the input. -/

namespace StreamGrammar

/-- The remaining input and the output of a match; every other outcome is a fault, with a record. -/
def Run.finish {α : Type} : Outcome α → Run (View × α)
  | .done remaining output => pure (remaining, output)
  | .failed chain => do
    Run.emit (.failed chain)
    Run.raise (.parseFailed chain)
  | .incomplete needed => do
    Run.emit (.incomplete needed)
    Run.raise (.inputIncomplete needed)

/-- A value that is no outcome is never accepted. -/
def Run.finishValue (x : Value) : Run (View × Value) :=
  Run.raise (.notAnOutcome x)

namespace Grammar

variable (defs : Definitions) (budget : Nat) (g : Grammar)

/-- Parses and finishes. -/
def parseFinish (v : View) : Run (View × Value) := do
  Run.finish (← g.parse defs budget v)

/-- The output of a parse of a final input, all of which must be consumed. -/
def parseComplete (v : View) : Run Value := do
  let (remaining, output) ← g.parseFinish defs budget v
  if remaining.isEmpty then return output
  else
    Run.emit (.trailing g.name remaining.length)
    Run.raise (.inputTrailing remaining)

end Grammar

end StreamGrammar
