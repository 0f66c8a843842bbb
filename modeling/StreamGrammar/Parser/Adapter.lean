import StreamGrammar.Run

/-! # Adapters around a single parser

Optional matches, conditions, look-ahead and changes of the output. None of them turns an undecided
outcome into anything else. -/

namespace StreamGrammar

namespace Parser

variable (p : Parser Value) (v : View)

/-- Absence is a match of nothing. -/
def optional : Run (Outcome Value) := do
  match ← p v with
  | .failed _ => return .done v .null
  | outcome => return outcome

/-- Matches without consuming. -/
def peek : Run (Outcome Value) := do
  match ← p v with
  | .done _ x => return .done v x
  | outcome => return outcome

/-- Matches nothing exactly where `p` fails. -/
def negate : Run (Outcome Value) := do
  match ← p v with
  | .done _ _ => return .failAt .notExpected v
  | .failed _ => return .done v .null
  | .incomplete needed => return .incomplete needed

def map (f : Transform) : Run (Outcome Value) := do
  (← p v).mapM fun x => (liftM (f x) : Run Value)

/-- As `map`, but an error of `f` of a caught class is a failure at the start of the input. -/
def mapResult (f : Transform) (caught : List ErrorClass) (code : Option Value) :
    Run (Outcome Value) := do
  match ← p v with
  | .done rest x =>
    match f x with
    | .ok y => return .done rest y
    | .error e =>
      if caught.any (·.covers e.errorClass) then
        return .failed { innermost := ← Entry.of .custom v.start.written code (some e) }
      else Run.raise (.raised e)
  | outcome => return outcome

/-- Yields the view of what `p` consumed. -/
def recognize : Run (Outcome Value) := do
  match ← p v with
  | .done rest _ =>
    let consumed ← (liftM (v.consumedUntil rest) : Except Fault View)
    return .done rest (.view consumed)
  | outcome => return outcome

/-- Keeps a match whose output passes the test. -/
def verify (test : ValueTest) : Run (Outcome Value) := do
  match ← p v with
  | .done rest x =>
    if ← (liftM (test x) : Except Fault Bool) then return .done rest x
    else return .failAt .verifyFailed v
  | outcome => return outcome

/-- Adds an entry with a code of the caller to every failure. -/
def context (code : Option Value) : Run (Outcome Value) := do
  match ← p v with
  | .failed chain => return .failed (chain.wrap (← Entry.of .custom v.start.written code none))
  | outcome => return outcome

/-- Runs `p` only if the condition holds, and otherwise matches nothing. -/
def cond (holds : Bool) : Run (Outcome Value) :=
  if holds then p v else pure (.done v .null)

/-- Runs `p` only if the condition holds, and otherwise fails. -/
def condReduce (holds : Bool) : Run (Outcome Value) :=
  if holds then p v else pure (.failAt .conditionFailed v)

/-- Makes a record of the outcome. -/
def trace (label : String) : Run (Outcome Value) := do
  let outcome ← p v
  Run.report label v.offset outcome
  return outcome

end Parser

/-- The parser that an adapter makes of a parser. -/
def Adapter.parse (a : Adapter) (p : Parser Value) : Parser Value := fun v =>
  match a with
  | optional => p.optional v
  | peek => p.peek v
  | negate => p.negate v
  | map f => p.map v f
  | mapResult f caught code => p.mapResult v f caught code
  | recognize => p.recognize v
  | verify test => p.verify v test
  | context code => p.context v code
  | cond condition => p.cond v condition.truth
  | condReduce condition => p.condReduce v condition.truth
  | trace label => p.trace v label
  | renamed _ => p v

end StreamGrammar
