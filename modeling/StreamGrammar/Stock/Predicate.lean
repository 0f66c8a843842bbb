import StreamGrammar.Grammar.Basic
import StreamGrammar.Value.Operation

/-! # Stock tests

Ready-made tests of outputs and of single units. A bound that is no number is found out only when the
test runs. -/

namespace StreamGrammar.ValueTest

def const (b : Bool) : ValueTest := fun _ => .ok b

def isNull : ValueTest := fun x => .ok (x.same .null)

/-- The value is one of the units of a chunk. -/
def isUnitOf (c : Chunk) : ValueTest := fun x => .ok (c.singles.any fun d => x.same (.chunk d))

/-- The number that a bound is. -/
def bound (x : Value) : Except Raised Int :=
  match x.numeral? with
  | some n => .ok n.toInt
  | none => Mishap.raise (.noOrder "<=" x.typeName "int")

/-- The code of a value that is a single unit. -/
def unitCode (x : Value) : Except Raised Nat :=
  let code? := match x with
    | .chunk c => match c.symbols with
      | [s] => some s.code
      | _ => none
    | _ => none
  match code? with
  | some n => .ok n
  | none => Mishap.raise (.noOrder "<=" "int" x.typeName)

/-- The code of a unit lies between two numbers, both included. -/
def inRange (least most : Value) : ValueTest := fun x => do
  let code ← unitCode x
  if code < (← bound least) then return false
  return code ≤ (← bound most)

def negated (test : ValueTest) : ValueTest := fun x => do return !(← test x)

def equals (y : Value) : ValueTest := fun x => .ok (x.same y)

def lengthAtLeast (least : Value) : ValueTest := fun x => do
  let size ← x.size
  return (← bound least) ≤ size

def above (y : Value) : ValueTest := fun x => x.exceeds y

def fail (errorClass : ErrorClass) (text : String) : ValueTest :=
  fun _ => errorClass.raise text

end StreamGrammar.ValueTest
