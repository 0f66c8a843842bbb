import StreamGrammar.Value.Operation

/-! # Numbers written in digits

Text, bytes and views may write a natural number in ASCII digits of a base up to sixteen. What they
write instead of one is an error with a text of its own; any other value cannot be read at all. -/

namespace StreamGrammar.Value

/-- The value of an ASCII digit of base at most sixteen. -/
def digitValue? (n : Nat) : Option Nat :=
  if 48 ≤ n ∧ n ≤ 57 then some (n - 48)
  else if 97 ≤ n ∧ n ≤ 102 then some (n - 87)
  else if 65 ≤ n ∧ n ≤ 70 then some (n - 55)
  else none

/-- The number with the given digits, if there are any and all are below the base. -/
def numberOf? (base : Nat) (codes : List Nat) : Option Nat :=
  if codes.isEmpty then none
  else codes.foldlM (fun n code => do
    let d ← digitValue? code
    if d < base then some (base * n + d) else none) 0

/-- The number that a text or a view writes in digits. -/
def inDigits (base : Nat) (complaint : String) (x : Value) : Except Raised Nat :=
  match x.raw with
  | chunk c => match numberOf? base (c.symbols.map Symbol.code) with
    | some n => .ok n
    | none => ErrorClass.raise .value complaint
  | y => Mishap.raise (.notText y.typeName)

def decimal (x : Value) : Except Raised Nat := inDigits 10 "not decimal" x

end StreamGrammar.Value
