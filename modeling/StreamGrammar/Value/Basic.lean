import StreamGrammar.Numeral
import StreamGrammar.View.Basic

/-! # Values

What a grammar yields and what callers hand to it. Outputs are made by the callers' own functions, so
there is one type of values for all of them. A record holds its fields in the order in which they were
bound. -/

namespace StreamGrammar

inductive Value where
  | null
  | bool (b : Bool)
  | int (n : Int)
  | chunk (c : Chunk)
  | list (xs : List Value)
  | tuple (xs : List Value)
  | record (fields : List String) (xs : List Value)
  | view (v : View)

namespace Value

instance : Inhabited Value := ⟨null⟩

def text (s : String) : Value :=
  chunk (.ofString s)

def ofNumeral : Numeral → Value
  | .int n => int n
  | .truth b => bool b

/-- The number that the value is, if it is one. -/
def numeral? : Value → Option Numeral
  | bool b => some (.truth b)
  | int n => some (.int n)
  | _ => none

/-- Name of the type of the value in messages. -/
def typeName : Value → String
  | null => "NoneType"
  | bool _ => "bool"
  | int _ => "int"
  | chunk c => c.typeName
  | list _ => "list"
  | tuple _ => "tuple"
  | record _ _ => "dict"
  | view _ => "Input"

/-- The value holds as a condition: it is neither nothing, zero, nor empty. -/
def truth : Value → Bool
  | null => false
  | bool b => b
  | int n => n != 0
  | chunk c => c.length != 0
  | list xs => !xs.isEmpty
  | tuple xs => !xs.isEmpty
  | record _ xs => !xs.isEmpty
  | view v => !v.isEmpty

/-- The kind of the value as a literal: whatever is no text counts as binary. -/
def literalKind : Value → Kind
  | chunk c => c.kind
  | _ => .binary

/-- The whole of a buffer with this content, if the value can be one. -/
def toBuffer (source : Nat) : Value → Except ViewFault Buffer
  | chunk c => .ok ⟨source, c⟩
  | x => .error (.notABuffer x.typeName)

/-! ### Membership in sets -/

mutual

/-- The first part of a value that cannot be a member of a set. -/
def unhashable? : Value → Option Value
  | chunk (.bytes .growable bs) => some (chunk (.bytes .growable bs))
  | list xs => some (list xs)
  | tuple xs => firstUnhashable? xs
  | record fields xs => some (record fields xs)
  | _ => none

def firstUnhashable? : List Value → Option Value
  | [] => none
  | x :: xs => (unhashable? x).or (firstUnhashable? xs)

end

end Value

end StreamGrammar
