import StreamGrammar.Grammar.Basic
import StreamGrammar.Stock.Digits

/-! # Stock transformations

Ready-made functions on outputs. -/

namespace StreamGrammar.Transform

def identity : Transform := .ok

def fragment : Transform := fun x => .ok x.raw

def length : Transform := fun x => do return .int (← x.size)

def decimal : Transform := fun x => do return .int (← x.decimal)

def hexadecimal : Transform := fun x => do return .int (← x.inDigits 16 "not hex")

/-- A decimal number that fits into a byte. -/
def octet : Transform := fun x => do
  let n ← x.decimal
  if n > 255 then ErrorClass.raise .value s!"out of range: {n}"
  return .int n

/-- The first unit or element; a record is asked for its field zero. -/
def first : Transform := fun x =>
  let head (xs : List Value) : Except Raised Value :=
    match xs with
    | [] => ErrorClass.raise .index "empty"
    | y :: _ => .ok y
  match x.raw with
  | .chunk c => head (c.singles.map .chunk)
  | .list xs => head xs
  | .tuple xs => head xs
  | .record _ [] => head []
  | .record fields xs => Value.entry fields xs (.int 0)
  | y => Mishap.raise (.noLength y.typeName)

def negation : Transform := fun x =>
  match x.numeral? with
  | some n => .ok (.int (-n.toInt))
  | none => Mishap.raise (.noNegation x.typeName)

def reversal : Transform := fun x => do return .list (← x.reversed)

/-- The elements one after the other, as bytes if the first of them is bytes and as text otherwise. -/
def join : Transform := fun x => do
  let parts := (← x.elements).map Value.raw
  let kind := match parts with
    | .chunk c :: _ => c.kind
    | _ => .text
  return .chunk (← Value.joined kind parts)

def sum : Transform := fun x => do
  (← x.elements).foldlM Value.add (.int 0)

/-- The element at an index, or the value of a field. -/
def item (key : Value) : Transform := fun x => x.item key

def const (x : Value) : Transform := fun _ => .ok x

/-- The functions one after the other, the first one first. -/
def compose (fs : List Transform) : Transform := fun x => fs.foldlM (fun y f => f y) x

/-- The function on each element. -/
def each (f : Transform) : Transform := fun x => do return .list (← (← x.elements).mapM f)

def fail (errorClass : ErrorClass) (text : String) : Transform :=
  fun _ => errorClass.raise text

end StreamGrammar.Transform
