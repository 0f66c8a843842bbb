import StreamGrammar.Fault
import StreamGrammar.Value.Operation
import StreamGrammar.View.Search

/-! # Looking for a value in a view

The questions of `View.commonPrefixLength`, `View.startsWith` and `View.find` for whatever a caller may
hand in as a literal. A list or a tuple is compared element by element, where the elements of text are
texts and those of binary data are numbers. -/

namespace StreamGrammar

/-- How many first elements are equal. -/
def commonElements : List Value → List Value → Nat
  | x :: xs, y :: ys => if x.same y then commonElements xs ys + 1 else 0
  | _, _ => 0

namespace View

variable (v : View)

/-- How many first elements the view shares with the elements of a list. -/
def commonWith (xs : List Value) : Nat :=
  commonElements ((Value.chunk v.fragment).row?.getD []) xs

/-- How many first symbols or elements the view and a value share. -/
def commonPrefix (x : Value) : Except Raised Nat :=
  match x with
  | .chunk c => .ok (v.commonPrefixLength c)
  | .list xs => .ok (v.commonWith xs)
  | .tuple xs => .ok (v.commonWith xs)
  | _ => Mishap.raise (.noLength x.typeName)

/-- The view begins with one of the candidates, which are looked at only up to the first that fits. -/
def beginsWithAny : List Value → Except ViewFault Bool
  | [] => .ok false
  | .chunk c :: xs =>
    if !v.sameKind c.kind then .error .otherKind
    else if v.buffer.content.beginsAt c v.offset v.stop then .ok true
    else beginsWithAny xs
  | _ :: _ => .error .otherKind

/-- The view begins with the value. A tuple offers several candidates, but to a window it is a row of
elements. -/
def beginsWith (x : Value) : Except Fault Bool :=
  match x with
  | .chunk c => liftM (v.startsWith c)
  | .list xs => row xs (.error .otherKind)
  | .tuple xs => row xs (v.beginsWithAny xs)
  | _ => liftM (Mishap.raise (.noLength x.typeName) : Except Raised Bool)
where
  row (xs : List Value) (otherwise : Except ViewFault Bool) : Except Fault Bool :=
    if v.length < xs.length then .ok false
    else if v.isWindow then .ok (v.commonWith xs == xs.length)
    else liftM otherwise

/-- Index in the view of the first occurrence of the value; a number stands for a byte. -/
def indexOf (x : Value) : Except Fault (Option Nat) :=
  match x, x.numeral? with
  | .chunk c, _ => liftM (v.find c)
  | _, some _ => do
    if v.kind = .text then throw (.view .otherKind)
    let b ← x.octet
    liftM (v.find (.bytes .fixed [b]))
  | _, none => .error (.view .otherKind)

/-- The hash of the view is that of the value. Nothing hashes as zero does. -/
def hashesAs (x : Value) : Except Raised Bool :=
  match x.unhashable?, x with
  | some y, _ => Mishap.raise (.notHashable y.typeName)
  | none, .chunk c => .ok (hash v == hash c.symbols)
  | none, _ => .ok (v.isEmpty && (x.numeral?.map Numeral.toInt) == some 0)

end View

end StreamGrammar
