/-! # Integers of fixed width

A format says how many bytes an integer takes, in which order they come and whether the first bit is a
sign. `IntegerFormat.decode` reads the bytes, `IntegerFormat.encode` writes them. -/

namespace StreamGrammar

inductive ByteOrder where
  | big
  | little
  deriving DecidableEq, Repr

structure IntegerFormat where
  width : Nat
  order : ByteOrder
  signed : Bool
  deriving DecidableEq, Repr

/-! ### Natural numbers, most significant byte first -/

/-- The number with these digits in base 256. -/
def natOfBytes (bs : List UInt8) : Nat :=
  bs.foldl (fun n b => 256 * n + b.toNat) 0

/-- The last `width` digits of `n` in base 256. -/
def bytesOfNat : (width : Nat) → (n : Nat) → List UInt8
  | 0, _ => []
  | width + 1, n => bytesOfNat width (n / 256) ++ [UInt8.ofNat (n % 256)]

@[simp] theorem natOfBytes_nil : natOfBytes [] = 0 := rfl

@[simp] theorem natOfBytes_append_singleton (bs : List UInt8) (b : UInt8) :
    natOfBytes (bs ++ [b]) = 256 * natOfBytes bs + b.toNat := by
  simp [natOfBytes]

@[simp] theorem length_bytesOfNat (width n : Nat) : (bytesOfNat width n).length = width := by
  induction width generalizing n with
  | zero => rfl
  | succ width ih => simp [bytesOfNat, ih]

/-! ### Formats -/

namespace IntegerFormat

variable (f : IntegerFormat)

/-- How many integers the format holds. -/
def size : Nat := Nat.pow 256 f.width

def arrange (bs : List UInt8) : List UInt8 :=
  match f.order with
  | .big => bs
  | .little => bs.reverse

/-- In a signed format the upper half of the numbers stands for the negative integers. -/
def decode (bs : List UInt8) : Int :=
  let n := natOfBytes (f.arrange bs)
  if f.signed && f.size ≤ 2 * n then (n : Int) - f.size else n

def encode (n : Int) : List UInt8 :=
  f.arrange (bytesOfNat f.width (n % f.size).toNat)

/-- The byte order, the sign and the number of bits. -/
def name : String :=
  let order := match f.order with
    | .big => "be"
    | .little => "le"
  let sign := if f.signed then "i" else "u"
  s!"{order}_{sign}{8 * f.width}"

end IntegerFormat

end StreamGrammar
