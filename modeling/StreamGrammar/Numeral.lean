/-! # Numerals

A number that a caller wrote. A truth value may stand for one or zero; it counts as that number and is
still shown as the truth value. -/

namespace StreamGrammar

/-- A number of more digits than these is not written out while a parse runs. -/
def digitLimit : Nat := 4300

/-- The least number that is not written out. -/
def leastUnwritten : Nat := Nat.pow 10 digitLimit

inductive Numeral where
  | int (n : Int)
  | truth (b : Bool)
  deriving DecidableEq, Repr

namespace Numeral

def toInt : Numeral → Int
  | int n => n
  | truth b => if b then 1 else 0

/-- The number, zero where it is negative. -/
def toNat (n : Numeral) : Nat :=
  n.toInt.toNat

def text : Numeral → String
  | int n => toString n
  | truth b => if b then "True" else "False"

/-- Equal as numbers. -/
def same (m n : Numeral) : Bool :=
  m.toInt == n.toInt

instance (n : Nat) : OfNat Numeral n := ⟨int n⟩

instance : Coe Nat Numeral := ⟨fun n => int n⟩

@[simp] theorem toInt_int (n : Int) : (int n).toInt = n := rfl

@[simp] theorem toNat_int_natCast (n : Nat) : (int n).toNat = n := rfl

end Numeral

end StreamGrammar
