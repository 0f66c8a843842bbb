import StreamGrammar.Raised

/-! # Values written out

`Value.written` makes the text of a value while a parse runs. There it may raise: a number of too many digits
is not put into words, nor is a value that holds one at any depth. -/

namespace StreamGrammar

/-- The text of the number, if it can be written. -/
def Numeral.written (n : Numeral) : Except Raised String :=
  if n.toInt.natAbs < leastUnwritten then .ok n.text else Mishap.tooManyDigits.raise

namespace Value

mutual

/-- All numbers in the value can be written. -/
def isWritable : Value → Bool
  | int n => n.natAbs < leastUnwritten
  | list xs => areWritable xs
  | tuple xs => areWritable xs
  | record _ xs => areWritable xs
  | _ => true

def areWritable : List Value → Bool
  | [] => true
  | x :: xs => isWritable x && areWritable xs

end

/-- The text of the value, as `shown` gives it, if it can be written. -/
def written (x : Value) : Except Raised String :=
  if x.isWritable then .ok x.shown else Mishap.tooManyDigits.raise

end Value

end StreamGrammar
