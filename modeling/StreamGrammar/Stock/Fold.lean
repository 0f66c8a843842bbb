import StreamGrammar.Grammar.Basic
import StreamGrammar.Stock.Digits

/-! # Stock folds and constructors

Ready-made ways to put outputs together: step by step in a repetition, or all at once from the slots
of a sequence. -/

namespace StreamGrammar

namespace FoldStep

def add : FoldStep := fun acc x => acc.add x

def count : FoldStep := fun acc _ => acc.add (.int 1)

/-- One more element at the end of a list, or one more byte behind growable bytes. -/
def append : FoldStep := fun acc x =>
  match acc with
  | .list xs => .ok (.list (xs ++ [x]))
  | .chunk (.bytes .growable bs) => do return .chunk (.bytes .growable (bs ++ [← x.octet]))
  | _ => Mishap.raise (.noMember acc.typeName "append")

def concat : FoldStep := fun acc x => acc.add x.raw

/-- One more decimal digit behind a number. -/
def horner : FoldStep := fun acc x =>
  match acc with
  | .bool b => do return .int ((Numeral.truth b).toInt * 10 + (← x.decimal))
  | .int n => do return .int (n * 10 + (← x.decimal))
  | .null => Mishap.raise (.noSum acc.typeName "int")
  | .chunk (.bytes .window _) => Mishap.raise (.noSum acc.typeName "int")
  | _ => do acc.add (.int (← x.decimal))

def last : FoldStep := fun _ x => .ok x

def nest : FoldStep := fun acc x => .ok (.tuple [acc, x])

def fail (errorClass : ErrorClass) (text : String) : FoldStep :=
  fun _ _ => errorClass.raise text

end FoldStep

namespace Construct

def record : Construct := fun slots => .ok (.record (slots.map (·.1)) (slots.map (·.2)))

def tuple : Construct := fun slots => .ok (.tuple (slots.map (·.2)))

/-- The slots in the order of `names`, which must be exactly theirs. -/
def arguments (names : List String) : Construct := fun slots =>
  if slots.all (fun s => names.contains s.1) && names.all (fun n => (slots.lookup n).isSome) then
    .ok (.tuple (names.filterMap fun n => slots.lookup n))
  else ErrorClass.raise .type "slots do not match"

def fail (errorClass : ErrorClass) (text : String) : Construct :=
  fun _ => errorClass.raise text

end Construct

end StreamGrammar
