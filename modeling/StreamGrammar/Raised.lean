import StreamGrammar.Value.Printer

/-! # What callers' functions raise

A function supplied by a caller may raise an error of its own choice, given by a class and a text, or
trip over a value on which an operation is not defined. Classes form a small tree, and whoever catches
a class also catches those below it. -/

namespace StreamGrammar

inductive ErrorClass where
  | exception
  | value
  | type
  | runtime
  | member
  | lookup
  | index
  | key
  | arithmetic
  | zeroDivision
  deriving DecidableEq, Repr

namespace ErrorClass

def name : ErrorClass → String
  | exception => "Exception"
  | value => "ValueError"
  | type => "TypeError"
  | runtime => "RuntimeError"
  | member => "AttributeError"
  | lookup => "LookupError"
  | index => "IndexError"
  | key => "KeyError"
  | arithmetic => "ArithmeticError"
  | zeroDivision => "ZeroDivisionError"

def all : List ErrorClass :=
  [exception, value, type, runtime, member, lookup, index, key, arithmetic, zeroDivision]

def ofName? (s : String) : Option ErrorClass :=
  all.find? (·.name == s)

/-- The class right above. -/
def parent? : ErrorClass → Option ErrorClass
  | exception => none
  | index => some lookup
  | key => some lookup
  | zeroDivision => some arithmetic
  | _ => some exception

/-- Class `c` is `d` or stands somewhere above it. -/
def covers (c d : ErrorClass) : Bool :=
  c == d || c == exception || some c == d.parent?

theorem ofName?_name (c : ErrorClass) : ofName? c.name = some c := by
  cases c <;> rfl

end ErrorClass

/-- An operation met a value on which it is not defined. Values are given by the names of their types. -/
inductive Mishap where
  | noLength (typeName : String)
  | noNegation (typeName : String)
  | noSum (left right : String)
  | noOrder (operator left right : String)
  | notANumber (typeName : String)
  | notText (typeName : String)
  | notIterable (typeName : String)
  | notReversible (typeName : String)
  | notHashable (typeName : String)
  /-- The part at `index` cannot be joined to a chunk of kind `wanted`. -/
  | notJoinable (index : Nat) (wanted : Kind) (typeName : String)
  | notSubscriptable (typeName : String)
  | notAnIndex (typeName key : String)
  | indexOutside (typeName : String)
  /-- An index that no sequence can have. -/
  | indexTooLarge
  | byteOutside
  /-- A record has no field with the key, given as it is shown. -/
  | noEntry (key : String)
  | noMember (typeName member : String)
  | argumentCount (function : String)
  /-- Two rows to be paired off are not of the same length; the second is `second` than the first. -/
  | uneven (second : String)
  /-- A number has more than `digitLimit` digits and is to be written out. -/
  | tooManyDigits
  deriving DecidableEq, Repr

namespace Mishap

def errorClass : Mishap → ErrorClass
  | indexOutside _ => .index
  | indexTooLarge => .index
  | byteOutside => .value
  | uneven _ => .value
  | tooManyDigits => .value
  | noEntry _ => .key
  | noMember _ _ => .member
  | _ => .type

/-- Adding to text or a sequence names its type, any other sum both types. -/
def sumText (left right : String) : String :=
  if left == "str" || left == "list" || left == "tuple" then
    s!"can only concatenate {left} (not \"{right}\") to {left}"
  else if left == "bytes" || left == "bytearray" then s!"can't concat {right} to {left}"
  else s!"unsupported operand type(s) for +: '{left}' and '{right}'"

/-- Text, bytes and windows are named in ways of their own. -/
def indexText (typeName : String) : String :=
  match typeName with
  | "str" => "string index out of range"
  | "bytes" => "index out of range"
  | "memoryview" => "index out of bounds on dimension 1"
  | _ => typeName ++ " index out of range"

def keyText (typeName key : String) : String :=
  match typeName with
  | "str" => s!"string indices must be integers, not '{key}'"
  | "bytes" => s!"byte indices must be integers or slices, not {key}"
  | "memoryview" => "memoryview: invalid slice key"
  | _ => s!"{typeName} indices must be integers or slices, not {key}"

def joinText (index : Nat) (wanted : Kind) (typeName : String) : String :=
  let part := match wanted with
    | .text => "str instance"
    | .binary => "a bytes-like object"
  s!"sequence item {index}: expected {part}, {typeName} found"

def text : Mishap → String
  | noLength typeName => s!"object of type '{typeName}' has no len()"
  | noNegation typeName => s!"bad operand type for unary -: '{typeName}'"
  | noSum left right => sumText left right
  | noOrder operator left right =>
    s!"'{operator}' not supported between instances of '{left}' and '{right}'"
  | notANumber typeName => s!"'{typeName}' object cannot be interpreted as an integer"
  | notText typeName => s!"expected string or bytes-like object, got '{typeName}'"
  | notIterable typeName => s!"'{typeName}' object is not iterable"
  | notReversible typeName => s!"'{typeName}' object is not reversible"
  | notHashable typeName => s!"unhashable type: '{typeName}'"
  | notJoinable index wanted typeName => joinText index wanted typeName
  | notSubscriptable typeName => s!"'{typeName}' object is not subscriptable"
  | notAnIndex typeName key => keyText typeName key
  | indexOutside typeName => indexText typeName
  | indexTooLarge => "cannot fit 'int' into an index-sized integer"
  | byteOutside => "bytes must be in range(0, 256)"
  | noEntry key => key
  | noMember typeName member => s!"'{typeName}' object has no attribute '{member}'"
  | argumentCount function => s!"{function}() was given the wrong number of arguments"
  | uneven second => s!"zip() argument 2 is {second} than argument 1"
  | tooManyDigits =>
    s!"Exceeds the limit ({digitLimit} digits) for integer string conversion; " ++
      "use sys.set_int_max_str_digits() to increase the limit"

end Mishap

inductive Raised where
  | thrown (errorClass : ErrorClass) (text : String)
  | mishap (m : Mishap)
  deriving DecidableEq, Repr

namespace Raised

def errorClass : Raised → ErrorClass
  | thrown c _ => c
  | mishap m => m.errorClass

def text : Raised → String
  | thrown _ t => t
  | mishap m => m.text

/-- The text that a report repeats; a mishap is reported by its class alone. -/
def message : Raised → Option String
  | thrown _ t => some t
  | mishap _ => none

/-- What the error was made with: its text, or the key that was not there. -/
def argument : Raised → String
  | mishap (.noEntry key) => key
  | r => Text.quoted r.text.toList

def shown (r : Raised) : String :=
  r.errorClass.name ++ "(" ++ r.argument ++ ")"

end Raised

/-- Ends a function of a caller by a mishap. -/
def Mishap.raise {α : Type} (m : Mishap) : Except Raised α := .error (.mishap m)

/-- Ends a function of a caller by an error of this class. -/
def ErrorClass.raise {α : Type} (c : ErrorClass) (text : String) : Except Raised α :=
  .error (.thrown c text)

end StreamGrammar
