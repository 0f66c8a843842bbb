import StreamGrammar.Grammar.Basic
import StreamGrammar.Primitive.Alphabet
import StreamGrammar.Text.Identifier
import StreamGrammar.Value.Operation

/-! # Building grammars

The constructors that callers use. What can be refused is refused here: literals that are no text or
bytes or are empty, counts out of range, choices and sequences of nothing, slots that are no names or
come twice. -/

namespace StreamGrammar

/-! ### Literals and member sets -/

/-- A literal, with its bytes held for good. -/
def Value.literal : Value → Except Fault Chunk
  | .chunk c => .ok c.fix
  | x => .error (.notALiteral x.typeName)

/-- A literal that is not empty. -/
def Value.nonemptyLiteral (primitive : String) (x : Value) : Except Fault Chunk := do
  let literal ← x.literal
  if literal.length = 0 then throw (.emptyLiteral primitive)
  return literal

/-- Members of a set of symbols, and the kind of input it is for if it was given as text or bytes. A
window on bytes counts as a collection of numbers. -/
def Value.members : Value → Except Raised (List Value × Option Kind)
  | .chunk (.bytes .window bs) => .ok (bs.map fun b => .int b.toNat, none)
  | .chunk c => .ok (c.singles.map .chunk, some c.kind)
  | .list xs => collection xs
  | .tuple xs => collection xs
  | .record fields _ => .ok (fields.map .text, none)
  | x => .error (.mishap (.notIterable x.typeName))
where
  collection (xs : List Value) : Except Raised (List Value × Option Kind) :=
    match Value.firstUnhashable? xs with
    | some x => .error (.mishap (.notHashable x.typeName))
    | none => .ok (xs, none)

/-- The symbol as a value. -/
def Symbol.toValue (s : Symbol) : Value := .chunk s.toChunk

namespace Grammar

/-! ### Primitives -/

def tag (x : Value) : Except Fault Grammar := do
  return primitive (.tag (← x.nonemptyLiteral "tag"))

def tagNoCase (x : Value) : Except Fault Grammar := do
  return primitive (.tagNoCase (← x.nonemptyLiteral "tag_no_case"))

def take (count : Numeral) : Except Fault Grammar :=
  if count.toInt < 1 then .error (.countTooSmall count) else .ok (primitive (.take count))

def takeUntil (x : Value) (policy : Policy) : Except Fault Grammar := do
  return primitive (.takeUntil (← x.nonemptyLiteral "take_until") policy)

/-- One symbol that passes the test. -/
def satisfy (test : ValueTest) (name : String) (policy : Policy) : Grammar :=
  primitive (.unit name none (fun s => test s.toValue) policy)

/-- A number stands for the byte of that value. -/
def byteLiteral (x : Value) : Except Fault Value :=
  match x.numeral? with
  | none => .ok x
  | some _ => do return .chunk (.bytes .fixed [← x.octet])

/-- One given symbol. -/
def char (x : Value) (policy : Policy) : Except Fault Grammar := do
  let literal ← (← byteLiteral x).literal
  match literal.symbols with
  | [expected] =>
    return primitive (.unit s!"char({literal.shown})" (some ("char", literal.kind))
      (fun s => .ok (s == expected)) policy)
  | _ => throw (.notOneUnit literal)

/-- One symbol that is a member, or with `accept = false` one that is not. -/
def memberTest (accept : Bool) (word : String) (x : Value) (policy : Policy) :
    Except Fault Grammar := do
  let (members, kind?) ← x.members
  return primitive (.unit s!"{word}({x.shown})" (kind?.map (word, ·))
    (fun s => .ok (members.any (Value.same s.toValue ·) == accept)) policy)

def oneOf (x : Value) (policy : Policy) : Except Fault Grammar :=
  memberTest true "one_of" x policy

def noneOf (x : Value) (policy : Policy) : Except Fault Grammar :=
  memberTest false "none_of" x policy

def lineEnding (policy : Policy) : Grammar := primitive (.lineEnding policy)

def endOfInput : Grammar := primitive .endOfInput

/-- The longest run of symbols that pass the test. -/
def takeWhile1 (test : ValueTest) (name : String) (policy : Policy) : Grammar :=
  primitive (.run name (fun s => test s.toValue) policy)

/-- The longest run of symbols that do not pass the test. -/
def takeTill1 (test : ValueTest) (name : String) (policy : Policy) : Grammar :=
  takeWhile1 (fun x => do return !(← test x)) name policy

/-- A run of symbols of an alphabet. -/
def alphabetRun (alphabet name : String) (policy : Policy) : Grammar :=
  primitive (.run name (fun s => .ok (Alphabet.holds alphabet s)) policy)

def digit (policy : Policy) : Grammar := alphabetRun Alphabet.digits "digit" policy

def hexDigit (policy : Policy) : Grammar := alphabetRun Alphabet.hexDigits "hex_digit" policy

def octDigit (policy : Policy) : Grammar := alphabetRun Alphabet.octDigits "oct_digit" policy

def alpha (policy : Policy) : Grammar := alphabetRun Alphabet.letters "alpha" policy

def alphanumeric (policy : Policy) : Grammar :=
  alphabetRun (Alphabet.letters ++ Alphabet.digits) "alphanumeric" policy

def space (policy : Policy) : Grammar := alphabetRun Alphabet.spaces "space" policy

def multispace (policy : Policy) : Grammar := alphabetRun Alphabet.multispaces "multispace" policy

def integer (format : IntegerFormat) : Grammar := primitive (.integer format)

/-- The integer formats that have a name of their own. -/
def integerFormats : List IntegerFormat :=
  [⟨1, .big, false⟩, ⟨2, .big, false⟩, ⟨4, .big, false⟩, ⟨8, .big, false⟩, ⟨2, .big, true⟩,
    ⟨4, .big, true⟩, ⟨2, .little, false⟩, ⟨4, .little, false⟩, ⟨8, .little, false⟩,
    ⟨2, .little, true⟩, ⟨4, .little, true⟩]

/-! ### Sequences and choices -/

/-- One step of a sequence, with the slot that takes its output. -/
structure Step where
  slot : Option String
  grammar : Grammar

/-- A step whose output goes into a slot, which must be a name. -/
def Step.bind (slot : String) (g : Grammar) : Except Fault Step :=
  if Text.isIdentifier slot.toList then .ok ⟨some slot, g⟩ else .error (.slotNotAName slot)

/-- A step whose output is not wanted. -/
def Step.discard (g : Grammar) : Step := ⟨none, g⟩

/-- The steps in a row, and then `construct` on the slots. -/
def steps (steps : List Step) (construct : Construct) : Except Fault Grammar :=
  let slots := steps.filterMap Step.slot
  if steps.isEmpty then .error .noStep
  else if ¬ slots.Nodup then .error (.slotsRepeated slots)
  else .ok (sequence (.slots (steps.map Step.slot) construct) (steps.map Step.grammar))

def tuple (gs : List Grammar) : Except Fault Grammar :=
  if gs.isEmpty then .error .noPart else .ok (sequence .tuple gs)

def pair (g h : Grammar) : Grammar := sequence .pair [g, h]

def preceded (before g : Grammar) : Grammar := sequence .preceded [before, g]

def terminated (g after : Grammar) : Grammar := sequence .terminated [g, after]

def delimited (opening g closing : Grammar) : Grammar :=
  sequence .delimited [opening, g, closing]

def separatedPair (g separator h : Grammar) : Grammar :=
  sequence .separatedPair [g, separator, h]

def alt : List Grammar → Except Fault Grammar
  | [] => .error .noCandidate
  | g :: gs => .ok (choice g gs)

/-! ### Repetitions -/

def many0 (g : Grammar) : Grammar := repeated .many0 g

def many1 (g : Grammar) : Grammar := repeated .many1 g

def between (least most : Numeral) (g : Grammar) : Except Fault Grammar :=
  if least.toInt < 0 ∨ most.toInt < least.toInt then .error (.badBounds least most)
  else .ok (repeated (.between least most) g)

def times (g : Grammar) (count : Numeral) : Except Fault Grammar :=
  if count.toInt < 0 then .error (.badTimes count) else .ok (repeated (.times count) g)

def fold0 (g : Grammar) (start : FoldStart) (step : FoldStep) : Grammar :=
  repeated (.fold0 start step) g

def fold1 (g : Grammar) (start : FoldStart) (step : FoldStep) : Grammar :=
  repeated (.fold1 start step) g

def separatedList0 (separator g : Grammar) : Grammar := separated false separator g

def separatedList1 (separator g : Grammar) : Grammar := separated true separator g

/-! ### Adapters -/

variable (g : Grammar)

def optional : Grammar := adapted .optional g

def peek : Grammar := adapted .peek g

def negate : Grammar := adapted .negate g

def recognize : Grammar := adapted .recognize g

def map (f : Transform) : Grammar := adapted (.map f) g

def mapResult (f : Transform) (caught : List ErrorClass) (code : Option Value) : Grammar :=
  adapted (.mapResult f caught code) g

/-- A fixed value in place of the output. -/
def value (x : Value) : Grammar := g.map fun _ => .ok x

def verify (test : ValueTest) : Grammar := adapted (.verify test) g

def context (code : Option Value) : Grammar := adapted (.context code) g

def cond (condition : Value) : Grammar := adapted (.cond condition) g

def condReduce (condition : Value) : Grammar := adapted (.condReduce condition) g

def trace (label : String) : Grammar := adapted (.trace label) g

def renamed (name : String) : Grammar := adapted (.renamed name) g

end Grammar

end StreamGrammar
