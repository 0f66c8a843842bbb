import StreamGrammar.Fault
import StreamGrammar.Primitive.Integer
import StreamGrammar.View.Search

/-! # Primitives

The matchers from which every grammar is built. Each looks at the front of a view: it consumes a part
of it, fails with a single entry at the view's offset and leaves it untouched, or is undecided because
the answer may change once more input arrives. Only `takeUntil` and `endOfInput` may match nothing. -/

namespace StreamGrammar

/-- A test of one symbol, supplied by a caller. -/
abbrev SymbolTest := Symbol → Except Raised Bool

inductive Primitive where
  /-- Exactly the literal. -/
  | tag (literal : Chunk)
  /-- The literal up to the case of each symbol. -/
  | tagNoCase (literal : Chunk)
  /-- So many symbols. -/
  | take (count : Numeral)
  /-- Everything before the first occurrence of the literal. -/
  | takeUntil (literal : Chunk) (policy : Policy)
  /-- One symbol that passes the test; `expects` names the primitive and the kind of input it is for. -/
  | unit (name : String) (expects : Option (String × Kind)) (test : SymbolTest) (policy : Policy)
  /-- The longest run of symbols that pass the test, at least one. -/
  | run (name : String) (test : SymbolTest) (policy : Policy)
  /-- A line feed, alone or after a carriage return. -/
  | lineEnding (policy : Policy)
  /-- Nothing, where nothing is left. -/
  | endOfInput
  /-- An integer of fixed width. -/
  | integer (format : IntegerFormat)

/-- How many first symbols pass the test. -/
def leading (test : SymbolTest) : List Symbol → Except Raised Nat
  | [] => .ok 0
  | s :: ss => do
    if ← test s then return (← leading test ss) + 1 else return 0

namespace Primitive

variable (v : View)

/-! ### The matchers -/

/-- The outcome that consumes the first `n` symbols and yields them. -/
def consume (n : Nat) : Except Fault (Outcome Value) := do
  let (head, rest) ← (liftM (v.splitAt n) : Except Fault (View × View))
  return .done rest (.view head)

/-- Undecided until `n` more symbols are there. -/
def missing (n : Nat) : Except Fault (Outcome Value) := do
  return .incomplete (← Needed.of (some n))

/-- A literal may be applied to input of its own kind only. -/
def checkKind (primitive : String) (kind : Kind) : Except Fault Unit :=
  if v.sameKind kind then .ok () else .error (.kindMismatch primitive kind v.kind)

def parseTag (literal : Chunk) : Except Fault (Outcome Value) := do
  checkKind v "tag" literal.kind
  if ← v.startsWith literal then
    consume v literal.length
  else if v.length < literal.length ∧ v.commonPrefixLength literal = v.length then
    missing (literal.length - v.length)
  else
    return .failAt .literalMismatch v

def parseTagNoCase (literal : Chunk) : Except Fault (Outcome Value) := do
  checkKind v "tag_no_case" literal.kind
  if (v.symbols.zip literal.symbols).any fun p => p.1.lower ≠ p.2.lower then
    return .failAt .literalMismatch v
  else if v.length < literal.length then
    missing (literal.length - v.length)
  else
    consume v literal.length

def parseTake (count : Nat) : Except Fault (Outcome Value) :=
  if v.length < count then missing (count - v.length) else consume v count

def parseTakeUntil (literal : Chunk) (policy : Policy) : Except Fault (Outcome Value) := do
  checkKind v "take_until" literal.kind
  match ← v.find literal, policy with
  | some i, _ => consume v i
  | none, .streaming => return .incomplete .unknown
  | none, .complete => return .failAt .literalMismatch v

def parseUnit (expects : Option (String × Kind)) (test : SymbolTest) (policy : Policy) :
    Except Fault (Outcome Value) := do
  if let some (primitive, kind) := expects then
    checkKind v primitive kind
  match v.symbol? 0, policy with
  | none, .streaming => missing 1
  | none, .complete => return .failAt .charMismatch v
  | some s, _ =>
    if ← test s then return .done (← v.advance 1) (.chunk s.toChunk)
    else return .failAt .charMismatch v

def parseRun (test : SymbolTest) (policy : Policy) : Except Fault (Outcome Value) := do
  let count ← leading test v.symbols
  if count = v.length ∧ policy = .streaming then
    missing 1
  else if count = 0 then
    return .failAt .predicateFailed v
  else
    consume v count

/-- What a line ending does where the input ends too early. -/
def lineCut (policy : Policy) : Except Fault (Outcome Value) :=
  match policy with
  | .streaming => missing 1
  | .complete => .ok (.failAt .charMismatch v)

def parseLineEnding (policy : Policy) : Except Fault (Outcome Value) :=
  match v.symbol? 0 with
  | none => lineCut v policy
  | some first =>
    if first.isAscii '\n' then consume v 1
    else if first.isAscii '\r' then
      match v.symbol? 1 with
      | none => lineCut v policy
      | some second =>
        if second.isAscii '\n' then consume v 2 else .ok (.failAt .charMismatch v)
    else .ok (.failAt .charMismatch v)

def parseEndOfInput : Outcome Value :=
  if v.isEmpty then .done v (.view v) else .failAt .eofExpected v

/-- The bytes of a chunk; text has none. -/
def bytesOf : Chunk → List UInt8
  | .text _ => []
  | .bytes _ bs => bs

def parseInteger (format : IntegerFormat) : Except Fault (Outcome Value) :=
  if v.kind = .text then .error (.integerOnText format.name)
  else if v.length < format.width then missing (format.width - v.length)
  else do
    let (head, rest) ← (liftM (v.splitAt format.width) : Except Fault (View × View))
    return .done rest (.int (format.decode (bytesOf head.fragment)))

/-! ### Primitives as a whole -/

def parse (p : Primitive) (v : View) : Except Fault (Outcome Value) :=
  match p with
  | tag literal => parseTag v literal
  | tagNoCase literal => parseTagNoCase v literal
  | take count => parseTake v count.toNat
  | takeUntil literal policy => parseTakeUntil v literal policy
  | unit _ expects test policy => parseUnit v expects test policy
  | run _ test policy => parseRun v test policy
  | lineEnding policy => parseLineEnding v policy
  | endOfInput => .ok (parseEndOfInput v)
  | integer format => parseInteger v format

def name : Primitive → String
  | tag literal => s!"tag({literal.shown})"
  | tagNoCase literal => s!"tag_no_case({literal.shown})"
  | take count => s!"take({count.text})"
  | takeUntil literal _ => s!"take_until({literal.shown})"
  | unit name _ _ _ => name
  | run name _ policy => s!"{name}[{policy.text}]"
  | lineEnding policy => s!"line_ending[{policy.text}]"
  | endOfInput => "eof"
  | integer format => format.name

end Primitive

end StreamGrammar
