import StreamGrammar.Fault

/-! # Diagnostics

A diagnostic is the structured form of a fault that a caller meets at the edge of the engine: a parse
outcome that was not accepted, or a grammar that cannot end. Also here: the label and the wording of
every fault. -/

namespace StreamGrammar

inductive DiagnosticCode where
  | parseFailed
  | incompleteInput
  | trailingInput
  | infiniteLoop
  deriving DecidableEq, Repr

namespace DiagnosticCode

def name : DiagnosticCode → String
  | parseFailed => "PARSE_FAILED"
  | incompleteInput => "INCOMPLETE_INPUT"
  | trailingInput => "TRAILING_INPUT"
  | infiniteLoop => "INFINITE_LOOP"

/-- Outcomes that were not accepted are numbered from 1001, grammar defects from 2001. -/
def number : DiagnosticCode → Nat
  | parseFailed => 1001
  | incompleteInput => 1002
  | trailingInput => 1003
  | infiniteLoop => 2001

def all : List DiagnosticCode := [parseFailed, incompleteInput, trailingInput, infiniteLoop]

def shown (c : DiagnosticCode) : String := "DiagnosticCode." ++ c.name

def ofName? (s : String) : Option DiagnosticCode :=
  all.find? (·.name == s)

/-- The code with the number that `value` is. -/
def of (value : Value) : Except Fault DiagnosticCode :=
  match all.find? fun c => Value.same value (.int c.number) with
  | some c => .ok c
  | none => .error (.notAMember "DiagnosticCode" value)

theorem ofName?_name (c : DiagnosticCode) : ofName? c.name = some c := by
  cases c <;> rfl

end DiagnosticCode

structure Diagnostic where
  code : DiagnosticCode
  message : String
  position : Option Position := none
  hint : Option String := none
  deriving DecidableEq, Repr

namespace Diagnostic

/-- A position that a caller supplies. -/
def positionOf (position : Numeral) : Except Fault Position :=
  match Position.of? position with
  | some p => .ok p
  | none => .error (.diagnosticPositionNegative position.toInt)

/-- A position as it stands in a message. -/
def placeText (position : Option Position) : String :=
  (position.map Position.text).getD "None"

/-- Code and message, and the hint on a line of its own if there is one. -/
def format (d : Diagnostic) : String :=
  let headline := d.code.name ++ ": " ++ d.message
  match d.hint with
  | none => headline
  | some hint => if hint.isEmpty then headline else headline ++ "\n  = help: " ++ hint

/-! ### The four diagnostics -/

/-- A parse failed where success was required; `kinds` are given innermost first. -/
def ofFailure (position : Option Position) (kinds : List String) : Diagnostic where
  code := .parseFailed
  message :=
    s!"Parse failed at offset {placeText position} (" ++ " <- ".intercalate kinds.reverse ++ ")"
  position := position
  hint := some "Check the input against the grammar"

/-- A parse was undecided where no more data was to come; `needed` is the missing amount in words. -/
def ofIncomplete (needed : Option String) : Diagnostic where
  code := .incompleteInput
  message := match needed with
    | none => "Input ended before the parser could decide (unknown amount needed)"
    | some n => s!"Input ended before the parser could decide ({n} more unit(s) needed)"
  hint := some "Resubmit a longer input, or use StreamPolicy.COMPLETE for final buffers"

/-- A parse left symbols where none was to be left; `count` is their number in words. -/
def ofTrailing (position : Option Position) (count : String) : Diagnostic where
  code := .trailingInput
  message := s!"{count} unit(s) left unconsumed at offset {placeText position}"
  position := position

/-- A repeated grammar matched without consuming anything. -/
def ofStall (combinator : String) (position : Option Position) : Diagnostic where
  code := .infiniteLoop
  message := combinator ++
    s!": child parser matched without consuming input at offset {placeText position}"
  position := position
  hint := some "Repeated parsers must consume at least one unit on success"

end Diagnostic

/-! ### Wording of faults -/

namespace Fault

/-- The diagnostic of a fault that has one. -/
def diagnostic? : Fault → Option Diagnostic
  | stalled combinator position => some (.ofStall combinator (some position))
  | parseFailed chain =>
    some (.ofFailure (some chain.innermost.position) (chain.kinds.map ErrorKind.text))
  | inputIncomplete needed => some (.ofIncomplete (needed.size?.map Numeral.text))
  | inputTrailing remaining =>
    some (.ofTrailing (some remaining.start) (toString remaining.length))
  | _ => none

/-- The name under which a fault is reported. -/
def label : Fault → String
  | notALiteral _ => "TypeError"
  | view (.notABuffer _) => "TypeError"
  | view .otherKind => "TypeError"
  | view (.unitOutside _ _) => "IndexError"
  | kindMismatch _ _ _ => "TypeError"
  | integerOnText _ => "TypeError"
  | notAnOutcome _ => "TypeError"
  | raised error => error.errorClass.name
  | unwritten error => error.errorClass.name
  | stalled _ _ => "InfiniteLoopError"
  | parseFailed _ => "ParseFailedError"
  | inputIncomplete _ => "IncompleteInputError"
  | inputTrailing _ => "TrailingInputError"
  | _ => "ValueError"

/-- The text of a fault; a mishap in a caller's function, in the log or between kinds has none. -/
def message (fault : Fault) : Option String :=
  match fault with
  | notALiteral typeName => some s!"Literal must be str or bytes-like, got {typeName}"
  | emptyLiteral primitive => some s!"{primitive}() literal must not be empty"
  | countTooSmall count => some s!"take() count must be >= 1, got {count.text}"
  | notOneUnit literal => some s!"char() expects exactly one unit, got {literal.shown}"
  | noCandidate => some "alt() requires at least one candidate"
  | noStep => some "sequence() requires at least one step"
  | noPart => some "tuple_() requires at least one parser"
  | slotNotAName slot =>
    some s!"bind() slot must be a valid identifier, got {Text.quoted slot.toList}"
  | slotsRepeated slots =>
    some ("sequence() slot names must be unique, got " ++ (Value.list (slots.map .text)).shown)
  | badBounds least most =>
    some s!"many_m_n() requires 0 <= minimum <= maximum, got {least.text}..{most.text}"
  | badTimes times => some s!"count() requires times >= 0, got {times.text}"
  | notAMember enumeration value => some s!"{value.shown} is not a valid {enumeration}"
  | view fault => fault.message
  | positionNegative position => some s!"ErrorEntry.position must be >= 0, got {position}"
  | codeMissing => some "ErrorKind.CUSTOM entries require a code"
  | codeUnexpected kind => some s!"Only ErrorKind.CUSTOM entries carry a code, got {kind.text}"
  | chainEmpty => some "ErrorChain requires at least one entry"
  | neededTooSmall size => some s!"Needed.size must be >= 1 or None, got {size.text}"
  | diagnosticPositionNegative position =>
    some s!"Diagnostic.position must be >= 0, got {position}"
  | kindMismatch primitive literal input =>
    some s!"{primitive}: {literal.name} literal applied to {input.name} input"
  | integerOnText primitive => some s!"{primitive}: binary number parser applied to text input"
  | raised error => error.message
  | unwritten error => error.message
  | notAnOutcome value => some s!"Not a parse outcome: {value.shown}"
  | stalled .. => fault.diagnostic?.map Diagnostic.format
  | parseFailed .. => fault.diagnostic?.map Diagnostic.format
  | inputIncomplete .. => fault.diagnostic?.map Diagnostic.format
  | inputTrailing .. => fault.diagnostic?.map Diagnostic.format

end Fault

end StreamGrammar
