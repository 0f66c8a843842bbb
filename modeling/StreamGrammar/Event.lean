import StreamGrammar.Diagnostic

/-! # Records of the log

What a parse reports besides its result. Every record has a level, and only records at or above a
threshold are kept. Below the levels that are for reading there is one record for each visit of a leaf
or a deferred grammar. -/

namespace StreamGrammar

inductive Level where
  | visit
  | debug
  | info
  | error
  | silent
  deriving DecidableEq, Repr

namespace Level

def rank : Level → Nat
  | visit => 0
  | debug => 1
  | info => 2
  | error => 3
  | silent => 4

/-- At this threshold records of level `level` are kept. -/
def admits (threshold level : Level) : Bool :=
  threshold.rank ≤ level.rank

/-- At this threshold the outcomes in records of level `debug` are put into words as they are recorded. The
threshold below, at which nothing is read, only keeps such records. -/
def writes (threshold : Level) : Bool :=
  threshold == .debug

end Level

/-- The part of the library that makes a record. -/
inductive Channel where
  | leaves
  | repetition
  | deferral
  | runner
  deriving DecidableEq, Repr

inductive Event where
  /-- A leaf of the grammar was run at this offset. -/
  | visited (offset : Nat) (result : Except Fault (Outcome Value))
  /-- A repetition gives up since its child consumed nothing. -/
  | stalled (combinator : String) (position : Position)
  /-- The deferred grammar of this key was reached. Unless it had been built before, its definition ran
  and came to this. -/
  | reached (key : Nat) (attempt : Option (Except Fault Unit))
  /-- The deferred grammar of this key was built. -/
  | built (key : Nat) (name shown : String)
  /-- A failed outcome was not accepted. -/
  | failed (chain : Chain)
  /-- An undecided outcome was not accepted. -/
  | incomplete (needed : Needed)
  /-- A grammar left so many symbols of a final input. -/
  | trailing (name : String) (count : Nat)
  /-- A traced grammar ended. -/
  | traced (label : String) (offset : Nat) (outcome : Outcome Value)

namespace Event

def level : Event → Level
  | visited _ _ => .visit
  | reached _ _ => .visit
  | stalled _ _ => .error
  | _ => .debug

def channel : Event → Channel
  | visited _ _ => .leaves
  | stalled _ _ => .repetition
  | reached _ _ => .deferral
  | built _ _ _ => .deferral
  | _ => .runner

/-- The wording of a record; one whose outcome cannot be put into words has none. Offsets are plain numbers
here, also where a diagnostic shows them in the way they were written. -/
def message : Event → String
  | visited offset _ => s!"Visited offset {offset}"
  | stalled combinator position =>
    "Aborting repetition: " ++ (Diagnostic.ofStall combinator (some position)).message
  | reached key _ => s!"Reached deferred parser {key}"
  | built _ name shown => s!"Built deferred parser {name}: {shown}"
  | failed chain =>
    let kinds := Value.tupleOfTexts (chain.kinds.map ErrorKind.text)
    s!"Parse failed at offset {chain.innermost.position.toNat}: {kinds}"
  | incomplete needed => s!"Parse incomplete, needed={needed.sizeText}"
  | trailing name count => s!"Trailing input after {name}: {count} unit(s)"
  | traced label offset outcome =>
    match outcome.summary with
    | .ok summary => s!"{label} at offset {offset} -> {summary}"
    | .error _ => ""

end Event

end StreamGrammar
