import StreamGrammar.Raised
import StreamGrammar.Value.Equality

/-! # Error chains

A failure starts with one entry, made by the primitive that rejected the input. A combinator that the
failure passes through may add one entry at the outer end; no entry is ever removed or changed, so the
innermost cause stays available. -/

namespace StreamGrammar

/-- What went wrong in one entry of a chain. -/
inductive ErrorKind where
  | literalMismatch
  | charMismatch
  | predicateFailed
  | alternativesExhausted
  | conditionFailed
  | custom
  | sequence
  | repetition
  | verifyFailed
  | eofExpected
  | notExpected
  deriving DecidableEq, Repr

namespace ErrorKind

def name : ErrorKind → String
  | literalMismatch => "LITERAL_MISMATCH"
  | charMismatch => "CHAR_MISMATCH"
  | predicateFailed => "PREDICATE_FAILED"
  | alternativesExhausted => "ALTERNATIVES_EXHAUSTED"
  | conditionFailed => "CONDITION_FAILED"
  | custom => "CUSTOM"
  | sequence => "SEQUENCE"
  | repetition => "REPETITION"
  | verifyFailed => "VERIFY_FAILED"
  | eofExpected => "EOF_EXPECTED"
  | notExpected => "NOT_EXPECTED"

def text : ErrorKind → String
  | literalMismatch => "literal_mismatch"
  | charMismatch => "char_mismatch"
  | predicateFailed => "predicate_failed"
  | alternativesExhausted => "alternatives_exhausted"
  | conditionFailed => "condition_failed"
  | custom => "custom"
  | sequence => "sequence"
  | repetition => "repetition"
  | verifyFailed => "verify_failed"
  | eofExpected => "eof_expected"
  | notExpected => "not_expected"

def all : List ErrorKind :=
  [literalMismatch, charMismatch, predicateFailed, alternativesExhausted, conditionFailed, custom,
    sequence, repetition, verifyFailed, eofExpected, notExpected]

def ofText? (s : String) : Option ErrorKind :=
  all.find? (·.text == s)

theorem ofText?_text (k : ErrorKind) : ofText? k.text = some k := by
  cases k <;> rfl

def shown (k : ErrorKind) : String :=
  "<ErrorKind." ++ k.name ++ ": " ++ Text.quoted k.text.toList ++ ">"

end ErrorKind

/-! ### Entries -/

/-- One link of a chain. Only custom entries carry a code, and a cause is kept where a caller's
function gave rise to the failure. -/
structure Entry where
  kind : ErrorKind
  position : Position
  code : Option Value := none
  cause : Option Raised := none
  deriving DecidableEq

namespace Entry

/-- Equal codes, or none on both sides. -/
def sameCode : Option Value → Option Value → Bool
  | none, none => true
  | some x, some y => x.same y
  | _, _ => false

/-- Equality leaves the cause out. -/
def same (e f : Entry) : Bool :=
  e.kind == f.kind && e.position.same f.position && sameCode e.code f.code

def shown (e : Entry) : String :=
  let code := (e.code.map Value.shown).getD "None"
  let cause := (e.cause.map Raised.shown).getD "None"
  s!"ErrorEntry(kind={e.kind.shown}, position={e.position.text}, code={code}, cause={cause})"

end Entry

/-! ### Chains -/

/-- Entries from the innermost to the outermost; there is at least one. -/
structure Chain where
  innermost : Entry
  outer : List Entry := []
  deriving DecidableEq

namespace Chain

variable (c : Chain)

def entries : List Entry := c.innermost :: c.outer

def outermost : Entry := c.outer.getLastD c.innermost

/-- The chain with one more entry at its outer end. -/
def wrap (e : Entry) : Chain := { c with outer := c.outer ++ [e] }

def kinds : List ErrorKind := c.entries.map Entry.kind

/-- The chain with a context entry of kind `kind` at `position`. -/
def within (kind : ErrorKind) (position : Position) : Chain := c.wrap ⟨kind, position, none, none⟩

/-- Equality entry by entry. -/
def same (d : Chain) : Bool :=
  c.entries.length == d.entries.length && (c.entries.zipWith Entry.same d.entries).all id

def shown : String :=
  "ErrorChain(entries=" ++ Value.tupled (c.entries.map Entry.shown) ++ ")"

@[simp] theorem entries_wrap (e : Entry) : (c.wrap e).entries = c.entries ++ [e] := rfl

@[simp] theorem outermost_wrap (e : Entry) : (c.wrap e).outermost = e := by
  simp [wrap, outermost, List.getLastD_eq_getLast?]

@[simp] theorem innermost_wrap (e : Entry) : (c.wrap e).innermost = c.innermost := rfl

end Chain

end StreamGrammar
