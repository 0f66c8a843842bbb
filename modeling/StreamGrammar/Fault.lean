import StreamGrammar.Outcome
import StreamGrammar.Policy

/-! # Faults

Everything that ends a construction or a parse other than by an outcome: a grammar that cannot be
built, a view or an entry out of bounds, a literal applied to input of the other kind, an error raised
by a caller's function, a repetition that makes no progress, a record that cannot be written out, and an
outcome that its caller does not accept. The constructors are the causes; `Fault.label` and
`Fault.message` hold the wording. -/

namespace StreamGrammar

inductive Fault where
  -- construction
  | notALiteral (typeName : String)
  | emptyLiteral (primitive : String)
  | countTooSmall (count : Numeral)
  | notOneUnit (literal : Chunk)
  | noCandidate
  | noStep
  | noPart
  | slotNotAName (slot : String)
  | slotsRepeated (slots : List String)
  | badBounds (least most : Numeral)
  | badTimes (times : Numeral)
  | notAMember (enumeration : String) (value : Value)
  -- bounds of data
  | view (fault : ViewFault)
  | positionNegative (position : Int)
  | codeMissing
  | codeUnexpected (kind : ErrorKind)
  | chainEmpty
  | neededTooSmall (size : Numeral)
  | diagnosticPositionNegative (position : Int)
  -- parsing
  | kindMismatch (primitive : String) (literal input : Kind)
  | integerOnText (primitive : String)
  | raised (error : Raised)
  | stalled (combinator : String) (position : Position)
  /-- The output in a record of the log could not be written out. -/
  | unwritten (error : Raised)
  -- outcomes that are not accepted
  | notAnOutcome (value : Value)
  | parseFailed (chain : Chain)
  | inputIncomplete (needed : Needed)
  | inputTrailing (remaining : View)
  deriving DecidableEq

instance : Coe ViewFault Fault := ⟨Fault.view⟩

instance : MonadLift (Except ViewFault) (Except Fault) := ⟨Except.mapError Fault.view⟩

instance : MonadLift (Except Raised) (Except Fault) := ⟨Except.mapError Fault.raised⟩

/-! ### Checked construction -/

/-- An entry at a position that a caller supplies. -/
def Entry.of (kind : ErrorKind) (position : Numeral) (code : Option Value)
    (cause : Option Raised) : Except Fault Entry :=
  match Position.of? position with
  | none => .error (.positionNegative position.toInt)
  | some position =>
    if kind = .custom ∧ code.isNone then .error .codeMissing
    else if kind ≠ .custom ∧ code.isSome then .error (.codeUnexpected kind)
    else .ok { kind, position, code, cause }

def Chain.of : List Entry → Except Fault Chain
  | [] => .error .chainEmpty
  | e :: es => .ok { innermost := e, outer := es }

def Needed.of : Option Numeral → Except Fault Needed
  | none => .ok .unknown
  | some n => if n.toInt < 1 then .error (.neededTooSmall n) else .ok (.exact n)

/-- The member of an enumeration with the text that `value` is. -/
def memberOf {α : Type} (enumeration : String) (ofText? : String → Option α) (value : Value) :
    Except Fault α :=
  let found? := match value with
    | .chunk (.text cs) => ofText? (String.ofList cs)
    | _ => none
  match found? with
  | some a => .ok a
  | none => .error (.notAMember enumeration value)

def Policy.of (value : Value) : Except Fault Policy :=
  memberOf "StreamPolicy" Policy.ofText? value

def ErrorKind.of (value : Value) : Except Fault ErrorKind :=
  memberOf "ErrorKind" ErrorKind.ofText? value

theorem Entry.of_eq_ok_iff {kind : ErrorKind} {position : Numeral} {code : Option Value}
    {cause : Option Raised} {e : Entry} :
    Entry.of kind position code cause = .ok e ↔
      e.kind = kind ∧ e.position.written = position ∧ e.code = code ∧ e.cause = cause ∧
        (kind = .custom ↔ code.isSome) := by
  unfold Entry.of
  cases h : Position.of? position with
  | none =>
    rw [Position.of?_eq_none_iff] at h
    simp only [reduceCtorEq, false_iff]
    rintro ⟨_, rfl, _⟩
    have := e.position.nonneg
    omega
  | some p =>
    rw [Position.of?_eq_some_iff] at h
    subst h
    rw [← Position.ext_iff]
    rcases e with ⟨_, _, _, _⟩
    by_cases hk : kind = .custom <;> cases code <;> simp_all [eq_comm]

theorem Entry.of_custom (p : Position) (code : Value) (cause : Option Raised) :
    Entry.of .custom p.written (some code) cause = .ok ⟨.custom, p, some code, cause⟩ :=
  Entry.of_eq_ok_iff.2 ⟨rfl, rfl, rfl, rfl, by simp⟩

theorem Entry.of_custom_none (p : Position) (cause : Option Raised) :
    Entry.of .custom p.written none cause = .error .codeMissing := by
  simp [Entry.of, Position.of?_eq_some_iff.2 rfl]

end StreamGrammar
