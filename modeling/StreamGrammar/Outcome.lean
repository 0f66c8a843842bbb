import StreamGrammar.Chain
import StreamGrammar.Value.Writing

/-! # Outcomes

A parse either is done, with a value and what remains of the input, or failed, with a chain of errors,
or cannot be decided before more input arrives. Failing and being undecided are different: only the
second may change when the input grows. -/

namespace StreamGrammar

universe u v w

/-- How many more symbols a parse asks for. -/
inductive Needed where
  | unknown
  | exact (size : Numeral)
  deriving DecidableEq, Repr

namespace Needed

def size? : Needed → Option Numeral
  | unknown => none
  | exact n => some n

def isKnown (n : Needed) : Bool := n.size?.isSome

def sizeText (n : Needed) : String := (n.size?.map Numeral.text).getD "None"

def same (m n : Needed) : Bool :=
  (m.size?.map Numeral.toInt) == (n.size?.map Numeral.toInt)

def shown (n : Needed) : String := "Needed(size=" ++ n.sizeText ++ ")"

end Needed

inductive Outcome (α : Type u) where
  | done (remaining : View) (output : α)
  | failed (chain : Chain)
  | incomplete (needed : Needed)
  deriving DecidableEq

namespace Outcome

/-- The outcome with its output changed. -/
def map {α : Type u} {β : Type v} (f : α → β) : Outcome α → Outcome β
  | done remaining output => done remaining (f output)
  | failed chain => failed chain
  | incomplete needed => incomplete needed

/-- The outcome with its output changed by a computation, which runs only if there is an output. -/
def mapM {m : Type v → Type w} [Monad m] {α : Type u} {β : Type v} (f : α → m β) :
    Outcome α → m (Outcome β)
  | done remaining output => do return done remaining (← f output)
  | failed chain => return failed chain
  | incomplete needed => return incomplete needed

/-- A failure of one entry at the start of `v`. -/
def failAt {α : Type u} (kind : ErrorKind) (v : View) : Outcome α :=
  failed { innermost := { kind, position := v.start } }

variable {α : Type u} {β : Type v} {γ : Type w}

@[simp] theorem map_done (f : α → β) (v : View) (x : α) : (done v x).map f = done v (f x) := rfl

@[simp] theorem map_failed (f : α → β) (c : Chain) : (failed c).map f = failed c := rfl

@[simp] theorem map_incomplete (f : α → β) (n : Needed) :
    (incomplete n).map f = incomplete n := rfl

@[simp] theorem map_map (f : α → β) (g : β → γ) (o : Outcome α) :
    (o.map f).map g = o.map (g ∘ f) := by
  cases o <;> rfl

theorem map_id (o : Outcome α) : o.map id = o := by
  cases o <;> rfl

/-- Equality of outcomes: of views by content, of outputs as values, of chains without causes. -/
def same : Outcome Value → Outcome Value → Bool
  | done v x, done w y => v.same w && x.same y
  | failed c, failed d => c.same d
  | incomplete m, incomplete n => m.same n
  | _, _ => false

def shown : Outcome Value → String
  | done v x => "Done(remaining=" ++ v.shown ++ ", output=" ++ x.shown ++ ")"
  | failed c => "Failed(error=" ++ c.shown ++ ")"
  | incomplete n => "Incomplete(needed=" ++ n.shown ++ ")"

/-- The short form used in the log. What it shows is written out, which may raise. -/
def summary : Outcome Value → Except Raised String
  | done v x => do
    let output ← x.written
    return s!"Done(consumed to {v.start.text}, output={output})"
  | failed c => return "Failed(" ++ ", ".intercalate (c.kinds.map ErrorKind.text) ++ ")"
  | incomplete n => do
    let needed ← match n.size? with
      | none => pure "unknown"
      | some size => size.written
    return s!"Incomplete(needed={needed})"

end Outcome

end StreamGrammar
