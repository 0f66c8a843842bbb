/-! # Stream policies

What a run of unbounded length does when it reaches the end of the input. -/

namespace StreamGrammar

inductive Policy where
  /-- More data may follow: a run that touches the end is undecided. -/
  | streaming
  /-- The input is final: a run that touches the end ends there. -/
  | complete
  deriving DecidableEq, Repr

namespace Policy

def name : Policy → String
  | streaming => "STREAMING"
  | complete => "COMPLETE"

def text : Policy → String
  | streaming => "streaming"
  | complete => "complete"

def all : List Policy := [streaming, complete]

/-- The policy of primitives that are built without one. -/
def standard : Policy := streaming

def ofText? (s : String) : Option Policy :=
  all.find? (·.text == s)

theorem ofText?_text (p : Policy) : ofText? p.text = some p := by
  cases p <;> rfl

end Policy

end StreamGrammar
