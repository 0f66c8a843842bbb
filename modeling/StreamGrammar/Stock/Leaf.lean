import StreamGrammar.Grammar.Basic

/-! # Stock leaves

Hand-made leaves that answer in a fixed way, for trying out combinators. Some of them break the rules
that primitives keep: they move backwards, cut the end off, or answer with another buffer. -/

namespace StreamGrammar.Leaf

/-- Matches nothing and yields a value. -/
def done (x : Value) : Grammar :=
  .custom "done" fun v => .ok (.done v x)

/-- Fails with an entry of the given kind, which is looked up when the leaf runs. -/
def fail (kind : Value) (code : Option Value) : Grammar :=
  .custom "fail" fun v => do
    let kind ← ErrorKind.of kind
    return .failed { innermost := ← Entry.of kind v.start.written code none }

/-- Asks for more input; an amount that is no number is found out when the leaf runs. -/
def incomplete (size : Value) : Grammar :=
  .custom "incomplete" fun _ =>
    match size, size.numeral? with
    | .null, _ => .ok (.incomplete .unknown)
    | _, some n => do return .incomplete (← Needed.of (some n))
    | _, none => .error (.raised (.mishap (.notANumber size.typeName)))

/-- Goes to an absolute offset; one that is no number is found out when the leaf runs. -/
def jump (offset : Value) : Grammar :=
  .custom "jump" fun v =>
    match offset.numeral? with
    | some n => do
      let length := Numeral.int (v.stop - n.toInt)
      let rest ← (liftM (View.of v.buffer n (some length)) : Except Fault View)
      return .done rest .null
    | none => .error (.raised (.mishap (.notANumber offset.typeName)))

/-- Cuts the last symbol off. -/
def cut : Grammar :=
  .custom "trunc" fun v => do
    let stop := Numeral.int ((v.length : Int) - 1)
    let rest ← (liftM (v.slice 0 (some stop)) : Except Fault View)
    return .done rest .null

/-- Answers with the whole of a buffer other than that of the input. -/
def foreign (x : Value) : Grammar :=
  .custom "foreign" fun v => do
    let buffer ← (liftM (x.toBuffer (v.buffer.source + 1)) : Except Fault Buffer)
    return .done (.whole buffer) .null

/-- Must not be run. -/
def untouchable : Grammar :=
  .custom "untouchable" fun _ => .error (.raised (.thrown .runtime "child parser ran"))

end StreamGrammar.Leaf
