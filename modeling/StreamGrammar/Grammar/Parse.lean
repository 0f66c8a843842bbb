import StreamGrammar.Parser.Adapter
import StreamGrammar.Parser.Choice
import StreamGrammar.Parser.Repetition
import StreamGrammar.Parser.Sequence

/-! # Parsing with a grammar

`Grammar.interp` turns a grammar into a parser, given what deferred grammars stand for;
`Grammar.parse` ties the knot. Its budget bounds both how deep deferred grammars nest and how many
rounds a repetition makes, and a parse within the budget does not depend on it. -/

namespace StreamGrammar

/-- What builds each deferred grammar. Building may fail, and is tried again at the next use. -/
abbrev Definitions := Key → Except Fault Grammar

/-- The deferred grammar of this key, built at its first use only. -/
def Run.body (defs : Definitions) (name : String) (key : Key) : Run Grammar :=
  fun threshold cache =>
    match cache.lookup key with
    | some g => (do Run.emit (.reached key none); return g) threshold cache
    | none =>
      match defs key with
      | .error fault =>
        (do Run.emit (.reached key (some (.error fault))); Run.raise fault) threshold cache
      | .ok g =>
        (do
          Run.emit (.reached key (some (.ok ())))
          Run.emit (.built key name g.shown)
          return g) threshold ((key, g) :: cache)

/-- A leaf of the grammar, with a record of its visit. -/
def Parser.leaf (run : View → Except Fault (Outcome Value)) : Parser Value := fun v => do
  let result := run v
  Run.emit (.visited v.offset result)
  Run.ofExcept result

/-- The parser that a repetition makes of a parser. -/
def Repetition.parse (r : Repetition) (rounds : Nat) (p : Parser Value) : Parser Value := fun v =>
  let loop {β : Type} (step : β → Value → Except Raised β) : Parser.Loop Value β :=
    { word := r.word, origin := v.start, least := r.least, most := r.most, step }
  match r with
  | fold0 start step => do p.fold (loop step) rounds 0 (← start) v
  | fold1 start step => do p.fold (loop step) rounds 0 (← start) v
  | _ => Outcome.map Value.list <$> p.fold (loop Parser.collect) rounds 0 [] v

namespace Grammar

mutual

/-- The parser of a grammar, where `deferred` runs deferred grammars and repetitions make at most
`rounds` rounds. -/
def interp (rounds : Nat) (deferred : String → Key → Parser Value) : Grammar → Parser Value
  | .primitive p => Parser.leaf p.parse
  | .custom _ run => Parser.leaf run
  | .sequence assembly parts => Parser.sequence assembly.finish (interpAll rounds deferred parts)
  | .choice first rest =>
    Parser.choice (interp rounds deferred first) (interpAll rounds deferred rest)
  | .repeated r g => r.parse rounds (interp rounds deferred g)
  | .manyTill g terminator => fun v =>
    Outcome.map (fun p => .tuple [.list p.1, p.2]) <$>
      Parser.manyTill v.start (interp rounds deferred g) (interp rounds deferred terminator)
        rounds [] v
  | .separated nonempty separator g => fun v =>
    Outcome.map Value.list <$>
      Parser.separated (separatedWord nonempty) nonempty (interp rounds deferred separator)
        (interp rounds deferred g) rounds v
  | .adapted a g => a.parse (interp rounds deferred g)
  | .deferred name key => deferred name key

def interpAll (rounds : Nat) (deferred : String → Key → Parser Value) :
    List Grammar → List (Parser Value)
  | [] => []
  | g :: gs => interp rounds deferred g :: interpAll rounds deferred gs

end

@[simp] theorem interpAll_eq_map (rounds : Nat) (deferred : String → Key → Parser Value)
    (gs : List Grammar) : interpAll rounds deferred gs = gs.map (interp rounds deferred) := by
  induction gs with
  | nil => rfl
  | cons g gs ih => simp [interpAll, ih]

/-- The parser of a grammar within a budget. -/
def parse (defs : Definitions) : (budget : Nat) → Grammar → Parser Value
  | 0, _ => fun _ => Run.exhausted
  | budget + 1, g => g.interp budget fun name key v => do
    let body ← Run.body defs name key
    parse defs budget body v

end Grammar

end StreamGrammar
