import StreamGrammar.Run

/-! # Repetition

A repetition applies its child again and again and stops at the first failure. An undecided child ends
the whole of it, and a child that matches without consuming anything is a fault, since it would go on
for ever. The number of rounds is limited; a loop that needs more has no end. -/

namespace StreamGrammar.Parser

variable {α β γ : Type}

/-- Faults, with a record, if the input did not move. -/
def ensureProgress (combinator : String) (before after : View) : Run Unit :=
  if after.offset = before.offset then do
    Run.emit (.stalled combinator before.start)
    Run.raise (.stalled combinator before.start)
  else pure ()

/-! ### Folding -/

/-- A loop that folds outputs of type `α` into an accumulator of type `β`. -/
structure Loop (α β : Type) where
  word : String
  origin : Position
  least : Nat
  most : Option Nat
  step : β → α → Except Raised β

/-- The loop may not go on after so many matches. -/
def Loop.full (l : Loop α β) (matched : Nat) : Bool :=
  match l.most with
  | none => false
  | some most => most ≤ matched

/-- Goes on with `l` after `matched` matches that gave `acc`. -/
def fold (l : Loop α β) (p : Parser α) : (rounds matched : Nat) → (acc : β) → Parser β
  | 0, matched, acc, v => if l.full matched then pure (.done v acc) else Run.exhausted
  | rounds + 1, matched, acc, v =>
    if l.full matched then pure (.done v acc) else do
      match ← p v with
      | .done rest x =>
        ensureProgress l.word v rest
        let acc ← l.step acc x
        fold l p rounds (matched + 1) acc rest
      | .failed chain =>
        if matched < l.least then return .failed (chain.within .repetition l.origin)
        else return .done v acc
      | .incomplete needed => return .incomplete needed

/-- Adds an output at the end of a list. -/
def collect (xs : List α) (x : α) : Except Raised (List α) :=
  .ok (xs ++ [x])

/-! ### Up to a terminator -/

/-- At each position the terminator is tried first; `xs` are the outputs so far. -/
def manyTill (origin : Position) (p : Parser α) (terminator : Parser γ) :
    (rounds : Nat) → (xs : List α) → Parser (List α × γ)
  | 0, _, _ => Run.exhausted
  | rounds + 1, xs, v => do
    match ← terminator v with
    | .done rest stop => return .done rest (xs, stop)
    | .incomplete needed => return .incomplete needed
    | .failed _ =>
      match ← p v with
      | .done rest x =>
        ensureProgress "many_till" v rest
        manyTill origin p terminator rounds (xs ++ [x]) rest
      | .failed chain => return .failed (chain.within .repetition origin)
      | .incomplete needed => return .incomplete needed

/-! ### With separators -/

/-- Goes on with separators and items after the items `xs`. A separator that no item follows is left
where it is. -/
def separatedTail (word : String) (separator : Parser γ) (p : Parser α) :
    (rounds : Nat) → (xs : List α) → Parser (List α)
  | 0, _, _ => Run.exhausted
  | rounds + 1, xs, v => do
    match ← separator v with
    | .failed _ => return .done v xs
    | .incomplete needed => return .incomplete needed
    | .done between _ =>
      match ← p between with
      | .failed _ => return .done v xs
      | .incomplete needed => return .incomplete needed
      | .done rest x =>
        ensureProgress word v rest
        separatedTail word separator p rounds (xs ++ [x]) rest

/-- Items with separators between them, at least one if `nonempty`. -/
def separated (word : String) (nonempty : Bool) (separator : Parser γ) (p : Parser α)
    (rounds : Nat) : Parser (List α) := fun v => do
  match ← p v with
  | .failed chain =>
    if nonempty then return .failed (chain.within .repetition v.start)
    else return .done v []
  | .incomplete needed => return .incomplete needed
  | .done rest x => separatedTail word separator p rounds [x] rest

end StreamGrammar.Parser
