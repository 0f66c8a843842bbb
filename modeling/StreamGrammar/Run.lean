import StreamGrammar.Event
import StreamGrammar.Grammar.Basic

/-! # Runs

A run is a computation of the engine. It reads the threshold of the log and the grammars built so far,
and ends with a result or a fault, the grammars built by then, and the records that it made. Records
are only ever added, so a run cannot depend on them. A run that is not granted enough rounds has no
end at all, which is different from a fault. -/

namespace StreamGrammar

/-- Deferred grammars that have been built. -/
abbrev Cache := List (Key × Grammar)

/-- The end of a run. -/
structure Ended (α : Type) where
  result : Except Fault α
  cache : Cache
  records : List Event

def Run (α : Type) : Type := Level → Cache → Option (Ended α)

namespace Run

variable {α β : Type}

/-- Ends at once with the given result. -/
def ofExcept (r : Except Fault α) : Run α :=
  fun _ cache => some ⟨r, cache, []⟩

protected def pure (a : α) : Run α := ofExcept (.ok a)

def raise (fault : Fault) : Run α := ofExcept (.error fault)

/-- Never ends. -/
def exhausted : Run α := fun _ _ => none

/-- Runs `x` and then, unless it ended in a fault, `f` with its result. -/
protected def bind (x : Run α) (f : α → Run β) : Run β := fun threshold cache =>
  match x threshold cache with
  | none => none
  | some ⟨.error fault, cache, records⟩ => some ⟨.error fault, cache, records⟩
  | some ⟨.ok a, cache, records⟩ =>
    match f a threshold cache with
    | none => none
    | some e => some { e with records := records ++ e.records }

instance : Monad Run where
  pure := Run.pure
  bind := Run.bind

instance : MonadLift (Except Fault) Run := ⟨ofExcept⟩

/-- Makes a record, which is kept if the threshold admits its level. -/
def emit (event : Event) : Run Unit := fun threshold cache =>
  some ⟨.ok (), cache, if threshold.admits event.level then [event] else []⟩

/-- Makes the record of a traced outcome. Where records are written out the outcome is put into words first,
and what that raises ends the run. -/
def report (label : String) (offset : Nat) (outcome : Outcome Value) : Run Unit := fun threshold =>
  if threshold.writes then
    (do
      let _ ← ofExcept (outcome.summary.mapError Fault.unwritten)
      emit (.traced label offset outcome) : Run Unit) threshold
  else emit (.traced label offset outcome) threshold

/-! ### Steps of a run -/

variable (threshold : Level) (cache : Cache)

@[simp] theorem pure_apply (a : α) :
    (pure a : Run α) threshold cache = some ⟨.ok a, cache, []⟩ := rfl

@[simp] theorem ofExcept_apply (r : Except Fault α) :
    ofExcept r threshold cache = some ⟨r, cache, []⟩ := rfl

@[simp] theorem raise_apply (fault : Fault) :
    (raise fault : Run α) threshold cache = some ⟨.error fault, cache, []⟩ := rfl

@[simp] theorem exhausted_apply : (exhausted : Run α) threshold cache = none := rfl

theorem bind_apply (x : Run α) (f : α → Run β) :
    (x >>= f) threshold cache =
      match x threshold cache with
      | none => none
      | some ⟨.error fault, cache, records⟩ => some ⟨.error fault, cache, records⟩
      | some ⟨.ok a, cache, records⟩ =>
        match f a threshold cache with
        | none => none
        | some e => some { e with records := records ++ e.records } := rfl

theorem bind_of_none {x : Run α} (f : α → Run β) (h : x threshold cache = none) :
    (x >>= f) threshold cache = none := by
  simp [bind_apply, h]

theorem bind_of_error {x : Run α} (f : α → Run β) {fault : Fault} {cache' : Cache}
    {records : List Event} (h : x threshold cache = some ⟨.error fault, cache', records⟩) :
    (x >>= f) threshold cache = some ⟨.error fault, cache', records⟩ := by
  simp [bind_apply, h]

theorem bind_of_ok {x : Run α} (f : α → Run β) {a : α} {cache' : Cache} {records : List Event}
    (h : x threshold cache = some ⟨.ok a, cache', records⟩) :
    (x >>= f) threshold cache =
      (f a threshold cache').map fun e => { e with records := records ++ e.records } := by
  simp only [bind_apply, h]
  cases f a threshold cache' <;> rfl

theorem run_id_map (x : Run α) : id <$> x = x := by
  funext threshold cache
  change (x >>= fun a => pure (id a)) threshold cache = x threshold cache
  rw [bind_apply]
  rcases x threshold cache with _ | ⟨_ | a, c, r⟩ <;> simp

theorem run_pure_bind (a : α) (f : α → Run β) : pure a >>= f = f a := by
  funext threshold cache
  rw [bind_apply, pure_apply]
  rcases h : f a threshold cache with _ | ⟨res, c, r⟩ <;> simp [h]

theorem run_bind_assoc {γ : Type} (x : Run α) (f : α → Run β) (g : β → Run γ) :
    x >>= f >>= g = x >>= fun a => f a >>= g := by
  funext threshold cache
  simp only [bind_apply]
  rcases x threshold cache with _ | ⟨_ | a, c, r⟩ <;> simp
  rcases f a threshold c with _ | ⟨_ | b, c', r'⟩ <;> simp
  rcases g b threshold c' with _ | ⟨res, c'', r''⟩ <;> simp

instance : LawfulMonad Run := LawfulMonad.mk' Run run_id_map run_pure_bind run_bind_assoc

end Run

/-- A parser, as the engine runs it. -/
abbrev Parser (α : Type) := View → Run (Outcome α)

end StreamGrammar
