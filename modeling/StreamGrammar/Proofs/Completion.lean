import StreamGrammar.Proofs.LoopLaws
import StreamGrammar.Proofs.Remainder
import StreamGrammar.Runner

/-! # Parsing up to the end of the input

The output of a final input can be asked for in two ways: by a parse that must leave nothing
(`Grammar.parseComplete`), or by letting `endOfInput` follow on the grammar. Both look at one outcome of the grammar and
at nothing else, the first by `Outcome.completed` and the second by `Outcome.ended`, so that they agree case by case. A
fault that the grammar itself raises passes through both, and is kept apart from what the caller of a complete parse is
told about an outcome (`Grammar.Reports`). -/

namespace StreamGrammar

variable {defs : Definitions}

/-- What a complete parse makes of an outcome. -/
def Outcome.completed : Outcome Value → Except Fault Value
  | done rest x => if rest.isEmpty then .ok x else .error (.inputTrailing rest)
  | failed c => .error (.parseFailed c)
  | incomplete k => .error (.inputIncomplete k)

/-- The failure of a sequence from `start` when `rest` should have been empty. -/
def Chain.trailing (start : Position) (rest : View) : Chain :=
  ⟨⟨.eofExpected, rest.start, none, none⟩, [⟨.sequence, start, none, none⟩]⟩

/-- What a sequence from `start` makes of an outcome when the end of the input must follow. -/
def Outcome.ended (start : Position) : Outcome Value → Outcome Value
  | done rest x => if rest.isEmpty then .done rest x else .failed (.trailing start rest)
  | failed c => .failed (c.within .sequence start)
  | incomplete k => .incomplete k

/-- An outcome, what a complete parse makes of it, and what a sequence from `start` makes of it. -/
inductive Concluded (start : Position) : Outcome Value → Except Fault Value → Outcome Value → Prop
  | done {rest : View} {x : Value} : rest.isEmpty = true → Concluded start (.done rest x) (.ok x) (.done rest x)
  | trailing {rest : View} {x : Value} : rest.isEmpty = false →
    Concluded start (.done rest x) (.error (.inputTrailing rest)) (.failed (.trailing start rest))
  | failed (c : Chain) : Concluded start (.failed c) (.error (.parseFailed c)) (.failed (c.within .sequence start))
  | incomplete (k : Needed) : Concluded start (.incomplete k) (.error (.inputIncomplete k)) (.incomplete k)

theorem Outcome.concluded (start : Position) (o : Outcome Value) : Concluded start o o.completed (o.ended start) := by
  rcases o with ⟨rest, x⟩ | c | k
  · rw [completed, ended]
    split
    · next hrest => exact .done hrest
    · next hrest => exact .trailing (Bool.not_eq_true _ ▸ hrest)
  · exact .failed c
  · exact .incomplete k

namespace Grammar
variable {g : Grammar} {v rest : View} {f : Fault}

/-! ### Both ways from the outcome -/

/-- Every complete parse of `v` with enough budget ends with the result `r`, but that it may be cut short where
traces are written out. -/
def Completes (defs : Definitions) (g : Grammar) (v : View) (r : Except Fault Value) : Prop :=
  ∃ budget, ∀ n, budget ≤ n → ∀ threshold cache, Cache.Sound defs cache →
    (g.parseComplete defs n v).ComesTo threshold cache r

theorem steady_finish {α : Type} (o : Outcome α) : (Run.finish o).Steady defs := by
  cases o with
  | done rest x => exact .ofExcept _
  | failed c => exact .emit (.ofExcept _)
  | incomplete k => exact .emit (.ofExcept _)

theorem settles_parseComplete (g : Grammar) (n : Nat) (v : View) :
    (g.parseComplete defs n v).Settles defs ((g.parse defs n v).settled.andThen fun o => some o.completed) := by
  rw [parseComplete, parseFinish, bind_assoc]
  refine .bind (g.parse_steady defs n v) fun o => ⟨?steady, ?eq⟩
  case steady =>
    refine .bind (steady_finish o) fun (rest, x) => ?_
    dsimp only
    split
    · exact .ofExcept _
    · exact .emit (.ofExcept _)
  case eq =>
    rcases o with ⟨rest, x⟩ | c | k
    · rw [Run.finish, pure_bind, Outcome.completed]
      dsimp only
      split <;> rfl
    · rfl
    · rfl

theorem settled_terminated_endOfInput (g : Grammar) (n : Nat) (v : View) :
    ((terminated g endOfInput).parse defs (n + 1) v).settled =
      (g.parse defs (n + 1) v).settled.map (Except.map (Outcome.ended v.start)) := by
  have hend : Parser.Steady defs (endOfInput.parse defs (n + 1)) := endOfInput.parse_steady defs (n + 1)
  rw [terminated, parse_sequence_two,
    (Parser.settles_sequence_two (fun x _ => x) (fun _ _ => rfl) (g.parse_steady defs (n + 1)) hend v).eq]
  rcases (g.parse defs (n + 1) v).settled with _ | f | ⟨rest, x⟩ | c | k
  · rfl
  · rfl
  · have hsettled : (endOfInput.parse defs (n + 1) rest).settled = some (.ok (Primitive.parseEndOfInput rest)) := rfl
    rw [Settled.andThen_ok, Parser.followed, hsettled, Primitive.parseEndOfInput]
    show _ = some (Except.ok (Outcome.ended v.start (.done rest x)))
    rw [Outcome.ended]
    split <;> rfl
  · rfl
  · rfl

/-- What a complete parse comes to is made of the result of the grammar. -/
theorem completes_iff {r : Except Fault Value} :
    g.Completes defs v r ↔ ∃ s, g.Yields defs v s ∧ r = s >>= Outcome.completed := by
  have hresult : ∀ n threshold {cache}, threshold.writes = false → Cache.Sound defs cache →
      (g.parseComplete defs n v threshold cache).map Ended.result =
        (g.parse defs n v).settled.andThen fun o => some o.completed := fun n _ _ hquiet hc => by
    rw [← (settles_parseComplete g n v).eq, (settles_parseComplete g n v).steady.settled_eq hquiet hc]
  constructor
  · rintro ⟨n, hn⟩
    have hnil := Cache.sound_nil defs
    obtain ⟨e, he, rfl⟩ := (hn n (Nat.le_refl n) .silent [] hnil).exists_result rfl
    have hsettled := hresult n .silent rfl hnil
    rw [he, Option.map_some] at hsettled
    rcases hg : (g.parse defs n v).settled with _ | s <;> rw [hg] at hsettled
    · cases hsettled
    · refine ⟨s, .of_settled hg, ?_⟩
      cases s <;> exact Option.some.inj hsettled
  · rintro ⟨s, hs, rfl⟩
    obtain ⟨m, hm⟩ := hs.settled
    refine ⟨m + 1, fun n hn threshold cache hc => ?_⟩
    obtain ⟨n, rfl⟩ : ∃ n', n = n' + 1 := ⟨n - 1, by omega⟩
    have hsettled := hresult (n + 1) .visit rfl hc
    rw [hm n (by omega)] at hsettled
    obtain ⟨e, he, hr⟩ := Option.map_eq_some_iff.1 (hsettled.trans
      (show _ = some (s >>= Outcome.completed) by cases s <;> rfl))
    have hcomes := (parseComplete_screened defs (n + 1) v g).comesTo hc he threshold
    rwa [hr] at hcomes

theorem yields_terminated_endOfInput_iff {r : Except Fault (Outcome Value)} :
    (terminated g endOfInput).Yields defs v r ↔ ∃ s, g.Yields defs v s ∧ r = s.map (Outcome.ended v.start) := by
  constructor
  · intro h
    obtain ⟨n, hn⟩ := h.settled
    have hsettled := hn n (Nat.le_refl n)
    rw [settled_terminated_endOfInput] at hsettled
    obtain ⟨s, hs, rfl⟩ := Option.map_eq_some_iff.1 hsettled
    exact ⟨s, .of_settled hs, rfl⟩
  · rintro ⟨s, hs, rfl⟩
    obtain ⟨n, hn⟩ := hs.settled
    refine .of_settled (n := n + 1) ?_
    rw [settled_terminated_endOfInput, hn n (Nat.le_refl n), Option.map_some]

/-- The caller of a complete parse is told `f`, of an outcome that the grammar has. -/
def Reports (defs : Definitions) (g : Grammar) (v : View) (f : Fault) : Prop :=
  (∃ o, g.Yields defs v (.ok o)) ∧ g.Completes defs v (.error f)

/-- Both ways have come to an end, on one outcome of the grammar. -/
structure Concludes (defs : Definitions) (g : Grammar) (v : View) (o : Outcome Value) (r : Except Fault Value)
    (t : Outcome Value) : Prop where
  yields : g.Yields defs v (.ok o)
  completes : g.Completes defs v r
  terminated : (terminated g endOfInput).Yields defs v (.ok t)
  concluded : Concluded v.start o r t

theorem Yields.concludes {o : Outcome Value} (h : g.Yields defs v (.ok o)) :
    Concludes defs g v o o.completed (o.ended v.start) where
  yields := h
  completes := completes_iff.2 ⟨_, h, rfl⟩
  terminated := yields_terminated_endOfInput_iff.2 ⟨_, h, rfl⟩
  concluded := o.concluded v.start

theorem Completes.concludes {r : Except Fault Value} (h : g.Completes defs v r) :
    (∃ o t, Concludes defs g v o r t) ∨ ∃ f, g.Yields defs v (.error f) ∧ r = .error f := by
  obtain ⟨f | o, hs, rfl⟩ := completes_iff.1 h
  · exact .inr ⟨f, hs, rfl⟩
  · exact .inl ⟨o, _, hs.concludes⟩

theorem Reports.concludes (h : g.Reports defs v f) : ∃ o t, Concludes defs g v o (.error f) t := by
  obtain ⟨⟨o, ho⟩, hf⟩ := h
  obtain hconcludes | ⟨f', hf', -⟩ := hf.concludes
  · exact hconcludes
  · cases ho.unique hf'

theorem Concludes.reports {o t : Outcome Value} (h : Concludes defs g v o (.error f) t) : g.Reports defs v f :=
  ⟨⟨o, h.yields⟩, h.completes⟩

theorem exists_concludes_of_terminated {t : Outcome Value} (h : (terminated g endOfInput).Yields defs v (.ok t)) :
    ∃ o r, Concludes defs g v o r t := by
  obtain ⟨f | o, hs, ht⟩ := yields_terminated_endOfInput_iff.1 h <;> cases ht
  exact ⟨o, _, hs.concludes⟩

theorem yields_error_iff_terminated :
    g.Yields defs v (.error f) ↔ (terminated g endOfInput).Yields defs v (.error f) := by
  rw [yields_terminated_endOfInput_iff]
  constructor
  · exact fun h => ⟨_, h, rfl⟩
  · rintro ⟨f | o, hs, hf⟩ <;> cases hf
    exact hs

/-! ### Case by case -/

/-- How complete parses and parses that the end of the input must follow are related. -/
structure CompletionLaw (defs : Definitions) (g : Grammar) (v : View) : Prop where
  ends : (∃ r, g.Completes defs v r) ↔ ∃ r, (terminated g endOfInput).Yields defs v r
  returned : ∀ x, g.Completes defs v (.ok x) ↔ ∃ rest, (terminated g endOfInput).Yields defs v (.ok (.done rest x))
  incomplete : ∀ k, g.Reports defs v (.inputIncomplete k) ↔
    (terminated g endOfInput).Yields defs v (.ok (.incomplete k))
  failed : ∀ d, (terminated g endOfInput).Yields defs v (.ok (.failed d)) ↔
    (∃ c, g.Reports defs v (.parseFailed c) ∧ d = c.within .sequence v.start) ∨
      ∃ rest, g.Reports defs v (.inputTrailing rest) ∧ d = .trailing v.start rest
  reported : ∀ f, g.Reports defs v f →
    (∃ c diagnostic, f = .parseFailed c ∧ f.diagnostic? = some diagnostic ∧
      diagnostic.position = some c.innermost.position) ∨
    (∃ k, f = .inputIncomplete k) ∨ ∃ rest, f = .inputTrailing rest
  raised : ∀ f, g.Yields defs v (.error f) ↔ (terminated g endOfInput).Yields defs v (.error f)
  raises : ∀ f, g.Completes defs v (.error f) ↔ g.Reports defs v f ∨ g.Yields defs v (.error f)

theorem classified_alike (defs : Definitions) (g : Grammar) (v : View) : CompletionLaw defs g v where
  ends := by
    constructor
    · rintro ⟨_, hr⟩
      obtain ⟨s, hs, -⟩ := completes_iff.1 hr
      exact ⟨_, yields_terminated_endOfInput_iff.2 ⟨s, hs, rfl⟩⟩
    · rintro ⟨_, hr⟩
      obtain ⟨s, hs, -⟩ := yields_terminated_endOfInput_iff.1 hr
      exact ⟨_, completes_iff.2 ⟨s, hs, rfl⟩⟩
  returned x := by
    constructor
    · intro h
      obtain ⟨o, t, -, -, ht, hconcluded⟩ | ⟨f, -, hf⟩ := h.concludes
      · cases hconcluded with
        | @done rest => exact ⟨rest, ht⟩
      · cases hf
    · rintro ⟨rest, h⟩
      obtain ⟨o, r, -, hr, -, hconcluded⟩ := exists_concludes_of_terminated h
      cases hconcluded with
      | done => exact hr
  incomplete k := by
    constructor
    · intro h
      obtain ⟨o, t, -, -, ht, hconcluded⟩ := h.concludes
      cases hconcluded with
      | incomplete => exact ht
    · intro h
      obtain ⟨o, r, hconcludes⟩ := exists_concludes_of_terminated h
      cases hconcludes.concluded with
      | incomplete => exact hconcludes.reports
  failed d := by
    constructor
    · intro h
      obtain ⟨o, r, hconcludes⟩ := exists_concludes_of_terminated h
      cases hconcludes.concluded with
      | trailing => exact .inr ⟨_, hconcludes.reports, rfl⟩
      | failed c => exact .inl ⟨c, hconcludes.reports, rfl⟩
    · rintro (⟨c, h, rfl⟩ | ⟨rest, h, rfl⟩)
      · obtain ⟨o, t, -, -, ht, hconcluded⟩ := h.concludes
        cases hconcluded with
        | failed => exact ht
      · obtain ⟨o, t, -, -, ht, hconcluded⟩ := h.concludes
        cases hconcluded with
        | trailing => exact ht
  reported f hf := by
    obtain ⟨o, t, -, -, -, hconcluded⟩ := hf.concludes
    cases hconcluded with
    | failed c => exact .inl ⟨c, _, rfl, rfl, rfl⟩
    | incomplete k => exact .inr (.inl ⟨k, rfl⟩)
    | @trailing rest => exact .inr (.inr ⟨rest, rfl⟩)
  raised f := yields_error_iff_terminated
  raises f := by
    constructor
    · intro h
      obtain ⟨o, t, hconcludes⟩ | ⟨f', hf', hf⟩ := h.concludes
      · exact .inl hconcludes.reports
      · cases hf
        exact .inr hf'
    · rintro (h | h)
      · exact h.2
      · exact completes_iff.2 ⟨_, h, rfl⟩

/-- What a library grammar leaves over ends where its input ends. -/
theorem Reports.stop_of_library (hg : g.Library) (hdefs : ∀ key h, defs key = .ok h → h.Library)
    (hr : g.Reports defs v (.inputTrailing rest)) : rest.offset + rest.length = v.stop := by
  obtain ⟨o, t, ho, -, -, hconcluded⟩ := hr.concludes
  cases hconcluded with
  | trailing =>
    have hends := fun n => Contract.parse trivial (remainder_defines hdefs) (remainder_everywhere hg) n v
    have hs : rest.SuffixOf v := (ho.ok_of_meets hends).1
    exact hs.stop

/-- A complete parse is a parse that the end of the input follows: the two classify every outcome of the grammar alike,
and let its faults pass. What a library grammar has left over is reported with its place, and the two numbers of the
report add up to the end of the input. -/
theorem complete_is_terminated (defs : Definitions) (g : Grammar) (v : View) :
    CompletionLaw defs g v ∧
    (g.Library → (∀ key h, defs key = .ok h → h.Library) → ∀ rest, g.Reports defs v (.inputTrailing rest) →
      ∃ diagnostic position count, (Fault.inputTrailing rest).diagnostic? = some diagnostic ∧
        diagnostic.position = some position ∧
        diagnostic.message = toString count ++ " unit(s) left unconsumed at offset " ++ position.text ∧
        position.toNat + count = v.stop) := by
  refine ⟨classified_alike defs g v, fun hg hdefs rest hr => ?_⟩
  exact ⟨_, rest.start, rest.length, rfl, rfl, rfl, hr.stop_of_library hg hdefs⟩

/-- Two digits inside a longer text, and a letter behind them. -/
def numberWindow : View := ⟨⟨0, .ofString "(12a)"⟩, .ofNat 1, 3, by decide⟩

theorem complete_is_terminated_numberWindow :
    (digit .complete).Library ∧ (∀ key h, noDefinitions key = .ok h → h.Library) ∧
    (∃ rest, (terminated (digit .complete) endOfInput).Yields noDefinitions (numberWindow.take 2)
      (.ok (.done rest (.view (numberWindow.take 2))))) ∧
    (terminated (digit .complete) endOfInput).Yields noDefinitions numberWindow
      (.ok (.failed (.trailing numberWindow.start (numberWindow.drop 2)))) ∧
    ∃ diagnostic position count, (Fault.inputTrailing (numberWindow.drop 2)).diagnostic? = some diagnostic ∧
      diagnostic.position = some position ∧
      diagnostic.message = toString count ++ " unit(s) left unconsumed at offset " ++ position.text ∧
      position.toNat + count = numberWindow.stop := by
  have hlibrary : (digit .complete).Library := by simp [Library, digit, alphabetRun]
  have hdefs : ∀ key h, noDefinitions key = .ok h → h.Library := by
    intro key h hh
    cases hh
  have hall : (digit .complete).Yields noDefinitions (numberWindow.take 2)
      (.ok (.done ((numberWindow.take 2).drop 2) (.view (numberWindow.take 2)))) :=
    .of_result (n := 1) (by decide +kernel)
  have hpart : (digit .complete).Yields noDefinitions numberWindow
      (.ok (.done (numberWindow.drop 2) (.view (numberWindow.take 2)))) :=
    .of_result (n := 1) (by decide +kernel)
  obtain ⟨hlaw, hreport⟩ := complete_is_terminated noDefinitions (digit .complete) numberWindow
  have htrailing : (digit .complete).Reports noDefinitions numberWindow (.inputTrailing (numberWindow.drop 2)) :=
    hpart.concludes.reports
  refine ⟨hlibrary, hdefs, ?_, ?_, hreport hlibrary hdefs _ htrailing⟩
  · exact ((complete_is_terminated noDefinitions _ (numberWindow.take 2)).1.returned _).1 hall.concludes.completes
  · exact (hlaw.failed _).2 (.inr ⟨_, htrailing, rfl⟩)

end Grammar
end StreamGrammar
