import StreamGrammar.Grammar.Build
import StreamGrammar.Proofs.Contract
import StreamGrammar.Proofs.Yields

/-! # What remains after a match

`Grammar.remaining_suffix`: a grammar made of primitives and combinators leaves a suffix of the view that
it was given, whatever its nesting, and `recognize` yields what lies before that suffix. No parser loses or
re-reads input. -/

namespace StreamGrammar

/-- Anything may happen but that a remainder is refused; only a deferred grammar that cannot be built may
give that reason. -/
def Contract.remainder (defs : Definitions) : Contract where
  limit := True
  chain _ _ := True
  needed _ := True
  fault _ f := f = .view .notASuffix → ∃ key, defs key = .error f
  fault_suffix _ h := h
  single _ := trivial
  caught := trivial
  within _ _ _ := trivial
  coded _ := trivial

namespace Grammar
variable {defs : Definitions} {g : Grammar}

theorem remainder_everywhere (hg : g.Library) :
    g.Everywhere ((Contract.remainder defs).Node (fun _ => false) fun _ => True) := by
  refine Contract.everywhere_of_library ?_ (fun _ => trivial) hg
  rintro v f hf rfl
  cases hf

theorem remainder_defines (hdefs : ∀ key h, defs key = .ok h → h.Library) :
    (Contract.remainder defs).Defines (fun _ => false) defs where
  body key h hh := remainder_everywhere (hdefs key h hh)
  consuming _ _ _ h := nomatch h
  fault key _ hf _ _ := ⟨key, hf⟩

/-- A match yields the view of what lies before the remainder. -/
def Recognized (v : View) (o : Outcome Value) : Prop :=
  ∀ rest x, o = .done rest x → ∃ head, x = .view head ∧ head.buffer = v.buffer ∧
    head.offset = v.offset ∧ head.stop = rest.offset ∧ head.symbols ++ rest.symbols = v.symbols

theorem recognize_meets {p : Parser Value} {v : View} {F : Fault → Prop} {I : Cache → Prop}
    (hp : (p v).Meets True I F fun o => ∀ rest x, o = .done rest x → rest.SuffixOf v) :
    (p.recognize v).Meets True I F (Recognized v) := by
  refine hp.bind ?_
  rintro (⟨rest, x⟩ | c | n) ho
  · obtain ⟨head, hhead, hbuffer, hstart, hstop, hsymbols⟩ := (ho rest x rfl).consumedUntil
    simp only [hhead]
    refine Run.Meets.bind (P := (· = head)) (.pure rfl) ?_
    rintro _ rfl
    refine .pure ?_
    rintro _ _ ⟨⟩
    exact ⟨_, rfl, hbuffer, congrArg Position.toNat hstart, hstop, hsymbols⟩
  · exact .pure fun _ _ h => nomatch h
  · exact .pure fun _ _ h => nomatch h

/-- A match leaves a view of the same buffer that starts in the given view, or at its end, and ends where
it ends. So `recognize` never refuses what its grammar leaves, and what it yields is exactly the symbols
before that. -/
theorem remaining_suffix (hg : g.Library) (hdefs : ∀ key h, defs key = .ok h → h.Library) (v : View) :
    (∀ rest x, g.Yields defs v (.ok (.done rest x)) →
      rest.buffer = v.buffer ∧ v.offset ≤ rest.offset ∧ rest.offset ≤ v.stop ∧ rest.stop = v.stop) ∧
    ((∀ key, defs key ≠ .error (.view .notASuffix)) →
      ¬ g.recognize.Yields defs v (.error (.view .notASuffix))) ∧
    ∀ rest x, g.recognize.Yields defs v (.ok (.done rest x)) →
      ∃ head, x = .view head ∧ head.buffer = v.buffer ∧ head.offset = v.offset ∧
        head.stop = rest.offset ∧ head.symbols ++ rest.symbols = v.symbols := by
  have hends : ∀ {h : Grammar}, h.Library → ∀ n, (h.parse defs n v).Meets True (Cache.Sound defs) _ _ :=
    fun hh n => Contract.parse trivial (remainder_defines hdefs) (remainder_everywhere hh) n v
  refine ⟨fun rest x hr => ?_, fun hnone hr => ?_, fun rest x hr => ?_⟩
  · have hs : rest.SuffixOf v := (hr.ok_of_meets (hends hg)).1
    exact ⟨hs.buffer, hs.offset_le, hs.offset_le_stop, hs.stop⟩
  · have hl : g.recognize.Library := Everywhere.adapted_iff.2 ⟨fun _ _ h => (nomatch h), hg⟩
    obtain ⟨key, hkey⟩ := hr.error_of_meets (hends hl) rfl
    exact hnone key hkey
  · have hrecognized : Recognized v (.done rest x) := by
      refine hr.ok_of_meets (F := (Contract.remainder defs).fault v) fun n => ?_
      cases n with
      | zero => exact .exhausted trivial
      | succ n =>
        refine recognize_meets ((hends hg (n + 1)).mono (fun _ h => h) ?_)
        rintro _ ho rest x rfl
        exact ho.1
    exact hrecognized rest x rfl

/-- A digit inside any number of brackets. -/
def bracketed : Grammar :=
  choice (delimited (primitive (.tag (.ofString "("))) (deferred "bracketed" 0)
    (primitive (.tag (.ofString ")")))) [digit .complete]

def bracketedDefs : Definitions := fun _ => .ok bracketed

/-- The middle of a longer text. -/
def bracketedInput : View := ⟨⟨0, .ofString "a((7))bc"⟩, .ofNat 1, 6, by decide⟩

theorem bracketed_library : bracketed.Library := by
  simp [Library, bracketed, delimited, digit, alphabetRun]

theorem remaining_suffix_bracketed :
    (∃ rest x, bracketed.Yields bracketedDefs bracketedInput (.ok (.done rest x)) ∧
      rest.offset = 6 ∧ rest.stop = bracketedInput.stop) ∧
    ¬ bracketed.recognize.Yields bracketedDefs bracketedInput (.error (.view .notASuffix)) ∧
    ∃ rest head, bracketed.recognize.Yields bracketedDefs bracketedInput (.ok (.done rest (.view head))) ∧
      head.symbols ++ rest.symbols = bracketedInput.symbols := by
  have hdefs : ∀ key h, bracketedDefs key = .ok h → h.Library := by
    rintro key _ ⟨⟩
    exact bracketed_library
  obtain ⟨hsuffix, hraise, hhead⟩ := remaining_suffix bracketed_library hdefs bracketedInput
  have hdone : bracketed.Yields bracketedDefs bracketedInput
      (.ok (.done (bracketedInput.drop 5) (.view ((bracketedInput.drop 2).take 1)))) :=
    .of_result (n := 5) (by decide +kernel)
  have hrecognize : bracketed.recognize.Yields bracketedDefs bracketedInput
      (.ok (.done (bracketedInput.drop 5) (.view (bracketedInput.take 5)))) :=
    .of_result (n := 5) (by decide +kernel)
  refine ⟨⟨_, _, hdone, rfl, (hsuffix _ _ hdone).2.2.2⟩, hraise fun _ h => (nomatch h), _, _, hrecognize, ?_⟩
  obtain ⟨head, heq, -, -, -, hsymbols⟩ := hhead _ _ hrecognize
  cases heq
  exact hsymbols

end Grammar
end StreamGrammar
