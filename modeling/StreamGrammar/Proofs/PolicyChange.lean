import StreamGrammar.Grammar.Build
import StreamGrammar.Proofs.Contract
import StreamGrammar.Proofs.Yields
import StreamGrammar.Runner

/-! # Streaming and complete versions of a grammar

The complete version of a grammar extends the streaming one (`Grammar.complete_extends_streaming`): where
the streaming version decides, the complete one decides alike. Unless a primitive asks for a fixed number of
symbols, the complete version always decides. -/

namespace StreamGrammar

/-- The primitive with its policy changed, if it has one. -/
def Primitive.withPolicy (policy : Policy) : Primitive → Primitive
  | takeUntil literal _ => takeUntil literal policy
  | unit name expects test _ => unit name expects test policy
  | run name test _ => run name test policy
  | lineEnding _ => lineEnding policy
  | p => p

/-- The grammar with the policy of all its primitives changed. -/
def Grammar.withPolicy (policy : Policy) (g : Grammar) : Grammar :=
  g.mapPrimitives (Primitive.withPolicy policy)

def Definitions.withPolicy (policy : Policy) (defs : Definitions) : Definitions :=
  fun key => (defs key).map (Grammar.withPolicy policy)

theorem Definitions.withPolicy_of_ok {policy : Policy} {defs : Definitions} {key : Key} {g : Grammar}
    (h : defs key = .ok g) : defs.withPolicy policy key = .ok (g.withPolicy policy) := by
  rw [withPolicy, h]
  rfl

theorem Definitions.withPolicy_of_error {policy : Policy} {defs : Definitions} {key : Key} {f : Fault}
    (h : defs key = .error f) : defs.withPolicy policy key = .error f := by
  rw [withPolicy, h]
  rfl

namespace Primitive

/-! ### Primitives -/

/-- The first answer is undecided, or the second is the same. -/
def Settles (r r' : Except Fault (Outcome Value)) : Prop :=
  (∃ n, r = .ok (.incomplete n)) ∨ r = r'

theorem settles_missing (r : Except Fault (Outcome Value)) : Settles (missing 1) r :=
  .inl ⟨_, missing_of_pos Nat.one_pos⟩

variable (v : View)

theorem settles_takeUntil (literal : Chunk) :
    Settles (parseTakeUntil v literal .streaming) (parseTakeUntil v literal .complete) := by
  by_cases hk : literal.kind = v.kind
  · rw [parseTakeUntil_of_kind hk, parseTakeUntil_of_kind hk]
    cases firstOccurrence literal.symbols v.symbols with
    | none => exact .inl ⟨_, rfl⟩
    | some i => exact .inr rfl
  · rw [parseTakeUntil, parseTakeUntil, checkKind_of_ne hk]
    exact .inr rfl

theorem settles_unit (expects : Option (String × Kind)) (test : SymbolTest) :
    Settles (parseUnit v expects test .streaming) (parseUnit v expects test .complete) := by
  have hnone : Settles (parseUnit v none test .streaming) (parseUnit v none test .complete) := by
    cases hs : v.symbol? 0 with
    | none =>
      rw [parseUnit_of_none hs]
      exact settles_missing _
    | some s =>
      rw [parseUnit_of_symbol hs, parseUnit_of_symbol hs]
      exact .inr rfl
  cases expects with
  | none => exact hnone
  | some e =>
    obtain ⟨name, kind⟩ := e
    rw [parseUnit_some, parseUnit_some]
    by_cases hk : kind = v.kind
    · rw [checkKind_of_eq hk]
      exact hnone
    · rw [checkKind_of_ne hk]
      exact .inr rfl

theorem settles_run (test : SymbolTest) :
    Settles (parseRun v test .streaming) (parseRun v test .complete) := by
  cases hl : leading test v.symbols with
  | error e =>
    rw [parseRun_of_error hl, parseRun_of_error hl]
    exact .inr rfl
  | ok n =>
    have hcomplete : ¬ (n = v.length ∧ Policy.complete = .streaming) := fun h => nomatch h.2
    rw [parseRun_of_ok hl, parseRun_of_ok hl, if_neg hcomplete]
    by_cases hn : n = v.length ∧ Policy.streaming = .streaming
    · rw [if_pos hn]
      exact settles_missing _
    · rw [if_neg hn]
      exact .inr rfl

theorem settles_lineEnding :
    Settles (parseLineEnding v .streaming) (parseLineEnding v .complete) := by
  rw [parseLineEnding, parseLineEnding]
  cases v.symbol? 0 with
  | none => exact settles_missing _
  | some first =>
    dsimp only
    split
    · exact .inr rfl
    · split
      · cases v.symbol? 1 with
        | none => exact settles_missing _
        | some second => exact .inr rfl
      · exact .inr rfl

/-- Where the streaming version of a primitive decides, the complete one decides alike. -/
theorem settles_withPolicy (p : Primitive) :
    Settles ((p.withPolicy .streaming).parse v) ((p.withPolicy .complete).parse v) := by
  cases p with
  | takeUntil literal policy => exact settles_takeUntil v literal
  | unit name expects test policy => exact settles_unit v expects test
  | run name test policy => exact settles_run v test
  | lineEnding policy => exact settles_lineEnding v
  | _ => exact .inr rfl

/-- The complete version of a primitive waits for input only if the primitive asks for a fixed number of
symbols. -/
theorem not_waiting_withPolicy {p : Primitive} (hp : p.fixedLength = false) :
    ¬ ((p.withPolicy .complete).fixedLength = true ∨
      (p.withPolicy .complete).policy? = some .streaming) := by
  cases p <;> simp_all [withPolicy, fixedLength, policy?]

end Primitive

/-! ### Grammars -/

/-- There are no undecided outcomes, and only a deferred grammar that cannot be built may give missing input
as the reason. -/
def Contract.decided (defs : Definitions) : Contract where
  limit := True
  chain _ _ := True
  needed _ := False
  fault _ f := ∀ n, f = .inputIncomplete n → ∃ key, defs key = .error f
  fault_suffix _ h := h
  single _ := trivial
  caught := trivial
  within _ _ _ := trivial
  coded _ := trivial

namespace Grammar
variable {defs : Definitions} {g : Grammar} {v : View}

theorem streaming_similar (g : Grammar) :
    (Similarity.identity True False).Grammars (g.withPolicy .streaming) (g.withPolicy .complete) := by
  refine Similarity.identity_mapPrimitives (fun p v => ?_) g
  obtain ⟨n, hn⟩ | heq := Primitive.settles_withPolicy v p
  · exact .inl ⟨_, hn, trivial, n, rfl⟩
  · rw [heq]
    exact Similarity.leaves_rfl _

theorem yields_complete_of_streaming {r : Except Fault (Outcome Value)}
    (hr : (g.withPolicy .streaming).Yields (defs.withPolicy .streaming) v r)
    (hdecided : ∀ n, r ≠ .ok (.incomplete n)) :
    (g.withPolicy .complete).Yields (defs.withPolicy .complete) v r := by
  have hdefs : ∀ key, Correspond (Similarity.identity True False).Faults (Similarity.identity True False).Grammars
      (defs.withPolicy .streaming key) (defs.withPolicy .complete key) :=
    fun key => Similarity.correspond_map fun h _ => streaming_similar h
  obtain ⟨_, rfl, -, n, rfl⟩ | ⟨r', hr', heq⟩ := hr.similar hdefs (streaming_similar g) rfl
  · exact absurd rfl (hdecided n)
  · rwa [Similarity.eq_of_correspond heq]

/-- The grammar is made of combinators and of primitives that do not ask for a fixed number of symbols. -/
def OpenLength (g : Grammar) : Prop :=
  g.Everywhere fun h => (∀ p, h = primitive p → p.fixedLength = false) ∧ ∀ name run, h ≠ custom name run

theorem decided_everywhere (hg : g.OpenLength) :
    (g.withPolicy .complete).Everywhere
      ((Contract.decided defs).Node (fun _ => false) fun _ => True) := by
  refine hg.mapPrimitives fun h hh => Contract.node_of_ofParsing ?_ ?_ ?_
  · rintro v f hf n rfl
    cases hf
  · intro p hp needed hwaiting
    cases h with
    | primitive q =>
      cases hp
      exact Primitive.not_waiting_withPolicy (hh.1 q rfl) hwaiting
    | _ => cases hp
  · intro name run hcustom
    cases h with
    | custom name' run' => exact hh.2 name' run' rfl
    | _ => cases hcustom

theorem decided_parse (hg : g.OpenLength) (hdefs : ∀ key h, defs key = .ok h → h.OpenLength)
    (budget : Nat) (v : View) :
    ((g.withPolicy .complete).parse (defs.withPolicy .complete) budget v).Meets True
      (Cache.Sound (defs.withPolicy .complete)) ((Contract.decided defs).fault v)
      fun o => ∀ n, o ≠ .incomplete n := by
  have hdefines : (Contract.decided defs).Defines (fun _ => false) (defs.withPolicy .complete) := by
    refine ⟨fun key h hh => ?_, fun _ _ _ h => (nomatch h), fun key f hf v n hn => ⟨key, ?_⟩⟩
    all_goals rcases hkey : defs key with f' | h'
    · rw [Definitions.withPolicy_of_error hkey] at hh
      cases hh
    · rw [Definitions.withPolicy_of_ok hkey] at hh
      cases hh
      exact decided_everywhere (hdefs key h' hkey)
    · rw [Definitions.withPolicy_of_error hkey] at hf
      exact hf
    · rw [Definitions.withPolicy_of_ok hkey] at hf
      cases hf
  refine (Contract.parse trivial hdefines (decided_everywhere hg) budget v).mono (fun _ h => h) ?_
  rintro _ ho n rfl
  exact ho

/-- Finishing a parse that is never undecided never reports missing input. -/
theorem parseComplete_meets {I : Cache → Prop} {F : Fault → Prop} {budget : Nat}
    (hparse : (g.parse defs budget v).Meets True I F fun o => ∀ n, o ≠ .incomplete n)
    (hfailed : ∀ c, F (.parseFailed c)) (htrailing : ∀ w, F (.inputTrailing w)) :
    (g.parseComplete defs budget v).Meets True I F fun _ => True := by
  have hfinish : (g.parseFinish defs budget v).Meets True I F fun _ => True := by
    refine hparse.bind ?_
    rintro (⟨rest, x⟩ | c | n) ho
    · exact .pure trivial
    · exact Run.Meets.emit.bind fun _ _ => .raise (hfailed c)
    · exact absurd rfl (ho n)
  refine hfinish.bind ?_
  rintro ⟨rest, x⟩ -
  show Run.Meets True I F _ (if rest.isEmpty = true then _ else _)
  split
  · exact .pure trivial
  · exact Run.Meets.emit.bind fun _ _ => .raise (htrailing rest)

/-- A complete parse reports missing input only if building a deferred grammar did. -/
theorem parseComplete_of_incomplete (hg : g.OpenLength)
    (hdefs : ∀ key h, defs key = .ok h → h.OpenLength) {budget : Nat} {threshold : Level} {cache : Cache}
    {e : Ended Value} {n : Needed} (hc : Cache.Sound (defs.withPolicy .complete) cache)
    (he : (g.withPolicy .complete).parseComplete (defs.withPolicy .complete) budget v threshold cache = some e)
    (hn : e.result = .error (.inputIncomplete n)) : ∃ key, defs key = .error (.inputIncomplete n) := by
  have hparse := decided_parse hg hdefs budget v
  have hmeets := parseComplete_meets hparse (fun c n hf => nomatch hf) (fun w n hf => nomatch hf) .visit cache rfl hc
  obtain ⟨e, hvisit, rfl⟩ := (parseComplete_screened _ budget v _).eq_screen hc he (Ended.not_cutShort hn nofun)
  rw [hvisit] at hmeets
  rcases e with ⟨f | x, c, es⟩
  · cases hn
    exact hmeets.2 n rfl
  · cases hn

/-- Where the streaming version of a grammar decides, the complete version yields the same. If no primitive
asks for a fixed number of symbols, the complete version always decides, so a complete parse never reports
missing input, unless building a deferred grammar did. -/
theorem complete_extends_streaming (g : Grammar) (defs : Definitions) (v : View) :
    (∀ r, (g.withPolicy .streaming).Yields (defs.withPolicy .streaming) v r →
      (∀ n, r ≠ .ok (.incomplete n)) → (g.withPolicy .complete).Yields (defs.withPolicy .complete) v r) ∧
    (g.OpenLength → (∀ key h, defs key = .ok h → h.OpenLength) →
      (∀ n, ¬ (g.withPolicy .complete).Yields (defs.withPolicy .complete) v (.ok (.incomplete n))) ∧
      ∀ budget threshold cache e n, Cache.Sound (defs.withPolicy .complete) cache →
        (g.withPolicy .complete).parseComplete (defs.withPolicy .complete) budget v threshold cache = some e →
          e.result = .error (.inputIncomplete n) → ∃ key, defs key = .error (.inputIncomplete n)) := by
  refine ⟨fun r => yields_complete_of_streaming, fun hg hdefs => ⟨fun n hr => ?_, ?_⟩⟩
  · exact hr.ok_of_meets (fun budget => decided_parse hg hdefs budget v) n rfl
  · intro budget threshold cache e n
    exact parseComplete_of_incomplete hg hdefs

/-- Lines of digits, and words. -/
def linesAndWords : Grammar :=
  many0 (choice (terminated (deferred "number" 0) (lineEnding .complete)) [alpha .streaming])

def linesAndWordsDefs : Definitions := fun _ => .ok (digit .streaming)

def linesAndWordsInput : View := .whole ⟨0, .ofString "12\nab;"⟩

theorem linesAndWords_openLength : linesAndWords.OpenLength := by
  simp [OpenLength, linesAndWords, many0, terminated, lineEnding, alpha, alphabetRun, Primitive.fixedLength]

theorem complete_extends_streaming_linesAndWords :
    (∃ x, (linesAndWords.withPolicy .complete).Yields (linesAndWordsDefs.withPolicy .complete)
      linesAndWordsInput (.ok (.done (linesAndWordsInput.drop 5) x))) ∧
    ∀ n, ¬ (linesAndWords.withPolicy .complete).Yields (linesAndWordsDefs.withPolicy .complete)
      (linesAndWordsInput.take 5) (.ok (.incomplete n)) := by
  have hdefs : ∀ key h, linesAndWordsDefs key = .ok h → h.OpenLength := by
    rintro key _ ⟨⟩
    simp [OpenLength, digit, alphabetRun, Primitive.fixedLength]
  have hstreaming : (linesAndWords.withPolicy .streaming).Yields (linesAndWordsDefs.withPolicy .streaming)
      linesAndWordsInput (.ok (.done (linesAndWordsInput.drop 5)
        (.list [.view (linesAndWordsInput.take 2), .view ((linesAndWordsInput.drop 3).take 2)]))) :=
    .of_result (n := 4) (by decide +kernel)
  refine ⟨⟨_, (complete_extends_streaming _ _ _).1 _ hstreaming fun n h => nomatch h⟩, ?_⟩
  exact ((complete_extends_streaming _ _ _).2 linesAndWords_openLength hdefs).1

end Grammar
end StreamGrammar
