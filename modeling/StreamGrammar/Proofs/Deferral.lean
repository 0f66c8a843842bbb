import StreamGrammar.Proofs.Observation

/-! # Deferred grammars

A deferred grammar is built where it is first reached, however deep inside other grammars and inside itself that
is, and is then kept for the rest of the parse and for all later ones. `Grammar.deferred_built_once`: a sequence
of parses that share what they build comes to the same results as when every use builds afresh, and every
definition runs until it succeeds and then never again.

The second part is about what happened and in which order, so it is proved of the records of all parses together.
`Builds` reads them one after the other and replays the cache along them; the cache is what the statement itself
does not mention. -/

namespace StreamGrammar

/-! ### Building afresh -/

section Fresh
variable {T : Level → Level → Prop} {defs : Definitions} {J : Cache → Prop} {F : Fault → Fault → Prop}
  {E : Grammar → Prop}

/-- Asking for a deferred grammar comes to what its definition comes to. -/
theorem Run.Follows.body_definition (hF : ∀ f, F f f) (name : String) (key : Key) :
    Run.Follows T (Cache.Sound defs) J F E (· = ·) (Run.body defs name key) (Run.ofExcept (defs key)) := by
  intro s t c d e hst hc hd he
  obtain ⟨e', he', hr, hc'⟩ := Run.body_eq hc name key s
  rw [he] at he'
  cases he'
  refine ⟨hc', .inr ⟨_, rfl, hd, ?_⟩⟩
  rw [hr]
  exact (Correspond.refl _).mono (fun f _ h => h ▸ hF f) fun _ _ h => h

theorem Run.Follows.definition_body (hF : ∀ f, F f f) (name : String) (key : Key) :
    Run.Follows T J (Cache.Sound defs) F E (· = ·) (Run.ofExcept (defs key)) (Run.body defs name key) := by
  rintro s t c d _ hst hc hd ⟨⟩
  obtain ⟨e', he', hr, hd'⟩ := Run.body_eq hd name key t
  refine ⟨hc, .inr ⟨e', he', hd', ?_⟩⟩
  rw [hr]
  exact (Correspond.refl _).mono (fun f _ h => h ▸ hF f) fun _ _ h => h

end Fresh

namespace Grammar

/-- The parser that builds a deferred grammar anew at each use. -/
def parseFresh (defs : Definitions) : (budget : Nat) → Grammar → Parser Value
  | 0, _ => fun _ => Run.exhausted
  | budget + 1, g => g.interp budget fun _ key v => do
    let body ← Run.ofExcept (defs key)
    parseFresh defs budget body v

theorem parse_agrees_fresh (defs : Definitions) (n : Nat) (g : Grammar) (v : View) :
    Run.Agree Level.Alike (Cache.Sound defs) (fun _ => True) (g.parse defs n v) (g.parseFresh defs n v) := by
  have hsame : ∀ f, (Similarity.identity False True).Faults f f := fun f => .same trivial
  have hleft : (Similarity.identity False True).Parsers (Cache.Sound defs) (fun _ => True) (· = ·)
      (g.parse defs n) (g.parseFresh defs n) := by
    induction n generalizing g with
    | zero => exact fun _ _ _ => .exhausted
    | succ n ih =>
      refine Similarity.interp (Similarity.identity_rfl g) (Nat.le_refl n) fun name _ key v w hv => ?_
      refine Run.Follows.bind (E := fun _ => False) (.body_definition hsame name key) (fun _ h => h.elim) ?_
      rintro body _ rfl
      exact ih body v w hv
  have hright : (Similarity.identity False True).Parsers (fun _ => True) (Cache.Sound defs) (· = ·)
      (g.parseFresh defs n) (g.parse defs n) := by
    clear hleft
    induction n generalizing g with
    | zero => exact fun _ _ _ => .exhausted
    | succ n ih =>
      refine Similarity.interp (Similarity.identity_rfl g) (Nat.le_refl n) fun _ name key v w hv => ?_
      refine Run.Follows.bind (E := fun _ => False) (.definition_body hsame name key) (fun _ h => h.elim) ?_
      rintro body _ rfl
      exact ih body v w hv
  exact Similarity.agree_of_runs (fun s t hst => ⟨hst, fun _ => trivial⟩) (hleft v v rfl) (hright v v rfl)

/-! ### A sequence of parses -/

/-- Parses one input after the other, each with what the parses before it have built. -/
def parseEach (defs : Definitions) (n : Nat) (threshold : Level) :
    Cache → List (Grammar × View) → Option (List (Ended (Outcome Value)))
  | _, [] => some []
  | cache, (g, v) :: inputs => do
    let e ← g.parse defs n v threshold cache
    return e :: (← parseEach defs n threshold e.cache inputs)

variable {defs : Definitions} {n : Nat} {threshold : Level} {cache : Cache}

theorem parseEach_cons {g : Grammar} {v : View} {inputs : List (Grammar × View)}
    {es : List (Ended (Outcome Value))} (h : parseEach defs n threshold cache ((g, v) :: inputs) = some es) :
    ∃ e es', g.parse defs n v threshold cache = some e ∧ parseEach defs n threshold e.cache inputs = some es' ∧
      es = e :: es' := by
  rw [parseEach] at h
  cases he : g.parse defs n v threshold cache with
  | none => rw [he] at h; cases h
  | some e =>
    rw [he, Option.bind_eq_bind, Option.bind_some] at h
    cases hes : parseEach defs n threshold e.cache inputs with
    | none => rw [hes] at h; cases h
    | some es' =>
      rw [hes] at h
      cases h
      exact ⟨e, es', rfl, hes, rfl⟩

theorem parseEach_results (hcache : Cache.Sound defs cache) (inputs : List (Grammar × View)) :
    (parseEach defs n threshold cache inputs).map (List.map Ended.result) =
      inputs.mapM fun p => (p.1.parseFresh defs n p.2 threshold []).map Ended.result := by
  induction inputs generalizing cache with
  | nil => rfl
  | cons p inputs ih =>
    obtain ⟨g, v⟩ := p
    have hagree := parse_agrees_fresh defs n g v
    have hresult : (g.parse defs n v threshold cache).map Ended.result =
        (g.parseFresh defs n v threshold []).map Ended.result := hagree.result_eq rfl hcache trivial
    rw [List.mapM_cons, ← hresult, parseEach]
    cases he : g.parse defs n v threshold cache with
    | none => rfl
    | some e =>
      have hsound : Cache.Sound defs e.cache := (hagree.left threshold threshold cache [] e rfl hcache trivial he).1
      simp only [Option.map_some, Option.bind_eq_bind, Option.bind_some, ← ih hsound]
      cases parseEach defs n threshold e.cache inputs <;> rfl

theorem parseEach_screened (hquiet : threshold.writes = false) (hcache : Cache.Sound defs cache)
    (inputs : List (Grammar × View)) :
    parseEach defs n threshold cache inputs =
      (parseEach defs n .visit cache inputs).map (List.map (Ended.screen threshold)) := by
  induction inputs generalizing cache with
  | nil => rfl
  | cons p inputs ih =>
    obtain ⟨g, v⟩ := p
    have hscreened := parse_screened defs n v g
    rw [parseEach, parseEach, hscreened.screen hcache (s := .visit) rfl hquiet (Nat.zero_le _)]
    cases he : g.parse defs n v .visit cache with
    | none => rfl
    | some e =>
      have hsound : Cache.Sound defs e.cache := hscreened.sound hcache he
      have htail : parseEach defs n threshold (e.screen threshold).cache inputs =
          (parseEach defs n .visit e.cache inputs).map (List.map (Ended.screen threshold)) := ih hsound
      simp only [Option.map_some, Option.bind_eq_bind, Option.bind_some, htail]
      cases parseEach defs n .visit e.cache inputs <;> rfl

/-- Parses of which none is cut short only screen the records, also where traces are written out. -/
theorem parseEach_eq_screen {inputs : List (Grammar × View)} {es : List (Ended (Outcome Value))}
    (hcache : Cache.Sound defs cache) (hes : parseEach defs n threshold cache inputs = some es)
    (hcut : ∀ e ∈ es, ¬ e.CutShort threshold) :
    ∃ es', parseEach defs n .visit cache inputs = some es' ∧ es = es'.map (Ended.screen threshold) := by
  induction inputs generalizing cache es with
  | nil =>
    cases hes
    exact ⟨[], rfl, rfl⟩
  | cons p inputs ih =>
    obtain ⟨e, es, he, htail, rfl⟩ := parseEach_cons hes
    have hscreened := parse_screened defs n p.2 p.1
    obtain ⟨e', hvisit, rfl⟩ := hscreened.eq_screen hcache he (hcut e (.head _))
    obtain ⟨es', hes', rfl⟩ := ih (hscreened.sound hcache hvisit) htail fun e he => hcut e (.tail _ he)
    exact ⟨e' :: es', by rw [parseEach, hvisit, Option.bind_eq_bind, Option.bind_some, hes']; rfl, rfl⟩

end Grammar

/-! ### Replaying the cache -/

/-- What one thing that happens does to the cache, and its records. -/
inductive Builds.Step (defs : Definitions) : Cache → List Event → Cache → Prop
  | other {c : Cache} {ev : Event} : ev.channel ≠ .deferral → Step defs c [ev] c
  | again {c : Cache} {key : Key} {g : Grammar} : c.lookup key = some g → Step defs c [.reached key none] c
  | failed {c : Cache} {key : Key} {f : Fault} : c.lookup key = none → defs key = .error f →
    Step defs c [.reached key (some (.error f))] c
  | built {c : Cache} {key : Key} {name : String} {g : Grammar} : c.lookup key = none → defs key = .ok g →
    Step defs c [.reached key (some (.ok ())), .built key name g.shown] ((key, g) :: c)

/-- The records tell how a cache became another. -/
inductive Builds (defs : Definitions) : Cache → List Event → Cache → Prop
  | nil {c : Cache} : Builds defs c [] c
  | cons {c c' c'' : Cache} {es es' : List Event} : Builds.Step defs c es c' → Builds defs c' es' c'' →
    Builds defs c (es ++ es') c''

namespace Builds
variable {defs : Definitions} {c c' c'' : Cache} {ev : Event} {es es' before after : List Event}

theorem of_step (h : Step defs c es c') : Builds defs c es c' := by
  rw [← List.append_nil es]
  exact .cons h .nil

theorem append (h : Builds defs c es c') (h' : Builds defs c' es' c'') : Builds defs c (es ++ es') c'' := by
  induction h with
  | nil => exact h'
  | cons hstep _ ih =>
    rw [List.append_assoc]
    exact .cons hstep (ih h')

theorem Step.lookup_isSome (h : Step defs c es c') (key : Key) :
    (c'.lookup key).isSome ↔ (c.lookup key).isSome ∨ .reached key (some (.ok ())) ∈ es := by
  cases h with
  | @other ev hev =>
    have hne : Event.reached key (some (.ok ())) ≠ ev := fun heq => hev (heq ▸ rfl)
    simp [hne]
  | again hkey => simp
  | failed hkey hdefs => simp
  | @built key' name g hkey hdefs =>
    rw [List.lookup_cons]
    by_cases heq : key = key'
    · simp [heq]
    · simp [heq, beq_eq_false_iff_ne.2 heq]

/-- What is in the cache was there or was built since. -/
theorem lookup_isSome (h : Builds defs c es c') (key : Key) :
    (c'.lookup key).isSome ↔ (c.lookup key).isSome ∨ .reached key (some (.ok ())) ∈ es := by
  induction h with
  | nil => simp
  | cons hstep _ ih => rw [ih, hstep.lookup_isSome, List.mem_append, or_assoc]

/-- Every record belongs to a step. -/
theorem locate (h : Builds defs c (before ++ ev :: after) c') :
    ∃ m m' earlier mid post later, Builds defs c earlier m ∧ Step defs m (mid ++ ev :: post) m' ∧
      before = earlier ++ mid ∧ after = post ++ later := by
  generalize hes : before ++ ev :: after = es at h
  induction h generalizing before with
  | nil => simp at hes
  | @cons c c₁ c₂ es es' hstep htail ih =>
    have hlater : ∀ before', before = es ++ before' → before' ++ ev :: after = es' →
        ∃ m m' earlier mid post later, Builds defs c earlier m ∧ Step defs m (mid ++ ev :: post) m' ∧
          before = earlier ++ mid ∧ after = post ++ later := by
      rintro before' rfl hbefore
      obtain ⟨m, m', earlier, mid, post, later, hm, hm', rfl, rfl⟩ := ih hbefore
      exact ⟨m, m', es ++ earlier, mid, post, later, .cons hstep hm, hm', by simp, rfl⟩
    -- the record is in what is left of the first step, or comes after that step
    rcases List.append_eq_append_iff.1 hes with ⟨rest, rfl, hrest⟩ | ⟨before', rfl, hbefore⟩
    · cases rest with
      | nil => exact hlater [] (by simp) (by simpa using hrest)
      | cons _ post =>
        cases hrest
        exact ⟨c, c₁, [], before, post, es', .nil, hstep, rfl, rfl⟩
    · exact hlater before' rfl hbefore.symm

theorem Step.eq_nil_of_reached {mid post : List Event} {key : Key} {attempt : Option (Except Fault Unit)}
    (h : Step defs c (mid ++ .reached key attempt :: post) c') : mid = [] := by
  generalize hes : mid ++ .reached key attempt :: post = es at h
  rcases mid with _ | ⟨ev, _ | ⟨ev', mid⟩⟩
  · rfl
  · cases h <;> simp at hes
  · cases h <;> simp at hes

theorem Step.eq_of_built {mid post : List Event} {key : Key} {name shown : String}
    (h : Step defs c (mid ++ .built key name shown :: post) c') : mid = [.reached key (some (.ok ()))] := by
  generalize hes : mid ++ .built key name shown :: post = es at h
  cases h with
  | other hev =>
    rcases mid with _ | ⟨ev, mid⟩
    · cases hes
      exact absurd rfl hev
    · simp at hes
  | again hkey => rcases mid with _ | ⟨ev, mid⟩ <;> simp at hes
  | failed hkey hdefs => rcases mid with _ | ⟨ev, mid⟩ <;> simp at hes
  | built hkey hdefs =>
    rcases mid with _ | ⟨ev, _ | ⟨ev', mid⟩⟩
    · cases hes
    · cases hes
      rfl
    · simp at hes

/-- Where a deferred grammar is reached, a step begins. -/
theorem locate_reached {key : Key} {attempt : Option (Except Fault Unit)}
    (h : Builds defs c (before ++ .reached key attempt :: after) c') :
    ∃ m m' post later, Builds defs c before m ∧ Step defs m (.reached key attempt :: post) m' ∧
      after = post ++ later := by
  obtain ⟨m, m', earlier, mid, post, later, hearlier, hstep, rfl, rfl⟩ := h.locate
  obtain rfl := hstep.eq_nil_of_reached
  rw [List.append_nil]
  exact ⟨m, m', post, later, hearlier, hstep, rfl⟩

end Builds

/-! ### Building once -/

/-- In these records, which begin with nothing built, a definition runs whenever its grammar is reached until it
succeeds, and never after that; each success, and nothing else, is recorded in the log at once. -/
structure BuiltOnce (defs : Definitions) (records : List Event) : Prop where
  again : ∀ {before after key attempt}, records = before ++ .reached key attempt :: after →
    .reached key (some (.ok ())) ∈ before → attempt = none
  attempts : ∀ {before after key attempt}, records = before ++ .reached key attempt :: after →
    .reached key (some (.ok ())) ∉ before → attempt = some ((defs key).map fun _ => ())
  recorded : ∀ {before after key}, records = before ++ .reached key (some (.ok ())) :: after →
    ∃ g name after', defs key = .ok g ∧ after = .built key name g.shown :: after'
  only : ∀ {before after key name shown}, records = before ++ .built key name shown :: after →
    ∃ before', before = before' ++ [.reached key (some (.ok ()))]

theorem Builds.builtOnce {defs : Definitions} {records : List Event} {cache : Cache}
    (h : Builds defs [] records cache) : BuiltOnce defs records where
  again := by
    rintro before after key attempt rfl hmem
    obtain ⟨m, m', post, later, hbefore, hstep, -⟩ := h.locate_reached
    have hbuilt : (m.lookup key).isSome := (hbefore.lookup_isSome key).2 (.inr hmem)
    cases hstep with
    | other hev => exact absurd rfl hev
    | again _ => rfl
    | failed hkey _ => rw [hkey] at hbuilt; cases hbuilt
    | built hkey _ => rw [hkey] at hbuilt; cases hbuilt
  attempts := by
    rintro before after key attempt rfl hmem
    obtain ⟨m, m', post, later, hbefore, hstep, -⟩ := h.locate_reached
    have hnot : ¬ (m.lookup key).isSome := by simp [hbefore.lookup_isSome key, hmem]
    cases hstep with
    | other hev => exact absurd rfl hev
    | again hkey => rw [hkey] at hnot; exact absurd rfl hnot
    | failed _ hdefs => rw [hdefs]; rfl
    | built _ hdefs => rw [hdefs]; rfl
  recorded := by
    rintro before after key rfl
    obtain ⟨m, m', post, later, -, hstep, rfl⟩ := h.locate_reached
    cases hstep with
    | other hev => exact absurd rfl hev
    | built _ hdefs => exact ⟨_, _, later, hdefs, rfl⟩
  only := by
    rintro before after key name shown rfl
    obtain ⟨m, m', earlier, mid, post, later, -, hstep, rfl, rfl⟩ := h.locate
    obtain rfl := hstep.eq_of_built
    exact ⟨earlier, rfl⟩

/-! ### Parses -/

/-- Nothing follows on a definition that failed, and its fault is the end of the run. -/
def EndsAtFailure {α : Type} (r : Except Fault α) (history : List Event) : Prop :=
  ∀ before key f after, history = before ++ .reached key (some (.error f)) :: after → after = [] ∧ r = .error f

namespace EndsAtFailure
variable {α β : Type} {r : Except Fault α} {r' : Except Fault β} {a : α} {history before after : List Event}

theorem of_none (h : ∀ key f, .reached key (some (.error f)) ∉ history) : EndsAtFailure r history := by
  rintro before key f after rfl
  exact absurd (by simp) (h key f)

theorem append (h : EndsAtFailure (.ok a : Except Fault α) before) (h' : EndsAtFailure r' after) :
    EndsAtFailure r' (before ++ after) := by
  intro earlier key f later hhistory
  have hnone : ∀ as bs, before ≠ as ++ .reached key (some (.error f)) :: bs := by
    intro as bs heq
    exact nomatch (h as key f bs heq).2
  rcases List.append_eq_append_iff.1 hhistory with ⟨as, rfl, has⟩ | ⟨bs, rfl, hbs⟩
  · exact h' as key f later has
  -- a failure before would have been the end of the first run, which went on
  · cases bs with
    | nil => exact h' [] key f later hbs.symm
    | cons ev bs =>
      cases hbs
      exact absurd rfl (hnone earlier bs)

end EndsAtFailure

/-- The log shows what the threshold lets pass of a history that replays the cache and ends where a definition
fails. -/
def Ended.Replays {α : Type} (defs : Definitions) (threshold : Level) (cache : Cache) (e : Ended α) : Prop :=
  ∃ history, e.records = threshold.keep history ∧ Builds defs cache history e.cache ∧ EndsAtFailure e.result history

theorem Ended.Replays.single {α : Type} {defs : Definitions} {threshold : Level} {r : Except Fault α} {cache : Cache}
    {ev : Event} (hev : ev.channel ≠ .deferral) :
    (⟨r, cache, threshold.keep [ev]⟩ : Ended α).Replays defs threshold cache := by
  refine ⟨[ev], rfl, .of_step (.other hev), .of_none fun key f hmem => ?_⟩
  rw [List.mem_singleton] at hmem
  exact hev (hmem ▸ rfl)

def Account.replays (defs : Definitions) (threshold : Level) : Account defs threshold where
  InOrder cache e := e.Replays defs threshold cache
  ok := ⟨[], rfl, .nil, .of_none (by simp)⟩
  error _ := ⟨[], rfl, .nil, .of_none (by simp)⟩
  retype := by
    rintro α β cache cache' fault records ⟨history, hrecords, hbuilds, hends⟩
    refine ⟨history, hrecords, hbuilds, fun before key f after hhistory => ?_⟩
    obtain ⟨hafter, hresult⟩ := hends before key f after hhistory
    cases hresult
    exact ⟨hafter, rfl⟩
  trans := by
    rintro α β cache cache' a records e ⟨before, rfl, hbefore, hok⟩ ⟨after, hrecords, hafter, hends⟩
    exact ⟨before ++ after, by rw [Level.keep_append, hrecords], hbefore.append hafter, hok.append hends⟩
  visited := .single fun hev => nomatch hev
  traced := .single fun hev => nomatch hev
  stalled := .single fun hev => nomatch hev
  body := by
    intro cache name key e he
    obtain ⟨g, hlookup, rfl⟩ | ⟨fault, hlookup, hkey, rfl⟩ | ⟨g, hlookup, hkey, rfl⟩ := Run.body_cases he
    · exact ⟨_, rfl, .of_step (.again hlookup), .of_none (by simp)⟩
    · refine ⟨_, rfl, .of_step (.failed hlookup hkey), fun before key' f after hhistory => ?_⟩
      rcases before with _ | ⟨ev, before⟩
      · cases hhistory
        exact ⟨rfl, rfl⟩
      · simp at hhistory
    · exact ⟨_, rfl, .of_step (.built hlookup hkey), .of_none (by simp)⟩

/-- What happened in a parse, of which the log shows what the threshold lets pass. Where a definition failed that
was the end of it, with its fault, and nothing was kept. -/
structure Ended.Tells (defs : Definitions) (threshold : Level) (e : Ended (Outcome Value)) (history : List Event) :
    Prop where
  records : e.records = threshold.keep history
  failure : ∀ before key f after, history = before ++ .reached key (some (.error f)) :: after →
    defs key = .error f ∧ after = [] ∧ e.result = .error f ∧ e.cache.lookup key = none

namespace Grammar
variable {defs : Definitions} {n : Nat} {threshold : Level} {cache : Cache}

theorem parse_replays {g : Grammar} {v : View} {e : Ended (Outcome Value)} (hcache : Cache.Sound defs cache)
    (he : g.parse defs n v threshold cache = some e) :
    Cache.Sound defs e.cache ∧ e.Replays defs threshold cache := by
  have hleaves : ∀ h : Grammar, h.Everywhere (Account.replays defs threshold).discipline.Leaf := by
    refine .of_forall fun h => ?_
    cases h with
    | primitive p => exact Account.keeps_leaf fun _ _ _ _ => ⟨[], rfl, .nil, .of_none (by simp)⟩
    | custom name run => exact Account.keeps_leaf fun _ _ _ _ => ⟨[], rfl, .nil, .of_none (by simp)⟩
    | _ => trivial
  exact Discipline.parse (fun key h _ => hleaves h) (hleaves g) n v cache e hcache he

/-- All parses together replay the cache, and each of them ends where a definition fails. -/
theorem parseEach_replays {inputs : List (Grammar × View)} {es : List (Ended (Outcome Value))}
    (hcache : Cache.Sound defs cache) (hes : parseEach defs n threshold cache inputs = some es) :
    ∃ histories cache', List.Forall₂ (Ended.Tells defs threshold) es histories ∧
      Builds defs cache histories.flatten cache' := by
  induction inputs generalizing cache es with
  | nil =>
    cases hes
    exact ⟨[], cache, .nil, .nil⟩
  | cons p inputs ih =>
    obtain ⟨e, es, he, htail, rfl⟩ := parseEach_cons hes
    obtain ⟨hsound, history, hrecords, hbuilds, hends⟩ := parse_replays hcache he
    obtain ⟨histories, cache', htells, hbuilds'⟩ := ih hsound htail
    refine ⟨history :: histories, cache', .cons ⟨hrecords, ?_⟩ htells, hbuilds.append hbuilds'⟩
    intro before key f after hhistory
    rw [hhistory] at hbuilds
    obtain ⟨m, m', post, later, -, hstep, -⟩ := hbuilds.locate_reached
    have hdefs : defs key = .error f := by
      cases hstep with
      | other hev => exact absurd rfl hev
      | failed _ hdefs => exact hdefs
    have hlookup : e.cache.lookup key = none := by
      cases hlookup : e.cache.lookup key with
      | none => rfl
      | some g =>
        have hok := hsound key g hlookup
        rw [hdefs] at hok
        cases hok
    exact ⟨hdefs, (hends before key f after hhistory).1, (hends before key f after hhistory).2, hlookup⟩

/-- Where everything is on record, the records are what happened. -/
theorem eq_records_of_tells {es : List (Ended (Outcome Value))} {histories : List (List Event)}
    (h : List.Forall₂ (Ended.Tells defs .visit) es histories) : histories = es.map Ended.records := by
  induction h with
  | nil => rfl
  | cons htells _ ih => rw [List.map_cons, htells.records, Level.keep_visit, ih]

/-- Parses that share what they build, from nothing on, come to the results of parses that build a deferred grammar
at each use. Seen as a whole, they build each deferred grammar once, at the first use at which its definition
succeeds; where a definition fails, the parse ends with its fault, and there is nothing more on record. Where traces
are written out the same is true of what happened up to where a parse is cut short. -/
theorem deferred_built_once (defs : Definitions) (n : Nat) (inputs : List (Grammar × View)) (threshold : Level) :
    (parseEach defs n threshold [] inputs).map (List.map Ended.result) =
      inputs.mapM (fun p => (p.1.parseFresh defs n p.2 threshold []).map Ended.result) ∧
    (∀ es, parseEach defs n .visit [] inputs = some es →
      (threshold.writes = false →
        parseEach defs n threshold [] inputs = some (es.map (Ended.screen threshold))) ∧
      BuiltOnce defs (es.flatMap Ended.records) ∧
      ∀ e ∈ es, ∀ before key f after, e.records = before ++ .reached key (some (.error f)) :: after →
        defs key = .error f ∧ after = [] ∧ e.result = .error f ∧ e.cache.lookup key = none) ∧
    ∀ es, parseEach defs n threshold [] inputs = some es →
      (∃ histories, List.Forall₂ (Ended.Tells defs threshold) es histories ∧ BuiltOnce defs histories.flatten) ∧
      ((∀ e ∈ es, ¬ e.CutShort threshold) →
        ∃ es', parseEach defs n .visit [] inputs = some es' ∧ es = es'.map (Ended.screen threshold)) := by
  have hnil := Cache.sound_nil defs
  refine ⟨parseEach_results hnil inputs, fun es hes => ⟨fun hquiet => ?_, ?_⟩, fun es hes => ⟨?_, ?_⟩⟩
  · rw [parseEach_screened hquiet hnil, hes, Option.map_some]
  · obtain ⟨histories, cache', htells, hbuilds⟩ := parseEach_replays hnil hes
    obtain rfl := eq_records_of_tells htells
    rw [List.forall₂_map_right_iff, List.forall₂_same] at htells
    refine ⟨?_, fun e he => (htells e he).failure⟩
    rw [List.flatMap_def]
    exact hbuilds.builtOnce
  · obtain ⟨histories, cache', htells, hbuilds⟩ := parseEach_replays hnil hes
    exact ⟨histories, htells, hbuilds.builtOnce⟩
  · exact parseEach_eq_screen hnil hes

/-- Brackets around a letter, of any depth, and a choice without candidates. -/
def bracketsDefs : Definitions
  | 0 => .ok (choice (delimited (primitive (.tag (.ofString "("))) (deferred "brackets" 0)
      (primitive (.tag (.ofString ")")))) [primitive (.tag (.ofString "x"))])
  | _ => .error .noCandidate

def bracketsInputs : List (Grammar × View) :=
  [(choice (deferred "letter" 1) [], .whole ⟨0, .ofString "x"⟩),
    (deferred "brackets" 0, .whole ⟨0, .ofString "((x))"⟩),
    (optional (deferred "letter" 1), .whole ⟨0, .ofString "x"⟩),
    (many0 (deferred "brackets" 0), .whole ⟨0, .ofString "x(x)!"⟩)]

theorem deferred_built_once_brackets :
    ∃ es, parseEach bracketsDefs 8 .visit [] bracketsInputs = some es ∧
      (es.flatMap Ended.records).countP (fun ev => ev.channel = .deferral) = 10 ∧
      (es.flatMap Ended.records).countP (fun ev => ev.level = .debug) = 1 ∧
      BuiltOnce bracketsDefs (es.flatMap Ended.records) ∧
      (parseEach bracketsDefs 8 .debug [] bracketsInputs).map (List.map Ended.result) =
        bracketsInputs.mapM fun p => (p.1.parseFresh bracketsDefs 8 p.2 .debug []).map Ended.result := by
  have hcounts : (parseEach bracketsDefs 8 .visit [] bracketsInputs).map (fun es =>
      ((es.flatMap Ended.records).countP (fun ev => ev.channel = .deferral),
        (es.flatMap Ended.records).countP (fun ev => ev.level = .debug))) = some (10, 1) := by
    decide +kernel
  obtain ⟨es, hes, hcount⟩ := Option.map_eq_some_iff.1 hcounts
  obtain ⟨hreached, hrecorded⟩ := Prod.ext_iff.1 hcount
  obtain ⟨hresults, hbuilds, -⟩ := deferred_built_once bracketsDefs 8 bracketsInputs .debug
  exact ⟨es, hes, hreached, hrecorded, (hbuilds es hes).2.1, hresults⟩

end Grammar
end StreamGrammar
