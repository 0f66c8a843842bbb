import StreamGrammar.Proofs.Chaining
import StreamGrammar.Stock.Leaf

/-! # Ordered choice

A choice goes on with its next candidate where one fails, and with a failure it adds an entry where none is left.
Going on is associative and drops the failure that it goes on from (`Parser.orElse_choice`), so whole runs are equal
when some candidates are put into a choice of their own; only a failure of the last candidate passes through one
choice more (`Grammar.alt_regrouped`). Which candidate decides is said without the loop: all before it fail
(`Grammar.Decides`), or all fail and the last one has this chain (`Grammar.Exhausts`). -/

namespace StreamGrammar

variable {defs : Definitions} {α : Type}

/-- What a choice at `v` makes of the outcome of its last candidate. -/
def Outcome.exhausted (v : View) : Outcome α → Outcome α
  | done rest x => done rest x
  | failed c => failed (c.within .alternativesExhausted v.start)
  | incomplete k => incomplete k

/-- Takes the place of a failure. -/
def Settled.afterFailure (s : Settled (Outcome α)) : Outcome α → Settled (Outcome α)
  | .done rest x => some (.ok (.done rest x))
  | .failed _ => s
  | .incomplete k => some (.ok (.incomplete k))

/-! ### Going on after a failure -/

namespace Parser
variable {p q : Parser α} {v : View}

/-- Where `p` fails, `q` is tried on the same input. -/
def orElse (p q : Parser α) : Parser α := fun v => do
  match ← p v with
  | .failed _ => q v
  | outcome => return outcome

theorem choice_nil (p : Parser α) : choice p [] = fun v => Outcome.exhausted v <$> p v := by
  funext v
  rw [choice, map_eq_pure_bind]
  congr 1
  funext o
  cases o <;> rfl

theorem choice_cons (p q : Parser α) (qs : List (Parser α)) : choice p (q :: qs) = p.orElse (choice q qs) := rfl

theorem orElse_assoc (p q r : Parser α) : (p.orElse q).orElse r = p.orElse (q.orElse r) := by
  funext v
  simp only [orElse, bind_assoc]
  congr 1
  funext o
  cases o with
  | failed c => rfl
  | _ => simp only [pure_bind]

/-- The chain of a failure is gone where another parser is tried. -/
theorem exhausted_orElse (p q : Parser α) : orElse (fun v => Outcome.exhausted v <$> p v) q = p.orElse q := by
  funext v
  simp only [orElse, map_eq_pure_bind, bind_assoc, pure_bind]
  congr 1
  funext o
  cases o <;> rfl

theorem orElse_exhausted (p q : Parser α) :
    p.orElse (fun v => Outcome.exhausted v <$> q v) = fun v => Outcome.exhausted v <$> p.orElse q v := by
  funext v
  simp only [orElse, map_eq_pure_bind, bind_assoc]
  congr 1
  funext o
  cases o with
  | failed c => rfl
  | _ => simp only [pure_bind, Outcome.exhausted]

/-! ### Candidates in a row -/

/-- What stands behind a choice is tried where all its candidates fail. -/
theorem orElse_choice (p : Parser α) (ps : List (Parser α)) (q : Parser α) :
    (choice p ps).orElse q = (p :: ps).foldr orElse q := by
  induction ps generalizing p with
  | nil => rw [choice_nil, exhausted_orElse]; rfl
  | cons p' ps ih => rw [choice_cons, orElse_assoc, ih p']; rfl

theorem choice_append (p : Parser α) (ps : List (Parser α)) (q : Parser α) (qs : List (Parser α)) :
    choice p (ps ++ q :: qs) = (p :: ps).foldr orElse (choice q qs) := by
  induction ps generalizing p with
  | nil => rfl
  | cons p' ps ih => rw [List.cons_append, choice_cons, ih p']; rfl

theorem foldr_orElse_exhausted (ps : List (Parser α)) (q : Parser α) :
    ps.foldr orElse (fun v => Outcome.exhausted v <$> q v) = fun v => Outcome.exhausted v <$> ps.foldr orElse q v := by
  induction ps with
  | nil => rfl
  | cons p ps ih => rw [List.foldr_cons, ih, orElse_exhausted]; rfl

/-- Candidates with a choice of their own among others that stand behind it: the run is the same. -/
theorem choice_choice_cons (p : Parser α) (ps : List (Parser α)) (q : Parser α) (qs : List (Parser α)) :
    choice (choice p ps) (q :: qs) = choice p (ps ++ q :: qs) := by
  rw [choice_cons, orElse_choice, choice_append]

/-! ### Runs and what they settle on -/

/-- A run that has not come to a failure is not changed by what would be tried next. -/
theorem orElse_of_result {threshold : Level} {cache : Cache} {e : Ended (Outcome α)}
    (h : p v threshold cache = some e) (hfailed : ∀ c, e.result ≠ .ok (.failed c)) (q : Parser α) :
    p.orElse q v threshold cache = some e := by
  rw [orElse]
  rcases e with ⟨f | ⟨rest, x⟩ | c | k, cache', records⟩
  · rw [Run.bind_of_error _ _ _ h]
  · rw [Run.bind_of_ok _ _ _ h]
    simp
  · exact absurd rfl (hfailed c)
  · rw [Run.bind_of_ok _ _ _ h]
    simp

theorem settled_orElse (hp : p.Steady defs) (hq : q.Steady defs) (v : View) :
    (p.orElse q v).settled = (p v).settled.andThen ((q v).settled.afterFailure) := by
  refine Run.Settles.eq (.bind (hp v) fun o => ?_)
  rcases o with ⟨rest, x⟩ | c | k
  · exact .pure _
  · exact ⟨hq v, rfl⟩
  · exact .pure _

end Parser

namespace Grammar

/-! ### Which candidate decides -/

def Fails (defs : Definitions) (g : Grammar) (v : View) : Prop := ∃ c, g.Yields defs v (.ok (.failed c))

/-- The first of the grammars that does not fail at `v` comes to the result. -/
def Decides (defs : Definitions) (v : View) (gs : List Grammar) (r : Except Fault (Outcome Value)) : Prop :=
  ∃ before g after, gs = before ++ g :: after ∧ (∀ h ∈ before, h.Fails defs v) ∧ g.Yields defs v r ∧
    ∀ c, r ≠ .ok (.failed c)

/-- All of the grammars fail at `v`, the last one with this chain. -/
def Exhausts (defs : Definitions) (v : View) (gs : List Grammar) (c : Chain) : Prop :=
  ∃ before g, gs = before ++ [g] ∧ (∀ h ∈ before, h.Fails defs v) ∧ g.Yields defs v (.ok (.failed c))

variable {g h inner whole regrouped : Grammar} {gs hs before group after : List Grammar} {v : View}
  {r : Except Fault (Outcome Value)} {c : Chain} {n : Nat}

theorem decides_cons_iff : Decides defs v (g :: gs) r ↔
    (g.Yields defs v r ∧ ∀ c, r ≠ .ok (.failed c)) ∨ g.Fails defs v ∧ Decides defs v gs r := by
  constructor
  · rintro ⟨_ | ⟨b, before⟩, k, after, hall, hbefore, hr, hfailed⟩ <;> cases hall
    · exact .inl ⟨hr, hfailed⟩
    · obtain ⟨hg, hbefore⟩ := List.forall_mem_cons.1 hbefore
      exact .inr ⟨hg, before, k, after, rfl, hbefore, hr, hfailed⟩
  · rintro (⟨hr, hfailed⟩ | ⟨hg, before, k, after, rfl, hbefore, hr, hfailed⟩)
    · exact ⟨[], g, gs, rfl, fun _ hk => (nomatch hk), hr, hfailed⟩
    · exact ⟨g :: before, k, after, rfl, List.forall_mem_cons.2 ⟨hg, hbefore⟩, hr, hfailed⟩

theorem not_decides_nil : ¬ Decides defs v [] r := by
  rintro ⟨_ | ⟨b, before⟩, k, after, hall, -⟩ <;> cases hall

theorem exhausts_singleton_iff : Exhausts defs v [g] c ↔ g.Yields defs v (.ok (.failed c)) := by
  constructor
  · rintro ⟨_ | ⟨b, before⟩, k, hall, -, hc⟩
    · cases hall
      exact hc
    · cases before <;> cases hall
  · exact fun hc => ⟨[], g, rfl, fun _ hk => (nomatch hk), hc⟩

theorem exhausts_cons_iff : Exhausts defs v (g :: h :: hs) c ↔ g.Fails defs v ∧ Exhausts defs v (h :: hs) c := by
  constructor
  · rintro ⟨_ | ⟨b, before⟩, k, hall, hbefore, hc⟩
    · cases hall
    · obtain ⟨rfl, htail⟩ := List.cons.inj hall
      obtain ⟨hg, hbefore⟩ := List.forall_mem_cons.1 hbefore
      exact ⟨hg, before, k, htail, hbefore, hc⟩
  · rintro ⟨hg, before, k, hall, hbefore, hc⟩
    exact ⟨g :: before, k, by rw [hall]; rfl, List.forall_mem_cons.2 ⟨hg, hbefore⟩, hc⟩

/-! ### Choices of grammars -/

theorem parse_choice (g : Grammar) (gs : List Grammar) (n : Nat) :
    (choice g gs).parse defs (n + 1) = Parser.choice (g.parse defs (n + 1)) (parsers defs n gs) := by
  rw [parse, interp, interpAll_eq_map]
  rfl

theorem yields_choice_singleton_iff :
    (choice g []).Yields defs v r ↔ ∃ r₀, g.Yields defs v r₀ ∧ r = r₀.map (Outcome.exhausted v) := by
  have hparse : ∀ n, ((choice g []).parse defs (n + 1) v).settled =
      (g.parse defs (n + 1) v).settled.map (Except.map (Outcome.exhausted v)) := by
    intro n
    rw [parse_choice, parsers, List.map_nil, Parser.choice_nil, Run.settled_map]
  constructor
  · intro hr
    obtain ⟨n, hn⟩ := hr.settled
    have hsettled := hn n (Nat.le_refl n)
    rw [hparse] at hsettled
    obtain ⟨r₀, hr₀, rfl⟩ := Option.map_eq_some_iff.1 hsettled
    exact ⟨r₀, .of_settled hr₀, rfl⟩
  · rintro ⟨r₀, hr₀, rfl⟩
    obtain ⟨n, hn⟩ := hr₀.settled
    exact .of_settled (n := n + 1) (by rw [hparse, hn n (Nat.le_refl n), Option.map_some])

theorem yields_choice_cons_iff : (choice g (h :: hs)).Yields defs v r ↔
    (g.Yields defs v r ∧ ∀ c, r ≠ .ok (.failed c)) ∨ g.Fails defs v ∧ (choice h hs).Yields defs v r := by
  have hparse : ∀ n, ((choice g (h :: hs)).parse defs (n + 1) v).settled =
      (g.parse defs (n + 1) v).settled.andThen ((choice h hs).parse defs (n + 1) v).settled.afterFailure := by
    intro n
    rw [parse_choice, parsers, List.map_cons, Parser.choice_cons, ← parsers, ← parse_choice]
    exact Parser.settled_orElse (g.parse_steady defs (n + 1)) ((choice h hs).parse_steady defs (n + 1)) v
  constructor
  · intro hr
    obtain ⟨n, hn⟩ := hr.settled
    have hsettled := hn n (Nat.le_refl n)
    rw [hparse] at hsettled
    rcases hg : (g.parse defs (n + 1) v).settled with _ | f | ⟨rest, x⟩ | c | k <;> rw [hg] at hsettled
    · cases hsettled
    · cases hsettled
      exact .inl ⟨.of_settled hg, by rintro _ ⟨⟩⟩
    · cases hsettled
      exact .inl ⟨.of_settled hg, by rintro _ ⟨⟩⟩
    · exact .inr ⟨⟨c, .of_settled hg⟩, .of_settled hsettled⟩
    · cases hsettled
      exact .inl ⟨.of_settled hg, by rintro _ ⟨⟩⟩
  · rintro (⟨hr, hfailed⟩ | ⟨⟨c, hc⟩, hr⟩)
    · obtain ⟨n, hn⟩ := hr.settled
      refine .of_settled (n := n + 1) ?_
      rw [hparse, hn n (Nat.le_refl n)]
      rcases r with f | ⟨rest, x⟩ | c | k
      · rfl
      · rfl
      · exact absurd rfl (hfailed c)
      · rfl
    · obtain ⟨m, hm⟩ := hc.settled
      obtain ⟨n, hn⟩ := hr.settled
      refine .of_settled (n := max m n + 1) ?_
      rw [hparse, hm _ (Nat.le_max_left m n)]
      exact hn _ (Nat.le_max_right m n)

/-- A choice comes to what its first candidate comes to that does not fail. If all fail it fails, with one entry more
than the last of them. -/
theorem yields_choice_iff : (choice g gs).Yields defs v r ↔ Decides defs v (g :: gs) r ∨
    ∃ c, Exhausts defs v (g :: gs) c ∧ r = .ok (.failed (c.within .alternativesExhausted v.start)) := by
  induction gs generalizing g with
  | nil =>
    rw [yields_choice_singleton_iff, decides_cons_iff]
    constructor
    · rintro ⟨f | ⟨rest, x⟩ | c | k, hr, rfl⟩
      · exact .inl (.inl ⟨hr, fun _ hc => nomatch hc⟩)
      · exact .inl (.inl ⟨hr, fun _ hc => nomatch hc⟩)
      · exact .inr ⟨c, exhausts_singleton_iff.2 hr, rfl⟩
      · exact .inl (.inl ⟨hr, fun _ hc => nomatch hc⟩)
    · rintro ((⟨hr, hfailed⟩ | ⟨-, hnil⟩) | ⟨c, hc, rfl⟩)
      · refine ⟨r, hr, ?_⟩
        rcases r with f | ⟨rest, x⟩ | c | k
        · rfl
        · rfl
        · exact absurd rfl (hfailed c)
        · rfl
      · exact absurd hnil not_decides_nil
      · exact ⟨_, exhausts_singleton_iff.1 hc, rfl⟩
  | cons h hs ih =>
    have hexhausts : (∃ c, Exhausts defs v (g :: h :: hs) c ∧
          r = .ok (.failed (c.within .alternativesExhausted v.start))) ↔
        g.Fails defs v ∧ ∃ c, Exhausts defs v (h :: hs) c ∧
          r = .ok (.failed (c.within .alternativesExhausted v.start)) := by
      simp only [exhausts_cons_iff, and_assoc, exists_and_left]
    have hdecides : Decides defs v (g :: h :: hs) r ↔ _ := decides_cons_iff
    rw [yields_choice_cons_iff, ih, hdecides, hexhausts, and_or_left, or_assoc]

/-! ### Groups of candidates -/

theorem alt_append_cons (defs : Definitions) (before : List Grammar) (g : Grammar) (gs : List Grammar) :
    ∃ whole, alt (before ++ g :: gs) = .ok whole ∧ ∀ n, whole.parse defs (n + 1) =
      (parsers defs n before).foldr Parser.orElse ((choice g gs).parse defs (n + 1)) := by
  cases before with
  | nil => exact ⟨_, rfl, fun n => rfl⟩
  | cons b before =>
    refine ⟨_, rfl, fun n => ?_⟩
    simp only [parse_choice, List.append_eq, parsers, List.map_append, List.map_cons, Parser.choice_append]

/-- Candidates can be put into a choice of their own. The run is the same with others behind them, and without these
it differs in the chain of a failure, which has one entry more. -/
theorem alt_regrouped (before : List Grammar) (g : Grammar) (gs after : List Grammar) : ∃ whole regrouped,
    alt (before ++ (g :: gs ++ after)) = .ok whole ∧ alt (before ++ choice g gs :: after) = .ok regrouped ∧
    (after ≠ [] → ∀ n v, regrouped.parse defs n v = whole.parse defs n v) ∧
    (after = [] → ∀ n v, regrouped.parse defs n v = Outcome.exhausted v <$> whole.parse defs n v) := by
  obtain ⟨whole, hwhole, hparse⟩ := alt_append_cons defs before g (gs ++ after)
  obtain ⟨regrouped, hregrouped, hparse'⟩ := alt_append_cons defs before (choice g gs) after
  refine ⟨whole, regrouped, hwhole, hregrouped, fun hafter n v => ?_, fun hafter n v => ?_⟩
  · obtain ⟨a, after, rfl⟩ := List.exists_cons_of_ne_nil hafter
    cases n with
    | zero => rfl
    | succ n =>
      simp only [hparse, hparse', parse_choice, parsers, List.map_append, List.map_cons, Parser.choice_choice_cons]
  · subst hafter
    cases n with
    | zero => rfl
    | succ n =>
      simp only [hparse, hparse', parse_choice, parsers, List.append_nil, List.map_nil, Parser.choice_nil,
        Parser.foldr_orElse_exhausted]

/-- A run of a choice that does not come to a failure is not changed by further candidates. -/
theorem parse_choice_append_of_result {threshold : Level} {cache : Cache} {e : Ended (Outcome Value)}
    (h : (choice g gs).parse defs n v threshold cache = some e) (hfailed : ∀ c, e.result ≠ .ok (.failed c))
    (later : List Grammar) : (choice g (gs ++ later)).parse defs n v threshold cache = some e := by
  cases n with
  | zero => cases h
  | succ n =>
    cases later with
    | nil => rwa [List.append_nil]
    | cons a later =>
      rw [parse_choice, parsers, List.map_append, List.map_cons, Parser.choice_append, ← Parser.orElse_choice,
        ← parsers, ← parse_choice]
      exact Parser.orElse_of_result h hfailed _

/-- The first candidate that does not fail decides, whatever stands behind it. If all fail the choice fails with the
chain of the last one and an entry at the start of the input. Candidates can be put into a choice of their own, which
changes the run only where they are the last ones and fail: the chain has an entry more. -/
theorem choice_leftmost (defs : Definitions) :
    (∀ gs, gs ≠ [] → ∃ g, alt gs = .ok g ∧
      (∀ v r, g.Yields defs v r ↔ Decides defs v gs r ∨
        ∃ c, Exhausts defs v gs c ∧ r = .ok (.failed (c.within .alternativesExhausted v.start))) ∧
      ∀ later, ∃ longer, alt (gs ++ later) = .ok longer ∧ ∀ n v threshold cache e,
        g.parse defs n v threshold cache = some e → (∀ c, e.result ≠ .ok (.failed c)) →
          longer.parse defs n v threshold cache = some e) ∧
    ∀ before group after inner, alt group = .ok inner → ∃ whole regrouped,
      alt (before ++ group ++ after) = .ok whole ∧ alt (before ++ inner :: after) = .ok regrouped ∧
      (after ≠ [] → ∀ n v, regrouped.parse defs n v = whole.parse defs n v) ∧
      (after = [] → ∀ n v, regrouped.parse defs n v = Outcome.exhausted v <$> whole.parse defs n v) := by
  refine ⟨fun gs hne => ?_, fun before group after inner hinner => ?_⟩
  · obtain ⟨g, gs, rfl⟩ := List.exists_cons_of_ne_nil hne
    refine ⟨_, rfl, fun v r => yields_choice_iff, fun later => ⟨_, rfl, ?_⟩⟩
    intro n v threshold cache e he hfailed
    exact parse_choice_append_of_result he hfailed later
  · cases group with
    | nil => cases hinner
    | cons g gs =>
      cases hinner
      rw [List.append_assoc]
      exact alt_regrouped before g gs after

/-- The figure decides before the leaf that must not be run, and fails twice over where it is in a choice of its
own. -/
theorem choice_leftmost_figureLine :
    Decides noDefinitions figureLine [point, figure] (.ok (.done (figureLine.drop 1) (.text "1"))) ∧
    (choice point [figure]).Yields noDefinitions figureLine (.ok (.done (figureLine.drop 1) (.text "1"))) ∧
    (∃ e, (choice point [figure]).parse noDefinitions 1 figureLine .visit [] = some e ∧
      (choice point [figure, Leaf.untouchable]).parse noDefinitions 1 figureLine .visit [] = some e ∧
      e.result = .ok (.done (figureLine.drop 1) (.text "1"))) ∧
    (choice point [choice figure []]).parse noDefinitions 2 (figureLine.drop 3) =
      Outcome.exhausted (figureLine.drop 3) <$> (choice point [figure]).parse noDefinitions 2 (figureLine.drop 3) := by
  have hpoint : point.Fails noDefinitions figureLine :=
    ⟨⟨⟨.literalMismatch, .ofNat 0, none, none⟩, []⟩, .of_result (n := 1) (by decide +kernel)⟩
  have hfigure : figure.Yields noDefinitions figureLine (.ok (.done (figureLine.drop 1) (.text "1"))) :=
    .of_result (n := 1) (by decide +kernel)
  have hdecides : Decides noDefinitions figureLine [point, figure] (.ok (.done (figureLine.drop 1) (.text "1"))) :=
    decides_cons_iff.2 (.inr ⟨hpoint, decides_cons_iff.2 (.inl ⟨hfigure, fun _ hc => nomatch hc⟩)⟩)
  have hlaw := choice_leftmost noDefinitions
  obtain ⟨g, hg, hyields, hlater⟩ := hlaw.1 [point, figure] (by simp)
  cases hg
  have hrun : ((choice point [figure]).parse noDefinitions 1 figureLine .visit []).map Ended.result =
      some (.ok (.done (figureLine.drop 1) (.text "1"))) := by decide +kernel
  obtain ⟨e, he, hresult⟩ := Option.map_eq_some_iff.1 hrun
  obtain ⟨longer, hlonger, hsame⟩ := hlater [Leaf.untouchable]
  cases hlonger
  obtain ⟨whole, regrouped, hwhole, hregrouped, -, hlast⟩ := hlaw.2 [point] [figure] [] (choice figure []) rfl
  cases hwhole
  cases hregrouped
  refine ⟨hdecides, (hyields _ _).2 (.inl hdecides), ⟨e, he, hsame 1 _ _ _ e he ?_, hresult⟩, hlast rfl 2 _⟩
  rw [hresult]
  exact fun _ hc => nomatch hc

end Grammar
end StreamGrammar
