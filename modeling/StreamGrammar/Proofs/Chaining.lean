import StreamGrammar.Proofs.LoopLaws

/-! # Sequences by hand

A sequence does what running its parts by hand would do, one after the other and each on what the one before it
has left (`Grammar.yields_sequence_iff`). By hand means: all parts match (`Grammar.Passes`), or they do up to the
first that does not, and this one decides (`Grammar.Stops`). Both are closed under cutting a row of parts in two,
so what is known of a row is known of the same row with some of its parts put into a sequence of their own
(`Grammar.ByHand.regroup`). That later parts are not even run is a statement about whole runs with their records
(`Parser.sequence_of_stopped`). -/

namespace StreamGrammar

variable {defs : Definitions} {α β : Type}

/-- Each result that satisfies `A` has a counterpart that satisfies `B`, and the other way round. -/
structure Alike {ρ σ : Type} (R : ρ → σ → Prop) (A : ρ → Prop) (B : σ → Prop) : Prop where
  left : ∀ r, A r → ∃ r', B r' ∧ R r r'
  right : ∀ r', B r' → ∃ r, A r ∧ R r r'

/-! ### Outputs that a function changes -/

/-- The outcome with its output changed by a caller's function; what the function raises is a fault. -/
def Outcome.applied (f : α → Except Raised β) : Outcome α → Except Fault (Outcome β)
  | done rest x =>
    match f x with
    | .ok y => .ok (.done rest y)
    | .error e => .error (.raised e)
  | failed c => .ok (.failed c)
  | incomplete k => .ok (.incomplete k)

theorem Run.settled_applied {x : Run (Outcome α)} (hx : x.Steady defs) (f : α → Except Raised β) :
    (x >>= fun o => o.mapM fun a => (liftM (f a) : Run β)).settled =
      x.settled.andThen fun o => some (o.applied f) := by
  refine Run.Settles.eq (.bind hx fun o => ?_)
  rcases o with ⟨rest, a⟩ | c | k
  · show Run.Settles defs ((liftM (f a) : Run β) >>= fun y => pure (Outcome.done rest y)) _
    rw [Outcome.applied]
    cases f a <;> exact .call fun _ => .ofExcept _
  · exact .pure _
  · exact .pure _

/-! ### Rows of parsers -/

namespace Parser
variable {origin : Position} {p : Parser α} {ps : List (Parser α)} {v : View}

theorem settled_thread_cons (hp : p.Steady defs) (hps : ∀ q ∈ ps, q.Steady defs) (origin : Position) (v : View) :
    (thread origin (p :: ps) v).settled = (p v).settled.andThen fun
      | .done rest x => (thread origin ps rest).settled.map (Except.map (Outcome.map (x :: ·)))
      | .failed c => some (.ok (.failed (c.within .sequence origin)))
      | .incomplete k => some (.ok (.incomplete k)) := by
  refine Run.Settles.eq (.bind (hp v) fun o => ?_)
  rcases o with ⟨rest, x⟩ | c | k
  · exact ⟨Conduct.map (Discipline.steady defs).toConduct (x :: ·) (Conduct.thread hps rest), Run.settled_map _ _⟩
  · exact .pure _
  · exact .pure _

/-- Where a row of parsers comes to a stop, a longer row makes the same run. -/
theorem thread_append_of_stopped {threshold : Level} {cache : Cache} {e : Ended (Outcome (List α))}
    (h : thread origin ps v threshold cache = some e) (hstop : ∀ u xs, e.result ≠ .ok (.done u xs))
    (qs : List (Parser α)) : thread origin (ps ++ qs) v threshold cache = some e := by
  induction ps generalizing v cache e with
  | nil =>
    cases h
    exact absurd rfl (hstop v [])
  | cons p ps ih =>
    rw [List.cons_append, thread]
    rw [thread] at h
    rcases hp : p v threshold cache with _ | ⟨fault | o, cache', records⟩
    · rw [Run.bind_of_none _ _ _ hp] at h
      cases h
    · rw [Run.bind_of_error _ _ _ hp] at h ⊢
      exact h
    · rw [Run.bind_of_ok _ _ _ hp] at h ⊢
      rcases o with ⟨rest, x⟩ | c | k
      · dsimp only at h ⊢
        rcases hps : thread origin ps rest threshold cache' with _ | ⟨fault | o', cache'', records'⟩
        · rw [Run.bind_of_none _ _ _ hps] at h
          cases h
        · have happend := ih hps (by rintro _ _ ⟨⟩)
          rw [Run.bind_of_error _ _ _ hps] at h
          rw [Run.bind_of_error _ _ _ happend]
          exact h
        · rw [Run.bind_of_ok _ _ _ hps] at h
          have happend := ih hps (by
            rintro u xs ⟨⟩
            cases h
            exact hstop u (x :: xs) rfl)
          rw [Run.bind_of_ok _ _ _ happend]
          exact h
      · exact h
      · exact h

/-- A sequence that has come to a stop is not changed by what stands behind it, nor by what it would have made of
its outputs: the run is the same, with the same records. -/
theorem sequence_of_stopped {ps : List (Parser Value)} {threshold : Level} {cache : Cache} {e : Ended (Outcome Value)}
    (h : Parser.sequence Assembly.tuple.finish ps v threshold cache = some e)
    (hstop : ∀ u x, e.result ≠ .ok (.done u x)) (qs : List (Parser Value))
    (finish : List Value → Except Raised Value) :
    Parser.sequence finish (ps ++ qs) v threshold cache = some e := by
  rw [Parser.sequence] at h ⊢
  rcases hps : thread v.start ps v threshold cache with _ | ⟨fault | ⟨u, xs⟩ | c | k, cache', records⟩
  · rw [Run.bind_of_none _ _ _ hps] at h
    cases h
  · have happend := thread_append_of_stopped hps (by rintro _ _ ⟨⟩) qs
    rw [Run.bind_of_error _ _ _ hps] at h
    rw [Run.bind_of_error _ _ _ happend]
    exact h
  · rw [Run.bind_of_ok _ _ _ hps] at h
    cases h
    exact absurd rfl (hstop u (.tuple xs))
  · have happend := thread_append_of_stopped hps (by rintro _ _ ⟨⟩) qs
    rw [Run.bind_of_ok _ _ _ hps] at h
    rw [Run.bind_of_ok _ _ _ happend]
    exact h
  · have happend := thread_append_of_stopped hps (by rintro _ _ ⟨⟩) qs
    rw [Run.bind_of_ok _ _ _ hps] at h
    rw [Run.bind_of_ok _ _ _ happend]
    exact h

end Parser

namespace Grammar

/-! ### Rows of grammars -/

/-- The grammars match one after the other, each on what the one before it has left. -/
inductive Passes (defs : Definitions) : List Grammar → View → List Value → View → Prop
  | nil (v : View) : Passes defs [] v [] v
  | cons {g : Grammar} {gs : List Grammar} {v rest u : View} {x : Value} {xs : List Value} :
    g.Yields defs v (.ok (.done rest x)) → Passes defs gs rest xs u → Passes defs (g :: gs) v (x :: xs) u

/-- The grammars match one after the other up to one of them, which comes to the result. -/
inductive Stops (defs : Definitions) : List Grammar → View → Except Fault (Outcome Value) → Prop
  | here {g : Grammar} {v : View} {r : Except Fault (Outcome Value)} (gs : List Grammar) :
    g.Yields defs v r → Stops defs (g :: gs) v r
  | later {g : Grammar} {gs : List Grammar} {v rest : View} {x : Value} {r : Except Fault (Outcome Value)} :
    g.Yields defs v (.ok (.done rest x)) → Stops defs gs rest r → Stops defs (g :: gs) v r

namespace Passes
variable {gs hs : List Grammar} {v w u : View} {xs ys zs : List Value}

theorem length_eq (h : Passes defs gs v xs u) : xs.length = gs.length := by
  induction h with
  | nil v => rfl
  | cons _ _ ih => rw [List.length_cons, List.length_cons, ih]

theorem append (h : Passes defs gs v xs w) (h' : Passes defs hs w ys u) : Passes defs (gs ++ hs) v (xs ++ ys) u := by
  induction h with
  | nil v => exact h'
  | cons hx _ ih => exact .cons hx (ih h')

theorem of_append (h : Passes defs (gs ++ hs) v zs u) :
    ∃ xs ys w, zs = xs ++ ys ∧ Passes defs gs v xs w ∧ Passes defs hs w ys u := by
  induction gs generalizing v zs with
  | nil => exact ⟨[], zs, v, rfl, .nil v, h⟩
  | cons g gs ih =>
    cases h with
    | cons hx h' =>
      obtain ⟨xs, ys, w, rfl, hgs, hhs⟩ := ih h'
      exact ⟨_ :: xs, ys, w, rfl, .cons hx hgs, hhs⟩

theorem stops (h : Passes defs gs v xs w) {r : Except Fault (Outcome Value)} (h' : Stops defs hs w r) :
    Stops defs (gs ++ hs) v r := by
  induction h with
  | nil v => exact h'
  | cons hx _ ih => exact .later hx (ih h')

end Passes

namespace Stops
variable {gs hs : List Grammar} {v : View} {r : Except Fault (Outcome Value)}

theorem append (h : Stops defs gs v r) (hs : List Grammar) : Stops defs (gs ++ hs) v r := by
  induction h with
  | here gs hr => exact .here _ hr
  | later hx _ ih => exact .later hx ih

theorem of_append (h : Stops defs (gs ++ hs) v r) :
    Stops defs gs v r ∨ ∃ xs w, Passes defs gs v xs w ∧ Stops defs hs w r := by
  induction gs generalizing v with
  | nil => exact .inr ⟨[], v, .nil v, h⟩
  | cons g gs ih =>
    cases h with
    | here _ hr => exact .inl (.here gs hr)
    | later hx h' =>
      rcases ih h' with hgs | ⟨xs, w, hgs, hhs⟩
      · exact .inl (.later hx hgs)
      · exact .inr ⟨_ :: xs, w, .cons hx hgs, hhs⟩

end Stops

/-- What a sequence from `origin` makes of a part that has come to `r` without a match. -/
inductive Stopped (origin : Position) : Except Fault (Outcome α) → Except Fault (Outcome β) → Prop
  | fault (f : Fault) : Stopped origin (.error f) (.error f)
  | failed (c : Chain) : Stopped origin (.ok (.failed c)) (.ok (.failed (c.within .sequence origin)))
  | incomplete (k : Needed) : Stopped origin (.ok (.incomplete k)) (.ok (.incomplete k))

theorem Stopped.map {γ : Type} {origin : Position} {r : Except Fault (Outcome α)} {r' : Except Fault (Outcome β)}
    (h : Stopped origin r r') (f : β → γ) : Stopped origin r (r'.map (Outcome.map f)) := by
  cases h with
  | fault f => exact .fault f
  | failed c => exact .failed c
  | incomplete k => exact .incomplete k

theorem Stopped.exists_applied {γ : Type} {origin : Position} {r : Except Fault (Outcome α)}
    {r' : Except Fault (Outcome β)} (h : Stopped origin r r') (f : γ → Except Raised β) :
    ∃ r'' : Except Fault (Outcome γ), Stopped origin r r'' ∧
      Settled.andThen (some r'') (fun o => some (o.applied f)) = some r' := by
  cases h with
  | fault fault => exact ⟨_, .fault fault, rfl⟩
  | failed c => exact ⟨_, .failed c, rfl⟩
  | incomplete k => exact ⟨_, .incomplete k, rfl⟩

/-- What comes of running the grammars by hand, each on what the one before it has left: if all match, `finish`
makes a value of their outputs, and otherwise the first that does not match decides. -/
inductive ByHand (defs : Definitions) (finish : List Value → Except Raised β) (gs : List Grammar) (v : View) :
    Except Fault (Outcome β) → Prop
  | all {xs : List Value} {u : View} : Passes defs gs v xs u →
    ByHand defs finish gs v ((Outcome.done u xs).applied finish)
  | stop {r : Except Fault (Outcome Value)} {r' : Except Fault (Outcome β)} : Stops defs gs v r →
    Stopped v.start r r' → ByHand defs finish gs v r'

/-! ### Sequences -/

/-- The parsers of the grammars within a budget. -/
abbrev parsers (defs : Definitions) (n : Nat) (gs : List Grammar) : List (Parser Value) :=
  gs.map fun g => g.parse defs (n + 1)

theorem parsers_steady (defs : Definitions) (n : Nat) (gs : List Grammar) :
    ∀ p ∈ parsers defs n gs, p.Steady defs := by
  intro p hp
  obtain ⟨g, -, rfl⟩ := List.mem_map.1 hp
  exact g.parse_steady defs (n + 1)

theorem parse_sequence (a : Assembly) (gs : List Grammar) (n : Nat) :
    (sequence a gs).parse defs (n + 1) = Parser.sequence a.finish (parsers defs n gs) := by
  rw [parse, interp, interpAll_eq_map]
  rfl

variable {origin : Position} {g : Grammar} {gs : List Grammar} {v u rest : View} {x : Value} {xs : List Value}

/-- A match, and then what the rest of the row comes to. -/
theorem Yields.settled_thread (h : g.Yields defs v (.ok (.done rest x))) {r : Except Fault (Outcome (List Value))}
    (hgs : ∃ m, ∀ n, m ≤ n → (Parser.thread origin (parsers defs n gs) rest).settled = some r) :
    ∃ m, ∀ n, m ≤ n → (Parser.thread origin (parsers defs n (g :: gs)) v).settled =
      some (r.map (Outcome.map (x :: ·))) := by
  obtain ⟨m, hm⟩ := h.settled
  obtain ⟨m', hm'⟩ := hgs
  refine ⟨max m m', fun n hn => ?_⟩
  rw [parsers, List.map_cons, Parser.settled_thread_cons (g.parse_steady defs (n + 1)) (parsers_steady defs n gs),
    hm n (by omega), Settled.andThen_ok]
  dsimp only
  rw [hm' n (by omega), Option.map_some]

theorem Passes.settled_thread (h : Passes defs gs v xs u) (origin : Position) :
    ∃ m, ∀ n, m ≤ n → (Parser.thread origin (parsers defs n gs) v).settled = some (.ok (.done u xs)) := by
  induction h with
  | nil v => exact ⟨0, fun n _ => rfl⟩
  | cons hx _ ih => exact hx.settled_thread ih

theorem Stops.settled_thread {r : Except Fault (Outcome Value)} {r' : Except Fault (Outcome (List Value))}
    (h : Stops defs gs v r) (hr : Stopped origin r r') :
    ∃ m, ∀ n, m ≤ n → (Parser.thread origin (parsers defs n gs) v).settled = some r' := by
  induction h with
  | @here g v r gs hg =>
    obtain ⟨m, hm⟩ := hg.settled
    refine ⟨m, fun n hn => ?_⟩
    rw [parsers, List.map_cons, Parser.settled_thread_cons (g.parse_steady defs (n + 1)) (parsers_steady defs n gs),
      hm n hn]
    cases hr <;> rfl
  | @later g gs v rest x r hx _ ih =>
    have hmap : r'.map (Outcome.map (x :: ·)) = r' := by cases hr <;> rfl
    have hlater := hx.settled_thread (ih hr)
    rwa [hmap] at hlater

/-- A row of parsers settles on what the grammars come to by hand. -/
theorem passes_or_stops {n : Nat} {r : Except Fault (Outcome (List Value))}
    (h : (Parser.thread origin (parsers defs n gs) v).settled = some r) :
    (∃ xs u, Passes defs gs v xs u ∧ r = .ok (.done u xs)) ∨ ∃ r₀, Stops defs gs v r₀ ∧ Stopped origin r₀ r := by
  induction gs generalizing v r with
  | nil =>
    cases h
    exact .inl ⟨[], v, .nil v, rfl⟩
  | cons g gs ih =>
    rw [parsers, List.map_cons, Parser.settled_thread_cons (g.parse_steady defs (n + 1)) (parsers_steady defs n gs)]
      at h
    rcases hg : (g.parse defs (n + 1) v).settled with _ | f | ⟨rest, x⟩ | c | k <;> rw [hg] at h
    · cases h
    · cases h
      exact .inr ⟨_, .here gs (.of_settled hg), .fault f⟩
    · obtain ⟨r, hr, rfl⟩ := Option.map_eq_some_iff.1 h
      rcases ih hr with ⟨xs, u, hxs, rfl⟩ | ⟨r₀, hr₀, hstopped⟩
      · exact .inl ⟨x :: xs, u, .cons (.of_settled hg) hxs, rfl⟩
      · exact .inr ⟨r₀, .later (.of_settled hg) hr₀, hstopped.map _⟩
    · cases h
      exact .inr ⟨_, .here gs (.of_settled hg), .failed c⟩
    · cases h
      exact .inr ⟨_, .here gs (.of_settled hg), .incomplete k⟩

/-- A sequence yields what comes of running its parts by hand. -/
theorem yields_sequence_iff {a : Assembly} {r : Except Fault (Outcome Value)} :
    (sequence a gs).Yields defs v r ↔ ByHand defs a.finish gs v r := by
  have hparse : ∀ n, ((sequence a gs).parse defs (n + 1) v).settled =
      (Parser.thread v.start (parsers defs n gs) v).settled.andThen fun o => some (o.applied a.finish) := by
    intro n
    rw [parse_sequence]
    exact Run.settled_applied (Conduct.thread (parsers_steady defs n gs) v) a.finish
  constructor
  · intro h
    obtain ⟨n, hn⟩ := h.settled
    have hsettled := hn n (Nat.le_refl n)
    rw [hparse] at hsettled
    rcases hthread : (Parser.thread v.start (parsers defs n gs) v).settled with _ | r' <;> rw [hthread] at hsettled
    · cases hsettled
    rcases passes_or_stops hthread with ⟨xs, u, hxs, rfl⟩ | ⟨r₀, hr₀, hstopped⟩
    · cases hsettled
      exact .all hxs
    · refine .stop hr₀ ?_
      cases hstopped <;> cases hsettled <;> constructor
  · rintro (hxs | ⟨hr₀, hstopped⟩)
    · obtain ⟨m, hm⟩ := hxs.settled_thread v.start
      refine .of_settled (n := m + 1) ?_
      rw [hparse, hm m (Nat.le_refl m)]
      rfl
    · obtain ⟨r', hr', heq⟩ := hstopped.exists_applied a.finish
      obtain ⟨m, hm⟩ := hr₀.settled_thread hr'
      refine .of_settled (n := m + 1) ?_
      rw [hparse, hm m (Nat.le_refl m), heq]

theorem yields_tuple_done_iff :
    (sequence .tuple gs).Yields defs v (.ok (.done u x)) ↔ ∃ xs, Passes defs gs v xs u ∧ x = .tuple xs := by
  rw [yields_sequence_iff]
  constructor
  · intro h
    generalize hr : (Except.ok (Outcome.done u x) : Except Fault (Outcome Value)) = r at h
    rcases h with hxs | ⟨-, hstopped⟩
    · cases hr
      exact ⟨_, hxs, rfl⟩
    · cases hstopped <;> cases hr
  · rintro ⟨xs, hxs, rfl⟩
    exact .all hxs

/-! ### Groups of parts -/

/-- What a row of grammars comes to, and what it comes to when some of them are a sequence of their own. A failure
gains an entry where it is one of these that fails, right before the outermost one and at the place where they
begin. -/
inductive Regrouped (defs : Definitions) (before group after : List Grammar) (v : View) :
    Except Fault (Outcome Value) → Except Fault (Outcome Value) → Prop
  | done {xs ys zs : List Value} {u : View} : xs.length = before.length → ys.length = group.length →
    zs.length = after.length → Regrouped defs before group after v (.ok (.done u (.tuple (xs ++ ys ++ zs))))
      (.ok (.done u (.tuple (xs ++ .tuple ys :: zs))))
  | fault (f : Fault) : Regrouped defs before group after v (.error f) (.error f)
  | incomplete (k : Needed) : Regrouped defs before group after v (.ok (.incomplete k)) (.ok (.incomplete k))
  | inside {xs : List Value} {w : View} {c : Chain} : Passes defs before v xs w →
    Stops defs group w (.ok (.failed c)) → Regrouped defs before group after v
      (.ok (.failed (c.within .sequence v.start)))
      (.ok (.failed ((c.within .sequence w.start).within .sequence v.start)))
  | outside {c : Chain} : Stops defs before v (.ok (.failed c)) ∨
      (∃ xs w, Passes defs (before ++ group) v xs w ∧ Stops defs after w (.ok (.failed c))) →
    Regrouped defs before group after v (.ok (.failed (c.within .sequence v.start)))
      (.ok (.failed (c.within .sequence v.start)))

variable {before group after : List Grammar} {r r' : Except Fault (Outcome Value)}

theorem Regrouped.of_outside {r₀ : Except Fault (Outcome Value)} (h : Stops defs before v r₀ ∨
      ∃ xs w, Passes defs (before ++ group) v xs w ∧ Stops defs after w r₀) (hstopped : Stopped v.start r₀ r) :
    Regrouped defs before group after v r r := by
  rcases hstopped with f | c | k
  · exact .fault f
  · exact .outside h
  · exact .incomplete k

theorem ByHand.regroup (h : ByHand defs Assembly.tuple.finish (before ++ group ++ after) v r) :
    ∃ r', ByHand defs Assembly.tuple.finish (before ++ sequence .tuple group :: after) v r' ∧
      Regrouped defs before group after v r r' := by
  rcases h with hall | ⟨hstop, hstopped⟩
  · obtain ⟨xys, zs, w', rfl, hxys, hzs⟩ := hall.of_append
    obtain ⟨xs, ys, w, rfl, hxs, hys⟩ := hxys.of_append
    have hgroup := yields_tuple_done_iff.2 ⟨ys, hys, rfl⟩
    exact ⟨_, .all (hxs.append (.cons hgroup hzs)), .done hxs.length_eq hys.length_eq hzs.length_eq⟩
  rcases hstop.of_append with hstop | ⟨xys, w', hxys, hafter⟩
  · rcases hstop.of_append with hbefore | ⟨xs, w, hxs, hgroup⟩
    · exact ⟨r, .stop (hbefore.append _) hstopped, .of_outside (.inl hbefore) hstopped⟩
    · -- the group stops with an entry of its own if it fails
      have hstops : ∀ r₁, Stopped w.start _ r₁ → Stops defs (before ++ sequence .tuple group :: after) v r₁ :=
        fun r₁ hr₁ => hxs.stops (.here after (yields_sequence_iff.2 (.stop hgroup hr₁)))
      rcases hstopped with f | c | k
      · exact ⟨_, .stop (hstops _ (.fault f)) (.fault f), .fault f⟩
      · exact ⟨_, .stop (hstops _ (.failed c)) (.failed _), .inside hxs hgroup⟩
      · exact ⟨_, .stop (hstops _ (.incomplete k)) (.incomplete k), .incomplete k⟩
  · obtain ⟨xs, ys, w, rfl, hxs, hys⟩ := hxys.of_append
    have hgroup := yields_tuple_done_iff.2 ⟨ys, hys, rfl⟩
    exact ⟨r, .stop (hxs.stops (.later hgroup hafter)) hstopped, .of_outside (.inr ⟨_, w', hxys, hafter⟩) hstopped⟩

theorem ByHand.ungroup (h : ByHand defs Assembly.tuple.finish (before ++ sequence .tuple group :: after) v r') :
    ∃ r, ByHand defs Assembly.tuple.finish (before ++ group ++ after) v r ∧
      Regrouped defs before group after v r r' := by
  rcases h with hall | ⟨hstop, hstopped⟩
  · obtain ⟨xs, yzs, w, rfl, hxs, hyzs⟩ := hall.of_append
    rcases hyzs with _ | ⟨hgroup, hzs⟩
    obtain ⟨ys, hys, rfl⟩ := yields_tuple_done_iff.1 hgroup
    exact ⟨_, .all ((hxs.append hys).append hzs), .done hxs.length_eq hys.length_eq hzs.length_eq⟩
  rcases hstop.of_append with hbefore | ⟨xs, w, hxs, hstop⟩
  · exact ⟨r', .stop ((hbefore.append _).append _) hstopped, .of_outside (.inl hbefore) hstopped⟩
  rcases hstop with ⟨_, hgroup⟩ | ⟨hgroup, hafter⟩
  · rcases yields_sequence_iff.1 hgroup with hys | ⟨hinner, hinner'⟩
    · cases hstopped
    have hstops := (hxs.stops hinner).append after
    rcases hinner' with f | c | k <;> cases hstopped
    · exact ⟨_, .stop hstops (.fault f), .fault f⟩
    · exact ⟨_, .stop hstops (.failed c), .inside hxs hinner⟩
    · exact ⟨_, .stop hstops (.incomplete k), .incomplete k⟩
  · obtain ⟨ys, hys, rfl⟩ := yields_tuple_done_iff.1 hgroup
    have hxys := hxs.append hys
    exact ⟨r', .stop (hxys.stops hafter) hstopped, .of_outside (.inr ⟨_, _, hxys, hafter⟩) hstopped⟩

/-! ### Steps -/

/-- The slots of the steps, each with the output of its own step. -/
def Step.bound (ss : List Step) (xs : List Value) : List (String × Value) :=
  (ss.zip xs).filterMap fun p => p.1.slot.map (·, p.2)

theorem Step.captured_eq_bound {ss : List Step} {xs : List Value} (h : xs.length = ss.length) :
    Assembly.captured (ss.map Step.slot) xs = .ok (bound ss xs) := by
  induction ss generalizing xs with
  | nil =>
    rw [List.length_nil, List.length_eq_zero_iff] at h
    rw [h]
    rfl
  | cons s ss ih =>
    cases xs with
    | nil => cases h
    | cons x xs =>
      have hss := ih (Nat.succ.inj h)
      rcases s with ⟨_ | slot, g⟩
      · exact hss
      · rw [List.map_cons, Assembly.captured, hss]
        rfl

theorem ByHand.congr {finish finish' : List Value → Except Raised Value}
    (hfinish : ∀ xs, xs.length = gs.length → finish xs = finish' xs) (h : ByHand defs finish gs v r) :
    ByHand defs finish' gs v r := by
  rcases h with @⟨xs, u, hxs⟩ | ⟨hstop, hstopped⟩
  · have happlied : (Outcome.done u xs).applied finish = (Outcome.done u xs).applied finish' := by
      rw [Outcome.applied, Outcome.applied, hfinish xs hxs.length_eq]
    rw [happlied]
    exact .all hxs
  · exact .stop hstop hstopped

theorem steps_eq_error_iff {ss : List Step} {construct : Construct} :
    (∃ fault, steps ss construct = .error fault) ↔ ss = [] ∨ ¬ (ss.filterMap Step.slot).Nodup := by
  rw [steps]
  cases ss with
  | nil => simp
  | cons s ss =>
    by_cases hnodup : ((s :: ss).filterMap Step.slot).Nodup
    · simp [hnodup]
    · simp [hnodup]

theorem label_of_steps {ss : List Step} {construct : Construct} {fault : Fault}
    (h : steps ss construct = .error fault) : fault.label = "ValueError" := by
  simp only [steps] at h
  split at h
  · cases h
    rfl
  · split at h <;> cases h
    rfl

theorem eq_of_steps {ss : List Step} {construct : Construct} (h : steps ss construct = .ok g) :
    g = sequence (.slots (ss.map Step.slot) construct) (ss.map Step.grammar) := by
  simp only [steps] at h
  split at h
  · cases h
  · split at h <;> cases h
    rfl

theorem tuple_of_ne_nil (h : gs ≠ []) : tuple gs = .ok (sequence .tuple gs) := by
  rw [tuple, if_neg (by simpa using h)]

theorem eq_of_tuple (h : tuple gs = .ok g) : gs ≠ [] ∧ g = sequence .tuple gs := by
  unfold tuple at h
  split at h
  · cases h
  · next hne =>
    cases h
    exact ⟨by simpa using hne, rfl⟩

/-- A sequence of steps is built unless there are none or two of them have the same slot, and it does what running
the steps by hand would do: if all match, the constructor is called with the slots and the outputs of their own
steps, in the order of the steps. Where the first steps come to a stop the run ends: it is the run of these steps
alone. In a row of grammars some of them can be put into a sequence of their own. -/
theorem steps_by_hand (defs : Definitions) (ss : List Step) (construct : Construct) :
    ((∃ fault, steps ss construct = .error fault) ↔ ss = [] ∨ ¬ (ss.filterMap Step.slot).Nodup) ∧
    (∀ fault, steps ss construct = .error fault → fault.label = "ValueError") ∧
    (∀ g, steps ss construct = .ok g → ∀ v,
      (∀ r, g.Yields defs v r ↔
        ByHand defs (fun xs => construct (Step.bound ss xs)) (ss.map Step.grammar) v r) ∧
      (∀ xs u, Passes defs (ss.map Step.grammar) v xs u →
        Assembly.captured (ss.map Step.slot) xs = .ok (Step.bound ss xs)) ∧
      ∀ first later, ss = first ++ later → ∀ n threshold cache e,
        (sequence .tuple (first.map Step.grammar)).parse defs n v threshold cache = some e →
        (∀ u x, e.result ≠ .ok (.done u x)) → g.parse defs n v threshold cache = some e) ∧
    ∀ before group after inner, tuple group = .ok inner → ∃ whole regrouped,
      tuple (before ++ group ++ after) = .ok whole ∧ tuple (before ++ inner :: after) = .ok regrouped ∧
      ∀ v, Alike (Regrouped defs before group after v) (whole.Yields defs v) (regrouped.Yields defs v) := by
  refine ⟨steps_eq_error_iff, fun fault => label_of_steps, fun g hg v => ?_, fun before group after inner hinner => ?_⟩
  · have hcaptured : ∀ xs, xs.length = (ss.map Step.grammar).length →
        Assembly.captured (ss.map Step.slot) xs = .ok (Step.bound ss xs) := by
      intro xs hxs
      exact Step.captured_eq_bound (by rw [hxs, List.length_map])
    have hfinish : ∀ xs, xs.length = (ss.map Step.grammar).length →
        (Assembly.slots (ss.map Step.slot) construct).finish xs = construct (Step.bound ss xs) := by
      intro xs hxs
      rw [Assembly.finish, hcaptured xs hxs]
      rfl
    rw [eq_of_steps hg]
    refine ⟨fun r => ?_, fun xs u hxs => hcaptured xs hxs.length_eq, ?_⟩
    · rw [yields_sequence_iff]
      exact ⟨.congr hfinish, .congr fun xs hxs => (hfinish xs hxs).symm⟩
    · rintro first later rfl n threshold cache e he hstop
      cases n with
      | zero => cases he
      | succ n =>
        have hparsers : parsers defs n ((first ++ later).map Step.grammar) =
            parsers defs n (first.map Step.grammar) ++ parsers defs n (later.map Step.grammar) := by
          rw [parsers, List.map_append, List.map_append]
        rw [parse_sequence] at he ⊢
        rw [hparsers]
        exact Parser.sequence_of_stopped he hstop _ _
  · obtain ⟨hne, rfl⟩ := eq_of_tuple hinner
    refine ⟨_, _, tuple_of_ne_nil (by simp [hne]), tuple_of_ne_nil (by simp), fun v => ?_⟩
    refine ⟨fun r hr => ?_, fun r' hr' => ?_⟩
    · obtain ⟨r', hr', hrel⟩ := (yields_sequence_iff.1 hr).regroup
      exact ⟨r', yields_sequence_iff.2 hr', hrel⟩
    · obtain ⟨r, hr, hrel⟩ := (yields_sequence_iff.1 hr').ungroup
      exact ⟨r, yields_sequence_iff.2 hr, hrel⟩

/-- Two numbers with a point between them. -/
def versionSteps : List Step := [⟨some "major", figure⟩, .discard point, ⟨some "minor", figure⟩]

def asRecord : Construct := fun bound => .ok (.record (bound.map Prod.fst) (bound.map Prod.snd))

def version : View := .whole ⟨0, .text ['1', '.', '2']⟩

/-- The point has no number behind it. -/
def brokenVersion : View := .whole ⟨0, .text ['1', '.', 'x']⟩

theorem steps_by_hand_version :
    steps versionSteps asRecord = .ok (sequence (.slots (versionSteps.map Step.slot) asRecord)
      (versionSteps.map Step.grammar)) ∧
    (sequence (.slots (versionSteps.map Step.slot) asRecord) (versionSteps.map Step.grammar)).Yields noDefinitions
      version (.ok (.done (version.drop 3) (.record ["major", "minor"] [.text "1", .text "2"]))) ∧
    (∃ e, (sequence .tuple [figure]).parse noDefinitions 2 (version.drop 1) .visit [] = some e ∧
      (∀ u x, e.result ≠ .ok (.done u x)) ∧ (sequence (.slots (versionSteps.map Step.slot) asRecord)
        (versionSteps.map Step.grammar)).parse noDefinitions 2 (version.drop 1) .visit [] = some e) ∧
    (∃ r', (sequence .tuple [figure, sequence .tuple [point, figure]]).Yields noDefinitions brokenVersion r' ∧
      Regrouped noDefinitions [figure] [point, figure] [] brokenVersion (.ok (.failed
        ⟨⟨.charMismatch, .ofNat 2, none, none⟩, [⟨.sequence, .ofNat 0, none, none⟩]⟩)) r') := by
  have hsteps : steps versionSteps asRecord = .ok (sequence (.slots (versionSteps.map Step.slot) asRecord)
      (versionSteps.map Step.grammar)) := by rw [steps, if_neg (by decide), if_neg (by decide)]
  have hlaw := steps_by_hand noDefinitions versionSteps asRecord
  have hfirst : figure.Yields noDefinitions version (.ok (.done (version.drop 1) (.text "1"))) :=
    .of_result (n := 1) (by decide +kernel)
  have hpoint : point.Yields noDefinitions (version.drop 1)
      (.ok (.done (version.drop 2) (.view ((version.drop 1).take 1)))) := .of_result (n := 1) (by decide +kernel)
  have hlast : figure.Yields noDefinitions (version.drop 2) (.ok (.done (version.drop 3) (.text "2"))) :=
    .of_result (n := 1) (by decide +kernel)
  have hpasses := Passes.cons hfirst (.cons hpoint (.cons hlast (.nil _)))
  have hbroken : (sequence .tuple [figure, point, figure]).Yields noDefinitions brokenVersion (.ok (.failed
      ⟨⟨.charMismatch, .ofNat 2, none, none⟩, [⟨.sequence, .ofNat 0, none, none⟩]⟩)) :=
    .of_result (n := 2) (by decide +kernel)
  refine ⟨hsteps, ((hlaw.2.2.1 _ hsteps version).1 _).2 (.all hpasses), ?_, ?_⟩
  · have hrun : ((sequence .tuple [figure]).parse noDefinitions 2 (version.drop 1) .visit []).map Ended.result =
        some (.ok (.failed ⟨⟨.charMismatch, .ofNat 1, none, none⟩, [⟨.sequence, .ofNat 1, none, none⟩]⟩)) := by
      decide +kernel
    obtain ⟨e, he, hresult⟩ := Option.map_eq_some_iff.1 hrun
    have hstop : ∀ u x, e.result ≠ .ok (.done u x) := by
      rw [hresult]
      exact nofun
    exact ⟨e, he, hstop, (hlaw.2.2.1 _ hsteps _).2.2 [⟨some "major", figure⟩] _ rfl 2 .visit [] e he hstop⟩
  · obtain ⟨whole, regrouped, hwhole, hregrouped, halike⟩ :=
      hlaw.2.2.2 [figure] [point, figure] [] (sequence .tuple [point, figure]) rfl
    cases hwhole
    cases hregrouped
    exact (halike brokenVersion).left _ hbroken

end Grammar
end StreamGrammar
