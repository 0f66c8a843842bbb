import StreamGrammar.Proofs.LoopSplits
import StreamGrammar.Stock.Fold

/-! # Folds fused with loops

A repetition that folds its outputs does what one that lists them does, with the fold behind it, as long as the
step of the fold raises no error (`Grammar.fold_collects`). Where it raises one, the loop ends then and there: its
run is that of the matches so far (`Parser.Laps`), from one cache to the next and with their records, and nothing
that the grammar would do behind them has a part in it (`Parser.fold_of_laps_raise`). -/

namespace StreamGrammar

variable {defs : Definitions} {α β : Type}

theorem Settled.andThen_some (f : α → Except Fault β) (s : Settled α) :
    (s.andThen fun a => some (f a)) = s.map (· >>= f) := by
  rcases s with _ | _ | a <;> rfl

/-- A fold whose step raises no error comes to an end. -/
theorem exists_foldlM {f : β → α → Except Raised β} (hf : ∀ acc x, ∃ acc', f acc x = .ok acc') (xs : List α) (acc : β) :
    ∃ acc', xs.foldlM f acc = .ok acc' := by
  induction xs generalizing acc with
  | nil => exact ⟨acc, rfl⟩
  | cons x xs ih =>
    obtain ⟨acc₁, hx⟩ := hf acc x
    obtain ⟨acc', hxs⟩ := ih acc₁
    exact ⟨acc', foldlM_cons_eq_ok_iff.2 ⟨acc₁, hx, hxs⟩⟩

/-! ### Laps -/

namespace Parser

/-- Runs of a parser one after the other, from one cache to the next, with their records: each matches and moves
the input. -/
inductive Laps (p : Parser α) (threshold : Level) : View → Cache → List α → View → Cache → List Event → Prop
  | nil (v : View) (cache : Cache) : Laps p threshold v cache [] v cache []
  | cons {v rest u : View} {cache cache₁ cache₂ : Cache} {records records' : List Event} {x : α} {xs : List α} :
    p v threshold cache = some ⟨.ok (.done rest x), cache₁, records⟩ → rest.offset ≠ v.offset →
      Laps p threshold rest cache₁ xs u cache₂ records' →
        Laps p threshold v cache (x :: xs) u cache₂ (records ++ records')

variable {p : Parser α} {l : Loop α β} {threshold : Level} {cache cache' cache₁ cache₂ : Cache}
  {records records' : List Event} {n matched : Nat} {acc acc' : β} {v w rest u : View} {x : α} {xs ys : List α}
  {e : Raised}

theorem Laps.append (h : Laps p threshold v cache xs w cache₁ records)
    (h' : Laps p threshold w cache₁ ys u cache₂ records') :
    Laps p threshold v cache (xs ++ ys) u cache₂ (records ++ records') := by
  induction h with
  | nil v cache => exact h'
  | cons hx hmoves _ ih =>
    rw [List.cons_append, List.append_assoc]
    exact .cons hx hmoves (ih h')

theorem Laps.of_append (h : Laps p threshold v cache (xs ++ ys) u cache' records) : ∃ w cache₁ before after,
    Laps p threshold v cache xs w cache₁ before ∧ Laps p threshold w cache₁ ys u cache' after ∧
      records = before ++ after := by
  induction xs generalizing v cache records with
  | nil => exact ⟨v, cache, [], records, .nil v cache, h, rfl⟩
  | cons x xs ih =>
    cases h with
    | cons hx hmoves h' =>
      obtain ⟨w, cache₁, before, after, hxs, hys, rfl⟩ := ih h'
      exact ⟨w, cache₁, _, after, .cons hx hmoves hxs, hys, (List.append_assoc _ _ _).symm⟩

/-- A loop that has no most number of matches and that starts with a match goes on with what the match left. -/
theorem fold_of_match (hmost : l.most = none) (hx : p v threshold cache = some ⟨.ok (.done rest x), cache', records⟩)
    (hmoves : rest.offset ≠ v.offset) (n matched : Nat) (acc : β) :
    p.fold l (n + 1) matched acc v threshold cache =
      (((liftM (l.step acc x) : Run β) >>= fun acc => p.fold l n (matched + 1) acc rest) threshold cache').map
        fun e => { e with records := records ++ e.records } := by
  rw [fold, if_neg (Loop.room_of_most hmost _).not_full, Run.bind_of_ok _ _ _ hx]
  dsimp only
  rw [ensureProgress, if_neg hmoves, pure_bind]

theorem fold_of_lap (hmost : l.most = none) (hx : p v threshold cache = some ⟨.ok (.done rest x), cache', records⟩)
    (hmoves : rest.offset ≠ v.offset) (hstep : l.step acc x = .ok acc') (n matched : Nat) :
    p.fold l (n + 1) matched acc v threshold cache = (p.fold l n (matched + 1) acc' rest threshold cache').map
      fun e => { e with records := records ++ e.records } := by
  have hgo : ((liftM (.ok acc' : Except Raised β) : Run β) >>= fun acc => p.fold l n (matched + 1) acc rest) =
      p.fold l n (matched + 1) acc' rest := Run.run_pure_bind acc' _
  rw [fold_of_match hmost hx hmoves, hstep, hgo]

theorem fold_of_none (hmost : l.most = none) (hnone : p v threshold cache = none) :
    p.fold l n matched acc v threshold cache = none := by
  cases n with
  | zero =>
    rw [fold, if_neg (Loop.room_of_most hmost _).not_full]
    rfl
  | succ n => rw [fold, if_neg (Loop.room_of_most hmost _).not_full, Run.bind_of_none _ _ _ hnone]

/-- After some laps a loop is where it would be if it began there. -/
theorem fold_of_laps (hmost : l.most = none) (h : Laps p threshold v cache xs u cache' records)
    (hacc : xs.foldlM l.step acc = .ok acc') (n matched : Nat) :
    p.fold l (n + xs.length) matched acc v threshold cache =
      (p.fold l n (matched + xs.length) acc' u threshold cache').map
        fun e => { e with records := records ++ e.records } := by
  induction h generalizing matched acc with
  | nil v cache =>
    cases hacc
    show p.fold l n matched acc' v threshold cache = (p.fold l n matched acc' v threshold cache).map _
    rcases p.fold l n matched acc' v threshold cache with _ | e <;> rfl
  | @cons v rest u cache cache₁ cache₂ records records' x xs hx hmoves hxs ih =>
    obtain ⟨acc₁, hstep, hacc⟩ := foldlM_cons_eq_ok_iff.1 hacc
    rw [List.length_cons, ← Nat.add_assoc, fold_of_lap hmost hx hmoves hstep, ih hacc, Option.map_map,
      Nat.add_right_comm matched, Nat.add_assoc matched]
    simp only [Function.comp_def, List.append_assoc]

/-- Where the step raises an error, the run of the loop is that of the laps so far. -/
theorem fold_of_laps_raise (hmost : l.most = none) (h : Laps p threshold v cache (xs ++ [x]) u cache' records)
    (hacc : xs.foldlM l.step acc = .ok acc') (hraise : l.step acc' x = .error e) (hn : xs.length < n)
    (matched : Nat) : p.fold l n matched acc v threshold cache = some ⟨.error (.raised e), cache', records⟩ := by
  obtain ⟨w, cache₁, before, after, hxs, hlast, rfl⟩ := h.of_append
  cases hlast with
  | cons hx hmoves hnil =>
    cases hnil
    obtain ⟨k, rfl⟩ : ∃ k, n = k + 1 + xs.length := ⟨n - 1 - xs.length, by omega⟩
    rw [fold_of_laps hmost hxs hacc, fold_of_match hmost hx hmoves, hraise, List.append_nil]
    show some (Ended.mk _ _ (before ++ (_ ++ []))) = _
    rw [List.append_nil]

end Parser

namespace Grammar
variable {g : Grammar} {v u rest : View} {x : Value} {xs : List Value} {threshold : Level} {cache : Cache}

/-! ### Runs that make laps -/

section Runs
variable {l : Parser.Loop Value β} {n rounds matched : Nat} {acc acc' : β} {ended : Ended (Outcome β)}

/-- A run of a loop that ends makes its first lap where the grammar matches, unless it is cut short. -/
theorem Yields.exists_lap (hx : g.Yields defs v (.ok (.done rest x))) (hmost : l.most = none)
    (hcache : Cache.Sound defs cache) (h : (g.parse defs n).fold l rounds matched acc v threshold cache = some ended)
    (hcut : ¬ ended.CutShort threshold) :
    0 < rounds ∧ ∃ cache' records, Cache.Sound defs cache' ∧
      g.parse defs n v threshold cache = some ⟨.ok (.done rest x), cache', records⟩ := by
  have hfull := (Parser.Loop.room_of_most hmost matched).not_full
  cases rounds with
  | zero =>
    rw [Parser.fold, if_neg hfull] at h
    cases h
  | succ rounds =>
    rcases hg : g.parse defs n v threshold cache with _ | ⟨r, cache', records⟩
    · rw [Parser.fold_of_none hmost hg] at h
      cases h
    · have hlap : ¬ (⟨r, cache', records⟩ : Ended (Outcome Value)).CutShort threshold := by
        rintro ⟨hwrites, error, rfl⟩
        rw [Parser.fold, if_neg hfull, Run.bind_of_error _ _ _ hg] at h
        cases h
        exact hcut ⟨hwrites, error, rfl⟩
      cases hx.unique (.of_parse hcache hg hlap)
      exact ⟨Nat.zero_lt_succ rounds, cache', records, Run.Steady.sound (g.parse_steady defs n v) hcache hg, rfl⟩

/-- A run of a loop that ends, and is not cut short, makes laps as long as the grammar matches and moves the input. -/
theorem Advances.exists_laps (hxs : Advances defs g v xs u) (hmost : l.most = none) (hcache : Cache.Sound defs cache)
    (hacc : xs.foldlM l.step acc = .ok acc')
    (h : (g.parse defs n).fold l rounds matched acc v threshold cache = some ended)
    (hcut : ¬ ended.CutShort threshold) :
    ∃ k cache' records ended', rounds = k + xs.length ∧ Cache.Sound defs cache' ∧
      (g.parse defs n).Laps threshold v cache xs u cache' records ∧
        (g.parse defs n).fold l k (matched + xs.length) acc' u threshold cache' = some ended' ∧
          ¬ ended'.CutShort threshold := by
  induction hxs generalizing rounds matched acc cache ended with
  | nil v =>
    cases hacc
    exact ⟨rounds, cache, [], ended, rfl, hcache, .nil v cache, h, hcut⟩
  | @cons v rest u x xs hx hmoves hxs ih =>
    obtain ⟨acc₁, hstep, hacc⟩ := foldlM_cons_eq_ok_iff.1 hacc
    obtain ⟨hrounds, cache₁, records, hcache₁, hlap⟩ := hx.exists_lap hmost hcache h hcut
    obtain ⟨rounds, rfl⟩ : ∃ k, rounds = k + 1 := ⟨rounds - 1, by omega⟩
    rw [Parser.fold_of_lap hmost hlap hmoves hstep] at h
    obtain ⟨ended₁, h₁, rfl⟩ := Option.map_eq_some_iff.1 h
    obtain ⟨k, cache', records', ended', rfl, hcache', hlaps, h', hcut'⟩ := ih hcache₁ hacc h₁ hcut
    refine ⟨k, cache', _, ended', rfl, hcache', .cons hlap hmoves hlaps, ?_, hcut'⟩
    rw [List.length_cons, Nat.add_comm xs.length, ← Nat.add_assoc]
    exact h'

/-- Where the step raises an error after some matches, a run of the loop that ends, and is not cut short, is that of
its laps. -/
theorem Advances.fold_raises {e : Raised} (hxs : Advances defs g v (xs ++ [x]) u) (hmost : l.most = none)
    (hcache : Cache.Sound defs cache) (hacc : xs.foldlM l.step acc = .ok acc') (hraise : l.step acc' x = .error e)
    (h : (g.parse defs n).fold l rounds matched acc v threshold cache = some ended)
    (hcut : ¬ ended.CutShort threshold) :
    ∃ cache' records, (g.parse defs n).Laps threshold v cache (xs ++ [x]) u cache' records ∧
      ended = ⟨.error (.raised e), cache', records⟩ := by
  obtain ⟨w, hxs, hlast⟩ := hxs.of_append
  obtain ⟨k, cache₁, before, ended', rfl, hcache₁, hlaps, h', hcut'⟩ := hxs.exists_laps hmost hcache hacc h hcut
  cases hlast with
  | cons hx hmoves hnil =>
    cases hnil
    obtain ⟨hk, cache', records, -, hlap⟩ := hx.exists_lap hmost hcache₁ h' hcut'
    have hall := hlaps.append (.cons hlap hmoves (.nil u cache'))
    refine ⟨cache', _, hall, ?_⟩
    rw [Parser.fold_of_laps_raise hmost hall hacc hraise (by omega)] at h
    exact (Option.some.inj h).symm

end Runs

/-! ### Fusion -/

/-- A function on the output is applied to what the grammar comes to. -/
theorem yields_map_iff {t : Transform} {r : Except Fault (Outcome Value)} :
    (g.map t).Yields defs v r ↔ ∃ r₀, g.Yields defs v r₀ ∧ r = r₀ >>= Outcome.applied t := by
  have hparse : ∀ n, ((g.map t).parse defs (n + 1) v).settled =
      (g.parse defs (n + 1) v).settled.map (· >>= Outcome.applied t) := by
    intro n
    rw [map, parse_adapted, ← Settled.andThen_some]
    exact Run.settled_applied (g.parse_steady defs (n + 1) v) t
  constructor
  · intro h
    obtain ⟨n, hn⟩ := h.settled
    have hsettled := hn n (Nat.le_refl n)
    rw [hparse] at hsettled
    obtain ⟨r₀, hr₀, rfl⟩ := Option.map_eq_some_iff.1 hsettled
    exact ⟨r₀, .of_settled hr₀, rfl⟩
  · rintro ⟨r₀, hr₀, rfl⟩
    obtain ⟨n, hn⟩ := hr₀.settled
    refine .of_settled (n := n + 1) ?_
    rw [hparse, hn n (Nat.le_refl n), Option.map_some]

section Fusion
variable {folding listing : Repetition} {start : Value} {step : FoldStep} {t : Transform} {φ : List Value → Value}

/-- A loop that folds and one that lists stand alike after the same matches. -/
theorem abreast_folding (hleast : folding.least = listing.least) (hmost : folding.most = listing.most)
    (htotal : ∀ acc x, ∃ acc', step acc x = .ok acc') (k : Nat) (origin : Position) (xs : List Value) :
    Abreast (folding.loop origin step) (listing.loop origin Parser.collect) φ k k xs := by
  refine ⟨?_, ?_, ?_, fun _ => rfl, fun x => htotal (φ xs) x, fun x => ⟨_, rfl⟩⟩
  · show folding.most = some k ↔ listing.most = some k
    rw [hmost]
  · show (∀ most, folding.most = some most → k < most) ↔ ∀ most, listing.most = some most → k < most
    rw [hmost]
  · show k < folding.least ↔ k < listing.least
    rw [hleast]

/-- Loops of which one holds the fold of what the other lists come to the fold of the list. -/
theorem SameLoop.folded {word word' : String} (ht : ∀ xs, t (.list xs) = .ok (φ xs))
    {o : Except Fault (Outcome Value)} {o' : Except Fault (Outcome (List Value))}
    (h : SameLoop defs g word word' φ o o') :
    SameUpToWord defs g word [word'] o (o'.map (Outcome.map Value.list) >>= Outcome.applied t) := by
  rcases h with hf | @⟨_, o', rfl⟩
  · exact .error ⟨word', List.mem_singleton_self word', hf⟩
  · rcases o' with ⟨rest, xs⟩ | c | k
    · show SameUpToWord defs g _ _ (.ok (.done rest (φ xs))) ((Outcome.done rest (.list xs)).applied t)
      rw [Outcome.applied, ht]
      exact .ok rfl
    · exact .ok rfl
    · exact .ok rfl

/-- A repetition that folds is one that lists with the fold behind it. -/
theorem folding_alike (hfolding : folding.Folds start step) (hlisting : listing.Lists)
    (hleast : folding.least = listing.least) (hmost : folding.most = listing.most)
    (htotal : ∀ acc x, ∃ acc', step acc x = .ok acc') (ht : ∀ xs, t (.list xs) = xs.foldlM step start)
    (defs : Definitions) (g : Grammar) (v : View) :
    Alike (SameUpToWord defs g folding.word [listing.word]) ((repeated folding g).Yields defs v)
      (((repeated listing g).map t).Yields defs v) := by
  choose φ hφ using fun xs => exists_foldlM htotal xs start
  have hfold : ∀ xs, t (.list xs) = .ok (φ xs) := fun xs => (ht xs).trans (hφ xs)
  have habreast := fun xs : List Value => abreast_folding (φ := φ) hleast hmost htotal xs.length v.start xs
  constructor
  · intro r hr
    obtain @⟨xs, u, acc, hxs, hacc, hlast⟩ := (yields_folding_iff hfolding).1 hr
    cases (hφ xs).symm.trans hacc
    obtain ⟨o', hlast', hsame⟩ := ((habreast xs).lastRound g u).left r hlast
    have hlist := (yields_listing_iff hlisting).2 ⟨xs, u, o', hxs, hlast', rfl⟩
    exact ⟨_, yields_map_iff.2 ⟨_, hlist, rfl⟩, hsame.folded hfold⟩
  · intro r' hr'
    obtain ⟨r₀, hr₀, rfl⟩ := yields_map_iff.1 hr'
    obtain ⟨xs, u, o', hxs, hlast', rfl⟩ := (yields_listing_iff hlisting).1 hr₀
    obtain ⟨o, hlast, hsame⟩ := ((habreast xs).lastRound g u).right o' hlast'
    exact ⟨o, (yields_folding_iff hfolding).2 (.rounds hxs (hφ xs) hlast), hsame.folded hfold⟩

end Fusion

section Raise
variable {l : Parser.Loop Value β} {start acc : β} {e : Raised} {f : Fault}

/-- Where the step raises an error after some matches, the loop comes to this error. -/
theorem Loops.of_raise (hxs : Advances defs g v (xs ++ [x]) u) (hmost : l.most = none)
    (hacc : xs.foldlM l.step start = .ok acc) (hraise : l.step acc x = .error e) :
    Loops defs g l start v (.error (.raised e)) := by
  obtain ⟨w, hxs, hlast⟩ := hxs.of_append
  cases hlast with
  | cons hx hmoves hnil =>
    refine .rounds hxs hacc (.tried (l.room_of_most hmost _) hx ?_)
    simp only [Parser.Loop.ending?, if_neg hmoves, hraise]

/-- A fault of a loop is one of its grammar, or the grammar has not moved the input, or the step has raised an
error after matches that all did. -/
theorem Loops.error_cases (h : Loops defs g l start v (.error f)) : Faults defs [g] f ∨
    (∃ xs u, Advances defs g v xs u ∧ Stalls defs g u ∧ f = .stalled l.word u.start) ∨
    ∃ xs x u acc e, Advances defs g v (xs ++ [x]) u ∧ xs.foldlM l.step start = .ok acc ∧
      l.step acc x = .error e ∧ f = .raised e := by
  obtain @⟨xs, u, acc, hxs, hacc, hlast⟩ := h
  rcases hlast with _ | @⟨r, -, -, hr, hending⟩
  rcases r with f' | ⟨rest, x⟩ | c | k
  · cases hending
    exact .inl ⟨g, List.mem_singleton_self g, u, hr⟩
  · rw [Parser.Loop.ending?] at hending
    split at hending
    · next hstall =>
      cases hending
      exact .inr (.inl ⟨xs, u, hxs, ⟨rest, x, hr, hstall⟩, rfl⟩)
    · next hmoves =>
      split at hending
      · next e he =>
        cases hending
        exact .inr (.inr ⟨xs, x, rest, acc, e, hxs.append (.cons hr hmoves (.nil rest)), hacc, he, rfl⟩)
      · cases hending
  · cases hending
  · cases hending

end Raise

/-- A fold over matches is the fold of their list, if its step raises no error: the same outcome, the same fault of
the grammar, and a stall at the same position. If the step raises an error on an output, the loop comes to this
error, and its run is that of the matches up to this one, all of which have moved the input: with the cache and the
records that they leave, whatever the grammar would do behind them. The loop has no other faults. -/
theorem fold_collects (defs : Definitions) (g : Grammar) (start : Value) (step : FoldStep) :
    (∀ t : Transform, (∀ acc x, ∃ acc', step acc x = .ok acc') → (∀ xs, t (.list xs) = xs.foldlM step start) → ∀ v,
      Alike (SameUpToWord defs g "fold_many0" ["many0"]) ((fold0 g start step).Yields defs v)
        (((many0 g).map t).Yields defs v) ∧
      Alike (SameUpToWord defs g "fold_many1" ["many1"]) ((fold1 g start step).Yields defs v)
        (((many1 g).map t).Yields defs v)) ∧
    (∀ v xs x u acc e, Advances defs g v (xs ++ [x]) u → xs.foldlM step start = .ok acc → step acc x = .error e →
      (fold0 g start step).Yields defs v (.error (.raised e)) ∧
      ∀ n threshold cache ended, Cache.Sound defs cache →
        (fold0 g start step).parse defs n v threshold cache = some ended → ¬ ended.CutShort threshold →
          ∃ cache' records, (g.parse defs n).Laps threshold v cache (xs ++ [x]) u cache' records ∧
            ended = ⟨.error (.raised e), cache', records⟩) ∧
    (∀ n v threshold cache xs x u cache' records acc e,
      (g.parse defs n).Laps threshold v cache (xs ++ [x]) u cache' records → xs.foldlM step start = .ok acc →
        step acc x = .error e → xs.length + 1 < n →
          (fold0 g start step).parse defs n v threshold cache = some ⟨.error (.raised e), cache', records⟩) ∧
    ∀ v f, (fold0 g start step).Yields defs v (.error f) → Faults defs [g] f ∨
      (∃ xs u, Advances defs g v xs u ∧ Stalls defs g u ∧ f = .stalled "fold_many0" u.start) ∨
      ∃ xs x u acc e, Advances defs g v (xs ++ [x]) u ∧ xs.foldlM step start = .ok acc ∧ step acc x = .error e ∧
        f = .raised e := by
  have hfold0 := Repetition.folds_fold0 start step
  have hparse : ∀ n v, (fold0 g start step).parse defs (n + 1) v = (g.parse defs (n + 1)).fold
      ((Repetition.fold0 start step).loop v.start step) n 0 start v := by
    intro n v
    rw [fold0, parse_repeated, hfold0]
  refine ⟨fun t htotal ht v => ⟨?_, ?_⟩, fun v xs x u acc e hxs hacc hraise => ⟨?_, ?_⟩, ?_, fun v f hf => ?_⟩
  · exact folding_alike hfold0 Repetition.lists_many0 rfl rfl htotal ht defs g v
  · exact folding_alike (Repetition.folds_fold1 start step) Repetition.lists_many1 rfl rfl htotal ht defs g v
  · exact (yields_folding_iff hfold0).2 (.of_raise hxs rfl hacc hraise)
  · intro n threshold cache ended hcache he hcut
    cases n with
    | zero => cases he
    | succ n =>
      rw [hparse] at he
      exact hxs.fold_raises rfl hcache hacc hraise he hcut
  · intro n v threshold cache xs x u cache' records acc e hlaps hacc hraise hn
    cases n with
    | zero => exact absurd hn (Nat.not_lt_zero _)
    | succ n =>
      rw [hparse]
      exact Parser.fold_of_laps_raise rfl hlaps hacc hraise (Nat.succ_lt_succ_iff.1 hn) 0
  · exact ((yields_folding_iff hfold0).1 hf).error_cases

/-- Keeps the only output that there may be. -/
def onlyOutput : FoldStep := fun acc x =>
  match acc with
  | .null => .ok x
  | _ => ErrorClass.value.raise "one output expected"

/-- Nests the elements of a list to the left. -/
def nested : Transform
  | .list xs => xs.foldlM FoldStep.nest .null
  | x => .ok x

theorem fold_collects_figureLine :
    ((many0 figure).map nested).Yields noDefinitions figureLine
      (.ok (.done (figureLine.drop 2) (.tuple [.tuple [.null, .text "1"], .text "2"]))) ∧
    (fold0 figure Value.null FoldStep.nest).Yields noDefinitions figureLine
      (.ok (.done (figureLine.drop 2) (.tuple [.tuple [.null, .text "1"], .text "2"]))) ∧
    (fold0 figure Value.null onlyOutput).Yields noDefinitions figureLine
      (.error (.raised (.thrown .value "one output expected"))) ∧
    ∃ cache records, (figure.parse noDefinitions 4).Laps .debug figureLine [] [.text "1", .text "2"]
      (figureLine.drop 2) cache records ∧
      (fold0 figure Value.null onlyOutput).parse noDefinitions 4 figureLine .debug [] =
        some ⟨.error (.raised (.thrown .value "one output expected")), cache, records⟩ := by
  have hnested : ((many0 figure).map nested).Yields noDefinitions figureLine
      (.ok (.done (figureLine.drop 2) (.tuple [.tuple [.null, .text "1"], .text "2"]))) :=
    .of_result (n := 4) (by decide +kernel)
  have hnest := (fold_collects noDefinitions figure .null FoldStep.nest).1 nested (fun acc x => ⟨_, rfl⟩)
    (fun xs => rfl) figureLine
  obtain ⟨r, hfold, _ | rfl⟩ := hnest.1.right _ hnested
  have hone : figure.Yields noDefinitions figureLine (.ok (.done (figureLine.drop 1) (.text "1"))) :=
    .of_result (n := 1) (by decide +kernel)
  have htwo : figure.Yields noDefinitions (figureLine.drop 1) (.ok (.done (figureLine.drop 2) (.text "2"))) :=
    .of_result (n := 1) (by decide +kernel)
  have hxs : Advances noDefinitions figure figureLine ([.text "1"] ++ [.text "2"]) (figureLine.drop 2) :=
    .cons hone (by decide) (.cons htwo (by decide) (.nil _))
  obtain ⟨-, hraises, hlaps, -⟩ := fold_collects noDefinitions figure .null onlyOutput
  obtain ⟨hyields, hruns⟩ := hraises figureLine [.text "1"] (.text "2") (figureLine.drop 2) (.text "1") _ hxs rfl rfl
  have hrun : ((fold0 figure Value.null onlyOutput).parse noDefinitions 4 figureLine .debug []).map Ended.result =
      some (.error (.raised (.thrown .value "one output expected"))) := by decide +kernel
  obtain ⟨ended, hended, hr⟩ := Option.map_eq_some_iff.1 hrun
  obtain ⟨cache, records, h, -⟩ := hruns 4 .debug [] ended (Cache.sound_nil _) hended (Ended.not_cutShort hr nofun)
  exact ⟨hnested, hfold, hyields, cache, records, h,
    hlaps 4 figureLine .debug [] [.text "1"] (.text "2") _ cache records _ _ h rfl rfl (by decide)⟩

end Grammar
end StreamGrammar
