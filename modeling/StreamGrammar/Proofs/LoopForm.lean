import StreamGrammar.Proofs.Chaining

/-! # The form of a folding loop

A folding loop comes to a result in one way only: its grammar matches some times, moving the input each time
(`Grammar.Advances`), and one more round ends the loop (`Grammar.LastRound`). `Grammar.Loops` puts the two together,
and a repetition yields what its loop comes to in this sense (`Grammar.yields_listing_iff`,
`Grammar.yields_folding_iff`), so laws of repetitions need no induction on rounds. Two loops that stand alike after
the same matches end alike in their last round, up to the words in their own faults (`Grammar.Abreast.lastRound`). -/

namespace StreamGrammar

variable {defs : Definitions} {α β γ : Type}

/-- A fold comes to an end where its first step does and then the others do. -/
theorem foldlM_cons_eq_ok_iff {f : β → α → Except Raised β} {x : α} {xs : List α} {acc acc' : β} :
    (x :: xs).foldlM f acc = .ok acc' ↔ ∃ acc₁, f acc x = .ok acc₁ ∧ xs.foldlM f acc₁ = .ok acc' := by
  rw [List.foldlM_cons]
  cases f acc x with
  | error e => exact ⟨nofun, nofun⟩
  | ok acc₁ => exact ⟨fun h => ⟨acc₁, rfl, h⟩, fun ⟨_, hx, h⟩ => Except.ok.inj hx ▸ h⟩

/-! ### How a loop ends -/

namespace Parser

/-- What a loop with so many matches ends with at `u` where its child comes to this result, or `none` if it goes on. -/
def Loop.ending? (l : Loop α β) (matched : Nat) (acc : β) (u : View) :
    Except Fault (Outcome α) → Option (Except Fault (Outcome β))
  | .error f => some (.error f)
  | .ok (.done rest x) =>
    if rest.offset = u.offset then some (.error (.stalled l.word u.start))
    else
      match l.step acc x with
      | .error e => some (.error (.raised e))
      | .ok _ => none
  | .ok (.failed c) =>
    some (.ok (if matched < l.least then .failed (c.within .repetition l.origin) else .done u acc))
  | .ok (.incomplete k) => some (.ok (.incomplete k))

/-- The loop may go on after so many matches. -/
def Loop.Room (l : Loop α β) (matched : Nat) : Prop := ∀ most, l.most = some most → matched < most

variable {l : Loop α β} {p : Parser α} {n matched : Nat} {acc acc' : β} {v rest : View} {x : α}
  {r : Except Fault (Outcome α)}

theorem Loop.Room.not_full (h : l.Room matched) : ¬ l.full matched = true := by
  unfold Loop.Room at h
  unfold Loop.full
  cases hmost : l.most with
  | none => simp
  | some most => simpa using h most hmost

theorem Loop.room_of_most (h : l.most = none) (matched : Nat) : l.Room matched :=
  fun _ hmost => nomatch h.symm.trans hmost

theorem Loop.full_of_most (h : l.most = some matched) : l.full matched = true := by
  simp [Loop.full, h]

/-- Within its bounds a loop either is full or has room. -/
theorem Loop.most_or_room (h : ∀ most, l.most = some most → matched ≤ most) :
    l.most = some matched ∨ l.Room matched := by
  unfold Loop.Room
  cases hmost : l.most with
  | none => simp
  | some most =>
    have hle := h most hmost
    simp only [Option.some.injEq, forall_eq']
    omega

theorem Loop.ending?_eq_none_iff : l.ending? matched acc v r = none ↔
    ∃ rest x acc', r = .ok (.done rest x) ∧ rest.offset ≠ v.offset ∧ l.step acc x = .ok acc' := by
  constructor
  · intro h
    rcases r with f | ⟨rest, x⟩ | c | k
    · cases h
    · rw [Loop.ending?] at h
      split at h
      · cases h
      · next hmoves =>
        cases hstep : l.step acc x with
        | error e =>
          rw [hstep] at h
          cases h
        | ok acc' => exact ⟨rest, x, acc', rfl, hmoves, hstep⟩
    · cases h
    · cases h
  · rintro ⟨rest, x, acc', rfl, hmoves, hstep⟩
    simp only [Loop.ending?, if_neg hmoves, hstep]

theorem settled_fold_of_most (h : l.most = some matched) (p : Parser α) (n : Nat) (acc : β) (v : View) :
    (p.fold l n matched acc v).settled = some (.ok (.done v acc)) := by
  cases n <;> rw [fold, if_pos (Loop.full_of_most h)] <;> rfl

theorem settled_fold_of_ending (hp : p.Steady defs) (hroom : l.Room matched) (hr : (p v).settled = some r)
    {r' : Except Fault (Outcome β)} (h : l.ending? matched acc v r = some r') (n : Nat) :
    (p.fold l (n + 1) matched acc v).settled = some r' := by
  rw [settled_fold hp, if_neg hroom.not_full, hr]
  rcases r with f | ⟨rest, x⟩ | c | k
  · exact h
  · rw [Loop.ending?] at h
    dsimp only [Settled.andThen_ok]
    split at h
    · next hstall => rw [if_pos hstall, h]
    · next hmoves =>
      rw [if_neg hmoves]
      cases hstep : l.step acc x with
      | error e =>
        rw [hstep] at h
        exact h
      | ok acc' =>
        rw [hstep] at h
        cases h
  · exact h
  · exact h

theorem settled_fold_of_match (hp : p.Steady defs) (hroom : l.Room matched)
    (hx : (p v).settled = some (.ok (.done rest x))) (hmoves : rest.offset ≠ v.offset) (hstep : l.step acc x = .ok acc')
    (n : Nat) : (p.fold l (n + 1) matched acc v).settled = (p.fold l n (matched + 1) acc' rest).settled := by
  rw [settled_fold hp, if_neg hroom.not_full, hx]
  simp only [Settled.andThen_ok, if_neg hmoves, hstep]

end Parser

namespace Grammar

/-! ### Matches and the last round -/

/-- Matches of the grammar one after the other, each of which moves the input. -/
inductive Advances (defs : Definitions) (g : Grammar) : View → List Value → View → Prop
  | nil (v : View) : Advances defs g v [] v
  | cons {v rest u : View} {x : Value} {xs : List Value} : g.Yields defs v (.ok (.done rest x)) →
    rest.offset ≠ v.offset → Advances defs g rest xs u → Advances defs g v (x :: xs) u

/-- How a loop with so many matches ends at `u`: it is full, or what its grammar comes to there ends it. -/
inductive LastRound (defs : Definitions) (g : Grammar) (l : Parser.Loop Value β) (matched : Nat) (acc : β) (u : View) :
    Except Fault (Outcome β) → Prop
  | full : l.most = some matched → LastRound defs g l matched acc u (.ok (.done u acc))
  | tried {r : Except Fault (Outcome Value)} {r' : Except Fault (Outcome β)} : l.Room matched → g.Yields defs u r →
    l.ending? matched acc u r = some r' → LastRound defs g l matched acc u r'

/-- Matches that move the input, with outputs that the loop puts together, and a last round that comes to `r`. -/
inductive Loops (defs : Definitions) (g : Grammar) (l : Parser.Loop Value β) (start : β) (v : View)
    (r : Except Fault (Outcome β)) : Prop
  | rounds {xs : List Value} {u : View} {acc : β} : Advances defs g v xs u → xs.foldlM l.step start = .ok acc →
    LastRound defs g l xs.length acc u r → Loops defs g l start v r

variable {g : Grammar} {v u w : View} {x : Value} {xs ys : List Value}

namespace Advances

theorem append (h : Advances defs g v xs w) (h' : Advances defs g w ys u) : Advances defs g v (xs ++ ys) u := by
  induction h with
  | nil v => exact h'
  | cons hx hmoves _ ih => exact .cons hx hmoves (ih h')

theorem of_append (h : Advances defs g v (xs ++ ys) u) : ∃ w, Advances defs g v xs w ∧ Advances defs g w ys u := by
  induction xs generalizing v with
  | nil => exact ⟨v, .nil v, h⟩
  | cons x xs ih =>
    cases h with
    | cons hx hmoves h' =>
      obtain ⟨w, hxs, hys⟩ := ih h'
      exact ⟨w, .cons hx hmoves hxs, hys⟩

theorem passes (h : Advances defs g v xs u) : Passes defs (List.replicate xs.length g) v xs u := by
  induction h with
  | nil v => exact .nil v
  | cons hx _ _ ih => exact .cons hx ih

end Advances

namespace LastRound
variable {l : Parser.Loop Value β} {j k matched : Nat} {acc : β} {r : Except Fault (Outcome β)}

theorem le_most (h : LastRound defs g l matched acc u r) : ∀ most, l.most = some most → matched ≤ most := by
  intro most hmost
  rcases h with hfull | ⟨hroom, -, -⟩
  · cases hmost.symm.trans hfull
    exact Nat.le_refl matched
  · exact Nat.le_of_lt (hroom most hmost)

theorem room_of_lt (h : LastRound defs g l matched acc u r) (hlt : k < matched) : l.Room k :=
  fun most hmost => Nat.lt_of_lt_of_le hlt (h.le_most most hmost)

end LastRound

/-! ### Loops that stand alike -/

/-- The results of two loops over `g`: the same, but for the words of the loops in their own faults and for how
their outputs are represented. -/
abbrev SameLoop (defs : Definitions) (g : Grammar) (word word' : String) (φ : γ → β) :
    Except Fault (Outcome β) → Except Fault (Outcome γ) → Prop :=
  Correspond (Fault.Renamed (Faults defs [g]) (Stalls defs g) word word') fun o o' => o = o'.map φ

/-- One loop after `k` matches and another after `k'` have the same decisions before them, where the first holds in
another form what the second has put together. -/
structure Abreast (l : Parser.Loop Value β) (l' : Parser.Loop Value γ) (φ : γ → β) (k k' : Nat) (acc : γ) : Prop where
  full : l.most = some k ↔ l'.most = some k'
  room : l.Room k ↔ l'.Room k'
  least : k < l.least ↔ k' < l'.least
  origin : k < l.least → l.origin = l'.origin
  step : ∀ x, ∃ b, l.step (φ acc) x = .ok b
  step_right : ∀ x, ∃ c, l'.step acc x = .ok c

namespace Abreast
variable {l : Parser.Loop Value β} {l' : Parser.Loop Value γ} {φ : γ → β} {k k' : Nat} {acc : γ}

theorem ending? (h : Abreast l l' φ k k' acc) {r : Except Fault (Outcome Value)} (hr : g.Yields defs u r) :
    Option.Rel (SameLoop defs g l.word l'.word φ) (l.ending? k (φ acc) u r) (l'.ending? k' acc u r) := by
  rcases r with f | ⟨rest, x⟩ | c | needed
  · exact .some (.error (.child ⟨g, by simp, u, hr⟩))
  · rw [Parser.Loop.ending?, Parser.Loop.ending?]
    split
    · next hstall => exact .some (.error (.own ⟨rest, x, hr, hstall⟩))
    · obtain ⟨b, hb⟩ := h.step x
      obtain ⟨c, hc⟩ := h.step_right x
      rw [hb, hc]
      exact .none
  · rw [Parser.Loop.ending?, Parser.Loop.ending?]
    by_cases hfew : k < l.least
    · rw [if_pos hfew, if_pos (h.least.1 hfew), h.origin hfew]
      exact .some (.ok rfl)
    · rw [if_neg hfew, if_neg (fun hfew' => hfew (h.least.2 hfew'))]
      exact .some (.ok rfl)
  · exact .some (.ok rfl)

theorem lastRound (h : Abreast l l' φ k k' acc) (g : Grammar) (u : View) :
    Alike (SameLoop defs g l.word l'.word φ) (LastRound defs g l k (φ acc) u) (LastRound defs g l' k' acc u) := by
  constructor
  · rintro r (hfull | ⟨hroom, hr, hending⟩)
    · exact ⟨_, .full (h.full.1 hfull), .ok rfl⟩
    · have hrel := h.ending? hr
      rw [hending] at hrel
      obtain ⟨r', hr', hcorr⟩ := Settled.exists_right hrel rfl
      exact ⟨r', .tried (h.room.1 hroom) hr hr', hcorr⟩
  · rintro r' (hfull | ⟨hroom, hr, hending⟩)
    · exact ⟨_, .full (h.full.2 hfull), .ok rfl⟩
    · have hrel := h.ending? hr
      rw [hending] at hrel
      obtain ⟨r, hr', hcorr⟩ := Settled.exists_left hrel rfl
      exact ⟨r, .tried (h.room.2 hroom) hr hr', hcorr⟩

end Abreast

/-! ### Repetitions -/

section Runs
variable {l : Parser.Loop Value β} {matched : Nat} {acc acc' : β} {r : Except Fault (Outcome β)}

theorem exists_rounds {n rounds : Nat} (hle : ∀ most, l.most = some most → matched ≤ most)
    (h : ((g.parse defs (n + 1)).fold l rounds matched acc v).settled = some r) :
    ∃ xs u acc', Advances defs g v xs u ∧ xs.foldlM l.step acc = .ok acc' ∧
      LastRound defs g l (matched + xs.length) acc' u r := by
  have hg := g.parse_steady defs (n + 1)
  induction rounds generalizing matched acc v with
  | zero =>
    rcases l.most_or_room hle with hfull | hroom
    · rw [Parser.settled_fold_of_most hfull] at h
      cases h
      exact ⟨[], v, acc, .nil v, rfl, .full hfull⟩
    · rw [Parser.fold, if_neg hroom.not_full] at h
      cases h
  | succ rounds ih =>
    rcases l.most_or_room hle with hfull | hroom
    · rw [Parser.settled_fold_of_most hfull] at h
      cases h
      exact ⟨[], v, acc, .nil v, rfl, .full hfull⟩
    rcases hr : (g.parse defs (n + 1) v).settled with _ | r₀
    · rw [Parser.settled_fold hg, if_neg hroom.not_full, hr] at h
      cases h
    rcases hending : l.ending? matched acc v r₀ with _ | r'
    · obtain ⟨rest, x, acc₁, rfl, hmoves, hstep⟩ := Parser.Loop.ending?_eq_none_iff.1 hending
      rw [Parser.settled_fold_of_match hg hroom hr hmoves hstep] at h
      obtain ⟨xs, u, acc', hxs, hacc, hlast⟩ := ih hroom h
      refine ⟨x :: xs, u, acc', .cons (.of_settled hr) hmoves hxs, ?_, ?_⟩
      · exact foldlM_cons_eq_ok_iff.2 ⟨acc₁, hstep, hacc⟩
      · rw [List.length_cons, ← Nat.add_assoc, Nat.add_right_comm]
        exact hlast
    · rw [Parser.settled_fold_of_ending hg hroom hr hending] at h
      cases h
      exact ⟨[], v, acc, .nil v, rfl, .tried hroom (.of_settled hr) hending⟩

/-- Matches and a last round make a run of the loop, from some budget and some number of rounds on. -/
theorem Advances.settled_fold (h : Advances defs g v xs u) (hacc : xs.foldlM l.step acc = .ok acc')
    (hlast : LastRound defs g l (matched + xs.length) acc' u r) :
    ∃ m, ∀ n, m ≤ n → ∀ rounds, m ≤ rounds →
      ((g.parse defs (n + 1)).fold l rounds matched acc v).settled = some r := by
  induction h generalizing matched acc with
  | nil v =>
    cases hacc
    rcases hlast with hfull | ⟨hroom, hr, hending⟩
    · exact ⟨0, fun n _ rounds _ => Parser.settled_fold_of_most hfull _ rounds _ v⟩
    · obtain ⟨m, hm⟩ := hr.settled
      refine ⟨m + 1, fun n hn rounds hrounds => ?_⟩
      obtain ⟨rounds, rfl⟩ : ∃ k, rounds = k + 1 := ⟨rounds - 1, by omega⟩
      exact Parser.settled_fold_of_ending (g.parse_steady defs (n + 1)) hroom (hm n (by omega)) hending rounds
  | @cons v rest u x xs hx hmoves hxs ih =>
    obtain ⟨acc₁, hstep, hacc⟩ := foldlM_cons_eq_ok_iff.1 hacc
    rw [List.length_cons, ← Nat.add_assoc, Nat.add_right_comm] at hlast
    obtain ⟨m, hm⟩ := ih hacc hlast
    obtain ⟨m', hm'⟩ := hx.settled
    refine ⟨max m m' + 1, fun n hn rounds hrounds => ?_⟩
    obtain ⟨rounds, rfl⟩ : ∃ k, rounds = k + 1 := ⟨rounds - 1, by omega⟩
    rw [Parser.settled_fold_of_match (g.parse_steady defs (n + 1)) (hlast.room_of_lt (by omega)) (hm' n (by omega))
      hmoves hstep]
    exact hm n (by omega) rounds (by omega)

theorem exists_settled_fold_iff {start : β} : (∃ n, ((g.parse defs (n + 1)).fold l n 0 start v).settled = some r) ↔
    Loops defs g l start v r := by
  constructor
  · rintro ⟨n, hn⟩
    obtain ⟨xs, u, acc, hxs, hacc, hlast⟩ := exists_rounds (fun _ _ => Nat.zero_le _) hn
    rw [Nat.zero_add] at hlast
    exact .rounds hxs hacc hlast
  · rintro ⟨hxs, hacc, hlast⟩
    rw [← Nat.zero_add (List.length _)] at hlast
    obtain ⟨m, hm⟩ := hxs.settled_fold hacc hlast
    exact ⟨m, hm m (Nat.le_refl m) m (Nat.le_refl m)⟩

end Runs

end Grammar

namespace Repetition

/-- The loop of a repetition that begins at `origin`. -/
def loop (r : Repetition) (origin : Position) (step : β → Value → Except Raised β) : Parser.Loop Value β :=
  ⟨r.word, origin, r.least, r.most, step⟩

/-- The repetition puts its outputs into a list. -/
def Lists (r : Repetition) : Prop := ∀ rounds p v, r.parse rounds p v =
  Outcome.map Value.list <$> p.fold (r.loop v.start Parser.collect) rounds 0 [] v

/-- The repetition folds its outputs. -/
def Folds (r : Repetition) (start : Value) (step : FoldStep) : Prop := ∀ rounds p v, r.parse rounds p v =
  p.fold (r.loop v.start step) rounds 0 start v

theorem lists_many0 : many0.Lists := fun _ _ _ => rfl

theorem lists_many1 : many1.Lists := fun _ _ _ => rfl

theorem lists_between (least most : Numeral) : (between least most).Lists := fun _ _ _ => rfl

theorem lists_times (count : Numeral) : (times count).Lists := fun _ _ _ => rfl

theorem folds_fold0 (start : Value) (step : FoldStep) : (fold0 start step).Folds start step :=
  fun _ _ _ => Run.run_pure_bind start _

theorem folds_fold1 (start : Value) (step : FoldStep) : (fold1 start step).Folds start step :=
  fun _ _ _ => Run.run_pure_bind start _

end Repetition

namespace Grammar
variable {g : Grammar} {v : View} {r : Repetition} {result : Except Fault (Outcome Value)}

/-- A repetition that lists its outputs ends after some matches, with their outputs in its list so far. -/
theorem yields_listing_iff (hr : r.Lists) : (repeated r g).Yields defs v result ↔
    ∃ xs u o, Advances defs g v xs u ∧ LastRound defs g (r.loop v.start Parser.collect) xs.length xs u o ∧
      result = o.map (Outcome.map Value.list) := by
  have hparse : ∀ n, ((repeated r g).parse defs (n + 1) v).settled = ((g.parse defs (n + 1)).fold
      (r.loop v.start Parser.collect) n 0 [] v).settled.map (Except.map (Outcome.map Value.list)) := by
    intro n
    rw [parse_repeated, hr, Run.settled_map]
  constructor
  · intro h
    obtain ⟨n, hn⟩ := h.settled
    have hsettled := hn n (Nat.le_refl n)
    rw [hparse] at hsettled
    obtain ⟨o, ho, rfl⟩ := Option.map_eq_some_iff.1 hsettled
    obtain ⟨hxs, hacc, hlast⟩ := exists_settled_fold_iff.1 ⟨n, ho⟩
    cases (Parser.foldlM_collect _ []).symm.trans hacc
    exact ⟨_, _, o, hxs, hlast, rfl⟩
  · rintro ⟨xs, u, o, hxs, hlast, rfl⟩
    obtain ⟨n, hn⟩ := exists_settled_fold_iff.2 (.rounds hxs (Parser.foldlM_collect xs []) hlast)
    exact .of_settled (n := n + 1) (by rw [hparse, hn, Option.map_some])

/-- A repetition that folds its outputs does what its loop does. -/
theorem yields_folding_iff {start : Value} {step : FoldStep} (hr : r.Folds start step) :
    (repeated r g).Yields defs v result ↔ Loops defs g (r.loop v.start step) start v result := by
  have hparse : ∀ n, (repeated r g).parse defs (n + 1) v =
      (g.parse defs (n + 1)).fold (r.loop v.start step) n 0 start v := by
    intro n
    rw [parse_repeated, hr]
  constructor
  · intro h
    obtain ⟨n, hn⟩ := h.settled
    have hsettled := hn n (Nat.le_refl n)
    rw [hparse] at hsettled
    exact exists_settled_fold_iff.1 ⟨n, hsettled⟩
  · intro h
    obtain ⟨n, hn⟩ := exists_settled_fold_iff.2 h
    exact .of_settled (n := n + 1) (by rw [hparse, hn])

end Grammar
end StreamGrammar
