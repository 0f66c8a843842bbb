import StreamGrammar.Proofs.LoopForm

/-! # Repetitions taken apart

A repetition is one of its first matches and then one of the others (`Grammar.repetition_splits`), and a counted
repetition is the sequence of so many copies (`Grammar.count_unrolled`). The first law compares loops that have made
the same matches before their last round: below the cut with the first repetition, above it with the second
(`Repetition.Splits`). In the second law a loop makes the matches of a row of copies as long as each match moves
the input (`Grammar.MovesFor`). -/

namespace StreamGrammar

variable {defs : Definitions} {β : Type}

/-- The outcome of a list with `xs` in front of its items. -/
def Outcome.prepend (xs : List Value) : Outcome Value → Outcome Value
  | .done rest (.list ys) => .done rest (.list (xs ++ ys))
  | o => o

theorem Outcome.prepend_nil : Outcome.prepend [] = id := by
  funext o
  rcases o with ⟨rest, x⟩ | c | k
  · cases x <;> rfl
  · rfl
  · rfl

/-! ### Two repetitions in a row -/

/-- The repetition `whole` does as many rounds as `first`, which stops after `a` matches, and then `rest` do. -/
structure Repetition.Splits (whole first rest : Repetition) (a : Nat) : Prop where
  whole_lists : whole.Lists
  first_lists : first.Lists
  rest_lists : rest.Lists
  first_most : first.most = some a
  first_least : first.least ≤ a
  rest_least : rest.least = 0
  least : whole.least = first.least
  most : whole.most = rest.most.map (a + ·)

namespace Grammar
variable {g : Grammar} {v u : View} {xs : List Value}

/-- What comes of `first` and, where it matches a list, of `rest` behind it, with the list in front. -/
inductive Then (defs : Definitions) (first rest : Grammar) (v : View) : Except Fault (Outcome Value) → Prop
  | first {r : Except Fault (Outcome Value)} : first.Yields defs v r → (∀ w x, r ≠ .ok (.done w x)) →
    Then defs first rest v r
  | both {w : View} {xs : List Value} {r : Except Fault (Outcome Value)} :
    first.Yields defs v (.ok (.done w (.list xs))) → rest.Yields defs w r →
      Then defs first rest v (r.map (Outcome.prepend xs))

/-- The same results, up to the word of a loop over `g` in its own fault, for which there is one of `words`. -/
abbrev SameUpToWord (defs : Definitions) (g : Grammar) (word : String) (words : List String) :
    Except Fault (Outcome Value) → Except Fault (Outcome Value) → Prop :=
  Correspond (fun f f' => ∃ word' ∈ words, Fault.Renamed (Faults defs [g]) (Stalls defs g) word word' f f') (· = ·)

/-- Loops that list what they match come to the same lists, where one of them begins with `xs`. -/
theorem SameLoop.lists {word word' : String} {words : List String} (hword : word' ∈ words)
    {o o' : Except Fault (Outcome (List Value))} (h : SameLoop defs g word word' (xs ++ ·) o o') :
    SameUpToWord defs g word words (o.map (Outcome.map Value.list))
      ((o'.map (Outcome.map Value.list)).map (Outcome.prepend xs)) := by
  rcases h with hf | @⟨_, o', rfl⟩
  · exact .error ⟨word', hword, hf⟩
  · cases o' <;> exact .ok rfl

theorem SameLoop.list {word word' : String} {words : List String} (hword : word' ∈ words)
    {o o' : Except Fault (Outcome (List Value))} (h : SameLoop defs g word word' ([] ++ ·) o o') :
    SameUpToWord defs g word words (o.map (Outcome.map Value.list)) (o'.map (Outcome.map Value.list)) := by
  have hlists := h.lists hword
  rwa [Outcome.prepend_nil, Except.map_id] at hlists

namespace LastRound
variable {l : Parser.Loop Value β} {k : Nat} {acc acc' : β} {w : View}

/-- A loop is done because it is full or because its grammar fails. -/
theorem done_cases (h : LastRound defs g l k acc u (.ok (.done w acc'))) :
    w = u ∧ acc' = acc ∧ (l.most = some k ∨ l.least ≤ k ∧ ∃ c, g.Yields defs u (.ok (.failed c))) := by
  rcases h with hfull | @⟨r, -, -, hr, hending⟩
  · exact ⟨rfl, rfl, .inl hfull⟩
  rcases r with f | ⟨rest, x⟩ | c | needed
  · cases hending
  · rw [Parser.Loop.ending?] at hending
    split at hending
    · cases hending
    · split at hending <;> cases hending
  · rw [Parser.Loop.ending?] at hending
    split at hending
    · cases hending
    · next henough =>
      cases hending
      exact ⟨rfl, rfl, .inr ⟨Nat.le_of_not_lt henough, c, hr⟩⟩
  · cases hending

/-- With enough matches behind it, a loop within its bounds is done where its grammar fails. -/
theorem of_failed {c : Chain} (hc : g.Yields defs u (.ok (.failed c))) (hleast : l.least ≤ k)
    (hmost : ∀ most, l.most = some most → k ≤ most) : LastRound defs g l k acc u (.ok (.done u acc)) := by
  rcases l.most_or_room hmost with hfull | hroom
  · exact .full hfull
  · refine .tried hroom hc ?_
    rw [Parser.Loop.ending?, if_neg (Nat.not_lt.2 hleast)]

end LastRound

/-- Where the grammar fails, a repetition that needs no match matches an empty list. -/
theorem yields_nil_of_failed {r : Repetition} (hr : r.Lists) (hleast : r.least = 0) {c : Chain}
    (hc : g.Yields defs u (.ok (.failed c))) : (repeated r g).Yields defs u (.ok (.done u (.list []))) := by
  refine (yields_listing_iff hr).2 ⟨[], u, .ok (.done u []), .nil u, ?_, rfl⟩
  exact .of_failed hc (Nat.le_of_eq hleast) fun _ _ => Nat.zero_le _

end Grammar

namespace Repetition.Splits
open Grammar

variable {whole first rest : Repetition} {a k : Nat} {g : Grammar} {v : View} {r r' : Except Fault (Outcome Value)}

/-- Before the first repetition stops by itself, it is where the whole one is. -/
theorem abreast_first (h : Splits whole first rest a) (hk : k < a) (origin : Position) (xs : List Value) :
    Abreast (whole.loop origin Parser.collect) (first.loop origin Parser.collect) ([] ++ ·) k k xs := by
  have hfirst : first.most = some a := h.first_most
  have hwhole : ∀ most, whole.most = some most → a ≤ most := by
    intro most hmost
    rw [h.most] at hmost
    obtain ⟨b, -, rfl⟩ := Option.map_eq_some_iff.1 hmost
    exact Nat.le_add_right a b
  refine ⟨?_, ?_, ?_, fun _ => rfl, fun x => ⟨_, rfl⟩, fun x => ⟨_, rfl⟩⟩
  · show whole.most = some k ↔ first.most = some k
    refine ⟨fun hmost => absurd (hwhole k hmost) (by omega), fun hmost => ?_⟩
    rw [hfirst] at hmost
    cases hmost
    exact absurd hk (Nat.lt_irrefl a)
  · refine ⟨fun _ most hmost => ?_, fun _ most hmost => Nat.lt_of_lt_of_le hk (hwhole most hmost)⟩
    cases hfirst.symm.trans hmost
    exact hk
  · show k < whole.least ↔ k < first.least
    rw [h.least]

/-- After the matches of the first repetition, the second is where the whole one is. -/
theorem abreast_rest (h : Splits whole first rest a) (origin origin' : Position) (xs ys : List Value) :
    Abreast (whole.loop origin Parser.collect) (rest.loop origin' Parser.collect) (xs ++ ·) (a + k) k ys := by
  have hleast : ¬ a + k < whole.least := by
    rw [h.least]
    have := h.first_least
    omega
  refine ⟨?_, ?_, ?_, fun hfew => absurd hfew hleast, fun x => ⟨_, rfl⟩, fun x => ⟨_, rfl⟩⟩
  · show whole.most = some (a + k) ↔ rest.most = some k
    rw [h.most]
    cases rest.most <;> simp
  · show (∀ most, whole.most = some most → a + k < most) ↔ ∀ most, rest.most = some most → k < most
    rw [h.most]
    cases rest.most <;> simp
  · show a + k < whole.least ↔ k < rest.least
    rw [h.rest_least]
    exact iff_of_false hleast (Nat.not_lt_zero k)

/-- What the whole repetition comes to, the two in a row do. -/
theorem yields_then (h : Splits whole first rest a) (hr : (repeated whole g).Yields defs v r) :
    ∃ r', Then defs (repeated first g) (repeated rest g) v r' ∧
      SameUpToWord defs g whole.word [first.word, rest.word] r r' := by
  obtain ⟨xs, u, o, hxs, hlast, rfl⟩ := (yields_listing_iff h.whole_lists).1 hr
  rcases Nat.lt_or_ge xs.length a with hlt | hge
  · obtain ⟨o', hlast', hsame⟩ := ((h.abreast_first hlt v.start xs).lastRound g u).left o hlast
    have hfirst := (yields_listing_iff h.first_lists).2 ⟨xs, u, o', hxs, hlast', rfl⟩
    have hcorr := hsame.list (List.mem_cons_self (l := [rest.word]))
    -- the first repetition has not stopped by itself, so where it is done the second finds nothing more
    by_cases hdone : ∃ w ys, o' = .ok (.done w ys)
    · obtain ⟨w, ys, rfl⟩ := hdone
      obtain ⟨rfl, rfl, hmost | ⟨-, c, hc⟩⟩ := hlast'.done_cases
      · cases h.first_most.symm.trans hmost
        exact absurd hlt (Nat.lt_irrefl _)
      · refine ⟨_, .both hfirst (yields_nil_of_failed h.rest_lists h.rest_least hc), ?_⟩
        show SameUpToWord defs g _ _ _ (.ok (.done w (.list (ys ++ []))))
        rw [List.append_nil]
        exact hcorr
    · refine ⟨_, .first hfirst fun w x hx => ?_, hcorr⟩
      rcases o' with f | ⟨w', ys⟩ | c | k <;> cases hx
      exact hdone ⟨w, ys, rfl⟩
  · obtain ⟨ys, zs, rfl, hys⟩ : ∃ ys zs, xs = ys ++ zs ∧ ys.length = a :=
      ⟨xs.take a, xs.drop a, (List.take_append_drop a xs).symm, List.length_take_of_le hge⟩
    obtain ⟨w, hfirst, hrest⟩ := hxs.of_append
    rw [List.length_append, hys] at hlast
    obtain ⟨o', hlast', hsame⟩ := ((h.abreast_rest v.start w.start ys zs).lastRound g u).left o hlast
    have hfull : LastRound defs g (first.loop v.start Parser.collect) ys.length ys w (.ok (.done w ys)) :=
      .full (hys ▸ h.first_most)
    exact ⟨_, .both ((yields_listing_iff h.first_lists).2 ⟨ys, w, _, hfirst, hfull, rfl⟩)
      ((yields_listing_iff h.rest_lists).2 ⟨zs, u, o', hrest, hlast', rfl⟩), hsame.lists (by simp [loop])⟩

/-- What the two in a row come to, the whole repetition does. -/
theorem of_then (h : Splits whole first rest a) (hr : Then defs (repeated first g) (repeated rest g) v r') :
    ∃ r, (repeated whole g).Yields defs v r ∧ SameUpToWord defs g whole.word [first.word, rest.word] r r' := by
  rcases hr with ⟨hfirst, hno⟩ | @⟨w, ys, r', hfirst, hrest⟩
  · obtain ⟨xs, u, o', hxs, hlast', rfl⟩ := (yields_listing_iff h.first_lists).1 hfirst
    have hlt : xs.length < a := by
      rcases hlast' with _ | ⟨hroom, -, -⟩
      · exact absurd rfl (hno u (.list xs))
      · exact hroom a h.first_most
    obtain ⟨o, hlast, hsame⟩ := ((h.abreast_first hlt v.start xs).lastRound g u).right o' hlast'
    exact ⟨_, (yields_listing_iff h.whole_lists).2 ⟨xs, u, o, hxs, hlast, rfl⟩, hsame.list List.mem_cons_self⟩
  · obtain ⟨ys', u, o', hys, hlast', ho'⟩ := (yields_listing_iff h.first_lists).1 hfirst
    rcases o' with f | ⟨w', zs⟩ | c | k <;> cases ho'
    obtain ⟨rfl, rfl, hmost | ⟨hleast, c, hc⟩⟩ := hlast'.done_cases
    · obtain ⟨zs, u, o', hzs, hlast', rfl⟩ := (yields_listing_iff h.rest_lists).1 hrest
      have hlength : ys.length = a := by
        cases h.first_most.symm.trans hmost
        rfl
      obtain ⟨o, hlast, hsame⟩ := ((h.abreast_rest v.start w.start ys zs).lastRound g u).right o' hlast'
      rw [← hlength, ← List.length_append] at hlast
      exact ⟨_, (yields_listing_iff h.whole_lists).2 ⟨ys ++ zs, u, o, hys.append hzs, hlast, rfl⟩,
        hsame.lists (by simp [loop])⟩
    · -- the grammar fails where the first repetition ends, so that is all that the second comes to
      cases hrest.unique (yields_nil_of_failed h.rest_lists h.rest_least hc)
      have hlast : LastRound defs g (whole.loop v.start Parser.collect) ys.length ys w (.ok (.done w ys)) := by
        refine .of_failed hc (Nat.le_trans (Nat.le_of_eq h.least) hleast) fun most hmost => ?_
        have hle := hlast'.le_most a h.first_most
        rw [loop, h.most] at hmost
        obtain ⟨b, -, rfl⟩ := Option.map_eq_some_iff.1 hmost
        omega
      refine ⟨_, (yields_listing_iff h.whole_lists).2 ⟨ys, w, _, hys, hlast, rfl⟩, ?_⟩
      show SameUpToWord defs g _ _ _ (.ok (.done w (.list (ys ++ []))))
      rw [List.append_nil]
      exact .ok rfl

theorem alike (h : Splits whole first rest a) (defs : Definitions) (g : Grammar) (v : View) :
    Alike (SameUpToWord defs g whole.word [first.word, rest.word]) ((repeated whole g).Yields defs v)
      (Then defs (repeated first g) (repeated rest g) v) :=
  ⟨fun _ => h.yields_then, fun _ => h.of_then⟩

variable {m n b : Numeral}

theorem between (hm : 0 ≤ m.toInt) (hmn : m.toInt ≤ n.toInt) (hb : b.toInt = n.toInt - m.toInt) :
    Splits (.between m n) (.times m) (.between 0 b) m.toNat where
  whole_lists := lists_between m n
  first_lists := lists_times m
  rest_lists := lists_between 0 b
  first_most := rfl
  first_least := Nat.le_refl _
  rest_least := rfl
  least := rfl
  most := by
    show some n.toInt.toNat = some (m.toInt.toNat + b.toInt.toNat)
    congr 1
    omega

theorem many1 : Splits .many1 (.times 1) .many0 1 where
  whole_lists := lists_many1
  first_lists := lists_times 1
  rest_lists := lists_many0
  first_most := rfl
  first_least := Nat.le_refl 1
  rest_least := rfl
  least := rfl
  most := rfl

theorem upTo (hm : 0 ≤ m.toInt) (hb : 0 ≤ b.toInt) (hn : n.toInt = m.toInt + b.toInt) :
    Splits (.between 0 n) (.between 0 m) (.between 0 b) m.toNat where
  whole_lists := lists_between 0 n
  first_lists := lists_between 0 m
  rest_lists := lists_between 0 b
  first_most := rfl
  first_least := Nat.zero_le _
  rest_least := rfl
  least := rfl
  most := by
    show some n.toInt.toNat = some (m.toInt.toNat + b.toInt.toNat)
    congr 1
    omega

theorem many0 (m : Numeral) : Splits .many0 (.between 0 m) .many0 m.toNat where
  whole_lists := lists_many0
  first_lists := lists_between 0 m
  rest_lists := lists_many0
  first_most := rfl
  first_least := Nat.zero_le _
  rest_least := rfl
  least := rfl
  most := rfl

end Repetition.Splits

namespace Grammar
variable {least most count : Numeral}

theorem between_eq_ok (hleast : 0 ≤ least.toInt) (hmost : least.toInt ≤ most.toInt) (g : Grammar) :
    between least most g = .ok (repeated (.between least most) g) := by
  rw [between, if_neg (by omega)]

theorem times_eq_ok (hcount : 0 ≤ count.toInt) (g : Grammar) : times g count = .ok (repeated (.times count) g) := by
  rw [times, if_neg (by omega)]

/-- A repetition can be cut at any number of matches. One that needs `m` matches and takes up to `n` is a count of
`m` and then up to as many as are left, one that needs a match is that match and then any number, and what needs no
match can be cut anywhere: the same outcome, the same fault of the grammar, and a stall at the same position. So
any number of matches leaves something in which there is none. -/
theorem repetition_splits (defs : Definitions) (g : Grammar) :
    (∀ m n b : Numeral, 0 ≤ m.toInt → m.toInt ≤ n.toInt → b.toInt = n.toInt - m.toInt →
      ∃ whole first rest, between m n g = .ok whole ∧ times g m = .ok first ∧ between 0 b g = .ok rest ∧
        ∀ v, Alike (SameUpToWord defs g "many_m_n" ["count", "many_m_n"]) (whole.Yields defs v)
          (Then defs first rest v)) ∧
    (∃ first, times g 1 = .ok first ∧ ∀ v, Alike (SameUpToWord defs g "many1" ["count", "many0"])
      ((many1 g).Yields defs v) (Then defs first (many0 g) v)) ∧
    (∀ a b n : Numeral, 0 ≤ a.toInt → 0 ≤ b.toInt → n.toInt = a.toInt + b.toInt →
      ∃ whole first rest, between 0 n g = .ok whole ∧ between 0 a g = .ok first ∧ between 0 b g = .ok rest ∧
        ∀ v, Alike (SameUpToWord defs g "many_m_n" ["many_m_n", "many_m_n"]) (whole.Yields defs v)
          (Then defs first rest v)) ∧
    (∀ a : Numeral, 0 ≤ a.toInt → ∃ first, between 0 a g = .ok first ∧
      ∀ v, Alike (SameUpToWord defs g "many0" ["many_m_n", "many0"]) ((many0 g).Yields defs v)
        (Then defs first (many0 g) v)) ∧
    ∀ v rest x, (many0 g).Yields defs v (.ok (.done rest x)) →
      (many0 g).Yields defs rest (.ok (.done rest (.list []))) := by
  have hzero : (0 : Numeral).toInt = 0 := rfl
  refine ⟨fun m n b hm hmn hb => ?_, ?_, fun a b n ha hb hn => ?_, fun a ha => ?_, fun v rest x hdone => ?_⟩
  · refine ⟨_, _, _, between_eq_ok hm hmn g, times_eq_ok hm g, between_eq_ok (by omega) (by omega) g, fun v => ?_⟩
    exact (Repetition.Splits.between hm hmn hb).alike defs g v
  · exact ⟨_, times_eq_ok (by decide) g, fun v => Repetition.Splits.many1.alike defs g v⟩
  · refine ⟨_, _, _, between_eq_ok (by omega) (by omega) g, between_eq_ok (by omega) (by omega) g,
      between_eq_ok (by omega) (by omega) g, fun v => ?_⟩
    exact (Repetition.Splits.upTo ha hb hn).alike defs g v
  · refine ⟨_, between_eq_ok (by omega) (by omega) g, fun v => ?_⟩
    exact (Repetition.Splits.many0 a).alike defs g v
  · obtain ⟨xs, u, o, -, hlast, ho⟩ := (yields_listing_iff Repetition.lists_many0).1 hdone
    rcases o with f | ⟨w, ys⟩ | c | k <;> cases ho
    obtain ⟨rfl, rfl, hfull | ⟨-, c, hc⟩⟩ := hlast.done_cases
    · cases hfull
    · exact yields_nil_of_failed Repetition.lists_many0 rfl hc

theorem repetition_splits_figureLine :
    (∃ whole first rest, between 1 3 figure = .ok whole ∧ times figure 1 = .ok first ∧
      between 0 2 figure = .ok rest ∧ whole.Yields noDefinitions figureLine
        (.ok (.done (figureLine.drop 2) (.list [.text "1", .text "2"]))) ∧
      Then noDefinitions first rest figureLine
        (.ok (.done (figureLine.drop 2) (.list [.text "1", .text "2"])))) ∧
    (∃ whole first rest, between 0 2 figure = .ok whole ∧ between 0 1 figure = .ok first ∧
      between 0 1 figure = .ok rest ∧ whole.Yields noDefinitions figureLine
        (.ok (.done (figureLine.drop 2) (.list [.text "1", .text "2"]))) ∧
      Then noDefinitions first rest figureLine
        (.ok (.done (figureLine.drop 2) (.list [.text "1", .text "2"])))) ∧
    (∃ first, between 0 1 figure = .ok first ∧ Then noDefinitions first (many0 figure) figureLine
      (.ok (.done (figureLine.drop 2) (.list [.text "1", .text "2"])))) ∧
    (many0 figure).Yields noDefinitions (figureLine.drop 2) (.ok (.done (figureLine.drop 2) (.list []))) := by
  obtain ⟨hbetween, -, hupTo, hmany0, hrest⟩ := repetition_splits noDefinitions figure
  have hmany : (many0 figure).Yields noDefinitions figureLine
      (.ok (.done (figureLine.drop 2) (.list [.text "1", .text "2"]))) := .of_result (n := 4) (by decide +kernel)
  refine ⟨?_, ?_, ?_, hrest figureLine _ _ hmany⟩
  · obtain ⟨whole, first, rest, hwhole, hfirst, hlast, halike⟩ := hbetween 1 3 2 (by decide) (by decide) (by decide)
    have hyields : whole.Yields noDefinitions figureLine
        (.ok (.done (figureLine.drop 2) (.list [.text "1", .text "2"]))) := by
      cases hwhole
      exact .of_result (n := 4) (by decide +kernel)
    obtain ⟨r', hthen, _ | rfl⟩ := (halike figureLine).left _ hyields
    exact ⟨whole, first, rest, hwhole, hfirst, hlast, hyields, hthen⟩
  · obtain ⟨whole, first, rest, hwhole, hfirst, hlast, halike⟩ := hupTo 1 1 2 (by decide) (by decide) (by decide)
    have hyields : whole.Yields noDefinitions figureLine
        (.ok (.done (figureLine.drop 2) (.list [.text "1", .text "2"]))) := by
      cases hwhole
      exact .of_result (n := 4) (by decide +kernel)
    obtain ⟨r', hthen, _ | rfl⟩ := (halike figureLine).left _ hyields
    exact ⟨whole, first, rest, hwhole, hfirst, hlast, hyields, hthen⟩
  · obtain ⟨first, hfirst, halike⟩ := hmany0 1 (by decide)
    obtain ⟨r', hthen, _ | rfl⟩ := (halike figureLine).left _ hmany
    exact ⟨first, hfirst, hthen⟩

/-! ### Copies in a row -/

/-- None of the first `n` matches from `v` on is a match of nothing. -/
def MovesFor (defs : Definitions) (g : Grammar) (n : Nat) (v : View) : Prop :=
  ∀ k < n, ∀ xs u rest x, Passes defs (List.replicate k g) v xs u → g.Yields defs u (.ok (.done rest x)) →
    rest.offset ≠ u.offset

variable {rest : View} {x : Value} {k n : Nat} {r₀ r' : Except Fault (Outcome Value)}

theorem MovesFor.tail (h : MovesFor defs g (n + 1) v) (hx : g.Yields defs v (.ok (.done rest x))) :
    MovesFor defs g n rest :=
  fun k hk xs u w y hxs hy => h (k + 1) (Nat.succ_lt_succ hk) (x :: xs) u w y (.cons hx hxs) hy

/-- A match that moves the input, and then matches that do. -/
theorem MovesFor.succ (hx : g.Yields defs v (.ok (.done rest x))) (hmoves : rest.offset ≠ v.offset)
    (h : MovesFor defs g n rest) : MovesFor defs g (n + 1) v := by
  intro k hk xs u w y hxs hy
  cases k with
  | zero =>
    cases hxs
    cases hx.unique hy
    exact hmoves
  | succ k =>
    cases hxs with
    | cons hx' hxs =>
      cases hx.unique hx'
      exact h k (Nat.lt_of_succ_lt_succ hk) _ u w y hxs hy

/-- Where the grammar does not match, there is no match on the way. -/
theorem MovesFor.of_no_match (hr : g.Yields defs v r₀) (hno : ∀ rest x, r₀ ≠ .ok (.done rest x)) (n : Nat) :
    MovesFor defs g n v := by
  intro k _ xs u w y hxs hy
  cases k with
  | zero =>
    cases hxs
    exact absurd (hr.unique hy) (hno w y)
  | succ k =>
    cases hxs with
    | cons hx _ => exact absurd (hr.unique hx) (hno _ _)

theorem MovesFor.advances (h : MovesFor defs g n v) (hk : k ≤ n) (hxs : Passes defs (List.replicate k g) v xs u) :
    Advances defs g v xs u := by
  induction k generalizing n v xs with
  | zero =>
    cases hxs
    exact .nil _
  | succ k ih =>
    obtain ⟨n, rfl⟩ : ∃ m, n = m + 1 := ⟨n - 1, by omega⟩
    cases hxs with
    | cons hx hxs =>
      have hmoves := h 0 (Nat.zero_lt_succ n) [] v _ _ (.nil v) hx
      exact .cons hx hmoves (ih (h.tail hx) (Nat.le_of_succ_le_succ hk) hxs)

/-- A row of copies stops at one of them, after matches of all before it. -/
theorem Stops.of_replicate (h : Stops defs (List.replicate n g) v r₀) :
    ∃ k < n, ∃ xs w, Passes defs (List.replicate k g) v xs w ∧ g.Yields defs w r₀ := by
  induction n generalizing v with
  | zero => cases h
  | succ n ih =>
    cases h with
    | here _ hr => exact ⟨0, Nat.zero_lt_succ n, [], v, .nil v, hr⟩
    | later hx h =>
      obtain ⟨k, hk, xs, w, hxs, hr⟩ := ih h
      exact ⟨k + 1, Nat.succ_lt_succ hk, _ :: xs, w, .cons hx hxs, hr⟩

theorem Passes.stops_replicate (hxs : Passes defs (List.replicate k g) v xs u) (hr : g.Yields defs u r₀) (hk : k < n) :
    Stops defs (List.replicate n g) v r₀ := by
  obtain ⟨m, rfl⟩ : ∃ m, n = k + (m + 1) := ⟨n - k - 1, by omega⟩
  rw [List.replicate_add, List.replicate_succ]
  exact hxs.stops (.here _ hr)

/-- What a count of `n` comes to, and what a row of `n` copies does. -/
inductive Unrolled (n : Nat) (origin : Position) : Except Fault (Outcome Value) → Except Fault (Outcome Value) → Prop
  | done {u : View} {xs : List Value} : xs.length = n →
    Unrolled n origin (.ok (.done u (.list xs))) (.ok (.done u (.tuple xs)))
  | failed (c : Chain) : Unrolled n origin (.ok (.failed (c.within .repetition origin)))
      (.ok (.failed (c.within .sequence origin)))
  | incomplete (k : Needed) : Unrolled n origin (.ok (.incomplete k)) (.ok (.incomplete k))
  | fault (f : Fault) : Unrolled n origin (.error f) (.error f)

theorem exists_stopped (h : ∀ rest x, r₀ ≠ .ok (.done rest x)) (origin : Position) :
    ∃ r' : Except Fault (Outcome Value), Stopped origin r₀ r' := by
  rcases r₀ with f | ⟨rest, x⟩ | c | k
  · exact ⟨_, .fault f⟩
  · exact absurd rfl (h rest x)
  · exact ⟨_, .failed c⟩
  · exact ⟨_, .incomplete k⟩

/-- Where a row of copies stops, a loop that still needs matches ends, with another kind of entry on a failure. -/
theorem Stopped.unrolled {l : Parser.Loop Value (List Value)} (h : Stopped l.origin r₀ r') (hk : k < l.least)
    (n : Nat) (acc : List Value) (u : View) :
    ∃ o, l.ending? k acc u r₀ = some o ∧ Unrolled n l.origin (o.map (Outcome.map Value.list)) r' := by
  cases h with
  | fault f => exact ⟨.error f, rfl, .fault f⟩
  | failed c => exact ⟨.ok (.failed (c.within .repetition l.origin)), by rw [Parser.Loop.ending?, if_pos hk], .failed c⟩
  | incomplete needed => exact ⟨.ok (.incomplete needed), rfl, .incomplete needed⟩

/-- A count of at least one is the sequence of so many copies, as long as no match on the way is one of nothing:
the same outputs, the same request, the same fault, and on a failure the same chain but for the kind of the
outermost entry. -/
theorem count_unrolled (defs : Definitions) (g : Grammar) (n : Numeral) (v : View) (hn : 1 ≤ n.toInt)
    (hmoves : MovesFor defs g n.toNat v) :
    ∃ counted unrolled, times g n = .ok counted ∧ tuple (List.replicate n.toNat g) = .ok unrolled ∧
      Alike (Unrolled n.toNat v.start) (counted.Yields defs v) (unrolled.Yields defs v) := by
  have hne : List.replicate n.toNat g ≠ [] := by
    rw [Ne, List.replicate_eq_nil_iff, Numeral.toNat]
    omega
  have hlists := Repetition.lists_times n
  let l := (Repetition.times n).loop v.start Parser.collect
  refine ⟨_, _, times_eq_ok (by omega) g, tuple_of_ne_nil hne, fun r hr => ?_, fun r' hr' => ?_⟩
  · obtain ⟨xs, u, o, hxs, hlast, rfl⟩ := (yields_listing_iff hlists).1 hr
    rcases hlast with hfull | @⟨r₀, o, hroom, hr₀, hending⟩
    · have hlength : n.toNat = xs.length := Option.some.inj hfull
      rw [hlength]
      exact ⟨_, yields_sequence_iff.2 (.all hxs.passes), .done rfl⟩
    · have hlt : xs.length < n.toNat := hroom n.toNat rfl
      have hno : ∀ rest x, r₀ ≠ .ok (.done rest x) := by
        rintro rest x rfl
        have hne := hmoves xs.length hlt xs u rest x hxs.passes hr₀
        rw [Parser.Loop.ending?_eq_none_iff.2 ⟨rest, x, _, rfl, hne, rfl⟩] at hending
        cases hending
      obtain ⟨r', hstopped⟩ := exists_stopped hno v.start
      obtain ⟨o', ho', hunrolled⟩ := Stopped.unrolled (l := l) hstopped hlt n.toNat xs u
      cases hending.symm.trans ho'
      exact ⟨r', yields_sequence_iff.2 (.stop (hxs.passes.stops_replicate hr₀ hlt) hstopped), hunrolled⟩
  · rcases yields_sequence_iff.1 hr' with @⟨xs, u, hxs⟩ | @⟨r₀, r', hstops, hstopped⟩
    · have hlength : xs.length = n.toNat := hxs.length_eq.trans List.length_replicate
      have hlast : LastRound defs g l xs.length xs u (.ok (.done u xs)) := .full (congrArg some hlength.symm)
      have hadvances := hmoves.advances (Nat.le_refl n.toNat) hxs
      exact ⟨_, (yields_listing_iff hlists).2 ⟨xs, u, _, hadvances, hlast, rfl⟩, .done hlength⟩
    · obtain ⟨k, hk, xs, u, hxs, hr₀⟩ := hstops.of_replicate
      have hlength : xs.length = k := hxs.length_eq.trans List.length_replicate
      obtain ⟨o, ho, hunrolled⟩ := Stopped.unrolled (l := l) hstopped hk n.toNat xs u
      have hroom : l.Room xs.length := by
        rintro most ⟨⟩
        omega
      have hlast : LastRound defs g l xs.length xs u o := .tried hroom hr₀ (hlength ▸ ho)
      have hadvances := hmoves.advances (Nat.le_of_lt hk) hxs
      exact ⟨_, (yields_listing_iff hlists).2 ⟨xs, u, o, hadvances, hlast, rfl⟩, hunrolled⟩

/-- The third figure is missing. -/
theorem count_unrolled_figureLine :
    MovesFor noDefinitions figure 3 figureLine ∧
    (∃ counted unrolled, times figure 2 = .ok counted ∧ tuple [figure, figure] = .ok unrolled ∧
      counted.Yields noDefinitions figureLine (.ok (.done (figureLine.drop 2) (.list [.text "1", .text "2"]))) ∧
      unrolled.Yields noDefinitions figureLine (.ok (.done (figureLine.drop 2) (.tuple [.text "1", .text "2"])))) ∧
    ∃ counted unrolled r, times figure 3 = .ok counted ∧ tuple [figure, figure, figure] = .ok unrolled ∧
      counted.Yields noDefinitions figureLine r ∧ Unrolled 3 figureLine.start r (.ok (.failed
        ⟨⟨.charMismatch, .ofNat 2, none, none⟩, [⟨.sequence, .ofNat 0, none, none⟩]⟩)) := by
  have hone : figure.Yields noDefinitions figureLine (.ok (.done (figureLine.drop 1) (.text "1"))) :=
    .of_result (n := 1) (by decide +kernel)
  have htwo : figure.Yields noDefinitions (figureLine.drop 1) (.ok (.done (figureLine.drop 2) (.text "2"))) :=
    .of_result (n := 1) (by decide +kernel)
  have hthree : figure.Yields noDefinitions (figureLine.drop 2) (.ok (.failAt .charMismatch (figureLine.drop 2))) :=
    .of_result (n := 1) (by decide +kernel)
  have hmoves : ∀ n, MovesFor noDefinitions figure (n + 2) figureLine := fun n =>
    .succ hone (by decide) (.succ htwo (by decide) (.of_no_match hthree nofun n))
  refine ⟨hmoves 1, ?_, ?_⟩
  · obtain ⟨counted, unrolled, hcounted, hunrolled, halike⟩ :=
      count_unrolled noDefinitions figure 2 figureLine (by decide) (hmoves 0)
    have hyields : counted.Yields noDefinitions figureLine
        (.ok (.done (figureLine.drop 2) (.list [.text "1", .text "2"]))) := by
      cases hcounted
      exact .of_result (n := 4) (by decide +kernel)
    obtain ⟨r', hr', ⟨-⟩⟩ := halike.left _ hyields
    exact ⟨counted, unrolled, hcounted, hunrolled, hyields, hr'⟩
  · obtain ⟨counted, unrolled, hcounted, hunrolled, halike⟩ :=
      count_unrolled noDefinitions figure 3 figureLine (by decide) (hmoves 1)
    have hyields : unrolled.Yields noDefinitions figureLine (.ok (.failed
        ⟨⟨.charMismatch, .ofNat 2, none, none⟩, [⟨.sequence, .ofNat 0, none, none⟩]⟩)) := by
      cases hunrolled
      exact .of_result (n := 2) (by decide +kernel)
    obtain ⟨r, hr, hrelated⟩ := halike.right _ hyields
    exact ⟨counted, unrolled, r, hcounted, hunrolled, hr, hrelated⟩

end Grammar
end StreamGrammar
