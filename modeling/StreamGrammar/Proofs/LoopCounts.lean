import StreamGrammar.Proofs.Request
import StreamGrammar.Proofs.Rounds

/-! # How often loops run their grammars

`Grammar.loops_end_and_count`: every loop over grammars that come to outcomes and leave suffixes of their input
comes to a result, and the number of calls is bounded by the length of the input. The check for progress compares
offsets only, but a suffix at another offset is shorter (`Grammar.exists_settled`). What is called and where is read
off the records of traces around the grammars in the loop, and each tally is proved from the rounds of the loop. -/

namespace StreamGrammar

variable {defs : Definitions}

open Call

/-! ### Loops end -/

theorem View.SuffixOf.length_lt {rest v : View} (h : rest.SuffixOf v) (hmoves : rest.offset ≠ v.offset) :
    rest.length < v.length :=
  Contract.length_lt_of_offset_lt h (Nat.lt_of_le_of_ne h.offset_le hmoves.symm)

namespace Grammar
variable {g h : Grammar} {v w : View}

namespace Returns

/-- A primitive for this kind of input whose test raises nothing comes to an outcome. -/
theorem primitive {p : Primitive} (hsuits : p.suits v.kind = true) (hraises : ∀ e, ¬ p.Raises e) :
    (primitive p).Returns defs v := by
  intro w hw
  have hyields := yields_primitive defs p w
  have hno : p.suits w.kind ≠ false := by rw [hw.kind, hsuits]; exact nofun
  have hanswer := Primitive.answer w p
  generalize p.parse w = r at hyields hanswer
  rcases hanswer with _ | _ | _ | _ | hkind | hkind | hraised
  · refine ⟨_, hyields, ?_⟩
    rintro _ _ ⟨⟩
    exact .drop w _
  · refine ⟨_, hyields, ?_⟩
    rintro _ _ ⟨⟩
    exact .refl w
  · exact ⟨_, hyields, fun _ _ hdone => nomatch hdone⟩
  · exact ⟨_, hyields, fun _ _ hdone => nomatch hdone⟩
  · exact absurd hkind hno
  · exact absurd hkind hno
  · exact absurd hraised (hraises _)

theorem preceded (hh : h.Returns defs v) (hg : g.Returns defs v) : (preceded h g).Returns defs v := by
  intro w hw
  obtain ⟨o, ho, hsuffix⟩ := hh w hw
  obtain ⟨m, hm⟩ := ho.settled
  have hsettled : ∀ n, m ≤ n → ((Grammar.preceded h g).parse defs (n + 1) w).settled =
      Parser.followed (g.parse defs (n + 1)) (fun _ x => x) w.start o := by
    intro n hn
    rw [Grammar.preceded, parse_sequence_two, (Parser.settles_sequence_two (fun _ x => x) (fun _ _ => rfl)
      (h.parse_steady defs (n + 1)) (g.parse_steady defs (n + 1)) w).eq, hm n hn, Settled.andThen_ok]
  rcases o with ⟨between, y⟩ | c | k
  · have hbetween := hsuffix between y rfl
    obtain ⟨o', ho', hsuffix'⟩ := hg between (hw.trans hbetween)
    obtain ⟨m', hm'⟩ := ho'.settled
    have hboth := hsettled (max m m') (Nat.le_max_left m m')
    rw [Parser.followed, hm' (max m m') (Nat.le_max_right m m'), Settled.andThen_ok] at hboth
    rcases o' with ⟨rest, x⟩ | c | k
    · refine ⟨_, .of_settled hboth, ?_⟩
      rintro _ _ ⟨⟩
      exact hbetween.trans (hsuffix' rest x rfl)
    · exact ⟨_, .of_settled hboth, by rintro _ _ ⟨⟩⟩
    · exact ⟨_, .of_settled hboth, by rintro _ _ ⟨⟩⟩
  · exact ⟨_, .of_settled (hsettled m (Nat.le_refl m)), by rintro _ _ ⟨⟩⟩
  · exact ⟨_, .of_settled (hsettled m (Nat.le_refl m)), by rintro _ _ ⟨⟩⟩

end Returns

/-- A loop ends once it may make more rounds than there are symbols if a round that does not end it leaves less
of the input. Here `F n` is the loop at the budget `n`. -/
theorem exists_settled {σ α : Type} {F : Nat → Nat → σ → View → Settled α} {P : View → Prop}
    (hround : ∀ s v, P v → (∃ m, ∀ n, m ≤ n → ∀ rounds, ∃ r, F n (rounds + 1) s v = some r) ∨
      ∃ s' rest, P rest ∧ rest.length < v.length ∧ ∃ m, ∀ n, m ≤ n → ∀ rounds,
        F n (rounds + 1) s v = F n rounds s' rest) (s : σ) {v : View} (hv : P v) :
    ∃ m, ∀ n, m ≤ n → ∀ rounds, v.length < rounds → ∃ r, F n rounds s v = some r := by
  induction hlength : v.length using Nat.strongRecOn generalizing v s with
  | ind k ih =>
    subst hlength
    rcases hround s v hv with ⟨m, hm⟩ | ⟨s', rest, hrest, hlt, m, hm⟩
    · refine ⟨m, fun n hn rounds hrounds => ?_⟩
      obtain ⟨rounds, rfl⟩ : ∃ k, rounds = k + 1 := ⟨rounds - 1, by omega⟩
      exact hm n hn rounds
    · obtain ⟨m', hm'⟩ := ih rest.length hlt s' hrest rfl
      refine ⟨max m m', fun n hn rounds hrounds => ?_⟩
      obtain ⟨rounds, rfl⟩ : ∃ k, rounds = k + 1 := ⟨rounds - 1, by omega⟩
      rw [hm n (by omega)]
      exact hm' n (by omega) rounds (by omega)

namespace Returns

theorem exists_fold {β : Type} (hg : g.Returns defs v) (l : Parser.Loop Value β) (matched : Nat) (acc : β) :
    ∃ m, ∀ n, m ≤ n → ∀ rounds, v.length < rounds →
      ∃ r, ((g.parse defs (n + 1)).fold l rounds matched acc v).settled = some r := by
  refine exists_settled (σ := Nat × β) (P := g.Returns defs)
    (F := fun n rounds s w => ((g.parse defs (n + 1)).fold l rounds s.1 s.2 w).settled) ?_ (matched, acc) hg
  rintro ⟨matched, acc⟩ w hw
  obtain ⟨o, ho, hsuffix⟩ := hw w (.refl w)
  obtain ⟨m, hm⟩ := ho.settled
  have hstep := fun n (hn : m ≤ n) rounds =>
    Parser.settled_fold (l := l) (g.parse_steady defs (n + 1)) rounds matched acc w
  by_cases hfull : l.full matched = true
  · exact .inl ⟨m, fun n hn rounds => ⟨_, (hstep n hn rounds).trans (if_pos hfull)⟩⟩
  have hround : ∀ n, m ≤ n → ∀ rounds, ((g.parse defs (n + 1)).fold l (rounds + 1) matched acc w).settled = _ :=
    fun n hn rounds => by rw [hstep n hn rounds, if_neg hfull, hm n hn, Settled.andThen_ok]
  rcases o with ⟨rest, x⟩ | c | k
  · dsimp only at hround
    have hrest := hsuffix rest x rfl
    by_cases hmoves : rest.offset = w.offset
    · exact .inl ⟨m, fun n hn rounds => ⟨_, (hround n hn rounds).trans (if_pos hmoves)⟩⟩
    simp only [if_neg hmoves] at hround
    cases hfold : l.step acc x with
    | error e =>
      simp only [hfold] at hround
      exact .inl ⟨m, fun n hn rounds => ⟨_, hround n hn rounds⟩⟩
    | ok acc' =>
      simp only [hfold] at hround
      exact .inr ⟨(matched + 1, acc'), rest, hw.suffix hrest, hrest.length_lt hmoves, m, hround⟩
  · exact .inl ⟨m, fun n hn rounds => ⟨_, hround n hn rounds⟩⟩
  · exact .inl ⟨m, fun n hn rounds => ⟨_, hround n hn rounds⟩⟩

theorem exists_manyTill (hg : g.Returns defs v) (hh : h.Returns defs v) (origin : Position) (xs : List Value) :
    ∃ m, ∀ n, m ≤ n → ∀ rounds, v.length < rounds →
      ∃ r, (Parser.manyTill origin (g.parse defs (n + 1)) (h.parse defs (n + 1)) rounds xs v).settled = some r := by
  refine exists_settled (P := fun w => g.Returns defs w ∧ h.Returns defs w) (F := fun n rounds xs w =>
    (Parser.manyTill origin (g.parse defs (n + 1)) (h.parse defs (n + 1)) rounds xs w).settled) ?_ xs ⟨hg, hh⟩
  rintro xs w ⟨hgw, hhw⟩
  obtain ⟨o, ho, hsuffix⟩ := hgw w (.refl w)
  obtain ⟨o', ho', -⟩ := hhw w (.refl w)
  obtain ⟨m, hm⟩ := ho.settled
  obtain ⟨m', hm'⟩ := ho'.settled
  have hround : ∀ n, max m m' ≤ n → ∀ rounds, (Parser.manyTill origin (g.parse defs (n + 1))
      (h.parse defs (n + 1)) (rounds + 1) xs w).settled = _ := fun n hn rounds => by
    rw [Parser.settled_manyTill (g.parse_steady defs (n + 1)) (h.parse_steady defs (n + 1)), hm n (by omega),
      hm' n (by omega), Settled.andThen_ok, Settled.andThen_ok]
  rcases o' with ⟨rest, y⟩ | c | k
  · exact .inl ⟨_, fun n hn rounds => ⟨_, hround n hn rounds⟩⟩
  · rcases o with ⟨rest, x⟩ | c' | k
    · dsimp only at hround
      have hrest := hsuffix rest x rfl
      by_cases hmoves : rest.offset = w.offset
      · exact .inl ⟨_, fun n hn rounds => ⟨_, (hround n hn rounds).trans (if_pos hmoves)⟩⟩
      simp only [if_neg hmoves] at hround
      exact .inr ⟨xs ++ [x], rest, ⟨hgw.suffix hrest, hhw.suffix hrest⟩, hrest.length_lt hmoves, _, hround⟩
    · exact .inl ⟨_, fun n hn rounds => ⟨_, hround n hn rounds⟩⟩
    · exact .inl ⟨_, fun n hn rounds => ⟨_, hround n hn rounds⟩⟩
  · exact .inl ⟨_, fun n hn rounds => ⟨_, hround n hn rounds⟩⟩

theorem repeated_yields (hg : g.Returns defs v) (r : Repetition) :
    ∃ result, (repeated r g).Yields defs v result := by
  have hloop : ∀ {β : Type} (l : Parser.Loop Value β) (acc : β), ∃ n result,
      ((g.parse defs (n + 1)).fold l n 0 acc v).settled = some result := by
    intro β l acc
    obtain ⟨m, hm⟩ := hg.exists_fold l 0 acc
    exact ⟨max m (v.length + 1), hm _ (Nat.le_max_left _ _) _ (by omega)⟩
  have hlist : ∀ l : Parser.Loop Value (List Value), ∃ n result,
      (Outcome.map Value.list <$> (g.parse defs (n + 1)).fold l n 0 [] v).settled = some result := by
    intro l
    obtain ⟨n, result, hn⟩ := hloop l []
    exact ⟨n, _, by rw [Run.settled_map, hn, Option.map_some]⟩
  have hfold : ∀ (l : Parser.Loop Value Value) (start : FoldStart), ∃ n result,
      ((liftM start : Run Value) >>= fun acc => (g.parse defs (n + 1)).fold l n 0 acc v).settled = some result := by
    intro l start
    cases start with
    | error e => exact ⟨0, _, rfl⟩
    | ok acc =>
      obtain ⟨n, result, hn⟩ := hloop l acc
      exact ⟨n, result, by rw [← hn]; exact congrArg Run.settled (Run.run_pure_bind acc _)⟩
  have hparse : ∃ n result, (r.parse n (g.parse defs (n + 1)) v).settled = some result := by
    cases r with
    | fold0 start step | fold1 start step => exact hfold _ start
    | _ => exact hlist _
  obtain ⟨n, result, hn⟩ := hparse
  rw [← parse_repeated] at hn
  exact ⟨result, .of_settled hn⟩

theorem manyTill_yields (hg : g.Returns defs v) (hh : h.Returns defs v) :
    ∃ result, (manyTill g h).Yields defs v result := by
  obtain ⟨m, hm⟩ := hg.exists_manyTill hh v.start []
  obtain ⟨r, hr⟩ := hm (max m (v.length + 1)) (Nat.le_max_left _ _) (max m (v.length + 1)) (by omega)
  have hparse := Run.settled_map (Outcome.map fun p => Value.tuple [.list p.1, p.2]) (Parser.manyTill v.start
    (g.parse defs (max m (v.length + 1) + 1)) (h.parse defs (max m (v.length + 1) + 1)) (max m (v.length + 1)) [] v)
  rw [hr, ← parse_manyTill, Option.map_some] at hparse
  exact ⟨_, .of_settled hparse⟩

theorem separated_yields (hg : g.Returns defs v) (hh : h.Returns defs v) (nonempty : Bool) :
    ∃ result, (separated nonempty h g).Yields defs v result := by
  obtain ⟨o, ho, hsuffix⟩ := hg v (.refl v)
  obtain ⟨m, hm⟩ := ho.settled
  have hfirst := fun n => settled_separated defs h g nonempty n v
  rcases o with ⟨rest, x⟩ | c | k
  · have hrest := hsuffix rest x rfl
    obtain ⟨m', hm'⟩ := ((hh.suffix hrest).preceded (hg.suffix hrest)).exists_fold
      (Parser.listing (separatedWord nonempty) rest.start) 0 [x]
    obtain ⟨n, hn, hn', hlt⟩ : ∃ n, m ≤ n ∧ m' ≤ n ∧ rest.length < n := ⟨m + m' + rest.length + 1, by omega⟩
    obtain ⟨r, hr⟩ := hm' n hn' n hlt
    have hparse := hfirst n
    rw [hm n hn, Settled.andThen_ok] at hparse
    simp only [hr, Option.map_some] at hparse
    exact ⟨_, .of_settled hparse⟩
  · have hparse := hfirst m
    rw [hm m (Nat.le_refl m), Settled.andThen_ok] at hparse
    exact ⟨_, .of_settled hparse⟩
  · have hparse := hfirst m
    rw [hm m (Nat.le_refl m), Settled.andThen_ok] at hparse
    exact ⟨_, .of_settled hparse⟩

end Returns
end Grammar

/-! ### Folding loops and their counts -/

/-- In its last round a folding loop runs its child, unless it is full, and stalls if the child does. -/
theorem FoldLast.full_or_run {β : Type} {E : View → List Call → Outcome Value → Prop} {l : Parser.Loop Value β}
    {start : β} {xs : List Value} {u : View} {calls : List Call} {r : Except Fault (Outcome β)}
    (h : FoldLast E l start xs u calls r) :
    (calls = [] ∧ ¬ Stalled l.word r) ∨
      ∃ o, E u calls o ∧ (Stalled l.word r ↔ ∃ rest x, o = .done rest x ∧ rest.offset = u.offset) := by
  cases h with
  | full => exact .inl ⟨rfl, fun ⟨_, h⟩ => nomatch h⟩
  | enough ho => exact .inr ⟨_, ho, fun ⟨_, h⟩ => (nomatch h), fun ⟨_, _, h, _⟩ => nomatch h⟩
  | failed ho => exact .inr ⟨_, ho, fun ⟨_, h⟩ => (nomatch h), fun ⟨_, _, h, _⟩ => nomatch h⟩
  | incomplete ho => exact .inr ⟨_, ho, fun ⟨_, h⟩ => (nomatch h), fun ⟨_, _, h, _⟩ => nomatch h⟩
  | stalled ho hstall => exact .inr ⟨_, ho, fun _ => ⟨_, _, rfl, hstall⟩, fun _ => ⟨_, rfl⟩⟩
  | raised ho hmoves =>
    refine .inr ⟨_, ho, fun ⟨_, h⟩ => (nomatch h), ?_⟩
    rintro ⟨_, _, ⟨⟩, hstall⟩
    exact absurd hstall hmoves

theorem FoldLast.word {β : Type} {E : View → List Call → Outcome Value → Prop} {l : Parser.Loop Value β}
    {start : β} {xs : List Value} {u : View} {calls : List Call} {r : Except Fault (Outcome β)} {word : String}
    (h : FoldLast E l start xs u calls r) (hstalled : Stalled word r) : word = l.word := by
  obtain ⟨position, rfl⟩ := hstalled
  cases h with
  | stalled => rfl

theorem FoldLast.only_item {β : Type} {item : String} {others : List String} {l : Parser.Loop Value β} {start : β}
    {xs : List Value} {u : View} {calls : List Call} {r : Except Fault (Outcome β)}
    (h : FoldLast (Single item others) l start xs u calls r) :
    only item calls = [] ∨ ∃ o, only item calls = [⟨item, u.offset, o⟩] := by
  rcases h.full_or_run with ⟨rfl, -⟩ | ⟨o, ho, -⟩
  · exact .inl rfl
  · exact .inr ⟨o, ho.made⟩

theorem FoldLast.stalled_or_moves {β : Type} {item : String} {others : List String} {l : Parser.Loop Value β}
    {start : β} {xs : List Value} {u : View} {calls : List Call} {r : Except Fault (Outcome β)}
    (h : FoldLast (Single item others) l start xs u calls r) :
    (Stalled l.word r ∧ ∃ c ∈ only item calls, c.Stalls) ∨
      ¬ Stalled l.word r ∧ ∀ c ∈ only item calls, c.Moves := by
  rcases h.full_or_run with ⟨rfl, hstalled⟩ | ⟨o, ho, hstalled⟩
  · exact .inr ⟨hstalled, by simp⟩
  by_cases hstall : ∃ rest x, o = .done rest x ∧ rest.offset = u.offset
  · obtain ⟨rest, x, rfl, hoffset⟩ := hstall
    exact .inl ⟨hstalled.2 ⟨rest, x, rfl, hoffset⟩, ho.stalls hoffset⟩
  · exact .inr ⟨fun h => hstall (hstalled.1 h), ho.moves fun rest x hdone hoffset => hstall ⟨rest, x, hdone, hoffset⟩⟩

/-- What the constructors let pass. -/
def Repetition.Admissible : Repetition → Prop
  | between least most => ¬ (least.toInt < 0 ∨ most.toInt < least.toInt)
  | times count => ¬ count.toInt < 0
  | _ => True

/-- A repetition with so many matches may be done. -/
def Repetition.Counts (n : Nat) : Repetition → Prop
  | many0 => True
  | many1 => 1 ≤ n
  | between least most => least.toInt ≤ n ∧ n ≤ most.toInt
  | times count => n = count.toInt
  | fold0 _ _ => True
  | fold1 _ _ => 1 ≤ n

/-- The output of a repetition with these matches. -/
def Repetition.gather (r : Repetition) (xs : List Value) : Except Raised Value :=
  match r with
  | fold0 start step => do xs.foldlM step (← start)
  | fold1 start step => do xs.foldlM step (← start)
  | _ => .ok (.list xs)

theorem Repetition.counts_of_bounds {r : Repetition} {n : Nat} (hr : r.Admissible)
    (hleast : (∀ most, r.most = some most → r.least ≤ most) → r.least ≤ n)
    (hmost : ∀ most, r.most = some most → n ≤ most) : r.Counts n := by
  cases r with
  | many0 => trivial
  | many1 => exact hleast fun _ h => nomatch h
  | between least most =>
    have hle := hmost _ rfl
    have hge := hleast (by
      rintro _ ⟨⟩
      simp only [Admissible, Repetition.least, Numeral.toNat] at hr ⊢
      omega)
    simp only [Admissible, Repetition.least, Numeral.toNat] at hr hge hle
    exact ⟨by omega, by omega⟩
  | times count =>
    have hle := hmost _ rfl
    have hge := hleast (by
      rintro _ ⟨⟩
      exact Nat.le_refl _)
    simp only [Admissible, Repetition.least, Numeral.toNat] at hr hge hle
    show (n : Int) = count.toInt
    omega
  | fold0 => trivial
  | fold1 => exact hleast fun _ h => nomatch h

/-- How often a repetition runs the grammar with the label `item`, and how its result belongs with that. -/
structure RepeatedTally (r : Repetition) (item : String) (v : View) (calls : List Call)
    (result : Except Fault (Outcome Value)) : Prop where
  count : (only item calls).length ≤ v.length + 1
  increasing : (only item calls).Pairwise (·.offset < ·.offset)
  stalls : Stalled r.word result ↔ ∃ c ∈ only item calls, c.Stalls
  word : ∀ word, Stalled word result → word = r.word
  moves : ¬ Stalled r.word result → ∀ c ∈ only item calls, c.Moves
  gathers : ∀ rest x, result = .ok (.done rest x) → r.gather (outputs (only item calls)) = .ok x
  length_le : ∀ rest x, result = .ok (.done rest x) → (outputs (only item calls)).length ≤ v.length
  counts : ∀ rest x, result = .ok (.done rest x) → r.Admissible → r.Counts (outputs (only item calls)).length

/-- Where a folding loop is done, its matches are those that the calls show. -/
theorem Rounds.done_of_fold {β : Type} {E : View → List Call → Outcome Value → Prop} {item : String}
    {l : Parser.Loop Value β} {start acc : β} {xs : List Value} {v rest : View} {calls : List Call}
    (hdone : ∀ {w calls x rest}, E w calls (.done rest x) → outputs (only item calls) = [x])
    (hfailed : ∀ {w calls c}, E w calls (.failed c) → outputs (only item calls) = [])
    (h : Rounds (fun w calls x rest => E w calls (.done rest x)) (FoldLast E l start) xs v calls
      (.ok (.done rest acc))) :
    (xs ++ outputs (only item calls)).foldlM l.step start = .ok acc ∧ (outputs (only item calls)).length ≤ v.length ∧
      (∀ most, l.most = some most → (xs ++ outputs (only item calls)).length ≤ most) ∧
        ((∀ most, l.most = some most → l.least ≤ most) → l.least ≤ (xs ++ outputs (only item calls)).length) := by
  obtain ⟨ys, u, last, hlast, houtputs, hlength⟩ := Rounds.exists_last item h hdone
  cases hlast with
  | full hacc hfull hmost =>
    have heq : outputs (only item calls) = ys := by rw [houtputs]; exact List.append_nil ys
    rw [heq]
    refine ⟨hacc, hlength, hmost, fun hleast => ?_⟩
    unfold Parser.Loop.full at hfull
    split at hfull
    · cases hfull
    · next most hm => exact Nat.le_trans (hleast most hm) (of_decide_eq_true hfull)
  | enough ho hacc hleast hmost =>
    have heq : outputs (only item calls) = ys := by rw [houtputs, hfailed ho, List.append_nil]
    rw [heq]
    exact ⟨hacc, hlength, hmost, fun _ => hleast⟩

theorem Stalled.map_iff {γ δ : Type} {word : String} {f : γ → δ} {r : Except Fault γ} :
    Stalled word (r.map f) ↔ Stalled word r := by
  rcases r with fault | a
  · constructor
    · rintro ⟨position, ⟨⟩⟩
      exact ⟨position, rfl⟩
    · rintro ⟨position, ⟨⟩⟩
      exact ⟨position, rfl⟩
  · exact ⟨fun ⟨_, h⟩ => (nomatch h), fun ⟨_, h⟩ => nomatch h⟩

/-- A fold whose start raises runs nothing. -/
theorem RepeatedTally.of_raised {r : Repetition} {item : String} {v : View} {e : Raised} :
    RepeatedTally r item v [] (.error (.raised e)) where
  count := Nat.zero_le _
  increasing := .nil
  stalls := ⟨fun ⟨_, h⟩ => (nomatch h), fun ⟨_, hc, _⟩ => nomatch hc⟩
  word := fun _ ⟨_, h⟩ => nomatch h
  moves := fun _ _ hc => nomatch hc
  gathers := nofun
  length_le := nofun
  counts := nofun

theorem RepeatedTally.of_rounds {β : Type} {item : String} {r : Repetition} {origin : Position}
    {step : β → Value → Except Raised β} {start : β} {f : β → Value}
    (hgather : ∀ xs acc, xs.foldlM step start = .ok acc → r.gather xs = .ok (f acc)) {v : View} {calls : List Call}
    {result : Except Fault (Outcome β)}
    (h : Rounds (fun w calls x rest => Single item [] w calls (.done rest x))
      (FoldLast (Single item []) ⟨r.word, origin, r.least, r.most, step⟩ start) [] v calls result) :
    RepeatedTally r item v calls (result.map (Outcome.map f)) := by
  obtain ⟨hstalls, hmoves⟩ := h.stalls_iff (fun ho hlt => ho.moves (by rintro _ _ ⟨⟩; exact Nat.ne_of_gt hlt))
    fun hlast => hlast.stalled_or_moves
  have hdone : ∀ rest x, result.map (Outcome.map f) = .ok (.done rest x) →
      r.gather (outputs (only item calls)) = .ok x ∧ (outputs (only item calls)).length ≤ v.length ∧
        (r.Admissible → r.Counts (outputs (only item calls)).length) := by
    intro rest x hx
    rcases result with fault | ⟨rest', acc⟩ | c | k <;> cases hx
    obtain ⟨hfold, hlength, hmost, hleast⟩ :=
      h.done_of_fold (fun ho => ho.outputs_only) fun ho => by rw [ho.made]; rfl
    exact ⟨hgather _ acc hfold, hlength, fun hr => Repetition.counts_of_bounds hr hleast hmost⟩
  refine ⟨?_, ?_, Stalled.map_iff.trans hstalls, fun word hs => ?_,
    fun hn => hmoves fun hs => hn (Stalled.map_iff.2 hs), ?_, ?_, ?_⟩
  · refine h.length_only_le (fun ho => ho.length_only) fun hlast => ?_
    rcases hlast.only_item with hnone | ⟨o, ho⟩
    · simp [hnone]
    · simp [ho]
  · exact h.pairwise_only (fun ho => ⟨_, ho.made⟩) fun hlast => hlast.only_item
  · exact h.of_last fun hlast => hlast.word (Stalled.map_iff.1 hs)
  · exact fun rest x hx => (hdone rest x hx).1
  · exact fun rest x hx => (hdone rest x hx).2.1
  · exact fun rest x hx => (hdone rest x hx).2.2

namespace Grammar
variable {g h : Grammar} {item other : String} {v : View}

theorem repeated_logs (hg : g.Returns defs v) (r : Repetition) (item : String) (n : Nat) :
    ((repeated r (g.untraced.trace item)).parse defs.untraced n v).Logs defs.untraced (RepeatedTally r item v) := by
  cases n with
  | zero => exact .exhausted
  | succ n =>
    have hchild : ∀ w, w.SuffixOf v → ((g.untraced.trace item).parse defs.untraced (n + 1) w).Logs defs.untraced
        fun calls r => ∃ o, r = .ok o ∧ Single item [] w calls o :=
      fun w hw => hg.logs (by simp) hw (n + 1)
    have hloop : ∀ {β : Type} (step : β → Value → Except Raised β) (start : β) (f : β → Value),
        (∀ xs acc, xs.foldlM step start = .ok acc → r.gather xs = .ok (f acc)) →
        (Outcome.map f <$> ((g.untraced.trace item).parse defs.untraced (n + 1)).fold
          ⟨r.word, v.start, r.least, r.most, step⟩ n 0 start v).Logs defs.untraced (RepeatedTally r item v) := by
      intro β step start f hgather
      have hstart : ([] : List Value).foldlM step start = .ok start := rfl
      have hfold := fold_logs (l := ⟨r.word, v.start, r.least, r.most, step⟩) hchild (fun ho => ho.suffix _ _ rfl) []
        n hstart (fun _ _ => Nat.zero_le _) (.refl v)
      exact .map (hfold.mono fun calls result h => .of_rounds hgather h)
    have hid : ∀ x : Run (Outcome Value), Outcome.map id <$> x = x := by
      intro x
      rw [show Outcome.map id = id from funext Outcome.map_id, id_map]
    rw [parse_repeated]
    cases r with
    | fold0 start step | fold1 start step =>
      refine .call (fun e _ => .of_raised) fun acc hacc => ?_
      have hfold := hloop step acc id fun xs y hy => by rw [Repetition.gather, hacc]; exact hy
      rw [hid] at hfold
      exact hfold
    | _ =>
      refine hloop Parser.collect [] Value.list fun xs acc h => ?_
      rw [Parser.foldlM_collect] at h
      cases h
      rfl

end Grammar

/-! ### Up to a terminator -/

/-- How often a repetition up to a terminator runs the item and the terminator, and how its result belongs with
that. -/
structure TillTally (item stop : String) (v : View) (calls : List Call) (result : Except Fault (Outcome Value)) :
    Prop where
  items : (only item calls).length ≤ v.length + 1
  stops : (only stop calls).length ≤ v.length + 1
  increasing : (only stop calls).Pairwise (·.offset < ·.offset)
  stalls : Stalled "many_till" result ↔ ∃ c ∈ only item calls, c.Stalls
  word : ∀ word, Stalled word result → word = "many_till"
  moves : ¬ Stalled "many_till" result → ∀ c ∈ only item calls, c.Moves
  gathers : ∀ rest x, result = .ok (.done rest x) → ∃ y, x = .tuple [.list (outputs (only item calls)), y]
  length_le : ∀ rest x, result = .ok (.done rest x) → (outputs (only item calls)).length ≤ v.length

section Till
variable {item stop : String} {origin : Position} {xs : List Value} {w u rest : View} {before after calls : List Call}
  {x : Value} {o o' : Outcome Value} {r : Except Fault (Outcome (List Value × Value))}

theorem only_item_append (hstop : Single stop [item] u before o) : only item (before ++ after) = only item after := by
  rw [only_append, hstop.silent item (by simp), List.nil_append]

theorem only_stop_append (hstop : Single stop [item] u before o) (hitem : Single item [stop] w after o') :
    only stop (before ++ after) = [⟨stop, u.offset, o⟩] := by
  rw [only_append, hstop.made, hitem.silent stop (by simp), List.append_nil]

theorem TillNext.only_stop (h : TillNext item stop w calls x rest) : ∃ o, only stop calls = [⟨stop, w.offset, o⟩] := by
  obtain ⟨before, after, c, rfl, hstop, hitem⟩ := h
  exact ⟨.failed c, only_stop_append hstop hitem⟩

theorem TillNext.shows (h : TillNext item stop w calls x rest) :
    ∃ after, only item calls = only item after ∧ Single item [stop] w after (.done rest x) := by
  obtain ⟨before, after, c, rfl, hstop, hitem⟩ := h
  exact ⟨after, only_item_append hstop, hitem⟩

namespace TillLast

theorem only_stop (h : TillLast item stop origin xs u calls r) : ∃ o, only stop calls = [⟨stop, u.offset, o⟩] := by
  cases h with
  | closed ho => exact ⟨_, ho.made⟩
  | undecided ho => exact ⟨_, ho.made⟩
  | failed ho ho' => exact ⟨_, only_stop_append ho ho'⟩
  | incomplete ho ho' => exact ⟨_, only_stop_append ho ho'⟩
  | stalled ho ho' => exact ⟨_, only_stop_append ho ho'⟩

theorem length_only_item (h : TillLast item stop origin xs u calls r) : (only item calls).length ≤ 1 := by
  cases h with
  | closed ho => simp [ho.silent item (by simp)]
  | undecided ho => simp [ho.silent item (by simp)]
  | failed ho ho' => simp [only_item_append ho, ho'.length_only]
  | incomplete ho ho' => simp [only_item_append ho, ho'.length_only]
  | stalled ho ho' => simp [only_item_append ho, ho'.length_only]

theorem word {word : String} (h : TillLast item stop origin xs u calls r) (hstalled : Stalled word r) :
    word = "many_till" := by
  obtain ⟨position, rfl⟩ := hstalled
  cases h with
  | stalled => rfl

theorem stalled_or_moves (h : TillLast item stop origin xs u calls r) :
    (Stalled "many_till" r ∧ ∃ c ∈ only item calls, c.Stalls) ∨
      ¬ Stalled "many_till" r ∧ ∀ c ∈ only item calls, c.Moves := by
  cases h with
  | closed ho => exact .inr ⟨fun ⟨_, h⟩ => (nomatch h), by simp [ho.silent item (by simp)]⟩
  | undecided ho => exact .inr ⟨fun ⟨_, h⟩ => (nomatch h), by simp [ho.silent item (by simp)]⟩
  | failed ho ho' =>
    rw [only_item_append ho]
    exact .inr ⟨fun ⟨_, h⟩ => (nomatch h), ho'.moves fun _ _ hdone => nomatch hdone⟩
  | incomplete ho ho' =>
    rw [only_item_append ho]
    exact .inr ⟨fun ⟨_, h⟩ => (nomatch h), ho'.moves fun _ _ hdone => nomatch hdone⟩
  | stalled ho ho' hstall =>
    rw [only_item_append ho]
    exact .inl ⟨⟨_, rfl⟩, ho'.stalls hstall⟩

end TillLast

theorem TillTally.of_rounds {v : View} (h : Rounds (TillNext item stop) (TillLast item stop origin) [] v calls r) :
    TillTally item stop v calls (r.map (Outcome.map fun p => .tuple [.list p.1, p.2])) := by
  obtain ⟨hstalls, hmoves⟩ : (Stalled "many_till" r ↔ ∃ c ∈ only item calls, c.Stalls) ∧
      (¬ Stalled "many_till" r → ∀ c ∈ only item calls, c.Moves) := by
    refine h.stalls_iff (fun hnext hlt => ?_) fun hlast => hlast.stalled_or_moves
    obtain ⟨after, honly, hshows⟩ := hnext.shows
    rw [honly]
    refine hshows.moves ?_
    rintro _ _ ⟨⟩
    exact Nat.ne_of_gt hlt
  have hdone : ∀ rest x, r.map (Outcome.map fun p => Value.tuple [.list p.1, p.2]) = .ok (.done rest x) →
      (∃ y, x = Value.tuple [.list (outputs (only item calls)), y]) ∧
        (outputs (only item calls)).length ≤ v.length := by
    intro rest x hx
    obtain ⟨ys, u, last, hlast, houtputs, hlength⟩ := Rounds.exists_last item h fun hnext => by
      obtain ⟨after, honly, hshows⟩ := hnext.shows
      rw [honly, hshows.outputs_only]
    cases hlast with
    | closed ho =>
      cases hx
      have heq : outputs (only item calls) = ys := by
        rw [houtputs, ho.silent item (by simp)]
        exact List.append_nil ys
      rw [heq]
      exact ⟨⟨_, rfl⟩, hlength⟩
    | _ => cases hx
  refine ⟨?_, ?_, ?_, Stalled.map_iff.trans hstalls, fun word hs => h.of_last fun hlast =>
    hlast.word (Stalled.map_iff.1 hs), fun hn => hmoves fun hs => hn (Stalled.map_iff.2 hs),
    fun rest x hx => (hdone rest x hx).1, fun rest x hx => (hdone rest x hx).2⟩
  · refine h.length_only_le (fun hnext => ?_) fun hlast => hlast.length_only_item
    obtain ⟨after, honly, hshows⟩ := hnext.shows
    rw [honly, hshows.length_only]
  · refine h.length_only_le (fun hnext => ?_) fun hlast => ?_
    · obtain ⟨o, ho⟩ := hnext.only_stop
      simp [ho]
    · obtain ⟨o, ho⟩ := hlast.only_stop
      simp [ho]
  · exact h.pairwise_only (fun hnext => hnext.only_stop) fun hlast => .inr hlast.only_stop

end Till

namespace Grammar
variable {g h : Grammar} {item stop : String} {v : View}

theorem manyTill_logs (hg : g.Returns defs v) (hh : h.Returns defs v) (hne : item ≠ stop) (n : Nat) :
    ((manyTill (g.untraced.trace item) (h.untraced.trace stop)).parse defs.untraced n v).Logs defs.untraced
      (TillTally item stop v) := by
  cases n with
  | zero => exact .exhausted
  | succ n =>
    rw [parse_manyTill]
    refine .map ((StreamGrammar.manyTill_logs (fun w hw => hg.logs ?_ hw (n + 1)) (fun w hw => hh.logs ?_ hw (n + 1))
      v.start n [] (.refl v)).mono fun calls r hr => .of_rounds hr)
    · simpa using hne.symm
    · simpa using hne

end Grammar

/-! ### With separators -/

/-- A separator and the item after it: where the first matches the second is run, and it decides. -/
inductive SeparatedRound (item separator : String) (w : View) : List Call → Outcome Value → Prop
  | alone {calls : List Call} {o o' : Outcome Value} : Single separator [item] w calls o' →
    (∀ rest x, o ≠ .done rest x) → SeparatedRound item separator w calls o
  | both {before after : List Call} {between : View} {y : Value} {o o' : Outcome Value} :
    Single separator [item] w before (.done between y) → Single item [separator] between after o' →
      (∀ rest x, o = .done rest x ↔ o' = .done rest x) → SeparatedRound item separator w (before ++ after) o

section Separated
variable {item separator : String} {w u rest : View} {calls : List Call} {x : Value} {o : Outcome Value}

/-- What the calls of a round that has matched are. -/
theorem SeparatedRound.cases_done (h : SeparatedRound item separator w calls (.done rest x)) :
    ∃ before after between y, calls = before ++ after ∧ Single separator [item] w before (.done between y) ∧
      Single item [separator] between after (.done rest x) := by
  cases h with
  | alone _ hnone => exact absurd rfl (hnone rest x)
  | both hseparator hitem hiff =>
    rw [(hiff rest x).1 rfl] at hitem
    exact ⟨_, _, _, _, rfl, hseparator, hitem⟩

theorem SeparatedRound.suffix (h : SeparatedRound item separator w calls (.done rest x)) : rest.SuffixOf w := by
  obtain ⟨before, after, between, y, -, hseparator, hitem⟩ := h.cases_done
  exact (hseparator.suffix _ _ rfl).trans (hitem.suffix _ _ rfl)

theorem preceded_logs {s p : Parser Value} {v : View}
    (hs : ∀ w, w.SuffixOf v → (s w).Logs defs fun calls r => ∃ o, r = .ok o ∧ Single separator [item] w calls o)
    (hp : ∀ w, w.SuffixOf v → (p w).Logs defs fun calls r => ∃ o, r = .ok o ∧ Single item [separator] w calls o)
    (hw : w.SuffixOf v) :
    (Parser.sequence Assembly.preceded.finish [s, p] w).Logs defs fun calls r =>
      ∃ o, r = .ok o ∧ SeparatedRound item separator w calls o := by
  rw [Parser.sequence_two (fun _ x => x) fun _ _ => rfl]
  refine .after (hs w hw) fun before o ho => ?_
  rcases o with ⟨between, y⟩ | c | k
  · refine .after (hp between (hw.trans (ho.suffix _ _ rfl))) fun after o' ho' => ?_
    rcases o' with ⟨rest, x⟩ | c | k
    · exact .pure ⟨_, rfl, by rw [List.append_nil]; exact .both ho ho' fun _ _ => Iff.rfl⟩
    · exact .pure ⟨_, rfl, by rw [List.append_nil]; exact .both ho ho' (by simp)⟩
    · exact .pure ⟨_, rfl, by rw [List.append_nil]; exact .both ho ho' (by simp)⟩
  · exact .pure ⟨_, rfl, by rw [List.append_nil]; exact .alone ho (by simp)⟩
  · exact .pure ⟨_, rfl, by rw [List.append_nil]; exact .alone ho (by simp)⟩

theorem SeparatedRound.only_separator (h : SeparatedRound item separator w calls o) :
    ∃ o', only separator calls = [⟨separator, w.offset, o'⟩] := by
  cases h with
  | alone hs => exact ⟨_, hs.made⟩
  | both hs hi => exact ⟨_, only_stop_append hs hi⟩

theorem SeparatedRound.length_only_item (h : SeparatedRound item separator w calls o) :
    (only item calls).length ≤ 1 := by
  cases h with
  | alone hs => simp [hs.silent item (by simp)]
  | both hs hi => simp [only_item_append hs, hi.length_only]

/-- A separator and the item after it that leave the input where it was. -/
def PairStalls (p : Call × Call) : Prop := ∃ rest x, p.2.outcome = .done rest x ∧ rest.offset = p.1.offset

/-- If the item is a match, it and the separator before it have moved the input forward. -/
def PairMoves (p : Call × Call) : Prop := ∀ rest x, p.2.outcome = .done rest x → p.1.offset < rest.offset

theorem PairMoves.not_stalls {p : Call × Call} (h : PairMoves p) : ¬ PairStalls p := by
  rintro ⟨rest, x, hdone, hstall⟩
  exact absurd hstall (Nat.ne_of_gt (h rest x hdone))

theorem SeparatedRound.pairs_move (h : SeparatedRound item separator w calls o)
    (ho : ∀ rest x, o = .done rest x → rest.offset ≠ w.offset) :
    ∀ p ∈ (only separator calls).zip (only item calls), PairMoves p := by
  cases h with
  | alone hs => simp [hs.silent item (by simp)]
  | both hs hi hiff =>
    rw [only_stop_append hs hi, only_item_append hs, hi.made]
    intro p hp
    rw [List.mem_singleton.1 hp]
    intro rest x hdone
    have hle := ((hs.suffix _ _ rfl).trans (hi.suffix rest x hdone)).offset_le
    exact Nat.lt_of_le_of_ne hle (ho rest x ((hiff rest x).2 hdone)).symm

theorem SeparatedRound.pairs_stall (h : SeparatedRound item separator w calls (.done rest x))
    (hstall : rest.offset = w.offset) : ∃ p ∈ (only separator calls).zip (only item calls), PairStalls p := by
  obtain ⟨before, after, between, y, rfl, hs, hi⟩ := h.cases_done
  rw [only_stop_append hs hi, only_item_append hs, hi.made]
  exact ⟨_, .head _, rest, x, rfl, hstall⟩

theorem SeparatedRound.length_eq (h : SeparatedRound item separator w calls (.done rest x)) :
    (only separator calls).length = 1 ∧ (only item calls).length = 1 := by
  obtain ⟨before, after, between, y, rfl, hs, hi⟩ := h.cases_done
  rw [only_stop_append hs hi, only_item_append hs, hi.made]
  exact ⟨rfl, rfl⟩

theorem SeparatedRound.outputs_item (h : SeparatedRound item separator w calls (.done rest x)) :
    outputs (only item calls) = [x] := by
  obtain ⟨before, after, between, y, rfl, hs, hi⟩ := h.cases_done
  rw [only_item_append hs, hi.outputs_only]

/-- Calls that have an item for each separator keep their pairs when more calls follow. -/
theorem zip_only_append {before after : List Call}
    (h : (only separator before).length = (only item before).length) :
    (only separator (before ++ after)).zip (only item (before ++ after)) =
      (only separator before).zip (only item before) ++ (only separator after).zip (only item after) := by
  rw [only_append, only_append, List.zip_append h]

theorem Trip.pairs_move {xs : List Value}
    (h : Trip (fun w calls x rest => SeparatedRound item separator w calls (.done rest x)) w calls xs u) :
    ∀ p ∈ (only separator calls).zip (only item calls), PairMoves p := by
  induction h with
  | nil u => simp
  | cons hround _ hlt _ ih =>
    have hmoves := hround.pairs_move (by rintro _ _ ⟨⟩; exact Nat.ne_of_gt hlt)
    rw [zip_only_append (hround.length_eq.1.trans hround.length_eq.2.symm)]
    intro p hp
    exact (List.mem_append.1 hp).elim (hmoves p) (ih p)

theorem SeparatedRound.outputs_none (h : SeparatedRound item separator w calls o) (ho : ∀ rest x, o ≠ .done rest x) :
    outputs (only item calls) = [] := by
  cases h with
  | alone hs =>
    rw [hs.silent item (by simp)]
    rfl
  | @both before after between y o o' hs hi hiff =>
    rw [only_item_append hs, hi.made]
    rcases o' with ⟨rest, x⟩ | c | k
    · exact absurd ((hiff rest x).2 rfl) (ho rest x)
    · rfl
    · rfl

section Last
variable {word : String} {origin : Position} {xs : List Value} {result : Except Fault (Outcome (List Value))}

theorem FoldLast.only_separator
    (h : FoldLast (SeparatedRound item separator) (Parser.listing word origin) [] xs u calls result) :
    only separator calls = [] ∨ ∃ o, only separator calls = [⟨separator, u.offset, o⟩] := by
  rcases h.full_or_run with ⟨rfl, -⟩ | ⟨o, ho, -⟩
  · exact .inl rfl
  · exact .inr ho.only_separator

theorem FoldLast.length_only_item
    (h : FoldLast (SeparatedRound item separator) (Parser.listing word origin) [] xs u calls result) :
    (only item calls).length ≤ 1 := by
  rcases h.full_or_run with ⟨rfl, -⟩ | ⟨o, ho, -⟩
  · exact Nat.zero_le 1
  · exact ho.length_only_item

theorem FoldLast.stalled_or_pairs_move
    (h : FoldLast (SeparatedRound item separator) (Parser.listing word origin) [] xs u calls result) :
    (Stalled word result ∧ ∃ p ∈ (only separator calls).zip (only item calls), PairStalls p) ∨
      ¬ Stalled word result ∧ ∀ p ∈ (only separator calls).zip (only item calls), PairMoves p := by
  rcases h.full_or_run with ⟨rfl, hstalled⟩ | ⟨o, ho, hstalled⟩
  · exact .inr ⟨hstalled, by simp⟩
  by_cases hstall : ∃ rest x, o = .done rest x ∧ rest.offset = u.offset
  · obtain ⟨rest, x, rfl, hoffset⟩ := hstall
    exact .inl ⟨hstalled.2 ⟨rest, x, rfl, hoffset⟩, ho.pairs_stall hoffset⟩
  · have hmoves := ho.pairs_move fun rest x hdone hoffset => hstall ⟨rest, x, hdone, hoffset⟩
    exact .inr ⟨fun h => hstall (hstalled.1 h), hmoves⟩

theorem Rounds.pairs_iff
    (h : Rounds (fun w calls x rest => SeparatedRound item separator w calls (.done rest x))
      (FoldLast (SeparatedRound item separator) (Parser.listing word origin) []) xs w calls result) :
    (Stalled word result ↔ ∃ p ∈ (only separator calls).zip (only item calls), PairStalls p) ∧
      (¬ Stalled word result → ∀ p ∈ (only separator calls).zip (only item calls), PairMoves p) := by
  obtain ⟨before, ys, u, last, rfl, htrip, hlast⟩ := h
  have hlength := (htrip.length_only fun ho => ho.length_eq.1).trans (htrip.length_only fun ho => ho.length_eq.2).symm
  rw [zip_only_append hlength]
  exact stalls_append (fun hmoves => hmoves.not_stalls) htrip.pairs_move hlast.stalled_or_pairs_move

end Last

/-- How often a list with separators runs the item and the separator, and how its result belongs with that. The
first call of the item has no separator before it. -/
structure SeparatedTally (nonempty : Bool) (item separator : String) (v : View) (calls : List Call)
    (result : Except Fault (Outcome Value)) : Prop where
  items : (only item calls).length ≤ v.length + 2
  increasing : (only separator calls).Pairwise (·.offset < ·.offset)
  stalls : Stalled (separatedWord nonempty) result ↔
    ∃ p ∈ (only separator calls).zip (only item calls).tail, PairStalls p
  word : ∀ word, Stalled word result → word = separatedWord nonempty
  moves : ¬ Stalled (separatedWord nonempty) result →
    ∀ p ∈ (only separator calls).zip (only item calls).tail, PairMoves p
  gathers : ∀ rest x, result = .ok (.done rest x) → x = .list (outputs (only item calls))
  length_le : ∀ rest x, result = .ok (.done rest x) → (outputs (only item calls)).length ≤ v.length + 1

/-- A list that ends with its first item. -/
theorem SeparatedTally.of_first {nonempty : Bool} {v : View} {result : Except Fault (Outcome Value)}
    (hfirst : Single item [separator] v calls o) (ho : ∀ rest x, o ≠ .done rest x)
    (hstalled : ∀ word, ¬ Stalled word result) (hdone : ∀ rest x, result = .ok (.done rest x) → x = .list []) :
    SeparatedTally nonempty item separator v calls result := by
  have hseparator := hfirst.silent separator (by simp)
  have houtputs : outputs (only item calls) = [] := by
    rw [hfirst.made]
    rcases o with ⟨rest, x⟩ | c | k
    · exact absurd rfl (ho rest x)
    · rfl
    · rfl
  refine ⟨?_, ?_, ?_, fun word hs => absurd hs (hstalled word), fun _ => ?_, fun rest x hx => ?_, fun rest x hx => ?_⟩
  · simp [hfirst.length_only]
  · simp [hseparator]
  · simp [hseparator, hstalled]
  · simp [hseparator]
  · rw [houtputs, hdone rest x hx]
  · simp [houtputs]

theorem SeparatedTally.of_rounds {nonempty : Bool} {v : View} {first : List Call} {origin : Position}
    {result : Except Fault (Outcome (List Value))} (hfirst : Single item [separator] v first (.done rest x))
    (h : Rounds (fun w calls x rest => SeparatedRound item separator w calls (.done rest x))
      (FoldLast (SeparatedRound item separator) (Parser.listing (separatedWord nonempty) origin) []) [x] rest calls
        result) :
    SeparatedTally nonempty item separator v (first ++ calls) (result.map (Outcome.map Value.list)) := by
  have hle := (hfirst.suffix rest x rfl).length_le
  have hitem : only item (first ++ calls) = ⟨item, v.offset, .done rest x⟩ :: only item calls := by
    rw [only_append, hfirst.made, List.singleton_append]
  have hseparator : only separator (first ++ calls) = only separator calls := only_item_append hfirst
  have hdone : ∀ rest' y, result.map (Outcome.map Value.list) = .ok (.done rest' y) →
      y = .list (x :: outputs (only item calls)) ∧ (outputs (only item calls)).length ≤ rest.length := by
    intro rest' y hy
    rcases result with fault | ⟨rest'', acc⟩ | c | k <;> cases hy
    obtain ⟨hacc, hlength, -⟩ := h.done_of_fold (fun ho => ho.outputs_item) fun ho => ho.outputs_none (by simp)
    rw [Parser.foldlM_collect] at hacc
    cases hacc
    exact ⟨rfl, hlength⟩
  obtain ⟨hstalls, hmoves⟩ := h.pairs_iff
  refine ⟨?_, ?_, ?_, fun word hs => h.of_last fun hlast => hlast.word (Stalled.map_iff.1 hs), fun hn => ?_,
    fun rest' y hy => ?_, fun rest' y hy => ?_⟩
  · have hlength := h.length_only_le (fun ho => ho.length_eq.2) fun hlast => hlast.length_only_item
    rw [hitem, List.length_cons]
    omega
  · rw [hseparator]
    exact h.pairwise_only (fun ho => ho.only_separator) fun hlast => hlast.only_separator
  · rw [hseparator, hitem, List.tail_cons]
    exact Stalled.map_iff.trans hstalls
  · rw [hseparator, hitem, List.tail_cons]
    exact hmoves fun hs => hn (Stalled.map_iff.2 hs)
  · rw [hitem]
    exact (hdone rest' y hy).1
  · have hlength := (hdone rest' y hy).2
    rw [hitem]
    show (x :: outputs (only item calls)).length ≤ v.length + 1
    rw [List.length_cons]
    omega

end Separated

namespace Grammar
variable {g h : Grammar} {item separator : String} {v : View}

theorem separated_logs (hg : g.Returns defs v) (hh : h.Returns defs v) (hne : item ≠ separator) (nonempty : Bool)
    (n : Nat) :
    ((separated nonempty (h.untraced.trace separator) (g.untraced.trace item)).parse defs.untraced n v).Logs
      defs.untraced (SeparatedTally nonempty item separator v) := by
  cases n with
  | zero => exact .exhausted
  | succ n =>
    have hitem : ∀ w, w.SuffixOf v → ((g.untraced.trace item).parse defs.untraced (n + 1) w).Logs defs.untraced
        fun calls r => ∃ o, r = .ok o ∧ Single item [separator] w calls o :=
      fun w hw => hg.logs (by simpa using hne.symm) hw (n + 1)
    have hseparator : ∀ w, w.SuffixOf v → ((h.untraced.trace separator).parse defs.untraced (n + 1) w).Logs
        defs.untraced fun calls r => ∃ o, r = .ok o ∧ Single separator [item] w calls o :=
      fun w hw => hh.logs (by simpa using hne) hw (n + 1)
    rw [parse_separated]
    refine .map (.after (hitem v (.refl v)) fun first o ho => ?_)
    rcases o with ⟨rest, x⟩ | c | k
    · have hrest := ho.suffix rest x rfl
      have hstart : [x].foldlM (Parser.listing (separatedWord nonempty) rest.start).step [] = .ok [x] := rfl
      have hmost : ∀ most, (Parser.listing (α := Value) (separatedWord nonempty) rest.start).most = some most →
          [x].length ≤ most := fun _ h => by cases h
      -- the first item is in the list already when the loop over separators and items begins
      have htail := fold_logs (fun w hw => preceded_logs hseparator hitem hw) (fun ho => ho.suffix) [x] n hstart hmost
        hrest
      rw [List.length_singleton, ← Parser.separatedTail_eq_fold] at htail
      exact htail.mono fun calls r hr => .of_rounds ho hr
    · dsimp only
      cases nonempty with
      | true =>
        refine .pure ?_
        rw [List.append_nil]
        exact .of_first ho (by simp) (fun _ ⟨_, hs⟩ => nomatch hs) fun _ _ hx => nomatch hx
      | false =>
        refine .pure ?_
        rw [List.append_nil]
        refine .of_first ho (by simp) (fun _ ⟨_, hs⟩ => nomatch hs) ?_
        rintro _ _ ⟨⟩
        rfl
    · refine .pure ?_
      rw [List.append_nil]
      exact .of_first ho (by simp) (fun _ ⟨_, hs⟩ => nomatch hs) fun _ _ hx => nomatch hx

/-! ### All loops -/

/-- The grammar comes to a result, and so does the observed one, which logs calls that belong with the result. -/
def Tallied (defs : Definitions) (g observed : Grammar) (v : View)
    (Q : List Call → Except Fault (Outcome Value) → Prop) : Prop :=
  ∃ result, g.Yields defs v result ∧ observed.Yields defs.untraced v result ∧
    ∀ n cache e, Cache.Sound defs.untraced cache → observed.parse defs.untraced n v .visit cache = some e →
      Q (traced e.records) result

theorem Tallied.of_logs {observed : Grammar} {Q : List Call → Except Fault (Outcome Value) → Prop}
    (hg : ∃ result, g.Yields defs v result) (hsimilar : (Similarity.identity False False).Grammars g observed)
    (hlogs : ∀ n, (observed.parse defs.untraced n v).Logs defs.untraced Q) : Tallied defs g observed v Q := by
  obtain ⟨result, hresult⟩ := hg
  have hobserved := hresult.untraced hsimilar
  refine ⟨result, hresult, hobserved, fun n cache e hcache he => ?_⟩
  rw [hobserved.unique (.of_quiet rfl hcache he)]
  exact (hlogs n cache e hcache he).2

/-- Loops over grammars that come to outcomes and leave suffixes come to results. Each round moves the input
forward, so there are at most as many of them as there are symbols, and one more that ends the loop. The matches
are the elements of the output, within the bounds of the loop. A loop stalls if and only if the grammar in it
matches at a place without moving the input, and then with its own word. -/
theorem loops_end_and_count {item other : String} (hg : g.Returns defs v) (hh : h.Returns defs v) (hne : item ≠ other) :
    (∀ r, Tallied defs (repeated r g) (repeated r (g.untraced.trace item)) v (RepeatedTally r item v)) ∧
    Tallied defs (manyTill g h) (manyTill (g.untraced.trace item) (h.untraced.trace other)) v
      (TillTally item other v) ∧
    ∀ nonempty, Tallied defs (separated nonempty h g)
      (separated nonempty (h.untraced.trace other) (g.untraced.trace item)) v
        (SeparatedTally nonempty item other v) := by
  have hitem : (Similarity.identity False False).Grammars g (g.untraced.trace item) :=
    .observedRight not_false (untraced_similar g)
  have hother : (Similarity.identity False False).Grammars h (h.untraced.trace other) :=
    .observedRight not_false (untraced_similar h)
  refine ⟨fun r => ?_, ?_, fun nonempty => ?_⟩
  · have hr := Similarity.repetitions_of_uniform (S := Similarity.identity False False)
      (Similarity.uniform_eq (repeated r g))
    exact .of_logs (hg.repeated_yields r) (.repeated hr hitem) (repeated_logs hg r item)
  · exact .of_logs (hg.manyTill_yields hh) (.manyTill hitem hother) (manyTill_logs hg hh hne)
  · exact .of_logs (hg.separated_yields hh nonempty) (.separated hother hitem) (separated_logs hg hh hne nonempty)

/-- The comma before the last field is called, and so is a digit behind it, but neither is in the list. -/
theorem loops_end_and_count_numberLine :
    (digit .complete).Returns noDefinitions numberLine ∧ fieldComma.Returns noDefinitions numberLine ∧
    Tallied noDefinitions (separatedList1 fieldComma (digit .complete))
      (separatedList1 (fieldComma.untraced.trace "comma") ((digit .complete).untraced.trace "digit")) numberLine
        (SeparatedTally true "digit" "comma" numberLine) ∧
    ((separatedList1 (fieldComma.untraced.trace "comma") ((digit .complete).untraced.trace "digit")).parse
      noDefinitions.untraced 4 numberLine .visit []).map
        (fun e => ((only "digit" (traced e.records)).map Call.offset,
          (only "comma" (traced e.records)).map Call.offset)) =
      some ([0, 2, 4], [1, 3]) := by
  have hdigit : (digit .complete).Returns noDefinitions numberLine := .primitive rfl (by rintro e ⟨s, hs⟩; cases hs)
  have hcomma : fieldComma.Returns noDefinitions numberLine := .primitive rfl fun e he => he
  exact ⟨hdigit, hcomma, (loops_end_and_count hdigit hcomma (by decide)).2.2 true, by decide +kernel⟩

end Grammar
end StreamGrammar
