import StreamGrammar.Proofs.Settled

/-! # Laws of loops

The loops for lists with separators and for repetitions up to a terminator are written on their own, but they
make no decision that a plain repetition would not make. After its first item, a list with separators is the
repetition of a separator and an item (`Parser.separatedTail_eq_fold`, an equation between runs), and a
repetition up to a terminator is the repetition of an item that is looked for only where the terminator fails,
with the terminator behind it (`Grammar.manyTill_related`). In the second law the terminator is run once more at
the end, and steadiness says that it comes to the same there. The word of a loop enters into its own fault
only (`Parser.fold_listing_renamed`). -/

namespace StreamGrammar

variable {defs : Definitions}

/-! ### Faults of two loops -/

/-- The fault of a child, or that of the loop itself, which has the word of the loop in it. -/
inductive Fault.Renamed (child : Fault → Prop) (stalls : View → Prop) (word word' : String) :
    Fault → Fault → Prop
  | child {f : Fault} : child f → Renamed child stalls word word' f f
  | own {u : View} : stalls u → Renamed child stalls word word' (.stalled word u.start) (.stalled word' u.start)

namespace Parser
variable {α γ : Type} {p : Parser α} {child : Fault → Prop} {stalls : View → Prop} {word word' : String}
  {origin origin' : Position}

/-- What the loop raises is raised by the child, or the child has matched without consuming anything. -/
structure Causes (p : Parser α) (child : Fault → Prop) (stalls : View → Prop) : Prop where
  fault : ∀ {u f}, (p u).settled = some (.error f) → child f
  stall : ∀ {u rest x}, (p u).settled = some (.ok (.done rest x)) → rest.offset = u.offset → stalls u

/-- The word of a listing loop enters only into its own fault, and what it has listed before stays in front. -/
theorem fold_listing_renamed (hp : p.Steady defs) (hcauses : p.Causes child stalls) (n matched matched' : Nat)
    (xs ys : List α) (v : View) :
    Option.Rel (Correspond (Fault.Renamed child stalls word word') fun o o' => o' = o.map (xs ++ ·))
      (p.fold (listing word origin) n matched ys v).settled
      (p.fold (listing word' origin') n matched' (xs ++ ys) v).settled := by
  induction n generalizing matched matched' ys v with
  | zero => exact .none
  | succ n ih =>
    rw [settled_fold_listing hp, settled_fold_listing hp]
    rcases hpv : (p v).settled with _ | f | ⟨rest, x⟩ | c | k
    · exact .none
    · exact .some (.error (.child (hcauses.fault hpv)))
    · simp only [Settled.andThen_ok]
      split
      · next hstall => exact .some (.error (.own (hcauses.stall hpv hstall)))
      · rw [List.append_assoc]
        exact ih _ _ _ rest
    · exact .some (.ok rfl)
    · exact .some (.ok rfl)

/-! ### Lists with separators -/

variable {s p : Parser Value}

/-- After the first item a list with separators is a plain repetition. -/
theorem separatedTail_eq_fold (n matched : Nat) (xs : List Value) (v : View) :
    separatedTail word s p n xs v =
      (sequence Assembly.preceded.finish [s, p]).fold (listing word origin) n matched xs v := by
  induction n generalizing matched xs v with
  | zero => rfl
  | succ n ih =>
    rw [fold_listing_succ, separatedTail, sequence_two (fun _ x => x) fun _ _ => rfl]
    simp only [bind_assoc]
    congr 1
    funext o
    rcases o with ⟨between, y⟩ | c | k
    · simp only [bind_assoc]
      congr 1
      funext o'
      rcases o' with ⟨rest, x⟩ | c | k
      · simp only [pure_bind, ih (matched + 1)]
      · rfl
      · rfl
    · rfl
    · rfl

/-- A listing loop that is done has stopped where its child fails. -/
theorem fails_of_fold_listing {p : Parser α} (hp : p.Steady defs) {n matched : Nat} {xs ys : List α} {v rest : View}
    (h : (p.fold (listing word origin) n matched xs v).settled = some (.ok (.done rest ys))) :
    ∃ c, (p rest).settled = some (.ok (.failed c)) := by
  induction n generalizing matched xs v with
  | zero => cases h
  | succ n ih =>
    rw [settled_fold_listing hp] at h
    rcases hpv : (p v).settled with _ | f | ⟨rest', x⟩ | c | k <;> rw [hpv] at h
    · cases h
    · cases h
    · simp only [Settled.andThen_ok] at h
      split at h
      · cases h
      · exact ih h
    · cases h
      exact ⟨c, hpv⟩
    · cases h

theorem settled_separated (hs : s.Steady defs) (hp : p.Steady defs) (nonempty : Bool) (n : Nat) (v : View) :
    (separated word nonempty s p n v).settled = (p v).settled.andThen fun
      | .done rest x => (separatedTail word s p n [x] rest).settled
      | .failed c => some (.ok (if nonempty then .failed (c.within .repetition v.start) else .done v []))
      | .incomplete k => some (.ok (.incomplete k)) := by
  refine Run.Settles.eq (.bind (hp v) fun o => ?_)
  rcases o with ⟨rest, x⟩ | c | k
  · exact ⟨Conduct.separatedTail hs hp n [x] rest, rfl⟩
  · cases nonempty <;> exact .pure _
  · exact .pure _

end Parser

namespace Grammar

/-- One of the grammars ends in this fault somewhere. -/
def Faults (defs : Definitions) (gs : List Grammar) (f : Fault) : Prop := ∃ g ∈ gs, ∃ u, g.Yields defs u (.error f)

/-- The grammar matches nothing at `u`. -/
def Stalls (defs : Definitions) (g : Grammar) (u : View) : Prop :=
  ∃ rest x, g.Yields defs u (.ok (.done rest x)) ∧ rest.offset = u.offset

variable {s p t : Grammar} {v : View} {n : Nat}

theorem causes_preceded (s p : Grammar) (n : Nat) :
    ((preceded s p).parse defs (n + 1)).Causes (Faults defs [s, p]) (Stalls defs (preceded s p)) := by
  refine ⟨fun {u f} hf => ?_, fun {u rest x} hdone hstall => ⟨rest, x, .of_settled hdone, hstall⟩⟩
  rw [preceded, parse_sequence_two, (Parser.settles_sequence_two (fun _ x => x) (fun _ _ => rfl)
    (s.parse_steady defs (n + 1)) (p.parse_steady defs (n + 1)) u).eq] at hf
  rcases hs : (s.parse defs (n + 1) u).settled with _ | f' | ⟨between, y⟩ | c | k <;> rw [hs] at hf
  · cases hf
  · cases hf
    exact ⟨s, by simp, u, .of_settled hs⟩
  · simp only [Settled.andThen_ok, Parser.followed] at hf
    rcases hp : (p.parse defs (n + 1) between).settled with _ | f' | ⟨rest, x⟩ | c | k <;> rw [hp] at hf <;> cases hf
    exact ⟨p, by simp, between, .of_settled hp⟩
  · cases hf
  · cases hf

end Grammar

/-- The outcome of a list with `x` in front of its items. -/
def Outcome.cons (x : Value) : Outcome Value → Outcome Value
  | .done rest (.list xs) => .done rest (.list (x :: xs))
  | o => o

namespace Grammar
variable {s p t : Grammar} {v : View} {n : Nat}

/-- The same outcome, or the same fault up to the word of the loop. -/
abbrev SameList (defs : Definitions) (s p : Grammar) (word word' : String) :
    Except Fault (Outcome Value) → Except Fault (Outcome Value) → Prop :=
  Correspond (Fault.Renamed (Faults defs [s, p]) (Stalls defs (preceded s p)) word word') (· = ·)

/-- What comes of an item and then, after a match, of as many separators and items as there are. -/
inductive ItemThenMany (defs : Definitions) (s p : Grammar) (v : View) : Except Fault (Outcome Value) → Prop
  | fault {f : Fault} : p.Yields defs v (.error f) → ItemThenMany defs s p v (.error f)
  | failed {c : Chain} : p.Yields defs v (.ok (.failed c)) →
    ItemThenMany defs s p v (.ok (.failed (c.within .repetition v.start)))
  | incomplete {k : Needed} : p.Yields defs v (.ok (.incomplete k)) → ItemThenMany defs s p v (.ok (.incomplete k))
  | items {rest : View} {x : Value} {r : Except Fault (Outcome Value)} : p.Yields defs v (.ok (.done rest x)) →
    (many0 (preceded s p)).Yields defs rest r → ItemThenMany defs s p v (r.map (Outcome.cons x))

theorem separatedTail_eq_fold (word : String) (origin : Position) (n : Nat) (xs : List Value) (u : View) :
    Parser.separatedTail word (s.parse defs (n + 1)) (p.parse defs (n + 1)) n xs u =
      ((preceded s p).parse defs (n + 1)).fold (Parser.listing word origin) n 0 xs u := by
  rw [preceded, parse_sequence_two]
  exact Parser.separatedTail_eq_fold n 0 xs u

theorem settled_separated (defs : Definitions) (s p : Grammar) (nonempty : Bool) (n : Nat) (v : View) :
    ((separated nonempty s p).parse defs (n + 1) v).settled = (p.parse defs (n + 1) v).settled.andThen fun
      | .done rest x => (((preceded s p).parse defs (n + 1)).fold (Parser.listing (separatedWord nonempty) rest.start)
          n 0 [x] rest).settled.map (Except.map (Outcome.map Value.list))
      | .failed c => some (.ok (if nonempty then .failed (c.within .repetition v.start) else .done v (.list [])))
      | .incomplete k => some (.ok (.incomplete k)) := by
  have hs := s.parse_steady defs (n + 1)
  have hp := p.parse_steady defs (n + 1)
  rw [parse_separated, Run.settled_map, Parser.settled_separated hs hp]
  rcases (p.parse defs (n + 1) v).settled with _ | f | ⟨rest, x⟩ | c | k
  · rfl
  · rfl
  · simp only [Settled.andThen_ok, separatedTail_eq_fold _ rest.start]
  · cases nonempty <;> rfl
  · rfl

/-- After an item, a list with separators and the repetition go on alike. -/
theorem separated_after_item (nonempty : Bool) {rest : View} {x : Value}
    (hx : (p.parse defs (n + 1) v).settled = some (.ok (.done rest x))) :
    Option.Rel (Correspond (Fault.Renamed (Faults defs [s, p]) (Stalls defs (preceded s p)) "many0"
        (separatedWord nonempty)) fun o o' => o' = o.cons x)
      ((many0 (preceded s p)).parse defs (n + 1) rest).settled
      ((separated nonempty s p).parse defs (n + 1) v).settled := by
  rw [parse_many0, settled_separated, hx, Run.settled_map]
  refine Settled.rel_map ?_ (Parser.fold_listing_renamed ((preceded s p).parse_steady defs (n + 1))
    (causes_preceded s p n) n 0 0 [x] [] rest)
  rintro (⟨rest', xs⟩ | c | k) _ rfl <;> rfl

/-- Whether an empty list will do matters only where the first item fails. -/
theorem separated_renamed (nonempty nonempty' : Bool) (n : Nat)
    (hfailed : ∀ c, (p.parse defs (n + 1) v).settled ≠ some (.ok (.failed c))) :
    Option.Rel (SameList defs s p (separatedWord nonempty) (separatedWord nonempty'))
      ((separated nonempty s p).parse defs (n + 1) v).settled
      ((separated nonempty' s p).parse defs (n + 1) v).settled := by
  rw [settled_separated, settled_separated]
  rcases hp : (p.parse defs (n + 1) v).settled with _ | f | ⟨rest, x⟩ | c | k
  · exact .none
  · exact .some (.error (.child ⟨p, by simp, v, .of_settled hp⟩))
  · refine Settled.rel_map ?_ (Parser.fold_listing_renamed ((preceded s p).parse_steady defs (n + 1))
      (causes_preceded s p n) n 0 0 [] [x] rest)
    rintro (⟨rest', xs⟩ | c | k) _ rfl <;> rfl
  · exact absurd hp (hfailed c)
  · exact .some (.ok rfl)

/-- Where the first item fails, a list that needs one fails with its chain, and the other list is empty. -/
theorem yields_separated_of_failed (nonempty : Bool) {c : Chain} (hc : p.Yields defs v (.ok (.failed c))) :
    (separated nonempty s p).Yields defs v
      (.ok (if nonempty then .failed (c.within .repetition v.start) else .done v (.list []))) := by
  obtain ⟨n, hn⟩ := hc.settled
  refine .of_settled (n := n + 1) ?_
  rw [settled_separated, hn n (Nat.le_refl n)]
  rfl

/-- What an item and then many items come to, the list does. -/
theorem ItemThenMany.separated {r : Except Fault (Outcome Value)} (h : ItemThenMany defs s p v r) :
    ∃ r', (separatedList1 s p).Yields defs v r' ∧ SameList defs s p "many0" "separated_list1" r r' := by
  cases h with
  | @fault f hp =>
    obtain ⟨n, hn⟩ := hp.settled
    refine ⟨.error f, .of_settled (n := n + 1) ?_, .error (.child ⟨p, by simp, v, hp⟩)⟩
    rw [separatedList1, settled_separated, hn n (Nat.le_refl n)]
    rfl
  | failed hp => exact ⟨_, yields_separated_of_failed true hp, .ok rfl⟩
  | incomplete hp =>
    obtain ⟨n, hn⟩ := hp.settled
    refine ⟨_, .of_settled (n := n + 1) ?_, .ok rfl⟩
    rw [separatedList1, settled_separated, hn n (Nat.le_refl n)]
    rfl
  | @items rest x r hp hmany =>
    obtain ⟨n, hn⟩ := hp.settled
    obtain ⟨m, hm⟩ := hmany.settled
    have hrel := separated_after_item (s := s) true (hn (max n m) (Nat.le_max_left n m))
    obtain ⟨r', hr', hcorr⟩ := Settled.exists_right hrel (hm (max n m) (Nat.le_max_right n m))
    refine ⟨r', .of_settled hr', ?_⟩
    rcases hcorr with hf | rfl
    · exact .error hf
    · exact .ok rfl

theorem ItemThenMany.of_separated {r' : Except Fault (Outcome Value)} (h : (separatedList1 s p).Yields defs v r') :
    ∃ r, ItemThenMany defs s p v r ∧ SameList defs s p "many0" "separated_list1" r r' := by
  obtain ⟨n, hn⟩ := h.settled
  have hsettled := hn n (Nat.le_refl n)
  rcases hp : (p.parse defs (n + 1) v).settled with _ | f | ⟨rest, x⟩ | c | k
  · rw [separatedList1, settled_separated, hp] at hsettled
    cases hsettled
  · rw [separatedList1, settled_separated, hp] at hsettled
    cases hsettled
    exact ⟨_, .fault (.of_settled hp), .error (.child ⟨p, by simp, v, .of_settled hp⟩)⟩
  · obtain ⟨r, hr, hcorr⟩ := Settled.exists_left (separated_after_item true hp) hsettled
    refine ⟨_, .items (.of_settled hp) (.of_settled hr), ?_⟩
    rcases hcorr with hf | rfl
    · exact .error hf
    · exact .ok rfl
  · rw [separatedList1, settled_separated, hp] at hsettled
    cases hsettled
    exact ⟨_, .failed (.of_settled hp), .ok rfl⟩
  · rw [separatedList1, settled_separated, hp] at hsettled
    cases hsettled
    exact ⟨_, .incomplete (.of_settled hp), .ok rfl⟩

/-- Where the first item does not fail, a list that may be empty and one that may not come to the same. -/
theorem yields_separated_renamed (nonempty nonempty' : Bool) (hfailed : ¬ ∃ c, p.Yields defs v (.ok (.failed c)))
    {r : Except Fault (Outcome Value)} (hr : (separated nonempty s p).Yields defs v r) :
    ∃ r', (separated nonempty' s p).Yields defs v r' ∧
      SameList defs s p (separatedWord nonempty) (separatedWord nonempty') r r' := by
  obtain ⟨n, hn⟩ := hr.settled
  have hrel := separated_renamed (s := s) (p := p) nonempty nonempty' n
    fun c hc => hfailed ⟨c, .of_settled hc⟩
  obtain ⟨r', hr', hcorr⟩ := Settled.exists_right hrel (hn n (Nat.le_refl n))
  exact ⟨r', .of_settled hr', hcorr⟩

/-- A list stops where a separator with an item behind it fails. -/
theorem preceded_fails_behind {rest : View} {x : Value}
    (h : (separatedList1 s p).Yields defs v (.ok (.done rest x))) :
    ∃ c, (preceded s p).Yields defs rest (.ok (.failed c)) := by
  obtain ⟨n, hn⟩ := h.settled
  have hsettled := hn n (Nat.le_refl n)
  rw [separatedList1, settled_separated] at hsettled
  rcases hp : (p.parse defs (n + 1) v).settled with _ | f | ⟨rest', x'⟩ | c | k <;> rw [hp] at hsettled
  · cases hsettled
  · cases hsettled
  · obtain ⟨r, hfold, hr⟩ := Option.map_eq_some_iff.1 hsettled
    rcases r with f | ⟨rest'', xs⟩ | c | k <;> cases hr
    obtain ⟨c, hc⟩ := Parser.fails_of_fold_listing ((preceded s p).parse_steady defs (n + 1)) hfold
    exact ⟨c, .of_settled hc⟩
  · cases hsettled
  · cases hsettled

/-- A list with separators is an item and then as many separators with items as there are: the same remainder
and the same items, the same request, the same fault of the item or the separator, and a stall at the same
position. What is left behind begins with no separator that an item follows. Where the first item fails, its
chain goes into that of the list that needs one, and the other list is empty; everywhere else the two lists
come to the same. -/
theorem separated_item_then_many (defs : Definitions) (s p : Grammar) (v : View) :
    (∀ r, ItemThenMany defs s p v r → ∃ r', (separatedList1 s p).Yields defs v r' ∧
      SameList defs s p "many0" "separated_list1" r r') ∧
    (∀ r', (separatedList1 s p).Yields defs v r' → ∃ r, ItemThenMany defs s p v r ∧
      SameList defs s p "many0" "separated_list1" r r') ∧
    (∀ rest x, (separatedList1 s p).Yields defs v (.ok (.done rest x)) →
      ∃ c, (preceded s p).Yields defs rest (.ok (.failed c))) ∧
    (∀ c, p.Yields defs v (.ok (.failed c)) →
      (separatedList1 s p).Yields defs v (.ok (.failed (c.within .repetition v.start))) ∧
        (separatedList0 s p).Yields defs v (.ok (.done v (.list [])))) ∧
    ((¬ ∃ c, p.Yields defs v (.ok (.failed c))) →
      (∀ r, (separatedList0 s p).Yields defs v r → ∃ r', (separatedList1 s p).Yields defs v r' ∧
        SameList defs s p "separated_list0" "separated_list1" r r') ∧
      ∀ r, (separatedList1 s p).Yields defs v r → ∃ r', (separatedList0 s p).Yields defs v r' ∧
        SameList defs s p "separated_list1" "separated_list0" r r') := by
  refine ⟨fun r hr => hr.separated, fun r' => ItemThenMany.of_separated, fun rest x => preceded_fails_behind,
    fun c hc => ⟨yields_separated_of_failed true hc, yields_separated_of_failed false hc⟩, fun hfailed => ⟨?_, ?_⟩⟩
  · exact fun r => yields_separated_renamed false true hfailed
  · exact fun r => yields_separated_renamed true false hfailed

def fieldComma : Grammar := primitive (.tag (.text [',']))

/-- Two numbers, and a comma that no number follows. -/
def numberLine : View := .whole ⟨0, .text ['1', ',', '2', ',', 'x']⟩

theorem separated_item_then_many_numberLine :
    ItemThenMany noDefinitions fieldComma (digit .complete) numberLine (.ok (.done (numberLine.drop 3)
      (.list [.view (numberLine.take 1), .view ((numberLine.drop 2).take 1)]))) ∧
    (∃ r', (separatedList1 fieldComma (digit .complete)).Yields noDefinitions numberLine r' ∧
      SameList noDefinitions fieldComma (digit .complete) "many0" "separated_list1" (.ok (.done (numberLine.drop 3)
        (.list [.view (numberLine.take 1), .view ((numberLine.drop 2).take 1)]))) r') ∧
    (digit .complete).Yields noDefinitions (numberLine.drop 4) (.ok (.failAt .predicateFailed (numberLine.drop 4))) ∧
    (separatedList0 fieldComma (digit .complete)).Yields noDefinitions (numberLine.drop 4)
      (.ok (.done (numberLine.drop 4) (.list []))) := by
  have hitem : (digit .complete).Yields noDefinitions numberLine
      (.ok (.done (numberLine.drop 1) (.view (numberLine.take 1)))) := .of_result (n := 1) (by decide +kernel)
  have hmany : (many0 (preceded fieldComma (digit .complete))).Yields noDefinitions (numberLine.drop 1)
      (.ok (.done (numberLine.drop 3) (.list [.view ((numberLine.drop 2).take 1)]))) :=
    .of_result (n := 4) (by decide +kernel)
  have hfailed : (digit .complete).Yields noDefinitions (numberLine.drop 4)
      (.ok (.failAt .predicateFailed (numberLine.drop 4))) := .of_result (n := 1) (by decide +kernel)
  have hline := ItemThenMany.items hitem hmany
  have hlaw := separated_item_then_many noDefinitions fieldComma (digit .complete)
  exact ⟨hline, (hlaw numberLine).1 _ hline, hfailed, ((hlaw (numberLine.drop 4)).2.2.2.1 _ hfailed).2⟩

end Grammar

/-! ### Up to a terminator -/

/-- The same outcome, but for the chain of a failure. -/
inductive Outcome.UpToChain {α : Type} : Outcome α → Outcome α → Prop
  | done (rest : View) (x : α) : UpToChain (.done rest x) (.done rest x)
  | failed (c d : Chain) : UpToChain (.failed c) (.failed d)
  | incomplete (needed : Needed) : UpToChain (.incomplete needed) (.incomplete needed)

namespace Parser
variable {p t : Parser Value} {child : Fault → Prop} {stalls : View → Prop} {word : String}
  {origin origin' start : Position}

theorem settled_negate (ht : t.Steady defs) (v : View) :
    (Adapter.negate.parse t v).settled = (t v).settled.andThen fun
      | .done _ _ => some (.ok (.failAt .notExpected v))
      | .failed _ => some (.ok (.done v .null))
      | .incomplete k => some (.ok (.incomplete k)) := by
  refine Run.Settles.eq (.bind (ht v) fun o => ?_)
  rcases o with ⟨rest, x⟩ | c | k <;> exact .pure _

theorem settled_manyTill (hp : p.Steady defs) (ht : t.Steady defs) (n : Nat) (xs : List Value) (v : View) :
    (manyTill origin p t (n + 1) xs v).settled = (t v).settled.andThen fun
      | .done rest y => some (.ok (.done rest (xs, y)))
      | .incomplete k => some (.ok (.incomplete k))
      | .failed _ => (p v).settled.andThen fun
        | .done rest x =>
          if rest.offset = v.offset then some (.error (.stalled "many_till" v.start))
          else (manyTill origin p t n (xs ++ [x]) rest).settled
        | .failed c => some (.ok (.failed (c.within .repetition origin)))
        | .incomplete k => some (.ok (.incomplete k)) := by
  refine Run.Settles.eq (.bind (ht v) fun o => ?_)
  rcases o with ⟨rest, y⟩ | c | k
  · exact .pure _
  · refine .bind (hp v) fun o' => ?_
    rcases o' with ⟨rest, x⟩ | c' | k
    · exact .progress ⟨Conduct.manyTill hp ht n (xs ++ [x]) rest, rfl⟩
    · exact .pure _
    · exact .pure _
  · exact .pure _

end Parser

namespace Grammar
variable {p t : Grammar} {v : View} {budget : Nat}

/-- The items of `p` from `v` on, each at a place where `t` fails. -/
inductive Collects (defs : Definitions) (p t : Grammar) (v : View) : List Value → View → Prop
  | nil : Collects defs p t v [] v
  | snoc {xs : List Value} {u rest : View} {c : Chain} {x : Value} : Collects defs p t v xs u →
    t.Yields defs u (.ok (.failed c)) → p.Yields defs u (.ok (.done rest x)) → rest.offset ≠ u.offset →
      Collects defs p t v (xs ++ [x]) rest

/-- An item that is looked for only where the terminator fails. -/
theorem settled_guarded (defs : Definitions) (p t : Grammar) (budget : Nat) (u : View) :
    ((preceded (negate t) p).parse defs (budget + 1) u).settled =
      (t.parse defs (budget + 1) u).settled.andThen fun
        | .done _ _ => some (.ok (.failed ((Chain.mk ⟨.notExpected, u.start, none, none⟩ []).within .sequence u.start)))
        | .failed _ => (p.parse defs (budget + 1) u).settled.andThen fun
          | .done rest x => some (.ok (.done rest x))
          | .failed c => some (.ok (.failed (c.within .sequence u.start)))
          | .incomplete k => some (.ok (.incomplete k))
        | .incomplete k => some (.ok (.incomplete k)) := by
  have hp := p.parse_steady defs (budget + 1)
  have ht := t.parse_steady defs (budget + 1)
  have hnegate := (negate t).parse_steady defs (budget + 1)
  rw [preceded, parse_sequence_two, (Parser.settles_sequence_two (fun _ x => x) (fun _ _ => rfl) hnegate hp u).eq,
    negate, parse_adapted, Parser.settled_negate ht]
  rcases (t.parse defs (budget + 1) u).settled with _ | f | ⟨rest, y⟩ | c | k
  · rfl
  · rfl
  · rfl
  · simp only [Settled.andThen_ok, Parser.followed]
    rcases (p.parse defs (budget + 1) u).settled with _ | f | ⟨rest, x⟩ | c | k <;> rfl
  · rfl

/-- Round by round, a repetition up to a terminator does what the guarded repetition does that the terminator
follows; where the items stop, the terminator is run a second time, and settles on the same. -/
theorem manyTill_related (origin origin' start : Position) (n matched : Nat) (xs : List Value) (v : View) :
    Option.Rel (Correspond (Fault.Renamed (Faults defs [p, t]) (Stalls defs (preceded (negate t) p)) "many_till"
        "many0") Outcome.UpToChain)
      ((Parser.manyTill origin (p.parse defs (budget + 1)) (t.parse defs (budget + 1)) n xs v).settled.map
        (Except.map (Outcome.map fun r => .tuple [.list r.1, r.2])))
      ((((preceded (negate t) p).parse defs (budget + 1)).fold (Parser.listing "many0" origin') n matched xs
        v).settled.andThen fun o =>
          Parser.followed (t.parse defs (budget + 1)) (fun x y => .tuple [x, y]) start (o.map Value.list)) := by
  have hp := p.parse_steady defs (budget + 1)
  have ht := t.parse_steady defs (budget + 1)
  have hguarded := (preceded (negate t) p).parse_steady defs (budget + 1)
  induction n generalizing matched xs v with
  | zero => exact .none
  | succ n ih =>
    have hitem := settled_guarded defs p t budget v
    rw [Parser.settled_manyTill hp ht, Parser.settled_fold_listing hguarded, hitem]
    rcases htv : (t.parse defs (budget + 1) v).settled with _ | f | ⟨rest, y⟩ | c | k
    · exact .none
    · exact .some (.error (.child ⟨t, by simp, v, .of_settled htv⟩))
    · simp only [Settled.andThen_ok, Parser.followed, Outcome.map_done, htv]
      exact .some (.ok (.done _ _))
    · simp only [Settled.andThen_ok]
      rcases hpv : (p.parse defs (budget + 1) v).settled with _ | f | ⟨rest, x⟩ | c' | k
      · exact .none
      · exact .some (.error (.child ⟨p, by simp, v, .of_settled hpv⟩))
      · simp only [Settled.andThen_ok]
        split
        · next hstall =>
          refine .some (.error (.own ⟨rest, x, .of_settled (n := budget + 1) ?_, hstall⟩))
          rw [hitem, htv]
          simp only [Settled.andThen_ok, hpv]
        · exact ih (matched + 1) (xs ++ [x]) rest
      · simp only [Settled.andThen_ok, Parser.followed, Outcome.map_done, htv]
        exact .some (.ok (.failed _ _))
      · exact .some (.ok (.incomplete _))
    · exact .some (.ok (.incomplete _))

theorem parse_manyTill_related (p t : Grammar) (budget : Nat) (v : View) :
    Option.Rel (Correspond (Fault.Renamed (Faults defs [p, t]) (Stalls defs (preceded (negate t) p)) "many_till"
        "many0") Outcome.UpToChain)
      ((manyTill p t).parse defs (budget + 1) v).settled
      ((pair (many0 (preceded (negate t) p)) t).parse defs (budget + 1) v).settled := by
  have hmany := (many0 (preceded (negate t) p)).parse_steady defs (budget + 1)
  have ht := t.parse_steady defs (budget + 1)
  have hfinish : ∀ x y, Assembly.pair.finish [x, y] = .ok (.tuple [x, y]) := fun _ _ => rfl
  have hpair := Parser.settles_sequence_two (fun x y => .tuple [x, y]) hfinish hmany ht v
  rw [parse_manyTill, Run.settled_map, pair, parse_sequence_two, hpair.eq, parse_many0, Run.settled_map,
    Settled.andThen_map]
  exact manyTill_related v.start v.start v.start budget 0 [] v

theorem Yields.manyTill_loop {o : Outcome Value} (h : (manyTill p t).Yields defs v (.ok o)) :
    ∃ budget o', o = Outcome.map (fun r => .tuple [.list r.1, r.2]) o' ∧
      (Parser.manyTill v.start (p.parse defs (budget + 1)) (t.parse defs (budget + 1)) budget [] v).settled =
        some (.ok o') := by
  obtain ⟨n, hn⟩ := h.settled
  have hsettled := hn n (Nat.le_refl n)
  rw [parse_manyTill, Run.settled_map] at hsettled
  obtain ⟨_ | o', hloop, ho'⟩ := Option.map_eq_some_iff.1 hsettled <;> cases ho'
  exact ⟨n, o', rfl, hloop⟩

/-- How a repetition up to a terminator that has collected `xs` comes to its outcome. -/
theorem collects_of_manyTill {origin : Position} {n : Nat} {xs : List Value} {u : View}
    {o : Outcome (List Value × Value)} (hxs : Collects defs p t v xs u)
    (h : (Parser.manyTill origin (p.parse defs (budget + 1)) (t.parse defs (budget + 1)) n xs u).settled =
      some (.ok o)) :
    (∀ rest ys y, o = .done rest (ys, y) → ∃ w, Collects defs p t v ys w ∧ t.Yields defs w (.ok (.done rest y))) ∧
    ∀ c, o = .failed c → ∃ ys w c' d, Collects defs p t v ys w ∧ t.Yields defs w (.ok (.failed d)) ∧
      p.Yields defs w (.ok (.failed c')) ∧ c = c'.within .repetition origin := by
  have hp := p.parse_steady defs (budget + 1)
  have ht := t.parse_steady defs (budget + 1)
  induction n generalizing xs u with
  | zero => cases h
  | succ n ih =>
    rw [Parser.settled_manyTill hp ht] at h
    rcases htu : (t.parse defs (budget + 1) u).settled with _ | f | ⟨rest, y⟩ | c | k <;> rw [htu] at h
    · cases h
    · cases h
    · cases h
      refine ⟨?_, fun c hc => nomatch hc⟩
      rintro _ _ _ ⟨⟩
      exact ⟨u, hxs, .of_settled htu⟩
    · simp only [Settled.andThen_ok] at h
      rcases hpu : (p.parse defs (budget + 1) u).settled with _ | f | ⟨rest, x⟩ | c' | k <;> rw [hpu] at h
      · cases h
      · cases h
      · simp only [Settled.andThen_ok] at h
        split at h
        · cases h
        · next hmoves => exact ih (hxs.snoc (.of_settled htu) (.of_settled hpu) hmoves) h
      · cases h
        refine ⟨fun _ _ _ hdone => (nomatch hdone), ?_⟩
        rintro _ ⟨⟩
        exact ⟨xs, u, c', c, hxs, .of_settled htu, .of_settled hpu, rfl⟩
      · cases h
        exact ⟨fun _ _ _ hdone => (nomatch hdone), fun c hc => nomatch hc⟩
    · cases h
      exact ⟨fun _ _ _ hdone => (nomatch hdone), fun c hc => nomatch hc⟩

/-- A repetition up to a terminator stops at the first place where the terminator matches: it comes to what the
items that are looked for only where the terminator fails, and then the terminator, come to. On a match the
terminator has failed where each item begins. On a failure it has failed too where an item was needed last, and
the chain is that of the item. -/
theorem manyTill_stops_at_first (defs : Definitions) (p t : Grammar) (v : View) :
    (∀ r, (manyTill p t).Yields defs v r → ∃ r', (pair (many0 (preceded (negate t) p)) t).Yields defs v r' ∧
      Correspond (Fault.Renamed (Faults defs [p, t]) (Stalls defs (preceded (negate t) p)) "many_till" "many0")
        Outcome.UpToChain r r') ∧
    (∀ r', (pair (many0 (preceded (negate t) p)) t).Yields defs v r' → ∃ r, (manyTill p t).Yields defs v r ∧
      Correspond (Fault.Renamed (Faults defs [p, t]) (Stalls defs (preceded (negate t) p)) "many_till" "many0")
        Outcome.UpToChain r r') ∧
    (∀ rest x, (manyTill p t).Yields defs v (.ok (.done rest x)) → ∃ xs u y, Collects defs p t v xs u ∧
      t.Yields defs u (.ok (.done rest y)) ∧ x = .tuple [.list xs, y]) ∧
    ∀ c, (manyTill p t).Yields defs v (.ok (.failed c)) → ∃ xs u c' d, Collects defs p t v xs u ∧
      t.Yields defs u (.ok (.failed d)) ∧ p.Yields defs u (.ok (.failed c')) ∧ c = c'.within .repetition v.start := by
  refine ⟨fun r hr => ?_, fun r' hr' => ?_, fun rest x hx => ?_, fun c hc => ?_⟩
  · obtain ⟨n, hn⟩ := hr.settled
    obtain ⟨r', hr', hcorr⟩ := Settled.exists_right (parse_manyTill_related p t n v) (hn n (Nat.le_refl n))
    exact ⟨r', .of_settled hr', hcorr⟩
  · obtain ⟨n, hn⟩ := hr'.settled
    obtain ⟨r, hr, hcorr⟩ := Settled.exists_left (parse_manyTill_related p t n v) (hn n (Nat.le_refl n))
    exact ⟨r, .of_settled hr, hcorr⟩
  · obtain ⟨n, o, ho, hsettled⟩ := hx.manyTill_loop
    rcases o with ⟨rest', xs, y⟩ | c | k <;> cases ho
    obtain ⟨u, hxs, hy⟩ := (collects_of_manyTill .nil hsettled).1 _ _ _ rfl
    exact ⟨xs, u, y, hxs, hy, rfl⟩
  · obtain ⟨n, o, ho, hsettled⟩ := hc.manyTill_loop
    rcases o with ⟨rest', xs, y⟩ | c' | k <;> cases ho
    exact (collects_of_manyTill .nil hsettled).2 _ rfl

/-- A single decimal figure. -/
def figure : Grammar :=
  primitive (.unit "figure" none (fun s => .ok (Alphabet.holds Alphabet.digits s)) .complete)

def point : Grammar := primitive (.tag (.text ['.']))

def figureLine : View := .whole ⟨0, .text ['1', '2', '.', 'x']⟩

theorem manyTill_stops_at_first_figureLine :
    (pair (many0 (preceded (negate point) figure)) point).Yields noDefinitions figureLine
      (.ok (.done (figureLine.drop 3)
        (.tuple [.list [.text "1", .text "2"], .view ((figureLine.drop 2).take 1)]))) ∧
    (∃ r, (manyTill figure point).Yields noDefinitions figureLine r ∧
      Correspond (Fault.Renamed (Faults noDefinitions [figure, point])
        (Stalls noDefinitions (preceded (negate point) figure)) "many_till" "many0") Outcome.UpToChain r
          (.ok (.done (figureLine.drop 3)
            (.tuple [.list [.text "1", .text "2"], .view ((figureLine.drop 2).take 1)])))) ∧
    (manyTill figure point).Yields noDefinitions (figureLine.drop 3)
      (.ok (.failed ⟨⟨.charMismatch, .ofNat 3, none, none⟩, [⟨.repetition, .ofNat 3, none, none⟩]⟩)) ∧
    ∃ xs u c' d, Collects noDefinitions figure point (figureLine.drop 3) xs u ∧
      point.Yields noDefinitions u (.ok (.failed d)) ∧ figure.Yields noDefinitions u (.ok (.failed c')) ∧
        (⟨⟨.charMismatch, .ofNat 3, none, none⟩, [⟨.repetition, .ofNat 3, none, none⟩]⟩ : Chain) =
          c'.within .repetition (figureLine.drop 3).start := by
  have hpair : (pair (many0 (preceded (negate point) figure)) point).Yields noDefinitions figureLine
      (.ok (.done (figureLine.drop 3)
        (.tuple [.list [.text "1", .text "2"], .view ((figureLine.drop 2).take 1)]))) :=
    .of_result (n := 4) (by decide +kernel)
  have hfailed : (manyTill figure point).Yields noDefinitions (figureLine.drop 3)
      (.ok (.failed ⟨⟨.charMismatch, .ofNat 3, none, none⟩, [⟨.repetition, .ofNat 3, none, none⟩]⟩)) :=
    .of_result (n := 4) (by decide +kernel)
  have hlaw := manyTill_stops_at_first noDefinitions figure point
  exact ⟨hpair, (hlaw figureLine).2.1 _ hpair, hfailed, (hlaw (figureLine.drop 3)).2.2.2 _ hfailed⟩

end Grammar
end StreamGrammar
