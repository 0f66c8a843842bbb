import Mathlib.Data.Nat.Find
import StreamGrammar.Proofs.Literals
import StreamGrammar.Proofs.LoopLaws
import StreamGrammar.Proofs.Stretches

/-! # Splitting at a literal

Everything before the first occurrence of a literal is found by a search, or by taking symbol after symbol until the
literal stands next. Before the first occurrence no rest of the view is a beginning of the literal, since it is too
long for that, so each look ahead fails and the scan reaches the occurrence (`FirstAt.rest_too_long`). Without an
occurrence the scan stops where the rest of the view is a beginning of the literal, at its end at the latest, and asks
for more whatever the policy (`Grammar.exists_scan_incomplete`). -/

namespace StreamGrammar

variable {defs : Definitions}

/-! ### The first occurrence -/

/-- The literal stands at `i` in the symbols, and nowhere before. -/
structure FirstAt (literal ss : List Symbol) (i : Nat) : Prop where
  stands : literal <+: ss.drop i
  least : ∀ j < i, ¬ literal <+: ss.drop j

namespace FirstAt
variable {literal ss : List Symbol} {i j : Nat}

theorem of_firstOccurrence (h : firstOccurrence literal ss = some i) : FirstAt literal ss i :=
  ⟨(firstOccurrence_eq_some_iff.1 h).1, (firstOccurrence_eq_some_iff.1 h).2⟩

theorem add_length_le (h : FirstAt literal ss i) : i + literal.length ≤ ss.length :=
  firstOccurrence_add_length_le (firstOccurrence_eq_some_iff.2 ⟨h.stands, h.least⟩)

theorem isInfix (h : FirstAt literal ss i) : literal <:+: ss :=
  h.stands.isInfix.trans (List.drop_suffix i ss).isInfix

/-- What is left before the occurrence is longer than the literal. -/
theorem rest_too_long (h : FirstAt literal ss i) (hj : j < i) : ¬ ss.drop j <+: literal := by
  intro hbegins
  have hlength := hbegins.length_le
  have hin := h.add_length_le
  rw [List.length_drop] at hlength
  omega

end FirstAt

theorem not_prefix_drop_of_absent {literal ss : List Symbol} (h : ¬ literal <:+: ss) (i : Nat) :
    ¬ literal <+: ss.drop i :=
  fun hstands => h (hstands.isInfix.trans (List.drop_suffix i ss).isInfix)

theorem not_infix_of_firstOccurrence {literal ss : List Symbol} (h : firstOccurrence literal ss = none) :
    ¬ literal <:+: ss := by
  rintro ⟨before, after, rfl⟩
  refine firstOccurrence_eq_none_iff.1 h before.length ?_
  rw [List.append_assoc, List.drop_left]
  exact List.prefix_append _ _

namespace Grammar

/-! ### Loops up to a terminator -/

section ManyTill
variable {p t : Grammar} {v u : View} {xs : List Value}

/-- A loop that has collected its items goes on from there. -/
theorem Collects.settled_manyTill (h : Collects defs p t v xs u) (origin : Position) : ∃ m, ∀ n, m ≤ n → ∀ rounds,
    (Parser.manyTill origin (p.parse defs (n + 1)) (t.parse defs (n + 1)) (rounds + xs.length) [] v).settled =
      (Parser.manyTill origin (p.parse defs (n + 1)) (t.parse defs (n + 1)) rounds xs u).settled := by
  -- each item takes a round, in which the terminator fails and the item moves the input
  induction h with
  | nil => exact ⟨0, fun n _ rounds => rfl⟩
  | snoc _ ht hp hmoves ih =>
    obtain ⟨m, hm⟩ := ih
    obtain ⟨m₁, hm₁⟩ := ht.settled
    obtain ⟨m₂, hm₂⟩ := hp.settled
    refine ⟨max m (max m₁ m₂), fun n hn rounds => ?_⟩
    rw [List.length_append, List.length_singleton, ← Nat.add_assoc, Nat.add_right_comm, hm n (by omega),
      Parser.settled_manyTill (p.parse_steady defs (n + 1)) (t.parse_steady defs (n + 1)), hm₁ n (by omega)]
    simp only [Settled.andThen_ok, hm₂ n (by omega : m₂ ≤ n), if_neg hmoves]

/-- What the terminator comes to behind the items, the loop does. -/
theorem Collects.yields_manyTill (h : Collects defs p t v xs u) {o : Outcome Value} (ho : t.Yields defs u (.ok o))
    (hfailed : ∀ e, o ≠ .failed e) :
    (manyTill p t).Yields defs v (.ok (o.map fun y => .tuple [.list xs, y])) := by
  obtain ⟨m, hm⟩ := h.settled_manyTill v.start
  obtain ⟨m', hm'⟩ := ho.settled
  refine .of_settled (n := max m m' + 1 + xs.length + 1) ?_
  rw [parse_manyTill, Run.settled_map, hm _ (by omega),
    Parser.settled_manyTill (p.parse_steady defs _) (t.parse_steady defs _), hm' _ (by omega)]
  rcases o with ⟨rest, y⟩ | e | k
  · rfl
  · exact absurd rfl (hfailed e)
  · rfl

end ManyTill

/-! ### Scanning for a literal -/

section Scan
variable (defs : Definitions) {t : Grammar} {c : Chunk} {v : View} {i : Nat}

theorem yields_take_one (hv : 0 < v.length) :
    (primitive (.take 1)).Yields defs v (.ok (.done (v.drop 1) (.view (v.take 1)))) := by
  have hyields := yields_primitive defs (.take 1) v
  have hparse : (Primitive.take 1).parse v = Primitive.consume v 1 := if_neg (Nat.not_lt.2 hv)
  rwa [hparse, Primitive.consume_of_le hv] at hyields

/-- Symbol after symbol, as long as the terminator fails. -/
theorem exists_collects_take (ht : ∀ j < i, ∃ e, t.Yields defs (v.after j) (.ok (.failed e))) (hi : i ≤ v.length) :
    ∃ xs, Collects defs (primitive (.take 1)) t v xs (v.after i) := by
  induction i with
  | zero => exact ⟨[], .nil⟩
  | succ i ih =>
    obtain ⟨xs, hxs⟩ := ih (fun j hj => ht j (Nat.lt_succ_of_lt hj)) (Nat.le_of_succ_le hi)
    obtain ⟨e, he⟩ := ht i (Nat.lt_succ_self i)
    have hrest : 0 < (v.after i).length := by rw [View.length_after]; omega
    have hone := yields_take_one defs hrest
    rw [View.drop_after] at hone
    exact ⟨_, hxs.snoc he hone (View.offset_after_succ_ne v hi)⟩

theorem peek_tag_fails (hk : c.kind = v.kind) (h : ¬ c.symbols <+: v.symbols.drop i)
    (h' : ¬ v.symbols.drop i <+: c.symbols) :
    ∃ e, (peek (primitive (.tag c.fix))).Yields defs (v.after i) (.ok (.failed e)) := by
  rw [← View.symbols_after] at h h'
  exact ⟨_, ((yields_tag_iff defs c _ _).2 (.exactly_differs (hk.trans (v.kind_after i).symm) h h')).peek⟩

theorem exists_scan_done (hk : c.kind = v.kind) (h : FirstAt c.symbols v.symbols i) :
    ∃ head, (recognize (manyTill (primitive (.take 1)) (peek (primitive (.tag c.fix))))).Yields defs v
      (.ok (.done (v.after i) (.view head))) ∧ (v.take i).SameStretch head := by
  have hin := h.add_length_le
  rw [View.length_symbols] at hin
  obtain ⟨xs, hxs⟩ := exists_collects_take defs
    (fun j hj => peek_tag_fails defs hk (h.least j hj) (h.rest_too_long hj)) (by omega)
  have hstands := h.stands
  rw [← View.symbols_after] at hstands
  have htag := (yields_tag_iff defs c _ _).2 (.exactly_begins (hk.trans (v.kind_after i).symm) hstands)
  have hscan := hxs.yields_manyTill htag.peek fun _ he => nomatch he
  exact hscan.recognize_after (by omega)

theorem exists_scan_incomplete (hk : c.kind = v.kind) (h : ¬ c.symbols <:+: v.symbols) :
    ∃ k, (recognize (manyTill (primitive (.take 1)) (peek (primitive (.tag c.fix))))).Yields defs v
      (.ok (.incomplete k)) := by
  have hend : v.symbols.drop v.length <+: c.symbols := by
    rw [List.drop_eq_nil_of_le (Nat.le_of_eq v.length_symbols)]
    exact List.nil_prefix
  have hexists : ∃ i, v.symbols.drop i <+: c.symbols := ⟨v.length, hend⟩
  -- the first place where the look ahead does not fail
  obtain ⟨i, hi, hleast⟩ : ∃ i, v.symbols.drop i <+: c.symbols ∧ ∀ j < i, ¬ v.symbols.drop j <+: c.symbols :=
    ⟨Nat.find hexists, Nat.find_spec hexists, fun j => Nat.find_min hexists⟩
  have hle : i ≤ v.length := Nat.not_lt.1 fun hlt => hleast v.length hlt hend
  obtain ⟨xs, hxs⟩ := exists_collects_take defs
    (fun j hj => peek_tag_fails defs hk (not_prefix_drop_of_absent h j) (hleast j hj)) hle
  have habsent := not_prefix_drop_of_absent h i
  rw [← View.symbols_after] at hi habsent
  have hshort : (v.after i).length < c.length := by
    -- a rest of the length of the literal would be an occurrence
    refine Nat.not_le.1 fun hlong => habsent (prefix_of_length_le hi ?_)
    rwa [View.length_symbols, Chunk.length_symbols]
  have htag := (yields_tag_iff defs c _ _).2 (.exactly_short (hk.trans (v.kind_after i).symm) hshort hi)
  have hscan := hxs.yields_manyTill htag.peek fun _ he => nomatch he
  exact ⟨_, hscan.recognize⟩

end Scan

/-! ### The search and the scan -/

/-- What the search for a literal comes to, and what the scan for it does. -/
inductive Split (literal : List Symbol) (policy : Policy) (v : View) : Outcome Value → Outcome Value → Prop
  | found {i : Nat} {rest head : View} : FirstAt literal v.symbols i → i + literal.length ≤ v.length →
    (v.drop i).SameStretch rest → (v.take i).SameStretch head →
      Split literal policy v (.done (v.drop i) (.view (v.take i))) (.done rest (.view head))
  | awaited {k : Needed} : ¬ literal <:+: v.symbols → policy = .streaming →
    Split literal policy v (.incomplete .unknown) (.incomplete k)
  | missing {k : Needed} : ¬ literal <:+: v.symbols → policy = .complete →
    Split literal policy v (.failed ⟨⟨.literalMismatch, v.start, none, none⟩, []⟩) (.incomplete k)

theorem Split.exists_done {literal : List Symbol} {policy : Policy} {v rest taken : View} {o : Outcome Value}
    (h : Split literal policy v (.done rest (.view taken)) o) : ∃ rest' head, o = .done rest' (.view head) ∧
      rest.SameStretch rest' ∧ taken.SameStretch head := by
  cases h with
  | found _ _ hrest hhead => exact ⟨_, _, rfl, hrest, hhead⟩

theorem Split.exists_incomplete {literal : List Symbol} {policy : Policy} {v : View} {c : Chain} {o : Outcome Value}
    (h : Split literal policy v (.failed c) o) : ∃ k, o = .incomplete k := by
  cases h with
  | missing => exact ⟨_, rfl⟩

variable {c : Chunk} {v : View} {policy : Policy}

theorem takeUntil_chunk (hc : c.length ≠ 0) (policy : Policy) :
    takeUntil (.chunk c) policy = .ok (primitive (.takeUntil c.fix policy)) := by
  rw [takeUntil, Value.nonemptyLiteral_chunk hc]
  rfl

theorem exists_split (hk : c.kind = v.kind) : ∃ o o', (primitive (.takeUntil c.fix policy)).Yields defs v (.ok o) ∧
    (recognize (manyTill (primitive (.take 1)) (peek (primitive (.tag c.fix))))).Yields defs v (.ok o') ∧
      Split c.symbols policy v o o' := by
  have hsearch := yields_primitive defs (.takeUntil c.fix policy) v
  rw [Primitive.parse, Primitive.parseTakeUntil_of_kind (c.kind_fix.trans hk), c.symbols_fix] at hsearch
  cases hoccurs : firstOccurrence c.symbols v.symbols with
  | some i =>
    have hfirst := FirstAt.of_firstOccurrence hoccurs
    have hin := hfirst.add_length_le
    rw [View.length_symbols] at hin
    rw [hoccurs] at hsearch
    dsimp only at hsearch
    rw [Primitive.consume_of_le (by omega)] at hsearch
    obtain ⟨head, hscan, hstretch⟩ := exists_scan_done defs hk hfirst
    exact ⟨_, _, hsearch, hscan, .found hfirst hin (v.sameStretch_after i) hstretch⟩
  | none =>
    have habsent := not_infix_of_firstOccurrence hoccurs
    obtain ⟨k, hscan⟩ := exists_scan_incomplete defs hk habsent
    rw [hoccurs] at hsearch
    cases policy with
    | streaming => exact ⟨_, _, hsearch, hscan, .awaited habsent rfl⟩
    | complete => exact ⟨_, _, hsearch, hscan, .missing habsent rfl⟩

/-- A search for a literal that is not empty splits the view at the first occurrence of the literal, and so does the
scan that takes symbol after symbol until the literal stands next. Without an occurrence the search asks for more or
fails, as its policy says, and the scan asks for more. -/
theorem takeUntil_splits_at_first (defs : Definitions) {c : Chunk} (hc : c.length ≠ 0) (policy : Policy) :
    ∃ g t one, takeUntil (.chunk c) policy = .ok g ∧ tag (.chunk c) = .ok t ∧ take 1 = .ok one ∧
      ∀ v, c.kind = v.kind → ∃ o o', g.Yields defs v (.ok o) ∧
        (recognize (manyTill one (peek t))).Yields defs v (.ok o') ∧ Split c.symbols policy v o o' :=
  ⟨_, _, _, takeUntil_chunk hc policy, tag_chunk hc, rfl, fun _ hk => exists_split hk⟩

def aab : Chunk := .bytes .growable [97, 97, 98]

/-- An occurrence before the view, one in it behind a false start, and no other. -/
def aaabWindow : View := ⟨⟨0, .bytes .window [97, 97, 98, 97, 97, 97, 98, 98]⟩, .ofNat 3, 4, by decide⟩

theorem takeUntil_splits_at_first_aaabWindow :
    aab.length ≠ 0 ∧ ∃ t one, tag (.chunk aab) = .ok t ∧ take 1 = .ok one ∧
      (∃ rest head, (recognize (manyTill one (peek t))).Yields noDefinitions aaabWindow
        (.ok (.done rest (.view head))) ∧ (aaabWindow.drop 1).SameStretch rest ∧
          (aaabWindow.take 1).SameStretch head) ∧
      ∃ k, (recognize (manyTill one (peek t))).Yields noDefinitions (aaabWindow.take 3) (.ok (.incomplete k)) := by
  have hc : aab.length ≠ 0 := by decide
  have hfound : (primitive (.takeUntil aab.fix .complete)).Yields noDefinitions aaabWindow
      (.ok (.done (aaabWindow.drop 1) (.view (aaabWindow.take 1)))) := .of_result (n := 1) (by decide +kernel)
  have hcut : (primitive (.takeUntil aab.fix .complete)).Yields noDefinitions (aaabWindow.take 3)
      (.ok (.failAt .literalMismatch (aaabWindow.take 3))) := .of_result (n := 1) (by decide +kernel)
  obtain ⟨g, t, one, hg, ht, hone, hsplit⟩ := takeUntil_splits_at_first noDefinitions hc .complete
  cases (takeUntil_chunk hc .complete).symm.trans hg
  obtain ⟨o, o', ho, ho', h⟩ := hsplit aaabWindow (by decide)
  obtain ⟨p, p', hp, hp', h'⟩ := hsplit (aaabWindow.take 3) (by decide)
  cases ho.unique hfound
  cases hp.unique hcut
  obtain ⟨rest, head, rfl, hrest, hhead⟩ := h.exists_done
  obtain ⟨k, rfl⟩ := h'.exists_incomplete
  exact ⟨hc, t, one, ht, hone, ⟨rest, head, ho', hrest, hhead⟩, k, hp'⟩

end Grammar
end StreamGrammar
