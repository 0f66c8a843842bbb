import StreamGrammar.Proofs.LoopForm
import StreamGrammar.Proofs.Stretches
import StreamGrammar.Stock.Predicate

/-! # Runs of symbols

A run counts the first symbols that pass a test and decides afterwards what to make of the number; a repetition of one
symbol decides after each symbol, the end of the input included. Both come to the longest beginning all of whose
symbols pass (`LongestRun`), since the symbol behind it fails the test wherever there is one. They differ in their
chains only (`SameRun`). -/

namespace StreamGrammar

variable {defs : Definitions}

/-- The first `n` symbols are the longest beginning all of whose symbols pass. -/
structure LongestRun (accepts : Symbol → Bool) (ss : List Symbol) (n : Nat) : Prop where
  le : n ≤ ss.length
  passes : ∀ s ∈ ss.take n, accepts s = true
  longest : ∀ m ≤ ss.length, (∀ s ∈ ss.take m, accepts s = true) → m ≤ n

namespace LongestRun
variable {accepts : Symbol → Bool} {s : Symbol} {ss : List Symbol} {n : Nat}

theorem nil : LongestRun accepts [] 0 :=
  ⟨Nat.le_refl 0, fun _ hs => (nomatch hs), fun _ hm _ => hm⟩

theorem cons_of_false (hs : accepts s = false) (ss : List Symbol) : LongestRun accepts (s :: ss) 0 := by
  refine ⟨Nat.zero_le _, fun _ ht => (nomatch ht), fun m _ hall => ?_⟩
  cases m with
  | zero => exact Nat.le_refl 0
  | succ m =>
    have htrue := hall s (by simp)
    rw [hs] at htrue
    cases htrue

theorem cons_of_true (hs : accepts s = true) (h : LongestRun accepts ss n) :
    LongestRun accepts (s :: ss) (n + 1) := by
  refine ⟨Nat.succ_le_succ h.le, ?_, fun m hm hall => ?_⟩
  · rw [List.take_succ_cons]
    exact List.forall_mem_cons.2 ⟨hs, h.passes⟩
  · cases m with
    | zero => exact Nat.zero_le _
    | succ m =>
      rw [List.take_succ_cons] at hall
      exact Nat.succ_le_succ (h.longest m (Nat.le_of_succ_le_succ hm) (List.forall_mem_cons.1 hall).2)

theorem accepts_of_lt (h : LongestRun accepts ss n) {i : Nat} (hi : i < n) (hs : ss[i]? = some s) :
    accepts s = true :=
  h.passes s (List.mem_of_getElem? (by rw [List.getElem?_take_of_lt hi, hs]))

/-- The symbol behind the run fails the test. -/
theorem rejects (h : LongestRun accepts ss n) (hs : ss[n]? = some s) : accepts s = false := by
  obtain ⟨hlt, rfl⟩ := List.getElem?_eq_some_iff.1 hs
  rw [← Bool.not_eq_true]
  intro htrue
  -- with this symbol the run would be longer
  have hlonger := h.longest (n + 1) hlt fun t ht => ?_
  · omega
  · rw [List.take_succ_eq_append_getElem hlt, List.mem_append, List.mem_singleton] at ht
    rcases ht with ht | rfl
    · exact h.passes t ht
    · exact htrue

theorem all_of_length (h : LongestRun accepts ss ss.length) : ∀ s ∈ ss, accepts s = true := by
  have hpasses := h.passes
  rwa [List.take_length] at hpasses

end LongestRun

namespace Primitive
variable {test : SymbolTest} {accepts : Symbol → Bool} {ss : List Symbol}

/-- A test that raises no error on the symbols counts the longest run. -/
theorem exists_leading (htest : ∀ s ∈ ss, test s = .ok (accepts s)) :
    ∃ n, leading test ss = .ok n ∧ LongestRun accepts ss n := by
  induction ss with
  | nil => exact ⟨0, rfl, .nil⟩
  | cons s ss ih =>
    obtain ⟨hs, hss⟩ := List.forall_mem_cons.1 htest
    obtain ⟨n, hn, hrun⟩ := ih hss
    cases haccepts : accepts s with
    | false =>
      rw [haccepts] at hs
      exact ⟨0, leading_cons_of_false hs ss, .cons_of_false haccepts ss⟩
    | true =>
      rw [haccepts] at hs
      exact ⟨n + 1, by rw [leading_cons_of_true hs, hn]; rfl, hrun.cons_of_true haccepts⟩

end Primitive

namespace Grammar

/-! ### One symbol and many -/

section Satisfy
variable (defs : Definitions) (item : String) (policy : Policy) {test : ValueTest} {accepts : Symbol → Bool} {v : View}
  {s : Symbol} {n : Nat}

theorem satisfy_of_symbol (hs : v.symbol? 0 = some s) (htest : test s.toValue = .ok (accepts s)) :
    (satisfy test item policy).Yields defs v
      (.ok (if accepts s then .done (v.drop 1) s.toValue else .failAt .charMismatch v)) := by
  have hyields := yields_primitive defs (.unit item none (fun s => test s.toValue) policy) v
  rw [Primitive.parse, Primitive.parseUnit_of_symbol hs, htest] at hyields
  cases haccepts : accepts s <;> rw [haccepts] at hyields <;> exact hyields

theorem satisfy_of_none (test : ValueTest) (hs : v.symbol? 0 = none) : (satisfy test item policy).Yields defs v
    (.ok (match policy with
      | .streaming => .incomplete (.exact (.int 1))
      | .complete => .failAt .charMismatch v)) := by
  have hyields := yields_primitive defs (.unit item none (fun s => test s.toValue) policy) v
  rw [Primitive.parse, Primitive.parseUnit_of_none hs] at hyields
  cases policy with
  | streaming => rwa [Primitive.missing_of_pos Nat.one_pos] at hyields
  | complete => exact hyields

/-- Symbol after symbol, as long as they pass. -/
theorem advances_satisfy (htest : ∀ s ∈ v.symbols, test s.toValue = .ok (accepts s))
    (hpasses : ∀ i s, i < n → v.symbols[i]? = some s → accepts s = true) (hn : n ≤ v.length) :
    Advances defs (satisfy test item policy) v ((v.symbols.take n).map Symbol.toValue) (v.after n) := by
  -- the symbols are added at the end, where the view is known to be `v.after n`
  induction n with
  | zero => exact .nil v
  | succ n ih =>
    have hlt : n < v.symbols.length := by rw [View.length_symbols]; exact hn
    have hs : v.symbols[n]? = some v.symbols[n] := List.getElem?_eq_getElem hlt
    have hone := satisfy_of_symbol defs item policy ((v.symbol?_after n).trans hs) (htest _ (List.getElem_mem hlt))
    rw [hpasses n _ (Nat.lt_succ_self n) hs, if_pos rfl, View.drop_after] at hone
    rw [List.take_succ_eq_append_getElem hlt, List.map_append]
    refine (ih (fun i s hi => hpasses i s (Nat.lt_succ_of_lt hi)) (Nat.le_of_succ_le hn)).append ?_
    exact .cons hone (View.offset_after_succ_ne v hn) (.nil _)

end Satisfy

section Many1
variable {g : Grammar} {v u : View} {xs : List Value} {c : Chain} {k : Needed}

theorem yields_many1_of_failed (h : Advances defs g v xs u) (hu : g.Yields defs u (.ok (.failed c))) :
    (many1 g).Yields defs v
      (.ok (if xs.length < 1 then .failed (c.within .repetition v.start) else .done u (.list xs))) := by
  refine (yields_listing_iff Repetition.lists_many1).2 ⟨xs, u, _, h, .tried ?_ hu rfl, ?_⟩
  · exact Parser.Loop.room_of_most rfl _
  · show _ = Except.ok (Outcome.map Value.list (if xs.length < 1 then _ else _))
    split <;> rfl

theorem yields_many1_of_incomplete (h : Advances defs g v xs u) (hu : g.Yields defs u (.ok (.incomplete k))) :
    (many1 g).Yields defs v (.ok (.incomplete k)) :=
  (yields_listing_iff Repetition.lists_many1).2
    ⟨xs, u, .ok (.incomplete k), h, .tried (Parser.Loop.room_of_most rfl _) hu rfl, rfl⟩

end Many1

/-! ### Runs -/

/-- What a run and the repetition of one symbol come to. -/
inductive SameRun (accepts : Symbol → Bool) (policy : Policy) (v : View) : Outcome Value → Outcome Value → Prop
  | done {n : Nat} {head : View} : 0 < n → LongestRun accepts v.symbols n → (policy = .streaming → n < v.length) →
    (v.take n).SameStretch head →
      SameRun accepts policy v (.done (v.drop n) (.view (v.take n))) (.done (v.drop n) (.view head))
  | failed : LongestRun accepts v.symbols 0 → (policy = .streaming → 0 < v.length) →
    SameRun accepts policy v (.failed ⟨⟨.predicateFailed, v.start, none, none⟩, []⟩)
      (.failed ⟨⟨.charMismatch, v.start, none, none⟩, [⟨.repetition, v.start, none, none⟩]⟩)
  | incomplete : policy = .streaming → (∀ s ∈ v.symbols, accepts s = true) →
    SameRun accepts policy v (.incomplete (.exact (.int 1))) (.incomplete (.exact (.int 1)))

theorem SameRun.exists_done {accepts : Symbol → Bool} {policy : Policy} {v rest taken : View} {o : Outcome Value}
    (h : SameRun accepts policy v (.done rest (.view taken)) o) :
    ∃ head, o = .done rest (.view head) ∧ taken.SameStretch head := by
  cases h with
  | done _ _ _ hstretch => exact ⟨_, rfl, hstretch⟩

section
variable {test : ValueTest} {accepts : Symbol → Bool} {policy : Policy} {v : View} {n : Nat}

/-- Behind a run the next symbol fails the test, or a final input ends. -/
theorem satisfy_fails_behind (defs : Definitions) (item : String)
    (htest : ∀ s ∈ v.symbols, test s.toValue = .ok (accepts s))
    (hrun : LongestRun accepts v.symbols n) (hend : policy = .streaming → n < v.length) :
    (satisfy test item policy).Yields defs (v.after n) (.ok (.failAt .charMismatch (v.after n))) := by
  cases hs : (v.after n).symbol? 0 with
  | some s =>
    have hget := (v.symbol?_after n).symm.trans hs
    have hone := satisfy_of_symbol defs item policy hs (htest s (List.mem_of_getElem? hget))
    rwa [hrun.rejects hget, if_neg Bool.false_ne_true] at hone
  | none =>
    have hnone := satisfy_of_none defs item policy test hs
    cases policy with
    | complete => exact hnone
    | streaming =>
      have hle := hend rfl
      rw [View.symbol?_after, List.getElem?_eq_none_iff, View.length_symbols] at hs
      omega

theorem takeWhile1_same_run (htest : ∀ s ∈ v.symbols, test s.toValue = .ok (accepts s)) (name item : String)
    (policy : Policy) : ∃ o o', (takeWhile1 test name policy).Yields defs v (.ok o) ∧
      (recognize (many1 (satisfy test item policy))).Yields defs v (.ok o') ∧ SameRun accepts policy v o o' := by
  obtain ⟨n, hn, hrun⟩ := Primitive.exists_leading htest
  have hle : n ≤ v.length := by rw [← View.length_symbols]; exact hrun.le
  have hwhile := yields_primitive defs (.run name (fun s => test s.toValue) policy) v
  rw [Primitive.parse, Primitive.parseRun_of_ok hn] at hwhile
  have hadvances := advances_satisfy defs item policy htest (fun i s hi hs => hrun.accepts_of_lt hi hs) hle
  by_cases hend : n = v.length ∧ policy = .streaming
  · -- all symbols pass, and more may come
    rw [if_pos hend, Primitive.missing_of_pos Nat.one_pos] at hwhile
    obtain ⟨rfl, rfl⟩ := hend
    have hnone : (v.after v.length).symbol? 0 = none := by simp [View.symbol?_after]
    have hmany := yields_many1_of_incomplete hadvances (satisfy_of_none defs item .streaming test hnone)
    rw [← View.length_symbols] at hrun
    exact ⟨_, _, hwhile, hmany.recognize, .incomplete rfl hrun.all_of_length⟩
  · have hstreaming : policy = .streaming → n < v.length := fun hp => Nat.lt_of_le_of_ne hle fun hn => hend ⟨hn, hp⟩
    have hmany := yields_many1_of_failed hadvances (satisfy_fails_behind defs item htest hrun hstreaming)
    have hlength : ((v.symbols.take n).map Symbol.toValue).length = n := by simp [hle]
    rw [if_neg hend] at hwhile
    rw [hlength] at hmany
    cases n with
    | zero => exact ⟨_, _, hwhile, hmany.recognize, .failed hrun hstreaming⟩
    | succ n =>
      rw [if_neg (Nat.succ_ne_zero n), Primitive.consume_of_le hle] at hwhile
      obtain ⟨head, hhead, hstretch⟩ := hmany.recognize_after hle
      exact ⟨_, _, hwhile, hhead, .done (Nat.succ_pos n) hrun hstreaming hstretch⟩

end

/-- Where its test raises no error, a run of symbols is what is recognized of the repetition of one symbol: the longest
beginning of symbols that pass, with the same request for more where it could still grow. Only the chains of their
failures differ. A run up to a symbol that passes is the run of those that do not. -/
theorem run_recognizes_many1 (defs : Definitions) {test : ValueTest} {accepts : Symbol → Bool} {v : View}
    (htest : ∀ s ∈ v.symbols, test s.toValue = .ok (accepts s)) (name item : String) (policy : Policy) :
    (∃ o o', (takeWhile1 test name policy).Yields defs v (.ok o) ∧
      (recognize (many1 (satisfy test item policy))).Yields defs v (.ok o') ∧ SameRun accepts policy v o o') ∧
    ∃ o o', (takeTill1 test name policy).Yields defs v (.ok o) ∧
      (recognize (many1 (satisfy (ValueTest.negated test) item policy))).Yields defs v (.ok o') ∧
        SameRun (fun s => !accepts s) policy v o o' := by
  refine ⟨takeWhile1_same_run htest name item policy, ?_⟩
  have hnegated : ∀ s ∈ v.symbols, ValueTest.negated test s.toValue = .ok (!accepts s) := by
    intro s hs
    rw [ValueTest.negated, htest s hs]
    rfl
  exact takeWhile1_same_run hnegated name item policy

def isFigure : ValueTest := ValueTest.isUnitOf (.text ['0', '1', '2'])

theorem run_recognizes_many1_figureLine :
    (∀ s ∈ figureLine.symbols, isFigure s.toValue = .ok (Alphabet.holds Alphabet.digits s)) ∧
    (∃ head, (recognize (many1 (satisfy isFigure "figure" .streaming))).Yields noDefinitions figureLine
      (.ok (.done (figureLine.drop 2) (.view head))) ∧ (figureLine.take 2).SameStretch head) ∧
    (recognize (many1 (satisfy (ValueTest.negated isFigure) "other" .complete))).Yields noDefinitions figureLine
      (.ok (.failed ⟨⟨.charMismatch, .ofNat 0, none, none⟩, [⟨.repetition, .ofNat 0, none, none⟩]⟩)) := by
  have htest : ∀ s ∈ figureLine.symbols, isFigure s.toValue = .ok (Alphabet.holds Alphabet.digits s) := by
    decide +kernel
  have hrun : (takeWhile1 isFigure "figures" .streaming).Yields noDefinitions figureLine
      (.ok (.done (figureLine.drop 2) (.view (figureLine.take 2)))) := .of_result (n := 1) (by decide +kernel)
  have hnone : (takeTill1 isFigure "others" .complete).Yields noDefinitions figureLine
      (.ok (.failAt .predicateFailed figureLine)) := .of_result (n := 1) (by decide +kernel)
  obtain ⟨⟨o, o', ho, ho', hsame⟩, -⟩ := run_recognizes_many1 noDefinitions htest "figures" "figure" .streaming
  obtain ⟨-, p, p', hp, hp', hsame'⟩ := run_recognizes_many1 noDefinitions htest "others" "other" .complete
  cases ho.unique hrun
  cases hp.unique hnone
  obtain ⟨head, rfl, hstretch⟩ := hsame.exists_done
  refine ⟨htest, ⟨head, ho', hstretch⟩, ?_⟩
  cases hsame' with
  | failed => exact hp'

end Grammar
end StreamGrammar
