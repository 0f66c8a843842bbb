import StreamGrammar.Proofs.Splitting

/-! # Looking up a literal in two ways

A window is compared symbol by symbol and searched in a copy, any other buffer is asked at absolute offsets. Which of the
two is taken cannot be told from the answers: on every view both come to the same (`View.commonPrefixLength_beq`,
`View.beginsAt_eq`, `View.map_findBetween`). The answers fit together, too. Each of them is a statement about prefixes of
what the view shows, so counting, comparing and searching decide one another (`View.lookups_coherent`). -/

namespace StreamGrammar

/-! ### The longest common beginning -/

/-- Some list of length `n` begins both lists, and no longer one does. -/
structure LongestCommon (ss ts : List Symbol) (n : Nat) : Prop where
  exists_common : ∃ common, common <+: ss ∧ common <+: ts ∧ common.length = n
  longest : ∀ common, common <+: ss → common <+: ts → common.length ≤ n

namespace LongestCommon
variable {s t : Symbol} {ss ts : List Symbol} {n : Nat}

theorem nil_left (ts : List Symbol) : LongestCommon [] ts 0 :=
  ⟨⟨[], List.nil_prefix, List.nil_prefix, rfl⟩, fun _ h _ => h.length_le⟩

theorem nil_right (ss : List Symbol) : LongestCommon ss [] 0 :=
  ⟨⟨[], List.nil_prefix, List.nil_prefix, rfl⟩, fun _ _ h => h.length_le⟩

theorem of_ne (h : s ≠ t) (ss ts : List Symbol) : LongestCommon (s :: ss) (t :: ts) 0 := by
  refine ⟨⟨[], List.nil_prefix, List.nil_prefix, rfl⟩, fun common hs ht => ?_⟩
  cases common with
  | nil => exact Nat.le_refl 0
  | cons u us => exact absurd ((List.cons_prefix_cons.1 hs).1.symm.trans (List.cons_prefix_cons.1 ht).1) h

theorem cons (h : LongestCommon ss ts n) (s : Symbol) : LongestCommon (s :: ss) (s :: ts) (n + 1) := by
  obtain ⟨common, hs, ht, hlength⟩ := h.exists_common
  refine ⟨⟨s :: common, List.cons_prefix_cons.2 ⟨rfl, hs⟩, List.cons_prefix_cons.2 ⟨rfl, ht⟩,
    congrArg Nat.succ hlength⟩, fun common hs ht => ?_⟩
  cases common with
  | nil => exact Nat.zero_le _
  | cons u us =>
    exact Nat.succ_le_succ (h.longest us (List.cons_prefix_cons.1 hs).2 (List.cons_prefix_cons.1 ht).2)

end LongestCommon

theorem longestCommon_commonLength : ∀ ss ts, LongestCommon ss ts (commonLength ss ts)
  | [], ts => .nil_left ts
  | s :: ss, [] => .nil_right (s :: ss)
  | s :: ss, t :: ts => by
    rw [commonLength]
    split
    · next h =>
      subst h
      exact (longestCommon_commonLength ss ts).cons s
    · next h => exact .of_ne h ss ts

/-! ### First occurrences -/

theorem firstOccurrence_eq_some_iff_firstAt {literal ss : List Symbol} {i : Nat} :
    firstOccurrence literal ss = some i ↔ FirstAt literal ss i :=
  ⟨.of_firstOccurrence, fun h => firstOccurrence_eq_some_iff.2 ⟨h.stands, h.least⟩⟩

theorem firstAt_zero_iff {literal ss : List Symbol} : FirstAt literal ss 0 ↔ literal <+: ss :=
  ⟨fun h => h.stands, fun h => ⟨h, fun _ hj => absurd hj (Nat.not_lt_zero _)⟩⟩

theorem exists_firstAt_iff {literal ss : List Symbol} : (∃ i, FirstAt literal ss i) ↔ literal <:+: ss := by
  constructor
  · rintro ⟨i, hi⟩
    exact hi.isInfix
  · intro hoccurs
    cases h : firstOccurrence literal ss with
    | some i => exact ⟨i, .of_firstOccurrence h⟩
    | none => exact absurd hoccurs (not_infix_of_firstOccurrence h)

namespace View
variable {v : View} {literal : Chunk} {i j : Nat}

/-! ### The answers -/

theorem startsWith_eq_true_iff (hk : literal.kind = v.kind) :
    v.startsWith literal = .ok true ↔ literal.symbols <+: v.symbols := by
  rw [startsWith_eq hk, Except.ok.injEq, List.isPrefixOf_iff_prefix]

theorem find_eq_some_iff (hk : literal.kind = v.kind) :
    v.find literal = .ok (some i) ↔ FirstAt literal.symbols v.symbols i := by
  rw [find_eq hk, Except.ok.injEq, firstOccurrence_eq_some_iff_firstAt]

/-- What is left behind the first symbols can be asked in the same way. -/
theorem exists_advance_startsWith (hk : literal.kind = v.kind) (hj : j ≤ v.length) :
    ∃ w, v.advance j = .ok w ∧ w.startsWith literal = .ok (literal.symbols.isPrefixOf (v.symbols.drop j)) := by
  have hkind : literal.kind = (v.drop j).kind := hk
  refine ⟨v.drop j, advance_of_le hj, ?_⟩
  rw [startsWith_eq hkind, symbols_drop]

theorem le_length_of_find (hk : literal.kind = v.kind) (h : v.find literal = .ok (some i)) : i ≤ v.length := by
  have hin := ((find_eq_some_iff hk).1 h).add_length_le
  rw [length_symbols] at hin
  omega

/-- The literal stands where it is found. -/
theorem exists_advance_of_find (hk : literal.kind = v.kind) (h : v.find literal = .ok (some i)) :
    ∃ w, v.advance i = .ok w ∧ w.startsWith literal = .ok true := by
  have hstands := ((find_eq_some_iff hk).1 h).stands
  have hanswer := exists_advance_startsWith hk (le_length_of_find hk h)
  rwa [List.isPrefixOf_iff_prefix.2 hstands] at hanswer

/-- It stands nowhere before. -/
theorem exists_advance_before_find (hk : literal.kind = v.kind) (h : v.find literal = .ok (some i)) (hj : j < i) :
    ∃ w, v.advance j = .ok w ∧ w.startsWith literal = .ok false := by
  have hleast := ((find_eq_some_iff hk).1 h).least j hj
  have hanswer := exists_advance_startsWith hk (Nat.le_trans (Nat.le_of_lt hj) (le_length_of_find hk h))
  rwa [Bool.eq_false_iff.2 (mt List.isPrefixOf_iff_prefix.1 hleast)] at hanswer

/-- What the questions about a literal come to on a view. -/
structure Coherent (v : View) (literal : Chunk) : Prop where
  /-- The count is as long as a common beginning can be. -/
  common : LongestCommon v.symbols literal.symbols (v.commonPrefixLength literal)
  /-- Readers that show nothing outside the view and the literal are enough for it. -/
  inside : ∀ inBuffer inLiteral : Nat → Option Symbol,
    (∀ p, v.offset ≤ p → p < v.stop → inBuffer p = v.buffer.content.get? p) →
    (∀ n < literal.length, inLiteral n = literal.get? n) →
      v.sharedBy inBuffer inLiteral literal.length = some (v.commonPrefixLength literal)
  begins : v.startsWith literal = .ok true ↔ literal.symbols <+: v.symbols
  /-- Comparing symbol by symbol and asking the buffer at absolute offsets give one answer. -/
  compared : v.startsWith literal = .ok (v.commonPrefixLength literal == literal.length)
  asked : v.startsWith literal = .ok (v.buffer.content.beginsAt literal v.offset v.stop)
  occurs : (∃ i, v.find literal = .ok (some i)) ↔ literal.symbols <:+: v.symbols
  /-- So do searching a copy and searching the buffer between absolute offsets. -/
  copied : v.find literal = .ok (firstOccurrence literal.symbols v.fragment.symbols)
  searched : v.find literal = .ok ((v.buffer.content.findBetween literal v.offset v.stop).map (· - v.offset))
  atStart : v.startsWith literal = .ok true ↔ v.find literal = .ok (some 0)
  found : ∀ i : Nat, v.find literal = .ok (some i) → ∃ w, v.advance i = .ok w ∧ w.startsWith literal = .ok true
  notBefore : ∀ i j : Nat, v.find literal = .ok (some i) → j < i →
    ∃ w, v.advance j = .ok w ∧ w.startsWith literal = .ok false

/-- For a literal of the kind of the view, possibly empty, the count of common symbols is that of the longest common
beginning, and nothing outside the view and the literal is looked at for it. The view begins with the literal exactly if
the count covers the literal, and exactly if it is found at once. It is found exactly if it occurs, and then first where
it is found. None of this depends on how the buffer is held. -/
theorem lookups_coherent (v : View) {literal : Chunk} (hk : literal.kind = v.kind) : v.Coherent literal where
  common := by
    rw [commonPrefixLength_eq]
    exact longestCommon_commonLength v.symbols literal.symbols
  inside _ _ hbuffer hliteral := by
    rw [sharedBy_eq v hbuffer hliteral, commonPrefixLength_eq]
  begins := startsWith_eq_true_iff hk
  compared := by rw [startsWith_eq hk, commonPrefixLength_beq]
  asked := by rw [startsWith_eq hk, beginsAt_eq]
  occurs := by
    simp only [find_eq_some_iff hk]
    exact exists_firstAt_iff
  copied := by rw [find_eq hk, symbols_fragment]
  searched := by rw [find_eq hk, map_findBetween]
  atStart := by rw [startsWith_eq_true_iff hk, find_eq_some_iff hk, firstAt_zero_iff]
  found _ := exists_advance_of_find hk
  notBefore _ _ := exists_advance_before_find hk

def twoBytes : Chunk := .bytes .growable [1, 2]

/-- An occurrence before the view, a false start and an occurrence in it, and one that only begins in it. -/
def fourBytes : View := ⟨⟨0, .bytes .window [1, 2, 1, 1, 2, 1, 2]⟩, .ofNat 2, 4, by decide⟩

/-- What the view shows at an absolute offset, and nothing outside. -/
def shownAt (v : View) (p : Nat) : Option Symbol :=
  if v.offset ≤ p ∧ p < v.stop then v.buffer.content.get? p else none

theorem lookups_coherent_fourBytes :
    twoBytes.kind = fourBytes.kind ∧ fourBytes.find twoBytes = .ok (some 1) ∧
      fourBytes.sharedBy fourBytes.shownAt twoBytes.get? 2 = some (fourBytes.commonPrefixLength twoBytes) ∧
      fourBytes.startsWith twoBytes = .ok (fourBytes.buffer.content.beginsAt twoBytes 2 6) ∧
      (∃ w, fourBytes.advance 1 = .ok w ∧ w.startsWith twoBytes = .ok true) ∧
      ∃ w, fourBytes.advance 0 = .ok w ∧ w.startsWith twoBytes = .ok false := by
  have hk : twoBytes.kind = fourBytes.kind := rfl
  have hfind : fourBytes.find twoBytes = .ok (some 1) := by decide
  have h := lookups_coherent fourBytes hk
  have hinside := h.inside fourBytes.shownAt twoBytes.get? (fun _ hle hlt => if_pos ⟨hle, hlt⟩) fun _ _ => rfl
  exact ⟨hk, hfind, hinside, h.asked, h.found 1 hfind, h.notBefore 1 0 hfind (by decide)⟩

end View
end StreamGrammar
