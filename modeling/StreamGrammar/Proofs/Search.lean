import StreamGrammar.View.Search

/-! # What the questions about a literal mean

For a literal of the kind of the view, `View.startsWith` and `View.find` are questions about the symbols
of the view alone, whatever holds them: a window is answered by comparing or searching a copy, any other
buffer at absolute offsets, and the two ways agree. -/

namespace StreamGrammar

/-! ### Lists of symbols -/

theorem commonLength_eq_right_iff (ss ts : List Symbol) :
    commonLength ss ts = ts.length ↔ ts <+: ss := by
  induction ss generalizing ts with
  | nil => cases ts <;> simp [commonLength]
  | cons s ss ih =>
    cases ts with
    | nil => simp [commonLength]
    | cons t ts =>
      by_cases h : s = t
      · simp [commonLength, h, ih]
      · simp [commonLength, h, Ne.symm h]

theorem commonLength_eq_left_iff (ss ts : List Symbol) :
    commonLength ss ts = ss.length ↔ ss <+: ts := by
  induction ss generalizing ts with
  | nil => simp [commonLength]
  | cons s ss ih =>
    cases ts with
    | nil => simp [commonLength]
    | cons t ts =>
      by_cases h : s = t
      · simp [commonLength, h, ih]
      · simp [commonLength, h]

theorem firstOccurrence_eq_some_iff {literal ss : List Symbol} {i : Nat} :
    firstOccurrence literal ss = some i ↔
      literal <+: ss.drop i ∧ ∀ j < i, ¬ literal <+: ss.drop j := by
  induction ss generalizing i with
  | nil =>
    by_cases h : literal = []
    · subst h
      cases i with
      | zero => simp [firstOccurrence]
      | succ i =>
        refine ⟨fun h0 => (nomatch h0), fun hi => ?_⟩
        exact absurd List.nil_prefix (hi.2 0 (Nat.succ_pos i))
    · simp [firstOccurrence, h]
  | cons s ss ih =>
    by_cases h : literal <+: s :: ss
    · cases i with
      | zero => simp [firstOccurrence, h]
      | succ i =>
        simp only [firstOccurrence, List.isPrefixOf_iff_prefix, h, if_true, Option.some.injEq]
        exact ⟨fun h0 => (nomatch h0), fun hi => absurd h (hi.2 0 (Nat.succ_pos i))⟩
    · cases i with
      | zero => simp [firstOccurrence, h]
      | succ i =>
        simp only [firstOccurrence, List.isPrefixOf_iff_prefix, h, if_false, Option.map_eq_some_iff,
          Nat.add_right_cancel_iff, exists_eq_right, ih, List.drop_succ_cons]
        refine and_congr_right fun _ => ⟨fun hj j hlt => ?_, fun hj j hlt => ?_⟩
        · cases j with
          | zero => exact h
          | succ j => exact hj j (by omega)
        · exact hj (j + 1) (by omega)

theorem firstOccurrence_eq_none_iff {literal ss : List Symbol} :
    firstOccurrence literal ss = none ↔ ∀ i, ¬ literal <+: ss.drop i := by
  constructor
  · intro h i hi
    -- the least index at which the literal stands would be found
    have hex : ∃ i, literal <+: ss.drop i := ⟨i, hi⟩
    induction i using Nat.strongRecOn with
    | _ i ih =>
      by_cases hj : ∃ j < i, literal <+: ss.drop j
      · obtain ⟨j, hlt, hj⟩ := hj
        exact ih j hlt hj
      · have := firstOccurrence_eq_some_iff.2 ⟨hi, fun j hlt hp => hj ⟨j, hlt, hp⟩⟩
        rw [h] at this
        cases this
  · intro h
    cases hf : firstOccurrence literal ss with
    | none => rfl
    | some i => exact absurd (firstOccurrence_eq_some_iff.1 hf).1 (h i)

theorem firstOccurrence_add_length_le {literal ss : List Symbol} {i : Nat}
    (h : firstOccurrence literal ss = some i) : i + literal.length ≤ ss.length := by
  obtain ⟨hp, hmin⟩ := firstOccurrence_eq_some_iff.1 h
  have hlen := hp.length_le
  rw [List.length_drop] at hlen
  by_cases hi : i ≤ ss.length
  · omega
  · -- beyond the end only the empty literal stands, which stands at the end too
    have h0 : literal = [] := List.eq_nil_of_length_eq_zero (by omega)
    exact absurd (h0 ▸ List.nil_prefix) (hmin ss.length (by omega))

/-- The first occurrence stays the first when symbols are added behind. -/
theorem firstOccurrence_append {literal ss : List Symbol} {i : Nat}
    (h : firstOccurrence literal ss = some i) (ts : List Symbol) :
    firstOccurrence literal (ss ++ ts) = some i := by
  have hin := firstOccurrence_add_length_le h
  obtain ⟨hp, hmin⟩ := firstOccurrence_eq_some_iff.1 h
  have hdrop : ∀ j ≤ i, (ss ++ ts).drop j = ss.drop j ++ ts :=
    fun j hj => List.drop_append_of_le_length (by omega)
  refine firstOccurrence_eq_some_iff.2 ⟨?_, fun j hj hpj => hmin j hj ?_⟩
  · rw [hdrop i (Nat.le_refl i)]
    exact hp.trans (List.prefix_append _ _)
  · rw [hdrop j (Nat.le_of_lt hj)] at hpj
    refine List.prefix_of_prefix_length_le hpj (List.prefix_append _ _) ?_
    rw [List.length_drop]
    omega

namespace View
variable {v : View} {literal : Chunk}

theorem prefix_symbols_iff (v : View) (ss : List Symbol) :
    ss <+: v.symbols ↔ v.offset + ss.length ≤ v.stop ∧ ss <+: v.buffer.symbols.drop v.offset := by
  rw [symbols, List.prefix_take_iff, stop, Nat.add_le_add_iff_left, and_comm]

/-- The count covers the literal exactly where the view begins with it. -/
theorem commonPrefixLength_beq (v : View) (literal : Chunk) :
    (v.commonPrefixLength literal == literal.length) = literal.symbols.isPrefixOf v.symbols := by
  rw [commonPrefixLength_eq, Bool.eq_iff_iff, beq_iff_eq, List.isPrefixOf_iff_prefix, ← commonLength_eq_right_iff,
    Chunk.length_symbols]

/-- So does the buffer when it is asked between the ends of the view. -/
theorem beginsAt_eq (v : View) (literal : Chunk) :
    v.buffer.content.beginsAt literal v.offset v.stop = literal.symbols.isPrefixOf v.symbols := by
  rw [Bool.eq_iff_iff, Chunk.beginsAt_iff, List.isPrefixOf_iff_prefix, prefix_symbols_iff, Chunk.length_symbols]
  rfl

theorem startsWith_eq (h : literal.kind = v.kind) :
    v.startsWith literal = .ok (literal.symbols.isPrefixOf v.symbols) := by
  have hk : v.sameKind literal.kind = true := by simp [sameKind, h]
  rw [startsWith, if_pos hk, commonPrefixLength_beq, beginsAt_eq, ite_self]
  split
  · next hlt =>
    refine congrArg Except.ok (Bool.eq_iff_iff.2 ⟨fun hf => (nomatch hf), fun hp => ?_⟩)
    have hle := (List.isPrefixOf_iff_prefix.1 hp).length_le
    rw [length_symbols, Chunk.length_symbols] at hle
    omega
  · rfl

/-- An occurrence in the buffer that ends within the view is one in the view. -/
theorem prefix_drop_symbols_iff {i : Nat} (hi : i ≤ v.length) (ss : List Symbol) :
    ss <+: v.symbols.drop i ↔
      v.offset + i + ss.length ≤ v.stop ∧ ss <+: v.buffer.symbols.drop (v.offset + i) := by
  have h := prefix_symbols_iff (v.drop i) ss
  simpa only [symbols_drop, stop_drop, offset_drop, Nat.min_eq_left hi, buffer_drop] using h

theorem findBetween_eq_some_iff {k : Nat} :
    v.buffer.content.findBetween literal v.offset v.stop = some k ↔
      v.offset ≤ k ∧ firstOccurrence literal.symbols v.symbols = some (k - v.offset) := by
  rw [Chunk.findBetween, List.find?_range'_eq_some, firstOccurrence_eq_some_iff]
  simp only [List.mem_range'_1, Bool.and_eq_true, decide_eq_true_eq, List.isPrefixOf_iff_prefix,
    Bool.not_eq_true', ← Bool.not_eq_true]
  have hstop : v.stop = v.offset + v.length := rfl
  have hat : ∀ i ≤ v.length, literal.symbols <+: v.symbols.drop i ↔
      v.offset + i + literal.symbols.length ≤ v.stop ∧
        literal.symbols <+: v.buffer.content.symbols.drop (v.offset + i) :=
    fun i hi => prefix_drop_symbols_iff hi literal.symbols
  constructor
  · rintro ⟨⟨hend, hp⟩, ⟨hle, -⟩, hmin⟩
    have hk : v.offset + (k - v.offset) = k := by omega
    refine ⟨hle, (hat _ (by omega)).2 (by rw [hk]; exact ⟨hend, hp⟩), fun j hj hpj => ?_⟩
    exact hmin (v.offset + j) (by omega) (by omega) ((hat j (by omega)).1 hpj)
  · rintro ⟨hle, hp, hmin⟩
    have hk : v.offset + (k - v.offset) = k := by omega
    have hin := firstOccurrence_add_length_le (firstOccurrence_eq_some_iff.2 ⟨hp, hmin⟩)
    rw [length_symbols] at hin
    obtain ⟨hend', hp'⟩ := (hat _ (by omega)).1 hp
    rw [hk] at hend' hp'
    refine ⟨⟨hend', hp'⟩, ⟨hle, by omega⟩, fun j hj hlt hpj => ?_⟩
    refine hmin (j - v.offset) (by omega) ((hat _ (by omega)).2 ?_)
    rw [show v.offset + (j - v.offset) = j by omega]
    exact hpj

/-- The search at absolute offsets, told as an index in the view. -/
theorem map_findBetween (v : View) (literal : Chunk) :
    (v.buffer.content.findBetween literal v.offset v.stop).map (· - v.offset) =
      firstOccurrence literal.symbols v.symbols := by
  refine Option.ext fun i => ?_
  rw [Option.map_eq_some_iff]
  constructor
  · rintro ⟨k, hk, rfl⟩
    exact (findBetween_eq_some_iff.1 hk).2
  · intro hi
    refine ⟨v.offset + i, findBetween_eq_some_iff.2 ⟨Nat.le_add_right _ _, ?_⟩, by omega⟩
    rwa [Nat.add_sub_cancel_left]

theorem find_eq (h : literal.kind = v.kind) :
    v.find literal = .ok (firstOccurrence literal.symbols v.symbols) := by
  have hk : v.sameKind literal.kind = true := by simp [sameKind, h]
  rw [find, hk, symbols_fragment, map_findBetween, ite_self]
  rfl

end View
end StreamGrammar
