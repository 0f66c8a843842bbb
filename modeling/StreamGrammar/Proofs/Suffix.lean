import StreamGrammar.View.Basic

/-! # Suffixes of views

`View.SuffixOf`: what is left of a view after some of its first symbols. The checked operations never
refuse a count that the view has, and what lies between the start of a view and a suffix of it is
exactly what the suffix leaves out. -/

namespace StreamGrammar
namespace View

/-! ### Checked operations -/

theorem eq_of_parts {v w : View} (hb : v.buffer = w.buffer) (hs : v.start = w.start)
    (hl : v.length = w.length) : v = w := by
  cases v; cases w
  simp_all

theorem advance_of_le {v : View} {n : Nat} (h : n ≤ v.length) : v.advance n = .ok (v.drop n) :=
  if_pos ⟨Int.natCast_nonneg n, Int.ofNat_le.2 h⟩

theorem slice_zero_of_le {v : View} {n : Nat} (h : n ≤ v.length) :
    v.slice 0 (some n) = .ok (v.take n) := by
  refine (if_pos ⟨Int.le_refl 0, Int.natCast_nonneg n, Int.ofNat_le.2 h⟩).trans
    (congrArg Except.ok (eq_of_parts rfl ?_ ?_))
  · show Position.ofNat (v.offset + min 0 v.length) = Position.ofNat v.offset
    rw [Nat.zero_min, Nat.add_zero]
  · show min ((n : Int) - 0).toNat v.length = min n v.length
    rw [Int.sub_zero, Int.toNat_natCast]

theorem splitAt_of_le {v : View} {n : Nat} (h : n ≤ v.length) :
    v.splitAt n = .ok (v.take n, v.drop n) := by
  rw [splitAt, slice_zero_of_le h, advance_of_le h]
  rfl

/-! ### Suffixes -/

/-- `rest` is a view of the same buffer that starts within `v` or at its end, and ends where `v` ends. -/
structure SuffixOf (rest v : View) : Prop where
  buffer : rest.buffer = v.buffer
  offset_le : v.offset ≤ rest.offset
  stop : rest.stop = v.stop

namespace SuffixOf
variable {v w rest : View}

theorem refl (v : View) : v.SuffixOf v := ⟨rfl, Nat.le_refl _, rfl⟩

theorem trans (h : w.SuffixOf v) (h' : rest.SuffixOf w) : rest.SuffixOf v :=
  ⟨h'.buffer.trans h.buffer, Nat.le_trans h.offset_le h'.offset_le, h'.stop.trans h.stop⟩

theorem drop (v : View) (n : Nat) : (v.drop n).SuffixOf v :=
  ⟨rfl, by simp, by simp⟩

theorem kind (h : rest.SuffixOf v) : rest.kind = v.kind := by
  rw [View.kind, View.kind, h.buffer]

theorem offset_le_stop (h : rest.SuffixOf v) : rest.offset ≤ v.stop := by
  rw [← h.stop]
  exact Nat.le_add_right _ _

theorem length_add (h : rest.SuffixOf v) : (rest.offset - v.offset) + rest.length = v.length := by
  have hs := h.stop
  have hle := h.offset_le
  simp only [View.stop] at hs
  omega

theorem length_le (h : rest.SuffixOf v) : rest.length ≤ v.length := by
  have := h.length_add
  omega

theorem symbols (h : rest.SuffixOf v) : rest.symbols = v.symbols.drop (rest.offset - v.offset) := by
  have hs := h.length_add
  have hle := h.offset_le
  have hl : v.length - (rest.offset - v.offset) = rest.length := by omega
  have ho : v.offset + (rest.offset - v.offset) = rest.offset := by omega
  simp only [View.symbols, List.drop_take, List.drop_drop, hl, ho, h.buffer]

/-- Of two suffixes of one view, the one that starts later is a suffix of the other. -/
theorem of_le (h : w.SuffixOf v) (h' : rest.SuffixOf v) (hle : w.offset ≤ rest.offset) :
    rest.SuffixOf w :=
  ⟨h'.buffer.trans h.buffer.symm, hle, h'.stop.trans h.stop.symm⟩

/-- What lies before a suffix is a view, and its symbols are those that the suffix leaves out. -/
theorem consumedUntil (h : rest.SuffixOf v) :
    ∃ head, v.consumedUntil rest = .ok head ∧ head.buffer = v.buffer ∧ head.start = v.start ∧
      head.stop = rest.offset ∧ head.symbols ++ rest.symbols = v.symbols := by
  have hcond : rest.buffer.source = v.buffer.source ∧ v.offset ≤ rest.offset ∧ rest.stop = v.stop :=
    ⟨by rw [h.buffer], h.offset_le, h.stop⟩
  have hl := h.length_add
  have hle := h.offset_le
  refine ⟨_, dif_pos hcond, rfl, rfl, ?_, ?_⟩
  · show v.offset + (rest.offset - v.offset) = rest.offset
    omega
  · rw [h.symbols]
    have hhead : (v.buffer.symbols.drop v.offset).take (rest.offset - v.offset) =
        v.symbols.take (rest.offset - v.offset) := by
      rw [View.symbols, List.take_take, Nat.min_eq_left (by omega)]
    exact (congrArg (· ++ _) hhead).trans (List.take_append_drop _ _)

end SuffixOf

theorem consumedUntil_of_lt {v rest : View} (h : rest.offset < v.offset) :
    v.consumedUntil rest = .error .notASuffix :=
  dif_neg fun hc => absurd hc.2.1 (Nat.not_le.2 h)

/-! ### Suffixes at the same offset -/

section
variable {u w v v' r r' : View}

theorem start_of_suffixes (hv : v.SuffixOf u ∧ v'.SuffixOf w ∧ v.offset = v'.offset) :
    v.start.toNat = v'.start.toNat := hv.2.2

theorem moves_iff_of_suffixes (hv : v.SuffixOf u ∧ v'.SuffixOf w ∧ v.offset = v'.offset)
    (hr : r.SuffixOf u ∧ r'.SuffixOf w ∧ r.offset = r'.offset) : r.offset = v.offset ↔ r'.offset = v'.offset := by
  rw [hv.2.2, hr.2.2]

end

end View
end StreamGrammar
