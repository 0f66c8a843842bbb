import StreamGrammar.Diagnostic
import StreamGrammar.Proofs.Stretches

/-! # Views as lists of symbols

Views are cut out of views, over and over, and each cut turns an index of the view into one of the buffer. What a view
denotes is a list of symbols, and every operation does to that list what its name says, where its arguments are within
bounds, and is refused elsewhere (`View.Refines`). The constructor of views accepts whatever an operation hands to it,
and however often a view is cut, what comes of it is a stretch of the first one (`View.cuts_refine`). -/

namespace StreamGrammar

/-- The operation succeeds where `p` holds, with a result as `q` says, and is refused by the fault `f` elsewhere, under
this label. -/
inductive Guarded {α : Type} (p : Prop) (f : ViewFault) (label : String) (q : α → Prop) : Except ViewFault α → Prop
  | ok {a : α} : p → q a → Guarded p f label q (.ok a)
  | error : ¬ p → (Fault.view f).label = label → Guarded p f label q (.error f)

namespace Guarded
variable {α : Type} {p : Prop} {f : ViewFault} {label : String} {q : α → Prop} {r : Except ViewFault α}

theorem of_ok {a : α} (h : Guarded p f label q (.ok a)) : p ∧ q a := by
  cases h with
  | ok hp hq => exact ⟨hp, hq⟩

theorem exists_ok (h : Guarded p f label q r) (hp : p) : ∃ a, r = .ok a ∧ q a := by
  cases h with
  | ok _ hq => exact ⟨_, rfl, hq⟩
  | error hnot => exact absurd hp hnot

theorem eq_error (h : Guarded p f label q r) (hnot : ¬ p) : r = .error f := by
  cases h with
  | ok hp => exact absurd hp hnot
  | error => rfl

end Guarded

namespace View

/-- The view has been cut out of `u`. -/
inductive Cut (u : View) : View → Prop
  | self : Cut u u
  | advance {v w : View} {count : Numeral} : Cut u v → v.advance count = .ok w → Cut u w
  | slice {v w : View} {start : Numeral} {stop : Option Numeral} : Cut u v → v.slice start stop = .ok w → Cut u w
  | head {v head rest : View} {count : Numeral} : Cut u v → v.splitAt count = .ok (head, rest) → Cut u head
  | rest {v head rest : View} {count : Numeral} : Cut u v → v.splitAt count = .ok (head, rest) → Cut u rest
  | consumed {v head rest : View} : Cut u v → v.consumedUntil rest = .ok head → Cut u head

variable {v w u head rest : View}

/-! ### The constructor -/

theorem written_toInt (v : View) : v.start.written.toInt = v.offset :=
  (Int.toNat_of_nonneg v.start.nonneg).symm

/-- The constructor accepts the parts of a view. -/
theorem of_eq_ok {offset : Numeral} {n : Int} (hoffset : w.start.written = offset) (hlength : (w.length : Int) = n) :
    of w.buffer offset (some (.int n)) = .ok w := by
  subst hoffset hlength
  have hfits := w.stop_le
  have hstart := w.written_toInt
  rw [View.stop] at hfits
  have hoffset : 0 ≤ w.start.written.toInt ∧ w.start.written.toInt ≤ w.buffer.length := by omega
  have hlength : 0 ≤ (Numeral.int w.length).toInt ∧
      w.start.written.toInt + (Numeral.int w.length).toInt ≤ w.buffer.length := by
    rw [Numeral.toInt_int]
    omega
  rw [of, dif_pos hoffset]
  dsimp only
  rw [dif_pos hlength]
  rfl

theorem buffer_of_eq_ok {b : Buffer} {offset : Numeral} {length : Option Numeral} (h : of b offset length = .ok w) :
    w.buffer = b := by
  rw [of] at h
  split at h
  · cases length with
    | none =>
      cases h
      rfl
    | some n =>
      dsimp only at h
      split at h
      · cases h
        rfl
      · cases h
  · cases h

/-- What the constructor makes has the parts that it was given. -/
theorem parts_of_eq_ok {b : Buffer} {offset : Numeral} {n : Int} (h : of b offset (some (.int n)) = .ok w) :
    w.buffer = b ∧ (w.offset : Int) = offset.toInt ∧ (w.length : Int) = n := by
  rw [of] at h
  split at h
  · next hoffset =>
    dsimp only at h
    split at h
    · next hlength =>
      cases h
      exact ⟨rfl, Int.toNat_of_nonneg hoffset.1, Int.toNat_of_nonneg hlength.1⟩
    · cases h
  · cases h

/-! ### Cutting -/

theorem guarded_advance (v : View) (n : Numeral) :
    Guarded (0 ≤ n.toInt ∧ n.toInt ≤ v.symbols.length) (.advanceOutside n v.length) "ValueError"
      (fun w => of v.buffer (.int (v.offset + n.toInt)) (some (.int (v.length - n.toInt))) = .ok w ∧
        w.symbols = v.symbols.drop n.toNat) (v.advance n) := by
  rw [length_symbols, advance]
  split
  · next hn =>
    have hcount : (n.toNat : Int) = n.toInt := Int.toNat_of_nonneg hn.1
    refine .ok hn ⟨of_eq_ok (w := v.drop n.toNat) ?_ ?_, v.symbols_drop _⟩
    · show Numeral.int ((v.offset + min n.toNat v.length : Nat) : Int) = .int (v.offset + n.toInt)
      congr 1
      omega
    · rw [length_drop]
      omega
  · next hn => exact .error hn rfl

theorem guarded_slice (v : View) (start : Numeral) (stop : Option Numeral) :
    Guarded (0 ≤ start.toInt ∧ start.toInt ≤ (stop.getD (.int v.length)).toInt ∧
        (stop.getD (.int v.length)).toInt ≤ v.symbols.length)
      (.sliceOutside start (stop.getD (.int v.length)) v.length) "ValueError"
      (fun w => of v.buffer (.int (v.offset + start.toInt))
          (some (.int ((stop.getD (.int v.length)).toInt - start.toInt))) = .ok w ∧
        w.symbols = (v.symbols.take (stop.getD (.int v.length)).toNat).drop start.toNat) (v.slice start stop) := by
  rw [length_symbols, slice]
  generalize stop.getD (.int v.length) = stop
  split
  · next hn =>
    have hstart : (start.toNat : Int) = start.toInt := Int.toNat_of_nonneg hn.1
    have hstop : (stop.toNat : Int) = stop.toInt := Int.toNat_of_nonneg (by omega)
    have hlength : (stop.toInt - start.toInt).toNat = stop.toNat - start.toNat := by omega
    refine .ok hn ⟨of_eq_ok (w := (v.drop start.toNat).take _) ?_ ?_, ?_⟩
    · show Numeral.int ((v.offset + min start.toNat v.length : Nat) : Int) = .int (v.offset + start.toInt)
      congr 1
      omega
    · rw [length_take, length_drop]
      omega
    · rw [symbols_take, symbols_drop, hlength, List.drop_take]
  · next hn => exact .error hn rfl

theorem splitAt_eq_ok_iff {n : Numeral} :
    v.splitAt n = .ok (head, rest) ↔ v.slice 0 (some n) = .ok head ∧ v.advance n = .ok rest := by
  rw [splitAt]
  constructor
  · intro h
    rcases hhead : v.slice 0 (some n) with f | head' <;> rw [hhead] at h
    · cases h
    rcases hrest : v.advance n with f | rest' <;> rw [hrest] at h <;> cases h
    exact ⟨rfl, rfl⟩
  · rintro ⟨hhead, hrest⟩
    rw [hhead, hrest]
    rfl

theorem guarded_splitAt (v : View) (n : Numeral) :
    Guarded (0 ≤ n.toInt ∧ n.toInt ≤ v.symbols.length) (.sliceOutside 0 n v.length) "ValueError"
      (fun p => of v.buffer (.int v.offset) (some (.int n.toInt)) = .ok p.1 ∧
        of v.buffer (.int (v.offset + n.toInt)) (some (.int (v.length - n.toInt))) = .ok p.2 ∧
          p.1.symbols = v.symbols.take n.toNat ∧ p.2.symbols = v.symbols.drop n.toNat ∧ p.1.stop = p.2.offset)
      (v.splitAt n) := by
  by_cases hn : 0 ≤ n.toInt ∧ n.toInt ≤ v.symbols.length
  · obtain ⟨head, hhead, hof, hsymbols⟩ := (v.guarded_slice 0 (some n)).exists_ok ⟨Int.le_refl 0, hn⟩
    obtain ⟨rest, hrest, hof', hsymbols'⟩ := (v.guarded_advance n).exists_ok hn
    have hzero : (0 : Numeral).toInt = 0 := rfl
    rw [hzero, Option.getD_some, Int.add_zero, Int.sub_zero] at hof
    obtain ⟨-, hoffset, hlength⟩ := parts_of_eq_ok hof
    obtain ⟨-, hoffset', -⟩ := parts_of_eq_ok hof'
    rw [Numeral.toInt_int] at hoffset hoffset'
    have hadjacent : head.stop = rest.offset := by
      rw [View.stop]
      omega
    rw [splitAt_eq_ok_iff.2 ⟨hhead, hrest⟩]
    exact .ok hn ⟨hof, hof', hsymbols, hsymbols', hadjacent⟩
  · -- the head is refused, before anything is advanced
    have hslice := (v.guarded_slice 0 (some n)).eq_error fun h => hn h.2
    rw [splitAt, hslice]
    exact .error hn rfl

theorem guarded_consumedUntil (v rest : View) :
    Guarded (rest.buffer.source = v.buffer.source ∧ v.offset ≤ rest.offset ∧ rest.stop = v.stop) .notASuffix
      "ValueError"
      (fun head => of v.buffer v.start.written (some (.int (rest.offset - v.offset))) = .ok head ∧
        head.symbols = v.symbols.take (rest.offset - v.offset)) (v.consumedUntil rest) := by
  rw [consumedUntil]
  split
  · next h =>
    refine .ok h ⟨of_eq_ok (w := ⟨v.buffer, v.start, rest.offset - v.offset, _⟩) rfl ?_, ?_⟩
    · show ((rest.offset - v.offset : Nat) : Int) = rest.offset - v.offset
      omega
    · have hstop := h.2.2
      rw [View.stop, View.stop] at hstop
      rw [symbols, symbols, List.take_take, Nat.min_eq_left (by omega)]
      rfl
  · next h => exact .error h rfl

/-! ### Looking at symbols -/

theorem guarded_unitAt (v : View) (i : Numeral) :
    Guarded (0 ≤ i.toInt ∧ i.toInt < v.symbols.length) (.unitOutside i v.length) "IndexError"
      (fun s => v.symbols[i.toNat]? = some s) (v.unitAt i) := by
  rw [unitAt, symbol?_eq_symbols]
  by_cases hneg : i.toInt < 0
  · rw [if_pos hneg]
    exact .error (by omega) rfl
  · have hindex : (i.toNat : Int) = i.toInt := Int.toNat_of_nonneg (by omega)
    rw [if_neg hneg]
    cases hs : v.symbols[i.toNat]? with
    | none =>
      rw [List.getElem?_eq_none_iff] at hs
      exact .error (by omega) rfl
    | some s =>
      obtain ⟨hlt, -⟩ := List.getElem?_eq_some_iff.1 hs
      exact .ok (by omega) rfl

/-- The symbols one after the other, each by its index. -/
def units (v : View) : Except ViewFault (List Symbol) :=
  (List.range v.length).mapM fun i : Nat => v.unitAt i

theorem mapM_range' {f : Nat → Except ViewFault Symbol} (ss : List Symbol) (k : Nat)
    (h : ∀ i s, ss[i]? = some s → f (k + i) = .ok s) : (List.range' k ss.length).mapM f = .ok ss := by
  induction ss generalizing k with
  | nil => rfl
  | cons s ss ih =>
    have hhead : f k = .ok s := h 0 s rfl
    have htail : (List.range' (k + 1) ss.length).mapM f = .ok ss := by
      refine ih (k + 1) fun i t ht => ?_
      rw [Nat.add_right_comm]
      exact h (i + 1) t ht
    rw [List.length_cons, List.range'_succ, List.mapM_cons, hhead]
    show (List.mapM f _ >>= _) = _
    rw [htail]
    rfl

theorem unitAt_of_symbol {i : Nat} {s : Symbol} (h : v.symbols[i]? = some s) : v.unitAt i = .ok s := by
  have hindex : ¬ (Numeral.int i).toInt < 0 := Int.not_lt.2 (Int.natCast_nonneg i)
  rw [unitAt, if_neg hindex, Numeral.toNat_int_natCast, symbol?_eq_symbols, h]

theorem units_eq (v : View) : v.units = .ok v.symbols := by
  rw [units, ← v.length_symbols, List.range_eq_range']
  refine mapM_range' v.symbols 0 fun i s hs => ?_
  rw [Nat.zero_add]
  exact unitAt_of_symbol hs

/-! ### Stretches of a view -/

/-- The view shows a part of what `u` shows. -/
structure Within (v u : View) : Prop where
  buffer : v.buffer = u.buffer
  offset_le : u.offset ≤ v.offset
  stop_le : v.stop ≤ u.stop

namespace Within

theorem refl (v : View) : v.Within v := ⟨rfl, Nat.le_refl _, Nat.le_refl _⟩

theorem trans (h : w.Within v) (h' : v.Within u) : w.Within u :=
  ⟨h.buffer.trans h'.buffer, Nat.le_trans h'.offset_le h.offset_le, Nat.le_trans h.stop_le h'.stop_le⟩

theorem drop (v : View) (n : Nat) : (v.drop n).Within v :=
  ⟨rfl, Nat.le_add_right _ _, Nat.le_of_eq (v.stop_drop n)⟩

theorem take (v : View) (n : Nat) : (v.take n).Within v :=
  ⟨rfl, Nat.le_refl _, Nat.add_le_add_left (Nat.min_le_right _ _) _⟩

theorem symbols (h : v.Within u) : v.symbols = (u.symbols.drop (v.offset - u.offset)).take v.length := by
  have hstop := h.stop_le
  have hoffset := h.offset_le
  rw [View.stop, View.stop] at hstop
  rw [View.symbols, View.symbols, h.buffer, List.drop_take, List.take_take, List.drop_drop,
    Nat.min_eq_left (by omega), Nat.add_sub_cancel' hoffset]

theorem of_advance {n : Numeral} (h : v.advance n = .ok w) : w.Within v := by
  rw [advance] at h
  split at h
  · cases h
    exact drop v _
  · cases h

theorem of_slice {start : Numeral} {stop : Option Numeral} (h : v.slice start stop = .ok w) : w.Within v := by
  rw [slice] at h
  split at h
  · cases h
    exact (take _ _).trans (drop v _)
  · cases h

theorem of_splitAt {n : Numeral} (h : v.splitAt n = .ok (head, rest)) : head.Within v ∧ rest.Within v := by
  obtain ⟨hhead, hrest⟩ := splitAt_eq_ok_iff.1 h
  exact ⟨of_slice hhead, of_advance hrest⟩

theorem of_consumedUntil (h : v.consumedUntil rest = .ok head) : head.Within v := by
  rw [consumedUntil] at h
  split at h
  · next hrest =>
    cases h
    refine ⟨rfl, Nat.le_refl _, ?_⟩
    have hstop : rest.offset + rest.length = v.stop := hrest.2.2
    show v.offset + (rest.offset - v.offset) ≤ v.stop
    omega
  · cases h

end Within

theorem Cut.within (h : u.Cut v) : v.Within u := by
  induction h with
  | self => exact .refl u
  | advance _ hw ih => exact (Within.of_advance hw).trans ih
  | slice _ hw ih => exact (Within.of_slice hw).trans ih
  | head _ hsplit ih => exact (Within.of_splitAt hsplit).1.trans ih
  | rest _ hsplit ih => exact (Within.of_splitAt hsplit).2.trans ih
  | consumed _ hhead ih => exact (Within.of_consumedUntil hhead).trans ih

/-! ### What views and their operations denote -/

/-- What has been consumed until the view has been advanced is the head of the view split there. -/
theorem exists_consumed_of_advance {n : Numeral} (h : v.advance n = .ok rest) :
    ∃ head taken, v.splitAt n = .ok (head, rest) ∧ v.consumedUntil rest = .ok taken ∧ head.SameStretch taken := by
  have hadvance := v.guarded_advance n
  rw [h] at hadvance
  obtain ⟨hn, hof, -⟩ := hadvance.of_ok
  obtain ⟨hbuffer, hoffset, hlength⟩ := parts_of_eq_ok hof
  rw [Numeral.toInt_int] at hoffset
  obtain ⟨⟨head, rest'⟩, hsplit, hof', -⟩ := (v.guarded_splitAt n).exists_ok hn
  dsimp only at hof'
  cases h.symm.trans (splitAt_eq_ok_iff.1 hsplit).2
  obtain ⟨hbuffer', hoffset', hlength'⟩ := parts_of_eq_ok hof'
  rw [Numeral.toInt_int] at hoffset'
  have hsuffix : rest.buffer.source = v.buffer.source ∧ v.offset ≤ rest.offset ∧ rest.stop = v.stop := by
    refine ⟨congrArg Buffer.source hbuffer, by omega, ?_⟩
    rw [View.stop, View.stop]
    omega
  obtain ⟨taken, htaken, hof'', -⟩ := (v.guarded_consumedUntil rest).exists_ok hsuffix
  obtain ⟨hbuffer'', hoffset'', hlength''⟩ := parts_of_eq_ok hof''
  rw [written_toInt] at hoffset''
  exact ⟨head, taken, hsplit, htaken, hbuffer'.trans hbuffer''.symm, by omega, by omega⟩

/-- The view stands for the symbols `ss` of `b`, and so do the views that its operations make of it for what the
operations make of these. Each of them is what the constructor makes of an offset and a length. -/
structure Refines (b : Buffer) (ss : List Symbol) (v : View) : Prop where
  buffer : v.buffer = b
  bounds : 0 ≤ v.start.written.toInt ∧ v.start.written.toInt + v.length ≤ b.length
  symbols : v.symbols = ss
  fragment : v.fragment.symbols = ss ∧ v.fragment.kind = b.kind
  units : v.units = .ok ss
  unitAt : ∀ i : Numeral, Guarded (0 ≤ i.toInt ∧ i.toInt < ss.length) (.unitOutside i v.length) "IndexError"
    (fun s => ss[i.toNat]? = some s) (v.unitAt i)
  advance : ∀ n : Numeral, Guarded (0 ≤ n.toInt ∧ n.toInt ≤ ss.length) (.advanceOutside n v.length) "ValueError"
    (fun w => of b (.int (v.offset + n.toInt)) (some (.int (v.length - n.toInt))) = .ok w ∧ w.symbols = ss.drop n.toNat)
    (v.advance n)
  slice : ∀ (start : Numeral) (stop : Option Numeral), Guarded (0 ≤ start.toInt ∧
      start.toInt ≤ (stop.getD (.int v.length)).toInt ∧ (stop.getD (.int v.length)).toInt ≤ ss.length)
    (.sliceOutside start (stop.getD (.int v.length)) v.length) "ValueError"
    (fun w => of b (.int (v.offset + start.toInt))
        (some (.int ((stop.getD (.int v.length)).toInt - start.toInt))) = .ok w ∧
      w.symbols = (ss.take (stop.getD (.int v.length)).toNat).drop start.toNat) (v.slice start stop)
  splitAt : ∀ n : Numeral, Guarded (0 ≤ n.toInt ∧ n.toInt ≤ ss.length) (.sliceOutside 0 n v.length) "ValueError"
    (fun p => of b (.int v.offset) (some (.int n.toInt)) = .ok p.1 ∧
      of b (.int (v.offset + n.toInt)) (some (.int (v.length - n.toInt))) = .ok p.2 ∧
        p.1.symbols = ss.take n.toNat ∧ p.2.symbols = ss.drop n.toNat ∧ p.1.stop = p.2.offset) (v.splitAt n)
  consumedUntil : ∀ rest : View, Guarded
    (rest.buffer.source = b.source ∧ v.offset ≤ rest.offset ∧ rest.stop = v.stop) .notASuffix "ValueError"
    (fun head => of b v.start.written (some (.int (rest.offset - v.offset))) = .ok head ∧
      head.symbols = ss.take (rest.offset - v.offset)) (v.consumedUntil rest)
  consumed : ∀ n rest, v.advance n = .ok rest → ∃ head taken, v.splitAt n = .ok (head, rest) ∧
    v.consumedUntil rest = .ok taken ∧ head.SameStretch taken

theorem refines_symbols (v : View) : v.Refines v.buffer v.symbols where
  buffer := rfl
  bounds := by
    have hfits := v.stop_le
    have hstart := v.written_toInt
    rw [View.stop] at hfits
    omega
  symbols := rfl
  fragment := ⟨v.symbols_fragment, v.kind_fragment⟩
  units := v.units_eq
  unitAt := v.guarded_unitAt
  advance := v.guarded_advance
  slice := v.guarded_slice
  splitAt := v.guarded_splitAt
  consumedUntil := v.guarded_consumedUntil
  consumed _ _ := exists_consumed_of_advance

/-- However a view has been cut out of one that was constructed on a buffer, it is a stretch of that view, it shows the
symbols of the buffer between its ends, and its operations do to these what they do to lists. -/
theorem cuts_refine {b : Buffer} {offset : Numeral} {length : Option Numeral} (hu : of b offset length = .ok u)
    (hv : u.Cut v) : v.Refines b ((b.symbols.drop v.offset).take v.length) ∧ v.Within u ∧
      v.symbols = (u.symbols.drop (v.offset - u.offset)).take v.length := by
  have hwithin := hv.within
  have hbuffer : v.buffer = b := hwithin.buffer.trans (buffer_of_eq_ok hu)
  subst hbuffer
  exact ⟨v.refines_symbols, hwithin, hwithin.symbols⟩

/-- Three scores between two marks, held so that more can follow. -/
def scoreBuffer : Buffer := ⟨0, .bytes .growable [9, 1, 2, 3, 9]⟩

/-- The scores, at an offset that is given as a truth value. -/
def scores : View := ⟨scoreBuffer, ⟨.truth true, by decide⟩, 3, by decide⟩

theorem cuts_refine_scores :
    of scoreBuffer (.truth true) (some 3) = .ok scores ∧ scores.Cut (((scores.drop 0).take 3).drop 1) ∧
      (((scores.drop 0).take 3).drop 1).units = .ok [.byte 2, .byte 3] ∧
      (((scores.drop 0).take 3).drop 1).symbols = (scores.symbols.drop 1).take 2 ∧
      ∃ w, (((scores.drop 0).take 3).drop 1).advance 1 = .ok w ∧ of scoreBuffer 3 (some 1) = .ok w ∧
        w.symbols = [.byte 3] := by
  have hscores : of scoreBuffer (.truth true) (some 3) = .ok scores := rfl
  have hslice : scores.slice 0 (some 3) = .ok ((scores.drop 0).take 3) := by decide
  have hcut : scores.Cut (((scores.drop 0).take 3).drop 1) :=
    .advance (.slice .self hslice) (advance_of_le (n := 1) (by decide))
  obtain ⟨hrefines, -, hsymbols⟩ := cuts_refine hscores hcut
  exact ⟨hscores, hcut, hrefines.units, hsymbols, (hrefines.advance 1).exists_ok (by decide)⟩

end View
end StreamGrammar
