import StreamGrammar.Grammar.Build
import StreamGrammar.Proofs.Primitives
import StreamGrammar.Proofs.RunLogic
import Mathlib.Data.List.Forall2

/-! # ASCII text and its bytes

`Symbol.Encodes` pairs each ASCII character with the byte of the same code, and is one to one. Chunks and views
are paired symbol by symbol. All that a primitive asks about symbols has the same answer on both sides: whether a
literal stands at the front (`prefix_iff_of_encodes`) and where it first occurs, whether two symbols have the same
lower case, how many symbols pass a test, which are members of a set. -/

namespace StreamGrammar

open List (Forall₂)

/-- The byte is the code of the ASCII character. -/
structure Symbol.Encodes (s t : Symbol) : Prop where
  text : s.kind = .text
  binary : t.kind = .binary
  code : s.code = t.code
  ascii : s.code < 128

/-- The text is encoded by the bytes, which are held for good. -/
inductive Chunk.Encodes : Chunk → Chunk → Prop
  | text {cs : List Char} {bs : List UInt8} : Forall₂ (fun c b => Symbol.Encodes (.char c) (.byte b)) cs bs →
    Encodes (.text cs) (.bytes .fixed bs)

/-- The text and its encoding at the same offset. How the bytes are held and what stands around them and around the
text does not matter. -/
structure View.Encodes (v w : View) : Prop where
  text : v.kind = .text
  binary : w.kind = .binary
  offset : v.offset = w.offset
  symbols : Forall₂ Symbol.Encodes v.symbols w.symbols

/-! ### Symbols -/

namespace Symbol
variable {s t : Symbol}

theorem Encodes.cases (h : s.Encodes t) : ∃ c b, s = .char c ∧ t = .byte b ∧ c.toNat = b.toNat ∧ c.toNat < 128 := by
  obtain ⟨htext, hbinary, hcode, hascii⟩ := h
  rcases s with c | b
  · rcases t with c' | b
    · cases hbinary
    · exact ⟨c, b, rfl, rfl, hcode, hascii⟩
  · cases htext

theorem encodes_biUnique : Relator.BiUnique Encodes := by
  constructor
  · intro s s' t h h'
    obtain ⟨c, b, rfl, rfl, hcode, -⟩ := h.cases
    obtain ⟨c', b', rfl, ⟨⟩, hcode', -⟩ := h'.cases
    rw [Char.toNat_inj.1 (hcode.trans hcode'.symm)]
  · intro s t t' h h'
    obtain ⟨c, b, rfl, rfl, hcode, -⟩ := h.cases
    obtain ⟨c', b', ⟨⟩, rfl, hcode', -⟩ := h'.cases
    rw [UInt8.toNat_inj.1 (hcode.symm.trans hcode')]

theorem Encodes.isAscii (h : s.Encodes t) (c : Char) : s.isAscii c = t.isAscii c := by
  obtain ⟨d, b, rfl, rfl, hcode, -⟩ := h.cases
  rw [Symbol.isAscii, Symbol.isAscii, ← hcode, Bool.eq_iff_iff, beq_iff_eq, beq_iff_eq, Char.toNat_inj]

theorem Encodes.holds (h : s.Encodes t) (alphabet : String) :
    Alphabet.holds alphabet s = Alphabet.holds alphabet t := by
  unfold Alphabet.holds
  simp only [h.isAscii]

/-- In ASCII, lower case moves the code of a character as it moves a byte. -/
theorem lower_ascii : ∀ n < 128, (Text.lower (Char.ofNat n)).map Char.toNat = [(lowerByte (UInt8.ofNat n)).toNat] ∧
    (lowerByte (UInt8.ofNat n)).toNat < 128 := by
  decide +kernel

theorem Encodes.lower (h : s.Encodes t) : Forall₂ Encodes s.lower t.lower := by
  obtain ⟨c, b, rfl, rfl, hcode, hascii⟩ := h.cases
  obtain ⟨hlower, hlt⟩ := lower_ascii c.toNat hascii
  rw [Char.ofNat_toNat, hcode, UInt8.ofNat_toNat] at hlower
  rw [hcode, UInt8.ofNat_toNat] at hlt
  obtain ⟨d, hd, hcode'⟩ := List.map_eq_singleton_iff.1 hlower
  rw [Symbol.lower, Symbol.lower, hd]
  exact .cons ⟨rfl, rfl, hcode', by rw [← hcode'] at hlt; exact hlt⟩ .nil

end Symbol

/-! ### Lists of symbols -/

section Lists
variable {ss ts literal literal' : List Symbol}

/-- Lists of encoded symbols are equal if and only if the lists of their bytes are. -/
theorem eq_iff_of_encodes {ss' ts' : List Symbol} (h : Forall₂ Symbol.Encodes ss ts)
    (h' : Forall₂ Symbol.Encodes ss' ts') : ss = ss' ↔ ts = ts' :=
  Relator.rel_eq Symbol.encodes_biUnique.forall₂ h h'

theorem prefix_iff_of_encodes (hl : Forall₂ Symbol.Encodes literal literal') (h : Forall₂ Symbol.Encodes ss ts) :
    literal <+: ss ↔ literal' <+: ts := by
  rw [List.prefix_iff_eq_take, List.prefix_iff_eq_take, ← hl.length_eq]
  exact eq_iff_of_encodes hl (List.forall₂_take _ h)

theorem firstOccurrence_of_encodes (hl : Forall₂ Symbol.Encodes literal literal')
    (h : Forall₂ Symbol.Encodes ss ts) : firstOccurrence literal ss = firstOccurrence literal' ts := by
  induction h with
  | nil =>
    rw [firstOccurrence, firstOccurrence]
    cases hl <;> rfl
  | @cons s t ss ts hst hss ih =>
    have hprefix := prefix_iff_of_encodes hl (.cons hst hss)
    rw [firstOccurrence, firstOccurrence, ih]
    simp only [List.isPrefixOf_iff_prefix, hprefix]

/-- Two encoded texts differ in lower case within their common length if and only if their bytes do. -/
theorem any_lower_of_encodes (hl : Forall₂ Symbol.Encodes literal literal') (h : Forall₂ Symbol.Encodes ss ts) :
    ((ss.zip literal).any fun p => p.1.lower ≠ p.2.lower) = (ts.zip literal').any fun p => p.1.lower ≠ p.2.lower := by
  induction h generalizing literal literal' with
  | nil => rfl
  | @cons s t ss ts hst _ ih =>
    cases hl with
    | nil => rfl
    | cons hl hls =>
      have hlower := eq_iff_of_encodes hst.lower hl.lower
      simp only [List.zip_cons_cons, List.any_cons, ih hls, ne_eq, hlower]

theorem getElem?_of_encodes (h : Forall₂ Symbol.Encodes ss ts) (i : Nat) :
    Option.Rel Symbol.Encodes ss[i]? ts[i]? := by
  induction h generalizing i with
  | nil => exact .none
  | cons hst _ ih =>
    cases i with
    | zero => exact .some hst
    | succ i => exact ih i

/-- Tests that answer alike on encoded symbols let the same number of first symbols pass. -/
theorem leading_of_encodes {E : Raised → Raised → Prop} {test test' : SymbolTest}
    (htest : ∀ s t, s.Encodes t → Correspond E (· = ·) (test s) (test' t)) (h : Forall₂ Symbol.Encodes ss ts) :
    Correspond E (· = ·) (leading test ss) (leading test' ts) := by
  induction h with
  | nil => exact .ok rfl
  | @cons s t ss ts hst _ ih =>
    refine (htest s t hst).bind ?_
    rintro passes _ rfl
    cases passes with
    | true =>
      refine ih.bind ?_
      rintro n _ rfl
      exact .ok rfl
    | false => exact .ok rfl

end Lists

/-! ### Chunks and views -/

namespace Chunk.Encodes
variable {c d c' d' : Chunk}

theorem symbols (h : c.Encodes d) : Forall₂ Symbol.Encodes c.symbols d.symbols := by
  obtain ⟨hcs⟩ := h
  rw [Chunk.symbols, Chunk.symbols, List.forall₂_map_left_iff, List.forall₂_map_right_iff]
  exact hcs

theorem kind_left (h : c.Encodes d) : c.kind = .text := by
  obtain ⟨-⟩ := h
  rfl

theorem kind_right (h : c.Encodes d) : d.kind = .binary := by
  obtain ⟨-⟩ := h
  rfl

theorem fix (h : c.Encodes d) : c.fix.Encodes d.fix := by
  obtain ⟨hcs⟩ := h
  exact ⟨hcs⟩

theorem length_eq (h : c.Encodes d) : c.length = d.length := by
  rw [← length_symbols, ← length_symbols, h.symbols.length_eq]

theorem same (h : c.Encodes d) (h' : c'.Encodes d') : c.same c' = d.same d' := by
  have hsymbols := eq_iff_of_encodes h.symbols h'.symbols
  rw [Chunk.same, Chunk.same, h.kind_left, h'.kind_left, h.kind_right, h'.kind_right, Bool.eq_iff_iff]
  simpa using hsymbols

end Chunk.Encodes

theorem Symbol.Encodes.toChunk {s t : Symbol} (h : s.Encodes t) : s.toChunk.Encodes t.toChunk := by
  obtain ⟨c, b, rfl, rfl, -⟩ := h.cases
  exact ⟨.cons h .nil⟩

namespace View.Encodes
variable {v w : View}

theorem length_eq (h : v.Encodes w) : v.length = w.length := by
  rw [← length_symbols, ← length_symbols, h.symbols.length_eq]

theorem drop (h : v.Encodes w) (n : Nat) : (v.drop n).Encodes (w.drop n) := by
  refine ⟨h.text, h.binary, ?_, ?_⟩
  · rw [offset_drop, offset_drop, h.offset, h.length_eq]
  · rw [symbols_drop, symbols_drop]
    exact List.forall₂_drop n h.symbols

theorem take (h : v.Encodes w) (n : Nat) : (v.take n).Encodes (w.take n) := by
  refine ⟨h.text, h.binary, h.offset, ?_⟩
  rw [symbols_take, symbols_take]
  exact List.forall₂_take n h.symbols

theorem symbol? (h : v.Encodes w) (i : Nat) : Option.Rel Symbol.Encodes (v.symbol? i) (w.symbol? i) := by
  rw [symbol?_eq_symbols, symbol?_eq_symbols]
  exact getElem?_of_encodes h.symbols i

/-- Suffixes at the same offset belong together if the views do. -/
theorem suffix {u x : View} (h : v.Encodes w) (hu : u.SuffixOf v) (hx : x.SuffixOf w) (ho : u.offset = x.offset) :
    u.Encodes x := by
  refine ⟨hu.kind.trans h.text, hx.kind.trans h.binary, ho, ?_⟩
  rw [hu.symbols, hx.symbols, ho, h.offset]
  exact List.forall₂_drop _ h.symbols

/-- What lies before suffixes at the same offset belongs together. -/
theorem consumed {u x : View} (h : v.Encodes w) (hu : u.SuffixOf v) (hx : x.SuffixOf w) (ho : u.offset = x.offset) :
    ∃ head head', v.consumedUntil u = .ok head ∧ w.consumedUntil x = .ok head' ∧ head.Encodes head' := by
  obtain ⟨head, hhead, hbuffer, hstart, hstop, hsymbols⟩ := hu.consumedUntil
  obtain ⟨head', hhead', hbuffer', hstart', hstop', hsymbols'⟩ := hx.consumedUntil
  have hoffset : head.offset = head'.offset := by
    rw [View.offset, View.offset, hstart, hstart']
    exact h.offset
  have hlength : head.symbols.length = head'.symbols.length := by
    rw [View.stop] at hstop hstop'
    rw [length_symbols, length_symbols]
    omega
  have htake : head.symbols = v.symbols.take head.symbols.length := by rw [← hsymbols, List.take_left]
  have htake' : head'.symbols = w.symbols.take head'.symbols.length := by rw [← hsymbols', List.take_left]
  refine ⟨head, head', hhead, hhead', ?_, ?_, hoffset, ?_⟩
  · rw [View.kind, hbuffer]
    exact h.text
  · rw [View.kind, hbuffer']
    exact h.binary
  · rw [htake, htake', hlength]
    exact List.forall₂_take _ h.symbols

end View.Encodes

end StreamGrammar
