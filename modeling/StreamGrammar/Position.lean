import StreamGrammar.Numeral

/-! # Positions

An absolute place in a buffer. A place that a caller named is kept as it was written, and is shown that
way; a place that was computed is written as a plain number. Positions are compared as numbers. -/

namespace StreamGrammar

/-- A numeral that is not negative. -/
@[ext] structure Position where
  written : Numeral
  nonneg : 0 ≤ written.toInt
  deriving DecidableEq, Repr

namespace Position

def toNat (p : Position) : Nat := p.written.toNat

def ofNat (n : Nat) : Position := ⟨.int n, Int.natCast_nonneg n⟩

/-- The position that a numeral writes, unless it is negative. -/
def of? (n : Numeral) : Option Position :=
  if h : 0 ≤ n.toInt then some ⟨n, h⟩ else none

def text (p : Position) : String := p.written.text

/-- The same place, whichever way it is written. -/
def same (p q : Position) : Bool := p.toNat == q.toNat

@[simp] theorem toNat_ofNat (n : Nat) : (ofNat n).toNat = n := rfl

theorem toNat_mk (n : Numeral) (h : 0 ≤ n.toInt) : (mk n h).toNat = n.toInt.toNat := rfl

theorem of?_eq_some_iff {n : Numeral} {p : Position} : of? n = some p ↔ p.written = n := by
  constructor
  · intro h
    unfold of? at h
    split at h
    · cases h; rfl
    · cases h
  · rintro rfl
    simp [of?, p.nonneg]

theorem of?_eq_none_iff {n : Numeral} : of? n = none ↔ n.toInt < 0 := by
  simp [of?]

end Position

end StreamGrammar
