/-! # Sets of code points given by ranges

A set of characters is a list of closed ranges of code points, in increasing order. -/

namespace StreamGrammar.Text

/-- Some range of `ranges` holds the code point of `c`. -/
def within (ranges : List (Nat × Nat)) (c : Char) : Bool :=
  ranges.any fun r => r.1 ≤ c.toNat && c.toNat ≤ r.2

end StreamGrammar.Text
