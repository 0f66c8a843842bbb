import StreamGrammar.View.Basic

/-! # Looking for a literal in a view

Three questions about a view and a literal: how long the common beginning is, whether the view begins
with the literal, and where the literal first occurs. The common beginning is counted index by index. A
buffer that is a window on other data is compared that way and searched in a copy of the viewed stretch;
every other buffer is asked at absolute offsets, looking at nothing outside the view. -/

namespace StreamGrammar

/-! ### Lists of symbols -/

/-- Length of the longest common beginning. -/
def commonLength : List Symbol → List Symbol → Nat
  | s :: ss, t :: ts => if s = t then commonLength ss ts + 1 else 0
  | _, _ => 0

/-- Counts on from `count`, `most` times at most, while two readers show the same symbol. An index at which
a reader has nothing to show leaves the count without an answer. -/
def countShared (mine theirs : Nat → Option Symbol) : Nat → Nat → Option Nat
  | 0, count => some count
  | most + 1, count =>
    match mine count, theirs count with
    | some s, some t => if s = t then countShared mine theirs most (count + 1) else some count
    | _, _ => none

/-- The count is that of the common symbols, whatever the readers show behind the lists. -/
theorem countShared_eq {mine theirs : Nat → Option Symbol} (ss ts : List Symbol) (count : Nat)
    (hmine : ∀ i < ss.length, mine (count + i) = ss[i]?)
    (htheirs : ∀ i < ts.length, theirs (count + i) = ts[i]?) :
    countShared mine theirs (min ss.length ts.length) count = some (count + commonLength ss ts) := by
  induction ss generalizing ts count with
  | nil => simp [countShared, commonLength]
  | cons s ss ih =>
    cases ts with
    | nil => simp [countShared, commonLength]
    | cons t ts =>
      have hs : mine count = some s := hmine 0 (Nat.succ_pos _)
      have ht : theirs count = some t := htheirs 0 (Nat.succ_pos _)
      rw [List.length_cons, List.length_cons, Nat.succ_min_succ, countShared, hs, ht, commonLength]
      dsimp only
      split
      · have hrest := ih ts (count + 1)
          (fun i hi => by rw [Nat.add_right_comm]; exact hmine (i + 1) (Nat.succ_lt_succ hi))
          (fun i hi => by rw [Nat.add_right_comm]; exact htheirs (i + 1) (Nat.succ_lt_succ hi))
        rw [hrest, Nat.add_right_comm, Nat.add_assoc]
      · rfl

/-- Least index at which `literal` occurs. -/
def firstOccurrence (literal : List Symbol) : List Symbol → Option Nat
  | [] => if literal.isEmpty then some 0 else none
  | s :: ss =>
    if literal.isPrefixOf (s :: ss) then some 0 else (firstOccurrence literal ss).map (· + 1)

namespace Chunk

variable (c literal : Chunk)

/-- The literal stands in `c` at `start` and ends no later than `stop`. -/
def beginsAt (start stop : Nat) : Bool :=
  start + literal.length ≤ stop && literal.symbols.isPrefixOf (c.symbols.drop start)

/-- Least absolute index of an occurrence of `literal` between `start` and `stop`. -/
def findBetween (start stop : Nat) : Option Nat :=
  let symbols := c.symbols
  let wanted := literal.symbols
  (List.range' start (stop + 1 - start)).find? fun i =>
    i + wanted.length ≤ stop && wanted.isPrefixOf (symbols.drop i)

theorem beginsAt_iff (start stop : Nat) :
    c.beginsAt literal start stop = true ↔
      start + literal.length ≤ stop ∧ literal.symbols <+: c.symbols.drop start := by
  simp [beginsAt]

end Chunk

namespace View

variable (v : View)

/-! ### Questions about a literal -/

/-- A literal of this kind can be compared with the view. -/
def sameKind (kind : Kind) : Bool :=
  kind == v.kind

/-- How many first symbols the view shares with a literal of length `n`, as two readers show the buffer
and the literal. -/
def sharedBy (inBuffer inLiteral : Nat → Option Symbol) (n : Nat) : Option Nat :=
  countShared (fun i => inBuffer (v.offset + i)) inLiteral (min v.length n) 0

theorem sharedBy_eq {literal : Chunk} {inBuffer inLiteral : Nat → Option Symbol}
    (hbuffer : ∀ p, v.offset ≤ p → p < v.stop → inBuffer p = v.buffer.content.get? p)
    (hliteral : ∀ i < literal.length, inLiteral i = literal.get? i) :
    v.sharedBy inBuffer inLiteral literal.length = some (commonLength v.symbols literal.symbols) := by
  have hmine : ∀ i < v.symbols.length, inBuffer (v.offset + (0 + i)) = v.symbols[i]? := by
    intro i hi
    rw [length_symbols] at hi
    rw [Nat.zero_add, ← symbol?_eq_symbols, symbol?, if_pos hi]
    exact hbuffer _ (Nat.le_add_right _ _) (Nat.add_lt_add_left hi _)
  have htheirs : ∀ i < literal.symbols.length, inLiteral (0 + i) = literal.symbols[i]? := by
    intro i hi
    rw [Chunk.length_symbols] at hi
    rw [Nat.zero_add, ← Chunk.get?_eq_symbols]
    exact hliteral i hi
  rw [sharedBy, ← v.length_symbols, ← literal.length_symbols,
    countShared_eq v.symbols literal.symbols 0 hmine htheirs, Nat.zero_add]

theorem isSome_sharedBy (literal : Chunk) :
    (v.sharedBy v.buffer.content.get? literal.get? literal.length).isSome = true := by
  rw [sharedBy_eq v (fun _ _ _ => rfl) fun _ _ => rfl]
  rfl

/-- How many first symbols the view and the literal share. -/
def commonPrefixLength (literal : Chunk) : Nat :=
  (v.sharedBy v.buffer.content.get? literal.get? literal.length).get (v.isSome_sharedBy literal)

theorem commonPrefixLength_eq (literal : Chunk) :
    v.commonPrefixLength literal = commonLength v.symbols literal.symbols :=
  Option.get_of_eq_some _ (sharedBy_eq v (fun _ _ _ => rfl) fun _ _ => rfl)

def isWindow : Bool :=
  match v.buffer.content with
  | .bytes .window _ => true
  | _ => false

/-- The view begins with the literal. A literal that is too long is answered before its kind is looked
at, and a window never objects to the kind. -/
def startsWith (literal : Chunk) : Except ViewFault Bool :=
  if v.length < literal.length then .ok false
  else if v.isWindow then .ok (v.commonPrefixLength literal == literal.length)
  else if v.sameKind literal.kind then
    .ok (v.buffer.content.beginsAt literal v.offset v.stop)
  else .error .otherKind

/-- Index in the view of the first occurrence of the literal. -/
def find (literal : Chunk) : Except ViewFault (Option Nat) :=
  if !v.sameKind literal.kind then .error .otherKind
  else if v.isWindow then .ok (firstOccurrence literal.symbols v.fragment.symbols)
  else .ok ((v.buffer.content.findBetween literal v.offset v.stop).map (· - v.offset))

end View

end StreamGrammar
