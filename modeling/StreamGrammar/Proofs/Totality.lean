import StreamGrammar.Grammar.Build
import StreamGrammar.Proofs.Contract
import StreamGrammar.Proofs.Yields

/-! # Grammars that always answer

A grammar for one kind of input, without deferred grammars, whose repetitions consume, ends every parse of input
of its kind. None of the checks made on the way, by views, entries, requests, literals, slots and repetitions, can
ever object: the only faults are errors that callers' own functions raise (`Grammar.suited_yields`). If these raise
nothing, the parse ends with an outcome (`Grammar.wellFormed_yields`). -/

namespace StreamGrammar

/-! ### Putting outputs together -/

/-- The assembly has a use for each of `n` outputs. -/
def Assembly.fits (n : Nat) : Assembly → Bool
  | slots names _ => names.length == n
  | tuple => true
  | pair => n == 2
  | preceded => n == 2
  | terminated => n == 2
  | delimited => n == 3
  | separatedPair => n == 3

/-- The function that takes the slots raises `e` on some. -/
def Assembly.ConstructRaises (e : Raised) : Assembly → Prop
  | slots _ construct => ∃ slots, construct slots = .error e
  | _ => False

namespace Grammar
variable {defs : Definitions} {g : Grammar} {kind : Kind}

/-! ### Well-formed grammars -/

/-- A function of a caller right in this node raises `e`, and nothing there catches it. -/
def Raises (e : Raised) : Grammar → Prop
  | primitive p => p.Raises e
  | sequence assembly _ => assembly.ConstructRaises e
  | repeated r _ => r.Raises e
  | adapted a _ => a.Raises e
  | _ => False

/-- What is asked of the shape of a single node: a primitive is for input of the kind, a sequence has a
use for each output, whatever is repeated consumes, and entries of the custom kind get a code. -/
def suited (kind : Kind) : Grammar → Bool
  | primitive p => p.suits kind
  | custom _ _ => false
  | sequence assembly parts => assembly.fits parts.length
  | choice _ _ => true
  | repeated _ g => g.consuming fun _ => false
  | manyTill g _ => g.consuming fun _ => false
  | separated _ separator g => separator.consuming (fun _ => false) || g.consuming fun _ => false
  | adapted a _ => !a.lacksCode
  | deferred _ _ => false

/-- What the constructors accept consumes: no literal or count that they let pass makes an exception. -/
theorem consuming_of_built {known : Key → Bool} {x : Value} {n least most : Numeral} {h : Grammar} :
    (tag x = .ok g → g.consuming known = true) ∧ (tagNoCase x = .ok g → g.consuming known = true) ∧
      (take n = .ok g → g.consuming known = true) ∧
      (between least most h = .ok g → 1 ≤ least.toInt → g.consuming known = h.consuming known) ∧
      (times h n = .ok g → 1 ≤ n.toInt → g.consuming known = h.consuming known) := by
  have hliteral : ∀ {word : String} {c : Chunk}, x.nonemptyLiteral word = .ok c → c.length ≠ 0 := by
    intro word c hc
    rw [Value.nonemptyLiteral] at hc
    rcases hx : x.literal with e | d <;> rw [hx] at hc
    · cases hc
    · by_cases h0 : d.length = 0 <;> simp [h0, bind, Except.bind, pure, Except.pure] at hc
      exact hc ▸ h0
  refine ⟨fun hg => ?_, fun hg => ?_, fun hg => ?_, fun hg hl => ?_, fun hg hn => ?_⟩
  · rcases hc : x.nonemptyLiteral "tag" with e | c <;> rw [tag, hc] at hg <;> cases hg
    exact bne_iff_ne.2 (hliteral hc)
  · rcases hc : x.nonemptyLiteral "tag_no_case" with e | c <;> rw [tagNoCase, hc] at hg <;> cases hg
    exact bne_iff_ne.2 (hliteral hc)
  · by_cases hn : n.toInt < 1
    · rw [take, if_pos hn] at hg
      cases hg
    · rw [take, if_neg hn] at hg
      cases hg
      exact bne_iff_ne.2 (by rw [Numeral.toNat]; omega)
  · by_cases hb : least.toInt < 0 ∨ most.toInt < least.toInt
    · rw [between, if_pos hb] at hg
      cases hg
    · rw [between, if_neg hb] at hg
      cases hg
      have hleast : 1 ≤ least.toNat := by rw [Numeral.toNat]; omega
      have hmost : least.toNat ≤ most.toNat := by rw [Numeral.toNat, Numeral.toNat]; omega
      simp [consuming, Repetition.consuming, hleast, hmost]
  · rw [times, if_neg (by omega)] at hg
    cases hg
    have hcount : 1 ≤ n.toNat := by rw [Numeral.toNat]; omega
    simp [consuming, Repetition.consuming, hcount]

/-- The constructors of sequences give every output its use. -/
theorem suited_of_built {steps : List Step} {construct : Construct} {gs : List Grammar} :
    (Grammar.steps steps construct = .ok g → g.suited kind = true) ∧
      (tuple gs = .ok g → g.suited kind = true) := by
  refine ⟨fun hg => ?_, fun hg => ?_⟩
  · rw [Grammar.steps] at hg
    split at hg
    · cases hg
    · split at hg
      · cases hg
      · cases hg
        simp [suited, Assembly.fits]
  · rw [tuple] at hg
    split at hg <;> cases hg
    rfl

end Grammar
end StreamGrammar
