import StreamGrammar.Proofs.Search
import StreamGrammar.Proofs.Subgrammar
import StreamGrammar.Proofs.Suffix

/-! # What primitives answer

`Primitive.Answer` lists everything that a primitive can answer; `Primitive.answer` says that there is
nothing else. In particular the checks behind consuming and behind asking for more input never object:
a primitive consumes no more than there is, and asks for at least one symbol. -/

namespace StreamGrammar
namespace Primitive

/-! ### Consuming and asking for more -/

theorem consume_of_le {v : View} {n : Nat} (h : n ≤ v.length) :
    consume v n = .ok (.done (v.drop n) (.view (v.take n))) := by
  rw [consume, View.splitAt_of_le h]
  rfl

theorem missing_of_pos {n : Nat} (h : 0 < n) :
    missing n = .ok (.incomplete (.exact (.int n))) := by
  have hn : ¬ (n : Int) < 1 := by omega
  show Needed.of (some (.int n)) >>= _ = _
  rw [Needed.of, Numeral.toInt_int, if_neg hn]
  rfl

theorem checkKind_of_eq {v : View} {kind : Kind} (h : kind = v.kind) (name : String) :
    checkKind v name kind = .ok () := by
  simp [checkKind, View.sameKind, h]

theorem checkKind_of_ne {v : View} {kind : Kind} (h : kind ≠ v.kind) (name : String) :
    checkKind v name kind = .error (.kindMismatch name kind v.kind) := by
  simp [checkKind, View.sameKind, h]

theorem lt_length_of_symbol? {v : View} {i : Nat} {s : Symbol} (h : v.symbol? i = some s) :
    i < v.length := by
  rw [View.symbol?] at h
  split at h
  · assumption
  · cases h

/-! ### Runs of symbols -/

section Leading
variable {test : SymbolTest} {s : Symbol} {ss : List Symbol} {e : Raised}

theorem leading_cons_of_error (h : test s = .error e) (ss : List Symbol) :
    leading test (s :: ss) = .error e := by
  rw [leading, h]
  rfl

theorem leading_cons_of_false (h : test s = .ok false) (ss : List Symbol) :
    leading test (s :: ss) = .ok 0 := by
  rw [leading, h]
  rfl

theorem leading_cons_of_true (h : test s = .ok true) (ss : List Symbol) :
    leading test (s :: ss) = (leading test ss).map (· + 1) := by
  rw [leading, h]
  cases leading test ss <;> rfl

theorem leading_le {n : Nat} (h : leading test ss = .ok n) : n ≤ ss.length := by
  induction ss generalizing n with
  | nil => cases h; exact Nat.le_refl 0
  | cons s ss ih =>
    rcases ht : test s with e | _ | _
    · rw [leading_cons_of_error ht] at h; cases h
    · rw [leading_cons_of_false ht] at h; cases h; exact Nat.zero_le _
    · rw [leading_cons_of_true ht] at h
      cases hl : leading test ss with
      | error e => rw [hl] at h; cases h
      | ok m => rw [hl] at h; cases h; exact Nat.succ_le_succ (ih hl)

theorem exists_error_of_leading (h : leading test ss = .error e) : ∃ s, test s = .error e := by
  induction ss with
  | nil => cases h
  | cons s ss ih =>
    rcases ht : test s with e' | _ | _
    · rw [leading_cons_of_error ht] at h; cases h; exact ⟨s, ht⟩
    · rw [leading_cons_of_false ht] at h; cases h
    · rw [leading_cons_of_true ht] at h
      cases hl : leading test ss with
      | error e' => rw [hl] at h; cases h; exact ih hl
      | ok m => rw [hl] at h; cases h

/-- Unless all symbols pass, what follows on them makes no difference. -/
theorem leading_append (h : leading test ss ≠ .ok ss.length) (ts : List Symbol) :
    leading test (ss ++ ts) = leading test ss := by
  induction ss with
  | nil => exact absurd rfl h
  | cons s ss ih =>
    rcases ht : test s with e' | _ | _
    · rw [List.cons_append, leading_cons_of_error ht, leading_cons_of_error ht]
    · rw [List.cons_append, leading_cons_of_false ht, leading_cons_of_false ht]
    · rw [leading_cons_of_true ht] at h
      have hne : leading test ss ≠ .ok ss.length := fun heq => h (by rw [heq]; rfl)
      rw [List.cons_append, leading_cons_of_true ht, leading_cons_of_true ht, ih hne]

end Leading

/-! ### The matchers, check by check -/

section Matchers
variable {v : View} {literal : Chunk}

theorem parseTag_of_kind (hk : literal.kind = v.kind) :
    parseTag v literal =
      if literal.symbols <+: v.symbols then consume v literal.length
      else if v.length < literal.length ∧ v.symbols <+: literal.symbols then
        missing (literal.length - v.length)
      else .ok (.failAt .literalMismatch v) := by
  have hcommon : v.commonPrefixLength literal = v.length ↔ v.symbols <+: literal.symbols := by
    rw [View.commonPrefixLength_eq, ← commonLength_eq_left_iff, View.length_symbols]
  rw [parseTag, checkKind_of_eq hk, View.startsWith_eq hk]
  simp only [← hcommon, ← List.isPrefixOf_iff_prefix]
  rfl

theorem parseTagNoCase_of_kind (hk : literal.kind = v.kind) :
    parseTagNoCase v literal =
      if (v.symbols.zip literal.symbols).any fun p => p.1.lower ≠ p.2.lower then
        .ok (.failAt .literalMismatch v)
      else if v.length < literal.length then missing (literal.length - v.length)
      else consume v literal.length := by
  rw [parseTagNoCase, checkKind_of_eq hk]
  rfl

theorem parseTakeUntil_of_kind (hk : literal.kind = v.kind) (policy : Policy) :
    parseTakeUntil v literal policy =
      match firstOccurrence literal.symbols v.symbols, policy with
      | some i, _ => consume v i
      | none, .streaming => .ok (.incomplete .unknown)
      | none, .complete => .ok (.failAt .literalMismatch v) := by
  rw [parseTakeUntil, checkKind_of_eq hk, View.find_eq hk]
  rfl

theorem parseUnit_some (v : View) (name : String) (kind : Kind) (test : SymbolTest) (policy : Policy) :
    parseUnit v (some (name, kind)) test policy =
      checkKind v name kind >>= fun _ => parseUnit v none test policy := rfl

theorem parseUnit_of_none {test : SymbolTest} (h : v.symbol? 0 = none) (policy : Policy) :
    parseUnit v none test policy =
      match policy with
      | .streaming => missing 1
      | .complete => .ok (.failAt .charMismatch v) := by
  unfold parseUnit
  rw [h]
  cases policy <;> rfl

theorem parseUnit_of_symbol {test : SymbolTest} {s : Symbol} (h : v.symbol? 0 = some s) (policy : Policy) :
    parseUnit v none test policy =
      match test s with
      | .error e => .error (.raised e)
      | .ok true => .ok (.done (v.drop 1) (.chunk s.toChunk))
      | .ok false => .ok (.failAt .charMismatch v) := by
  have hadv : v.advance 1 = .ok (v.drop 1) := View.advance_of_le (lt_length_of_symbol? h)
  unfold parseUnit
  rw [h, hadv]
  dsimp only
  rcases test s with e | _ | _ <;> rfl

theorem parseRun_of_ok {test : SymbolTest} {n : Nat} (h : leading test v.symbols = .ok n)
    (policy : Policy) :
    parseRun v test policy =
      if n = v.length ∧ policy = .streaming then missing 1
      else if n = 0 then .ok (.failAt .predicateFailed v)
      else consume v n := by
  rw [parseRun, h]
  rfl

theorem parseRun_of_error {test : SymbolTest} {e : Raised} (h : leading test v.symbols = .error e)
    (policy : Policy) : parseRun v test policy = .error (.raised e) := by
  rw [parseRun, h]
  rfl

/-- The bytes of a chunk are its symbols, however it holds them. -/
theorem map_bytesOf {c : Chunk} (h : c.kind ≠ .text) : (bytesOf c).map Symbol.byte = c.symbols := by
  cases c with
  | text cs => exact absurd rfl h
  | bytes form bs => rfl

theorem parseInteger_of_le {format : IntegerFormat} (hk : v.kind ≠ .text) (hle : format.width ≤ v.length) :
    parseInteger v format =
      .ok (.done (v.drop format.width) (.int (format.decode (bytesOf (v.take format.width).fragment)))) := by
  rw [parseInteger, if_neg hk, if_neg (Nat.not_lt.2 hle), View.splitAt_of_le hle]
  rfl

end Matchers

/-! ### The answers -/

/-- The primitive can be applied to input of this kind. -/
def suits (kind : Kind) : Primitive → Bool
  | tag literal => literal.kind == kind
  | tagNoCase literal => literal.kind == kind
  | takeUntil literal _ => literal.kind == kind
  | unit _ expects _ _ => expects.all (·.2 == kind)
  | integer _ => kind == .binary
  | _ => true

/-- The test of the primitive raises `e` on some symbol. -/
def Raises (e : Raised) : Primitive → Prop
  | unit _ _ test _ => ∃ s, test s = .error e
  | run _ test _ => ∃ s, test s = .error e
  | _ => False

/-- The primitive asks for a fixed number of symbols, which a final input may not have. -/
def fixedLength : Primitive → Bool
  | tag _ => true
  | tagNoCase _ => true
  | take _ => true
  | integer _ => true
  | _ => false

def policy? : Primitive → Option Policy
  | takeUntil _ policy => some policy
  | unit _ _ _ policy => some policy
  | run _ _ policy => some policy
  | lineEnding policy => some policy
  | _ => none

/-- The kinds of failure that primitives report. -/
def failureKinds : List ErrorKind := [.literalMismatch, .charMismatch, .predicateFailed, .eofExpected]

/-- What the primitive may answer on `v`. -/
inductive Answer (p : Primitive) (v : View) : Except Fault (Outcome Value) → Prop
  | consumed {n : Nat} {x : Value} :
    n ≤ v.length → (p.consuming = true → 0 < n) → Answer p v (.ok (.done (v.drop n) x))
  | atEnd {x : Value} : p.consuming = false → Answer p v (.ok (.done v x))
  | rejected {kind : ErrorKind} : kind ∈ failureKinds → Answer p v (.ok (.failAt kind v))
  | waiting {needed : Needed} :
    (p.fixedLength = true ∨ p.policy? = some .streaming) → (∀ n, needed = .exact n → 0 < n.toInt) →
      Answer p v (.ok (.incomplete needed))
  | otherKind {name : String} {kind : Kind} :
    p.suits v.kind = false → Answer p v (.error (.kindMismatch name kind v.kind))
  | onText {name : String} : p.suits v.kind = false → Answer p v (.error (.integerOnText name))
  | raised {e : Raised} : p.Raises e → Answer p v (.error (.raised e))

namespace Answer
variable {p : Primitive} {v : View}

theorem consume {n : Nat} (hn : n ≤ v.length) (hc : p.consuming = true → 0 < n) :
    Answer p v (consume v n) := by
  rw [consume_of_le hn]
  exact consumed hn hc

theorem missing {n : Nat} (hp : p.fixedLength = true ∨ p.policy? = some .streaming) (hn : 0 < n) :
    Answer p v (missing n) := by
  rw [missing_of_pos hn]
  refine waiting hp fun m hm => ?_
  cases hm
  exact Int.natCast_pos.2 hn

end Answer

variable (v : View)

theorem answer_tag (literal : Chunk) : Answer (tag literal) v (parseTag v literal) := by
  have hc : (tag literal).consuming = true → 0 < literal.length := by
    intro h
    simp only [consuming, bne_iff_ne] at h
    omega
  by_cases hk : literal.kind = v.kind
  · rw [parseTag_of_kind hk]
    split
    · next hp =>
      have hle := hp.length_le
      rw [View.length_symbols, Chunk.length_symbols] at hle
      exact .consume hle hc
    · split
      · next h => exact .missing (.inl rfl) (by omega)
      · exact .rejected (by decide)
  · rw [parseTag, checkKind_of_ne hk]
    exact .otherKind (by simp [suits, hk])

theorem answer_tagNoCase (literal : Chunk) :
    Answer (tagNoCase literal) v (parseTagNoCase v literal) := by
  have hc : (tagNoCase literal).consuming = true → 0 < literal.length := by
    intro h
    simp only [consuming, bne_iff_ne] at h
    omega
  by_cases hk : literal.kind = v.kind
  · rw [parseTagNoCase_of_kind hk]
    split
    · exact .rejected (by decide)
    · split
      · next h => exact .missing (.inl rfl) (by omega)
      · next h => exact .consume (by omega) hc
  · rw [parseTagNoCase, checkKind_of_ne hk]
    exact .otherKind (by simp [suits, hk])

theorem answer_take (count : Numeral) : Answer (take count) v (parseTake v count.toNat) := by
  have hc : (take count).consuming = true → 0 < count.toNat := by
    intro h
    simp only [consuming, bne_iff_ne] at h
    omega
  rw [parseTake]
  split
  · next h => exact .missing (.inl rfl) (by omega)
  · next h => exact .consume (by omega) hc

theorem answer_takeUntil (literal : Chunk) (policy : Policy) :
    Answer (takeUntil literal policy) v (parseTakeUntil v literal policy) := by
  by_cases hk : literal.kind = v.kind
  · rw [parseTakeUntil_of_kind hk]
    split
    · next i h =>
      have hle := firstOccurrence_add_length_le h
      rw [View.length_symbols] at hle
      exact .consume (by omega) fun h => nomatch h
    · exact .waiting (.inr rfl) fun n h => nomatch h
    · exact .rejected (by decide)
  · rw [parseTakeUntil, checkKind_of_ne hk]
    exact .otherKind (by simp [suits, hk])

theorem answer_unit (name : String) (expects : Option (String × Kind)) (test : SymbolTest)
    (policy : Policy) : Answer (unit name expects test policy) v (parseUnit v expects test policy) := by
  have hnone : Answer (unit name expects test policy) v (parseUnit v none test policy) := by
    cases hs : v.symbol? 0 with
    | none =>
      rw [parseUnit_of_none hs]
      cases policy with
      | streaming => exact .missing (.inr rfl) Nat.one_pos
      | complete => exact .rejected (by decide)
    | some s =>
      rw [parseUnit_of_symbol hs]
      rcases ht : test s with e | _ | _
      · exact .raised ⟨s, ht⟩
      · exact .rejected (by decide)
      · exact .consumed (lt_length_of_symbol? hs) fun _ => Nat.one_pos
  cases expects with
  | none => exact hnone
  | some e =>
    obtain ⟨primitive, kind⟩ := e
    rw [parseUnit_some]
    by_cases hk : kind = v.kind
    · rw [checkKind_of_eq hk]
      exact hnone
    · rw [checkKind_of_ne hk]
      exact .otherKind (by simp [suits, hk])

theorem answer_run (name : String) (test : SymbolTest) (policy : Policy) :
    Answer (run name test policy) v (parseRun v test policy) := by
  cases hl : leading test v.symbols with
  | error e =>
    rw [parseRun_of_error hl]
    exact .raised (exists_error_of_leading hl)
  | ok count =>
    have hle := leading_le hl
    rw [View.length_symbols] at hle
    rw [parseRun_of_ok hl]
    split
    · next h => exact .missing (.inr (congrArg some h.2)) Nat.one_pos
    · split
      · exact .rejected (by decide)
      · next h => exact .consume hle fun _ => Nat.pos_of_ne_zero h

theorem answer_lineCut (policy : Policy) : Answer (lineEnding policy) v (lineCut v policy) := by
  cases policy with
  | streaming => exact .missing (.inr rfl) Nat.one_pos
  | complete => exact .rejected (by decide)

theorem answer_lineEnding (policy : Policy) :
    Answer (lineEnding policy) v (parseLineEnding v policy) := by
  rw [parseLineEnding]
  split
  · exact answer_lineCut v policy
  · next first h =>
    split
    · exact .consume (lt_length_of_symbol? h) fun _ => Nat.one_pos
    · split
      · split
        · exact answer_lineCut v policy
        · next second h' =>
          split
          · exact .consume (lt_length_of_symbol? h') fun _ => Nat.two_pos
          · exact .rejected (by decide)
      · exact .rejected (by decide)

theorem answer_endOfInput : Answer endOfInput v (.ok (parseEndOfInput v)) := by
  rw [parseEndOfInput]
  split
  · exact .atEnd rfl
  · exact .rejected (by decide)

theorem answer_integer (format : IntegerFormat) :
    Answer (integer format) v (parseInteger v format) := by
  have hc : (integer format).consuming = true → 0 < format.width := by
    intro h
    simp only [consuming, bne_iff_ne] at h
    omega
  by_cases hk : v.kind = .text
  · rw [parseInteger, if_pos hk]
    exact .onText (by simp [suits, hk])
  · by_cases hl : v.length < format.width
    · rw [parseInteger, if_neg hk, if_pos hl]
      exact .missing (.inl rfl) (by omega)
    · rw [parseInteger_of_le hk (Nat.not_lt.1 hl)]
      exact .consumed (Nat.not_lt.1 hl) hc

/-- Every answer of a primitive is one of those listed. -/
theorem answer (p : Primitive) : Answer p v (p.parse v) := by
  cases p with
  | tag literal => exact answer_tag v literal
  | tagNoCase literal => exact answer_tagNoCase v literal
  | take count => exact answer_take v count
  | takeUntil literal policy => exact answer_takeUntil v literal policy
  | unit name expects test policy => exact answer_unit v name expects test policy
  | run name test policy => exact answer_run v name test policy
  | lineEnding policy => exact answer_lineEnding v policy
  | endOfInput => exact answer_endOfInput v
  | integer format => exact answer_integer v format

end Primitive
end StreamGrammar
