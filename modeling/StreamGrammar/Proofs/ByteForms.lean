import StreamGrammar.Proofs.Literals

/-! # Forms of bytes

Bytes are held in three forms, and a literal is taken in any of them: what is built from it is the same grammar
(`ByteMatcher.build_literal_eq`). A set of members is not. Bytes held for good and bytes that can grow are taken apart
into single bytes, but a window counts as a collection of numbers, which no symbol equals, and with it goes the check of
the kind of input. So a window accepts nothing as a set, and excludes nothing (`Grammar.bytes_in_any_form`). -/

namespace StreamGrammar

variable {defs : Definitions}

/-! ### Constructors -/

/-- The constructors that take a literal or a set of members. -/
inductive ByteMatcher where
  | tag
  | tagNoCase
  | takeUntil (policy : Policy)
  | char (policy : Policy)
  | oneOf (policy : Policy)
  | noneOf (policy : Policy)

namespace ByteMatcher

def build : ByteMatcher → Value → Except Fault Grammar
  | tag, x => Grammar.tag x
  | tagNoCase, x => Grammar.tagNoCase x
  | takeUntil policy, x => Grammar.takeUntil x policy
  | char policy, x => Grammar.char x policy
  | oneOf policy, x => Grammar.oneOf x policy
  | noneOf policy, x => Grammar.noneOf x policy

def isSet : ByteMatcher → Bool
  | oneOf _ => true
  | noneOf _ => true
  | _ => false

/-- A literal is held for good before anything else is done with it. -/
theorem build_literal_eq {m : ByteMatcher} (hm : m.isSet = false) (form form' : ByteForm) (bs : List UInt8) :
    m.build (.chunk (.bytes form bs)) = m.build (.chunk (.bytes form' bs)) := by
  cases m with
  | tag => rfl
  | tagNoCase => rfl
  | takeUntil policy => rfl
  | char policy => rfl
  | oneOf policy => cases hm
  | noneOf policy => cases hm

end ByteMatcher

/-! ### Members -/

namespace Value

theorem same_toValue (s t : Symbol) : same s.toValue (.chunk t.toChunk) = (s == t) := by
  cases s <;> cases t <;> simp [Symbol.toValue, Symbol.toChunk, same, Chunk.same, Chunk.kind, Chunk.symbols]

theorem same_toValue_int (s : Symbol) (n : Int) : same s.toValue (.int n) = false := by
  simp [Symbol.toValue, same]

theorem any_same_singles (s : Symbol) (c : Chunk) :
    (c.singles.map chunk).any (same s.toValue ·) = c.symbols.contains s := by
  rw [Chunk.singles, List.any_map, List.any_map, List.contains_eq_any_beq]
  exact congrArg (c.symbols.any ·) (funext (same_toValue s))

/-- No symbol is a number. -/
theorem any_same_numbers (s : Symbol) (bs : List UInt8) :
    (bs.map fun b => int b.toNat).any (same s.toValue ·) = false := by
  rw [List.any_map, List.any_eq_false]
  intro b _
  rw [Function.comp_apply, same_toValue_int]
  exact Bool.false_ne_true

end Value

namespace Grammar
variable {form form' : ByteForm} {bs : List UInt8} {v : View} {policy : Policy} {accept : Bool} {word : String}

/-- The test for a set of members, of which only the symbols matter. -/
abbrev memberPrimitive (name : String) (expects : Option (String × Kind)) (accept : Bool) (members : List Symbol)
    (policy : Policy) : Primitive :=
  .unit name expects (fun s => .ok (members.contains s == accept)) policy

theorem exists_memberTest (hform : form ≠ .window) (accept : Bool) (word : String) (bs : List UInt8) (policy : Policy) :
    ∃ name, memberTest accept word (.chunk (.bytes form bs)) policy =
      .ok (primitive (memberPrimitive name (some (word, .binary)) accept (bs.map .byte) policy)) := by
  have htest : (fun s => .ok (((Chunk.bytes form bs).singles.map Value.chunk).any (Value.same s.toValue ·) == accept) :
      SymbolTest) = fun s => .ok ((bs.map Symbol.byte).contains s == accept) := by
    funext s
    rw [Value.any_same_singles]
    rfl
  unfold memberPrimitive
  rw [← htest]
  cases form with
  | fixed => exact ⟨_, rfl⟩
  | growable => exact ⟨_, rfl⟩
  | window => exact absurd rfl hform

/-- As a set, a window has no members that count, and no kind. -/
theorem exists_memberTest_window (accept : Bool) (word : String) (bs : List UInt8) (policy : Policy) :
    ∃ name, memberTest accept word (.chunk (.bytes .window bs)) policy =
      .ok (primitive (memberPrimitive name none accept [] policy)) := by
  have htest : (fun s => .ok ((bs.map fun b => Value.int b.toNat).any (Value.same s.toValue ·) == accept) :
      SymbolTest) = fun s => .ok (([] : List Symbol).contains s == accept) := by
    funext s
    rw [Value.any_same_numbers]
    rfl
  unfold memberPrimitive
  rw [← htest]
  exact ⟨_, rfl⟩

theorem yields_primitive_congr_iff {p q : Primitive} :
    (∀ r, (primitive p).Yields defs v r ↔ (primitive q).Yields defs v r) ↔ p.parse v = q.parse v := by
  constructor
  · intro h
    exact ((h _).1 (yields_primitive defs p v)).unique (yields_primitive defs q v)
  · intro h r
    constructor
    · intro hr
      rw [hr.unique (yields_primitive defs p v), h]
      exact yields_primitive defs q v
    · intro hr
      rw [hr.unique (yields_primitive defs q v), ← h]
      exact yields_primitive defs p v

/-! ### What sets accept -/

section
variable {name : String} {members : List Symbol} {s : Symbol}

theorem parse_memberPrimitive_of_kind (hk : v.kind = .binary) :
    (memberPrimitive name (some (word, .binary)) accept members policy).parse v =
      (memberPrimitive name none accept members policy).parse v := by
  show Primitive.parseUnit v (some (word, .binary)) _ policy = _
  rw [Primitive.parseUnit_some, Primitive.checkKind_of_eq hk.symm]
  rfl

theorem parse_memberPrimitive_of_symbol (hs : v.symbol? 0 = some s) :
    (memberPrimitive name none accept members policy).parse v =
      .ok (if members.contains s = accept then .done (v.drop 1) s.toValue else .failAt .charMismatch v) := by
  show Primitive.parseUnit v none _ policy = _
  rw [Primitive.parseUnit_of_symbol hs]
  cases members.contains s <;> cases accept <;> rfl

theorem parse_memberPrimitive_of_none (hs : v.symbol? 0 = none) :
    (memberPrimitive name none accept members policy).parse v = Primitive.lineCut v policy := by
  show Primitive.parseUnit v none _ policy = _
  rw [Primitive.parseUnit_of_none hs]
  rfl

theorem exists_outcome_memberPrimitive (name : String) (accept : Bool) (members : List Symbol) (policy : Policy)
    (v : View) :
    ∃ o, (memberPrimitive name none accept members policy).parse v = .ok o := by
  cases hs : v.symbol? 0 with
  | none =>
    rw [parse_memberPrimitive_of_none hs]
    cases policy <;> exact ⟨_, rfl⟩
  | some s => exact ⟨_, parse_memberPrimitive_of_symbol hs⟩

/-- The two tests differ exactly on input of the other kind and where the first symbol is a member. -/
theorem parse_members_eq_iff {name' : String} :
    (memberPrimitive name (some (word, .binary)) accept members policy).parse v =
      (memberPrimitive name' none accept [] policy).parse v ↔
      v.kind = .binary ∧ ∀ s, v.symbol? 0 = some s → s ∉ members := by
  by_cases hk : v.kind = .binary
  · rw [parse_memberPrimitive_of_kind hk]
    cases hs : v.symbol? 0 with
    | none =>
      rw [parse_memberPrimitive_of_none hs, parse_memberPrimitive_of_none hs]
      exact ⟨fun _ => ⟨hk, nofun⟩, fun _ => rfl⟩
    | some s =>
      have hmember : (v.kind = .binary ∧ ∀ t, some s = some t → t ∉ members) ↔ members.contains s = false := by
        simp [hk]
      rw [parse_memberPrimitive_of_symbol hs, parse_memberPrimitive_of_symbol hs, hmember, List.contains_nil]
      cases members.contains s <;> cases accept <;> simp [Outcome.failAt]
  · have hraises : (memberPrimitive name (some (word, .binary)) accept members policy).parse v =
        .error (.kindMismatch word .binary v.kind) := by
      show Primitive.parseUnit v (some (word, .binary)) _ policy = _
      rw [Primitive.parseUnit_some, Primitive.checkKind_of_ne (Ne.symm hk)]
      rfl
    obtain ⟨o, ho⟩ := exists_outcome_memberPrimitive name' accept [] policy v
    rw [hraises, ho]
    exact ⟨nofun, fun h => absurd h.1 hk⟩

end

/-! ### The forms compared -/

/-- Both are refused for one reason, or both are grammars that yield the same on every view. -/
def SameMatcher (defs : Definitions) (r r' : Except Fault Grammar) : Prop :=
  Correspond (· = ·) (fun g h => ∀ v s, g.Yields defs v s ↔ h.Yields defs v s) r r'

theorem same_of_sets (accept : Bool) (word : String) (policy : Policy) (hform : form ≠ .window)
    (hform' : form' ≠ .window) (bs : List UInt8) :
    SameMatcher defs (memberTest accept word (.chunk (.bytes form bs)) policy)
      (memberTest accept word (.chunk (.bytes form' bs)) policy) := by
  obtain ⟨name, hg⟩ := exists_memberTest hform accept word bs policy
  obtain ⟨name', hh⟩ := exists_memberTest hform' accept word bs policy
  rw [SameMatcher, hg, hh]
  exact .ok fun v => yields_primitive_congr_iff.2 rfl

theorem same_of_literals (m : ByteMatcher) (hm : m.isSet = false) (form form' : ByteForm) (bs : List UInt8) :
    SameMatcher defs (m.build (.chunk (.bytes form bs))) (m.build (.chunk (.bytes form' bs))) := by
  rw [ByteMatcher.build_literal_eq hm form form']
  refine (Correspond.refl _).mono (fun _ _ h => h) ?_
  rintro g _ rfl v s
  exact Iff.rfl

theorem window_alike (accept : Bool) (word : String) (policy : Policy) (bs : List UInt8) :
    ∃ g h, memberTest accept word (.chunk (.bytes .fixed bs)) policy = .ok g ∧
      memberTest accept word (.chunk (.bytes .window bs)) policy = .ok h ∧ ∀ v,
        (∀ r, g.Yields defs v r ↔ h.Yields defs v r) ↔
          v.kind = .binary ∧ ∀ s, v.symbol? 0 = some s → s ∉ bs.map .byte := by
  have hfixed : ByteForm.fixed ≠ .window := by decide
  obtain ⟨name, hg⟩ := exists_memberTest hfixed accept word bs policy
  obtain ⟨name', hh⟩ := exists_memberTest_window accept word bs policy
  exact ⟨_, _, hg, hh, fun v => yields_primitive_congr_iff.trans parse_members_eq_iff⟩

theorem exists_accepting (hform : form ≠ .window) (accept : Bool) (word : String) (bs : List UInt8) (policy : Policy) :
    ∃ g, memberTest accept word (.chunk (.bytes form bs)) policy = .ok g ∧ ∀ v s, v.kind = .binary →
      v.symbol? 0 = some s → g.Yields defs v
        (.ok (if (bs.map Symbol.byte).contains s = accept then .done (v.drop 1) s.toValue
          else .failAt .charMismatch v)) := by
  obtain ⟨name, hg⟩ := exists_memberTest hform accept word bs policy
  refine ⟨_, hg, fun v s hk hs => ?_⟩
  rw [← parse_memberPrimitive_of_symbol hs, ← parse_memberPrimitive_of_kind hk]
  exact yields_primitive defs _ v

theorem exists_accepting_window (accept : Bool) (word : String) (bs : List UInt8) (policy : Policy) :
    ∃ g, memberTest accept word (.chunk (.bytes .window bs)) policy = .ok g ∧ ∀ v s, v.symbol? 0 = some s →
      g.Yields defs v (.ok (if false = accept then .done (v.drop 1) s.toValue else .failAt .charMismatch v)) := by
  obtain ⟨name, hg⟩ := exists_memberTest_window accept word bs policy
  refine ⟨_, hg, fun v s hs => ?_⟩
  have hyields := yields_primitive defs (memberPrimitive name none accept [] policy) v
  rw [parse_memberPrimitive_of_symbol hs] at hyields
  exact hyields

/-- What the form of the bytes has to do with what is built from them. -/
structure ByteFormLaw (defs : Definitions) (bs : List UInt8) : Prop where
  alike : ∀ (m : ByteMatcher) (form form' : ByteForm), (m.isSet = true → form ≠ .window ∧ form' ≠ .window) →
    SameMatcher defs (m.build (.chunk (.bytes form bs))) (m.build (.chunk (.bytes form' bs)))
  member : ∀ policy form, form ≠ .window → ∃ g h, oneOf (.chunk (.bytes form bs)) policy = .ok g ∧
    noneOf (.chunk (.bytes form bs)) policy = .ok h ∧ ∀ v s, v.kind = .binary → v.symbol? 0 = some s →
      g.Yields defs v (.ok (if s ∈ bs.map .byte then .done (v.drop 1) s.toValue else .failAt .charMismatch v)) ∧
      h.Yields defs v (.ok (if s ∈ bs.map .byte then .failAt .charMismatch v else .done (v.drop 1) s.toValue))
  window : ∀ policy, ∃ g h, oneOf (.chunk (.bytes .window bs)) policy = .ok g ∧
    noneOf (.chunk (.bytes .window bs)) policy = .ok h ∧ ∀ v s, v.symbol? 0 = some s →
      g.Yields defs v (.ok (.failAt .charMismatch v)) ∧ h.Yields defs v (.ok (.done (v.drop 1) s.toValue))
  windowAlike : ∀ m : ByteMatcher, m.isSet = true → ∃ g h, m.build (.chunk (.bytes .fixed bs)) = .ok g ∧
    m.build (.chunk (.bytes .window bs)) = .ok h ∧ ∀ v, (∀ r, g.Yields defs v r ↔ h.Yields defs v r) ↔
      v.kind = .binary ∧ ∀ s, v.symbol? 0 = some s → s ∉ bs.map .byte

/-- From bytes in any form a literal is built alike, and so is a set of members from bytes that are no window. A window
as a set holds no symbol, and it goes unnoticed only where the input is binary and does not begin with one of its
bytes. -/
theorem bytes_in_any_form (defs : Definitions) (bs : List UInt8) : ByteFormLaw defs bs where
  alike m form form' hset := by
    cases m with
    | oneOf policy => exact same_of_sets true "one_of" policy (hset rfl).1 (hset rfl).2 bs
    | noneOf policy => exact same_of_sets false "none_of" policy (hset rfl).1 (hset rfl).2 bs
    | _ => exact same_of_literals _ rfl form form' bs
  member policy form hform := by
    obtain ⟨g, hg, haccepts⟩ := exists_accepting hform true "one_of" bs policy
    obtain ⟨h, hh, hrejects⟩ := exists_accepting hform false "none_of" bs policy
    refine ⟨g, h, hg, hh, fun v s hk hs => ?_⟩
    have hone := haccepts v s hk hs
    have hnone := hrejects v s hk hs
    by_cases hmem : s ∈ bs.map .byte
    · rw [List.contains_iff_mem.2 hmem] at hone hnone
      rw [if_pos hmem, if_pos hmem]
      exact ⟨hone, hnone⟩
    · have hnot : (bs.map Symbol.byte).contains s = false := by simpa using hmem
      rw [hnot] at hone hnone
      rw [if_neg hmem, if_neg hmem]
      exact ⟨hone, hnone⟩
  window policy := by
    obtain ⟨g, hg, haccepts⟩ := exists_accepting_window true "one_of" bs policy
    obtain ⟨h, hh, hrejects⟩ := exists_accepting_window false "none_of" bs policy
    exact ⟨g, h, hg, hh, fun v s hs => ⟨haccepts v s hs, hrejects v s hs⟩⟩
  windowAlike m hm := by
    cases m with
    | oneOf policy => exact window_alike true "one_of" policy bs
    | noneOf policy => exact window_alike false "none_of" policy bs
    | _ => cases hm

/-- The signs of a number. -/
def signs : List UInt8 := [43, 45]

def signedNumber : View := .whole ⟨0, .bytes .fixed [45, 49]⟩

/-- Given as a window, the signs are not found where they are found otherwise. -/
theorem window_holds_no_sign :
    (∃ g h, oneOf (.chunk (.bytes .fixed signs)) .streaming = .ok g ∧
      oneOf (.chunk (.bytes .window signs)) .streaming = .ok h ∧
        g.Yields noDefinitions signedNumber (.ok (.done (signedNumber.drop 1) (.chunk (.bytes .fixed [45])))) ∧
        h.Yields noDefinitions signedNumber (.ok (.failAt .charMismatch signedNumber))) ∧
    ¬ SameMatcher noDefinitions (oneOf (.chunk (.bytes .fixed signs)) .streaming)
      (oneOf (.chunk (.bytes .window signs)) .streaming) := by
  obtain ⟨g, h, hg, hh, halike⟩ := window_alike true "one_of" .streaming signs
  refine ⟨⟨g, h, hg, hh, ?_, ?_⟩, fun hsame => ?_⟩
  · cases hg
    exact .of_result (n := 1) (by decide +kernel)
  · cases hh
    exact .of_result (n := 1) (by decide +kernel)
  · rw [oneOf, oneOf, hg, hh] at hsame
    cases hsame with
    | ok hsame =>
      have hnone := ((halike signedNumber).1 (hsame signedNumber)).2 (.byte 45) rfl
      exact hnone (by decide)

end Grammar
end StreamGrammar
