import StreamGrammar.Proofs.Encoding
import StreamGrammar.Proofs.Mirror

/-! # Text grammars and their binary renditions

`Grammar.renditions_agree`: a grammar for ASCII text and its rendition for bytes come to the same on a text and on
its encoding. `Grammar.Rendition` is stated with the constructors that callers use, so the tests that these build
for single symbols and for sets of symbols are shown to answer alike; only the functions of callers are assumed to.
The two sides are related by a similarity that is not lenient, and so the result holds both ways. -/

namespace StreamGrammar

open List (Forall₂)

/-! ### Values and functions of callers -/

/-- Outputs of the two parses. What the functions of callers make of them may belong together in a way of its
`own`. -/
inductive Value.Encodes (own : Value → Value → Prop) : Value → Value → Prop
  | null : Encodes own .null .null
  | chunk {c d : Chunk} : c.Encodes d → Encodes own (.chunk c) (.chunk d)
  | view {v w : View} : v.Encodes w → Encodes own (.view v) (.view w)
  | list {xs ys : List Value} : Forall₂ (Encodes own) xs ys → Encodes own (.list xs) (.list ys)
  | tuple {xs ys : List Value} : Forall₂ (Encodes own) xs ys → Encodes own (.tuple xs) (.tuple ys)
  | own {x y : Value} : own x y → Encodes own x y

/-- Errors of the same class. -/
def Raised.Akin (e e' : Raised) : Prop := e.errorClass = e'.errorClass

section Nodes
variable (own : Value → Value → Prop)

/-- The same way to put outputs together, or functions of callers that do so alike. -/
inductive Assembly.Rendition : Assembly → Assembly → Prop
  | same {a : Assembly} : a.Uniform Raised.Akin (Value.Encodes own) → Rendition a a
  | slots {names : List (Option String)} {f f' : Construct} :
    (∀ bs cs, Forall₂ (fun b c => b.1 = c.1 ∧ Value.Encodes own b.2 c.2) bs cs →
      Correspond Raised.Akin (Value.Encodes own) (f bs) (f' cs)) → Rendition (.slots names f) (.slots names f')

inductive Repetition.Rendition : Repetition → Repetition → Prop
  | same {r : Repetition} : r.Uniform Raised.Akin (Value.Encodes own) → Rendition r r
  | fold0 {x y : FoldStart} {f f' : FoldStep} : Correspond Raised.Akin (Value.Encodes own) x y →
    (∀ a b x y, Value.Encodes own a b → Value.Encodes own x y →
      Correspond Raised.Akin (Value.Encodes own) (f a x) (f' b y)) → Rendition (.fold0 x f) (.fold0 y f')
  | fold1 {x y : FoldStart} {f f' : FoldStep} : Correspond Raised.Akin (Value.Encodes own) x y →
    (∀ a b x y, Value.Encodes own a b → Value.Encodes own x y →
      Correspond Raised.Akin (Value.Encodes own) (f a x) (f' b y)) → Rendition (.fold1 x f) (.fold1 y f')

inductive Adapter.Rendition : Adapter → Adapter → Prop
  | same {a : Adapter} : a.Uniform Raised.Akin (Value.Encodes own) → Rendition a a
  | map {f f' : Transform} :
    (∀ x y, Value.Encodes own x y → Correspond Raised.Akin (Value.Encodes own) (f x) (f' y)) →
      Rendition (.map f) (.map f')
  | mapResult {f f' : Transform} {caught : List ErrorClass} {code : Option Value} :
    (∀ x y, Value.Encodes own x y → Correspond Raised.Akin (Value.Encodes own) (f x) (f' y)) →
      Rendition (.mapResult f caught code) (.mapResult f' caught code)
  | verify {f f' : ValueTest} :
    (∀ x y, Value.Encodes own x y → Correspond Raised.Akin (· = ·) (f x) (f' y)) →
      Rendition (.verify f) (.verify f')

end Nodes

/-- Sets of symbols, given as text or as texts in a collection, and their encodings. -/
inductive Value.MembersEncode : Value → Value → Prop
  | chunk {c d : Chunk} : c.Encodes d → MembersEncode (.chunk c) (.chunk d)
  | list {cs ds : List Chunk} : Forall₂ Chunk.Encodes cs ds →
    MembersEncode (.list (cs.map .chunk)) (.list (ds.map .chunk))
  | tuple {cs ds : List Chunk} : Forall₂ Chunk.Encodes cs ds →
    MembersEncode (.tuple (cs.map .chunk)) (.tuple (ds.map .chunk))

/-- Tests of callers that answer alike on a character and on its byte. -/
def ValueTest.Encode (test test' : ValueTest) : Prop :=
  ∀ s t : Symbol, s.Encodes t → Correspond Raised.Akin (· = ·) (test s.toValue) (test' t.toValue)

namespace Grammar

/-- The second grammar is the first one with every literal and set of symbols encoded, and with functions of
callers that do alike what those of the first one do. -/
inductive Rendition (own : Value → Value → Prop) : Grammar → Grammar → Prop
  | tag {c d : Chunk} {g h : Grammar} : c.Encodes d → tag (.chunk c) = .ok g → tag (.chunk d) = .ok h →
    Rendition own g h
  | tagNoCase {c d : Chunk} {g h : Grammar} : c.Encodes d → tagNoCase (.chunk c) = .ok g →
    tagNoCase (.chunk d) = .ok h → Rendition own g h
  | takeUntil {c d : Chunk} {policy : Policy} {g h : Grammar} : c.Encodes d → takeUntil (.chunk c) policy = .ok g →
    takeUntil (.chunk d) policy = .ok h → Rendition own g h
  | char {c d : Chunk} {policy : Policy} {g h : Grammar} : c.Encodes d → char (.chunk c) policy = .ok g →
    char (.chunk d) policy = .ok h → Rendition own g h
  | oneOf {x y : Value} {policy : Policy} {g h : Grammar} : x.MembersEncode y → oneOf x policy = .ok g →
    oneOf y policy = .ok h → Rendition own g h
  | noneOf {x y : Value} {policy : Policy} {g h : Grammar} : x.MembersEncode y → noneOf x policy = .ok g →
    noneOf y policy = .ok h → Rendition own g h
  | take {count : Numeral} {g : Grammar} : take count = .ok g → Rendition own g g
  | satisfy {test test' : ValueTest} (name name' : String) (policy : Policy) : test.Encode test' →
    Rendition own (satisfy test name policy) (satisfy test' name' policy)
  | takeWhile1 {test test' : ValueTest} (name name' : String) (policy : Policy) : test.Encode test' →
    Rendition own (takeWhile1 test name policy) (takeWhile1 test' name' policy)
  | takeTill1 {test test' : ValueTest} (name name' : String) (policy : Policy) : test.Encode test' →
    Rendition own (takeTill1 test name policy) (takeTill1 test' name' policy)
  | alphabetRun (alphabet name : String) (policy : Policy) :
    Rendition own (alphabetRun alphabet name policy) (alphabetRun alphabet name policy)
  | lineEnding (policy : Policy) : Rendition own (lineEnding policy) (lineEnding policy)
  | endOfInput : Rendition own endOfInput endOfInput
  | sequence {a b : Assembly} {gs hs : List Grammar} : a.Rendition own b → gs.length = hs.length →
    (∀ {g h}, (g, h) ∈ gs.zip hs → Rendition own g h) → Rendition own (.sequence a gs) (.sequence b hs)
  | choice {g h : Grammar} {gs hs : List Grammar} : Rendition own g h → gs.length = hs.length →
    (∀ {g h}, (g, h) ∈ gs.zip hs → Rendition own g h) → Rendition own (.choice g gs) (.choice h hs)
  | repeated {r r' : Repetition} {g h : Grammar} : r.Rendition own r' → Rendition own g h →
    Rendition own (.repeated r g) (.repeated r' h)
  | manyTill {g h t t' : Grammar} : Rendition own g h → Rendition own t t' →
    Rendition own (.manyTill g t) (.manyTill h t')
  | separated {nonempty : Bool} {g h s s' : Grammar} : Rendition own s s' → Rendition own g h →
    Rendition own (.separated nonempty s g) (.separated nonempty s' h)
  | adapted {a b : Adapter} {g h : Grammar} : a.Rendition own b → Rendition own g h →
    Rendition own (.adapted a g) (.adapted b h)
  | deferred (name name' : String) (key : Key) : Rendition own (.deferred name key) (.deferred name' key)

end Grammar

/-! ### The similarity -/

theorem Raised.akin_refl (e : Raised) : e.Akin e := rfl

namespace View
variable {u w v v' r r' : View} {own : Value → Value → Prop}

/-- What two suffixes at the same offsets have consumed is encoded alike. -/
theorem Encodes.consumedUntil (h : u.Encodes w) (hv : v.SuffixOf u ∧ v'.SuffixOf w ∧ v.offset = v'.offset)
    (hr : r.SuffixOf u ∧ r'.SuffixOf w ∧ r.offset = r'.offset) :
    Correspond (· = ·) (fun head head' => Value.Encodes own (.view head) (.view head'))
      (v.consumedUntil r) (v'.consumedUntil r') := by
  obtain ⟨hv, hv', ho⟩ := hv
  obtain ⟨hr, hr', ho'⟩ := hr
  by_cases hle : v.offset ≤ r.offset
  · have hle' : v'.offset ≤ r'.offset := by rwa [← ho, ← ho']
    obtain ⟨head, head', hhead, hhead', hs⟩ :=
      (h.suffix hv hv' ho).consumed (hv.of_le hr hle) (hv'.of_le hr' hle') ho'
    rw [hhead, hhead']
    exact .ok (.view hs)
  · rw [View.consumedUntil_of_lt (by omega), View.consumedUntil_of_lt (by omega)]
    exact .error rfl

end View

/-- Relates suffixes of `u` and of its encoding `w` at the same offset. -/
def Similarity.encoding (own : Value → Value → Prop) {u w : View} (h : u.Encodes w) : Similarity where
  view v v' := v.SuffixOf u ∧ v'.SuffixOf w ∧ v.offset = v'.offset
  value := Value.Encodes own
  position p q := p.toNat = q.toNat
  raised := Raised.Akin
  shared _ := True
  lenient := False
  start := View.start_of_suffixes
  progress := View.moves_iff_of_suffixes
  consumed := h.consumedUntil
  null := .null
  tuple := .tuple
  list := .list
  raised_refl := Raised.akin_refl
  errorClass h := h
  shared_of _ := trivial

/-! ### Primitives -/

namespace Primitive
variable {own : Value → Value → Prop} {u w v v' : View} {h : u.Encodes w}

theorem encoding_missing (n : Nat) : (Similarity.encoding own h).Leaves (missing n) (missing n) := by
  refine .inr ?_
  rcases Nat.eq_zero_or_pos n with rfl | hn
  · exact .error (.same trivial)
  · rw [missing_of_pos hn]
    exact .ok (.incomplete _)

section Related
variable (hv : (Similarity.encoding own h).view v v')
include hv

theorem encodes_of_view : v.Encodes v' := h.suffix hv.1 hv.2.1 hv.2.2

theorem encoding_drop (n : Nat) : (Similarity.encoding own h).view (v.drop n) (v'.drop n) :=
  ⟨hv.1.trans (.drop v n), hv.2.1.trans (.drop v' n), ((encodes_of_view hv).drop n).offset⟩

theorem encoding_consume {n : Nat} (hn : n ≤ v.length) :
    (Similarity.encoding own h).Leaves (consume v n) (consume v' n) := by
  have hs := encodes_of_view hv
  rw [consume_of_le hn, consume_of_le (hs.length_eq ▸ hn)]
  exact .inr (.ok (.done (encoding_drop hv n) (.view (hs.take n))))

theorem encoding_failAt (kind : ErrorKind) :
    (Similarity.encoding own h).Leaves (.ok (.failAt kind v)) (.ok (.failAt kind v')) :=
  .inr (.ok (.failAt hv kind))

theorem encoding_tag {c d : Chunk} (hcd : c.Encodes d) :
    (Similarity.encoding own h).Leaves (parseTag v c) (parseTag v' d) := by
  have hs := encodes_of_view hv
  rw [parseTag_of_kind (hcd.kind_left.trans hs.text.symm), parseTag_of_kind (hcd.kind_right.trans hs.binary.symm)]
  simp only [prefix_iff_of_encodes hcd.symbols hs.symbols, prefix_iff_of_encodes hs.symbols hcd.symbols,
    ← hcd.length_eq, ← hs.length_eq]
  split
  · next hp =>
    have hle := hp.length_le
    rw [View.length_symbols, Chunk.length_symbols, ← hcd.length_eq, ← hs.length_eq] at hle
    exact encoding_consume hv hle
  · split
    · exact encoding_missing _
    · exact encoding_failAt hv _

theorem encoding_tagNoCase {c d : Chunk} (hcd : c.Encodes d) :
    (Similarity.encoding own h).Leaves (parseTagNoCase v c) (parseTagNoCase v' d) := by
  have hs := encodes_of_view hv
  rw [parseTagNoCase_of_kind (hcd.kind_left.trans hs.text.symm),
    parseTagNoCase_of_kind (hcd.kind_right.trans hs.binary.symm), any_lower_of_encodes hcd.symbols hs.symbols,
    ← hcd.length_eq, ← hs.length_eq]
  split
  · exact encoding_failAt hv _
  · split
    · exact encoding_missing _
    · next hlt => exact encoding_consume hv (by omega)

theorem encoding_take (count : Nat) :
    (Similarity.encoding own h).Leaves (parseTake v count) (parseTake v' count) := by
  rw [parseTake, parseTake, ← (encodes_of_view hv).length_eq]
  split
  · exact encoding_missing _
  · next hlt => exact encoding_consume hv (by omega)

theorem encoding_takeUntil {c d : Chunk} (hcd : c.Encodes d) (policy : Policy) :
    (Similarity.encoding own h).Leaves (parseTakeUntil v c policy) (parseTakeUntil v' d policy) := by
  have hs := encodes_of_view hv
  rw [parseTakeUntil_of_kind (hcd.kind_left.trans hs.text.symm),
    parseTakeUntil_of_kind (hcd.kind_right.trans hs.binary.symm), ← firstOccurrence_of_encodes hcd.symbols hs.symbols]
  rcases hf : firstOccurrence c.symbols v.symbols with _ | i
  · cases policy with
    | streaming => exact .inr (.ok (.incomplete _))
    | complete => exact encoding_failAt hv _
  · have hle := firstOccurrence_add_length_le hf
    rw [View.length_symbols] at hle
    exact encoding_consume hv (by omega)

/-- Tests that answer alike; what is expected of the input is what it is. -/
theorem encoding_unit {name name' : String} {expects expects' : Option (String × Kind)} {test test' : SymbolTest}
    (hkind : ∀ p ∈ expects, p.2 = .text) (hkind' : ∀ p ∈ expects', p.2 = .binary)
    (htest : ∀ s t, s.Encodes t → Correspond Raised.Akin (· = ·) (test s) (test' t)) (policy : Policy) :
    (Similarity.encoding own h).Leaves ((unit name expects test policy).parse v)
      ((unit name' expects' test' policy).parse v') := by
  have hs := encodes_of_view hv
  show (Similarity.encoding own h).Leaves (parseUnit v expects test policy) (parseUnit v' expects' test' policy)
  have hchecked : ∀ {w : View} {expects : Option (String × Kind)} {test : SymbolTest},
      (∀ p ∈ expects, p.2 = w.kind) → parseUnit w expects test policy = parseUnit w none test policy := by
    intro w expects test hw
    rcases expects with _ | ⟨name, kind⟩
    · rfl
    · rw [parseUnit_some, checkKind_of_eq (hw _ rfl)]
      rfl
  rw [hchecked fun p hp => (hkind p hp).trans hs.text.symm, hchecked fun p hp => (hkind' p hp).trans hs.binary.symm]
  have hsymbol := hs.symbol? 0
  rcases h0 : v.symbol? 0 with _ | s <;> rcases h0' : v'.symbol? 0 with _ | t <;> rw [h0, h0'] at hsymbol
  · rw [parseUnit_of_none h0, parseUnit_of_none h0']
    cases policy with
    | streaming => exact encoding_missing 1
    | complete => exact encoding_failAt hv _
  · cases hsymbol
  · cases hsymbol
  · obtain ⟨hst⟩ := hsymbol
    rw [parseUnit_of_symbol h0, parseUnit_of_symbol h0']
    have htst := htest s t hst
    generalize test s = r, test' t = r' at htst
    rcases htst with he | @⟨passes, _, ⟨⟩⟩
    · exact .inr (.error (.raised he))
    · cases passes with
      | true => exact .inr (.ok (.done (encoding_drop hv 1) (.chunk hst.toChunk)))
      | false => exact encoding_failAt hv _

theorem encoding_run {test test' : SymbolTest}
    (htest : ∀ s t, s.Encodes t → Correspond Raised.Akin (· = ·) (test s) (test' t)) (policy : Policy) :
    (Similarity.encoding own h).Leaves (parseRun v test policy) (parseRun v' test' policy) := by
  have hs := encodes_of_view hv
  have hleading := leading_of_encodes htest hs.symbols
  rcases hl : leading test v.symbols with e | n <;> rcases hl' : leading test' v'.symbols with e' | n' <;>
    rw [hl, hl'] at hleading <;> rcases hleading with he | heq
  · rw [parseRun_of_error hl, parseRun_of_error hl']
    exact .inr (.error (.raised he))
  · subst heq
    have hle := leading_le hl
    rw [View.length_symbols] at hle
    rw [parseRun_of_ok hl, parseRun_of_ok hl', ← hs.length_eq]
    split
    · exact encoding_missing 1
    · split
      · exact encoding_failAt hv _
      · exact encoding_consume hv hle

theorem encoding_lineCut (policy : Policy) :
    (Similarity.encoding own h).Leaves (lineCut v policy) (lineCut v' policy) := by
  cases policy with
  | streaming => exact encoding_missing 1
  | complete => exact encoding_failAt hv _

theorem encoding_lineEnding (policy : Policy) :
    (Similarity.encoding own h).Leaves (parseLineEnding v policy) (parseLineEnding v' policy) := by
  have hs := encodes_of_view hv
  have hfirst := hs.symbol? 0
  have hsecond := hs.symbol? 1
  rw [parseLineEnding, parseLineEnding]
  rcases h0 : v.symbol? 0 with _ | first <;> rcases h0' : v'.symbol? 0 with _ | first' <;> rw [h0, h0'] at hfirst <;>
    rcases hfirst with hfirst | _
  · exact encoding_lineCut hv policy
  dsimp only
  rw [hfirst.isAscii, hfirst.isAscii]
  split
  · exact encoding_consume hv (lt_length_of_symbol? h0)
  split
  · rcases h1 : v.symbol? 1 with _ | second <;> rcases h1' : v'.symbol? 1 with _ | second' <;>
      rw [h1, h1'] at hsecond <;> rcases hsecond with hsecond | _
    · exact encoding_lineCut hv policy
    dsimp only
    rw [hsecond.isAscii]
    split
    · exact encoding_consume hv (lt_length_of_symbol? h1)
    · exact encoding_failAt hv _
  · exact encoding_failAt hv _

theorem encoding_endOfInput :
    (Similarity.encoding own h).Leaves (.ok (parseEndOfInput v)) (.ok (parseEndOfInput v')) := by
  have hs := encodes_of_view hv
  rw [parseEndOfInput, parseEndOfInput, View.isEmpty, View.isEmpty, ← hs.length_eq]
  split
  · exact .inr (.ok (.done hv (.view hs)))
  · exact encoding_failAt hv _

end Related
end Primitive

/-! ### Constructors of grammars -/

namespace Value
variable {x y : Value}

/-- Both are sets of chunks that belong together, each for its kind of input if for one. -/
theorem MembersEncode.members (h : x.MembersEncode y) :
    ∃ cs ds kind kind', x.members = .ok (cs.map .chunk, kind) ∧ y.members = .ok (ds.map .chunk, kind') ∧
      Forall₂ Chunk.Encodes cs ds ∧ (∀ k ∈ kind, k = .text) ∧ ∀ k ∈ kind', k = .binary := by
  have hhashable : ∀ {cs ds : List Chunk}, Forall₂ Chunk.Encodes cs ds →
      firstUnhashable? (cs.map .chunk) = none ∧ firstUnhashable? (ds.map .chunk) = none := by
    intro cs ds hcs
    induction hcs with
    | nil => exact ⟨rfl, rfl⟩
    | cons hcd _ ih =>
      obtain ⟨-⟩ := hcd
      exact ih
  cases h with
  | @chunk c d hcd =>
    refine ⟨c.singles, d.singles, some c.kind, some d.kind, ?_, ?_, ?_, ?_, ?_⟩
    · obtain ⟨-⟩ := hcd
      rfl
    · obtain ⟨-⟩ := hcd
      rfl
    · unfold Chunk.singles
      rw [List.forall₂_map_left_iff, List.forall₂_map_right_iff]
      exact hcd.symbols.imp fun _ _ hst => hst.toChunk
    · rintro _ ⟨⟩
      exact hcd.kind_left
    · rintro _ ⟨⟩
      exact hcd.kind_right
  | @list cs ds hcs =>
    obtain ⟨hleft, hright⟩ := hhashable hcs
    refine ⟨cs, ds, none, none, ?_, ?_, hcs, nofun, nofun⟩
    · rw [Value.members, Value.members.collection, hleft]
    · rw [Value.members, Value.members.collection, hright]
  | @tuple cs ds hcs =>
    obtain ⟨hleft, hright⟩ := hhashable hcs
    refine ⟨cs, ds, none, none, ?_, ?_, hcs, nofun, nofun⟩
    · rw [Value.members, Value.members.collection, hleft]
    · rw [Value.members, Value.members.collection, hright]

/-- A character is a member if and only if its byte is one of the encoded members. -/
theorem any_same_of_encodes {cs ds : List Chunk} (hcs : Forall₂ Chunk.Encodes cs ds) {s t : Symbol}
    (hst : s.Encodes t) :
    (cs.map Value.chunk).any (same s.toValue) = (ds.map Value.chunk).any (same t.toValue) := by
  induction hcs with
  | nil => rfl
  | @cons c d cs ds hcd _ ih =>
    have hsame : same s.toValue (.chunk c) = same t.toValue (.chunk d) := hst.toChunk.same hcd
    rw [List.map_cons, List.map_cons, List.any_cons, List.any_cons, hsame, ih]

end Value

namespace Grammar
variable {own : Value → Value → Prop} {u w : View} {hu : u.Encodes w} {g h : Grammar} {c d : Chunk}

/-- The primitive that is built from a literal holds the bytes of it for good. -/
theorem eq_of_literal {f : Chunk → Primitive} {word : String}
    (hg : ((Value.chunk c).nonemptyLiteral word >>= fun literal => pure (primitive (f literal))) = .ok g) :
    g = primitive (f c.fix) := by
  unfold Value.nonemptyLiteral at hg
  change ((if c.fix.length = 0 then throw _ else pure c.fix : Except Fault Chunk) >>= _) = _ at hg
  split at hg
  · cases hg
  · cases hg
    rfl

theorem exists_of_char {policy : Policy} (hg : char (.chunk c) policy = .ok g) :
    ∃ name expected, c.fix.symbols = [expected] ∧
      g = primitive (.unit name (some ("char", c.fix.kind)) (fun s => .ok (s == expected)) policy) := by
  unfold char at hg
  simp only [byteLiteral, Value.numeral?, Value.literal, bind, Except.bind] at hg
  split at hg
  · next expected hsymbols =>
    cases hg
    exact ⟨_, expected, hsymbols, rfl⟩
  · cases hg

theorem encoding_char {policy : Policy} (hcd : c.Encodes d) (hg : char (.chunk c) policy = .ok g)
    (hh : char (.chunk d) policy = .ok h) : (Similarity.encoding own hu).Grammars g h := by
  obtain ⟨name, expected, hc, rfl⟩ := exists_of_char hg
  obtain ⟨name', expected', hd, rfl⟩ := exists_of_char hh
  have hsymbols := hcd.fix.symbols
  rw [hc, hd] at hsymbols
  obtain _ | ⟨hexpected, -⟩ := hsymbols
  have hequal : ∀ s t : Symbol, s.Encodes t → (s == expected) = (t == expected') := by
    intro s t hst
    rw [Bool.eq_iff_iff, beq_iff_eq, beq_iff_eq]
    exact Relator.rel_eq Symbol.encodes_biUnique hst hexpected
  refine .primitive fun v v' hv => Primitive.encoding_unit hv ?_ ?_ ?_ policy
  · rintro _ ⟨⟩
    exact hcd.fix.kind_left
  · rintro _ ⟨⟩
    exact hcd.fix.kind_right
  · exact fun s t hst => .ok (hequal s t hst)

theorem eq_of_memberTest {accept : Bool} {word : String} {x : Value} {policy : Policy} {members : List Value}
    {kind : Option Kind} (hx : x.members = .ok (members, kind)) (hg : memberTest accept word x policy = .ok g) :
    ∃ name, g = primitive (.unit name (kind.map (word, ·))
      (fun s => .ok (members.any (Value.same s.toValue ·) == accept)) policy) := by
  unfold memberTest at hg
  rw [hx] at hg
  cases hg
  exact ⟨_, rfl⟩

theorem encoding_memberTest {accept : Bool} {word : String} {x y : Value} {policy : Policy} (hxy : x.MembersEncode y)
    (hg : memberTest accept word x policy = .ok g) (hh : memberTest accept word y policy = .ok h) :
    (Similarity.encoding own hu).Grammars g h := by
  obtain ⟨cs, ds, kind, kind', hx, hy, hcs, hkind, hkind'⟩ := hxy.members
  obtain ⟨name, rfl⟩ := eq_of_memberTest hx hg
  obtain ⟨name', rfl⟩ := eq_of_memberTest hy hh
  refine .primitive fun v v' hv => Primitive.encoding_unit hv ?_ ?_ ?_ policy
  · intro p hp
    obtain ⟨k, hk, rfl⟩ := Option.map_eq_some_iff.1 hp
    exact hkind k hk
  · intro p hp
    obtain ⟨k, hk, rfl⟩ := Option.map_eq_some_iff.1 hp
    exact hkind' k hk
  · exact fun s t hst => .ok (congrArg (· == accept) (Value.any_same_of_encodes hcs hst))

theorem encoding_grammars (hgh : Rendition own g h) : (Similarity.encoding own hu).Grammars g h := by
  induction hgh with
  | tag hcd hg hh =>
    rw [eq_of_literal (f := .tag) hg, eq_of_literal (f := .tag) hh]
    exact .primitive fun v v' hv => Primitive.encoding_tag hv hcd.fix
  | tagNoCase hcd hg hh =>
    rw [eq_of_literal (f := .tagNoCase) hg, eq_of_literal (f := .tagNoCase) hh]
    exact .primitive fun v v' hv => Primitive.encoding_tagNoCase hv hcd.fix
  | @takeUntil c d policy g h hcd hg hh =>
    rw [eq_of_literal (f := (.takeUntil · policy)) hg, eq_of_literal (f := (.takeUntil · policy)) hh]
    exact .primitive fun v v' hv => Primitive.encoding_takeUntil hv hcd.fix policy
  | char hcd hg hh => exact encoding_char hcd hg hh
  | oneOf hxy hg hh => exact encoding_memberTest hxy hg hh
  | noneOf hxy hg hh => exact encoding_memberTest hxy hg hh
  | @take count g hg =>
    unfold take at hg
    split at hg
    · cases hg
    · cases hg
      exact .primitive fun v v' hv => Primitive.encoding_take hv count.toNat
  | satisfy name name' policy htest =>
    have hnone : ∀ {k : Kind}, ∀ p ∈ (none : Option (String × Kind)), p.2 = k := fun _ hp => by cases hp
    exact .primitive fun v v' hv => Primitive.encoding_unit hv hnone hnone htest policy
  | takeWhile1 name name' policy htest => exact .primitive fun v v' hv => Primitive.encoding_run hv htest policy
  | takeTill1 name name' policy htest =>
    refine .primitive fun v v' hv => Primitive.encoding_run hv (fun s t hst => (htest s t hst).bind ?_) policy
    rintro passes _ rfl
    exact .ok rfl
  | alphabetRun alphabet name policy =>
    refine .primitive fun v v' hv => Primitive.encoding_run hv (fun s t hst => .ok ?_) policy
    exact hst.holds alphabet
  | lineEnding policy => exact .primitive fun v v' hv => Primitive.encoding_lineEnding hv policy
  | endOfInput => exact .primitive fun v v' hv => Primitive.encoding_endOfInput hv
  | sequence ha hlen _ ih =>
    refine .sequence ?_ hlen ih
    cases ha with
    | same huniform => exact Similarity.assemblies_of_uniform huniform
    | slots hf => exact fun xs ys hxs => (Similarity.captured hxs _).bind hf
  | choice _ hlen _ ih ihs => exact .choice ih hlen ihs
  | repeated hr _ ih =>
    refine .repeated ?_ ih
    cases hr with
    | same huniform => exact Similarity.repetitions_of_uniform huniform
    | fold0 hxy hstep => exact .fold0 hxy hstep
    | fold1 hxy hstep => exact .fold1 hxy hstep
  | manyTill _ _ ih iht => exact .manyTill ih iht
  | separated _ _ ihs ih => exact .separated ihs ih
  | adapted ha _ ih =>
    refine .adapted ?_ ih
    cases ha with
    | same huniform => exact Similarity.adapters_of_uniform huniform
    | map hf => exact .map hf
    | mapResult hf => exact .mapResult hf
    | verify hf => exact .verify hf
  | deferred name name' key => exact .deferred key

end Grammar

/-! ### Results -/

structure Entry.Encodes (e f : Entry) : Prop where
  kind : e.kind = f.kind
  position : e.position.toNat = f.position.toNat
  code : e.code = f.code
  cause : Option.Rel Raised.Akin e.cause f.cause

/-- The same fault, errors of the same class, or repetitions that have stalled at the same offset. -/
inductive Fault.Encodes : Fault → Fault → Prop
  | same (f : Fault) : Encodes f f
  | raised {e e' : Raised} : e.Akin e' → Encodes (.raised e) (.raised e')
  | stalled {word : String} {p q : Position} : p.toNat = q.toNat → Encodes (.stalled word p) (.stalled word q)

inductive Outcome.Encodes (own : Value → Value → Prop) : Outcome Value → Outcome Value → Prop
  | done {v w : View} {x y : Value} : v.Encodes w → v.length = w.length → Value.Encodes own x y →
    Encodes own (.done v x) (.done w y)
  | failed {c d : Chain} : Forall₂ Entry.Encodes c.entries d.entries → Encodes own (.failed c) (.failed d)
  | incomplete (needed : Needed) : Encodes own (.incomplete needed) (.incomplete needed)

namespace Grammar
variable {own : Value → Value → Prop} {v w : View} {hvw : v.Encodes w} {g h : Grammar} {defs defs' : Definitions}

theorem encoding_faults {f f' : Fault} (hff : (Similarity.encoding own hvw).Faults f f') : f.Encodes f' := by
  rcases hff with _ | he | hp
  · exact .same _
  · exact .raised he
  · exact .stalled hp

theorem faults_of_encodes {f f' : Fault} (hff : f.Encodes f') : (Similarity.encoding own hvw).Faults f f' := by
  rcases hff with _ | he | hp
  · exact .same trivial
  · exact .raised he
  · exact .stalled hp

theorem encoding_entries {e f : Entry} (hef : (Similarity.encoding own hvw).Entries e f) : e.Encodes f :=
  ⟨hef.kind, hef.position, hef.code, hef.cause⟩

theorem encoding_outcomes {o o' : Outcome Value}
    (hoo : (Similarity.encoding own hvw).Outcomes (Similarity.encoding own hvw).value o o') : o.Encodes own o' := by
  rcases hoo with ⟨hrest, hxy⟩ | hc | n
  · have hs := Primitive.encodes_of_view hrest
    exact .done hs hs.length_eq hxy
  · exact .failed (.cons (encoding_entries hc.innermost) (hc.outer.imp fun _ _ => encoding_entries))
  · exact .incomplete n

/-- A grammar for text and its rendition for bytes come to the same on ASCII text and on its encoding at the same
offset: each parse ends if the other does, both match, fail or are undecided together, and what remains, the
outputs and the entries belong together. -/
theorem renditions_agree (hgh : Rendition own g h)
    (hdefs : ∀ key, Correspond Fault.Encodes (Rendition own) (defs key) (defs' key)) (hvw : v.Encodes w) :
    (∀ r, g.Yields defs v r → ∃ r', h.Yields defs' w r' ∧ Correspond Fault.Encodes (Outcome.Encodes own) r r') ∧
    ∀ r', h.Yields defs' w r' → ∃ r, g.Yields defs v r ∧ Correspond Fault.Encodes (Outcome.Encodes own) r r' := by
  have hbodies : ∀ key, Correspond (Similarity.encoding own hvw).Faults (Similarity.encoding own hvw).Grammars
      (defs key) (defs' key) :=
    fun key => (hdefs key).mono (fun _ _ => faults_of_encodes) fun _ _ => encoding_grammars
  have hview : (Similarity.encoding own hvw).view v w := ⟨.refl v, .refl w, hvw.offset⟩
  obtain ⟨hright, hleft⟩ := Yields.similar_both (fun hlenient => hlenient) hbodies (encoding_grammars hgh) hview
  refine ⟨fun r hr => ?_, fun r' hr' => ?_⟩
  · obtain ⟨r', hr', hcorr⟩ := hright r hr
    exact ⟨r', hr', hcorr.mono (fun _ _ => encoding_faults) fun _ _ => encoding_outcomes⟩
  · obtain ⟨r, hr, hcorr⟩ := hleft r' hr'
    exact ⟨r, hr, hcorr.mono (fun _ _ => encoding_faults) fun _ _ => encoding_outcomes⟩

/-- How many symbols a view shows. -/
def symbolCount : Transform
  | .view v => .ok (.int v.length)
  | x => .ok x

def sameNumber (x y : Value) : Prop := ∃ n, x = .int n ∧ y = .int n

theorem symbolCount_uniform (x y : Value) (hxy : Value.Encodes sameNumber x y) :
    Correspond Raised.Akin (Value.Encodes sameNumber) (symbolCount x) (symbolCount y) := by
  cases hxy with
  | null => exact .ok .null
  | chunk hcd => exact .ok (.chunk hcd)
  | view hvw =>
    rw [symbolCount, symbolCount, hvw.length_eq]
    exact .ok (.own ⟨_, rfl, rfl⟩)
  | list hxs => exact .ok (.list hxs)
  | tuple hxs => exact .ok (.tuple hxs)
  | own hown =>
    obtain ⟨n, rfl, rfl⟩ := hown
    exact .ok (.own ⟨n, rfl, rfl⟩)

/-- A keyword in any case, a mark, and a deferred number, of which the number of digits is wanted. -/
def portSetting (keyword mark : Chunk) (s : Symbol) : Grammar :=
  pair (primitive (.tagNoCase keyword))
    (preceded (primitive (.unit s!"char({mark.shown})" (some ("char", mark.kind)) (fun t => .ok (t == s)) .complete))
      (deferred "number" 0))

def portDefs : Definitions := fun _ => .ok ((digit .complete).map symbolCount)

def portText : View := ⟨⟨0, .text ['>', 'p', 'O', 'r', 't', ':', '8', '0', '!']⟩, .ofNat 1, 8, by decide⟩

def portBytes : View := ⟨⟨0, .bytes .window [255, 112, 79, 114, 116, 58, 56, 48, 33]⟩, .ofNat 1, 8, by decide⟩

theorem Rendition.two {g' h' : Grammar} {a : Assembly} (ha : a.Uniform Raised.Akin (Value.Encodes own))
    (hgh : Rendition own g h) (hgh' : Rendition own g' h') :
    Rendition own (.sequence a [g, g']) (.sequence a [h, h']) := by
  have hparts : Forall₂ (Rendition own) [g, g'] [h, h'] := .cons hgh (.cons hgh' .nil)
  obtain ⟨hlength, hzip⟩ := List.forall₂_iff_zip.1 hparts
  exact .sequence (.same ha) hlength hzip

theorem ascii_encodes {cs : List Char} {bs : List UInt8} (hlength : cs.length = bs.length)
    (hcodes : ∀ p ∈ cs.zip bs, p.1.toNat = p.2.toNat ∧ p.1.toNat < 128) :
    (Chunk.text cs).Encodes (.bytes .fixed bs) := by
  refine .text (List.forall₂_iff_zip.2 ⟨hlength, fun {c b} hcb => ?_⟩)
  exact ⟨rfl, rfl, (hcodes _ hcb).1, (hcodes _ hcb).2⟩

theorem renditions_agree_port :
    Rendition sameNumber (portSetting (.text ['P', 'o', 'r', 't']) (.text [':']) (.char ':'))
      (portSetting (.bytes .fixed [80, 111, 114, 116]) (.bytes .fixed [58]) (.byte 58)) ∧
    portText.Encodes portBytes ∧
    ∃ r, (portSetting (.bytes .fixed [80, 111, 114, 116]) (.bytes .fixed [58]) (.byte 58)).Yields portDefs portBytes r ∧
      Correspond Fault.Encodes (Outcome.Encodes sameNumber)
        (.ok (.done (portText.drop 7) (.tuple [.view (portText.take 4), .int 2]))) r := by
  have hkeyword : (Chunk.text ['P', 'o', 'r', 't']).Encodes (.bytes .fixed [80, 111, 114, 116]) :=
    ascii_encodes rfl (by decide)
  have hmark : (Chunk.text [':']).Encodes (.bytes .fixed [58]) := ascii_encodes rfl (by decide)
  have hsetting : Rendition sameNumber (portSetting (.text ['P', 'o', 'r', 't']) (.text [':']) (.char ':'))
      (portSetting (.bytes .fixed [80, 111, 114, 116]) (.bytes .fixed [58]) (.byte 58)) := by
    refine .two trivial (.tagNoCase hkeyword rfl rfl) (.two trivial (.char hmark rfl rfl) ?_)
    exact .deferred _ _ 0
  have hdefs : ∀ key, Correspond Fault.Encodes (Rendition sameNumber) (portDefs key) (portDefs key) :=
    fun _ => .ok (.adapted (.same symbolCount_uniform) (.alphabetRun _ _ _))
  have hview : portText.Encodes portBytes := by
    have hcontent : (Chunk.text ['p', 'O', 'r', 't', ':', '8', '0', '!']).Encodes
        (.bytes .fixed [112, 79, 114, 116, 58, 56, 48, 33]) := ascii_encodes rfl (by decide)
    exact ⟨rfl, rfl, rfl, hcontent.symbols⟩
  have hr : (portSetting (.text ['P', 'o', 'r', 't']) (.text [':']) (.char ':')).Yields portDefs portText
      (.ok (.done (portText.drop 7) (.tuple [.view (portText.take 4), .int 2]))) :=
    .of_result (n := 4) (by decide +kernel)
  exact ⟨hsetting, hview, (renditions_agree hsetting hdefs hview).1 _ hr⟩

end Grammar
end StreamGrammar
