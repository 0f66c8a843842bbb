import StreamGrammar.Grammar.Build
import StreamGrammar.Proofs.Primitives
import StreamGrammar.Proofs.Yields

/-! # Decisions are final

A streaming grammar that has decided on a view decides in the same way on every view that has more symbols
behind it (`Grammar.decision_final`): it neither looks at where the view ends nor at what is behind the
symbols that it has used. Only an undecided outcome may change when the input grows. -/

namespace StreamGrammar

/-! ### Views with more symbols behind them -/

/-- `w` begins with the symbols of `u`, at the same offset and in the same kind of buffer. -/
structure View.Extends (w u : View) : Prop where
  kind : u.kind = w.kind
  offset : u.offset = w.offset
  symbols : u.symbols <+: w.symbols

/-- Views of the same symbols at the same offset, in buffers of one kind. -/
structure View.Alike (v w : View) : Prop where
  kind : v.kind = w.kind
  offset : v.offset = w.offset
  symbols : v.symbols = w.symbols

namespace View
variable {u w a b : View} {n : Nat}

theorem Extends.length_le (h : w.Extends u) : u.length ≤ w.length := by
  have hle := h.symbols.length_le
  rwa [length_symbols, length_symbols] at hle

theorem Extends.take_alike (h : w.Extends u) (hn : n ≤ u.length) : (u.take n).Alike (w.take n) := by
  refine ⟨h.kind, h.offset, ?_⟩
  obtain ⟨more, hmore⟩ := h.symbols
  rw [symbols_take, symbols_take, ← hmore, List.take_append_of_le_length]
  rwa [length_symbols]

/-- Suffixes at the same offset of a view and an extension of it. -/
theorem Extends.suffix (h : w.Extends u) (ha : a.SuffixOf u) (hb : b.SuffixOf w)
    (hab : a.offset = b.offset) : b.Extends a := by
  refine ⟨ha.kind.trans (h.kind.trans hb.kind.symm), hab, ?_⟩
  obtain ⟨more, hmore⟩ := h.symbols
  rw [ha.symbols, hb.symbols, hab, h.offset, ← hmore, List.drop_append]
  exact List.prefix_append _ _

/-- What lies between suffixes at the same offsets is alike. -/
theorem Extends.consumed_alike {a' b' : View} (h : b.Extends a) (ha : a'.SuffixOf a) (hb : b'.SuffixOf b)
    (hab : a'.offset = b'.offset) :
    ∃ head head', a.consumedUntil a' = .ok head ∧ b.consumedUntil b' = .ok head' ∧ head.Alike head' := by
  obtain ⟨head, hhead, hbuffer, hstart, hstop, hsymbols⟩ := ha.consumedUntil
  obtain ⟨head', hhead', hbuffer', hstart', hstop', hsymbols'⟩ := hb.consumedUntil
  have hoffset : head.offset = head'.offset := by
    rw [View.offset, View.offset, hstart, hstart']
    exact h.offset
  have hlength : head.length = head'.length := by
    simp only [stop] at hstop hstop'
    omega
  refine ⟨head, head', hhead, hhead', ?_, hoffset, ?_⟩
  · rw [View.kind, View.kind, hbuffer, hbuffer']
    exact h.kind
  -- both are beginnings of `b`, and of the same length
  · have hp : head.symbols <+: b.symbols := List.IsPrefix.trans ⟨_, hsymbols⟩ h.symbols
    have hl : head.symbols.length = head'.symbols.length := by
      rw [length_symbols, length_symbols, hlength]
    exact (List.prefix_of_prefix_length_le hp ⟨_, hsymbols'⟩ (Nat.le_of_eq hl)).eq_of_length hl

end View

/-- Relates suffixes of `u` and of its extension `w` at the same offset; an undecided parse of `u` says
nothing about `w`. -/
def Similarity.extension {u w : View} (h : w.Extends u) : Similarity where
  view a b := a.SuffixOf u ∧ b.SuffixOf w ∧ a.offset = b.offset
  value := Value.Alike View.Alike
  position p q := p.toNat = q.toNat
  raised := (· = ·)
  shared _ := True
  lenient := True
  start := View.start_of_suffixes
  progress := View.moves_iff_of_suffixes
  consumed := by
    rintro a b a' b' ⟨ha, hb, hab⟩ ⟨ha', hb', hab'⟩
    by_cases hle : a.offset ≤ a'.offset
    · obtain ⟨head, head', hhead, hhead', halike⟩ :=
        (h.suffix ha hb hab).consumed_alike (ha.of_le ha' hle) (hb.of_le hb' (by omega)) hab'
      rw [hhead, hhead']
      exact .ok (.view halike)
    · rw [View.consumedUntil_of_lt (by omega), View.consumedUntil_of_lt (by omega)]
      exact .error rfl
  null := .null
  tuple := .tuple
  list := .list
  raised_refl _ := rfl
  errorClass := congrArg Raised.errorClass
  shared_of _ := trivial

/-! ### Streaming primitives -/

/-- The primitive never takes the end of the view for the end of the input. -/
def Primitive.streaming : Primitive → Bool
  | endOfInput => false
  | p => p.policy? != some .complete

namespace Primitive

variable {u w a b : View} {h : w.Extends u}

/-- What the leaves of a streaming grammar see of related views. -/
theorem extends_of_view (hab : (Similarity.extension h).view a b) : b.Extends a :=
  h.suffix hab.1 hab.2.1 hab.2.2

theorem extension_drop (hab : (Similarity.extension h).view a b) {n : Nat} (hn : n ≤ a.length) :
    (Similarity.extension h).view (a.drop n) (b.drop n) := by
  have hle := (extends_of_view hab).length_le
  obtain ⟨ha, hb, hoffset⟩ := hab
  refine ⟨ha.trans (.drop a n), hb.trans (.drop b n), ?_⟩
  simp only [View.offset_drop]
  omega

theorem extension_consume (hab : (Similarity.extension h).view a b) {n : Nat} (hn : n ≤ a.length) :
    (Similarity.extension h).Leaves (consume a n) (consume b n) := by
  have hext := extends_of_view hab
  rw [consume_of_le hn, consume_of_le (Nat.le_trans hn hext.length_le)]
  exact .inr (.ok (.done (extension_drop hab hn) (.view (hext.take_alike hn))))

theorem extension_failAt (hab : (Similarity.extension h).view a b) (kind : ErrorKind) :
    (Similarity.extension h).Leaves (.ok (.failAt kind a)) (.ok (.failAt kind b)) :=
  .inr (.ok (.failAt hab kind))

theorem extension_missing {n : Nat} (hn : 0 < n) (r : Except Fault (Outcome Value)) :
    (Similarity.extension h).Leaves (missing n) r := by
  rw [missing_of_pos hn]
  exact .inl ⟨_, rfl, trivial, _, rfl⟩

theorem extension_fault (f : Fault) :
    (Similarity.extension h).Leaves (.error f) (.error f) := .inr (.error (.same trivial))

/-- The check of the kind refuses both views for the same reason. -/
theorem extension_otherKind (hab : (Similarity.extension h).view a b) {kind : Kind} (hk : kind ≠ a.kind)
    (name : String) (f g : Unit → Except Fault (Outcome Value)) :
    (Similarity.extension h).Leaves (checkKind a name kind >>= f) (checkKind b name kind >>= g) := by
  have hkind := (extends_of_view hab).kind
  rw [checkKind_of_ne hk, checkKind_of_ne (hkind ▸ hk), hkind]
  exact extension_fault _

theorem zip_prefix {ss ts : List Symbol} (hp : ss <+: ts) (ls : List Symbol) : ss.zip ls <+: ts.zip ls := by
  obtain ⟨more, rfl⟩ := hp
  induction ss generalizing ls with
  | nil => exact List.nil_prefix
  | cons s ss ih =>
    cases ls with
    | nil => exact List.nil_prefix
    | cons l ls => exact List.cons_prefix_cons.2 ⟨rfl, ih ls⟩

variable (hab : (Similarity.extension h).view a b)
include hab

theorem extension_tag (literal : Chunk) :
    (Similarity.extension h).Leaves (parseTag a literal) (parseTag b literal) := by
  have hext := extends_of_view hab
  have hle := hext.length_le
  by_cases hk : literal.kind = a.kind
  · rw [parseTag_of_kind hk, parseTag_of_kind (hk.trans hext.kind)]
    by_cases hp : literal.symbols <+: a.symbols
    · rw [if_pos hp, if_pos (hp.trans hext.symbols)]
      have hl := hp.length_le
      rw [Chunk.length_symbols, View.length_symbols] at hl
      exact extension_consume hab hl
    rw [if_neg hp]
    by_cases hm : a.length < literal.length ∧ a.symbols <+: literal.symbols
    · rw [if_pos hm]
      exact extension_missing (by omega) _
    · -- the mismatch is within `a`, so it is one in `b` too
      rw [if_neg hm, if_neg, if_neg]
      · exact extension_failAt hab _
      · exact fun hb => hm ⟨by omega, hext.symbols.trans hb.2⟩
      · intro hb
        rcases List.prefix_or_prefix_of_prefix hb hext.symbols with hla | hal
        · exact hp hla
        · have hl := hal.length_le
          rw [Chunk.length_symbols, View.length_symbols] at hl
          refine hm ⟨Nat.lt_of_le_of_ne hl fun heq => hp ?_, hal⟩
          have hsymbols : a.symbols = literal.symbols :=
            hal.eq_of_length (by rw [Chunk.length_symbols, View.length_symbols, heq])
          exact hsymbols ▸ List.prefix_rfl
  · rw [parseTag, parseTag]
    exact extension_otherKind hab hk _ _ _

theorem extension_tagNoCase (literal : Chunk) :
    (Similarity.extension h).Leaves (parseTagNoCase a literal) (parseTagNoCase b literal) := by
  have hext := extends_of_view hab
  have hle := hext.length_le
  by_cases hk : literal.kind = a.kind
  · rw [parseTagNoCase_of_kind hk, parseTagNoCase_of_kind (hk.trans hext.kind)]
    have hz := zip_prefix hext.symbols literal.symbols
    by_cases hm : (a.symbols.zip literal.symbols).any (fun p => p.1.lower ≠ p.2.lower) = true
    · obtain ⟨pair, hpair, hne⟩ := List.any_eq_true.1 hm
      rw [if_pos hm, if_pos (List.any_eq_true.2 ⟨pair, hz.mem hpair, hne⟩)]
      exact extension_failAt hab _
    rw [if_neg hm]
    by_cases hl : a.length < literal.length
    · rw [if_pos hl]
      exact extension_missing (by omega) _
    · -- all of the literal was compared in `a` already
      have heq : a.symbols.zip literal.symbols = b.symbols.zip literal.symbols := by
        refine hz.eq_of_length ?_
        simp only [List.length_zip, View.length_symbols, Chunk.length_symbols]
        omega
      rw [if_neg hl, ← heq, if_neg hm, if_neg (by omega)]
      exact extension_consume hab (by omega)
  · rw [parseTagNoCase, parseTagNoCase]
    exact extension_otherKind hab hk _ _ _

theorem extension_take (count : Nat) :
    (Similarity.extension h).Leaves (parseTake a count) (parseTake b count) := by
  have hle := (extends_of_view hab).length_le
  rw [parseTake, parseTake]
  by_cases hl : a.length < count
  · rw [if_pos hl]
    exact extension_missing (by omega) _
  · rw [if_neg hl, if_neg (by omega)]
    exact extension_consume hab (by omega)

theorem extension_takeUntil (literal : Chunk) :
    (Similarity.extension h).Leaves (parseTakeUntil a literal .streaming)
      (parseTakeUntil b literal .streaming) := by
  have hext := extends_of_view hab
  by_cases hk : literal.kind = a.kind
  · rw [parseTakeUntil_of_kind hk, parseTakeUntil_of_kind (hk.trans hext.kind)]
    cases hf : firstOccurrence literal.symbols a.symbols with
    | none => exact .inl ⟨_, rfl, trivial, _, rfl⟩
    | some i =>
      obtain ⟨more, hmore⟩ := hext.symbols
      rw [← hmore, firstOccurrence_append hf]
      have hl := firstOccurrence_add_length_le hf
      rw [View.length_symbols] at hl
      exact extension_consume hab (by omega)
  · rw [parseTakeUntil, parseTakeUntil]
    exact extension_otherKind hab hk _ _ _

theorem extension_symbol? {i : Nat} {s : Symbol} (hs : a.symbol? i = some s) : b.symbol? i = some s := by
  obtain ⟨more, hmore⟩ := (extends_of_view hab).symbols
  have hi := lt_length_of_symbol? hs
  rw [View.symbol?_eq_symbols] at *
  rw [← hmore, List.getElem?_append_left (by rwa [View.length_symbols]), hs]

theorem extension_unit (expects : Option (String × Kind)) (test : SymbolTest) :
    (Similarity.extension h).Leaves (parseUnit a expects test .streaming)
      (parseUnit b expects test .streaming) := by
  have hnone : (Similarity.extension h).Leaves (parseUnit a none test .streaming)
      (parseUnit b none test .streaming) := by
    cases hs : a.symbol? 0 with
    | none =>
      rw [parseUnit_of_none hs]
      exact extension_missing Nat.one_pos _
    | some s =>
      rw [parseUnit_of_symbol hs, parseUnit_of_symbol (extension_symbol? hab hs)]
      rcases test s with e | _ | _
      · exact extension_fault _
      · exact extension_failAt hab _
      · exact .inr (.ok (.done (extension_drop hab (lt_length_of_symbol? hs)) (.chunk _)))
  cases expects with
  | none => exact hnone
  | some e =>
    obtain ⟨name, kind⟩ := e
    rw [parseUnit_some, parseUnit_some]
    by_cases hk : kind = a.kind
    · rw [checkKind_of_eq hk, checkKind_of_eq (hk.trans (extends_of_view hab).kind)]
      exact hnone
    · exact extension_otherKind hab hk _ _ _

theorem extension_run (test : SymbolTest) :
    (Similarity.extension h).Leaves (parseRun a test .streaming) (parseRun b test .streaming) := by
  obtain ⟨more, hmore⟩ := (extends_of_view hab).symbols
  by_cases hl : leading test a.symbols = .ok a.symbols.length
  · rw [parseRun_of_ok hl, if_pos ⟨View.length_symbols a, rfl⟩]
    exact extension_missing Nat.one_pos _
  · -- the run ends within `a`
    have hb : leading test b.symbols = leading test a.symbols := by
      rw [← hmore, leading_append hl]
    cases hr : leading test a.symbols with
    | error e =>
      rw [parseRun_of_error hr, parseRun_of_error (hb.trans hr)]
      exact extension_fault _
    | ok n =>
      have hn : n < a.length := by
        have hle := leading_le hr
        rw [View.length_symbols] at hle
        exact Nat.lt_of_le_of_ne hle fun heq => hl (by rw [hr, View.length_symbols, heq])
      have hle := (extends_of_view hab).length_le
      have hna : ¬ (n = a.length ∧ Policy.streaming = .streaming) := fun hc => by omega
      have hnb : ¬ (n = b.length ∧ Policy.streaming = .streaming) := fun hc => by omega
      rw [parseRun_of_ok hr, parseRun_of_ok (hb.trans hr), if_neg hna, if_neg hnb]
      split
      · exact extension_failAt hab _
      · exact extension_consume hab (Nat.le_of_lt hn)

theorem extension_lineEnding :
    (Similarity.extension h).Leaves (parseLineEnding a .streaming) (parseLineEnding b .streaming) := by
  rw [parseLineEnding, parseLineEnding]
  cases hs : a.symbol? 0 with
  | none => exact extension_missing Nat.one_pos _
  | some first =>
    simp only [extension_symbol? hab hs]
    split
    · exact extension_consume hab (lt_length_of_symbol? hs)
    · split
      · cases hs' : a.symbol? 1 with
        | none => exact extension_missing Nat.one_pos _
        | some second =>
          simp only [extension_symbol? hab hs']
          split
          · exact extension_consume hab (lt_length_of_symbol? hs')
          · exact extension_failAt hab _
      · exact extension_failAt hab _

theorem extension_integer (format : IntegerFormat) :
    (Similarity.extension h).Leaves (parseInteger a format) (parseInteger b format) := by
  have hext := extends_of_view hab
  have hle := hext.length_le
  by_cases hk : a.kind = .text
  · rw [parseInteger, parseInteger, if_pos hk, if_pos (hext.kind ▸ hk)]
    exact extension_fault _
  by_cases hl : a.length < format.width
  · rw [parseInteger, if_neg hk, if_pos hl]
    exact extension_missing (by omega) _
  · have hw : format.width ≤ a.length := Nat.not_lt.1 hl
    rw [parseInteger_of_le hk hw, parseInteger_of_le (hext.kind ▸ hk) (Nat.le_trans hw hle)]
    have hbytes : bytesOf (a.take format.width).fragment = bytesOf (b.take format.width).fragment := by
      refine List.map_injective_iff.2 (fun _ _ => Symbol.byte.inj) ?_
      rw [map_bytesOf, map_bytesOf, View.symbols_fragment, View.symbols_fragment,
        (hext.take_alike hw).symbols]
      · rwa [View.kind_fragment, ← (hext.take_alike hw).kind]
      · rwa [View.kind_fragment]
    rw [hbytes]
    exact .inr (.ok (.done (extension_drop hab hw) (.int _)))

/-- What a streaming primitive has decided on `a` it decides on `b`. -/
theorem extension_parse {p : Primitive} (hp : p.streaming = true) :
    (Similarity.extension h).Leaves (p.parse a) (p.parse b) := by
  cases p with
  | tag literal => exact extension_tag hab literal
  | tagNoCase literal => exact extension_tagNoCase hab literal
  | take count => exact extension_take hab count.toNat
  | takeUntil literal policy =>
    cases policy with
    | streaming => exact extension_takeUntil hab literal
    | complete => cases hp
  | unit name expects test policy =>
    cases policy with
    | streaming => exact extension_unit hab expects test
    | complete => cases hp
  | run name test policy =>
    cases policy with
    | streaming => exact extension_run hab test
    | complete => cases hp
  | lineEnding policy =>
    cases policy with
    | streaming => exact extension_lineEnding hab
    | complete => cases hp
  | endOfInput => cases hp
  | integer format => exact extension_integer hab format

end Primitive

/-! ### Streaming grammars -/

/-- Entries that differ at most in the way in which their position is written. -/
structure Entry.Alike (e f : Entry) : Prop where
  kind : e.kind = f.kind
  position : e.position.toNat = f.position.toNat
  code : e.code = f.code
  cause : e.cause = f.cause

/-- Faults that differ at most in the way in which their position is written. -/
inductive Fault.Alike : Fault → Fault → Prop
  | same (f : Fault) : Alike f f
  | stalled (word : String) {p q : Position} : p.toNat = q.toNat → Alike (.stalled word p) (.stalled word q)

namespace Grammar
variable {defs : Definitions} {g : Grammar} {u w : View}

/-- The grammar is made of streaming primitives and combinators, and the functions of its callers depend
on views only through what these show. -/
def Streaming (g : Grammar) : Prop :=
  g.Everywhere fun h => h.Uniform (· = ·) (Value.Alike View.Alike) ∧
    (∀ p, h = primitive p → p.streaming = true) ∧ ∀ name run, h ≠ custom name run

theorem extension_grammars (h : w.Extends u) (hg : g.Streaming) : (Similarity.extension h).Grammars g g := by
  have hmap := Similarity.grammars_mapPrimitives (S := Similarity.extension h) (a := id) (b := id)
    (hg.mono fun node hnode => ⟨hnode.1, ?_, ?_⟩)
  · rwa [mapPrimitives_id] at hmap
  · exact fun p hp v w hv => Primitive.extension_parse hv (hnode.2.1 p hp)
  · exact fun name run hcustom => absurd hcustom (hnode.2.2 name run)

theorem extension_entries {h : w.Extends u} {e f : Entry} (hef : (Similarity.extension h).Entries e f) :
    e.Alike f :=
  ⟨hef.kind, hef.position, hef.code, hef.cause_eq id⟩

theorem extension_faults {h : w.Extends u} {f f' : Fault} (hff : (Similarity.extension h).Faults f f') :
    f.Alike f' := by
  rcases hff with _ | he | hp
  · exact .same f
  · cases he
    exact .same _
  · exact .stalled _ hp

/-- A decision on a view stands on every view that has more symbols behind it: a match leaves a remainder at
the same offset and yields the same output, with views of the same symbols at the same offsets in it; a
failure has the same entries, and a fault is the same. -/
theorem decision_final (hg : g.Streaming) (hdefs : ∀ key h, defs key = .ok h → h.Streaming)
    (hw : w.Extends u) :
    (∀ rest x, g.Yields defs u (.ok (.done rest x)) →
      ∃ rest' y, g.Yields defs w (.ok (.done rest' y)) ∧ rest.offset = rest'.offset ∧
        Value.Alike View.Alike x y) ∧
    (∀ c, g.Yields defs u (.ok (.failed c)) →
      ∃ d, g.Yields defs w (.ok (.failed d)) ∧ List.Forall₂ Entry.Alike c.entries d.entries) ∧
    ∀ f, g.Yields defs u (.error f) → ∃ f', g.Yields defs w (.error f') ∧ f.Alike f' := by
  have hself : ∀ key, Correspond (Similarity.extension hw).Faults (Similarity.extension hw).Grammars
      (defs key) (defs key) :=
    fun key => Similarity.correspond_self fun h hh => extension_grammars hw (hdefs key h hh)
  have hview : (Similarity.extension hw).view u w := ⟨.refl u, .refl w, hw.offset⟩
  have hsimilar := fun r => Yields.similar (r := r) hself (extension_grammars hw hg) hview
  refine ⟨fun rest x hr => ?_, fun c hr => ?_, fun f hr => ?_⟩
  · obtain ⟨_, ⟨⟩, -, _, ⟨⟩⟩ | ⟨_, hr', _ | ⟨hrest, hxy⟩⟩ := hsimilar _ hr
    exact ⟨_, _, hr', hrest.2.2, hxy⟩
  · obtain ⟨_, ⟨⟩, -, _, ⟨⟩⟩ | ⟨_, hr', _ | _ | hc⟩ := hsimilar _ hr
    exact ⟨_, hr', .cons (extension_entries hc.innermost) (hc.outer.imp fun _ _ => extension_entries)⟩
  · obtain ⟨_, ⟨⟩, -⟩ | ⟨_, hr', hf | _⟩ := hsimilar _ hr
    exact ⟨_, hr', extension_faults hf⟩

/-- The length of an output that is a view. -/
def viewLength : Transform
  | .view v => .ok (.int v.length)
  | x => .ok x

theorem viewLength_uniform (x y : Value) (h : Value.Alike View.Alike x y) :
    Correspond (· = ·) (Value.Alike View.Alike) (viewLength x) (viewLength y) := by
  cases h with
  | view hvw =>
    have hl := congrArg List.length hvw.symbols
    rw [View.length_symbols, View.length_symbols] at hl
    rw [viewLength, viewLength, hl]
    exact .ok (.int _)
  | _ => exact .ok (by constructor <;> assumption)

/-- How much stands before a semicolon that no letter follows. -/
def measured : Grammar :=
  pair ((primitive (.takeUntil (.ofString ";") .streaming)).map viewLength)
    (preceded (deferred "semicolon" 0) (negate (alpha .streaming)))

def measuredDefs : Definitions := fun _ => .ok (primitive (.tag (.ofString ";")))

def measuredInput : View := ⟨⟨0, .ofString "xab;1"⟩, .ofNat 1, 4, by decide⟩

/-- The same symbols in another buffer, with more behind them. -/
def measuredLonger : View := ⟨⟨1, .ofString "yab;1;;z"⟩, .ofNat 1, 6, by decide⟩

theorem measured_streaming : measured.Streaming := by
  simpa [Streaming, measured, pair, preceded, map, negate, alpha, alphabetRun, Uniform, Assembly.Uniform,
    Adapter.Uniform, Primitive.streaming, Primitive.policy?] using viewLength_uniform

theorem decision_final_measured :
    measuredLonger.Extends measuredInput ∧
      ∃ rest y, measured.Yields measuredDefs measuredLonger (.ok (.done rest y)) ∧ 4 = rest.offset ∧
        Value.Alike View.Alike (.tuple [.int 2, .null]) y := by
  have hdefs : ∀ key h, measuredDefs key = .ok h → h.Streaming := by
    rintro key _ ⟨⟩
    simp [Streaming, Uniform, Primitive.streaming, Primitive.policy?]
  have hw : measuredLonger.Extends measuredInput := ⟨rfl, rfl, by decide⟩
  have hu : measured.Yields measuredDefs measuredInput
      (.ok (.done (measuredInput.drop 3) (.tuple [.int 2, .null]))) :=
    .of_result (n := 3) (by decide +kernel)
  exact ⟨hw, (decision_final measured_streaming hdefs hw).1 _ _ hu⟩

end Grammar
end StreamGrammar
