import StreamGrammar.Grammar.Build
import StreamGrammar.Proofs.Primitives
import StreamGrammar.Proofs.Yields
import StreamGrammar.Stock.Transform

/-! # Moving the input

`Grammar.result_shifted`: a parse sees nothing but the symbols of its view. Two views of one kind that show
the same symbols have the same result, whatever holds the symbols, wherever the views stand in their buffers
and whatever surrounds them there; every position in the result moves along with the view. A primitive asks a
buffer in different ways, at absolute offsets or through a copy, but each of its questions is one about
`View.symbols` (`Proofs/Search`), and the offset enters only where a view or an entry is made. -/

namespace StreamGrammar

/-- The same symbols in buffers of one kind, `v` as far from `a` as `w` is from `b`. What stands before and
behind them, and the form in which bytes are held, may differ. -/
structure View.Shifted (a b : Nat) (v w : View) : Prop where
  kind : v.kind = w.kind
  offset : v.offset + b = w.offset + a
  symbols : v.symbols = w.symbols

/-- Views that correspond when `a` is moved to `b`. A view that a caller's function has brought along, one of
its `own`, stays what it is. -/
def View.Counterpart (own : View → Prop) (a b : Nat) (v w : View) : Prop :=
  v.Shifted a b w ∨ own v ∧ v = w

namespace View
variable {u w v v' : View}

theorem length_eq_of_symbols (h : v.symbols = w.symbols) : v.length = w.length := by
  have hl := congrArg List.length h
  simpa using hl

theorem symbol?_eq_of_symbols (h : v.symbols = w.symbols) (i : Nat) : v.symbol? i = w.symbol? i := by
  rw [symbol?_eq_symbols, symbol?_eq_symbols, h]

namespace Shifted
variable {a b n : Nat}

theorem length (h : v.Shifted a b w) : v.length = w.length := length_eq_of_symbols h.symbols

theorem drop (h : v.Shifted a b w) (n : Nat) : (v.drop n).Shifted a b (w.drop n) := by
  refine ⟨h.kind, ?_, by simp [h.symbols]⟩
  have ho := h.offset
  simp only [offset_drop, h.length]
  omega

theorem take (h : v.Shifted a b w) (n : Nat) : (v.take n).Shifted a b (w.take n) :=
  ⟨h.kind, h.offset, by simp [h.symbols]⟩

/-- Suffixes that start as far from the starts of two views correspond if the views do. -/
theorem suffix (h : u.Shifted a b w) (hv : v.SuffixOf u) (hv' : v'.SuffixOf w)
    (ho : v.offset + b = v'.offset + a) : v.Shifted a b v' := by
  have hu := h.offset
  have hle := hv.offset_le
  have hle' := hv'.offset_le
  refine ⟨hv.kind.trans (h.kind.trans hv'.kind.symm), ho, ?_⟩
  rw [hv.symbols, hv'.symbols, h.symbols]
  congr 1
  omega

/-- What lies before corresponding suffixes corresponds. -/
theorem consumed {rest rest' : View} (h : v.Shifted a b w) (hv : rest.SuffixOf v) (hw : rest'.SuffixOf w)
    (hr : rest.Shifted a b rest') :
    ∃ head head', v.consumedUntil rest = .ok head ∧ w.consumedUntil rest' = .ok head' ∧
      head.Shifted a b head' := by
  obtain ⟨head, hhead, hbuffer, hstart, -, hsymbols⟩ := hv.consumedUntil
  obtain ⟨head', hhead', hbuffer', hstart', -, hsymbols'⟩ := hw.consumedUntil
  refine ⟨head, head', hhead, hhead', ?_, ?_, ?_⟩
  · rw [View.kind, View.kind, hbuffer, hbuffer']
    exact h.kind
  · rw [View.offset, View.offset, hstart, hstart']
    exact h.offset
  · rw [h.symbols, ← hsymbols', hr.symbols] at hsymbols
    exact List.append_cancel_right hsymbols

end Shifted
end View

/-- Chunks of one kind with the same symbols differ at most in how they hold them. -/
theorem Chunk.fix_eq_of_symbols {c d : Chunk} (hk : c.kind = d.kind) (hs : c.symbols = d.symbols) :
    c.fix = d.fix := by
  have hchar : Function.Injective Symbol.char := fun _ _ => Symbol.char.inj
  have hbyte : Function.Injective Symbol.byte := fun _ _ => Symbol.byte.inj
  cases c <;> cases d <;> cases hk
  · simpa [symbols, fix, hchar.list_map.eq_iff] using hs
  · simpa [symbols, fix, hbyte.list_map.eq_iff] using hs

/-! ### Primitives -/

section Similarity
variable {defs : Definitions} {own : View → Prop} {u w : View}

/-- Relates suffixes of `u` and of `w` at the same distance from their starts. A fault that names no position
is the same on both sides, and so is one for which a deferred grammar cannot be built. -/
def Similarity.translation (defs : Definitions) (own : View → Prop) (h : u.Shifted u.offset w.offset w) :
    Similarity where
  view v v' := v.SuffixOf u ∧ v'.SuffixOf w ∧ v.offset + w.offset = v'.offset + u.offset
  value := Value.Alike (View.Counterpart own u.offset w.offset)
  position p q := p.toNat + w.offset = q.toNat + u.offset
  raised := (· = ·)
  shared f := f.isStall = false ∨ ∃ key, defs key = .error f
  lenient := False
  start hv := hv.2.2
  progress := by
    rintro v v' r r' ⟨-, -, hv⟩ ⟨-, -, hr⟩
    omega
  consumed := by
    rintro v v' r r' ⟨hv, hv', ho⟩ ⟨hr, hr', ho'⟩
    by_cases hle : v.offset ≤ r.offset
    · have hvv := h.suffix hv hv' ho
      have hrr := h.suffix hr hr' ho'
      obtain ⟨head, head', hhead, hhead', hs⟩ := hvv.consumed (hv.of_le hr hle) (hv'.of_le hr' (by omega)) hrr
      rw [hhead, hhead']
      exact .ok (.view (.inl hs))
    · rw [View.consumedUntil_of_lt (by omega), View.consumedUntil_of_lt (by omega)]
      exact .error rfl
  null := .null
  tuple := .tuple
  list := .list
  raised_refl _ := rfl
  errorClass := congrArg Raised.errorClass
  shared_of := .inl

end Similarity

namespace Primitive
variable {defs : Definitions} {own : View → Prop} {u w v v' : View} {h : u.Shifted u.offset w.offset w}

theorem translation_missing (n : Nat) :
    (Similarity.translation defs own h).Leaves (missing n) (missing n) := by
  refine .inr ?_
  rcases Nat.eq_zero_or_pos n with rfl | hn
  · exact .error (.same (.inl rfl))
  · rw [missing_of_pos hn]
    exact .ok (.incomplete _)

theorem bytesOf_fragment_eq {a b : Nat} {x y : View} (hs : x.Shifted a b y) :
    bytesOf x.fragment = bytesOf y.fragment := by
  have hbytes : ∀ c : Chunk, bytesOf c = bytesOf c.fix := fun c => by cases c <;> rfl
  rw [hbytes, hbytes y.fragment, Chunk.fix_eq_of_symbols] <;> simp [hs.kind, hs.symbols]

section Related
variable (hv : (Similarity.translation defs own h).view v v')
include hv

theorem shifted_of_view : v.Shifted u.offset w.offset v' := h.suffix hv.1 hv.2.1 hv.2.2

theorem translation_drop (n : Nat) : (Similarity.translation defs own h).view (v.drop n) (v'.drop n) :=
  ⟨hv.1.trans (.drop v n), hv.2.1.trans (.drop v' n), ((shifted_of_view hv).drop n).offset⟩

theorem translation_consume {n : Nat} (hn : n ≤ v.length) :
    (Similarity.translation defs own h).Leaves (consume v n) (consume v' n) := by
  have hs := shifted_of_view hv
  rw [consume_of_le hn, consume_of_le (hs.length ▸ hn)]
  exact .inr (.ok (.done (translation_drop hv n) (.view (.inl (hs.take n)))))

theorem translation_failAt (kind : ErrorKind) :
    (Similarity.translation defs own h).Leaves (.ok (.failAt kind v)) (.ok (.failAt kind v')) :=
  .inr (.ok (.failAt hv kind))

/-- The check of the kind refuses both views for the same reason. -/
theorem translation_otherKind {kind : Kind} (hk : kind ≠ v.kind) (name : String)
    (f g : Unit → Except Fault (Outcome Value)) :
    (Similarity.translation defs own h).Leaves (checkKind v name kind >>= f) (checkKind v' name kind >>= g) := by
  have hkind := (shifted_of_view hv).kind
  rw [checkKind_of_ne hk, checkKind_of_ne (hkind ▸ hk), hkind]
  exact .inr (.error (.same (.inl rfl)))

theorem translation_tag (literal : Chunk) :
    (Similarity.translation defs own h).Leaves (parseTag v literal) (parseTag v' literal) := by
  have hs := shifted_of_view hv
  by_cases hk : literal.kind = v.kind
  · rw [parseTag_of_kind hk, parseTag_of_kind (hk.trans hs.kind), ← hs.symbols, ← hs.length]
    split
    · next hp =>
      have hle := hp.length_le
      rw [View.length_symbols, Chunk.length_symbols] at hle
      exact translation_consume hv hle
    · split
      · exact translation_missing _
      · exact translation_failAt hv _
  · rw [parseTag, parseTag]
    exact translation_otherKind hv hk _ _ _

theorem translation_tagNoCase (literal : Chunk) :
    (Similarity.translation defs own h).Leaves (parseTagNoCase v literal) (parseTagNoCase v' literal) := by
  have hs := shifted_of_view hv
  by_cases hk : literal.kind = v.kind
  · rw [parseTagNoCase_of_kind hk, parseTagNoCase_of_kind (hk.trans hs.kind), ← hs.symbols, ← hs.length]
    split
    · exact translation_failAt hv _
    · split
      · exact translation_missing _
      · next hlt => exact translation_consume hv (by omega)
  · rw [parseTagNoCase, parseTagNoCase]
    exact translation_otherKind hv hk _ _ _

theorem translation_take (count : Nat) :
    (Similarity.translation defs own h).Leaves (parseTake v count) (parseTake v' count) := by
  rw [parseTake, parseTake, ← (shifted_of_view hv).length]
  split
  · exact translation_missing _
  · next hlt => exact translation_consume hv (by omega)

theorem translation_takeUntil (literal : Chunk) (policy : Policy) :
    (Similarity.translation defs own h).Leaves (parseTakeUntil v literal policy)
      (parseTakeUntil v' literal policy) := by
  have hs := shifted_of_view hv
  by_cases hk : literal.kind = v.kind
  · rw [parseTakeUntil_of_kind hk, parseTakeUntil_of_kind (hk.trans hs.kind), ← hs.symbols]
    rcases hf : firstOccurrence literal.symbols v.symbols with _ | i
    · cases policy with
      | streaming => exact .inr (.ok (.incomplete _))
      | complete => exact translation_failAt hv _
    · have hle := firstOccurrence_add_length_le hf
      rw [View.length_symbols] at hle
      exact translation_consume hv (by omega)
  · rw [parseTakeUntil, parseTakeUntil]
    exact translation_otherKind hv hk _ _ _

theorem translation_unit (expects : Option (String × Kind)) (test : SymbolTest) (policy : Policy) :
    (Similarity.translation defs own h).Leaves (parseUnit v expects test policy)
      (parseUnit v' expects test policy) := by
  have hs := shifted_of_view hv
  have hsymbol := View.symbol?_eq_of_symbols hs.symbols 0
  have hnone : (Similarity.translation defs own h).Leaves (parseUnit v none test policy)
      (parseUnit v' none test policy) := by
    rcases hs0 : v.symbol? 0 with _ | s
    · rw [parseUnit_of_none hs0, parseUnit_of_none (hsymbol ▸ hs0)]
      cases policy with
      | streaming => exact translation_missing 1
      | complete => exact translation_failAt hv _
    · rw [parseUnit_of_symbol hs0, parseUnit_of_symbol (hsymbol ▸ hs0)]
      rcases test s with e | _ | _
      · exact .inr (.error (.raised rfl))
      · exact translation_failAt hv _
      · exact .inr (.ok (.done (translation_drop hv 1) (.chunk _)))
  rcases expects with _ | ⟨name, kind⟩
  · exact hnone
  · rw [parseUnit_some, parseUnit_some]
    by_cases hk : kind = v.kind
    · rw [checkKind_of_eq hk, checkKind_of_eq (hk.trans hs.kind)]
      exact hnone
    · exact translation_otherKind hv hk _ _ _

theorem translation_run (test : SymbolTest) (policy : Policy) :
    (Similarity.translation defs own h).Leaves (parseRun v test policy) (parseRun v' test policy) := by
  have hs := shifted_of_view hv
  rcases hl : leading test v.symbols with e | n
  · rw [parseRun_of_error hl, parseRun_of_error (hs.symbols ▸ hl)]
    exact .inr (.error (.raised rfl))
  · have hle := leading_le hl
    rw [View.length_symbols] at hle
    rw [parseRun_of_ok hl, parseRun_of_ok (hs.symbols ▸ hl), ← hs.length]
    split
    · exact translation_missing 1
    · split
      · exact translation_failAt hv _
      · exact translation_consume hv hle

theorem translation_lineCut (policy : Policy) :
    (Similarity.translation defs own h).Leaves (lineCut v policy) (lineCut v' policy) := by
  cases policy with
  | streaming => exact translation_missing 1
  | complete => exact translation_failAt hv _

theorem translation_lineEnding (policy : Policy) :
    (Similarity.translation defs own h).Leaves (parseLineEnding v policy) (parseLineEnding v' policy) := by
  have hsymbol := View.symbol?_eq_of_symbols (shifted_of_view hv).symbols
  rw [parseLineEnding, parseLineEnding, ← hsymbol 0, ← hsymbol 1]
  rcases h0 : v.symbol? 0 with _ | first
  · exact translation_lineCut hv policy
  dsimp only
  split
  · exact translation_consume hv (lt_length_of_symbol? h0)
  split
  · rcases h1 : v.symbol? 1 with _ | second
    · exact translation_lineCut hv policy
    dsimp only
    split
    · exact translation_consume hv (lt_length_of_symbol? h1)
    · exact translation_failAt hv _
  · exact translation_failAt hv _

theorem translation_endOfInput :
    (Similarity.translation defs own h).Leaves (.ok (parseEndOfInput v)) (.ok (parseEndOfInput v')) := by
  have hs := shifted_of_view hv
  rw [parseEndOfInput, parseEndOfInput, View.isEmpty, View.isEmpty, ← hs.length]
  split
  · exact .inr (.ok (.done hv (.view (.inl hs))))
  · exact translation_failAt hv _

theorem translation_integer (format : IntegerFormat) :
    (Similarity.translation defs own h).Leaves (parseInteger v format) (parseInteger v' format) := by
  have hs := shifted_of_view hv
  by_cases hk : v.kind = .text
  · rw [parseInteger, parseInteger, if_pos hk, if_pos (hs.kind ▸ hk)]
    exact .inr (.error (.same (.inl rfl)))
  have hk' : v'.kind ≠ .text := hs.kind ▸ hk
  by_cases hl : v.length < format.width
  · rw [parseInteger, parseInteger, if_neg hk, if_neg hk', ← hs.length, if_pos hl, if_pos hl]
    exact translation_missing _
  · have hw : format.width ≤ v.length := Nat.not_lt.1 hl
    rw [parseInteger_of_le hk hw, parseInteger_of_le hk' (hs.length ▸ hw),
      bytesOf_fragment_eq (hs.take format.width)]
    exact .inr (.ok (.done (translation_drop hv _) (.int _)))

/-- A primitive answers alike on views that correspond. -/
theorem translation_parse (p : Primitive) :
    (Similarity.translation defs own h).Leaves (p.parse v) (p.parse v') := by
  cases p with
  | tag literal => exact translation_tag hv literal
  | tagNoCase literal => exact translation_tagNoCase hv literal
  | take count => exact translation_take hv count.toNat
  | takeUntil literal policy => exact translation_takeUntil hv literal policy
  | unit name expects test policy => exact translation_unit hv expects test policy
  | run name test policy => exact translation_run hv test policy
  | lineEnding policy => exact translation_lineEnding hv policy
  | endOfInput => exact translation_endOfInput hv
  | integer format => exact translation_integer hv format

end Related
end Primitive

/-! ### Grammars -/

section Shifted
variable (defs : Definitions) (own : View → Prop) (a b : Nat)

/-- Entries that differ in their positions only, which correspond. -/
structure Entry.Shifted (e f : Entry) : Prop where
  kind : e.kind = f.kind
  position : e.position.toNat + b = f.position.toNat + a
  code : e.code = f.code
  cause : e.cause = f.cause

/-- The same fault, at a corresponding position if a repetition has stalled. Only what building a deferred
grammar has raised is the same with its position. -/
inductive Fault.Shifted : Fault → Fault → Prop
  | same {f : Fault} : f.isStall = false → Shifted f f
  | unbuilt {f : Fault} {key : Key} : defs key = .error f → Shifted f f
  | stalled {word : String} {p q : Position} :
    p.toNat + b = q.toNat + a → Shifted (.stalled word p) (.stalled word q)

/-- Outcomes that correspond when `a` is moved to `b`. -/
inductive Outcome.Shifted : Outcome Value → Outcome Value → Prop
  | done {v w : View} {x y : Value} : v.Shifted a b w → Value.Alike (View.Counterpart own a b) x y →
    Shifted (.done v x) (.done w y)
  | failed {c d : Chain} : List.Forall₂ (Entry.Shifted a b) c.entries d.entries →
    Shifted (.failed c) (.failed d)
  | incomplete (needed : Needed) : Shifted (.incomplete needed) (.incomplete needed)

end Shifted

namespace Grammar
variable {defs : Definitions} {own : View → Prop} {g : Grammar} {v w : View}

/-- The grammar is made of primitives and combinators, and the functions of its callers depend on views only
through the symbols that these show: when views are moved, their results move along. -/
def SymbolsOnly (own : View → Prop) (g : Grammar) : Prop :=
  g.Everywhere fun h => (∀ a b, h.Uniform (· = ·) (Value.Alike (View.Counterpart own a b))) ∧
    ∀ name run, h ≠ custom name run

theorem translation_grammars (h : v.Shifted v.offset w.offset w) (hg : g.SymbolsOnly own) :
    (Similarity.translation defs own h).Grammars g g := by
  have hmap := Similarity.grammars_mapPrimitives (S := Similarity.translation defs own h) (a := id) (b := id)
    (hg.mono fun node hnode => ⟨hnode.1 _ _, ?_, ?_⟩)
  · rwa [mapPrimitives_id] at hmap
  · exact fun p _ x y hxy => Primitive.translation_parse hxy p
  · exact fun name run hcustom => absurd hcustom (hnode.2 name run)

theorem translation_entries {h : v.Shifted v.offset w.offset w} {e f : Entry}
    (hef : (Similarity.translation defs own h).Entries e f) : e.Shifted v.offset w.offset f :=
  ⟨hef.kind, hef.position, hef.code, hef.cause_eq id⟩

theorem translation_faults {h : v.Shifted v.offset w.offset w} {f f' : Fault}
    (hff : (Similarity.translation defs own h).Faults f f') : f.Shifted defs v.offset w.offset f' := by
  rcases hff with (hstall | ⟨key, hkey⟩) | he | hp
  · exact .same hstall
  · exact .unbuilt hkey
  · cases he
    exact .same rfl
  · exact .stalled hp

theorem translation_outcomes {h : v.Shifted v.offset w.offset w} {o o' : Outcome Value}
    (hoo : (Similarity.translation defs own h).Outcomes (Similarity.translation defs own h).value o o') :
    o.Shifted own v.offset w.offset o' := by
  rcases hoo with ⟨hrest, hxy⟩ | hc | n
  · exact .done (Primitive.shifted_of_view hrest) hxy
  · exact .failed (.cons (translation_entries hc.innermost) (hc.outer.imp fun _ _ => translation_entries))
  · exact .incomplete n

theorem yields_of_shifted (hg : g.SymbolsOnly own) (hdefs : ∀ key h, defs key = .ok h → h.SymbolsOnly own)
    (h : v.Shifted v.offset w.offset w) {r : Except Fault (Outcome Value)} (hr : g.Yields defs v r) :
    ∃ r', g.Yields defs w r' ∧
      Correspond (Fault.Shifted defs v.offset w.offset) (Outcome.Shifted own v.offset w.offset) r r' := by
  have hself : ∀ key, Correspond (Similarity.translation defs own h).Faults
      (Similarity.translation defs own h).Grammars (defs key) (defs key) := by
    intro key
    refine Similarity.correspond_self (fun body hbody => ?_) fun f hf => .inr ⟨key, hf⟩
    exact translation_grammars h (hdefs key body hbody)
  have hview : (Similarity.translation defs own h).view v w := ⟨.refl v, .refl w, h.offset⟩
  obtain ⟨_, -, hsilent, -⟩ | ⟨r', hr', hcorr⟩ := hr.similar hself (translation_grammars h hg) hview
  · exact hsilent.elim
  · exact ⟨r', hr', hcorr.mono (fun _ _ => translation_faults) fun _ _ => translation_outcomes⟩

/-- Views of one kind with the same symbols have the same result up to the move from the one offset to the
other: what remains, the views in the output, the entries of a failure and the position of a stall move along,
everything else is equal. The parse of the one view ends if that of the other does. -/
theorem result_shifted (hg : g.SymbolsOnly own) (hdefs : ∀ key h, defs key = .ok h → h.SymbolsOnly own)
    (hkind : v.kind = w.kind) (hsymbols : v.symbols = w.symbols) :
    (∀ r, g.Yields defs v r → ∃ r', g.Yields defs w r' ∧
      Correspond (Fault.Shifted defs v.offset w.offset) (Outcome.Shifted own v.offset w.offset) r r') ∧
    ∀ r', g.Yields defs w r' → ∃ r, g.Yields defs v r ∧
      Correspond (Fault.Shifted defs v.offset w.offset) (Outcome.Shifted own v.offset w.offset) r r' := by
  have hvw : v.Shifted v.offset w.offset w := ⟨hkind, Nat.add_comm _ _, hsymbols⟩
  have hwv : w.Shifted w.offset v.offset v := ⟨hkind.symm, Nat.add_comm _ _, hsymbols.symm⟩
  refine ⟨fun r hr => yields_of_shifted hg hdefs hvw hr, fun r' hr' => ?_⟩
  -- the way back shows that the parse of `v` ends, the way there what it ends with
  obtain ⟨r, hr, -⟩ := yields_of_shifted hg hdefs hwv hr'
  obtain ⟨r'', hr'', hcorr⟩ := yields_of_shifted hg hdefs hvw hr
  rw [hr''.unique hr'] at hcorr
  exact ⟨r, hr, hcorr⟩

theorem fragment_uniform {a b : Nat} (x y : Value) (h : Value.Alike (View.Counterpart own a b) x y) :
    Correspond (· = ·) (Value.Alike (View.Counterpart own a b)) (Transform.fragment x)
      (Transform.fragment y) := by
  cases h with
  | @view v w hvw =>
    have hfix : v.fragment.fix = w.fragment.fix := by
      rcases hvw with hs | ⟨-, rfl⟩
      · exact Chunk.fix_eq_of_symbols (by simp [hs.kind]) (by simp [hs.symbols])
      · rfl
    rw [Transform.fragment, Transform.fragment, Value.raw, Value.raw, hfix]
    exact .ok (.chunk _)
  | _ => exact .ok (by constructor <;> assumption)

/-- A letter, an equals sign and digits. -/
def setting : Grammar :=
  pair ((deferred "key" 0).map Transform.fragment)
    (preceded (primitive (.tag (.bytes .fixed [61]))) (recognize (many1 (digit .complete))))

def settingDefs : Definitions := fun _ => .ok (primitive (.take 1))

/-- The bytes `a=12`, as a part of fixed bytes and as one of a window on other bytes. -/
def settingFixed : View := ⟨⟨0, .bytes .fixed [35, 35, 97, 61, 49, 50]⟩, .ofNat 2, 4, by decide⟩

def settingWindow : View := ⟨⟨1, .bytes .window [64, 97, 61, 49, 50, 51, 52]⟩, .ofNat 1, 4, by decide⟩

theorem setting_symbolsOnly : setting.SymbolsOnly fun _ => False := by
  simpa [SymbolsOnly, setting, pair, preceded, map, recognize, many1, digit, alphabetRun, Uniform,
    Assembly.Uniform, Repetition.Uniform, Adapter.Uniform] using fun a b => fragment_uniform

theorem result_shifted_setting :
    settingFixed.kind = settingWindow.kind ∧ settingFixed.symbols = settingWindow.symbols ∧
      ∃ r, setting.Yields settingDefs settingWindow r ∧
        Correspond (Fault.Shifted settingDefs 2 1) (Outcome.Shifted (fun _ => False) 2 1)
          (.ok (.done (settingFixed.drop 4)
            (.tuple [.chunk (.bytes .fixed [97]), .view ((settingFixed.drop 2).take 2)]))) r := by
  have hdefs : ∀ key h, settingDefs key = .ok h → h.SymbolsOnly fun _ => False := by
    rintro key _ ⟨⟩
    simp [SymbolsOnly, Uniform]
  have hkind : settingFixed.kind = settingWindow.kind := rfl
  have hsymbols : settingFixed.symbols = settingWindow.symbols := by decide
  have hr : setting.Yields settingDefs settingFixed (.ok (.done (settingFixed.drop 4)
      (.tuple [.chunk (.bytes .fixed [97]), .view ((settingFixed.drop 2).take 2)]))) :=
    .of_result (n := 4) (by decide +kernel)
  exact ⟨hkind, hsymbols, (result_shifted setting_symbolsOnly hdefs hkind hsymbols).1 _ hr⟩

end Grammar
end StreamGrammar
