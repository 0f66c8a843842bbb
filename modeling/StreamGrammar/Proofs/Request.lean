import StreamGrammar.Proofs.Contract
import StreamGrammar.Proofs.Deferral
import StreamGrammar.Proofs.Extension

/-! # How much more is needed

An undecided parse may say how many more symbols it needs. In a grammar that never backtracks this is honest: with
fewer of them it cannot match (`Grammar.request_honest`). The number is worked out deep inside, from what is left
there, and still holds for the whole input, because a view and an extension of it differ by the same number of
symbols wherever two parses that go on side by side have come to.

The functions of callers may do what they like, so nothing is said about outputs, and two parses of which one has
failed are not compared any more. `Request` is what remains: two matches leave views at the same offset, and a
match on the longer view means that it has what the parse of the shorter one had asked for. -/

namespace StreamGrammar

/-! ### What a primitive asks for -/

namespace Primitive

/-- The number of symbols after which the primitive decides, where it is a fixed one. -/
def extent : Primitive → Option Nat
  | tag literal => some literal.length
  | tagNoCase literal => some literal.length
  | take count => some count.toNat
  | unit _ _ _ _ => some 1
  | integer format => some format.width
  | _ => none

variable {v : View} {p : Primitive} {size : Nat}

theorem parseUnit_eq_of_ok {expects : Option (String × Kind)} {test : SymbolTest} {policy : Policy}
    {o : Outcome Value} (h : parseUnit v expects test policy = .ok o) :
    expects.all (·.2 == v.kind) = true ∧ parseUnit v none test policy = .ok o := by
  cases expects with
  | none => exact ⟨rfl, h⟩
  | some e =>
    obtain ⟨name, kind⟩ := e
    rw [parseUnit_some] at h
    by_cases hk : kind = v.kind
    · rw [checkKind_of_eq hk] at h
      exact ⟨by simp [hk], h⟩
    · rw [checkKind_of_ne hk] at h
      cases h

theorem suits_of_ok {o : Outcome Value} (h : p.parse v = .ok o) : p.suits v.kind = true := by
  cases hs : p.suits v.kind with
  | true => rfl
  | false =>
    cases p with
    | tag literal =>
      have hk : literal.kind ≠ v.kind := by simpa [suits] using hs
      rw [parse, parseTag, checkKind_of_ne hk] at h
      cases h
    | tagNoCase literal =>
      have hk : literal.kind ≠ v.kind := by simpa [suits] using hs
      rw [parse, parseTagNoCase, checkKind_of_ne hk] at h
      cases h
    | takeUntil literal policy =>
      have hk : literal.kind ≠ v.kind := by simpa [suits] using hs
      rw [parse, parseTakeUntil, checkKind_of_ne hk] at h
      cases h
    | unit name expects test policy =>
      have hall := (parseUnit_eq_of_ok h).1
      rw [suits, hall] at hs
      cases hs
    | integer format =>
      have hk : v.kind = .text := by
        cases hkind : v.kind with
        | text => rfl
        | binary => rw [hkind] at hs; cases hs
      rw [parse, parseInteger, if_pos hk] at h
      cases h
    | _ => cases hs

/-- On enough symbols of the right kind the primitive decides, unless its test of a symbol raises an error. -/
theorem decided_of_extent (hp : p.extent = some size) (hs : p.suits v.kind = true) (hle : size ≤ v.length) :
    (∃ rest x, p.parse v = .ok (.done rest x)) ∨ (∃ c, p.parse v = .ok (.failed c)) ∨
      ∃ name expects test policy s e, p = unit name expects test policy ∧ v.symbol? 0 = some s ∧
        test s = .error e ∧ p.parse v = .error (.raised e) := by
  cases p with
  | tag literal =>
    cases hp
    have hk : literal.kind = v.kind := by simpa [suits] using hs
    rw [parse, parseTag_of_kind hk, if_neg (c := _ ∧ _) (by omega), consume_of_le hle]
    split
    · exact .inl ⟨_, _, rfl⟩
    · exact .inr (.inl ⟨_, rfl⟩)
  | tagNoCase literal =>
    cases hp
    have hk : literal.kind = v.kind := by simpa [suits] using hs
    rw [parse, parseTagNoCase_of_kind hk, if_neg (c := v.length < _) (by omega), consume_of_le hle]
    split
    · exact .inr (.inl ⟨_, rfl⟩)
    · exact .inl ⟨_, _, rfl⟩
  | take count =>
    cases hp
    rw [parse, parseTake, if_neg (by omega), consume_of_le hle]
    exact .inl ⟨_, _, rfl⟩
  | unit name expects test policy =>
    cases hp
    have hnone : parseUnit v expects test policy = parseUnit v none test policy := by
      cases expects with
      | none => rfl
      | some e =>
        obtain ⟨word, kind⟩ := e
        have hk : kind = v.kind := by simpa [suits] using hs
        rw [parseUnit_some, checkKind_of_eq hk]
        rfl
    have hsymbol : ∃ s, v.symbol? 0 = some s := by
      rw [View.symbol?_eq_symbols]
      exact ⟨_, List.getElem?_eq_getElem (by rw [View.length_symbols]; omega)⟩
    obtain ⟨s, hsymbol⟩ := hsymbol
    rw [parse, hnone, parseUnit_of_symbol hsymbol]
    rcases ht : test s with e | _ | _
    · exact .inr (.inr ⟨name, expects, test, policy, s, e, rfl, hsymbol, ht, rfl⟩)
    · exact .inr (.inl ⟨_, rfl⟩)
    · exact .inl ⟨_, _, rfl⟩
  | integer format =>
    cases hp
    have hk : v.kind ≠ .text := by
      intro hk
      rw [hk] at hs
      cases hs
    rw [parse, parseInteger_of_le hk hle]
    exact .inl ⟨_, _, rfl⟩
  | _ => cases hp

/-- The length that the view must have before the primitive can decide. -/
def reach (p : Primitive) (v : View) : Nat := p.extent.getD (v.length + 1)

/-- If the answer asks for symbols, it asks for just those that the view lacks. -/
def Waits (p : Primitive) (v : View) (r : Except Fault (Outcome Value)) : Prop :=
  ∀ n, r = .ok (.incomplete (.exact n)) → v.length < p.reach v ∧ v.length + n.toInt = p.reach v

theorem Waits.done {rest : View} {x : Value} : Waits p v (.ok (.done rest x)) := by
  intro n h
  cases h

theorem Waits.consume {n : Nat} (hn : n ≤ v.length) : Waits p v (consume v n) := by
  rw [consume_of_le hn]
  exact .done

theorem Waits.missing {m : Nat} (hlt : v.length < p.reach v) (hm : m = p.reach v - v.length) :
    Waits p v (missing m) := by
  intro n h
  rw [missing_of_pos (by omega)] at h
  cases h
  rw [Numeral.toInt_int]
  exact ⟨hlt, by omega⟩

theorem Waits.failAt (kind : ErrorKind) : Waits p v (.ok (.failAt kind v)) := by
  intro n h
  cases h

theorem Waits.error (fault : Fault) : Waits p v (.error fault) := by
  intro n h
  cases h

section
variable (v : View)

theorem waits_tag (literal : Chunk) : Waits (tag literal) v (parseTag v literal) := by
  by_cases hk : literal.kind = v.kind
  · rw [parseTag_of_kind hk]
    split
    · next hp =>
      have hle := hp.length_le
      rw [View.length_symbols, Chunk.length_symbols] at hle
      exact .consume hle
    · split
      · next hm => exact .missing hm.1 rfl
      · exact .failAt _
  · rw [parseTag, checkKind_of_ne hk]
    exact .error _

theorem waits_tagNoCase (literal : Chunk) : Waits (tagNoCase literal) v (parseTagNoCase v literal) := by
  by_cases hk : literal.kind = v.kind
  · rw [parseTagNoCase_of_kind hk]
    split
    · exact .failAt _
    · split
      · next hm => exact .missing hm rfl
      · next hm => exact .consume (by omega)
  · rw [parseTagNoCase, checkKind_of_ne hk]
    exact .error _

theorem waits_take (count : Numeral) : Waits (take count) v (parseTake v count.toNat) := by
  rw [parseTake]
  split
  · next hm => exact .missing hm rfl
  · next hm => exact .consume (by omega)

theorem waits_takeUntil (literal : Chunk) (policy : Policy) :
    Waits (takeUntil literal policy) v (parseTakeUntil v literal policy) := by
  by_cases hk : literal.kind = v.kind
  · rw [parseTakeUntil_of_kind hk]
    split
    · next i hi =>
      have hle := firstOccurrence_add_length_le hi
      rw [View.length_symbols] at hle
      exact .consume (by omega)
    · intro n h
      cases h
    · exact .failAt _
  · rw [parseTakeUntil, checkKind_of_ne hk]
    exact .error _

theorem waits_unit (name : String) (expects : Option (String × Kind)) (test : SymbolTest) (policy : Policy) :
    Waits (unit name expects test policy) v (parseUnit v expects test policy) := by
  intro n h
  have hnone : Waits (unit name expects test policy) v (parseUnit v none test policy) := by
    cases hsymbol : v.symbol? 0 with
    | none =>
      have hempty : v.length = 0 := by
        rw [View.symbol?_eq_symbols, List.getElem?_eq_none_iff, View.length_symbols] at hsymbol
        omega
      have hreach : (unit name expects test policy).reach v = 1 := rfl
      rw [parseUnit_of_none hsymbol]
      cases policy with
      | streaming => exact .missing (by omega) (by omega)
      | complete => exact .failAt _
    | some s =>
      rw [parseUnit_of_symbol hsymbol]
      rcases test s with e | _ | _
      · exact .error _
      · exact .failAt _
      · exact .done
  exact hnone n (parseUnit_eq_of_ok h).2

theorem waits_run (name : String) (test : SymbolTest) (policy : Policy) :
    Waits (run name test policy) v (parseRun v test policy) := by
  have hreach : (run name test policy).reach v = v.length + 1 := rfl
  cases hl : leading test v.symbols with
  | error e =>
    rw [parseRun_of_error hl]
    exact .error _
  | ok count =>
    have hle := leading_le hl
    rw [View.length_symbols] at hle
    rw [parseRun_of_ok hl]
    split
    · exact .missing (by omega) (by omega)
    · split
      · exact .failAt _
      · exact .consume hle

theorem waits_lineEnding (policy : Policy) : Waits (lineEnding policy) v (parseLineEnding v policy) := by
  have hreach : (lineEnding policy).reach v = v.length + 1 := rfl
  have hcut : Waits (lineEnding policy) v (lineCut v policy) := by
    cases policy with
    | streaming => exact .missing (by omega) (by omega)
    | complete => exact .failAt _
  rw [parseLineEnding]
  split
  · exact hcut
  · next first hfirst =>
    split
    · exact .consume (lt_length_of_symbol? hfirst)
    · split
      · split
        · exact hcut
        · next second hsecond =>
          split
          · exact .consume (lt_length_of_symbol? hsecond)
          · exact .failAt _
      · exact .failAt _

theorem waits_integer (format : IntegerFormat) : Waits (integer format) v (parseInteger v format) := by
  by_cases hk : v.kind = .text
  · rw [parseInteger, if_pos hk]
    exact .error _
  · by_cases hm : v.length < format.width
    · rw [parseInteger, if_neg hk, if_pos hm]
      exact .missing hm rfl
    · rw [parseInteger_of_le hk (by omega)]
      exact .done

theorem waits (p : Primitive) : Waits p v (p.parse v) := by
  cases p with
  | tag literal => exact waits_tag v literal
  | tagNoCase literal => exact waits_tagNoCase v literal
  | take count => exact waits_take v count
  | takeUntil literal policy => exact waits_takeUntil v literal policy
  | unit name expects test policy => exact waits_unit v name expects test policy
  | run name test policy => exact waits_run v name test policy
  | lineEnding policy => exact waits_lineEnding v policy
  | endOfInput =>
    rw [parse, parseEndOfInput]
    split
    · exact .done
    · exact .failAt _
  | integer format => exact waits_integer v format

end

theorem extent_le_of_done {rest : View} {x : Value} (hp : p.extent = some size)
    (h : p.parse v = .ok (.done rest x)) : size ≤ v.length := by
  have hs := suits_of_ok h
  by_contra hlt
  cases p with
  | tag literal =>
    cases hp
    have hk : literal.kind = v.kind := by simpa [suits] using hs
    have hprefix : ¬ literal.symbols <+: v.symbols := by
      intro hprefix
      have hle := hprefix.length_le
      rw [View.length_symbols, Chunk.length_symbols] at hle
      exact hlt hle
    rw [parse, parseTag_of_kind hk, if_neg hprefix, missing_of_pos (by omega)] at h
    split at h <;> cases h
  | tagNoCase literal =>
    cases hp
    have hk : literal.kind = v.kind := by simpa [suits] using hs
    rw [parse, parseTagNoCase_of_kind hk, if_pos (c := v.length < _) (by omega), missing_of_pos (by omega)] at h
    split at h <;> cases h
  | take count =>
    cases hp
    rw [parse, parseTake, if_pos (by omega), missing_of_pos (by omega)] at h
    cases h
  | unit name expects test policy =>
    cases hp
    have hsymbol : v.symbol? 0 = none := by
      rw [View.symbol?_eq_symbols, List.getElem?_eq_none_iff, View.length_symbols]
      omega
    have h' := (parseUnit_eq_of_ok h).2
    rw [parseUnit_of_none hsymbol, missing_of_pos Nat.one_pos] at h'
    cases policy <;> cases h'
  | integer format =>
    cases hp
    have hk : v.kind ≠ .text := by
      intro hk
      rw [hk] at hs
      cases hs
    rw [parse, parseInteger, if_neg hk, if_pos (by omega), missing_of_pos (by omega)] at h
    cases h
  | _ => cases hp

/-- A primitive that waits on a view and matches on an extension of it has got there what it waited for. -/
theorem reach_le_of_done {a b rest : View} {x : Value} {n : Numeral} (hp : p.streaming = true) (hab : b.Extends a)
    (ha : p.parse a = .ok (.incomplete (.exact n))) (hb : p.parse b = .ok (.done rest x)) :
    p.reach a ≤ b.length := by
  cases hextent : p.extent with
  | some size =>
    rw [reach, hextent]
    exact extent_le_of_done hextent hb
  | none =>
    rw [reach, hextent]
    have hle := hab.length_le
    by_contra hlt
    -- on the same symbols it would have matched before
    have hsymbols : a.symbols = b.symbols := by
      refine hab.symbols.eq_of_length ?_
      rw [View.length_symbols, View.length_symbols]
      simp only [Option.getD_none] at hlt
      omega
    have hba : a.Extends b := ⟨hab.kind.symm, hab.offset.symm, hsymbols ▸ List.prefix_rfl⟩
    have hleaves := extension_parse (h := hba) ⟨.refl b, .refl a, hba.offset⟩ hp
    rw [ha, hb] at hleaves
    obtain ⟨_, ⟨⟩, -, _, ⟨⟩⟩ | _ | ⟨⟨⟩⟩ := hleaves

end Primitive

/-! ### Values of runs -/

namespace Run
variable {α β : Type} {x : Run α} {a : α} {b : β}

/-- The run can end with this value. -/
def Gives (x : Run α) (a : α) : Prop :=
  ∃ threshold cache cache' records, x threshold cache = some ⟨.ok a, cache', records⟩

theorem Gives.of_ofExcept {r : Except Fault α} (h : (Run.ofExcept r).Gives a) : r = .ok a := by
  obtain ⟨threshold, cache, cache', records, h⟩ := h
  cases h
  rfl

theorem Gives.of_pure {a' : α} (h : (pure a' : Run α).Gives a) : a' = a := by
  cases h.of_ofExcept
  rfl

theorem Gives.of_bind {f : α → Run β} (h : (x >>= f).Gives b) : ∃ a, x.Gives a ∧ (f a).Gives b := by
  obtain ⟨threshold, cache, cache', records, h⟩ := h
  rcases hx : x threshold cache with _ | ⟨fault | a, cache₁, records₁⟩
  · rw [bind_of_none _ _ f hx] at h
    cases h
  · rw [bind_of_error _ _ f hx] at h
    cases h
  · rw [bind_of_ok _ _ f hx] at h
    obtain ⟨⟨result, cache₂, records₂⟩, hf, heq⟩ := Option.map_eq_some_iff.1 h
    cases heq
    exact ⟨a, ⟨threshold, cache, cache₁, records₁, hx⟩, threshold, cache₁, cache₂, records₂, hf⟩

end Run

/-! ### Two parses side by side -/

/-- Outcomes of parses of `u` and of its extension `w`: if the first asks for more symbols and the second is a
match, then `w` has that many more; two matches leave views at the same offset. -/
structure Request {α β : Type} {u w : View} (h : w.Extends u) (o : Outcome α) (o' : Outcome β) : Prop where
  enough : ∀ {n rest y}, o = .incomplete (.exact n) → o' = .done rest y → u.length + n.toInt ≤ w.length
  aligned : ∀ {a b x y}, o = .done a x → o' = .done b y → (Similarity.extension h).view a b

namespace Request
variable {α β γ δ : Type} {u w a b : View} {h : w.Extends u}

theorem done {x : α} {y : β} (hab : (Similarity.extension h).view a b) : Request h (.done a x) (.done b y) := by
  refine ⟨fun ho => (nomatch ho), fun ho ho' => ?_⟩
  cases ho
  cases ho'
  exact hab

theorem failed_left {c : Chain} {o' : Outcome β} : Request h (.failed c : Outcome α) o' :=
  ⟨fun ho => (nomatch ho), fun ho => nomatch ho⟩

theorem failed_right {o : Outcome α} {c : Chain} : Request h o (.failed c : Outcome β) :=
  ⟨fun _ ho' => (nomatch ho'), fun _ ho' => nomatch ho'⟩

theorem incomplete_right {o : Outcome α} {n : Needed} : Request h o (.incomplete n : Outcome β) :=
  ⟨fun _ ho' => (nomatch ho'), fun _ ho' => nomatch ho'⟩

/-- What follows on a match on the longer view makes no difference to what was asked for. -/
theorem incomplete_left {n : Needed} {y : β} {o' : Outcome δ}
    (ho : Request h (.incomplete n : Outcome α) (.done b y)) : Request h (.incomplete n : Outcome γ) o' := by
  refine ⟨fun hn _ => ?_, fun hn => nomatch hn⟩
  cases hn
  exact ho.enough rfl rfl

/-- Whatever outcomes the two runs end with, they are related. -/
def Runs (h : w.Extends u) (x : Run (Outcome α)) (y : Run (Outcome β)) : Prop :=
  ∀ o o', x.Gives o → y.Gives o' → Request h o o'

/-- The run ends without a match and without a request. -/
def Fails (x : Run (Outcome α)) : Prop :=
  ∀ o, x.Gives o → ∃ c, o = .failed c

theorem Fails.pure (c : Chain) : Fails (pure (.failed c) : Run (Outcome α)) :=
  fun _ ho => ⟨c, ho.of_pure.symm⟩

theorem Fails.after {x : Run γ} {f : γ → Run (Outcome α)} (hf : ∀ s, Fails (f s)) : Fails (x >>= f) := by
  intro o ho
  obtain ⟨s, -, hs⟩ := ho.of_bind
  exact hf s o hs

namespace Runs

theorem done {x : α} {y : β} (hab : (Similarity.extension h).view a b) :
    Runs h (pure (.done a x)) (pure (.done b y)) := by
  intro o o' ho ho'
  cases ho.of_pure
  cases ho'.of_pure
  exact .done hab

theorem of_fails {x : Run (Outcome α)} (hx : Fails x) (y : Run (Outcome β)) : Runs h x y := by
  intro o o' ho ho'
  obtain ⟨c, rfl⟩ := hx o ho
  exact .failed_left

theorem to_fails (x : Run (Outcome α)) {y : Run (Outcome β)} (hy : Fails y) : Runs h x y := by
  intro o o' ho ho'
  obtain ⟨c, rfl⟩ := hy o' ho'
  exact .failed_right

/-- To go on after runs of which nothing is known. -/
theorem after {x : Run γ} {y : Run δ} {f : γ → Run (Outcome α)} {g : δ → Run (Outcome β)}
    (hfg : ∀ s t, Runs h (f s) (g t)) : Runs h (x >>= f) (y >>= g) := by
  intro o o' ho ho'
  obtain ⟨s, -, hs⟩ := ho.of_bind
  obtain ⟨t, -, ht⟩ := ho'.of_bind
  exact hfg s t o o' hs ht

/-- To go on side by side, go on after two matches; what failed or is undecided must be left as it is. -/
theorem bind {x : Run (Outcome α)} {y : Run (Outcome β)} {f : Outcome α → Run (Outcome γ)}
    {g : Outcome β → Run (Outcome δ)} (hxy : Runs h x y)
    (hdone : ∀ a b s t, (Similarity.extension h).view a b → Runs h (f (.done a s)) (g (.done b t)))
    (hf : ∀ c, Fails (f (.failed c))) (hg : ∀ c, Fails (g (.failed c)))
    (hf' : ∀ n, f (.incomplete n) = pure (.incomplete n))
    (hg' : ∀ n, g (.incomplete n) = pure (.incomplete n)) : Runs h (x >>= f) (y >>= g) := by
  intro o o' ho ho'
  obtain ⟨p, hp, ho⟩ := ho.of_bind
  obtain ⟨p', hp', ho'⟩ := ho'.of_bind
  have hrequest := hxy p p' hp hp'
  -- only a match on the longer view has something to show
  cases p' with
  | failed c => exact to_fails _ (hg c) o o' ho ho'
  | incomplete n =>
    rw [hg'] at ho'
    cases ho'.of_pure
    exact .incomplete_right
  | done b t =>
    cases p with
    | failed c => exact of_fails (hf c) _ o o' ho ho'
    | incomplete n =>
      rw [hf'] at ho
      cases ho.of_pure
      exact .incomplete_left hrequest
    | done a s => exact hdone a b s t (hrequest.aligned rfl rfl) o o' ho ho'

theorem map {x : Run (Outcome α)} {y : Run (Outcome β)} (f : α → γ) (g : β → δ) (hxy : Runs h x y) :
    Runs h (Outcome.map f <$> x) (Outcome.map g <$> y) := by
  rw [map_eq_pure_bind, map_eq_pure_bind]
  exact hxy.bind (fun _ _ _ _ hab => .done hab) (fun c => .pure c) (fun c => .pure c) (fun _ => rfl) fun _ => rfl

theorem mapM {x : Run (Outcome α)} {y : Run (Outcome β)} {f : α → Except Raised γ} {g : β → Except Raised δ}
    (hxy : Runs h x y) : Runs h (x >>= fun o => o.mapM fun s => (liftM (f s) : Run γ))
      (y >>= fun o => o.mapM fun t => (liftM (g t) : Run δ)) :=
  hxy.bind (fun _ _ _ _ hab => .after fun _ _ => .done hab) (fun c => .pure c) (fun c => .pure c) (fun _ => rfl)
    fun _ => rfl

end Runs

/-! ### Combinators that do not backtrack -/

/-- The parser, run on a suffix of `u` and on the suffix of `w` at the same offset. -/
def Parsers (h : w.Extends u) (p : Parser α) : Prop :=
  ∀ a b, (Similarity.extension h).view a b → Runs h (p a) (p b)

theorem thread {ps : List (Parser α)} (hps : ∀ p ∈ ps, Parsers h p) (origin origin' : Position)
    (hab : (Similarity.extension h).view a b) :
    Runs h (Parser.thread origin ps a) (Parser.thread origin' ps b) := by
  induction ps generalizing a b with
  | nil => exact .done hab
  | cons p ps ih =>
    refine (hps p (.head _) a b hab).bind (fun a' b' s t hab' => ?_) (fun c => .pure _) (fun c => .pure _)
      (fun _ => rfl) fun _ => rfl
    exact (ih (fun q hq => hps q (.tail _ hq)) hab').map _ _

theorem fold {p : Parser α} (hp : Parsers h p) {l l' : Parser.Loop α β} (hl : l.most = some l.least)
    (hl' : l'.most = some l'.least) (hleast : l.least = l'.least) (rounds matched : Nat) (acc acc' : β)
    (hab : (Similarity.extension h).view a b) :
    Runs h (p.fold l rounds matched acc a) (p.fold l' rounds matched acc' b) := by
  have hfull : ∀ matched, l.full matched = decide (l.least ≤ matched) := fun matched => by
    rw [Parser.Loop.full, hl]
  have hfull' : ∀ matched, l'.full matched = decide (l.least ≤ matched) := fun matched => by
    rw [Parser.Loop.full, hl', hleast]
  induction rounds generalizing matched acc acc' a b with
  | zero =>
    rw [Parser.fold, Parser.fold, hfull, hfull']
    split
    · exact .done hab
    · rintro o o' ⟨_, _, _, _, hexhausted⟩
      cases hexhausted
  | succ rounds ih =>
    rw [Parser.fold, Parser.fold, hfull, hfull']
    split
    · exact .done hab
    next hmore =>
    -- a failure in any of the rounds is one of the whole loop
    have hmatched : matched < l.least := by simpa using hmore
    refine (hp a b hab).bind (fun a' b' s t hab' => ?_) (fun c => ?_) (fun c => ?_) (fun _ => rfl) fun _ => rfl
    · exact .after fun _ _ => .after fun acc₁ acc₂ => ih (matched + 1) acc₁ acc₂ hab'
    · show Fails (if matched < l.least then _ else _)
      rw [if_pos hmatched]
      exact .pure _
    · show Fails (if matched < l'.least then _ else _)
      rw [if_pos (hleast ▸ hmatched)]
      exact .pure _

theorem mapResult {p : Parser Value} (hp : Parsers h p) (f : Transform) (caught : List ErrorClass)
    (code : Option Value) : Parsers h (p.mapResult · f caught code) := by
  intro a b hab
  refine (hp a b hab).bind (fun a' b' s t hab' => ?_) (fun c => .pure c) (fun c => .pure c) (fun _ => rfl)
    fun _ => rfl
  -- an error of the function ends in a failure or in a fault
  have herror : ∀ (v : View) (e : Raised), Fails (if caught.any (·.covers e.errorClass) then do
      return .failed { innermost := ← Entry.of .custom v.start.written code (some e) }
      else Run.raise (.raised e) : Run (Outcome Value)) := by
    intro v e
    split
    · exact .after fun _ => .pure _
    · exact fun o ho => nomatch ho.of_ofExcept
  rcases hs : f s with e | x
  · simp only [hs]
    exact .of_fails (herror a e) _
  rcases ht : f t with e | y
  · simp only [ht]
    exact .to_fails _ (herror b e)
  · simp only [hs, ht]
    exact .done hab'

end Request

/-- The adapter makes no match of a failure. -/
def Adapter.forwards : Adapter → Bool
  | optional => false
  | negate => false
  | _ => true

theorem Request.adapted {u w : View} {h : w.Extends u} {p : Parser Value} (hp : Request.Parsers h p)
    {adapter : Adapter} (hadapter : adapter.forwards = true) : Request.Parsers h (adapter.parse p) := by
  intro a b hab
  have hpab := hp a b hab
  cases adapter with
  | optional => cases hadapter
  | negate => cases hadapter
  | peek =>
    exact hpab.bind (fun _ _ _ _ _ => .done hab) (fun c => .pure c) (fun c => .pure c) (fun _ => rfl) fun _ => rfl
  | map f => exact hpab.mapM
  | mapResult f caught code => exact mapResult hp f caught code a b hab
  | recognize =>
    refine hpab.bind (fun a' b' s t hab' => ?_) (fun c => .pure c) (fun c => .pure c) (fun _ => rfl) fun _ => rfl
    exact .after fun _ _ => .done hab'
  | verify test =>
    refine hpab.bind (fun a' b' s t hab' => ?_) (fun c => .pure c) (fun c => .pure c) (fun _ => rfl) fun _ => rfl
    refine .after fun passes passes' => ?_
    cases passes with
    | false => exact .of_fails (.pure _) _
    | true =>
      cases passes' with
      | false => exact .to_fails _ (.pure _)
      | true => exact .done hab'
  | context code =>
    refine hpab.bind (fun a' b' s t hab' => .done hab') (fun c => ?_) (fun c => ?_) (fun _ => rfl) fun _ => rfl
    · exact .after fun _ => .pure _
    · exact .after fun _ => .pure _
  | cond condition =>
    show Runs h (if condition.truth = true then p a else _) (if condition.truth = true then p b else _)
    split
    · exact hpab
    · exact .done hab
  | condReduce condition =>
    show Runs h (if condition.truth = true then p a else _) (if condition.truth = true then p b else _)
    split
    · exact hpab
    · exact .of_fails (.pure _) _
  | trace label =>
    intro o o' ho ho'
    obtain ⟨q, hq, hrest⟩ := ho.of_bind
    obtain ⟨q', hq', hrest'⟩ := ho'.of_bind
    obtain ⟨-, -, hpure⟩ := hrest.of_bind
    obtain ⟨-, -, hpure'⟩ := hrest'.of_bind
    rw [← hpure.of_pure, ← hpure'.of_pure]
    exact hpab q q' hq hq'
  | renamed name => exact hpab

theorem Request.leaf {u w : View} {h : w.Extends u} {p : Primitive} (hp : p.streaming = true) :
    Request.Parsers h (Parser.leaf p.parse) := by
  intro a b hab o o' ho ho'
  obtain ⟨-, -, ho⟩ := ho.of_bind
  obtain ⟨-, -, ho'⟩ := ho'.of_bind
  have ha : p.parse a = .ok o := ho.of_ofExcept
  have hb : p.parse b = .ok o' := ho'.of_ofExcept
  have hext := Primitive.extends_of_view hab
  refine ⟨fun {n rest y} hn hdone => ?_, fun {a' b' x y} hdone hdone' => ?_⟩
  · -- both views end where `u` and `w` do, so they lack as many symbols
    rw [hn] at ha
    rw [hdone] at hb
    obtain ⟨hlt, hreach⟩ := Primitive.waits a p n ha
    have hle := Primitive.reach_le_of_done hp hext ha hb
    have hoffset := h.offset
    obtain ⟨hau, hbw, heq⟩ := hab
    have hlength := hau.length_add
    have hlength' := hbw.length_add
    have hstart := hau.offset_le
    have hstart' := hbw.offset_le
    omega
  · have hleaves := Primitive.extension_parse hab hp
    rw [ha, hb, hdone, hdone'] at hleaves
    obtain ⟨_, ⟨⟩, -, _, ⟨⟩⟩ | _ | ⟨⟨hview, -⟩⟩ := hleaves
    exact hview

/-! ### Grammars -/

namespace Grammar

/-- The node is a streaming primitive or a combinator that does not backtrack. -/
def forwards : Grammar → Bool
  | primitive p => p.streaming
  | sequence _ _ => true
  | repeated (.times _) _ => true
  | adapted a _ => a.forwards
  | deferred _ _ => true
  | _ => false

/-- The grammar is made of streaming primitives and combinators that do not backtrack. -/
def Straight (g : Grammar) : Prop := g.Everywhere fun h => h.forwards = true

variable {defs : Definitions} {g : Grammar} {u w : View} {h : w.Extends u}

theorem interp_request {rounds : Nat} {deferred : String → Key → Parser Value}
    (hdeferred : ∀ name key, Request.Parsers h (deferred name key)) (hg : g.Straight) :
    Request.Parsers h (g.interp rounds deferred) := by
  induction hg with
  | @intro g hnode _ ih =>
    intro a b hab
    cases g with
    | primitive p => rw [interp]; exact Request.leaf hnode a b hab
    | sequence assembly parts =>
      rw [interp, interpAll_eq_map]
      refine (Request.thread (fun p hp => ?_) _ _ hab).mapM
      obtain ⟨part, hpart, rfl⟩ := List.mem_map.1 hp
      exact ih part hpart
    | repeated r g =>
      rw [interp]
      cases r with
      | times count =>
        refine Request.Runs.map Value.list Value.list ?_
        exact Request.fold (ih g (.head _)) (by rfl) (by rfl) (by rfl) rounds 0 [] [] hab
      | _ => cases hnode
    | adapted adapter g => rw [interp]; exact Request.adapted (ih g (.head _)) hnode a b hab
    | deferred name key => rw [interp]; exact hdeferred name key a b hab
    | _ => cases hnode

theorem parseFresh_request (hdefs : ∀ key k, defs key = .ok k → k.Straight) (hg : g.Straight) (n : Nat) :
    Request.Parsers h (g.parseFresh defs n) := by
  induction n generalizing g with
  | zero => exact fun a b _ o o' ⟨_, _, _, _, ho⟩ => nomatch ho
  | succ n ih =>
    refine interp_request (fun name key a b hab o o' ho ho' => ?_) hg
    obtain ⟨body, hbody, ho⟩ := ho.of_bind
    obtain ⟨body', hbody', ho'⟩ := ho'.of_bind
    have hkey : defs key = .ok body := hbody.of_ofExcept
    have hkey' : defs key = .ok body' := hbody'.of_ofExcept
    cases hkey.symm.trans hkey'
    exact ih (hdefs key body hkey) a b hab o o' ho ho'

theorem Yields.gives {o : Outcome Value} (hr : g.Yields defs u (.ok o)) :
    ∃ budget, ∀ n, budget ≤ n → (g.parseFresh defs n u).Gives o := by
  obtain ⟨budget, hbudget⟩ := hr.exists_result
  refine ⟨budget, fun n hn => ?_⟩
  have hnil := Cache.sound_nil defs
  obtain ⟨e, he, hr⟩ := hbudget n hn .silent [] rfl hnil
  have hfresh := (parse_agrees_fresh defs n g u).result_eq (s := .silent) (t := .silent) rfl hnil (d := []) trivial
  rw [he, Option.map_some, hr] at hfresh
  obtain ⟨⟨_, cache, records⟩, he', rfl⟩ := Option.map_eq_some_iff.1 hfresh.symm
  exact ⟨.silent, [], cache, records, he'⟩

/-! ### Requests -/

end Grammar

/-- Anything may happen, but a parser asks for at least one symbol. -/
def Contract.asks : Contract where
  limit := True
  chain _ _ := True
  needed needed := ∀ n, needed = .exact n → 0 < n.toInt
  fault _ _ := True
  fault_suffix _ _ := trivial
  single _ := trivial
  caught := trivial
  within _ _ _ := trivial
  coded _ := trivial

namespace Grammar
variable {defs : Definitions} {g : Grammar} {u w : View}

theorem asks_everywhere (hg : g.Straight) : g.Everywhere (Contract.asks.Node (fun _ => false) fun _ => True) := by
  refine hg.mono fun node hnode => ?_
  cases node with
  | primitive p =>
    exact fun v => Contract.primitive (fun _ _ hn => hn) (fun _ _ => ⟨fun _ => trivial, trivial⟩) fun _ _ => trivial
  | custom name run => cases hnode
  | _ =>
    refine Contract.node_of_ofParsing (fun _ _ _ => trivial) (fun p hp => nomatch hp) ?_
    exact fun name run hcustom => nomatch hcustom

theorem request_pos (hg : g.Straight) (hdefs : ∀ key k, defs key = .ok k → k.Straight) {n : Numeral}
    (hu : g.Yields defs u (.ok (.incomplete (.exact n)))) : 0 < n.toInt := by
  have hdefines : Contract.asks.Defines (fun _ => false) defs :=
    ⟨fun key k hk => asks_everywhere (hdefs key k hk), fun _ _ _ h => (nomatch h), fun _ _ _ _ => trivial⟩
  have hends := fun budget => Contract.parse trivial hdefines (asks_everywhere hg) budget u
  exact hu.ok_of_meets hends n rfl

theorem enough_of_done (hg : g.Straight) (hdefs : ∀ key k, defs key = .ok k → k.Straight) (hw : w.Extends u)
    {n : Numeral} (hu : g.Yields defs u (.ok (.incomplete (.exact n)))) {rest : View} {x : Value}
    (hdone : g.Yields defs w (.ok (.done rest x))) : u.length + n.toInt ≤ w.length := by
  obtain ⟨budget, hgives⟩ := hu.gives
  obtain ⟨budget', hgives'⟩ := hdone.gives
  have hrequest := parseFresh_request (h := hw) hdefs hg (max budget budget') u w ⟨.refl u, .refl w, hw.offset⟩
    _ _ (hgives _ (Nat.le_max_left _ _)) (hgives' _ (Nat.le_max_right _ _))
  exact hrequest.enough rfl rfl

theorem yields_primitive (defs : Definitions) (p : Primitive) (v : View) :
    (primitive p).Yields defs v (p.parse v) := by
  refine .of_result (n := 1) ?_
  rw [parse, interp]
  rfl

/-- A request of a grammar that does not backtrack is for one symbol at least, and with fewer symbols than it asks
for there is no match. For a primitive that looks at a fixed number of symbols the request is sufficient, too: with
that many symbols it decides, unless its test of the next symbol raises an error. -/
theorem request_honest (hg : g.Straight) (hdefs : ∀ key k, defs key = .ok k → k.Straight) {n : Numeral}
    (hu : g.Yields defs u (.ok (.incomplete (.exact n)))) :
    1 ≤ n.toInt ∧
    (∀ w, w.Extends u → (w.length : Int) < u.length + n.toInt →
      ∀ rest x, ¬ g.Yields defs w (.ok (.done rest x))) ∧
    ∀ p size, g = primitive p → p.extent = some size → ∀ w, w.Extends u → u.length + n.toInt ≤ w.length →
      (∃ rest x, g.Yields defs w (.ok (.done rest x))) ∨ (∃ c, g.Yields defs w (.ok (.failed c))) ∨
        ∃ name expects test policy s e, p = .unit name expects test policy ∧ w.symbol? 0 = some s ∧
          test s = .error e ∧ g.Yields defs w (.error (.raised e)) := by
  refine ⟨request_pos hg hdefs hu, fun w hw hlt rest x hdone => ?_, ?_⟩
  · have henough := enough_of_done hg hdefs hw hu hdone
    omega
  · rintro p size rfl hp w hw hle
    have hparse : p.parse u = .ok (.incomplete (.exact n)) := (yields_primitive defs p u).unique hu
    have hsuits : p.suits w.kind = true := hw.kind ▸ Primitive.suits_of_ok hparse
    have hreach : p.reach u = size := by rw [Primitive.reach, hp, Option.getD_some]
    obtain ⟨-, hn⟩ := Primitive.waits u p n hparse
    have hyields := yields_primitive defs p w
    obtain ⟨rest, x, hdone⟩ | ⟨c, hfailed⟩ | ⟨name, expects, test, policy, s, e, hunit, hs, ht, hraised⟩ :=
      Primitive.decided_of_extent hp hsuits (by omega : size ≤ w.length)
    · exact .inl ⟨rest, x, hdone ▸ hyields⟩
    · exact .inr (.inl ⟨c, hfailed ▸ hyields⟩)
    · exact .inr (.inr ⟨name, expects, test, policy, s, e, hunit, hs, ht, hraised ▸ hyields⟩)

/-- A test that raises an error on every symbol. -/
def refusing : Grammar :=
  satisfy (fun _ => .error (.thrown .value "boom")) "refusing" .streaming

def noDefs : Definitions := fun _ => .error .noCandidate

/-- With the one symbol that it asks for, the parse comes to no outcome at all. -/
theorem request_insufficient_refusing :
    refusing.Straight ∧
      refusing.Yields noDefs (.whole ⟨0, .ofString ""⟩) (.ok (.incomplete (.exact (.int 1)))) ∧
      (View.whole ⟨0, .ofString "a"⟩).Extends (.whole ⟨0, .ofString ""⟩) ∧
      (View.whole ⟨0, .ofString "a"⟩).length = (View.whole ⟨0, .ofString ""⟩).length + 1 ∧
      ∀ o, ¬ refusing.Yields noDefs (.whole ⟨0, .ofString "a"⟩) (.ok o) := by
  have hstraight : refusing.Straight := by
    simp [Straight, refusing, satisfy, forwards, Primitive.streaming, Primitive.policy?]
  have hraised : refusing.Yields noDefs (.whole ⟨0, .ofString "a"⟩)
      (.error (.raised (.thrown .value "boom"))) := .of_result (n := 1) (by decide +kernel)
  refine ⟨hstraight, .of_result (n := 1) (by decide +kernel), ⟨rfl, rfl, by decide⟩, by decide, fun o ho => ?_⟩
  cases ho.unique hraised

/-- After a mark two triples, each of which begins with a sign. -/
def markedTriples : Grammar :=
  pair (primitive (.tag (.ofString "#")))
    (repeated (.times 2) (preceded (peek (deferred "sign" 0)) (recognize (primitive (.take 3)))))

def markedTriplesDefs : Definitions := fun _ => .ok (primitive (.tag (.ofString "+")))

def markedTriplesInput : View := ⟨⟨0, .ofString "..#+ab+"⟩, .ofNat 2, 5, by decide⟩

/-- One symbol more, of the two that are missing. -/
def markedTriplesLonger : View := ⟨⟨1, .ofString "..#+ab+c"⟩, .ofNat 2, 6, by decide⟩

theorem markedTriples_straight : markedTriples.Straight := by
  simp [Straight, markedTriples, pair, preceded, peek, recognize, forwards, Adapter.forwards, Primitive.streaming,
    Primitive.policy?]

theorem request_honest_markedTriples :
    markedTriples.Yields markedTriplesDefs markedTriplesInput (.ok (.incomplete (.exact (.int 2)))) ∧
      markedTriplesLonger.Extends markedTriplesInput ∧
      (∀ rest x, ¬ markedTriples.Yields markedTriplesDefs markedTriplesLonger (.ok (.done rest x))) ∧
      ((∃ rest x, (primitive (.take 7)).Yields markedTriplesDefs (.whole ⟨2, .ofString "#+ab+cd"⟩)
          (.ok (.done rest x))) ∨
        ∃ c, (primitive (.take 7)).Yields markedTriplesDefs (.whole ⟨2, .ofString "#+ab+cd"⟩) (.ok (.failed c))) := by
  have hdefs : ∀ key k, markedTriplesDefs key = .ok k → k.Straight := by
    rintro key _ ⟨⟩
    simp [Straight, forwards, Primitive.streaming, Primitive.policy?]
  have hyields : markedTriples.Yields markedTriplesDefs markedTriplesInput
      (.ok (.incomplete (.exact (.int 2)))) := .of_result (n := 4) (by decide +kernel)
  have hlonger : markedTriplesLonger.Extends markedTriplesInput := ⟨rfl, rfl, by decide⟩
  refine ⟨hyields, hlonger, ?_, ?_⟩
  · exact (request_honest markedTriples_straight hdefs hyields).2.1 _ hlonger (by decide)
  · have htake : (primitive (.take 7)).Yields markedTriplesDefs (.whole ⟨2, .ofString "#+ab+"⟩)
        (.ok (.incomplete (.exact (.int 2)))) := .of_result (n := 1) (by decide +kernel)
    have hstraight : (primitive (.take 7)).Straight := by
      simp [Straight, forwards, Primitive.streaming, Primitive.policy?]
    obtain hdone | hfailed | ⟨_, _, _, _, _, _, hunit, -⟩ := (request_honest hstraight hdefs htake).2.2
      (.take 7) 7 rfl rfl (.whole ⟨2, .ofString "#+ab+cd"⟩) ⟨rfl, rfl, by decide⟩ (by decide)
    · exact .inl hdone
    · exact .inr hfailed
    · cases hunit

end Grammar
end StreamGrammar
