import StreamGrammar.Proofs.RunLogic
import StreamGrammar.Proofs.Subgrammar
import Mathlib.Data.List.Forall2
import Mathlib.Data.Option.Basic

/-! # Similar parses

A similarity relates views and values of one parse to those of another. `Similarity.parse`: if two
grammars have the same shape, and their leaves and the functions of their callers take related things to
related things, then so do the grammars, whenever the first parse ends and the second has at least its
budget. Adapters that only observe may stand around either of them. A similarity may be lenient; then a first
parse that is undecided says nothing about the second. Parses are compared at thresholds that write nothing out,
and if the similarity is strict also where records are written out. -/

namespace StreamGrammar

structure Similarity where
  view : View → View → Prop
  value : Value → Value → Prop
  position : Position → Position → Prop
  raised : Raised → Raised → Prop
  /-- Faults with which both parses may end alike. -/
  shared : Fault → Prop
  /-- An undecided first parse says nothing about the second. -/
  lenient : Prop
  /-- The parses have the same outputs, and are compared also where those are written out. -/
  strict : Prop := False
  same_of_strict : strict → ∀ {x y}, value x y → x = y := by exact fun h => h.elim
  start : ∀ {v w}, view v w → position v.start w.start
  progress : ∀ {v w v' w'}, view v w → view v' w' → (v'.offset = v.offset ↔ w'.offset = w.offset)
  consumed : ∀ {v w v' w'}, view v w → view v' w' →
    Correspond (· = ·) (fun h h' => value (.view h) (.view h')) (v.consumedUntil v') (w.consumedUntil w')
  null : value .null .null
  tuple : ∀ {xs ys}, List.Forall₂ value xs ys → value (.tuple xs) (.tuple ys)
  list : ∀ {xs ys}, List.Forall₂ value xs ys → value (.list xs) (.list ys)
  raised_refl : ∀ e, raised e e
  errorClass : ∀ {e e'}, raised e e' → e.errorClass = e'.errorClass
  /-- Only the fault of a stall has a position in it. -/
  shared_of : ∀ {f : Fault}, f.isStall = false → shared f

/-! ### Values and functions of callers -/

/-- Values of the same build with related views in them. -/
inductive Value.Alike (R : View → View → Prop) : Value → Value → Prop
  | null : Alike R .null .null
  | bool (b : Bool) : Alike R (.bool b) (.bool b)
  | int (n : Int) : Alike R (.int n) (.int n)
  | chunk (c : Chunk) : Alike R (.chunk c) (.chunk c)
  | list {xs ys : List Value} : List.Forall₂ (Alike R) xs ys → Alike R (.list xs) (.list ys)
  | tuple {xs ys : List Value} : List.Forall₂ (Alike R) xs ys → Alike R (.tuple xs) (.tuple ys)
  | record (fields : List String) {xs ys : List Value} :
    List.Forall₂ (Alike R) xs ys → Alike R (.record fields xs) (.record fields ys)
  | view {v w : View} : R v w → Alike R (.view v) (.view w)

/-- The function that puts outputs together takes related slots to related results. -/
def Assembly.Uniform (E : Raised → Raised → Prop) (V : Value → Value → Prop) : Assembly → Prop
  | slots _ construct => ∀ bs cs, List.Forall₂ (fun b c => b.1 = c.1 ∧ V b.2 c.2) bs cs →
    Correspond E V (construct bs) (construct cs)
  | _ => True

/-- The function that folds outputs takes related arguments to related results, from a start that is
related to itself. -/
def Repetition.Uniform (E : Raised → Raised → Prop) (V : Value → Value → Prop) : Repetition → Prop
  | fold0 start step => Correspond E V start start ∧
    ∀ a a' x x', V a a' → V x x' → Correspond E V (step a x) (step a' x')
  | fold1 start step => Correspond E V start start ∧
    ∀ a a' x x', V a a' → V x x' → Correspond E V (step a x) (step a' x')
  | _ => True

/-- The function in the adapter takes related outputs to related results. -/
def Adapter.Uniform (E : Raised → Raised → Prop) (V : Value → Value → Prop) : Adapter → Prop
  | map f => ∀ x y, V x y → Correspond E V (f x) (f y)
  | mapResult f _ _ => ∀ x y, V x y → Correspond E V (f x) (f y)
  | verify test => ∀ x y, V x y → Correspond E (· = ·) (test x) (test y)
  | _ => True

/-- The functions of callers right in this node take related values to related results. -/
def Grammar.Uniform (E : Raised → Raised → Prop) (V : Value → Value → Prop) : Grammar → Prop
  | sequence assembly _ => assembly.Uniform E V
  | repeated r _ => r.Uniform E V
  | adapted a _ => a.Uniform E V
  | _ => True

namespace Similarity
variable (S : Similarity) {α β γ δ : Type} {I J : Cache → Prop} {Q : α → β → Prop} {R : γ → δ → Prop}

/-! ### Related ends -/

inductive Faults : Fault → Fault → Prop
  | same {f : Fault} : S.shared f → Faults f f
  | raised {e e' : Raised} : S.raised e e' → Faults (.raised e) (.raised e')
  | stalled {word : String} {p q : Position} :
    S.position p q → Faults (.stalled word p) (.stalled word q)

structure Entries (e f : Entry) : Prop where
  kind : e.kind = f.kind
  position : S.position e.position f.position
  code : e.code = f.code
  cause : Option.Rel S.raised e.cause f.cause

structure Chains (c d : Chain) : Prop where
  innermost : S.Entries c.innermost d.innermost
  outer : List.Forall₂ S.Entries c.outer d.outer

inductive Outcomes (Q : α → β → Prop) : Outcome α → Outcome β → Prop
  | done {v w : View} {x : α} {y : β} : S.view v w → Q x y → Outcomes Q (.done v x) (.done w y)
  | failed {c d : Chain} : S.Chains c d → Outcomes Q (.failed c) (.failed d)
  | incomplete (n : Needed) : Outcomes Q (.incomplete n) (.incomplete n)

/-- The outcome says nothing about a second parse. -/
def Silent (o : Outcome α) : Prop := S.lenient ∧ ∃ n, o = .incomplete n

/-- Answers of two leaves. -/
def Leaves (r r' : Except Fault (Outcome Value)) : Prop :=
  (∃ o, r = .ok o ∧ S.Silent o) ∨ Correspond S.Faults (S.Outcomes S.value) r r'

/-- Thresholds at which the parses are compared. -/
def Levels (s t : Level) : Prop := s.Alike t ∧ (s.writes = true → S.strict ∧ ¬ S.lenient)

def Runs (I J : Cache → Prop) (Q : α → β → Prop) : Run (Outcome α) → Run (Outcome β) → Prop :=
  Run.Follows S.Levels I J S.Faults S.Silent (S.Outcomes Q)

def Parsers (I J : Cache → Prop) (Q : α → β → Prop) (p : Parser α) (q : Parser β) : Prop :=
  ∀ v w, S.view v w → S.Runs I J Q (p v) (q w)

variable {S}

theorem Levels.quiet (h : S.strict → S.lenient) {s t : Level} (hst : S.Levels s t) :
    s.writes = false ∧ t.writes = false := by
  obtain ⟨halike, hstrict⟩ := hst
  have hs : s.writes = false := by
    cases hs : s.writes with
    | false => rfl
    | true => exact absurd (h (hstrict hs).1) (hstrict hs).2
  exact ⟨hs, halike ▸ hs⟩

theorem Entries.mk_same {p q : Position} (h : S.position p q) (kind : ErrorKind) (code : Option Value) :
    S.Entries ⟨kind, p, code, none⟩ ⟨kind, q, code, none⟩ :=
  ⟨rfl, h, rfl, .none⟩

theorem Entries.cause_eq {e f : Entry} (h : S.Entries e f) (heq : ∀ {x y}, S.raised x y → x = y) :
    e.cause = f.cause := by
  have hcause := h.cause
  generalize e.cause = x, f.cause = y at hcause
  cases hcause with
  | some hxy => rw [heq hxy]
  | none => rfl

theorem Chains.single {e f : Entry} (h : S.Entries e f) :
    S.Chains { innermost := e } { innermost := f } := ⟨h, .nil⟩

theorem Chains.wrap {c d : Chain} {e f : Entry} (h : S.Chains c d) (he : S.Entries e f) :
    S.Chains (c.wrap e) (d.wrap f) :=
  ⟨h.innermost, List.rel_append h.outer (.cons he .nil)⟩

theorem Chains.within {c d : Chain} {p q : Position} (h : S.Chains c d) (hp : S.position p q)
    (kind : ErrorKind) : S.Chains (c.within kind p) (d.within kind q) :=
  h.wrap (.mk_same hp kind none)

theorem Outcomes.failAt {v w : View} (h : S.view v w) (kind : ErrorKind) :
    S.Outcomes Q (.failAt kind v) (.failAt kind w) :=
  .failed (.single (.mk_same (S.start h) kind none))

/-- Related outcomes are written out alike, wherever they are written out. -/
theorem Outcomes.unwritten?_eq {o o' : Outcome Value} (h : S.Outcomes S.value o o') (s t : Level)
    (hst : S.Levels s t) : s.Alike t ∧ (s.writes = true → o.unwritten? = o'.unwritten?) := by
  refine ⟨hst.1, fun hs => ?_⟩
  cases h with
  | done hv hxy => rw [S.same_of_strict (hst.2 hs).1 hxy, Outcome.unwritten?_done, Outcome.unwritten?_done]
  | failed hc => rfl
  | incomplete n => rfl

/-! ### Runs of parsers -/

theorem Runs.done {v w : View} {x : α} {y : β} (h : S.view v w) (hxy : Q x y) :
    S.Runs I J Q (pure (.done v x)) (pure (.done w y)) := .pure (.done h hxy)

theorem Runs.failed {c d : Chain} (h : S.Chains c d) :
    S.Runs I J Q (pure (.failed c)) (pure (.failed d)) := .pure (.failed h)

/-- To relate what follows on two runs, relate it for each of their outcomes; both must leave an
undecided outcome as it is. -/
theorem Runs.bind {x : Run (Outcome α)} {y : Run (Outcome β)} {f : Outcome α → Run (Outcome γ)}
    {g : Outcome β → Run (Outcome δ)} (hxy : S.Runs I J Q x y)
    (hdone : ∀ v w a b, S.view v w → Q a b → S.Runs I J R (f (.done v a)) (g (.done w b)))
    (hfailed : ∀ c d, S.Chains c d → S.Runs I J R (f (.failed c)) (g (.failed d)))
    (hf : ∀ n, f (.incomplete n) = pure (.incomplete n))
    (hg : ∀ n, g (.incomplete n) = pure (.incomplete n)) : S.Runs I J R (x >>= f) (y >>= g) := by
  refine Run.Follows.bind hxy ?_ ?_
  · rintro _ ⟨hl, n, rfl⟩
    rw [hf]
    exact .pure ⟨hl, n, rfl⟩
  · rintro _ _ (⟨hv, hab⟩ | hc | n)
    · exact hdone _ _ _ _ hv hab
    · exact hfailed _ _ hc
    · rw [hf, hg]
      exact .pure (.incomplete n)

theorem Runs.map {x : Run (Outcome α)} {y : Run (Outcome β)} {f : α → γ} {g : β → δ}
    (hxy : S.Runs I J Q x y) (h : ∀ a b, Q a b → R (f a) (g b)) :
    S.Runs I J R (Outcome.map f <$> x) (Outcome.map g <$> y) := by
  refine Run.Follows.map hxy ?_ ?_
  · rintro _ ⟨hl, n, rfl⟩
    exact ⟨hl, n, rfl⟩
  · rintro _ _ (⟨hv, hab⟩ | hc | n)
    · exact .done hv (h _ _ hab)
    · exact .failed hc
    · exact .incomplete n

/-- What goes on after a caller's function. -/
theorem Runs.call {ε ε' : Type} {P : ε → ε' → Prop} {r : Except Raised ε} {r' : Except Raised ε'}
    {f : ε → Run (Outcome α)} {g : ε' → Run (Outcome β)} (h : Correspond S.raised P r r')
    (hfg : ∀ a b, P a b → S.Runs I J Q (f a) (g b)) :
    S.Runs I J Q ((liftM r : Run ε) >>= f) ((liftM r' : Run ε') >>= g) :=
  Run.Follows.bind (E := fun _ => False) (.call h fun _ _ => .raised) (fun _ h => h.elim) hfg

theorem Runs.mapM {x : Run (Outcome α)} {y : Run (Outcome β)} {f : α → Except Raised γ}
    {g : β → Except Raised δ} (hxy : S.Runs I J Q x y)
    (h : ∀ a b, Q a b → Correspond S.raised R (f a) (g b)) :
    S.Runs I J R (x >>= fun o => o.mapM fun a => (liftM (f a) : Run γ))
      (y >>= fun o => o.mapM fun b => (liftM (g b) : Run δ)) := by
  refine hxy.bind (fun v w a b hv hab => ?_) (fun c d hc => .failed hc) (fun _ => rfl) fun _ => rfl
  exact .call (h a b hab) fun _ _ hy => .done hv hy

/-! ### Sequences and choices -/

theorem thread {ps : List (Parser α)} {qs : List (Parser β)} (h : List.Forall₂ (S.Parsers I J Q) ps qs)
    {p q : Position} (hpos : S.position p q) {v w : View} (hv : S.view v w) :
    S.Runs I J (List.Forall₂ Q) (Parser.thread p ps v) (Parser.thread q qs w) := by
  induction h generalizing v w with
  | nil => exact .done hv .nil
  | cons hp _ ih =>
    refine (hp v w hv).bind (fun v' w' x y hv' hxy => ?_) (fun c d hc => ?_) (fun _ => rfl) fun _ => rfl
    · exact (ih hv').map fun xs ys hxs => .cons hxy hxs
    · exact .failed (hc.within hpos _)

theorem choice {p : Parser α} {q : Parser β} {ps : List (Parser α)} {qs : List (Parser β)}
    (hp : S.Parsers I J Q p q) (h : List.Forall₂ (S.Parsers I J Q) ps qs) :
    S.Parsers I J Q (Parser.choice p ps) (Parser.choice q qs) := by
  intro v w hv
  induction h generalizing p q with
  | nil =>
    refine (hp v w hv).bind (fun _ _ x y hv' hxy => ?_) (fun c d hc => ?_) (fun _ => rfl) fun _ => rfl
    · exact .done hv' hxy
    · exact .failed (hc.within (S.start hv) _)
  | cons hq _ ih =>
    refine (hp v w hv).bind (fun _ _ x y hv' hxy => ?_) (fun c d hc => ?_) (fun _ => rfl) fun _ => rfl
    · exact .done hv' hxy
    · exact ih hq

/-! ### Repetitions -/

theorem ensureProgress {v w v' w' : View} (hv : S.view v w) (hv' : S.view v' w') (word : String) :
    Run.Follows S.Levels I J S.Faults (fun _ => False) (fun _ _ => True) (Parser.ensureProgress word v v')
      (Parser.ensureProgress word w w') := by
  rw [Parser.ensureProgress, Parser.ensureProgress]
  by_cases h : v'.offset = v.offset
  · rw [if_pos h, if_pos ((S.progress hv hv').1 h)]
    exact Run.Follows.bind (E := fun _ => False) .emit (fun _ h => h.elim)
      fun _ _ _ => .raise (.stalled (S.start hv))
  · rw [if_neg h, if_neg fun h' => h ((S.progress hv hv').2 h')]
    exact .pure trivial

/-- What goes on after the progress check. -/
theorem Runs.progress {v w v' w' : View} {word : String} {f : Unit → Run (Outcome α)}
    {g : Unit → Run (Outcome β)} (hv : S.view v w) (hv' : S.view v' w')
    (h : S.Runs I J Q (f ()) (g ())) :
    S.Runs I J Q (Parser.ensureProgress word v v' >>= f) (Parser.ensureProgress word w w' >>= g) :=
  (ensureProgress hv hv' word).bind (fun _ h => h.elim) fun _ _ _ => h

/-- Loops that differ in their steps and accumulators only. -/
structure Loops (S : Similarity) (Q : α → β → Prop) (R : γ → δ → Prop) (l : Parser.Loop α γ)
    (l' : Parser.Loop β δ) : Prop where
  word : l.word = l'.word
  origin : S.position l.origin l'.origin
  least : l.least = l'.least
  most : l.most = l'.most
  step : ∀ a a' x x', R a a' → Q x x' → Correspond S.raised R (l.step a x) (l'.step a' x')

theorem Loops.mk_same {word : String} {least : Nat} {most : Option Nat} {p q : Position}
    {s : γ → α → Except Raised γ} {t : δ → β → Except Raised δ} (hp : S.position p q)
    (h : ∀ a a' x x', R a a' → Q x x' → Correspond S.raised R (s a x) (t a' x')) :
    S.Loops Q R ⟨word, p, least, most, s⟩ ⟨word, q, least, most, t⟩ := ⟨rfl, hp, rfl, rfl, h⟩

theorem fold_of_full {l : Parser.Loop α γ} {matched : Nat} (h : l.full matched = true) (p : Parser α)
    (rounds : Nat) (acc : γ) (v : View) : p.fold l rounds matched acc v = pure (.done v acc) := by
  cases rounds <;> rw [Parser.fold, if_pos h]

theorem fold {p : Parser α} {q : Parser β} {l : Parser.Loop α γ} {l' : Parser.Loop β δ}
    (hp : S.Parsers I J Q p q) (hl : S.Loops Q R l l') {m n matched : Nat} (hmn : m ≤ n) {acc : γ}
    {acc' : δ} (hacc : R acc acc') {v w : View} (hv : S.view v w) :
    S.Runs I J R (p.fold l m matched acc v) (q.fold l' n matched acc' w) := by
  have hfull : ∀ k, l'.full k = l.full k := fun k => by rw [Parser.Loop.full, Parser.Loop.full, hl.most]
  induction m generalizing n matched acc acc' v w with
  | zero =>
    by_cases h : l.full matched = true
    · rw [fold_of_full h, fold_of_full ((hfull _).trans h)]
      exact .done hv hacc
    · rw [Parser.fold, if_neg h]
      exact .exhausted
  | succ m ih =>
    obtain ⟨n, rfl⟩ : ∃ k, n = k + 1 := ⟨n - 1, by omega⟩
    by_cases h : l.full matched = true
    · rw [fold_of_full h, fold_of_full ((hfull _).trans h)]
      exact .done hv hacc
    rw [Parser.fold, Parser.fold, if_neg h, hfull, if_neg h, hl.word, hl.least]
    refine (hp v w hv).bind (fun v' w' x y hv' hxy => ?_) (fun c d hc => ?_) (fun _ => rfl) fun _ => rfl
    · refine .progress hv hv' (.call (hl.step acc acc' x y hacc hxy) fun a b hab => ?_)
      exact ih (by omega) hab hv'
    · show S.Runs I J R (if matched < l'.least then _ else _) (if matched < l'.least then _ else _)
      split
      · exact .failed (hc.within hl.origin _)
      · exact .done hv hacc

theorem manyTill {p : Parser α} {q : Parser β} {t : Parser γ} {t' : Parser δ} {o o' : Position}
    (hp : S.Parsers I J Q p q) (ht : S.Parsers I J R t t') (ho : S.position o o') {m n : Nat}
    (hmn : m ≤ n) {xs : List α} {ys : List β} (hxs : List.Forall₂ Q xs ys) {v w : View}
    (hv : S.view v w) :
    S.Runs I J (fun r s => List.Forall₂ Q r.1 s.1 ∧ R r.2 s.2) (Parser.manyTill o p t m xs v)
      (Parser.manyTill o' q t' n ys w) := by
  induction m generalizing n xs ys v w with
  | zero => exact .exhausted
  | succ m ih =>
    obtain ⟨n, rfl⟩ : ∃ k, n = k + 1 := ⟨n - 1, by omega⟩
    refine (ht v w hv).bind (fun _ _ x y hv' hxy => ?_) (fun _ _ _ => ?_) (fun _ => rfl) fun _ => rfl
    · exact .done hv' ⟨hxs, hxy⟩
    refine (hp v w hv).bind (fun _ _ x y hv' hxy => ?_) (fun c d hc => ?_) (fun _ => rfl) fun _ => rfl
    · exact .progress hv hv' (ih (by omega) (List.rel_append hxs (.cons hxy .nil)) hv')
    · exact .failed (hc.within ho _)

theorem separatedTail {word : String} {p : Parser α} {q : Parser β} {s : Parser γ} {s' : Parser δ}
    (hp : S.Parsers I J Q p q) (hs : S.Parsers I J R s s') {m n : Nat} (hmn : m ≤ n) {xs : List α}
    {ys : List β} (hxs : List.Forall₂ Q xs ys) {v w : View} (hv : S.view v w) :
    S.Runs I J (List.Forall₂ Q) (Parser.separatedTail word s p m xs v)
      (Parser.separatedTail word s' q n ys w) := by
  induction m generalizing n xs ys v w with
  | zero => exact .exhausted
  | succ m ih =>
    obtain ⟨n, rfl⟩ : ∃ k, n = k + 1 := ⟨n - 1, by omega⟩
    refine (hs v w hv).bind (fun v' w' _ _ hv' _ => ?_) (fun _ _ _ => ?_) (fun _ => rfl) fun _ => rfl
    · refine (hp v' w' hv').bind (fun _ _ x y hv'' hxy => ?_) (fun _ _ _ => ?_) (fun _ => rfl)
        fun _ => rfl
      · exact .progress hv hv'' (ih (by omega) (List.rel_append hxs (.cons hxy .nil)) hv'')
      · exact .done hv hxs
    · exact .done hv hxs

theorem separated {word : String} {nonempty : Bool} {p : Parser α} {q : Parser β} {s : Parser γ}
    {s' : Parser δ} (hp : S.Parsers I J Q p q) (hs : S.Parsers I J R s s') {m n : Nat} (hmn : m ≤ n) :
    S.Parsers I J (List.Forall₂ Q) (Parser.separated word nonempty s p m)
      (Parser.separated word nonempty s' q n) := by
  intro v w hv
  refine (hp v w hv).bind (fun _ _ x y hv' hxy => ?_) (fun c d hc => ?_) (fun _ => rfl) fun _ => rfl
  · exact separatedTail hp hs hmn (.cons hxy .nil) hv'
  · show S.Runs I J _ (if nonempty = true then _ else _) (if nonempty = true then _ else _)
    split
    · exact .failed (hc.within (S.start hv) _)
    · exact .done hv .nil

/-! ### Grammars of the same shape -/

variable (S)

def Assemblies (a b : Assembly) : Prop :=
  ∀ xs ys, List.Forall₂ S.value xs ys → Correspond S.raised S.value (a.finish xs) (b.finish ys)

inductive Repetitions : Repetition → Repetition → Prop
  | many0 : Repetitions .many0 .many0
  | many1 : Repetitions .many1 .many1
  | between (least most : Numeral) : Repetitions (.between least most) (.between least most)
  | times (count : Numeral) : Repetitions (.times count) (.times count)
  | fold0 {x y : FoldStart} {s t : FoldStep} : Correspond S.raised S.value x y →
    (∀ a b x y, S.value a b → S.value x y → Correspond S.raised S.value (s a x) (t b y)) →
      Repetitions (.fold0 x s) (.fold0 y t)
  | fold1 {x y : FoldStart} {s t : FoldStep} : Correspond S.raised S.value x y →
    (∀ a b x y, S.value a b → S.value x y → Correspond S.raised S.value (s a x) (t b y)) →
      Repetitions (.fold1 x s) (.fold1 y t)

inductive Adapters : Adapter → Adapter → Prop
  | optional : Adapters .optional .optional
  | peek : Adapters .peek .peek
  | negate : Adapters .negate .negate
  | map {f g : Transform} : (∀ x y, S.value x y → Correspond S.raised S.value (f x) (g y)) →
    Adapters (.map f) (.map g)
  | mapResult {f g : Transform} {caught : List ErrorClass} {code : Option Value} :
    (∀ x y, S.value x y → Correspond S.raised S.value (f x) (g y)) →
      Adapters (.mapResult f caught code) (.mapResult g caught code)
  | recognize : Adapters .recognize .recognize
  | verify {f g : ValueTest} : (∀ x y, S.value x y → Correspond S.raised (· = ·) (f x) (g y)) →
    Adapters (.verify f) (.verify g)
  | context (code : Option Value) : Adapters (.context code) (.context code)
  | cond {x y : Value} : x.truth = y.truth → Adapters (.cond x) (.cond y)
  | condReduce {x y : Value} : x.truth = y.truth → Adapters (.condReduce x) (.condReduce y)
  | trace (label label' : String) : Adapters (.trace label) (.trace label')
  | renamed (name name' : String) : Adapters (.renamed name) (.renamed name')

/-- The adapter has no part in what is compared: names have none, and traces have none where nothing is
written out. -/
def Observes : Adapter → Prop
  | .trace _ => ¬ S.strict
  | .renamed _ => True
  | _ => False

/-- Node by node the grammars take related things to related things; names, labels and adapters that only
observe do not matter. -/
inductive Grammars : Grammar → Grammar → Prop
  | primitive {p q : Primitive} : (∀ v w, S.view v w → S.Leaves (p.parse v) (q.parse w)) →
    Grammars (.primitive p) (.primitive q)
  | custom {name name' : String} {run run' : View → Except Fault (Outcome Value)} :
    (∀ v w, S.view v w → S.Leaves (run v) (run' w)) → Grammars (.custom name run) (.custom name' run')
  | sequence {a b : Assembly} {gs hs : List Grammar} : S.Assemblies a b → gs.length = hs.length →
    (∀ {g h}, (g, h) ∈ gs.zip hs → Grammars g h) → Grammars (.sequence a gs) (.sequence b hs)
  | choice {g h : Grammar} {gs hs : List Grammar} : Grammars g h → gs.length = hs.length →
    (∀ {g h}, (g, h) ∈ gs.zip hs → Grammars g h) → Grammars (.choice g gs) (.choice h hs)
  | repeated {r r' : Repetition} {g h : Grammar} : S.Repetitions r r' → Grammars g h →
    Grammars (.repeated r g) (.repeated r' h)
  | manyTill {g h t t' : Grammar} : Grammars g h → Grammars t t' →
    Grammars (.manyTill g t) (.manyTill h t')
  | separated {nonempty : Bool} {g h s s' : Grammar} : Grammars s s' → Grammars g h →
    Grammars (.separated nonempty s g) (.separated nonempty s' h)
  | adapted {a b : Adapter} {g h : Grammar} : S.Adapters a b → Grammars g h →
    Grammars (.adapted a g) (.adapted b h)
  | deferred {name name' : String} (key : Key) : Grammars (.deferred name key) (.deferred name' key)
  | observedLeft {a : Adapter} {g h : Grammar} : S.Observes a → Grammars g h → Grammars (.adapted a g) h
  | observedRight {a : Adapter} {g h : Grammar} : S.Observes a → Grammars g h → Grammars g (.adapted a h)

variable {S} {p q : Parser Value}

theorem leaf {run run' : View → Except Fault (Outcome Value)}
    (h : ∀ v w, S.view v w → S.Leaves (run v) (run' w)) :
    S.Parsers I J S.value (Parser.leaf run) (Parser.leaf run') := by
  intro v w hv
  refine Run.Follows.bind (E := fun _ => False) .emit (fun _ h => h.elim) fun _ _ _ => ?_
  obtain ⟨o, ho, hsilent⟩ | hr := h v w hv
  · rw [ho]
    exact .of_idle (.pure hsilent)
  · exact .ofExcept hr

theorem repeated {r r' : Repetition} (h : S.Repetitions r r') (hp : S.Parsers I J S.value p q)
    {m n : Nat} (hmn : m ≤ n) : S.Parsers I J S.value (r.parse m p) (r'.parse n q) := by
  intro v w hv
  have hcollect : ∀ (word : String) (least : Nat) (most : Option Nat),
      S.Runs I J S.value
        (Outcome.map Value.list <$> p.fold ⟨word, v.start, least, most, Parser.collect⟩ m 0 [] v)
        (Outcome.map Value.list <$> q.fold ⟨word, w.start, least, most, Parser.collect⟩ n 0 [] w) := by
    intro word least most
    refine (fold hp (.mk_same (S.start hv) fun xs ys x y hxs hxy => ?_) hmn .nil hv).map
      fun _ _ => S.list
    exact .ok (List.rel_append hxs (.cons hxy .nil))
  cases h with
  | many0 => exact hcollect _ _ _
  | many1 => exact hcollect _ _ _
  | between least most => exact hcollect _ _ _
  | times count => exact hcollect _ _ _
  | fold0 hxy hstep => exact .call hxy fun _ _ hab => fold hp (.mk_same (S.start hv) hstep) hmn hab hv
  | fold1 hxy hstep => exact .call hxy fun _ _ hab => fold hp (.mk_same (S.start hv) hstep) hmn hab hv

/-- Failures with a code of the caller, or one fault where there is none. -/
theorem customFailure {v w : View} {code : Option Value} {cause cause' : Option Raised} {f g : Entry → Chain}
    (h : ∀ x, S.Chains (f ⟨.custom, v.start, some x, cause⟩) (g ⟨.custom, w.start, some x, cause'⟩)) :
    S.Runs I J Q (Run.ofExcept (Entry.of .custom v.start.written code cause) >>= fun e => pure (.failed (f e)))
      (Run.ofExcept (Entry.of .custom w.start.written code cause') >>= fun e => pure (.failed (g e))) := by
  cases code with
  | none =>
    rw [Entry.of_custom_none, Entry.of_custom_none]
    exact .raise (.same (S.shared_of rfl))
  | some x =>
    rw [Entry.of_custom, Entry.of_custom]
    exact .failed (h x)

theorem mapResult {f g : Transform} {caught : List ErrorClass} {code : Option Value}
    (h : ∀ x y, S.value x y → Correspond S.raised S.value (f x) (g y)) (hp : S.Parsers I J S.value p q) :
    S.Parsers I J S.value (p.mapResult · f caught code) (q.mapResult · g caught code) := by
  intro v w hv
  refine (hp v w hv).bind (fun v' w' x y hv' hxy => ?_) (fun c d hc => .failed hc) (fun _ => rfl)
    fun _ => rfl
  have hfg := h x y hxy
  generalize hr : f x = r, hr' : g y = r' at hfg
  simp only [hr, hr']
  cases hfg with
  | error he =>
    simp only [S.errorClass he]
    split
    · exact customFailure fun _ => .single ⟨rfl, S.start hv, rfl, .some he⟩
    · exact .raise (.raised he)
  | ok hxy' => exact .done hv' hxy'

theorem adapted {a b : Adapter} (h : S.Adapters a b) (hp : S.Parsers I J S.value p q) :
    S.Parsers I J S.value (a.parse p) (b.parse q) := by
  intro v w hv
  have hpv := hp v w hv
  cases h with
  | optional =>
    refine hpv.bind (fun _ _ _ _ hv' hxy => ?_) (fun _ _ _ => ?_) (fun _ => rfl) fun _ => rfl
    · exact .done hv' hxy
    · exact .done hv S.null
  | peek =>
    refine hpv.bind (fun _ _ _ _ _ hxy => ?_) (fun c d hc => .failed hc) (fun _ => rfl) fun _ => rfl
    exact .done hv hxy
  | negate =>
    refine hpv.bind (fun _ _ _ _ _ _ => ?_) (fun _ _ _ => ?_) (fun _ => rfl) fun _ => rfl
    · exact .pure (.failAt hv _)
    · exact .done hv S.null
  | map hf => exact hpv.mapM hf
  | mapResult hf => exact mapResult hf hp v w hv
  | recognize =>
    refine hpv.bind (fun v' w' _ _ hv' _ => ?_) (fun c d hc => .failed hc) (fun _ => rfl) fun _ => rfl
    have hc := S.consumed hv hv'
    generalize hr : v.consumedUntil v' = r, hr' : w.consumedUntil w' = r' at hc
    simp only [hr, hr']
    cases hc with
    | error he =>
      subst he
      exact .raise (.same (S.shared_of rfl))
    | ok hhead => exact .done hv' hhead
  | verify hf =>
    refine hpv.bind (fun _ _ x y hv' hxy => ?_) (fun c d hc => .failed hc) (fun _ => rfl) fun _ => rfl
    refine .call (hf x y hxy) fun passes _ heq => ?_
    subst heq
    cases passes with
    | true => exact .done hv' hxy
    | false => exact .pure (.failAt hv _)
  | context code =>
    refine hpv.bind (fun _ _ _ _ hv' hxy => ?_) (fun c d hc => ?_) (fun _ => rfl) fun _ => rfl
    · exact .done hv' hxy
    · exact customFailure fun _ => hc.wrap (.mk_same (S.start hv) _ _)
  | @cond x y hxy =>
    show S.Runs I J S.value (if x.truth = true then p v else _) (if y.truth = true then q w else _)
    rw [hxy]
    split
    · exact hpv
    · exact .done hv S.null
  | @condReduce x y hxy =>
    show S.Runs I J S.value (if x.truth = true then p v else _) (if y.truth = true then q w else _)
    rw [hxy]
    split
    · exact hpv
    · exact .pure (.failAt hv _)
  | trace label label' =>
    refine Run.Follows.bind hpv ?_ fun o o' ho => ?_
    · rintro _ ⟨hl, n, rfl⟩
      exact .of_meets (fun _ _ hst => (hst.quiet fun _ => hl).1)
        (Run.Meets.report.bind fun _ _ => .pure ⟨hl, n, rfl⟩)
    · have hreport : Run.Follows S.Levels I J S.Faults (fun _ => False) (fun _ _ => True)
          (Run.report label v.offset o) (Run.report label' w.offset o') :=
        .report ho.unwritten?_eq fun _ => .same (S.shared_of rfl)
      exact Run.Follows.bind hreport (fun _ h => h.elim) fun _ _ _ => .pure ho
  | renamed name name' => exact hpv

theorem observedLeft {a : Adapter} (ha : S.Observes a) (hp : S.Parsers I J S.value p q) :
    S.Parsers I J S.value (a.parse p) q := by
  intro v w hv
  have hpv := hp v w hv
  cases a with
  | trace label =>
    rw [← bind_pure (q w)]
    have hquiet : ∀ s t, S.Levels s t → s.writes = false := fun _ _ hst => (hst.quiet fun h => absurd h ha).1
    refine Run.Follows.bind hpv ?_ fun o o' ho => ?_
    · rintro _ ⟨hl, n, rfl⟩
      exact .of_meets hquiet (Run.Meets.report.bind fun _ _ => .pure ⟨hl, n, rfl⟩)
    · exact .report_left hquiet (.pure ho)
  | renamed name => exact hpv
  | _ => cases ha

theorem observedRight {a : Adapter} (ha : S.Observes a) (hp : S.Parsers I J S.value p q) :
    S.Parsers I J S.value p (a.parse q) := by
  intro v w hv
  have hpv := hp v w hv
  cases a with
  | trace label =>
    rw [← bind_pure (p v)]
    refine Run.Follows.bind hpv ?_ fun o o' ho => ?_
    · rintro _ ⟨hl, n, rfl⟩
      exact .pure ⟨hl, n, rfl⟩
    · exact .report_right (fun _ _ hst => (hst.quiet fun h => absurd h ha).2) (.pure ho)
  | renamed name => exact hpv
  | _ => cases ha

/-! ### Parses -/

/-- Definitions that build different versions of the same grammars. -/
theorem correspond_map {r : Except Fault Grammar} {a b : Grammar → Grammar}
    (h : ∀ g, r = .ok g → S.Grammars (a g) (b g))
    (hf : ∀ f, r = .error f → S.shared f := by exact fun _ _ => trivial) :
    Correspond S.Faults S.Grammars (r.map a) (r.map b) := by
  cases r with
  | error f => exact .error (.same (hf f rfl))
  | ok g => exact .ok (h g rfl)

theorem correspond_self {r : Except Fault Grammar} (h : ∀ g, r = .ok g → S.Grammars g g)
    (hf : ∀ f, r = .error f → S.shared f := by exact fun _ _ => trivial) :
    Correspond S.Faults S.Grammars r r := by
  cases r with
  | error f => exact .error (.same (hf f rfl))
  | ok g => exact .ok (h g rfl)

theorem interp {g h : Grammar} (hgh : S.Grammars g h) {m n : Nat} (hmn : m ≤ n)
    {deferred deferred' : String → Key → Parser Value}
    (hdeferred : ∀ name name' key, S.Parsers I J S.value (deferred name key) (deferred' name' key)) :
    S.Parsers I J S.value (g.interp m deferred) (h.interp n deferred') := by
  induction hgh with
  | primitive h => rw [Grammar.interp, Grammar.interp]; exact leaf h
  | custom h => rw [Grammar.interp, Grammar.interp]; exact leaf h
  | sequence ha hlen _ ih =>
    intro v w hv
    rw [Grammar.interp, Grammar.interp, Grammar.interpAll_eq_map, Grammar.interpAll_eq_map]
    refine (thread ?_ (S.start hv) hv).mapM ha
    rw [List.forall₂_map_left_iff, List.forall₂_map_right_iff]
    exact List.forall₂_iff_zip.2 ⟨hlen, ih⟩
  | choice _ hlen _ ih ihs =>
    rw [Grammar.interp, Grammar.interp, Grammar.interpAll_eq_map, Grammar.interpAll_eq_map]
    refine choice ih ?_
    rw [List.forall₂_map_left_iff, List.forall₂_map_right_iff]
    exact List.forall₂_iff_zip.2 ⟨hlen, ihs⟩
  | repeated hr _ ih =>
    rw [Grammar.interp, Grammar.interp]
    exact repeated hr ih hmn
  | manyTill _ _ ih iht =>
    intro v w hv
    rw [Grammar.interp, Grammar.interp]
    refine (manyTill ih iht (S.start hv) hmn .nil hv).map fun r s hrs => ?_
    exact S.tuple (.cons (S.list hrs.1) (.cons hrs.2 .nil))
  | separated _ _ ihs ih =>
    intro v w hv
    rw [Grammar.interp, Grammar.interp]
    exact (separated ih ihs hmn v w hv).map fun _ _ => S.list
  | adapted ha _ ih =>
    rw [Grammar.interp, Grammar.interp]
    exact adapted ha ih
  | deferred key =>
    rw [Grammar.interp, Grammar.interp]
    exact hdeferred _ _ key
  | observedLeft ha _ ih => rw [Grammar.interp]; exact observedLeft ha ih
  | observedRight ha _ ih => rw [Grammar.interp]; exact observedRight ha ih

/-- Whenever the first parse ends, the second one does, with at least the same budget and any sound
cache, and the ends are related. -/
theorem parse {defs defs' : Definitions}
    (hdefs : ∀ key, Correspond S.Faults S.Grammars (defs key) (defs' key)) {g h : Grammar}
    (hgh : S.Grammars g h) {m n : Nat} (hmn : m ≤ n) :
    S.Parsers (Cache.Sound defs) (Cache.Sound defs') S.value (g.parse defs m) (h.parse defs' n) := by
  induction m generalizing n g h with
  | zero => exact fun _ _ _ => .exhausted
  | succ m ih =>
    obtain ⟨n, rfl⟩ : ∃ k, n = k + 1 := ⟨n - 1, by omega⟩
    refine interp hgh (by omega) fun name name' key v w hv => ?_
    exact Run.Follows.bind (E := fun _ => False) (.body (hdefs key)) (fun _ h => h.elim)
      fun body body' hbody => ih hbody (by omega) v w hv

/-! ### Grammars that differ in their primitives -/

/-- The functions of callers in the node are uniform, and a leaf answers alike on related views, with `a`
applied to it if it is a primitive on the first side and `b` on the second. -/
def Respects (S : Similarity) (a b : Primitive → Primitive) (g : Grammar) : Prop :=
  g.Uniform S.raised S.value ∧
    (∀ p, g = .primitive p → ∀ v w, S.view v w → S.Leaves ((a p).parse v) ((b p).parse w)) ∧
      ∀ name run, g = .custom name run → ∀ v w, S.view v w → S.Leaves (run v) (run w)

theorem captured {xs ys : List Value} (h : List.Forall₂ S.value xs ys) (names : List (Option String)) :
    Correspond S.raised (List.Forall₂ fun b c => b.1 = c.1 ∧ S.value b.2 c.2)
      (Assembly.captured names xs) (Assembly.captured names ys) := by
  induction h generalizing names with
  | nil =>
    cases names with
    | nil => exact .ok .nil
    | cons name names =>
      rw [Assembly.captured]
      exact .error (S.raised_refl _)
  | cons hxy _ ih =>
    cases names with
    | nil => exact .error (S.raised_refl _)
    | cons name names =>
      cases name with
      | none => exact ih names
      | some slot => exact (ih names).bind fun bs cs hbs => .ok (.cons ⟨rfl, hxy⟩ hbs)

theorem nth {xs ys : List Value} (h : List.Forall₂ S.value xs ys) (i : Nat) :
    Correspond S.raised S.value (Assembly.nth xs i) (Assembly.nth ys i) := by
  induction h generalizing i with
  | nil => exact .error (S.raised_refl _)
  | cons hxy _ ih =>
    cases i with
    | zero => exact .ok hxy
    | succ i => exact ih i

theorem assemblies_of_uniform {a : Assembly} (h : a.Uniform S.raised S.value) : S.Assemblies a a := by
  intro xs ys hxs
  cases a with
  | slots names construct => exact (captured hxs names).bind h
  | tuple => exact .ok (S.tuple hxs)
  | pair => exact .ok (S.tuple hxs)
  | preceded => exact nth hxs 1
  | terminated => exact nth hxs 0
  | delimited => exact nth hxs 1
  | separatedPair =>
    refine (nth hxs 0).bind fun x y hxy => (nth hxs 2).bind fun x' y' hxy' => ?_
    exact .ok (S.tuple (.cons hxy (.cons hxy' .nil)))

theorem repetitions_of_uniform {r : Repetition} (h : r.Uniform S.raised S.value) : S.Repetitions r r := by
  cases r with
  | many0 => exact .many0
  | many1 => exact .many1
  | between least most => exact .between least most
  | times count => exact .times count
  | fold0 start step => exact .fold0 h.1 h.2
  | fold1 start step => exact .fold1 h.1 h.2

theorem adapters_of_uniform {a : Adapter} (h : a.Uniform S.raised S.value) : S.Adapters a a := by
  cases a with
  | optional => exact .optional
  | peek => exact .peek
  | negate => exact .negate
  | map f => exact .map h
  | mapResult f caught code => exact .mapResult h
  | recognize => exact .recognize
  | verify test => exact .verify h
  | context code => exact .context code
  | cond condition => exact .cond rfl
  | condReduce condition => exact .condReduce rfl
  | trace label => exact .trace label label
  | renamed name => exact .renamed name name

theorem grammars_mapPrimitives {a b : Primitive → Primitive} {g : Grammar}
    (h : g.Everywhere (S.Respects a b)) : S.Grammars (g.mapPrimitives a) (g.mapPrimitives b) := by
  have hzip : ∀ gs : List Grammar,
      (∀ g ∈ gs, S.Grammars (g.mapPrimitives a) (g.mapPrimitives b)) →
        ∀ {g h}, (g, h) ∈ (gs.map (Grammar.mapPrimitives a)).zip (gs.map (Grammar.mapPrimitives b)) →
          S.Grammars g h := by
    intro gs hgs g h hmem
    rw [List.zip_map', List.mem_map] at hmem
    obtain ⟨g', hg', heq⟩ := hmem
    cases heq
    exact hgs g' hg'
  induction h with
  | @intro g hnode _ ih =>
    obtain ⟨huniform, hprimitive, hcustom⟩ := hnode
    cases g with
    | primitive p => exact .primitive (hprimitive p rfl)
    | custom name run => exact .custom (hcustom name run rfl)
    | sequence assembly parts =>
      rw [Grammar.mapPrimitives, Grammar.mapPrimitives, Grammar.mapPrimitivesAll_eq_map,
        Grammar.mapPrimitivesAll_eq_map]
      exact .sequence (assemblies_of_uniform huniform) (by simp) (hzip parts ih)
    | choice first rest =>
      rw [Grammar.mapPrimitives, Grammar.mapPrimitives, Grammar.mapPrimitivesAll_eq_map,
        Grammar.mapPrimitivesAll_eq_map]
      exact .choice (ih first (.head _)) (by simp) (hzip rest fun g hg => ih g (.tail _ hg))
    | repeated r g => exact .repeated (repetitions_of_uniform huniform) (ih g (.head _))
    | manyTill g terminator => exact .manyTill (ih g (.head _)) (ih terminator (.tail _ (.head _)))
    | separated nonempty separator g =>
      exact .separated (ih separator (.head _)) (ih g (.tail _ (.head _)))
    | adapted a g => exact .adapted (adapters_of_uniform huniform) (ih g (.head _))
    | deferred name key => exact .deferred key

end Similarity
end StreamGrammar
