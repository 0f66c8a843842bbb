import StreamGrammar.Grammar.Parse
import StreamGrammar.Proofs.Primitives
import StreamGrammar.Proofs.RunLogic
import Mathlib.Data.List.Forall2

/-! # Contracts of parsers

A contract says which chains, requests and faults a parser may end with on a view. `Contract.interp`: if
the leaves of a grammar and the functions of its callers keep a contract, the grammar keeps it, what
remains of a match is a suffix of the view, and a match of a grammar that is `consuming` is not empty.
Repetitions end: after every round there is less input left, or the progress check has raised a fault. A
deferred grammar that is referred to behind something that consumes has to keep the contract on shorter views
only (`Contract.interp_references`). -/

namespace StreamGrammar

/-- Which kinds of entry a failure may begin with; the others are added on its way out, except for the
custom kind, which does both. -/
def ErrorKind.isInnermost : ErrorKind → Bool
  | sequence => false
  | repetition => false
  | alternativesExhausted => false
  | custom => false
  | _ => true

/-- Faults that primitives and combinators raise while they parse. -/
def Fault.ofParsing : Fault → Bool
  | kindMismatch _ _ _ => true
  | integerOnText _ => true
  | raised _ => true
  | stalled _ _ => true
  | codeMissing => true
  | _ => false

/-! ### What callers' functions raise -/

/-- The function that puts `n` outputs together raises `e` on some. -/
def Assembly.Raises (n : Nat) (e : Raised) (a : Assembly) : Prop :=
  ∃ xs : List Value, xs.length = n ∧ a.finish xs = .error e

/-- A function of the fold raises `e`, be it the one that it begins with or the one for each output. -/
def Repetition.Raises (e : Raised) : Repetition → Prop
  | fold0 start step => start = .error e ∨ ∃ acc x, step acc x = .error e
  | fold1 start step => start = .error e ∨ ∃ acc x, step acc x = .error e
  | _ => False

/-- A function in the adapter raises `e` on some output, and `e` is not caught. -/
def Adapter.Raises (e : Raised) : Adapter → Prop
  | map f => ∃ x, f x = .error e
  | mapResult f caught _ => (∃ x, f x = .error e) ∧ caught.any (·.covers e.errorClass) = false
  | verify test => ∃ x, test x = .error e
  | _ => False

/-- The adapter makes entries of the custom kind, but was given no code for them. -/
def Adapter.lacksCode : Adapter → Bool
  | mapResult _ _ code => code.isNone
  | context code => code.isNone
  | _ => false

/-- A repetition that consumes asks for a match when there was none yet. -/
theorem Repetition.asks_of_consuming {r : Repetition} (h : r.consuming = true) :
    0 < r.least ∧ ∀ most, r.most = some most → 0 < most := by
  cases r with
  | many0 => cases h
  | many1 => exact ⟨Nat.one_pos, fun most hm => nomatch hm⟩
  | between least most =>
    simp only [consuming, Bool.and_eq_true, decide_eq_true_eq] at h
    refine ⟨h.1, fun m hm => ?_⟩
    cases hm
    omega
  | times count =>
    simp only [consuming, decide_eq_true_eq] at h
    refine ⟨h, fun m hm => ?_⟩
    cases hm
    exact h
  | fold0 start step => cases h
  | fold1 start step => exact ⟨Nat.one_pos, fun most hm => nomatch hm⟩

theorem Parser.Loop.full_zero {α β : Type} {l : Parser.Loop α β}
    (h : ∀ most, l.most = some most → 0 < most) : l.full 0 = false := by
  unfold Parser.Loop.full
  split
  · rfl
  · next most hm => exact decide_eq_false (Nat.not_le.2 (h most hm))

/-! ### Contracts -/

structure Contract where
  /-- A parser need not end. -/
  limit : Prop
  chain : View → Chain → Prop
  needed : Needed → Prop
  fault : View → Fault → Prop
  fault_suffix : ∀ {rest v fault'}, rest.SuffixOf v → fault rest fault' → fault v fault'
  /-- A failure of one entry at the start of the view. -/
  single : ∀ {v kind}, kind.isInnermost = true → chain v { innermost := ⟨kind, v.start, none, none⟩ }
  /-- A failure that a caller's function gave rise to. -/
  caught : ∀ {v code e}, chain v { innermost := ⟨.custom, v.start, some code, some e⟩ }
  /-- A failure further on, as the combinator that started at `v` reports it. -/
  within : ∀ {rest v c kind}, rest.SuffixOf v → chain rest c →
    (kind = .sequence ∨ kind = .repetition ∨ kind = .alternativesExhausted) →
      chain v (c.within kind v.start)
  coded : ∀ {v c code}, chain v c → chain v (c.wrap ⟨.custom, v.start, some code, none⟩)

namespace Contract
variable {α β γ : Type} (K : Contract) (I : Cache → Prop)

/-- Outcomes of a parser that was begun at `origin` and has come to `v`. -/
def Accepts (origin v : View) (consumes : Prop) (X : α → Prop) : Outcome α → Prop
  | .done rest x => rest.SuffixOf v ∧ (consumes → v.offset < rest.offset) ∧ X x
  | .failed c => K.chain origin c
  | .incomplete needed => K.needed needed

/-- The run, begun at `origin` and come to `v`, keeps the contract. -/
def Ends (origin v : View) (consumes : Prop) (X : α → Prop) (x : Run (Outcome α)) : Prop :=
  x.Meets K.limit I (K.fault origin) (K.Accepts origin v consumes X)

/-- The parser keeps the contract on every view that is short enough for `rounds` rounds. -/
def Keeps (rounds : Nat) (consumes : Prop) (X : α → Prop) (p : Parser α) : Prop :=
  ∀ v, (K.limit ∨ v.length < rounds) → K.Ends I v v consumes X (p v)

variable {K I} {origin v : View} {rounds : Nat} {consumes : Prop} {X : α → Prop}

theorem Keeps.mono {p : Parser α} {m n : Nat} (hmn : m ≤ n) (hp : K.Keeps I n consumes X p) :
    K.Keeps I m consumes X p :=
  fun v hv => hp v (hv.imp_right fun h => Nat.lt_of_lt_of_le h hmn)

/-- To keep the contract after `x`, keep it for each of the outcomes of `x`. -/
theorem Ends.bind {x : Run (Outcome α)} {f : Outcome α → Run (Outcome β)} {w : View}
    {consumes' : Prop} {Y : β → Prop} (hx : K.Ends I w w consumes X x) (hw : w.SuffixOf origin)
    (hdone : ∀ rest a, rest.SuffixOf w → (consumes → w.offset < rest.offset) → X a →
      K.Ends I origin v consumes' Y (f (.done rest a)))
    (hfailed : ∀ c, K.chain w c → K.Ends I origin v consumes' Y (f (.failed c)))
    (hincomplete : ∀ n, f (.incomplete n) = pure (.incomplete n)) :
    K.Ends I origin v consumes' Y (x >>= f) := by
  refine Run.Meets.bind (hx.mono (fun _ => K.fault_suffix hw) fun _ h => h) ?_
  rintro (⟨rest, a⟩ | c | n) h
  · exact hdone rest a h.1 h.2.1 h.2.2
  · exact hfailed c h
  · rw [hincomplete]
    exact .pure h

theorem Ends.map {x : Run (Outcome α)} {Y : β → Prop} {f : α → β} (hf : ∀ a, X a → Y (f a))
    (hx : K.Ends I origin v consumes X x) :
    K.Ends I origin v consumes Y (Outcome.map f <$> x) := by
  refine Run.Meets.map (hx.mono (fun _ h => h) ?_)
  rintro (⟨rest, a⟩ | c | n) h
  · exact ⟨h.1, h.2.1, hf a h.2.2⟩
  · exact h
  · exact h

/-- A run that has come to `w` has come from `v` before. -/
theorem Ends.after {x : Run (Outcome α)} {w : View} {consumes' : Prop} (hw : w.SuffixOf v)
    (hc : consumes' → v.offset < w.offset ∨ consumes) (hx : K.Ends I origin w consumes X x) :
    K.Ends I origin v consumes' X x := by
  refine Run.Meets.mono (fun _ h => h) ?_ hx
  rintro (⟨rest, a⟩ | c | n) h
  · refine ⟨hw.trans h.1, fun hc' => ?_, h.2.2⟩
    rcases hc hc' with hlt | hcons
    · exact Nat.lt_of_lt_of_le hlt h.1.offset_le
    · exact Nat.lt_of_le_of_lt hw.offset_le (h.2.1 hcons)
  · exact h
  · exact h

theorem Ends.mapM {x : Run (Outcome α)} {Y : β → Prop} {f : α → Except Raised β}
    (hx : K.Ends I origin v consumes X x) (hok : ∀ a b, X a → f a = .ok b → Y b)
    (herror : ∀ a e, X a → f a = .error e → K.fault origin (.raised e)) :
    K.Ends I origin v consumes Y (x >>= fun o => o.mapM fun a => (liftM (f a) : Run β)) := by
  refine Run.Meets.bind hx ?_
  rintro (⟨rest, a⟩ | c | n) h
  · exact (Run.Meets.call (hok a · h.2.2) (herror a · h.2.2)).bind
      fun b hb => .pure ⟨h.1, h.2.1, hb⟩
  · exact .pure h
  · exact .pure h

/-! ### Sequences and choices -/

theorem length_lt_of_offset_lt {rest : View} (hrest : rest.SuffixOf v) (h : v.offset < rest.offset) :
    rest.length < v.length := by
  have := hrest.length_add
  omega

/-- What a match leaves is shorter than the view if the match is bound to consume. -/
theorem length_lt_of_flag {consumed flag : Bool} {rest : View} {size : Nat} (hrest : rest.SuffixOf v)
    (hlt : flag = true → v.offset < rest.offset) (h : v.length < size - consumed.toNat) :
    rest.length < size - (consumed || flag).toNat := by
  have hle := hrest.length_le
  cases flag with
  | false =>
    rw [Bool.or_false]
    omega
  | true =>
    have hlen := length_lt_of_offset_lt hrest (hlt rfl)
    have hone := consumed.toNat_le
    rw [Bool.or_true, Bool.toNat_true]
    omega

/-- Each parser keeps the contract where the ones before it leave off: on shorter views, once one of them
is bound to have consumed something. The flags say which of the parsers are. -/
inductive InRow (K : Contract) (I : Cache → Prop) (size : Nat) :
    (consumed : Bool) → List (Parser α) → List Bool → Prop
  | nil (consumed : Bool) : InRow K I size consumed [] []
  | cons {consumed flag : Bool} {p : Parser α} {ps : List (Parser α)} {flags : List Bool} :
    K.Keeps I (size - consumed.toNat) (flag = true) (fun _ => True) p →
      InRow K I size (consumed || flag) ps flags → InRow K I size consumed (p :: ps) (flag :: flags)

theorem thread {ps : List (Parser α)} {flags : List Bool} {size : Nat} {consumed : Bool}
    (hv : v.SuffixOf origin) (hps : InRow K I size consumed ps flags)
    (hr : K.limit ∨ v.length < size - consumed.toNat) :
    K.Ends I origin v (flags.any id = true) (fun xs => xs.length = ps.length)
      (Parser.thread origin.start ps v) := by
  induction hps generalizing v with
  | nil => exact .pure ⟨.refl v, fun h => (nomatch h), rfl⟩
  | @cons consumed flag p ps flags hp hps ih =>
    refine (hp v hr).bind hv (fun rest x hrest hlt _ => ?_) (fun c hc => ?_) fun _ => rfl
    · have hr' := hr.imp_right (length_lt_of_flag hrest hlt)
      have htail := (ih (hv.trans hrest) hr').map (Y := fun ys => ys.length = ps.length + 1)
        (f := (x :: ·)) fun xs hxs => congrArg (· + 1) hxs
      refine htail.after hrest fun hany => ?_
      rw [List.any_cons, Bool.or_eq_true] at hany
      exact hany.imp_left hlt
    · exact .pure (K.within hv hc (.inl rfl))

theorem choice {p : Parser α} {flag : Bool} {ps : List (Parser α)} {flags : List Bool}
    (hp : K.Keeps I rounds (flag = true) X p)
    (hps : List.Forall₂ (fun p flag => K.Keeps I rounds (flag = true) X p) ps flags)
    (hr : K.limit ∨ v.length < rounds) :
    K.Ends I v v (flag = true ∧ flags.all id = true) X (Parser.choice p ps v) := by
  induction hps generalizing p flag with
  | nil =>
    refine (hp v hr).bind (.refl v) (fun rest x hrest hlt hx => ?_) (fun c hc => ?_) fun _ => rfl
    · exact .pure ⟨hrest, fun h => hlt h.1, hx⟩
    · exact .pure (K.within (.refl v) hc (.inr (.inr rfl)))
  | @cons q flag' qs flags hq hqs ih =>
    refine (hp v hr).bind (.refl v) (fun rest x hrest hlt hx => ?_) (fun c hc => ?_) fun _ => rfl
    · exact .pure ⟨hrest, fun h => hlt h.1, hx⟩
    · exact (ih hq).after (.refl v) fun hall => .inr (by simpa using hall.2)

/-! ### Repetitions -/

/-- The progress check lets only progress pass. -/
theorem ensureProgress {word : String} {rest : View} (hv : v.SuffixOf origin)
    (hrest : rest.SuffixOf v)
    (hp : v.offset < rest.offset ∨ ∀ w, K.fault w (.stalled word w.start)) :
    (Parser.ensureProgress word v rest).Meets K.limit I (K.fault origin)
      (fun _ => v.offset < rest.offset) := by
  have hle := hrest.offset_le
  rw [Parser.ensureProgress]
  split
  · next heq =>
    have hstall := hp.resolve_left (by omega)
    exact Run.Meets.emit.bind fun _ _ => .raise (K.fault_suffix hv (hstall v))
  · exact .pure (by omega)

theorem fold_full {l : Parser.Loop α β} {matched : Nat} {acc : β} (h : l.full matched = true) :
    K.Ends I origin v (consumes ∧ matched < l.least ∧ l.full matched = false) (fun _ => True)
      (pure (.done v acc)) := by
  refine .pure ⟨.refl v, fun hc => ?_, trivial⟩
  rw [h] at hc
  cases hc.2.2

/-- The loop from `matched` matches at `v` on, if it was begun at `origin`. A match that is still asked
for is one that consumes. -/
theorem fold {l : Parser.Loop α β} {p : Parser α} (hp : K.Keeps I rounds consumes (fun _ => True) p)
    (hl : l.origin = origin.start)
    (hstall : consumes ∨ ∀ w, K.fault w (.stalled l.word w.start))
    (hstep : ∀ acc x e, l.step acc x = .error e → K.fault origin (.raised e)) {n matched : Nat}
    {acc : β} (hv : v.SuffixOf origin) (hr : K.limit ∨ v.length < rounds)
    (hn : K.limit ∨ v.length < n) :
    K.Ends I origin v (consumes ∧ matched < l.least ∧ l.full matched = false) (fun _ => True)
      (p.fold l n matched acc v) := by
  induction n generalizing matched acc v with
  | zero =>
    rw [Parser.fold]
    split
    · next h => exact fold_full h
    · exact .exhausted (hn.resolve_right (Nat.not_lt_zero _))
  | succ n ih =>
    rw [Parser.fold]
    split
    · next h => exact fold_full h
    refine (hp v hr).bind hv (fun rest x hrest hlt _ => ?_) (fun c hc => ?_) fun _ => rfl
    · refine (ensureProgress hv hrest (hstall.imp_left hlt)).bind fun _ hoff => ?_
      refine (Run.Meets.call (fun _ _ => trivial) (hstep acc x)).bind fun acc' _ => ?_
      -- one round less is left, and less input
      have hlen := length_lt_of_offset_lt hrest hoff
      exact (ih (hv.trans hrest) (hr.imp_right fun h => by omega)
        (hn.imp_right fun h => by omega)).after hrest fun _ => .inl hoff
    · show K.Ends I origin v _ _ (if matched < l.least then _ else _)
      split
      · rw [hl]
        exact .pure (K.within hv hc (.inr (.inl rfl)))
      · next h => exact .pure ⟨.refl v, fun hc => absurd hc.2.1 h, trivial⟩

theorem manyTill {p : Parser α} {terminator : Parser γ} {stops : Prop}
    (hp : K.Keeps I rounds consumes (fun _ => True) p)
    (ht : K.Keeps I rounds stops (fun _ => True) terminator)
    (hstall : consumes ∨ ∀ w, K.fault w (.stalled "many_till" w.start)) {n : Nat} {xs : List α}
    (hv : v.SuffixOf origin) (hr : K.limit ∨ v.length < rounds) (hn : K.limit ∨ v.length < n) :
    K.Ends I origin v stops (fun _ => True) (Parser.manyTill origin.start p terminator n xs v) := by
  induction n generalizing xs v with
  | zero => exact .exhausted (hn.resolve_right (Nat.not_lt_zero _))
  | succ n ih =>
    refine (ht v hr).bind hv (fun rest x hrest hlt _ => ?_) (fun _ _ => ?_) fun _ => rfl
    · exact .pure ⟨hrest, hlt, trivial⟩
    refine (hp v hr).bind hv (fun rest x hrest hlt _ => ?_) (fun c hc => ?_) fun _ => rfl
    · refine (ensureProgress hv hrest (hstall.imp_left hlt)).bind fun _ hoff => ?_
      have hlen := length_lt_of_offset_lt hrest hoff
      exact (ih (hv.trans hrest) (hr.imp_right fun h => by omega)
        (hn.imp_right fun h => by omega)).after hrest fun _ => .inl hoff
    · exact .pure (K.within hv hc (.inr (.inl rfl)))

/-- The separator and the item after it are checked for progress together. -/
theorem separatedTail {word : String} {separator : Parser γ} {p : Parser α} {parts : Prop}
    (hs : K.Keeps I rounds parts (fun _ => True) separator)
    (hp : K.Keeps I rounds consumes (fun _ => True) p)
    (hstall : (parts ∨ consumes) ∨ ∀ w, K.fault w (.stalled word w.start)) {n : Nat} {xs : List α}
    (hv : v.SuffixOf origin) (hr : K.limit ∨ v.length < rounds) (hn : K.limit ∨ v.length < n) :
    K.Ends I origin v False (fun _ => True) (Parser.separatedTail word separator p n xs v) := by
  induction n generalizing xs v with
  | zero => exact .exhausted (hn.resolve_right (Nat.not_lt_zero _))
  | succ n ih =>
    refine (hs v hr).bind hv (fun between _ hbetween hlt _ => ?_) (fun _ _ => ?_) fun _ => rfl
    · have hr' := hr.imp_right (Nat.lt_of_le_of_lt hbetween.length_le)
      refine (hp between hr').bind (hv.trans hbetween) (fun rest x hrest hlt' _ => ?_) (fun _ _ => ?_)
        fun _ => rfl
      · have hstall' : v.offset < rest.offset ∨ ∀ w, K.fault w (.stalled word w.start) := by
          refine hstall.imp_left fun h => ?_
          rcases h with h | h
          · exact Nat.lt_of_lt_of_le (hlt h) hrest.offset_le
          · exact Nat.lt_of_le_of_lt hbetween.offset_le (hlt' h)
        refine (ensureProgress hv (hbetween.trans hrest) hstall').bind fun _ hoff => ?_
        have hlen := length_lt_of_offset_lt (hbetween.trans hrest) hoff
        exact (ih (hv.trans (hbetween.trans hrest)) (hr.imp_right fun h => by omega)
          (hn.imp_right fun h => by omega)).after (hbetween.trans hrest) False.elim
      · exact .pure ⟨.refl v, False.elim, trivial⟩
    · exact .pure ⟨.refl v, False.elim, trivial⟩

/-- The separator runs behind the first item, and so on shorter views if the items consume. -/
theorem separated {word : String} (nonempty : Bool) {separator : Parser γ} {p : Parser α}
    {parts : Prop} {flag : Bool} {size : Nat} (hsize : size ≤ rounds)
    (hs : K.Keeps I (size - flag.toNat) parts (fun _ => True) separator)
    (hp : K.Keeps I size (flag = true) (fun _ => True) p)
    (hstall : (parts ∨ flag = true) ∨ ∀ w, K.fault w (.stalled word w.start)) :
    K.Keeps I size (nonempty = true ∧ flag = true) (fun _ => True)
      (Parser.separated word nonempty separator p rounds) := by
  intro v hr
  refine (hp v hr).bind (.refl v) (fun rest x hrest hlt _ => ?_) (fun c hc => ?_) fun _ => rfl
  · have hr' : K.limit ∨ rest.length < size - (false || flag).toNat :=
      hr.imp_right (length_lt_of_flag hrest hlt)
    rw [Bool.false_or] at hr'
    exact (separatedTail hs (hp.mono (Nat.sub_le _ _)) hstall hrest hr'
      (hr'.imp_right fun h => by omega)).after hrest fun hc => .inl (hlt hc.2)
  · show K.Ends I v v _ _ (if nonempty = true then _ else _)
    split
    · exact .pure (K.within (.refl v) hc (.inr (.inl rfl)))
    · next h => exact .pure ⟨.refl v, fun hc => absurd hc.1 h, trivial⟩

theorem repeated {r : Repetition} {p : Parser Value} {size : Nat} (hsize : size ≤ rounds)
    (hp : K.Keeps I size consumes (fun _ => True) p)
    (hstall : consumes ∨ ∀ w, K.fault w (.stalled r.word w.start))
    (hraise : ∀ e, r.Raises e → ∀ w, K.fault w (.raised e)) :
    K.Keeps I size (r.consuming = true ∧ consumes) (fun _ => True) (r.parse rounds p) := by
  intro v hr
  have hn : K.limit ∨ v.length < rounds := hr.imp_right fun h => Nat.lt_of_lt_of_le h hsize
  have hloop : ∀ {β : Type} (step : β → Value → Except Raised β) (acc : β),
      (∀ acc x e, step acc x = .error e → r.Raises e) →
        K.Ends I v v (r.consuming = true ∧ consumes) (fun _ => True)
          (p.fold ⟨r.word, v.start, r.least, r.most, step⟩ rounds 0 acc v) := by
    intro β step acc hstep
    refine (fold hp rfl hstall (fun acc x e he => hraise e (hstep acc x e he) v) (.refl v) hr hn).after
      (.refl v) fun hc => .inr ⟨hc.2, (Repetition.asks_of_consuming hc.1).1,
        Parser.Loop.full_zero (Repetition.asks_of_consuming hc.1).2⟩
  have hfold : ∀ (start : FoldStart) (step : FoldStep),
      (∀ e, (start = .error e ∨ ∃ acc x, step acc x = .error e) → r.Raises e) →
        K.Ends I v v (r.consuming = true ∧ consumes) (fun _ => True)
          (do p.fold ⟨r.word, v.start, r.least, r.most, step⟩ rounds 0 (← start) v) := by
    intro start step hraises
    exact (Run.Meets.call (fun _ _ => trivial) fun e he => hraise e (hraises e (.inl he)) v).bind
      fun acc _ => hloop step acc fun acc x e he => hraises e (.inr ⟨acc, x, he⟩)
  cases r with
  | fold0 start step => exact hfold start step fun _ he => he
  | fold1 start step => exact hfold start step fun _ he => he
  | many0 => exact (hloop Parser.collect [] fun acc x e he => nomatch he).map fun _ _ => trivial
  | many1 => exact (hloop Parser.collect [] fun acc x e he => nomatch he).map fun _ _ => trivial
  | between least most =>
    exact (hloop Parser.collect [] fun acc x e he => nomatch he).map fun _ _ => trivial
  | times count => exact (hloop Parser.collect [] fun acc x e he => nomatch he).map fun _ _ => trivial

/-! ### Adapters -/

/-- A failure with a code of the caller, or a fault where there is none. -/
theorem customFailure {code : Option Value} {cause : Option Raised} {f : Entry → Chain}
    (hnone : code = none → K.fault v .codeMissing)
    (hsome : ∀ x, K.chain v (f ⟨.custom, v.start, some x, cause⟩)) :
    K.Ends I v v consumes X (Run.ofExcept (Entry.of .custom v.start.written code cause) >>= fun entry =>
      pure (.failed (f entry))) := by
  cases code with
  | none =>
    rw [Entry.of_custom_none]
    exact Run.Meets.bind (P := fun _ => False) (.raise (hnone rfl)) fun _ h => h.elim
  | some x =>
    rw [Entry.of_custom]
    exact (Run.Meets.pure rfl).bind fun entry hentry => .pure (hentry ▸ hsome x)

theorem adapted {a : Adapter} {p : Parser Value} (hp : K.Keeps I rounds consumes (fun _ => True) p)
    (hraise : ∀ e, a.Raises e → ∀ w, K.fault w (.raised e))
    (hcode : a.lacksCode = true → ∀ w, K.fault w .codeMissing) :
    K.Keeps I rounds (a.consuming = true ∧ consumes) (fun _ => True) (a.parse p) := by
  intro v hr
  have hv := View.SuffixOf.refl v
  have hpv := hp v hr
  cases a with
  | optional =>
    refine hpv.bind hv (fun rest x hrest hlt _ => ?_) (fun c hc => ?_) fun _ => rfl
    · exact .pure ⟨hrest, fun h => hlt h.2, trivial⟩
    · exact .pure ⟨hv, fun h => (nomatch h.1), trivial⟩
  | peek =>
    refine hpv.bind hv (fun rest x hrest hlt _ => ?_) (fun c hc => ?_) fun _ => rfl
    · exact .pure ⟨hv, fun h => (nomatch h.1), trivial⟩
    · exact .pure hc
  | negate =>
    refine hpv.bind hv (fun rest x hrest hlt _ => ?_) (fun c hc => ?_) fun _ => rfl
    · exact .pure (K.single rfl)
    · exact .pure ⟨hv, fun h => (nomatch h.1), trivial⟩
  | map f =>
    exact (hpv.mapM (fun _ _ _ _ => trivial) fun x e _ he => hraise e ⟨x, he⟩ v).after hv
      fun h => .inr h.2
  | mapResult f caught code =>
    refine hpv.bind hv (fun rest x hrest hlt _ => ?_) (fun c hc => ?_) fun _ => rfl
    · cases hf : f x with
      | ok y =>
        simp only [hf]
        exact .pure ⟨hrest, fun h => hlt h.2, trivial⟩
      | error e =>
        simp only [hf]
        split
        · exact customFailure (fun h => hcode (congrArg Option.isNone h) v) fun _ => K.caught
        · next hcaught => exact .raise (hraise e ⟨⟨x, hf⟩, by simpa using hcaught⟩ v)
    · exact .pure hc
  | recognize =>
    refine hpv.bind hv (fun rest x hrest hlt _ => ?_) (fun c hc => ?_) fun _ => rfl
    · obtain ⟨head, hhead, -⟩ := hrest.consumedUntil
      simp only [hhead]
      refine Run.Meets.bind (P := (· = head)) (.pure rfl) fun _ _ => ?_
      exact .pure ⟨hrest, fun h => hlt h.2, trivial⟩
    · exact .pure hc
  | verify test =>
    refine hpv.bind hv (fun rest x hrest hlt _ => ?_) (fun c hc => ?_) fun _ => rfl
    · refine (Run.Meets.call (fun _ _ => trivial) fun e he => hraise e ⟨x, he⟩ v).bind
        fun passes _ => ?_
      split
      · exact .pure ⟨hrest, fun h => hlt h.2, trivial⟩
      · exact .pure (K.single rfl)
    · exact .pure hc
  | context code =>
    refine hpv.bind hv (fun rest x hrest hlt _ => ?_) (fun c hc => ?_) fun _ => rfl
    · exact .pure ⟨hrest, fun h => hlt h.2, trivial⟩
    · exact customFailure (fun h => hcode (congrArg Option.isNone h) v) fun _ => K.coded hc
  | cond condition =>
    show K.Ends I v v _ _ (if condition.truth = true then p v else _)
    split
    · exact hpv.after hv fun h => .inr h.2
    · exact .pure ⟨hv, fun h => (nomatch h.1), trivial⟩
  | condReduce condition =>
    show K.Ends I v v _ _ (if condition.truth = true then p v else _)
    split
    · exact hpv.after hv fun h => .inr h.2
    · exact .pure (K.single rfl)
  | trace label =>
    refine Run.Meets.bind (P := K.Accepts v v (True ∧ consumes) fun _ => True)
      (hpv.after hv fun h => .inr h.2) ?_
    rintro (⟨rest, x⟩ | c | n) ho
    · exact Run.Meets.report.bind fun _ _ => .pure ⟨ho.1, fun h => ho.2.1 ⟨trivial, h.2⟩, trivial⟩
    · exact Run.Meets.report.bind fun _ _ => .pure ho
    · exact Run.Meets.report.bind fun _ _ => .pure ho
  | renamed name => exact hpv.after hv fun h => .inr h.2

/-! ### Grammars -/

variable (K)

/-- What a leaf may answer on `v`. -/
def Leaf (consumes : Prop) (v : View) : Except Fault (Outcome Value) → Prop
  | .ok o => K.Accepts v v consumes (fun _ => True) o
  | .error fault => K.fault v fault

/-- A node of a grammar keeps the contract if what is inside it does; of the deferred grammars, those
in `D` do. -/
def Node (known : Key → Bool) (D : Key → Prop) : Grammar → Prop
  | .primitive p => ∀ v, K.Leaf (p.consuming = true) v (p.parse v)
  | .custom _ run => ∀ v, K.Leaf False v (run v)
  | .sequence assembly parts => ∀ e, assembly.Raises parts.length e → ∀ v, K.fault v (.raised e)
  | .choice _ _ => True
  | .repeated r g =>
    (g.consuming known = true ∨ ∀ v, K.fault v (.stalled r.word v.start)) ∧
      ∀ e, r.Raises e → ∀ v, K.fault v (.raised e)
  | .manyTill g _ => g.consuming known = true ∨ ∀ v, K.fault v (.stalled "many_till" v.start)
  | .separated nonempty separator g =>
    (separator.consuming known = true ∨ g.consuming known = true) ∨
      ∀ v, K.fault v (.stalled (separatedWord nonempty) v.start)
  | .adapted a _ =>
    (∀ e, a.Raises e → ∀ v, K.fault v (.raised e)) ∧
      (a.lacksCode = true → ∀ v, K.fault v .codeMissing)
  | .deferred _ key => D key

variable {K} {known : Key → Bool} {D : Key → Prop} {g : Grammar}

/-- A primitive keeps the contract if the contract admits its requests and faults. -/
theorem primitive {p : Primitive}
    (hneeded : ∀ needed, (p.fixedLength = true ∨ p.policy? = some .streaming) →
      (∀ n, needed = .exact n → 0 < n.toInt) → K.needed needed)
    (hkind : ∀ name, p.suits v.kind = false →
      (∀ kind, K.fault v (.kindMismatch name kind v.kind)) ∧ K.fault v (.integerOnText name))
    (hraise : ∀ e, p.Raises e → K.fault v (.raised e)) :
    K.Leaf (p.consuming = true) v (p.parse v) := by
  generalize hr : p.parse v = r
  have hanswer : Primitive.Answer p v r := hr ▸ p.answer v
  cases hanswer with
  | consumed hn hc =>
    refine ⟨.drop v _, fun h => ?_, trivial⟩
    have hpos := hc h
    rw [View.offset_drop]
    omega
  | atEnd hc =>
    refine ⟨.refl v, fun h => ?_, trivial⟩
    rw [hc] at h
    cases h
  | rejected hmem =>
    simp only [Primitive.failureKinds, List.mem_cons, List.not_mem_nil, or_false] at hmem
    rcases hmem with rfl | rfl | rfl | rfl <;> exact K.single rfl
  | waiting hp hn => exact hneeded _ hp hn
  | otherKind hs => exact (hkind _ hs).1 _
  | onText hs => exact (hkind _ hs).2
  | raised he => exact hraise _ he

theorem leaf {run : View → Except Fault (Outcome Value)} (h : ∀ v, K.Leaf consumes v (run v)) :
    K.Keeps I rounds consumes (fun _ => True) (Parser.leaf run) := by
  intro v _
  refine Run.Meets.emit.bind fun _ _ => ?_
  have hv := h v
  cases hrun : run v with
  | error fault => rw [hrun] at hv; exact .raise hv
  | ok o => rw [hrun] at hv; exact .pure hv

/-- Apart from hand-made leaves, a node keeps every contract that admits the faults of parsing and the
requests of its primitives. -/
theorem node_of_ofParsing (hfault : ∀ v f, f.ofParsing = true → K.fault v f)
    (hneeded : ∀ p, g = .primitive p → ∀ needed,
      (p.fixedLength = true ∨ p.policy? = some .streaming) → K.needed needed)
    (hcustom : ∀ name run, g ≠ .custom name run) : K.Node known (fun _ => True) g := by
  cases g with
  | primitive p =>
    intro v
    refine primitive (fun needed hp _ => hneeded p rfl needed hp) (fun name _ => ⟨fun kind => ?_, ?_⟩) ?_
    · exact hfault v _ rfl
    · exact hfault v _ rfl
    · exact fun e _ => hfault v _ rfl
  | custom name run => exact absurd rfl (hcustom name run)
  | sequence assembly parts => exact fun e _ v => hfault v _ rfl
  | choice first rest => trivial
  | repeated r g => exact ⟨.inr fun v => hfault v _ rfl, fun e _ v => hfault v _ rfl⟩
  | manyTill g terminator => exact .inr fun v => hfault v _ rfl
  | separated nonempty separator g => exact .inr fun v => hfault v _ rfl
  | adapted a g => exact ⟨fun e _ v => hfault v _ rfl, fun _ v => hfault v _ rfl⟩
  | deferred name key => trivial

/-- Without hand-made leaves, all nodes keep a contract that admits every request and the faults of parsing. -/
theorem everywhere_of_library (hfault : ∀ v f, f.ofParsing = true → K.fault v f)
    (hneeded : ∀ needed, K.needed needed) (hg : g.Library) : g.Everywhere (K.Node known fun _ => True) :=
  hg.mono fun _ hcustom => node_of_ofParsing hfault (fun _ _ needed _ => hneeded needed) hcustom

section Interp
variable {deferred : String → Key → Parser Value} {size : Nat}

/-- The flags of the parts of a choice go with their parsers. -/
theorem forall₂_interp (gs : List Grammar)
    (h : ∀ g ∈ gs, K.Keeps I size (g.consuming known = true) (fun _ => True) (g.interp rounds deferred)) :
    List.Forall₂ (fun p flag => K.Keeps I size (flag = true) (fun _ => True) p)
      (gs.map (Grammar.interp rounds deferred)) (gs.map (Grammar.consuming known)) := by
  rw [List.forall₂_map_left_iff, List.forall₂_map_right_iff, List.forall₂_same]
  exact h

/-- The references of a grammar may be used on views of less than `size` symbols, the guarded ones only on
those that are shorter still. -/
def Serves (K : Contract) (I : Cache → Prop) (known : Key → Bool) (deferred : String → Key → Parser Value)
    (size : Nat) (r : Reference) : Prop :=
  ∀ name, K.Keeps I (size - r.guarded.toNat) (known r.key = true) (fun _ => True) (deferred name r.key)

theorem Serves.behind {consumed : Bool} {r : Reference}
    (h : Serves K I known deferred size (r.behind consumed)) :
    Serves K I known deferred (size - consumed.toNat) r := by
  refine fun name => (h name).mono ?_
  cases consumed <;> cases hr : r.guarded <;> simp [Reference.behind, hr]

theorem inRow_interp (gs : List Grammar) {consumed : Bool}
    (href : ∀ r ∈ Grammar.referencesInRow known consumed gs, Serves K I known deferred size r)
    (h : ∀ g ∈ gs, ∀ m ≤ size, (∀ r ∈ g.references known, Serves K I known deferred m r) →
      K.Keeps I m (g.consuming known = true) (fun _ => True) (g.interp rounds deferred)) :
    InRow K I size consumed (gs.map (Grammar.interp rounds deferred))
      (gs.map (Grammar.consuming known)) := by
  induction gs generalizing consumed with
  | nil => exact .nil _
  | cons g gs ih =>
    simp only [Grammar.referencesInRow, List.mem_append, List.mem_map] at href
    refine .cons (h g (.head _) _ (Nat.sub_le _ _) fun r hr => ?_) (ih (fun r hr => href r (.inr hr)) ?_)
    · exact Serves.behind (href _ (.inl ⟨r, hr, rfl⟩))
    · exact fun g' hg' => h g' (.tail _ hg')

/-- A grammar keeps the contract that its nodes keep if its references do, each where it is used. -/
theorem interp_references (hsize : size ≤ rounds)
    (href : ∀ r ∈ g.references known, Serves K I known deferred size r)
    (hg : g.Everywhere (K.Node known D)) :
    K.Keeps I size (g.consuming known = true) (fun _ => True) (g.interp rounds deferred) := by
  induction hg generalizing size with
  | @intro g hnode _ ih =>
    cases g with
    | primitive p => rw [Grammar.interp]; exact leaf hnode
    | custom name run =>
      intro v hr
      rw [Grammar.interp]
      exact (leaf hnode v hr).after (.refl v) fun h => nomatch h
    | sequence assembly parts =>
      intro v hr
      rw [Grammar.references] at href
      rw [Grammar.interp, Grammar.interpAll_eq_map]
      have hrow : InRow K I size false (parts.map (Grammar.interp rounds deferred))
          (parts.map (Grammar.consuming known)) :=
        inRow_interp parts href fun g hg m hm hserves => ih g hg (Nat.le_trans hm hsize) hserves
      have hthread := thread (.refl v) hrow hr
      refine (hthread.mapM (fun _ _ _ _ => trivial) fun xs e hlen he => ?_).after (.refl v)
        fun h => .inr ?_
      · exact hnode e ⟨xs, by simpa using hlen, he⟩ v
      · rw [Grammar.consuming, Grammar.consumingAny_eq_any] at h
        simpa using h
    | choice first rest =>
      intro v hr
      simp only [Grammar.references, Grammar.referencesOfAll_eq_flatMap, List.mem_append,
        List.mem_flatMap] at href
      rw [Grammar.interp, Grammar.interpAll_eq_map]
      have hfirst := ih first (.head _) hsize fun r hr => href r (.inl hr)
      have hrest := forall₂_interp rest fun h hh => ih h (.tail _ hh) hsize fun r hr => href r (.inr ⟨h, hh, hr⟩)
      refine (choice hfirst hrest hr).after (.refl v) fun h => .inr ?_
      rw [Grammar.consuming, Grammar.consumingAll_eq_all, Bool.and_eq_true] at h
      exact ⟨h.1, by simpa using h.2⟩
    | repeated r g =>
      intro v hr
      rw [Grammar.interp]
      refine (repeated hsize (ih g (.head _) hsize href) hnode.1 hnode.2 v hr).after (.refl v)
        fun h => .inr ?_
      rwa [Grammar.consuming, Bool.and_eq_true] at h
    | manyTill g terminator =>
      intro v hr
      simp only [Grammar.references, List.mem_append] at href
      rw [Grammar.interp]
      have hp := ih g (.head _) hsize fun r hr => href r (.inl hr)
      have ht := ih terminator (.tail _ (.head _)) hsize fun r hr => href r (.inr hr)
      have hn : K.limit ∨ v.length < rounds := hr.imp_right fun h => Nat.lt_of_lt_of_le h hsize
      exact (manyTill hp ht hnode (.refl v) hr hn).map fun _ _ => trivial
    | separated nonempty separator g =>
      intro v hr
      simp only [Grammar.references, List.mem_append, List.mem_map] at href
      rw [Grammar.interp]
      have hseparator := ih separator (.head _) (Nat.le_trans (Nat.sub_le _ _) hsize)
        fun r hr => Serves.behind (href _ (.inl ⟨r, hr, rfl⟩))
      have hp := ih g (.tail _ (.head _)) hsize fun r hr => href r (.inr hr)
      refine ((separated nonempty hsize hseparator hp hnode v hr).map fun _ _ => trivial).after (.refl v)
        fun h => .inr ?_
      rwa [Grammar.consuming, Bool.and_eq_true] at h
    | adapted a g =>
      intro v hr
      rw [Grammar.interp]
      refine (adapted (ih g (.head _) hsize href) hnode.1 hnode.2 v hr).after (.refl v) fun h => .inr ?_
      rwa [Grammar.consuming, Bool.and_eq_true] at h
    | deferred name key =>
      rw [Grammar.interp]
      exact href ⟨key, false⟩ (.head _) name

/-- A grammar keeps the contract that its nodes keep. -/
theorem interp (hdeferred : ∀ name key, D key →
      K.Keeps I rounds (known key = true) (fun _ => True) (deferred name key))
    (hg : g.Everywhere (K.Node known D)) :
    K.Keeps I rounds (g.consuming known = true) (fun _ => True) (g.interp rounds deferred) := by
  refine interp_references (Nat.le_refl _) (fun r hr name => ?_) hg
  obtain ⟨_, hkey⟩ := hg.reference hr
  exact (hdeferred name r.key hkey).mono (Nat.sub_le _ _)

end Interp

/-- Definitions keep the contract: what they build does, and what they raise is admitted. -/
structure Defines (K : Contract) (known : Key → Bool) (defs : Definitions) : Prop where
  body : ∀ key g, defs key = .ok g → g.Everywhere (K.Node known fun _ => True)
  consuming : ∀ key g, defs key = .ok g → known key = true → g.consuming known = true
  fault : ∀ key f, defs key = .error f → ∀ v, K.fault v f

/-- Every parse keeps a contract that lets parses run on and that all grammars involved keep. -/
theorem parse {defs : Definitions} (hlimit : K.limit) (hdefs : K.Defines known defs)
    (hg : g.Everywhere (K.Node known fun _ => True)) (budget : Nat) (v : View) :
    K.Ends (Cache.Sound defs) v v (g.consuming known = true) (fun _ => True) (g.parse defs budget v) := by
  induction budget generalizing g v with
  | zero => exact .exhausted hlimit
  | succ budget ih =>
    refine interp (D := fun _ => True) (fun name key _ w _ => ?_) hg v (.inl hlimit)
    refine (Run.Meets.body fun f hf => hdefs.fault key f hf w).bind fun body hbody => ?_
    exact (ih (hdefs.body key body hbody) w).after (.refl w) fun h =>
      .inr (hdefs.consuming key body hbody h)

end Contract
end StreamGrammar
