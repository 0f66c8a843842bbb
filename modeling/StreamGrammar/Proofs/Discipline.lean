import StreamGrammar.Grammar.Parse
import StreamGrammar.Proofs.RunLogic
import StreamGrammar.Proofs.Subgrammar

/-! # Disciplines of runs

A discipline is a property of runs, of their results and records together, that the few ways in which
combinators put runs together preserve. They never look into an undecided outcome, they raise the fault of a
repetition only with its record, and they make records of their own for traces only. `Discipline.parse`: a
parse whose leaves keep a discipline keeps it. A `Conduct` is one that traces may break; parses of grammars
without traces keep it (`Conduct.parse`). `Account`: a relation between how a run ends and how its cache
began, kept by one effect after the other; it makes a discipline (`Account.discipline`). -/

namespace StreamGrammar

structure Conduct (defs : Definitions) where
  Holds : {α : Type} → Run (Outcome α) → Prop
  exhausted : ∀ {α : Type}, Holds (Run.exhausted : Run (Outcome α))
  done : ∀ {α : Type} {rest : View} {x : α}, Holds (pure (.done rest x))
  failed : ∀ {α : Type} {c : Chain}, Holds (pure (.failed c) : Run (Outcome α))
  raise : ∀ {α : Type} {fault : Fault}, fault.isStall = false → Holds (Run.raise fault : Run (Outcome α))
  stall : ∀ {α : Type} {word : String} {position : Position},
    Holds (do Run.emit (.stalled word position); Run.raise (.stalled word position) : Run (Outcome α))
  /-- To go on after `x`, whatever it came to, unless that is undecided. -/
  bind : ∀ {α β : Type} {x : Run (Outcome α)} {f : Outcome α → Run (Outcome β)}, Holds x →
    (∀ rest a, Holds (f (.done rest a))) → (∀ c, Holds (f (.failed c))) →
    (∀ n, f (.incomplete n) = pure (.incomplete n)) → Holds (x >>= f)
  body : ∀ {α : Type} {name : String} {key : Key} {f : Grammar → Run (Outcome α)},
    (∀ g, defs key = .ok g → Holds (f g)) → Holds (Run.body defs name key >>= f)

structure Discipline (defs : Definitions) extends Conduct defs where
  trace : ∀ {x : Run (Outcome Value)} {label : String} {offset : Nat}, Holds x →
    Holds (do let o ← x; Run.report label offset o; return o)

namespace Conduct
variable {defs : Definitions} (D : Conduct defs) {α β γ : Type}

/-- The parser keeps the discipline on every view. -/
def Keeps (p : Parser α) : Prop := ∀ v, D.Holds (p v)

theorem map {x : Run (Outcome α)} (f : α → β) (hx : D.Holds x) : D.Holds (Outcome.map f <$> x) := by
  rw [map_eq_pure_bind]
  exact D.bind hx (fun _ _ => D.done) (fun _ => D.failed) fun _ => rfl

/-- To go on with what may be a fault, but not the one of a repetition. -/
theorem attempt {r : Except Fault α} {f : α → Run (Outcome β)}
    (hr : ∀ fault, r = .error fault → fault.isStall = false) (hf : ∀ a, D.Holds (f a)) :
    D.Holds (Run.ofExcept r >>= f) := by
  cases r with
  | error fault => exact D.raise (hr fault rfl)
  | ok a =>
    have hpure : (Run.ofExcept (.ok a) >>= f) = f a := Run.run_pure_bind a f
    rw [hpure]
    exact hf a

theorem call {r : Except Raised α} {f : α → Run (Outcome β)} (hf : ∀ a, D.Holds (f a)) :
    D.Holds ((liftM r : Run α) >>= f) := by
  refine D.attempt (fun fault hfault => ?_) hf
  cases r with
  | error e => cases hfault; rfl
  | ok a => cases hfault

theorem mapM {x : Run (Outcome α)} {f : α → Except Raised β} (hx : D.Holds x) :
    D.Holds (x >>= fun o => o.mapM fun a => (liftM (f a) : Run β)) :=
  D.bind hx (fun _ _ => D.call fun _ => D.done) (fun _ => D.failed) fun _ => rfl

theorem isStall_of_entry {kind : ErrorKind} {position : Numeral} {code : Option Value} {cause : Option Raised}
    {fault : Fault} (h : Entry.of kind position code cause = .error fault) : fault.isStall = false := by
  unfold Entry.of at h
  split at h
  · cases h; rfl
  · split at h
    · cases h; rfl
    · split at h <;> cases h
      rfl

theorem entry {kind : ErrorKind} {position : Numeral} {code : Option Value} {cause : Option Raised}
    {f : Entry → Run (Outcome β)} (hf : ∀ e, D.Holds (f e)) :
    D.Holds (Run.ofExcept (Entry.of kind position code cause) >>= f) :=
  D.attempt (fun _ => isStall_of_entry) hf

/-! ### Sequences and choices -/

variable {D}

theorem thread {origin : Position} {ps : List (Parser α)} (hps : ∀ p ∈ ps, D.Keeps p) :
    D.Keeps (Parser.thread origin ps) := by
  induction ps with
  | nil => exact fun v => D.done
  | cons p ps ih =>
    have htail := ih fun q hq => hps q (.tail _ hq)
    intro v
    refine D.bind (hps p (.head _) v) (fun rest x => ?_) (fun c => D.failed) fun _ => rfl
    exact D.map (x :: ·) (htail rest)

theorem choice {p : Parser α} {ps : List (Parser α)} (hp : D.Keeps p) (hps : ∀ q ∈ ps, D.Keeps q) :
    D.Keeps (Parser.choice p ps) := by
  induction ps generalizing p with
  | nil => exact fun v => D.bind (hp v) (fun _ _ => D.done) (fun _ => D.failed) fun _ => rfl
  | cons q qs ih =>
    have hrest := ih (hps q (.head _)) fun q' hq' => hps q' (.tail _ hq')
    exact fun v => D.bind (hp v) (fun _ _ => D.done) (fun _ => hrest v) fun _ => rfl

/-! ### Repetitions -/

theorem ensureProgress {word : String} {before after : View} {f : Unit → Run (Outcome α)}
    (hf : D.Holds (f ())) : D.Holds (Parser.ensureProgress word before after >>= f) := by
  unfold Parser.ensureProgress
  split
  · rw [Run.run_bind_assoc]
    exact D.stall
  · rw [Run.run_pure_bind]
    exact hf

theorem fold {l : Parser.Loop α β} {p : Parser α} (hp : D.Keeps p) (n matched : Nat) (acc : β) :
    D.Keeps (p.fold l n matched acc) := by
  induction n generalizing matched acc with
  | zero =>
    intro v
    rw [Parser.fold]
    split
    · exact D.done
    · exact D.exhausted
  | succ n ih =>
    intro v
    rw [Parser.fold]
    split
    · exact D.done
    refine D.bind (hp v) (fun rest x => ?_) (fun c => ?_) fun _ => rfl
    · exact ensureProgress (D.call fun acc' => ih (matched + 1) acc' rest)
    · show D.Holds (if matched < l.least then _ else _)
      split
      · exact D.failed
      · exact D.done

theorem manyTill {origin : Position} {p : Parser α} {terminator : Parser γ} (hp : D.Keeps p)
    (ht : D.Keeps terminator) (n : Nat) (xs : List α) :
    D.Keeps (Parser.manyTill origin p terminator n xs) := by
  induction n generalizing xs with
  | zero => exact fun v => D.exhausted
  | succ n ih =>
    intro v
    refine D.bind (ht v) (fun rest x => D.done) (fun _ => ?_) fun _ => rfl
    refine D.bind (hp v) (fun rest x => ?_) (fun c => D.failed) fun _ => rfl
    exact ensureProgress (ih (xs ++ [x]) rest)

theorem separatedTail {word : String} {separator : Parser γ} {p : Parser α} (hs : D.Keeps separator)
    (hp : D.Keeps p) (n : Nat) (xs : List α) : D.Keeps (Parser.separatedTail word separator p n xs) := by
  induction n generalizing xs with
  | zero => exact fun v => D.exhausted
  | succ n ih =>
    intro v
    refine D.bind (hs v) (fun between _ => ?_) (fun _ => D.done) fun _ => rfl
    refine D.bind (hp between) (fun rest x => ?_) (fun _ => D.done) fun _ => rfl
    exact ensureProgress (ih (xs ++ [x]) rest)

theorem separated {word : String} {nonempty : Bool} {separator : Parser γ} {p : Parser α} {rounds : Nat}
    (hs : D.Keeps separator) (hp : D.Keeps p) :
    D.Keeps (Parser.separated word nonempty separator p rounds) := by
  intro v
  refine D.bind (hp v) (fun rest x => separatedTail hs hp rounds [x] rest) (fun c => ?_) fun _ => rfl
  show D.Holds (if nonempty = true then _ else _)
  split
  · exact D.failed
  · exact D.done

theorem repeated {r : Repetition} {p : Parser Value} {rounds : Nat} (hp : D.Keeps p) :
    D.Keeps (r.parse rounds p) := by
  intro v
  cases r with
  | fold0 start step => exact D.call fun acc => fold hp rounds 0 acc v
  | fold1 start step => exact D.call fun acc => fold hp rounds 0 acc v
  | _ => exact D.map Value.list (fold hp rounds 0 [] v)

/-! ### Adapters -/

theorem adapted {a : Adapter} {p : Parser Value} (ha : ∀ label, a = .trace label → D.Keeps (p.trace · label))
    (hp : D.Keeps p) : D.Keeps (a.parse p) := by
  intro v
  have hpv := hp v
  cases a with
  | optional => exact D.bind hpv (fun _ _ => D.done) (fun _ => D.done) fun _ => rfl
  | peek => exact D.bind hpv (fun _ _ => D.done) (fun _ => D.failed) fun _ => rfl
  | negate => exact D.bind hpv (fun _ _ => D.failed) (fun _ => D.done) fun _ => rfl
  | map f => exact D.mapM hpv
  | mapResult f caught code =>
    refine D.bind hpv (fun rest x => ?_) (fun _ => D.failed) fun _ => rfl
    cases hf : f x with
    | ok y =>
      simp only [hf]
      exact D.done
    | error e =>
      simp only [hf]
      split
      · exact D.entry fun _ => D.failed
      · exact D.raise rfl
  | recognize =>
    refine D.bind hpv (fun rest x => ?_) (fun _ => D.failed) fun _ => rfl
    refine D.attempt (fun fault hfault => ?_) fun _ => D.done
    cases hview : v.consumedUntil rest with
    | error f => rw [hview] at hfault; cases hfault; rfl
    | ok w => rw [hview] at hfault; cases hfault
  | verify test =>
    refine D.bind hpv (fun rest x => D.call fun passes => ?_) (fun _ => D.failed) fun _ => rfl
    split
    · exact D.done
    · exact D.failed
  | context code => exact D.bind hpv (fun _ _ => D.done) (fun _ => D.entry fun _ => D.failed) fun _ => rfl
  | cond condition =>
    show D.Holds (if condition.truth = true then p v else _)
    split
    · exact hpv
    · exact D.done
  | condReduce condition =>
    show D.Holds (if condition.truth = true then p v else _)
    split
    · exact hpv
    · exact D.failed
  | trace label => exact ha label rfl v
  | renamed name => exact hpv

/-! ### Grammars -/

variable (D) in
/-- If the node is a leaf, it keeps the discipline. -/
def Leaf : Grammar → Prop
  | .primitive p => D.Keeps (Parser.leaf p.parse)
  | .custom _ run => D.Keeps (Parser.leaf run)
  | _ => True

variable (D) in
/-- If the node is a trace, it keeps what the grammar in it keeps. -/
def Trace : Grammar → Prop
  | .adapted (.trace label) _ => ∀ p, D.Keeps p → D.Keeps (p.trace · label)
  | _ => True

variable {g : Grammar}

theorem interp {rounds : Nat} {deferred : String → Key → Parser Value}
    (hdeferred : ∀ name key, D.Keeps (deferred name key)) (hg : g.Everywhere fun h => D.Leaf h ∧ D.Trace h) :
    D.Keeps (g.interp rounds deferred) := by
  induction hg with
  | @intro g hnode _ ih =>
    obtain ⟨hleaf, htrace⟩ := hnode
    have hparts : ∀ gs : List Grammar, (∀ h ∈ gs, h ∈ g.children) →
        ∀ p ∈ gs.map (Grammar.interp rounds deferred), D.Keeps p := by
      intro gs hgs p hp
      obtain ⟨h, hh, rfl⟩ := List.mem_map.1 hp
      exact ih h (hgs h hh)
    intro v
    cases g with
    | primitive p => rw [Grammar.interp]; exact hleaf v
    | custom name run => rw [Grammar.interp]; exact hleaf v
    | sequence assembly parts =>
      rw [Grammar.interp, Grammar.interpAll_eq_map]
      exact D.mapM (thread (hparts parts fun _ hh => hh) v)
    | choice first rest =>
      rw [Grammar.interp, Grammar.interpAll_eq_map]
      exact choice (ih first (.head _)) (hparts rest fun _ hh => .tail _ hh) v
    | repeated r g => rw [Grammar.interp]; exact repeated (ih g (.head _)) v
    | manyTill g terminator =>
      rw [Grammar.interp]
      exact D.map _ (manyTill (ih g (.head _)) (ih terminator (.tail _ (.head _))) rounds [] v)
    | separated nonempty separator g =>
      rw [Grammar.interp]
      exact D.map _ (separated (ih separator (.head _)) (ih g (.tail _ (.head _))) v)
    | adapted a g =>
      have hg := ih g (.head _)
      have ha : ∀ label, a = .trace label → D.Keeps ((g.interp rounds deferred).trace · label) := by
        rintro label rfl
        exact htrace _ hg
      rw [Grammar.interp]
      exact adapted ha hg v
    | deferred name key => rw [Grammar.interp]; exact hdeferred name key v

/-- A parse keeps a conduct that all leaves and traces keep, also those of deferred grammars. -/
theorem parse (hdefs : ∀ key g, defs key = .ok g → g.Everywhere fun h => D.Leaf h ∧ D.Trace h)
    (hg : g.Everywhere fun h => D.Leaf h ∧ D.Trace h) (budget : Nat) : D.Keeps (g.parse defs budget) := by
  induction budget generalizing g with
  | zero => exact fun v => D.exhausted
  | succ budget ih =>
    exact interp (fun name key v => D.body fun body hbody => ih (hdefs key body hbody) v) hg

end Conduct

namespace Discipline
variable {defs : Definitions} {D : Discipline defs} {g : Grammar}

theorem trace_node (g : Grammar) : D.Trace g := by
  unfold Conduct.Trace
  split
  · exact fun p hp v => D.trace (hp v)
  · trivial

/-- A parse keeps a discipline that all leaves keep, also those of deferred grammars. -/
theorem parse (hdefs : ∀ key g, defs key = .ok g → g.Everywhere D.Leaf) (hg : g.Everywhere D.Leaf)
    (budget : Nat) : D.Keeps (g.parse defs budget) :=
  Conduct.parse (fun key h hh => (hdefs key h hh).mono fun k hk => ⟨hk, trace_node k⟩)
    (hg.mono fun k hk => ⟨hk, trace_node k⟩) budget

end Discipline

/-! ### Accounts -/

/-- What the end of a run at `threshold` has to do with the cache that it began with. -/
structure Account (defs : Definitions) (threshold : Level) where
  InOrder : {α : Type} → Cache → Ended α → Prop
  ok : ∀ {α : Type} {cache : Cache} {a : α}, InOrder cache ⟨.ok a, cache, []⟩
  error : ∀ {α : Type} {cache : Cache} {fault : Fault}, fault.isStall = false →
    InOrder cache (⟨.error fault, cache, []⟩ : Ended α)
  /-- Of what a run did before its fault it does not matter what it was to yield. -/
  retype : ∀ {α β : Type} {cache cache' : Cache} {fault : Fault} {records : List Event},
    InOrder cache (⟨.error fault, cache', records⟩ : Ended α) →
      InOrder cache (⟨.error fault, cache', records⟩ : Ended β)
  trans : ∀ {α β : Type} {cache cache' : Cache} {a : α} {before : List Event} {e : Ended β},
    InOrder cache ⟨.ok a, cache', before⟩ → InOrder cache' e →
      InOrder cache { e with records := before ++ e.records }
  visited : ∀ {cache : Cache} {offset : Nat} {r : Except Fault (Outcome Value)},
    InOrder cache ⟨.ok (), cache, threshold.keep [.visited offset r]⟩
  traced : ∀ {cache : Cache} {label : String} {offset : Nat} {o : Outcome Value},
    InOrder cache ⟨.ok (), cache, threshold.keep [.traced label offset o]⟩
  stalled : ∀ {α : Type} {cache : Cache} {word : String} {position : Position},
    InOrder cache (⟨.error (.stalled word position), cache, threshold.keep [.stalled word position]⟩ : Ended α)
  body : ∀ {cache : Cache} {name : String} {key : Key} {e : Ended Grammar},
    Run.body defs name key threshold cache = some e → InOrder cache e

namespace Account
variable {defs : Definitions} {threshold : Level} (A : Account defs threshold) {α β : Type}

/-- Every end of the run is in order, and leaves a sound cache if it began with one. -/
def Keeps (x : Run α) : Prop :=
  ∀ cache e, Cache.Sound defs cache → x threshold cache = some e → Cache.Sound defs e.cache ∧ A.InOrder cache e

theorem keeps_pure (a : α) : A.Keeps (pure a) := by
  rintro cache _ hcache ⟨⟩
  exact ⟨hcache, A.ok⟩

theorem keeps_ofExcept {r : Except Fault α}
    (hr : ∀ fault, r = .error fault → ∀ cache, A.InOrder cache (⟨.error fault, cache, []⟩ : Ended α)) :
    A.Keeps (Run.ofExcept r) := by
  rintro cache _ hcache ⟨⟩
  cases r with
  | error fault => exact ⟨hcache, hr fault rfl cache⟩
  | ok a => exact ⟨hcache, A.ok⟩

variable {A}

theorem Keeps.emit {event : Event} (h : ∀ cache, A.InOrder cache ⟨.ok (), cache, threshold.keep [event]⟩) :
    A.Keeps (Run.emit event) := by
  intro cache e hcache he
  rw [Run.emit_apply] at he
  cases he
  exact ⟨hcache, h cache⟩

theorem Keeps.bind {P : α → Prop} {x : Run α} {f : α → Run β} (hx : A.Keeps x)
    (hP : ∀ cache cache' records a, Cache.Sound defs cache →
      x threshold cache = some ⟨.ok a, cache', records⟩ → P a)
    (hf : ∀ a, P a → A.Keeps (f a)) : A.Keeps (x >>= f) := by
  intro cache e hcache he
  rcases hxc : x threshold cache with _ | ⟨fault | a, cache', records⟩
  · rw [Run.bind_of_none _ _ f hxc] at he
    cases he
  · rw [Run.bind_of_error _ _ f hxc] at he
    cases he
    obtain ⟨hcache', horder⟩ := hx cache _ hcache hxc
    exact ⟨hcache', A.retype horder⟩
  · obtain ⟨hcache', horder⟩ := hx cache _ hcache hxc
    rw [Run.bind_of_ok _ _ f hxc] at he
    obtain ⟨e', he', rfl⟩ := Option.map_eq_some_iff.1 he
    have ha : P a := hP cache cache' records a hcache hxc
    obtain ⟨hcache'', horder'⟩ := hf a ha cache' e' hcache' he'
    exact ⟨hcache'', A.trans horder horder'⟩

/-- What a report raises is not the fault of a repetition. -/
theorem keeps_report (label : String) (offset : Nat) (o : Outcome Value) : A.Keeps (Run.report label offset o) := by
  intro cache e hcache he
  obtain rfl | ⟨error, rfl⟩ := Run.report_cases he
  · exact ⟨hcache, A.traced⟩
  · exact ⟨hcache, A.error rfl⟩

/-- To go on whatever the run came to. -/
theorem Keeps.seq {x : Run α} {f : α → Run β} (hx : A.Keeps x) (hf : ∀ a, A.Keeps (f a)) :
    A.Keeps (x >>= f) :=
  hx.bind (P := fun _ => True) (fun _ _ _ _ _ _ => trivial) fun a _ => hf a

theorem keeps_stall (word : String) (position : Position) :
    A.Keeps (do Run.emit (.stalled word position); Run.raise (.stalled word position) : Run α) := by
  intro cache e hcache he
  rw [Run.emit_bind_apply] at he
  cases he
  refine ⟨hcache, ?_⟩
  show A.InOrder cache ⟨_, _, threshold.keep [.stalled word position] ++ []⟩
  rw [List.append_nil]
  exact A.stalled

theorem keeps_body {name : String} {key : Key} {f : Grammar → Run α}
    (hf : ∀ g, defs key = .ok g → A.Keeps (f g)) : A.Keeps (Run.body defs name key >>= f) := by
  refine Keeps.bind (P := fun g => defs key = .ok g) (fun cache e hcache he => ?_)
    (fun cache cache' records g hcache hg => ?_) hf
  · obtain ⟨e', he', -, hcache'⟩ := Run.body_eq hcache name key threshold
    rw [he] at he'
    cases he'
    exact ⟨hcache', A.body he⟩
  · obtain ⟨e', he', hresult, -⟩ := Run.body_eq hcache name key threshold
    rw [hg] at he'
    cases he'
    exact hresult.symm

variable (A) in
/-- Runs whose ends are in order. -/
def discipline : Discipline defs where
  Holds := A.Keeps
  exhausted := fun _ _ _ he => nomatch he
  done := A.keeps_pure _
  failed := A.keeps_pure _
  raise hfault := A.keeps_ofExcept (by
    rintro _ ⟨⟩ cache
    exact A.error hfault)
  stall := keeps_stall _ _
  bind := by
    intro α β x f hx hdone hfailed hincomplete
    refine hx.seq fun o => ?_
    cases o with
    | done rest a => exact hdone rest a
    | failed c => exact hfailed c
    | incomplete n =>
      rw [hincomplete]
      exact A.keeps_pure _
  trace hx := hx.seq fun o => (keeps_report _ _ o).seq fun _ => A.keeps_pure o
  body := keeps_body

theorem keeps_leaf {run : View → Except Fault (Outcome Value)}
    (hrun : ∀ v fault, run v = .error fault → ∀ cache, A.InOrder cache (⟨.error fault, cache, []⟩ : Ended (Outcome Value))) :
    A.discipline.Keeps (Parser.leaf run) := by
  intro v
  exact (Keeps.emit fun _ => A.visited).seq fun _ => A.keeps_ofExcept (hrun v)

end Account
end StreamGrammar
