import StreamGrammar.Proofs.Observation
import StreamGrammar.Proofs.Settled
import StreamGrammar.Proofs.Suffix

/-! # Calls of traced grammars

A trace around a grammar makes one record for each time that the grammar was run, with the offset and the
outcome. `Run.Logs` says which of these records a run makes and what it ends with; there is one rule for each way
to put a run together. Traces inside the grammar could make records with the same label, so they are taken away
first, which changes no result: without them the grammar makes no such record itself (`Grammar.untraced_quiet`),
and with a trace around it exactly one each time that it is run (`Grammar.trace_logs`). -/

namespace StreamGrammar

/-- What a traced grammar was asked and what it came to. -/
structure Call where
  label : String
  offset : Nat
  outcome : Outcome Value

def Event.call? : Event → Option Call
  | traced label offset outcome => some ⟨label, offset, outcome⟩
  | _ => none

/-- The calls that the records tell of, in their order. -/
def traced (records : List Event) : List Call := records.filterMap Event.call?

@[simp] theorem traced_append (before after : List Event) :
    traced (before ++ after) = traced before ++ traced after :=
  List.filterMap_append

namespace Call

/-- The calls with this label. -/
def only (label : String) (calls : List Call) : List Call := calls.filter (·.label = label)

@[simp] theorem only_nil (label : String) : only label [] = [] := rfl

@[simp] theorem only_append (label : String) (before after : List Call) :
    only label (before ++ after) = only label before ++ only label after :=
  List.filter_append before after

def output? (c : Call) : Option Value :=
  match c.outcome with
  | .done _ x => some x
  | _ => none

/-- What the calls that came to a match have put out. -/
def outputs (calls : List Call) : List Value := calls.filterMap output?

@[simp] theorem outputs_append (before after : List Call) :
    outputs (before ++ after) = outputs before ++ outputs after :=
  List.filterMap_append

/-- A match that leaves the input where it was. -/
def Stalls (c : Call) : Prop := ∃ rest x, c.outcome = .done rest x ∧ rest.offset = c.offset

/-- If it is a match, it moves the input forward. -/
def Moves (c : Call) : Prop := ∀ rest x, c.outcome = .done rest x → c.offset < rest.offset

theorem Moves.not_stalls {c : Call} (h : c.Moves) : ¬ c.Stalls := by
  rintro ⟨rest, x, hdone, hstall⟩
  exact absurd hstall (Nat.ne_of_gt (h rest x hdone))

end Call

/-! ### Logs of runs -/

variable {defs : Definitions} {α β : Type}

/-- Every run that starts with a sound cache leaves one, makes calls and comes to a result that belong together. -/
def Run.Logs (defs : Definitions) (Q : List Call → Except Fault α → Prop) (x : Run α) : Prop :=
  ∀ cache e, Cache.Sound defs cache → x .visit cache = some e →
    Cache.Sound defs e.cache ∧ Q (traced e.records) e.result

namespace Run.Logs
variable {P : List Call → Except Fault α → Prop} {Q : List Call → Except Fault β → Prop}

theorem exhausted : Run.exhausted.Logs defs P := fun _ _ _ he => nomatch he

theorem pure {a : α} (h : P [] (.ok a)) : (pure a : Run α).Logs defs P := by
  rintro cache _ hcache ⟨⟩
  exact ⟨hcache, h⟩

theorem raise {fault : Fault} (h : P [] (.error fault)) : (Run.raise fault : Run α).Logs defs P := by
  rintro cache _ hcache ⟨⟩
  exact ⟨hcache, h⟩

theorem mono {P' : List Call → Except Fault α → Prop} {x : Run α} (hx : x.Logs defs P)
    (h : ∀ calls r, P calls r → P' calls r) : x.Logs defs P' := by
  intro cache e hcache he
  obtain ⟨hcache', hP⟩ := hx cache e hcache he
  exact ⟨hcache', h _ _ hP⟩

theorem bind {x : Run α} {f : α → Run β} (hx : x.Logs defs P)
    (hfault : ∀ calls fault, P calls (.error fault) → Q calls (.error fault))
    (hf : ∀ calls a, P calls (.ok a) → (f a).Logs defs fun after r => Q (calls ++ after) r) :
    (x >>= f).Logs defs Q := by
  intro cache e hcache he
  rcases hxc : x .visit cache with _ | ⟨fault | a, cache', records⟩
  · rw [bind_of_none _ _ f hxc] at he
    cases he
  · rw [bind_of_error _ _ f hxc] at he
    cases he
    obtain ⟨hcache', hP⟩ := hx cache _ hcache hxc
    exact ⟨hcache', hfault _ _ hP⟩
  · rw [bind_of_ok _ _ f hxc] at he
    obtain ⟨e', he', rfl⟩ := Option.map_eq_some_iff.1 he
    obtain ⟨hcache', hP⟩ := hx cache _ hcache hxc
    obtain ⟨hcache'', hQ⟩ := hf _ a hP cache' e' hcache' he'
    exact ⟨hcache'', by rw [traced_append]; exact hQ⟩

theorem map {x : Run α} {f : α → β} (hx : x.Logs defs fun calls r => Q calls (r.map f)) :
    (f <$> x).Logs defs Q := by
  rw [map_eq_pure_bind]
  refine hx.bind (fun calls fault hQ => hQ) fun calls a hQ => pure ?_
  rw [List.append_nil]
  exact hQ

/-- To go on after a run that comes to an outcome. -/
theorem after {E : List Call → Outcome α → Prop} {x : Run (Outcome α)} {f : Outcome α → Run β}
    (hx : x.Logs defs fun calls r => ∃ o, r = .ok o ∧ E calls o)
    (hf : ∀ calls o, E calls o → (f o).Logs defs fun after r => Q (calls ++ after) r) : (x >>= f).Logs defs Q := by
  refine hx.bind (fun calls fault h => ?_) fun calls o h => ?_
  · obtain ⟨o, ho, -⟩ := h
    cases ho
  · obtain ⟨_, ⟨⟩, ho⟩ := h
    exact hf calls o ho

theorem progress {word : String} {before after : View} {f : Unit → Run β}
    (hstall : after.offset = before.offset → Q [] (.error (.stalled word before.start)))
    (hf : after.offset ≠ before.offset → (f ()).Logs defs Q) :
    (Parser.ensureProgress word before after >>= f).Logs defs Q := by
  unfold Parser.ensureProgress
  split
  · next h =>
    rw [run_bind_assoc]
    intro cache e hcache he
    rw [emit_bind_apply] at he
    cases he
    exact ⟨hcache, hstall h⟩
  · next h =>
    rw [run_pure_bind]
    exact hf h

/-- To go on after a caller's function. -/
theorem call {r : Except Raised α} {f : α → Run β} (herror : ∀ e, r = .error e → Q [] (.error (.raised e)))
    (hf : ∀ a, r = .ok a → (f a).Logs defs Q) : ((liftM r : Run α) >>= f).Logs defs Q := by
  cases r with
  | error e =>
    rintro cache _ hcache ⟨⟩
    exact ⟨hcache, herror e rfl⟩
  | ok a =>
    have hpure : ((liftM (.ok a : Except Raised α) : Run α) >>= f) = f a := run_pure_bind a f
    rw [hpure]
    exact hf a rfl

end Run.Logs

/-! ### Grammars without traces -/

theorem Event.call?_of_channel {event : Event} (h : event.channel ≠ .runner) : event.call? = none := by
  cases event with
  | traced => exact absurd rfl h
  | _ => rfl

theorem Run.Logs.body {Q : List Call → Except Fault α → Prop} {name : String} {key : Key} {f : Grammar → Run α}
    (herror : ∀ fault, Q [] (.error fault)) (hf : ∀ g, defs key = .ok g → (f g).Logs defs Q) :
    (Run.body defs name key >>= f).Logs defs Q := by
  have hbody : (Run.body defs name key).Logs defs fun calls r => calls = [] ∧ r = defs key := by
    intro cache e hcache he
    obtain ⟨e', he', hresult, hcache'⟩ := body_eq hcache name key .visit
    rw [he] at he'
    cases he'
    refine ⟨hcache', List.filterMap_eq_nil_iff.2 fun ev hev => Event.call?_of_channel ?_, hresult⟩
    rw [body_records he ev hev]
    exact nofun
  refine .bind hbody ?_ ?_
  · rintro _ fault ⟨rfl, -⟩
    exact herror fault
  · rintro _ g ⟨rfl, hg⟩
    exact hf g hg.symm

/-- Runs that make no calls of traced grammars. -/
def Conduct.quiet (defs : Definitions) : Conduct defs where
  Holds x := x.Logs defs fun calls _ => calls = []
  exhausted := .exhausted
  done := .pure rfl
  failed := .pure rfl
  raise _ := .raise rfl
  stall := by
    intro α word position cache e hcache he
    rw [Run.emit_bind_apply] at he
    cases he
    exact ⟨hcache, rfl⟩
  bind := by
    intro α β x f hx hdone hfailed hincomplete
    refine .bind hx (fun _ _ h => h) ?_
    rintro _ o rfl
    rcases o with ⟨rest, a⟩ | c | n
    · exact hdone rest a
    · exact hfailed c
    · rw [hincomplete]
      exact .pure rfl
  body hf := .body (fun _ => rfl) hf

theorem Conduct.quiet_leaf (g : Grammar) : (quiet defs).Leaf g := by
  have hleaf : ∀ run, (quiet defs).Keeps (Parser.leaf run) := by
    intro run v cache e hcache he
    unfold Parser.leaf at he
    rw [Run.emit_bind_apply] at he
    cases he
    exact ⟨hcache, rfl⟩
  cases g with
  | primitive p => exact hleaf _
  | custom name run => exact hleaf _
  | _ => trivial

namespace Grammar
variable {g : Grammar} {label : String} {v : View} {r : Except Fault (Outcome Value)}

theorem untraced_quiet (defs : Definitions) (g : Grammar) (n : Nat) :
    (Conduct.quiet defs.untraced).Keeps (g.untraced.parse defs.untraced n) :=
  parse_untraced Conduct.quiet_leaf g n

theorem untraced_similar (g : Grammar) : (Similarity.identity False False).Grammars g g.untraced :=
  (strip_similar (fun _ => observes_isTrace) id g).1

/-- A grammar similar to `g`, but for its own traces, yields the same without the traces of deferred grammars. -/
theorem Yields.untraced {h : Grammar} (hgh : (Similarity.identity False False).Grammars g h) (hr : g.Yields defs v r) :
    h.Yields defs.untraced v r := by
  have hdefs : ∀ key, Correspond (Similarity.identity False False).Faults (Similarity.identity False False).Grammars
      (defs key) (defs.untraced key) := by
    intro key
    unfold Definitions.untraced
    cases defs key with
    | error f => exact .error (.same trivial)
    | ok body => exact .ok (untraced_similar body)
  obtain ⟨_, -, hsilent, -⟩ | ⟨r', hr', hcorr⟩ := hr.similar hdefs hgh rfl
  · exact hsilent.elim
  · rwa [Similarity.eq_of_correspond hcorr]

/-! ### Traces around grammars -/

/-- A grammar without traces, with one around it, logs one call each time that it is run. -/
theorem trace_logs {o : Outcome Value} (ho : g.untraced.Yields defs.untraced v (.ok o)) (label : String) (n : Nat) :
    ((g.untraced.trace label).parse defs.untraced n v).Logs defs.untraced fun calls r =>
      r = .ok o ∧ calls = [⟨label, v.offset, o⟩] := by
  cases n with
  | zero => exact .exhausted
  | succ n =>
    rw [trace, parse_adapted]
    have hchild : (g.untraced.parse defs.untraced (n + 1) v).Logs defs.untraced fun calls r =>
        r = .ok o ∧ calls = [] := by
      intro cache e hcache he
      obtain ⟨hcache', hquiet⟩ := untraced_quiet defs g (n + 1) v cache e hcache he
      exact ⟨hcache', (Yields.of_quiet rfl hcache he).unique ho, hquiet⟩
    refine hchild.bind (fun calls fault h => nomatch h.1) ?_
    rintro _ _ ⟨⟨⟩, rfl⟩
    intro cache e hcache he
    rw [Run.bind_of_ok _ _ _ (Run.report_apply_quiet rfl)] at he
    cases he
    exact ⟨hcache, rfl, rfl⟩

/-- On `v` and on what is left of it the grammar comes to an outcome, and a match leaves a suffix. -/
def Returns (defs : Definitions) (g : Grammar) (v : View) : Prop :=
  ∀ w, w.SuffixOf v → ∃ o, g.Yields defs w (.ok o) ∧ ∀ rest x, o = .done rest x → rest.SuffixOf w

theorem Returns.suffix {w : View} (hg : g.Returns defs v) (hw : w.SuffixOf v) : g.Returns defs w :=
  fun u hu => hg u (hw.trans hu)

end Grammar

/-- One call with the label, at the start of `w`, that came to `o`, and no call with another of the labels. -/
structure Call.Single (label : String) (others : List String) (w : View) (calls : List Call) (o : Outcome Value) :
    Prop where
  made : only label calls = [⟨label, w.offset, o⟩]
  silent : ∀ other ∈ others, only other calls = []
  suffix : ∀ rest x, o = .done rest x → rest.SuffixOf w

namespace Call.Single
variable {label : String} {others : List String} {w : View} {calls : List Call} {o : Outcome Value}

theorem length_only (h : Single label others w calls o) : (only label calls).length = 1 := by
  rw [h.made, List.length_singleton]

theorem outputs_only {rest : View} {x : Value} (h : Single label others w calls (.done rest x)) :
    outputs (only label calls) = [x] := by
  rw [h.made]
  rfl

theorem moves (h : Single label others w calls o) (ho : ∀ rest x, o = .done rest x → rest.offset ≠ w.offset) :
    ∀ c ∈ only label calls, c.Moves := by
  intro c hc
  rw [h.made, List.mem_singleton] at hc
  subst hc
  intro rest x hdone
  exact Nat.lt_of_le_of_ne (h.suffix rest x hdone).offset_le (ho rest x hdone).symm

theorem stalls {rest : View} {x : Value} (h : Single label others w calls (.done rest x))
    (hstall : rest.offset = w.offset) : ∃ c ∈ only label calls, c.Stalls := by
  refine ⟨_, by rw [h.made]; exact .head _, rest, x, rfl, hstall⟩

end Call.Single

theorem Grammar.Returns.logs {g : Grammar} {label : String} {others : List String} {v w : View}
    (hg : g.Returns defs v) (hothers : ∀ other ∈ others, other ≠ label) (hw : w.SuffixOf v) (n : Nat) :
    ((g.untraced.trace label).parse defs.untraced n w).Logs defs.untraced fun calls r =>
      ∃ o, r = .ok o ∧ Call.Single label others w calls o := by
  obtain ⟨o, ho, hsuffix⟩ := hg w hw
  refine (trace_logs (ho.untraced (untraced_similar g)) label n).mono ?_
  rintro _ _ ⟨rfl, rfl⟩
  refine ⟨o, rfl, by simp [Call.only], fun other hother => ?_, hsuffix⟩
  simp [Call.only, (hothers other hother).symm]

end StreamGrammar
