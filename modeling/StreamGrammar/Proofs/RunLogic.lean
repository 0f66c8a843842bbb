import StreamGrammar.Grammar.Parse

/-! # Rules for runs

`Run.Meets` says what one run ends with, `Run.Follows` what a second run ends with when the first has
ended. Both are about results and caches only. There is one rule for each way to put a run together.

The threshold of the log matters to a result in one place: where the outcomes in traces are written out, that
may raise. `Run.Meets` is about the thresholds at which nothing is written out, and `Run.Follows` about given
pairs of thresholds. What is left of a run when it is cut short is said in `StreamGrammar.Proofs.Screening`. -/

namespace StreamGrammar

/-- The cache holds what the definitions build, and nothing else. -/
def Cache.Sound (defs : Definitions) (cache : Cache) : Prop :=
  ∀ key g, cache.lookup key = some g → defs key = .ok g

theorem Cache.sound_nil (defs : Definitions) : Cache.Sound defs [] := by
  intro key g h
  simp at h

theorem Cache.Sound.cons {defs : Definitions} {cache : Cache} {key : Key} {g : Grammar}
    (h : Cache.Sound defs cache) (hg : defs key = .ok g) : Cache.Sound defs ((key, g) :: cache) := by
  intro key' g' hlookup
  rw [List.lookup_cons] at hlookup
  split at hlookup
  · next heq =>
    cases hlookup
    rw [beq_iff_eq.1 heq]
    exact hg
  · exact h key' g' hlookup

/-- The fault of a repetition that makes no progress. -/
def Fault.isStall : Fault → Bool
  | stalled _ _ => true
  | _ => false

/-! ### Results -/

/-- Results that correspond: errors by `F`, values by `R`. -/
inductive Correspond {ε δ α β : Type} (F : ε → δ → Prop) (R : α → β → Prop) :
    Except ε α → Except δ β → Prop
  | error {e : ε} {d : δ} : F e d → Correspond F R (.error e) (.error d)
  | ok {a : α} {b : β} : R a b → Correspond F R (.ok a) (.ok b)

theorem Correspond.mono {ε δ α β : Type} {F F' : ε → δ → Prop} {R R' : α → β → Prop}
    (hF : ∀ e d, F e d → F' e d) (hR : ∀ a b, R a b → R' a b) {r : Except ε α} {r' : Except δ β}
    (h : Correspond F R r r') : Correspond F' R' r r' := by
  cases h with
  | error hf => exact .error (hF _ _ hf)
  | ok hab => exact .ok (hR _ _ hab)

theorem Correspond.eq {ε α : Type} {r r' : Except ε α} (h : Correspond (· = ·) (· = ·) r r') : r = r' := by
  cases h with
  | error he => rw [he]
  | ok ha => rw [ha]

theorem Correspond.refl {ε α : Type} (r : Except ε α) : Correspond (· = ·) (· = ·) r r := by
  cases r with
  | error e => exact .error rfl
  | ok a => exact .ok rfl

theorem Correspond.bind {ε δ α β α' β' : Type} {F : ε → δ → Prop} {R : α → β → Prop}
    {R' : α' → β' → Prop} {r : Except ε α} {r' : Except δ β} {f : α → Except ε α'} {g : β → Except δ β'}
    (h : Correspond F R r r') (hfg : ∀ a b, R a b → Correspond F R' (f a) (g b)) :
    Correspond F R' (r >>= f) (r' >>= g) := by
  cases h with
  | error he => exact .error he
  | ok hab => exact hfg _ _ hab

/-! ### Records and the cache -/

/-- The records that the threshold lets pass. -/
def Level.keep (threshold : Level) (records : List Event) : List Event :=
  records.filter fun ev => threshold.admits ev.level

@[simp] theorem Level.keep_append (threshold : Level) (before after : List Event) :
    threshold.keep (before ++ after) = threshold.keep before ++ threshold.keep after :=
  List.filter_append before after

theorem Level.mem_keep {threshold : Level} {records : List Event} {ev : Event}
    (h : ev ∈ threshold.keep records) : ev ∈ records :=
  (List.mem_filter.1 h).1

/-! ### Records written out -/

theorem Level.writes_iff {threshold : Level} : threshold.writes = true ↔ threshold = .debug := beq_iff_eq

/-- Both thresholds write traced outcomes out, or neither does. -/
def Level.Alike (s t : Level) : Prop := s.writes = t.writes

/-- What is raised when the outcome is put into words, if that raises. -/
def Outcome.unwritten? (o : Outcome Value) : Option Raised :=
  match o.summary with
  | .ok _ => none
  | .error error => some error

theorem Outcome.unwritten?_done (rest : View) (x : Value) :
    (done rest x).unwritten? = if x.isWritable then none else some (.mishap .tooManyDigits) := by
  rw [unwritten?, summary, Value.written]
  cases x.isWritable <;> rfl

namespace Run

theorem emit_apply (event : Event) (threshold : Level) (cache : Cache) :
    Run.emit event threshold cache = some ⟨.ok (), cache, threshold.keep [event]⟩ := by
  simp [emit, Level.keep, List.filter_cons]

/-- What a run makes after a record. -/
theorem emit_bind_apply {α : Type} (event : Event) (f : Unit → Run α) (threshold : Level) (cache : Cache) :
    (Run.emit event >>= f) threshold cache =
      (f () threshold cache).map fun e => { e with records := threshold.keep [event] ++ e.records } :=
  bind_of_ok threshold cache f (emit_apply event threshold cache)

section Report
variable {label : String} {offset : Nat} {o : Outcome Value} {threshold : Level} {cache : Cache}

/-- A report that raises nothing makes its record. -/
theorem report_apply (h : threshold.writes = true → o.unwritten? = none) :
    Run.report label offset o threshold cache =
      some ⟨.ok (), cache, threshold.keep [.traced label offset o]⟩ := by
  rw [report]
  split
  · next ht =>
    have hnone := h ht
    rw [Outcome.unwritten?] at hnone
    cases hsummary : o.summary with
    | ok text => exact emit_apply _ _ _
    | error error =>
      rw [hsummary] at hnone
      cases hnone
  · exact emit_apply _ _ _

theorem report_apply_quiet (h : threshold.writes = false) :
    Run.report label offset o threshold cache =
      some ⟨.ok (), cache, threshold.keep [.traced label offset o]⟩ := by
  rw [report_apply fun ht => ?_]
  rw [h] at ht
  cases ht

/-- A report that raises makes no record. -/
theorem report_apply_error {error : Raised} (ht : threshold.writes = true) (h : o.unwritten? = some error) :
    Run.report label offset o threshold cache = some ⟨.error (.unwritten error), cache, []⟩ := by
  rw [report, if_pos ht]
  rw [Outcome.unwritten?] at h
  cases hsummary : o.summary with
  | ok text =>
    rw [hsummary] at h
    cases h
  | error error' =>
    rw [hsummary] at h
    cases h
    rfl

/-- A report makes its record, or raises what writing it out raises. -/
theorem report_cases {e : Ended Unit} (h : Run.report label offset o threshold cache = some e) :
    e = ⟨.ok (), cache, threshold.keep [.traced label offset o]⟩ ∨
      ∃ error, e = ⟨.error (.unwritten error), cache, []⟩ := by
  by_cases hkept : threshold.writes = true → o.unwritten? = none
  · rw [report_apply hkept] at h
    exact .inl (Option.some.inj h).symm
  · obtain ⟨hwrites, hraises⟩ := Classical.not_imp.1 hkept
    obtain ⟨error, herror⟩ := Option.ne_none_iff_exists'.1 hraises
    rw [report_apply_error hwrites herror] at h
    exact .inr ⟨error, (Option.some.inj h).symm⟩

end Report

section Body
variable {defs : Definitions} {name : String} {key : Key} {g : Grammar} {threshold : Level} {cache : Cache}

theorem body_of_built (h : cache.lookup key = some g) :
    Run.body defs name key threshold cache = some ⟨.ok g, cache, threshold.keep [.reached key none]⟩ := by
  rw [body, h]
  dsimp only
  rw [emit_bind_apply]
  simp

theorem body_of_error {fault : Fault} (h : cache.lookup key = none) (hdefs : defs key = .error fault) :
    Run.body defs name key threshold cache =
      some ⟨.error fault, cache, threshold.keep [.reached key (some (.error fault))]⟩ := by
  rw [body, h, hdefs]
  dsimp only
  rw [emit_bind_apply]
  simp

theorem body_of_ok (h : cache.lookup key = none) (hdefs : defs key = .ok g) :
    Run.body defs name key threshold cache = some ⟨.ok g, (key, g) :: cache,
      threshold.keep [.reached key (some (.ok ())), .built key name g.shown]⟩ := by
  have hkeep := threshold.keep_append [.reached key (some (.ok ()))] [.built key name g.shown]
  rw [List.singleton_append] at hkeep
  rw [body, h, hdefs, hkeep]
  dsimp only
  rw [emit_bind_apply, emit_bind_apply]
  simp

/-- With a sound cache, asking for a deferred grammar gives what its definition builds. -/
theorem body_eq (h : Cache.Sound defs cache) (name : String) (key : Key) (threshold : Level) :
    ∃ e, Run.body defs name key threshold cache = some e ∧ e.result = defs key ∧
      Cache.Sound defs e.cache := by
  cases hlookup : cache.lookup key with
  | some g => exact ⟨_, body_of_built hlookup, (h key g hlookup).symm, h⟩
  | none =>
    cases hdefs : defs key with
    | error fault => exact ⟨_, body_of_error hlookup hdefs, rfl, h⟩
    | ok g => exact ⟨_, body_of_ok hlookup hdefs, rfl, h.cons hdefs⟩

/-- All that asking for a deferred grammar can come to. -/
theorem body_cases {e : Ended Grammar} (h : Run.body defs name key threshold cache = some e) :
    (∃ g, cache.lookup key = some g ∧ e = ⟨.ok g, cache, threshold.keep [.reached key none]⟩) ∨
    (∃ fault, cache.lookup key = none ∧ defs key = .error fault ∧
      e = ⟨.error fault, cache, threshold.keep [.reached key (some (.error fault))]⟩) ∨
    ∃ g, cache.lookup key = none ∧ defs key = .ok g ∧ e = ⟨.ok g, (key, g) :: cache,
      threshold.keep [.reached key (some (.ok ())), .built key name g.shown]⟩ := by
  cases hlookup : cache.lookup key with
  | some g =>
    rw [body_of_built hlookup] at h
    exact .inl ⟨g, rfl, (Option.some.inj h).symm⟩
  | none =>
    cases hdefs : defs key with
    | error fault =>
      rw [body_of_error hlookup hdefs] at h
      exact .inr (.inl ⟨fault, rfl, rfl, (Option.some.inj h).symm⟩)
    | ok g =>
      rw [body_of_ok hlookup hdefs] at h
      exact .inr (.inr ⟨g, rfl, rfl, (Option.some.inj h).symm⟩)

theorem body_records {e : Ended Grammar} (h : Run.body defs name key threshold cache = some e) :
    ∀ ev ∈ e.records, ev.channel = .deferral := by
  intro ev hev
  obtain ⟨g, -, rfl⟩ | ⟨fault, -, -, rfl⟩ | ⟨g, -, -, rfl⟩ := body_cases h
  · rw [List.mem_singleton.1 (Level.mem_keep hev), Event.channel]
  · rw [List.mem_singleton.1 (Level.mem_keep hev), Event.channel]
  · rcases List.mem_cons.1 (Level.mem_keep hev) with rfl | hev
    · rfl
    · rw [List.mem_singleton.1 hev, Event.channel]

end Body

/-! ### One run -/

section One
variable {α β : Type} {limit : Prop} {I : Cache → Prop} {F F' : Fault → Prop} {P Q : α → Prop}

/-- An end with a value in `Q` or a fault in `F` and a cache in `I`; there may be none if `limit` holds. -/
def Admits (limit : Prop) (I : Cache → Prop) (F : Fault → Prop) (Q : α → Prop) :
    Option (Ended α) → Prop
  | none => limit
  | some ⟨.ok a, cache, _⟩ => I cache ∧ Q a
  | some ⟨.error fault, cache, _⟩ => I cache ∧ F fault

/-- Started with a cache in `I`, the run ends with a value in `Q` or a fault in `F` and leaves a cache
in `I`, where no records are written out. It need not end if `limit` holds. -/
def Meets (limit : Prop) (I : Cache → Prop) (F : Fault → Prop) (Q : α → Prop) (x : Run α) : Prop :=
  ∀ threshold cache, threshold.writes = false → I cache → Admits limit I F Q (x threshold cache)

theorem Admits.ended {o : Option (Ended α)} (h : Admits False I F Q o) :
    ∃ e, o = some e ∧ ∀ fault, e.result = .error fault → F fault := by
  rcases o with _ | ⟨_ | a, cache, records⟩
  · exact h.elim
  · refine ⟨_, rfl, fun fault hf => ?_⟩
    cases hf
    exact h.2
  · exact ⟨_, rfl, fun fault hf => nomatch hf⟩

namespace Meets

theorem mono {x : Run α} (hF : ∀ f, F f → F' f) (hQ : ∀ a, P a → Q a)
    (h : Meets limit I F P x) : Meets limit I F' Q x := by
  intro t c ht hc
  have hx := h t c ht hc
  rcases hxc : x t c with _ | ⟨_ | a, c', r⟩ <;> rw [hxc] at hx
  · exact hx
  · exact ⟨hx.1, hF _ hx.2⟩
  · exact ⟨hx.1, hQ a hx.2⟩

theorem exhausted (h : limit) : Meets limit I F Q Run.exhausted := fun _ _ _ _ => h

theorem pure {a : α} (h : Q a) : Meets limit I F Q (pure a) := fun _ _ _ hc => ⟨hc, h⟩

theorem raise {fault : Fault} (h : F fault) : Meets limit I F Q (Run.raise fault) :=
  fun _ _ _ hc => ⟨hc, h⟩

/-- The result of a caller's function. -/
theorem call {r : Except Raised α} (hok : ∀ a, r = .ok a → Q a)
    (herror : ∀ e, r = .error e → F (.raised e)) : Meets limit I F Q (liftM r : Run α) := by
  cases r with
  | ok a => exact pure (hok a rfl)
  | error e => exact raise (herror e rfl)

theorem emit {event : Event} : Meets limit I F (fun _ => True) (Run.emit event) :=
  fun _ _ _ hc => ⟨hc, trivial⟩

theorem report {label : String} {offset : Nat} {o : Outcome Value} :
    Meets limit I F (fun _ => True) (Run.report label offset o) := by
  intro t c ht hc
  rw [report_apply_quiet ht]
  exact ⟨hc, trivial⟩

theorem bind {Q : β → Prop} {x : Run α} {f : α → Run β} (hx : Meets limit I F P x)
    (hf : ∀ a, P a → Meets limit I F Q (f a)) : Meets limit I F Q (x >>= f) := by
  intro t c ht hc
  have h := hx t c ht hc
  rcases hxc : x t c with _ | ⟨_ | a, c', r⟩ <;> rw [hxc] at h
  · rw [bind_of_none t c f hxc]
    exact h
  · rw [bind_of_error t c f hxc]
    exact h
  · have h' := hf a h.2 t c' ht h.1
    rw [bind_of_ok t c f hxc]
    rcases hfc : f a t c' with _ | ⟨_ | b, c'', r'⟩ <;> rw [hfc] at h' <;> exact h'

theorem body {defs : Definitions} {name : String} {key : Key}
    (h : ∀ fault, defs key = .error fault → F fault) :
    Meets limit (Cache.Sound defs) F (fun g => defs key = .ok g) (Run.body defs name key) := by
  intro t c _ hc
  obtain ⟨⟨r, c', es⟩, he, hr, hc'⟩ := body_eq hc name key t
  rw [he]
  cases r with
  | error fault => exact ⟨hc', h fault hr.symm⟩
  | ok g => exact ⟨hc', hr.symm⟩

theorem map {Q : β → Prop} {f : α → β} {x : Run α} (hx : Meets limit I F (fun a => Q (f a)) x) :
    Meets limit I F Q (f <$> x) := by
  rw [map_eq_pure_bind]
  exact hx.bind fun a ha => pure ha

end Meets

end One

/-! ### Two runs -/

section Two
variable {α β γ δ : Type} {T : Level → Level → Prop} {I J : Cache → Prop} {F : Fault → Fault → Prop}
  {E : α → Prop} {R : α → β → Prop}

/-- A run that settles nothing where it is the first of two that are compared at thresholds in `T`: if it ends, then
with a value in `E`. -/
def Idle (T : Level → Level → Prop) (I : Cache → Prop) (E : α → Prop) (x : Run α) : Prop :=
  ∀ s t c, T s t → I c → Admits True I (fun _ => False) E (x s c)

theorem Idle.pure {a : α} (h : E a) : Idle T I E (pure a) := fun _ _ _ _ hc => ⟨hc, h⟩

theorem Idle.of_meets {x : Run α} (hT : ∀ s t, T s t → s.writes = false)
    (h : Meets True I (fun _ => False) E x) : Idle T I E x :=
  fun s t c hst hc => h s c (hT s t hst) hc

/-- Started with caches in `I` and `J` and at thresholds in `T`: when `x` ends, it either settles nothing, with
a value in `E`, or `y` ends too and the two results correspond. -/
def Follows (T : Level → Level → Prop) (I J : Cache → Prop) (F : Fault → Fault → Prop) (E : α → Prop)
    (R : α → β → Prop) (x : Run α) (y : Run β) : Prop :=
  ∀ s t c d e, T s t → I c → J d → x s c = some e → I e.cache ∧
    ((∃ a, e.result = .ok a ∧ E a) ∨
      ∃ e', y t d = some e' ∧ J e'.cache ∧ Correspond F R e.result e'.result)

namespace Follows

theorem exhausted {y : Run β} : Follows T I J F E R Run.exhausted y :=
  fun _ _ _ _ _ _ _ _ h => nomatch h

theorem ofExcept {r : Except Fault α} {r' : Except Fault β} (h : Correspond F R r r') :
    Follows T I J F E R (Run.ofExcept r) (Run.ofExcept r') := by
  rintro s t c d e hst hc hd ⟨⟩
  exact ⟨hc, .inr ⟨_, rfl, hd, h⟩⟩

theorem pure {a : α} {b : β} (h : R a b) : Follows T I J F E R (pure a) (pure b) := ofExcept (.ok h)

theorem raise {f g : Fault} (h : F f g) :
    Follows T I J F E R (Run.raise f : Run α) (Run.raise g : Run β) := ofExcept (.error h)

theorem emit {E : Unit → Prop} {event event' : Event} :
    Follows T I J F E (fun _ _ => True) (Run.emit event) (Run.emit event') := by
  rintro s t c d e hst hc hd ⟨⟩
  exact ⟨hc, .inr ⟨_, rfl, hd, .ok trivial⟩⟩

theorem emit_left {event : Event} {f : Unit → Run α} {y : Run β} (h : Follows T I J F E R (f ()) y) :
    Follows T I J F E R (Run.emit event >>= f) y := by
  intro s t c d e hst hc hd he
  rw [emit_bind_apply] at he
  obtain ⟨e', he', rfl⟩ := Option.map_eq_some_iff.1 he
  exact h s t c d e' hst hc hd he'

theorem emit_right {event : Event} {x : Run α} {g : Unit → Run β} (h : Follows T I J F E R x (g ())) :
    Follows T I J F E R x (Run.emit event >>= g) := by
  intro s t c d e hst hc hd he
  obtain ⟨hc', hsettled⟩ := h s t c d e hst hc hd he
  refine ⟨hc', hsettled.imp_right ?_⟩
  rintro ⟨e', hg, hd', hr⟩
  exact ⟨{ e' with records := t.keep [event] ++ e'.records }, by rw [emit_bind_apply, hg]; rfl, hd', hr⟩

/-- The results of two callers' functions. -/
theorem call {G : Raised → Raised → Prop} {r : Except Raised α} {r' : Except Raised β}
    (h : Correspond G R r r') (hG : ∀ e e', G e e' → F (.raised e) (.raised e')) :
    Follows T I J F E R (liftM r : Run α) (liftM r' : Run β) := by
  cases h with
  | error he => exact raise (hG _ _ he)
  | ok hab => exact pure hab

theorem body {defs defs' : Definitions} {E : Grammar → Prop} {R : Grammar → Grammar → Prop} {key : Key}
    {name name' : String} (h : Correspond F R (defs key) (defs' key)) :
    Follows T (Cache.Sound defs) (Cache.Sound defs') F E R (Run.body defs name key)
      (Run.body defs' name' key) := by
  intro s t c d e hst hc hd he
  obtain ⟨e₁, he₁, hr₁, hc₁⟩ := body_eq hc name key s
  obtain ⟨e₂, he₂, hr₂, hd₂⟩ := body_eq hd name' key t
  rw [he] at he₁
  cases he₁
  refine ⟨hc₁, .inr ⟨e₂, he₂, hd₂, ?_⟩⟩
  rw [hr₁, hr₂]
  exact h

/-- A first run that settles nothing is followed by any run. -/
theorem of_idle {x : Run α} {y : Run β} (h : Idle T I E x) : Follows T I J F E R x y := by
  intro s t c d e hst hc hd hx
  have hxc := h s t c hst hc
  rw [hx] at hxc
  rcases e with ⟨_ | a, c', r⟩
  · exact hxc.2.elim
  · exact ⟨hxc.1, .inl ⟨a, rfl, hxc.2⟩⟩

theorem bind {E' : γ → Prop} {R' : γ → δ → Prop} {x : Run α} {y : Run β} {f : α → Run γ}
    {g : β → Run δ} (hx : Follows T I J F E R x y) (hE : ∀ a, E a → Idle T I E' (f a))
    (hR : ∀ a b, R a b → Follows T I J F E' R' (f a) (g b)) :
    Follows T I J F E' R' (x >>= f) (y >>= g) := by
  intro s t c d e hst hc hd he
  rw [bind_apply] at he
  rcases hxc : x s c with _ | ⟨_ | a, c', r⟩ <;> rw [hxc] at he
  · cases he
  · -- the first part of `x` ended in a fault, and so did that of `y`
    cases he
    obtain ⟨hc', ⟨a, ha, -⟩ | ⟨⟨_, d', r'⟩, hy, hd', hr⟩⟩ := hx s t c d _ hst hc hd hxc
    · cases ha
    · rcases hr with hf | _
      exact ⟨hc', .inr ⟨_, bind_of_error t d g hy, hd', .error hf⟩⟩
  · rcases hfc : f a s c' with _ | e₂ <;> simp only [hfc] at he
    · cases he
    · cases he
      obtain ⟨hc', ⟨a', ha, hEa⟩ | ⟨⟨_, d', r'⟩, hy, hd', hr⟩⟩ := hx s t c d _ hst hc hd hxc
      · cases ha
        exact of_idle (hE a hEa) (y := y >>= g) s t c' d e₂ hst hc' hd hfc
      · rcases hr with _ | hab
        obtain ⟨hc₂, h⟩ := hR _ _ hab s t c' d' e₂ hst hc' hd' hfc
        refine ⟨hc₂, h.imp_right ?_⟩
        rintro ⟨e', hg, hd₂, hr⟩
        exact ⟨{ e' with records := r' ++ e'.records }, by rw [bind_of_ok t d g hy, hg]; rfl, hd₂, hr⟩

theorem map {E' : γ → Prop} {R' : γ → δ → Prop} {x : Run α} {y : Run β} {f : α → γ} {g : β → δ}
    (hx : Follows T I J F E R x y) (hE : ∀ a, E a → E' (f a)) (hR : ∀ a b, R a b → R' (f a) (g b)) :
    Follows T I J F E' R' (f <$> x) (g <$> y) := by
  rw [map_eq_pure_bind, map_eq_pure_bind]
  exact hx.bind (fun a ha => .pure (hE a ha)) fun a b hab => pure (hR a b hab)

/-! #### Reports -/

section Report
variable {label label' : String} {offset offset' : Nat} {o o' : Outcome Value}

/-- Reports of outcomes that are written out alike, wherever they are written out. -/
theorem report {E : Unit → Prop} (hT : ∀ s t, T s t → s.Alike t ∧ (s.writes = true → o.unwritten? = o'.unwritten?))
    (hF : ∀ error, F (.unwritten error) (.unwritten error)) :
    Follows T I J F E (fun _ _ => True) (Run.report label offset o) (Run.report label' offset' o') := by
  intro s t c d e hst hc hd he
  obtain ⟨halike, hsame⟩ := hT s t hst
  cases hs : s.writes with
  | false =>
    rw [report_apply_quiet hs] at he
    cases he
    exact ⟨hc, .inr ⟨_, report_apply_quiet (halike ▸ hs), hd, .ok trivial⟩⟩
  | true =>
    have ht : t.writes = true := halike ▸ hs
    cases hunwritten : o.unwritten? with
    | none =>
      rw [report_apply fun _ => hunwritten] at he
      cases he
      exact ⟨hc, .inr ⟨_, report_apply fun _ => hsame hs ▸ hunwritten, hd, .ok trivial⟩⟩
    | some error =>
      rw [report_apply_error hs hunwritten] at he
      cases he
      exact ⟨hc, .inr ⟨_, report_apply_error ht (hsame hs ▸ hunwritten), hd, .error (hF error)⟩⟩

theorem report_left {f : Unit → Run α} {y : Run β} (hT : ∀ s t, T s t → s.writes = false)
    (h : Follows T I J F E R (f ()) y) : Follows T I J F E R (Run.report label offset o >>= f) y := by
  intro s t c d e hst hc hd he
  rw [bind_of_ok s c f (report_apply_quiet (hT s t hst))] at he
  obtain ⟨e', he', rfl⟩ := Option.map_eq_some_iff.1 he
  exact h s t c d e' hst hc hd he'

theorem report_right {x : Run α} {g : Unit → Run β} (hT : ∀ s t, T s t → t.writes = false)
    (h : Follows T I J F E R x (g ())) : Follows T I J F E R x (Run.report label offset o >>= g) := by
  intro s t c d e hst hc hd he
  obtain ⟨hc', hsettled⟩ := h s t c d e hst hc hd he
  refine ⟨hc', hsettled.imp_right ?_⟩
  rintro ⟨e', hg, hd', hr⟩
  rw [bind_of_ok t d g (report_apply_quiet (hT s t hst)), hg, Option.map_some]
  exact ⟨_, rfl, hd', hr⟩

end Report

end Follows

/-- Started with caches in `I` and `J`, the runs end alike or not at all, at any two thresholds in `T`. -/
structure Agree (T : Level → Level → Prop) (I J : Cache → Prop) (x y : Run α) : Prop where
  left : Follows T I J (· = ·) (fun _ => False) (· = ·) x y
  right : Follows (flip T) J I (· = ·) (fun _ => False) (· = ·) y x

namespace Agree
variable {x y : Run α}

theorem bind {f g : α → Run γ} (h : Agree T I J x y) (hfg : ∀ a, Agree T I J (f a) (g a)) :
    Agree T I J (x >>= f) (y >>= g) := by
  refine ⟨h.left.bind (fun _ hE => hE.elim) ?_, h.right.bind (fun _ hE => hE.elim) ?_⟩
  · rintro a _ rfl
    exact (hfg a).left
  · rintro a _ rfl
    exact (hfg a).right

theorem ofExcept (r : Except Fault α) : Agree T I J (Run.ofExcept r) (Run.ofExcept r) :=
  ⟨.ofExcept (.refl r), .ofExcept (.refl r)⟩

theorem emit {event event' : Event} {f g : Unit → Run α} (h : Agree T I J (f ()) (g ())) :
    Agree T I J (Run.emit event >>= f) (Run.emit event' >>= g) :=
  ⟨.emit_left (.emit_right h.left), .emit_left (.emit_right h.right)⟩

/-- Both report the same outcome, at thresholds that treat traces alike. -/
theorem report {label label' : String} {offset offset' : Nat} {o : Outcome Value} {f g : Unit → Run α}
    (hT : ∀ s t, T s t → s.Alike t) (h : Agree T I J (f ()) (g ())) :
    Agree T I J (Run.report label offset o >>= f) (Run.report label' offset' o >>= g) := by
  refine ⟨?_, ?_⟩
  · exact Follows.bind (E := fun _ => False) (.report (fun s t hst => ⟨hT s t hst, fun _ => rfl⟩) fun _ => rfl)
      (fun _ hE => hE.elim) fun _ _ _ => h.left
  · exact Follows.bind (E := fun _ => False) (.report (fun s t hst => ⟨(hT t s hst).symm, fun _ => rfl⟩) fun _ => rfl)
      (fun _ hE => hE.elim) fun _ _ _ => h.right

theorem result_eq (h : Agree T I J x y) {s t : Level} {c d : Cache} (hst : T s t) (hc : I c) (hd : J d) :
    (x s c).map Ended.result = (y t d).map Ended.result := by
  have hresult : ∀ {T : Level → Level → Prop} {I J : Cache → Prop} {x y : Run α} {s t : Level} {c d : Cache}
      {e : Ended α}, Follows T I J (· = ·) (fun _ => False) (· = ·) x y → T s t → I c → J d →
        x s c = some e → (y t d).map Ended.result = some e.result := by
    intro T I J x y s t c d e hxy hst hc hd he
    obtain ⟨-, ⟨_, -, hE⟩ | ⟨e', he', -, hr⟩⟩ := hxy s t c d e hst hc hd he
    · exact hE.elim
    · rw [he', Option.map_some, hr.eq]
  cases hx : x s c with
  | some e => rw [hresult h.left hst hc hd hx, Option.map_some]
  | none =>
    cases hy : y t d with
    | none => rfl
    | some e =>
      have hnone := hresult h.right hst hd hc hy
      rw [hx] at hnone
      cases hnone

end Agree

end Two

end Run

end StreamGrammar
