import StreamGrammar.Grammar.Build
import StreamGrammar.Proofs.Discipline
import StreamGrammar.Proofs.Yields

/-! # What runs settle on

Neither the cache nor the threshold, apart from where traces are written out, has a part in the result of a parse. A
run of which this holds is `Steady`; parses are, and so is whatever combinators make of steady parsers
(`Discipline.steady`). What a steady run settles on is found part by part (`Run.settled_bind`), and a part that is
run twice settles on the same twice, so a law about combinators becomes an equation between results. -/

namespace StreamGrammar

variable {defs : Definitions} {α β : Type}

/-! ### Steady runs -/

/-- With a sound cache the run comes to one result, whatever the cache holds and the threshold keeps; where traces
are written out that may be another, but again only one. -/
def Run.Steady (defs : Definitions) (x : Run α) : Prop :=
  Run.Agree Level.Alike (Cache.Sound defs) (Cache.Sound defs) x x

theorem Run.Agree.body {T : Level → Level → Prop} {name : String} {key : Key} {f : Grammar → Run α}
    (hf : ∀ g, defs key = .ok g → Run.Agree T (Cache.Sound defs) (Cache.Sound defs) (f g) (f g)) :
    Run.Agree T (Cache.Sound defs) (Cache.Sound defs) (Run.body defs name key >>= f)
      (Run.body defs name key >>= f) := by
  have hbody : Correspond (· = ·) (fun g h => g = h ∧ defs key = .ok g) (defs key) (defs key) := by
    cases hdefs : defs key with
    | error fault => exact .error rfl
    | ok g => exact .ok ⟨rfl, rfl⟩
  refine ⟨Run.Follows.bind (E := fun _ => False) (.body hbody) (fun _ h => h.elim) ?_,
    Run.Follows.bind (E := fun _ => False) (.body hbody) (fun _ h => h.elim) ?_⟩
  · rintro g _ ⟨rfl, hg⟩
    exact (hf g hg).left
  · rintro g _ ⟨rfl, hg⟩
    exact (hf g hg).right

/-- Runs that come to the same with any sound caches and at any two thresholds in `T`. -/
def Conduct.alike (T : Level → Level → Prop) (defs : Definitions) : Conduct defs where
  Holds x := Run.Agree T (Cache.Sound defs) (Cache.Sound defs) x x
  exhausted := ⟨.exhausted, .exhausted⟩
  done := .ofExcept _
  failed := .ofExcept _
  raise _ := .ofExcept _
  stall := .emit (.ofExcept _)
  bind := by
    intro α β x f hx hdone hfailed hincomplete
    refine hx.bind fun o => ?_
    rcases o with ⟨rest, a⟩ | c | n
    · exact hdone rest a
    · exact hfailed c
    · rw [hincomplete]
      exact .ofExcept _
  body := .body

theorem Conduct.alike_leaf {T : Level → Level → Prop} (g : Grammar) : (alike T defs).Leaf g := by
  cases g with
  | primitive p => exact fun v => .emit (.ofExcept _)
  | custom name run => exact fun v => .emit (.ofExcept _)
  | _ => trivial

def Discipline.steady (defs : Definitions) : Discipline defs where
  toConduct := .alike Level.Alike defs
  trace hx := hx.bind fun _ => .report (fun _ _ => id) (.ofExcept _)

/-- The parser is steady on every view. -/
abbrev Parser.Steady (defs : Definitions) (p : Parser α) : Prop := (Discipline.steady defs).Keeps p

theorem Grammar.parse_steady (defs : Definitions) (n : Nat) (g : Grammar) :
    Parser.Steady defs (g.parse defs n) :=
  Discipline.parse (fun _ _ _ => .of_forall Conduct.alike_leaf _) (.of_forall Conduct.alike_leaf g) n

/-! ### Results -/

/-- The result of a run that ends. -/
abbrev Settled (α : Type) := Option (Except Fault α)

/-- Goes on with a value, and leaves a fault as it is. -/
def Settled.andThen (s : Settled α) (k : α → Settled β) : Settled β :=
  match s with
  | none => none
  | some (.error fault) => some (.error fault)
  | some (.ok a) => k a

namespace Settled
variable (k : α → Settled β)

@[simp] theorem andThen_none : andThen none k = none := rfl

@[simp] theorem andThen_error (fault : Fault) : andThen (some (.error fault)) k = some (.error fault) := rfl

@[simp] theorem andThen_ok (a : α) : andThen (some (.ok a)) k = k a := rfl

theorem andThen_map {γ : Type} (f : γ → α) (s : Settled γ) :
    andThen (s.map (Except.map f)) k = s.andThen fun c => k (f c) := by
  rcases s with _ | _ | c <;> rfl

variable {R R' : Except Fault α → Except Fault β → Prop} {s : Settled α} {s' : Settled β}

theorem exists_right {r : Except Fault α} (h : Option.Rel R s s') (hs : s = some r) :
    ∃ r', s' = some r' ∧ R r r' := by
  subst hs
  cases h with
  | some hr => exact ⟨_, rfl, hr⟩

theorem exists_left {r' : Except Fault β} (h : Option.Rel R s s') (hs : s' = some r') :
    ∃ r, s = some r ∧ R r r' := by
  subst hs
  cases h with
  | some hr => exact ⟨_, rfl, hr⟩

/-- Related results stay related when their values are changed alike. -/
theorem rel_map {γ δ : Type} {F : Fault → Fault → Prop} {Q : α → β → Prop} {Q' : γ → δ → Prop} {f : α → γ}
    {g : β → δ} (hQ : ∀ a b, Q a b → Q' (f a) (g b)) (h : Option.Rel (Correspond F Q) s s') :
    Option.Rel (Correspond F Q') (s.map (Except.map f)) (s'.map (Except.map g)) := by
  rcases h with (he | hab) | _
  · exact .some (.error he)
  · exact .some (.ok (hQ _ _ hab))
  · exact .none

end Settled

namespace Run

def settled (x : Run α) : Settled α := (x .silent []).map Ended.result

theorem Steady.settled_eq {x : Run α} (hx : x.Steady defs) {threshold : Level} {cache : Cache}
    (hquiet : threshold.writes = false) (hcache : Cache.Sound defs cache) :
    (x threshold cache).map Ended.result = x.settled :=
  hx.result_eq hquiet hcache (Cache.sound_nil defs)

theorem Steady.sound {x : Run α} (hx : x.Steady defs) {threshold : Level} {cache : Cache} {e : Ended α}
    (hcache : Cache.Sound defs cache) (he : x threshold cache = some e) : Cache.Sound defs e.cache :=
  (hx.left threshold threshold cache cache e rfl hcache hcache he).1

theorem settled_bind {x : Run α} {f : α → Run β} (hx : x.Steady defs) (hf : ∀ a, (f a).Steady defs) :
    (x >>= f).settled = x.settled.andThen fun a => (f a).settled := by
  have hnil := Cache.sound_nil defs
  rcases hxc : x .silent [] with _ | ⟨fault | a, cache, records⟩
  · simp [settled, bind_of_none _ _ f hxc, hxc]
  · simp [settled, bind_of_error _ _ f hxc, hxc]
  · have hcache : Cache.Sound defs cache := hx.sound hnil hxc
    have hfa : (f a .silent cache).map Ended.result = (f a).settled := (hf a).settled_eq rfl hcache
    rw [settled, settled, bind_of_ok _ _ f hxc, hxc, Option.map_some, Settled.andThen_ok, ← hfa, Option.map_map]
    rfl

theorem settled_emit_bind (event : Event) (f : Unit → Run α) : (Run.emit event >>= f).settled = (f ()).settled := by
  rw [settled, emit_bind_apply, Option.map_map]
  rfl

theorem settled_map (f : α → β) (x : Run α) : (f <$> x).settled = x.settled.map (Except.map f) := by
  rcases hxc : x .silent [] with _ | ⟨fault | a, cache, records⟩ <;>
    simp [map_eq_pure_bind, settled, bind_apply, hxc, Except.map]

/-- The run is steady and settles on `s`. -/
structure Settles (defs : Definitions) (x : Run α) (s : Settled α) : Prop where
  steady : x.Steady defs
  eq : x.settled = s

namespace Settles

theorem pure (a : α) : Settles defs (pure a) (some (.ok a)) := ⟨.ofExcept _, rfl⟩

theorem bind {x : Run α} {f : α → Run β} {k : α → Settled β} (hx : x.Steady defs)
    (hf : ∀ a, Settles defs (f a) (k a)) : Settles defs (x >>= f) (x.settled.andThen k) := by
  refine ⟨Agree.bind hx fun a => (hf a).steady, ?_⟩
  rw [settled_bind hx fun a => (hf a).steady]
  congr 1
  funext a
  exact (hf a).eq

/-- What goes on after the progress check. -/
theorem progress {word : String} {before after : View} {f : Unit → Run (Outcome α)} {s : Settled (Outcome α)}
    (hf : Settles defs (f ()) s) :
    Settles defs (Parser.ensureProgress word before after >>= f)
      (if after.offset = before.offset then some (.error (.stalled word before.start)) else s) := by
  refine ⟨Conduct.ensureProgress (D := (Discipline.steady defs).toConduct) hf.steady, ?_⟩
  rw [Parser.ensureProgress]
  split
  · rw [run_bind_assoc, settled_emit_bind]
    rfl
  · rw [run_pure_bind]
    exact hf.eq

/-- What goes on after a caller's function. -/
theorem call {r : Except Raised α} {f : α → Run (Outcome β)} (hf : ∀ a, (f a).Steady defs) :
    Settles defs ((liftM r : Run α) >>= f)
      (match r with
        | .error e => some (.error (.raised e))
        | .ok a => (f a).settled) := by
  refine ⟨(Discipline.steady defs).call hf, ?_⟩
  cases r with
  | error e => rfl
  | ok a =>
    have hpure : ((liftM (.ok a : Except Raised α) : Run α) >>= f) = f a := run_pure_bind a f
    rw [hpure]

end Settles
end Run

theorem Grammar.Yields.of_settled {g : Grammar} {n : Nat} {v : View} {r : Except Fault (Outcome Value)}
    (h : (g.parse defs n v).settled = some r) : g.Yields defs v r := by
  obtain ⟨e, he, rfl⟩ := Option.map_eq_some_iff.1 h
  exact .of_quiet rfl (Cache.sound_nil defs) he

/-- From some budget on, a parse settles on what the grammar yields. -/
theorem Grammar.Yields.settled {g : Grammar} {v : View} {r : Except Fault (Outcome Value)}
    (h : g.Yields defs v r) : ∃ budget, ∀ n, budget ≤ n → (g.parse defs (n + 1) v).settled = some r := by
  obtain ⟨budget, hbudget⟩ := h.exists_result
  refine ⟨budget, fun n hn => ?_⟩
  obtain ⟨e, he, rfl⟩ := hbudget (n + 1) (by omega) .silent [] rfl (Cache.sound_nil defs)
  rw [Run.settled, he, Option.map_some]

/-! ### Equations of combinators -/

namespace Parser
variable {α : Type} {p : Parser α}

theorem sequence_two {finish : List Value → Except Raised Value} (combine : Value → Value → Value)
    (hfinish : ∀ x y, finish [x, y] = .ok (combine x y)) (p q : Parser Value) (v : View) :
    Parser.sequence finish [p, q] v = (do
      match ← p v with
      | .failed c => return .failed (c.within .sequence v.start)
      | .incomplete n => return .incomplete n
      | .done between x =>
        match ← q between with
        | .failed c => return .failed (c.within .sequence v.start)
        | .incomplete n => return .incomplete n
        | .done rest y => return .done rest (combine x y)) := by
  simp only [sequence, thread, bind_assoc]
  congr 1
  funext o
  rcases o with ⟨between, x⟩ | c | n
  · simp only [bind_assoc]
    congr 1
    funext o'
    rcases o' with ⟨rest, y⟩ | c | n
    · simp only [pure_bind, Outcome.map, Outcome.mapM, hfinish]
      rfl
    · rfl
    · rfl
  · rfl
  · rfl

/-- What two parsers in a row come to once the first has come to its outcome. -/
def followed (q : Parser Value) (combine : Value → Value → Value) (start : Position) :
    Outcome Value → Settled (Outcome Value)
  | .failed c => some (.ok (.failed (c.within .sequence start)))
  | .incomplete n => some (.ok (.incomplete n))
  | .done between x => (q between).settled.andThen fun
    | .failed c => some (.ok (.failed (c.within .sequence start)))
    | .incomplete n => some (.ok (.incomplete n))
    | .done rest y => some (.ok (.done rest (combine x y)))

theorem settles_sequence_two {finish : List Value → Except Raised Value} (combine : Value → Value → Value)
    (hfinish : ∀ x y, finish [x, y] = .ok (combine x y)) {p q : Parser Value} (hp : p.Steady defs)
    (hq : q.Steady defs) (v : View) :
    (Parser.sequence finish [p, q] v).Settles defs ((p v).settled.andThen (followed q combine v.start)) := by
  rw [sequence_two combine hfinish]
  refine .bind (hp v) fun o => ?_
  rcases o with ⟨between, x⟩ | c | n
  · refine .bind (hq between) fun o' => ?_
    rcases o' with ⟨rest, y⟩ | c | n <;> exact .pure _
  · exact .pure _
  · exact .pure _

theorem settled_fold {β : Type} {l : Loop α β} (hp : p.Steady defs) (n matched : Nat) (acc : β) (v : View) :
    (p.fold l (n + 1) matched acc v).settled =
      if l.full matched then some (.ok (.done v acc))
      else (p v).settled.andThen fun
        | .done rest x =>
          if rest.offset = v.offset then some (.error (.stalled l.word v.start))
          else match l.step acc x with
            | .error e => some (.error (.raised e))
            | .ok acc' => (p.fold l n (matched + 1) acc' rest).settled
        | .failed c => some (.ok (if matched < l.least then .failed (c.within .repetition l.origin) else .done v acc))
        | .incomplete k => some (.ok (.incomplete k)) := by
  rw [fold]
  split
  · rfl
  refine Run.Settles.eq (.bind (hp v) fun o => ?_)
  rcases o with ⟨rest, x⟩ | c | k
  · exact .progress (.call fun acc' => Conduct.fold hp n (matched + 1) acc' rest)
  · dsimp only
    split <;> exact .pure _
  · exact .pure _

theorem foldlM_collect (xs acc : List α) : xs.foldlM collect acc = .ok (acc ++ xs) := by
  induction xs generalizing acc with
  | nil => rw [List.append_nil]; rfl
  | cons x xs ih =>
    rw [List.foldlM_cons]
    show xs.foldlM collect (acc ++ [x]) = _
    rw [ih, List.append_assoc, List.singleton_append]

/-- The loop that lists what it matches, as often as it can. -/
abbrev listing (word : String) (origin : Position) : Loop α (List α) := ⟨word, origin, 0, none, collect⟩

theorem fold_listing_succ (word : String) (origin : Position) (n matched : Nat) (xs : List α) (v : View) :
    p.fold (listing word origin) (n + 1) matched xs v = (do
      match ← p v with
      | .failed _ => return .done v xs
      | .incomplete n => return .incomplete n
      | .done rest x =>
        ensureProgress word v rest
        p.fold (listing word origin) n (matched + 1) (xs ++ [x]) rest) := by
  rw [fold, if_neg (by simp [Loop.full])]
  congr 1
  funext o
  rcases o with ⟨rest, x⟩ | c | n
  · show (ensureProgress word v rest >>= _) = ensureProgress word v rest >>= _
    congr 1
    funext _
    exact Run.run_pure_bind (xs ++ [x]) _
  · rfl
  · rfl

theorem settled_fold_listing {word : String} {origin : Position} (hp : p.Steady defs) (n matched : Nat)
    (xs : List α) (v : View) :
    (p.fold (listing word origin) (n + 1) matched xs v).settled = (p v).settled.andThen fun
      | .done rest x =>
        if rest.offset = v.offset then some (.error (.stalled word v.start))
        else (p.fold (listing word origin) n (matched + 1) (xs ++ [x]) rest).settled
      | .failed _ => some (.ok (.done v xs))
      | .incomplete k => some (.ok (.incomplete k)) := by
  rw [settled_fold hp, if_neg (by simp [Loop.full])]
  rfl

end Parser

namespace Grammar
variable {g h : Grammar} {n : Nat} {v : View}

theorem parse_sequence_two (a : Assembly) (g h : Grammar) (n : Nat) :
    (sequence a [g, h]).parse defs (n + 1) =
      Parser.sequence a.finish [g.parse defs (n + 1), h.parse defs (n + 1)] := by
  rw [parse, interp, interpAll_eq_map]
  rfl

theorem parse_repeated (r : Repetition) (g : Grammar) (n : Nat) :
    (repeated r g).parse defs (n + 1) = r.parse n (g.parse defs (n + 1)) := by
  rw [parse, interp, parse]

theorem parse_many0 (g : Grammar) (n : Nat) (v : View) :
    (many0 g).parse defs (n + 1) v =
      Outcome.map Value.list <$> (g.parse defs (n + 1)).fold (Parser.listing "many0" v.start) n 0 [] v := by
  rw [many0, parse_repeated]
  rfl

theorem parse_manyTill (g t : Grammar) (n : Nat) (v : View) :
    (manyTill g t).parse defs (n + 1) v = Outcome.map (fun p => .tuple [.list p.1, p.2]) <$>
      Parser.manyTill v.start (g.parse defs (n + 1)) (t.parse defs (n + 1)) n [] v := by
  rw [parse, interp, parse, parse]

theorem parse_separated (nonempty : Bool) (s g : Grammar) (n : Nat) (v : View) :
    (separated nonempty s g).parse defs (n + 1) v = Outcome.map Value.list <$>
      Parser.separated (separatedWord nonempty) nonempty (s.parse defs (n + 1)) (g.parse defs (n + 1)) n v := by
  rw [parse, interp, parse, parse]

theorem parse_adapted (a : Adapter) (g : Grammar) (n : Nat) :
    (adapted a g).parse defs (n + 1) = a.parse (g.parse defs (n + 1)) := by
  rw [parse, interp, parse]

end Grammar
end StreamGrammar
