import StreamGrammar.Runner
import StreamGrammar.Proofs.Discipline

/-! # Runs at different thresholds

A record is kept or left out on its own, so at a higher threshold a run is the same run with fewer records. That
holds of all thresholds but one: where the outcomes in traces are written out, a run is cut short at the first of
them that cannot be. `Run.Screened` says both, of every parse (`Grammar.parse_screened`), and so what a run comes
to at one threshold is what it comes to at all, unless it is cut short there (`Run.Screened.comesTo`). -/

namespace StreamGrammar

theorem Level.keep_keep {s t : Level} (h : s.rank ≤ t.rank) (records : List Event) :
    t.keep (s.keep records) = t.keep records := by
  have hadmits : ∀ ev : Event, t.admits ev.level = true → s.admits ev.level = true := by
    intro ev hev
    simp only [Level.admits, decide_eq_true_eq] at hev ⊢
    omega
  -- whatever passes the higher threshold passed the lower one
  rw [Level.keep, Level.keep, Level.keep, List.filter_filter]
  congr 1
  funext ev
  cases ht : t.admits ev.level with
  | true => rw [hadmits ev ht, Bool.and_self]
  | false => rfl

theorem Level.keep_visit (records : List Event) : Level.visit.keep records = records := by
  refine List.filter_eq_self.2 fun ev _ => ?_
  simp [Level.admits, Level.rank]

/-- What is raised when the record is written out, if that raises. -/
def Event.unwritten? : Event → Option Raised
  | traced _ _ o => o.unwritten?
  | _ => none

theorem Event.unwritten?_of_channel {event : Event} (h : event.channel ≠ .runner) : event.unwritten? = none := by
  cases event with
  | traced => exact absurd rfl h
  | _ => rfl

namespace Ended
variable {α β : Type}

/-- The end with the records that the threshold lets pass. -/
def screen (threshold : Level) (e : Ended α) : Ended α :=
  { e with records := threshold.keep e.records }

/-- The run was ended by a record that could not be written out. -/
def CutShort (threshold : Level) (e : Ended α) : Prop :=
  threshold.writes = true ∧ ∃ error, e.result = .error (.unwritten error)

theorem not_cutShort {threshold : Level} {e : Ended α} {r : Except Fault α} (h : e.result = r)
    (hr : ∀ error, r ≠ .error (.unwritten error)) : ¬ e.CutShort threshold := by
  rintro ⟨-, error, herror⟩
  exact hr error (h.symm.trans herror)

/-- How a run ends where it only keeps its records, and how it ends where it writes them out: in the same way, if
all of them can be written, and otherwise at the first that cannot, with what was on record before it. -/
inductive Written : Option (Ended α) → Option (Ended α) → Prop
  | none : Written none none
  | whole {e : Ended α} : (∀ ev ∈ e.records, ev.unwritten? = .none) → Written (some e) (some (e.screen .debug))
  | cut {kept : Option (Ended α)} {error : Raised} {cache : Cache} {before : List Event} :
    (∀ ev ∈ before, ev.unwritten? = .none) →
      (∀ e, kept = some e → ∃ ev after, ev.unwritten? = some error ∧ e.records = before ++ ev :: after) →
        Written kept (some ⟨.error (.unwritten error), cache, Level.debug.keep before⟩)

end Ended

namespace Run
variable {defs : Definitions} {α β : Type}

/-- The run ends with the result `r`, or is cut short where records are written out. -/
def ComesTo (x : Run α) (threshold : Level) (cache : Cache) (r : Except Fault α) : Prop :=
  ∃ e, x threshold cache = some e ∧ (e.result = r ∨ e.CutShort threshold)

theorem ComesTo.exists_result {x : Run α} {threshold : Level} {cache : Cache} {r : Except Fault α}
    (hquiet : threshold.writes = false) (h : x.ComesTo threshold cache r) :
    ∃ e, x threshold cache = some e ∧ e.result = r := by
  obtain ⟨e, he, hr | hcut⟩ := h
  · exact ⟨e, he, hr⟩
  · have hwrites := hcut.1
    rw [hquiet] at hwrites
    cases hwrites

/-- Thresholds that write nothing out only screen the records of the run, and the other may cut it short. -/
structure Screened (defs : Definitions) (x : Run α) : Prop where
  sound : ∀ {t : Level} {cache : Cache} {e : Ended α}, Cache.Sound defs cache → x t cache = some e →
    Cache.Sound defs e.cache
  screen : ∀ {s t : Level} {cache : Cache}, Cache.Sound defs cache → s.writes = false → t.writes = false →
    s.rank ≤ t.rank → x t cache = (x s cache).map (Ended.screen t)
  written : ∀ {cache : Cache}, Cache.Sound defs cache → Ended.Written (x .visit cache) (x .debug cache)

namespace Screened

theorem exhausted : Screened defs (Run.exhausted : Run α) where
  sound _ he := nomatch he
  screen _ _ _ _ := rfl
  written _ := .none

theorem ofExcept (r : Except Fault α) : Screened defs (Run.ofExcept r) where
  sound hc he := by
    cases he
    exact hc
  screen _ _ _ _ := rfl
  written _ := .whole fun _ hev => nomatch hev

theorem pure (a : α) : Screened defs (pure a) := ofExcept (.ok a)

theorem emit {event : Event} (h : event.unwritten? = none) : Screened defs (Run.emit event) where
  sound hc he := by
    cases he
    exact hc
  screen {s t cache} _ _ _ hst := by
    rw [emit_apply, emit_apply, Option.map_some, Ended.screen, Level.keep_keep hst]
  written {cache} _ := by
    rw [emit_apply, emit_apply, Level.keep_visit]
    refine .whole fun ev hev => ?_
    rw [List.mem_singleton.1 hev, h]

theorem report (label : String) (offset : Nat) (o : Outcome Value) :
    Screened defs (Run.report label offset o) where
  sound hc he := by
    obtain rfl | ⟨error, rfl⟩ := report_cases he <;> exact hc
  screen {s t cache} _ hs ht hst := by
    rw [report_apply_quiet hs, report_apply_quiet ht, Option.map_some, Ended.screen, Level.keep_keep hst]
  written {cache} _ := by
    rw [report_apply_quiet rfl, Level.keep_visit]
    cases hunwritten : o.unwritten? with
    | none =>
      rw [report_apply fun _ => hunwritten]
      refine .whole fun ev hev => ?_
      rw [List.mem_singleton.1 hev]
      exact hunwritten
    | some error =>
      rw [report_apply_error rfl hunwritten]
      refine .cut (List.forall_mem_nil _) fun e he => ?_
      cases he
      exact ⟨.traced label offset o, [], hunwritten, rfl⟩

/-- What is put behind a run may be cut short where the run itself was not. -/
theorem written_bind {x : Run α} {f : α → Run β} {cache : Cache} (hx : Ended.Written (x .visit cache) (x .debug cache))
    (hf : ∀ a cache' records, x .visit cache = some ⟨.ok a, cache', records⟩ →
      Ended.Written (f a .visit cache') (f a .debug cache')) :
    Ended.Written ((x >>= f) .visit cache) ((x >>= f) .debug cache) := by
  generalize hkept : x .visit cache = kept, hwritten : x .debug cache = written at hx
  cases hx with
  | none =>
    rw [bind_of_none _ _ f hkept, bind_of_none _ _ f hwritten]
    exact .none
  | @whole e hrecords =>
    obtain ⟨fault | a, cache', records⟩ := e
    · rw [bind_of_error _ _ f hkept, bind_of_error _ _ f hwritten]
      exact .whole hrecords
    · rw [bind_of_ok _ _ f hkept, bind_of_ok _ _ f hwritten]
      have hnext := hf a cache' records hkept
      generalize f a .visit cache' = kept', f a .debug cache' = written' at hnext
      cases hnext with
      | none => exact .none
      | @whole e' hrecords' =>
        have hall := List.forall_mem_append.2 ⟨hrecords, hrecords'⟩
        have h := Ended.Written.whole (e := { e' with records := records ++ e'.records }) hall
        rwa [Ended.screen, Level.keep_append] at h
      | @cut _ error cache'' before hbefore hlast =>
        have hall := List.forall_mem_append.2 ⟨hrecords, hbefore⟩
        rw [Option.map_some, ← Level.keep_append]
        refine .cut hall fun e he => ?_
        obtain ⟨e', he', rfl⟩ := Option.map_eq_some_iff.1 he
        obtain ⟨ev, after, herror, heq⟩ := hlast e' he'
        exact ⟨ev, after, herror, by rw [heq, List.append_assoc]⟩
  | @cut _ error cache' before hbefore hlast =>
    rw [bind_of_error _ _ f hwritten]
    refine .cut hbefore fun e he => ?_
    rcases kept with _ | ⟨fault | a, cache'', records⟩
    · rw [bind_of_none _ _ f hkept] at he
      cases he
    · rw [bind_of_error _ _ f hkept] at he
      cases he
      exact hlast _ rfl
    · rw [bind_of_ok _ _ f hkept] at he
      obtain ⟨e', -, rfl⟩ := Option.map_eq_some_iff.1 he
      obtain ⟨ev, after, herror, heq⟩ := hlast _ rfl
      have hrecords : records = before ++ ev :: after := heq
      exact ⟨ev, after ++ e'.records, herror, by rw [hrecords, List.append_assoc, List.cons_append]⟩

/-- To go on after a run whose values are all in `P`. -/
theorem bind {P : α → Prop} {x : Run α} {f : α → Run β} (hx : Screened defs x)
    (hP : ∀ {t : Level} {cache cache' : Cache} {records : List Event} {a : α}, Cache.Sound defs cache →
      x t cache = some ⟨.ok a, cache', records⟩ → P a)
    (hf : ∀ a, P a → Screened defs (f a)) : Screened defs (x >>= f) where
  sound {t cache e} hc he := by
    rcases hxc : x t cache with _ | ⟨fault | a, cache', records⟩
    · rw [bind_of_none _ _ f hxc] at he
      cases he
    · rw [bind_of_error _ _ f hxc] at he
      cases he
      exact hx.sound hc hxc
    · rw [bind_of_ok _ _ f hxc] at he
      obtain ⟨e', he', rfl⟩ := Option.map_eq_some_iff.1 he
      have hc' : Cache.Sound defs e'.cache := (hf a (hP hc hxc)).sound (hx.sound hc hxc) he'
      exact hc'
  screen {s t cache} hc hs ht hst := by
    have hxt := hx.screen hc hs ht hst
    rcases hxc : x s cache with _ | ⟨fault | a, cache', records⟩ <;> rw [hxc] at hxt
    · rw [bind_of_none _ _ f hxc, bind_of_none _ _ f hxt, Option.map_none]
    · rw [bind_of_error _ _ f hxc, bind_of_error _ _ f hxt]
      rfl
    · rw [bind_of_ok _ _ f hxc, bind_of_ok _ _ f hxt,
        (hf a (hP hc hxc)).screen (hx.sound hc hxc) hs ht hst, Option.map_map, Option.map_map]
      congr 1
      funext e
      simp [Ended.screen]
  written hc := written_bind (hx.written hc) fun a _ _ hxc => (hf a (hP hc hxc)).written (hx.sound hc hxc)

theorem seq {x : Run α} {f : α → Run β} (hx : Screened defs x) (hf : ∀ a, Screened defs (f a)) :
    Screened defs (x >>= f) :=
  hx.bind (P := fun _ => True) (fun _ _ => trivial) fun a _ => hf a

theorem body_screen (name : String) (key : Key) {s t : Level} (hst : s.rank ≤ t.rank) (cache : Cache) :
    Run.body defs name key t cache = (Run.body defs name key s cache).map (Ended.screen t) := by
  cases hlookup : cache.lookup key with
  | some g => simp [body_of_built hlookup, Ended.screen, Level.keep_keep hst]
  | none =>
    cases hdefs : defs key with
    | error fault => simp [body_of_error hlookup hdefs, Ended.screen, Level.keep_keep hst]
    | ok g => simp [body_of_ok hlookup hdefs, Ended.screen, Level.keep_keep hst]

theorem body (name : String) (key : Key) : Screened defs (Run.body defs name key) where
  sound {t cache e} hc he := by
    obtain ⟨e', he', -, hc'⟩ := body_eq hc name key t
    rw [he] at he'
    cases he'
    exact hc'
  screen _ _ _ hst := body_screen name key hst _
  written hc := by
    obtain ⟨e, he, -, -⟩ := body_eq hc name key .visit
    rw [body_screen name key (s := .visit) (t := .debug) (Nat.zero_le _), he, Option.map_some]
    refine .whole fun ev hev => Event.unwritten?_of_channel ?_
    rw [body_records he ev hev]
    exact nofun

theorem of_body {name : String} {key : Key} {f : Grammar → Run α}
    (hf : ∀ g, defs key = .ok g → Screened defs (f g)) : Screened defs (Run.body defs name key >>= f) := by
  refine (body name key).bind (P := fun g => defs key = .ok g) (fun {t cache cache' records g} hc hg => ?_) hf
  obtain ⟨e, he, hr, -⟩ := body_eq hc name key t
  rw [hg] at he
  cases he
  exact hr.symm

/-! ### Results -/

variable {x : Run α} {s t : Level} {cache : Cache} {e : Ended α}

/-- A run that is not cut short is a run that only keeps its records, screened. -/
theorem eq_screen (hx : Screened defs x) (hc : Cache.Sound defs cache) (he : x t cache = some e)
    (hcut : ¬ e.CutShort t) : ∃ e', x .visit cache = some e' ∧ e = e'.screen t := by
  cases ht : t.writes with
  | false =>
    rw [hx.screen hc (s := .visit) rfl ht (Nat.zero_le _)] at he
    obtain ⟨e', he', rfl⟩ := Option.map_eq_some_iff.1 he
    exact ⟨e', he', rfl⟩
  | true =>
    obtain rfl := Level.writes_iff.1 ht
    have hwritten := hx.written hc
    rw [he] at hwritten
    generalize x .visit cache = kept at hwritten
    cases hwritten with
    | @whole e' _ => exact ⟨e', rfl, rfl⟩
    | @cut _ error _ _ _ _ => exact absurd ⟨rfl, error, rfl⟩ hcut

/-- What a run comes to where it only keeps its records, it comes to at every threshold. -/
theorem comesTo (hx : Screened defs x) (hc : Cache.Sound defs cache) (he : x .visit cache = some e) (t : Level) :
    x.ComesTo t cache e.result := by
  cases ht : t.writes with
  | false =>
    refine ⟨e.screen t, ?_, .inl rfl⟩
    rw [hx.screen hc (s := .visit) rfl ht (Nat.zero_le _), he, Option.map_some]
  | true =>
    obtain rfl := Level.writes_iff.1 ht
    have hwritten := hx.written hc
    rw [he] at hwritten
    generalize hdebug : x .debug cache = written at hwritten
    cases hwritten with
    | whole _ => exact ⟨_, hdebug, .inl rfl⟩
    | @cut _ error _ _ _ _ => exact ⟨_, hdebug, .inr ⟨rfl, error, rfl⟩⟩

end Screened
end Run

/-! ### Parses -/

/-- Runs that thresholds only screen or cut short. -/
def Discipline.screened (defs : Definitions) : Discipline defs where
  Holds := Run.Screened defs
  exhausted := .exhausted
  done := .pure _
  failed := .pure _
  raise _ := .ofExcept _
  stall := (Run.Screened.emit rfl).seq fun _ => .ofExcept _
  bind := by
    intro α β x f hx hdone hfailed hincomplete
    refine hx.seq fun o => ?_
    cases o with
    | done rest a => exact hdone rest a
    | failed c => exact hfailed c
    | incomplete n =>
      rw [hincomplete]
      exact .pure _
  trace hx := hx.seq fun o => (Run.Screened.report _ _ o).seq fun _ => .pure o
  body := .of_body

namespace Grammar

theorem parse_screened (defs : Definitions) (n : Nat) (v : View) (g : Grammar) :
    (g.parse defs n v).Screened defs := by
  have hleaves : ∀ h : Grammar, h.Everywhere (Discipline.screened defs).Leaf := by
    refine .of_forall fun h => ?_
    cases h with
    | primitive p => exact fun w => (Run.Screened.emit rfl).seq fun _ => .ofExcept _
    | custom name run => exact fun w => (Run.Screened.emit rfl).seq fun _ => .ofExcept _
    | _ => trivial
  exact Discipline.parse (fun key h _ => hleaves h) (hleaves g) n v

theorem parseFinish_screened (defs : Definitions) (n : Nat) (v : View) (g : Grammar) :
    (g.parseFinish defs n v).Screened defs := by
  refine (parse_screened defs n v g).seq fun o => ?_
  cases o with
  | done rest x => exact .pure _
  | failed c => exact (Run.Screened.emit rfl).seq fun _ => .ofExcept _
  | incomplete needed => exact (Run.Screened.emit rfl).seq fun _ => .ofExcept _

theorem parseComplete_screened (defs : Definitions) (n : Nat) (v : View) (g : Grammar) :
    (g.parseComplete defs n v).Screened defs := by
  refine (parseFinish_screened defs n v g).seq fun ⟨remaining, output⟩ => ?_
  cases hempty : remaining.isEmpty with
  | true => simp only [hempty, if_true]; exact .pure _
  | false => simp only [hempty]; exact (Run.Screened.emit rfl).seq fun _ => .ofExcept _

end Grammar
end StreamGrammar
