import StreamGrammar.Grammar.Build
import StreamGrammar.Proofs.Contract
import StreamGrammar.Proofs.Screening

/-! # Aborted repetitions

A repetition whose child consumes nothing records an error and then raises a fault. No combinator catches a
fault, and a trace records nothing unless its grammar came to an outcome, so nothing is recorded after that
error: the fault of a repetition and the record of an error go together, and whatever grammar begins with one that
gives up (`Grammar.Leads`) ends in the same fault (`Grammar.abort_recorded`).

`Ended.RecordsAbort` is the invariant. It has to speak about ends without the fault too, since the records of a
part that went well come before those of the part that gives up. -/

namespace StreamGrammar

theorem Primitive.isStall_of_error {p : Primitive} {v : View} {fault : Fault}
    (h : p.parse v = .error fault) : fault.isStall = false := by
  have hanswer := p.answer v
  rw [h] at hanswer
  cases hanswer <;> rfl

/-! ### The invariant -/

structure Ended.RecordsAbort {α : Type} (e : Ended α) : Prop where
  quiet : (∀ word position, e.result ≠ .error (.stalled word position)) →
    ∀ ev ∈ e.records, ev.level ≠ .error
  last : ∀ word position, e.result = .error (.stalled word position) →
    ∃ before, e.records = before ++ [.stalled word position] ∧ ∀ ev ∈ before, ev.level ≠ .error

namespace Ended.RecordsAbort
variable {α β : Type} {cache cache' : Cache} {a : α} {fault : Fault} {before records : List Event}

theorem of_ok (h : ∀ ev ∈ records, ev.level ≠ .error) : RecordsAbort ⟨.ok a, cache, records⟩ :=
  ⟨fun _ => h, fun _ _ hr => nomatch hr⟩

theorem of_error (hfault : fault.isStall = false) (h : ∀ ev ∈ records, ev.level ≠ .error) :
    RecordsAbort (⟨.error fault, cache, records⟩ : Ended α) := by
  refine ⟨fun _ => h, fun word position hr => ?_⟩
  cases hr
  cases hfault

theorem quiet_of_ok (h : RecordsAbort ⟨.ok a, cache, before⟩) : ∀ ev ∈ before, ev.level ≠ .error :=
  h.quiet fun _ _ hr => nomatch hr

theorem append {e : Ended β} (hbefore : ∀ ev ∈ before, ev.level ≠ .error) (h : e.RecordsAbort) :
    RecordsAbort { e with records := before ++ e.records } := by
  refine ⟨fun hresult ev hev => ?_, fun word position hresult => ?_⟩
  · rcases List.mem_append.1 hev with hev | hev
    · exact hbefore ev hev
    · exact h.quiet hresult ev hev
  · obtain ⟨records, hrecords, hquiet⟩ := h.last word position hresult
    refine ⟨before ++ records, ?_, fun ev hev => ?_⟩
    · show before ++ e.records = _
      rw [hrecords, List.append_assoc]
    · rcases List.mem_append.1 hev with hev | hev
      · exact hbefore ev hev
      · exact hquiet ev hev

end Ended.RecordsAbort

theorem Level.keep_quiet {threshold : Level} {records : List Event}
    (h : ∀ ev ∈ records, ev.level ≠ .error) : ∀ ev ∈ threshold.keep records, ev.level ≠ .error :=
  fun ev hev => h ev (mem_keep hev)

/-- Runs that record an error exactly if they end in the fault of a repetition, given that definitions do not
raise that fault themselves. -/
def Account.aborts {defs : Definitions} {threshold : Level} (ht : threshold.admits .error = true)
    (hdefs : ∀ key fault, defs key = .error fault → fault.isStall = false) : Account defs threshold where
  InOrder _ e := e.RecordsAbort
  ok := .of_ok fun _ hev => nomatch hev
  error hfault := .of_error hfault fun _ hev => nomatch hev
  retype h := ⟨fun hresult => h.quiet fun word position hr => hresult word position (by cases hr; rfl),
    fun word position hresult => h.last word position (by cases hresult; rfl)⟩
  trans h h' := h'.append h.quiet_of_ok
  visited := .of_ok (Level.keep_quiet (by simp [Event.level]))
  traced := .of_ok (Level.keep_quiet (by simp [Event.level]))
  stalled := by
    intro α cache word position
    have hkeep : threshold.keep [.stalled word position] = [.stalled word position] := by
      simp [Level.keep, Event.level, ht]
    refine ⟨fun hresult => absurd rfl (hresult word position), fun word' position' hresult => ?_⟩
    cases hresult
    exact ⟨[], hkeep, fun ev hev => nomatch hev⟩
  body := by
    intro cache name key e he
    obtain ⟨g, -, rfl⟩ | ⟨fault, -, hkey, rfl⟩ | ⟨g, -, -, rfl⟩ := Run.body_cases he
    · exact .of_ok (Level.keep_quiet (by simp [Event.level]))
    · exact .of_error (hdefs key fault hkey) (Level.keep_quiet (by simp [Event.level]))
    · exact .of_ok (Level.keep_quiet (by simp [Event.level]))

/-! ### Faults -/

/-- Whenever the run ends, it ends in this fault. -/
def Run.EndsIn {α : Type} (fault : Fault) (threshold : Level) (cache : Cache) (x : Run α) : Prop :=
  ∀ e, x threshold cache = some e → e.result = .error fault

theorem Run.EndsIn.bind {α β : Type} {fault : Fault} {threshold : Level} {cache : Cache} {x : Run α}
    (hx : x.EndsIn fault threshold cache) (f : α → Run β) : (x >>= f).EndsIn fault threshold cache := by
  intro e he
  rcases hxc : x threshold cache with _ | ⟨fault' | a, cache', records⟩
  · rw [Run.bind_of_none _ _ f hxc] at he
    cases he
  · rw [Run.bind_of_error _ _ f hxc] at he
    cases he
    cases hx _ hxc
    rfl
  · cases hx _ hxc

theorem Run.EndsIn.map {α β : Type} {fault : Fault} {threshold : Level} {cache : Cache} {x : Run α}
    (hx : x.EndsIn fault threshold cache) (f : α → β) : (f <$> x).EndsIn fault threshold cache := by
  rw [map_eq_pure_bind]
  exact hx.bind _

/-- The repetition comes to its child: what a fold starts with does not raise, and a match is allowed. -/
def Repetition.Begins : Repetition → Prop
  | fold0 start _ | fold1 start _ => ∃ acc, start = .ok acc
  | r => r.most ≠ some 0

/-- The adapter runs the grammar that it is around. -/
def Adapter.runs : Adapter → Bool
  | cond condition => condition.truth
  | condReduce condition => condition.truth
  | _ => true

/-! ### Where repetitions give up -/

/-- Anything may happen, but a repetition gives up within the view only. -/
def Contract.abortsInside : Contract where
  limit := True
  chain _ _ := True
  needed _ := True
  fault v f := ∀ word position, f = .stalled word position →
    v.offset ≤ position.toNat ∧ position.toNat ≤ v.stop
  fault_suffix := by
    intro rest v f hrest hf word position hstall
    obtain ⟨hle, hstop⟩ := hf word position hstall
    have hoffset := hrest.offset_le
    rw [hrest.stop] at hstop
    exact ⟨by omega, hstop⟩
  single _ := trivial
  caught := trivial
  within _ _ _ := trivial
  coded _ := trivial

namespace Grammar
variable {defs : Definitions} {g : Grammar} {v : View} {cache : Cache} {budget : Nat} {threshold : Level}
  {e : Ended (Outcome Value)}

theorem abortsInside_node {h : Grammar} (hcustom : ∀ name run, h ≠ custom name run) :
    Contract.abortsInside.Node (fun _ => false) (fun _ => True) h := by
  have hstart : ∀ word (w : View), Contract.abortsInside.fault w (.stalled word w.start) := by
    rintro word w _ _ ⟨⟩
    exact ⟨Nat.le_refl _, Nat.le_add_right _ _⟩
  have hother : ∀ (w : View) f, f.isStall = false → Contract.abortsInside.fault w f := by
    rintro w _ hf word position rfl
    cases hf
  cases h with
  | primitive p =>
    intro w
    refine Contract.primitive (fun _ _ _ => trivial) (fun name _ => ⟨fun kind => ?_, ?_⟩) fun e _ => ?_
    · exact hother w _ rfl
    · exact hother w _ rfl
    · exact hother w _ rfl
  | custom name run => exact absurd rfl (hcustom name run)
  | sequence assembly parts => exact fun e _ w => hother w _ rfl
  | choice first rest => trivial
  | repeated r g => exact ⟨.inr (hstart r.word), fun e _ w => hother w _ rfl⟩
  | manyTill g terminator => exact .inr (hstart "many_till")
  | separated nonempty separator g => exact .inr (hstart (separatedWord nonempty))
  | adapted a g => exact ⟨fun e _ w => hother w _ rfl, fun _ w => hother w _ rfl⟩
  | deferred name key => trivial

theorem abort_inside (hg : g.Library) (hlibrary : ∀ key h, defs key = .ok h → h.Library)
    (hdefs : ∀ key fault, defs key = .error fault → fault.isStall = false) (hcache : Cache.Sound defs cache)
    (he : g.parse defs budget v threshold cache = some e) {word : String} {position : Position}
    (hstall : e.result = .error (.stalled word position)) :
    v.offset ≤ position.toNat ∧ position.toNat ≤ v.stop := by
  have hnodes : ∀ h : Grammar, h.Library →
      h.Everywhere (Contract.abortsInside.Node (fun _ => false) fun _ => True) :=
    fun h hh => hh.mono fun _ => abortsInside_node
  have hdefines : Contract.abortsInside.Defines (fun _ => false) defs := by
    refine ⟨fun key h hh => hnodes h (hlibrary key h hh), fun _ _ _ h => (nomatch h), ?_⟩
    rintro key _ hf w word position rfl
    cases hdefs key _ hf
  -- the fault is not that of a record, so the parse went as it does where records are only kept
  have hcut : ¬ e.CutShort threshold := Ended.not_cutShort hstall nofun
  obtain ⟨e, hvisit, rfl⟩ := (parse_screened defs budget v g).eq_screen hcache he hcut
  have hends := Contract.parse trivial hdefines (hnodes g hg) budget v .visit cache rfl hcache
  rw [hvisit] at hends
  rcases e with ⟨fault | o, cache', records⟩
  · cases hstall
    exact hends.2 word position rfl
  · cases hstall

/-! ### Around a repetition that gives up -/

/-- The second grammar begins with the first one, at any depth. -/
inductive Leads (g : Grammar) : Grammar → Prop
  | here : Leads g g
  | sequence {h : Grammar} {assembly : Assembly} {parts : List Grammar} : Leads g h →
    Leads g (sequence assembly (h :: parts))
  | choice {h : Grammar} {rest : List Grammar} : Leads g h → Leads g (choice h rest)
  | repeated {h : Grammar} {r : Repetition} : r.Begins → Leads g h → Leads g (repeated r h)
  | manyTill {h terminator : Grammar} : Leads g terminator → Leads g (manyTill h terminator)
  | separated {nonempty : Bool} {separator h : Grammar} : Leads g h → Leads g (separated nonempty separator h)
  | adapted {a : Adapter} {h : Grammar} : a.runs = true → Leads g h → Leads g (adapted a h)

theorem fold_endsIn {α β : Type} {l : Parser.Loop α β} {p : Parser α} {fault : Fault} (hl : l.most ≠ some 0)
    (hp : (p v).EndsIn fault threshold cache) (rounds : Nat) (acc : β) :
    (p.fold l rounds 0 acc v).EndsIn fault threshold cache := by
  have hfull : l.full 0 = false :=
    Parser.Loop.full_zero fun most hmost => Nat.pos_of_ne_zero fun hzero => hl (hzero ▸ hmost)
  cases rounds with
  | zero => simp [Parser.fold, hfull, Run.EndsIn]
  | succ rounds =>
    rw [Parser.fold, hfull]
    exact hp.bind _

theorem Leads.endsIn {h : Grammar} {fault : Fault} {rounds : Nat} {deferred : String → Key → Parser Value}
    (hgh : Leads g h) (hg : (g.interp rounds deferred v).EndsIn fault threshold cache) :
    (h.interp rounds deferred v).EndsIn fault threshold cache := by
  induction hgh with
  | here => exact hg
  | sequence _ ih =>
    rw [interp, interpAll_eq_map]
    exact (ih.bind _).bind _
  | @choice h rest _ ih =>
    rw [interp, interpAll_eq_map]
    cases rest with
    | nil => exact ih.bind _
    | cons k rest => exact ih.bind _
  | @repeated h r hr _ ih =>
    rw [interp]
    cases r with
    | fold0 start step | fold1 start step =>
      obtain ⟨acc, rfl⟩ := hr
      rw [show Repetition.parse _ rounds _ v = _ from Run.run_pure_bind acc _]
      refine fold_endsIn ?_ ih rounds acc
      rintro ⟨⟩
    | _ =>
      refine (fold_endsIn ?_ ih rounds []).map _
      exact hr
  | manyTill _ ih =>
    rw [interp]
    cases rounds with
    | zero =>
      intro e he
      cases he
    | succ rounds => exact (ih.bind _).map _
  | separated _ ih =>
    rw [interp]
    exact (ih.bind _).map _
  | @adapted a h ha _ ih =>
    rw [interp]
    cases a with
    | cond condition =>
      have htrue : condition.truth = true := ha
      simpa only [Adapter.parse, Parser.cond, htrue, if_true] using ih
    | condReduce condition =>
      have htrue : condition.truth = true := ha
      simpa only [Adapter.parse, Parser.condReduce, htrue, if_true] using ih
    | renamed name => exact ih
    | _ => exact ih.bind _

/-! ### Parses -/

/-- No hand-made leaf raises the fault of a repetition. -/
def LeavesStallsAlone (g : Grammar) : Prop :=
  g.Everywhere fun h => ∀ name run, h = custom name run → ∀ v fault, run v = .error fault → fault.isStall = false

/-- A parse records an error exactly if it ends in the fault of a repetition. The error is then the last of all
records and the only one of its level, and its text is that of the diagnostic; every grammar that begins with this
one ends in the same fault; and in a grammar of the library the position of the diagnostic is one within the view. -/
theorem abort_recorded (ht : threshold.admits .error = true) (hg : g.LeavesStallsAlone)
    (hbodies : ∀ key h, defs key = .ok h → h.LeavesStallsAlone)
    (hdefs : ∀ key fault, defs key = .error fault → fault.isStall = false) (hcache : Cache.Sound defs cache)
    (he : g.parse defs budget v threshold cache = some e) :
    ((∃ ev ∈ e.records, ev.level = .error) ↔ ∃ word position, e.result = .error (.stalled word position)) ∧
    ∀ word position, e.result = .error (.stalled word position) →
      ∃ d, (Fault.stalled word position).diagnostic? = some d ∧ d.position = some position ∧
        (∃ before ev, e.records = before ++ [ev] ∧ (∀ ev' ∈ before, ev'.level ≠ .error) ∧ ev.level = .error ∧
          ev.message = "Aborting repetition: " ++ d.message) ∧
        (∀ h, Leads g h → ∀ e', h.parse defs budget v threshold cache = some e' →
          e'.result = .error (.stalled word position)) ∧
        (g.Library → (∀ key h, defs key = .ok h → h.Library) →
          v.offset ≤ position.toNat ∧ position.toNat ≤ v.stop) := by
  have hleaves : ∀ h : Grammar, h.LeavesStallsAlone → h.Everywhere (Account.aborts ht hdefs).discipline.Leaf := by
    intro h hh
    refine hh.mono fun node hnode => ?_
    cases node with
    | primitive p =>
      exact Account.keeps_leaf fun v fault hf _ =>
        .of_error (Primitive.isStall_of_error hf) fun _ hev => nomatch hev
    | custom name run =>
      exact Account.keeps_leaf fun v fault hf _ =>
        .of_error (hnode name run rfl v fault hf) fun _ hev => nomatch hev
    | _ => trivial
  have hkeeps := Discipline.parse (fun key h hh => hleaves h (hbodies key h hh)) (hleaves g hg) budget
  have hrecords : e.RecordsAbort := (hkeeps v cache e hcache he).2
  refine ⟨⟨?_, ?_⟩, fun word position hstall => ⟨_, rfl, rfl, ?_, fun h hgh => ?_, fun hlibrary hlibraries => ?_⟩⟩
  · rintro ⟨ev, hev, hlevel⟩
    by_contra hno
    push Not at hno
    exact hrecords.quiet hno ev hev hlevel
  · rintro ⟨word, position, hstall⟩
    obtain ⟨before, hlast, -⟩ := hrecords.last word position hstall
    exact ⟨.stalled word position, by simp [hlast], rfl⟩
  · obtain ⟨before, hlast, hquiet⟩ := hrecords.last word position hstall
    exact ⟨before, .stalled word position, hlast, hquiet, rfl, rfl⟩
  · cases budget with
    | zero => exact fun e' he' => nomatch he'
    | succ budget =>
      refine hgh.endsIn fun e' he' => ?_
      cases he.symm.trans he'
      exact hstall
  · exact abort_inside hlibrary hlibraries hdefs hcache he hstall

/-- After a letter come marks, each of which may be missing; whatever goes wrong is made good. -/
def lenientMarks : Grammar :=
  optional (choice (mapResult (preceded (primitive (.take 1)) (many0 (trace (deferred "mark" 0) "mark"))) .ok
    [.exception] (some (.int 1))) [endOfInput])

def lenientMarksDefs : Definitions := fun _ => .ok (optional (primitive (.tag (.ofString "!"))))

def lenientMarksInput : View := ⟨⟨0, .ofString "..a!b"⟩, .ofNat 2, 3, by decide⟩

theorem lenientMarks_leavesStallsAlone : lenientMarks.LeavesStallsAlone := by
  simp [LeavesStallsAlone, lenientMarks, optional, mapResult, preceded, many0, trace, endOfInput]

theorem lenientMarks_library : lenientMarks.Library := by
  simp [Library, lenientMarks, optional, mapResult, preceded, many0, trace, endOfInput]

theorem abort_recorded_lenientMarks :
    ∃ (e : Ended (Outcome Value)) (d : Diagnostic), lenientMarks.parse lenientMarksDefs 6 lenientMarksInput .debug [] = some e ∧
      e.result = .error (.stalled "many0" (.ofNat 4)) ∧ d.position = some (.ofNat 4) ∧
      (∃ before ev, e.records = before ++ [ev] ∧ (∀ ev' ∈ before, ev'.level ≠ .error) ∧
        ev.message = "Aborting repetition: " ++ d.message) ∧
      lenientMarksInput.offset ≤ 4 ∧ 4 ≤ lenientMarksInput.stop := by
  have hbodies : ∀ key h, lenientMarksDefs key = .ok h → h.LeavesStallsAlone ∧ h.Library := by
    rintro key _ ⟨⟩
    simp [LeavesStallsAlone, Library, optional]
  have hdefs : ∀ key fault, lenientMarksDefs key = .error fault → fault.isStall = false :=
    fun key fault hf => nomatch hf
  have hresult : (lenientMarks.parse lenientMarksDefs 6 lenientMarksInput .debug []).map Ended.result =
    some (.error (.stalled "many0" (.ofNat 4))) := by decide +kernel
  obtain ⟨e, he, hr⟩ := Option.map_eq_some_iff.1 hresult
  have ht : Level.debug.admits .error = true := rfl
  obtain ⟨-, habort⟩ := abort_recorded ht lenientMarks_leavesStallsAlone
    (fun key h hh => (hbodies key h hh).1) hdefs (Cache.sound_nil _) he
  obtain ⟨d, -, hposition, ⟨before, ev, hrecords, hquiet, -, hmessage⟩, -, hinside⟩ := habort _ _ hr
  exact ⟨e, d, he, hr, hposition, ⟨before, ev, hrecords, hquiet, hmessage⟩,
    hinside lenientMarks_library fun key h hh => (hbodies key h hh).2⟩

end Grammar
end StreamGrammar
