import StreamGrammar.Grammar.Build
import StreamGrammar.Proofs.Settled

/-! # Watching a parse

The log, traces and names are there for the reader, and nothing that a parse does depends on them but in one place:
at the threshold `debug` the outcomes in traces are written out, and that may raise (`Grammar.observation_neutral`,
`Grammar.trace_interferes_longNumber`). There are two arguments. A record is kept or left out on its own, so a run at
a higher threshold is the same run with fewer records, unless it is cut short (`Run.Screened`). And a grammar without
its traces or names is similar to the grammar itself, from left to right and from right to left, so that neither can
end unless the other does (`Run.Agree`). -/

namespace StreamGrammar

/-! ### Thresholds -/

/-- Nothing is written out at either threshold. -/
def Level.Quiet (s t : Level) : Prop := s.writes = false ∧ t.writes = false

theorem Ended.screen_screen {α : Type} {s t : Level} (h : s.rank ≤ t.rank) (e : Ended α) :
    (e.screen s).screen t = e.screen t := by
  rw [screen, screen, screen, Level.keep_keep h]

/-- What the threshold has to do with a run: where nothing is written out it only screens the records. At `debug` the
run ends in the same way, and with the records that this threshold lets pass, if all of them can be written out;
otherwise it ends at the first that cannot. -/
structure Run.Watched {α : Type} (defs : Definitions) (x : Run α) : Prop where
  quiet : ∀ s t c, Cache.Sound defs c → Level.Quiet s t → s.rank ≤ t.rank → x t c = (x s c).map (Ended.screen t)
  written : ∀ c, Cache.Sound defs c → Ended.Written (x .visit c) (x .debug c)
  debug : ∀ t c e, Cache.Sound defs c → x .debug c = some e → ¬ e.CutShort .debug → Level.debug.rank ≤ t.rank →
    x t c = some (e.screen t)

theorem Run.Screened.watched {α : Type} {defs : Definitions} {x : Run α} (hx : x.Screened defs) : x.Watched defs where
  quiet _ _ _ hc hst := hx.screen hc hst.1 hst.2
  written _ hc := hx.written hc
  debug t c e hc he hcut ht := by
    obtain ⟨e', hvisit, rfl⟩ := hx.eq_screen hc he hcut
    rw [Ended.screen_screen ht]
    cases hwrites : t.writes with
    | false => rw [hx.screen hc (s := .visit) rfl hwrites (Nat.zero_le _), hvisit, Option.map_some]
    | true =>
      obtain rfl := Level.writes_iff.1 hwrites
      exact he

/-! ### Traces and names -/

/-- The primitive under another name, if it was given one. -/
def Primitive.rename (f : String → String) : Primitive → Primitive
  | unit name expects test policy => unit (f name) expects test policy
  | run name test policy => run (f name) test policy
  | p => p

theorem Primitive.parse_rename (f : String → String) (p : Primitive) : (p.rename f).parse = p.parse := by
  cases p <;> rfl

def Adapter.isTrace : Adapter → Bool
  | trace _ => true
  | _ => false

def Adapter.isName : Adapter → Bool
  | renamed _ => true
  | _ => false

namespace Grammar

mutual

/-- The grammar without the adapters in `drop` and with `rename` applied to the names in it. -/
def strip (drop : Adapter → Bool) (rename : String → String) : Grammar → Grammar
  | primitive p => primitive (p.rename rename)
  | custom name run => custom (rename name) run
  | sequence assembly parts => sequence assembly (stripAll drop rename parts)
  | choice first rest => choice (strip drop rename first) (stripAll drop rename rest)
  | repeated r g => repeated r (strip drop rename g)
  | manyTill g terminator => manyTill (strip drop rename g) (strip drop rename terminator)
  | separated nonempty separator g =>
    separated nonempty (strip drop rename separator) (strip drop rename g)
  | adapted a g => if drop a then strip drop rename g else adapted a (strip drop rename g)
  | deferred name key => deferred (rename name) key

def stripAll (drop : Adapter → Bool) (rename : String → String) : List Grammar → List Grammar
  | [] => []
  | g :: gs => strip drop rename g :: stripAll drop rename gs

end

@[simp] theorem stripAll_eq_map (drop : Adapter → Bool) (rename : String → String) (gs : List Grammar) :
    stripAll drop rename gs = gs.map (strip drop rename) := by
  induction gs with
  | nil => rfl
  | cons g gs ih => simp [stripAll, ih]

def untraced : Grammar → Grammar := strip Adapter.isTrace id

/-- Nothing is left of the names that parsers were given. -/
def nameless : Grammar → Grammar := strip Adapter.isName fun _ => ""

theorem strip_similar {strict : Prop} {drop : Adapter → Bool}
    (hdrop : ∀ a, drop a = true → (Similarity.identity False strict).Observes a) (rename : String → String)
    (g : Grammar) :
    (Similarity.identity False strict).Grammars g (g.strip drop rename) ∧
      (Similarity.identity False strict).Grammars (g.strip drop rename) g := by
  have hparts : ∀ gs : List Grammar, (∀ g ∈ gs, (Similarity.identity False strict).Grammars g (g.strip drop rename) ∧
      (Similarity.identity False strict).Grammars (g.strip drop rename) g) →
        List.Forall₂ (Similarity.identity False strict).Grammars gs (gs.map (strip drop rename)) ∧
          List.Forall₂ (Similarity.identity False strict).Grammars (gs.map (strip drop rename)) gs := by
    intro gs hgs
    rw [List.forall₂_map_right_iff, List.forall₂_map_left_iff]
    exact ⟨List.forall₂_same.2 fun g hg => (hgs g hg).1, List.forall₂_same.2 fun g hg => (hgs g hg).2⟩
  induction g with
  | primitive p =>
    have hleaves : ∀ v w, v = w → (Similarity.identity False strict).Leaves (p.parse v) (p.parse w) := by
      rintro v _ rfl
      exact Similarity.leaves_rfl _
    rw [strip]
    refine ⟨.primitive ?_, .primitive ?_⟩ <;> rw [Primitive.parse_rename] <;> exact hleaves
  | custom name run =>
    have hleaves : ∀ v w, v = w → (Similarity.identity False strict).Leaves (run v) (run w) := by
      rintro v _ rfl
      exact Similarity.leaves_rfl _
    exact ⟨.custom hleaves, .custom hleaves⟩
  | sequence assembly parts ih =>
    have hassembly := Similarity.assemblies_of_uniform (S := Similarity.identity False strict)
      (Similarity.uniform_eq (.sequence assembly parts))
    obtain ⟨hleft, hright⟩ := hparts parts ih
    rw [List.forall₂_iff_zip] at hleft hright
    rw [strip, stripAll_eq_map]
    exact ⟨.sequence hassembly hleft.1 hleft.2, .sequence hassembly hright.1 hright.2⟩
  | choice first rest ih ihs =>
    obtain ⟨hleft, hright⟩ := hparts rest ihs
    rw [List.forall₂_iff_zip] at hleft hright
    rw [strip, stripAll_eq_map]
    exact ⟨.choice ih.1 hleft.1 hleft.2, .choice ih.2 hright.1 hright.2⟩
  | repeated r g ih =>
    have hr := Similarity.repetitions_of_uniform (S := Similarity.identity False strict)
      (Similarity.uniform_eq (.repeated r g))
    exact ⟨.repeated hr ih.1, .repeated hr ih.2⟩
  | manyTill g terminator ih iht => exact ⟨.manyTill ih.1 iht.1, .manyTill ih.2 iht.2⟩
  | separated nonempty separator g ihs ih => exact ⟨.separated ihs.1 ih.1, .separated ihs.2 ih.2⟩
  | adapted a g ih =>
    have ha := Similarity.adapters_of_uniform (S := Similarity.identity False strict)
      (Similarity.uniform_eq (.adapted a g))
    rw [strip]
    -- a dropped adapter only observes, so it may stand on one side alone
    split
    · next h => exact ⟨.observedLeft (hdrop a h) ih.1, .observedRight (hdrop a h) ih.2⟩
    · exact ⟨.adapted ha ih.1, .adapted ha ih.2⟩
  | deferred name key => exact ⟨.deferred key, .deferred key⟩

end Grammar

abbrev Definitions.untraced (defs : Definitions) : Definitions := fun key => (defs key).map Grammar.untraced

namespace Grammar

/-! ### Results -/

/-- At thresholds in `T` and with any sound caches, a parse of `v` with either grammar comes to the same result, and so
does each way to insist on a match. -/
structure EndAlike (T : Level → Level → Prop) (defs defs' : Definitions) (n : Nat) (v : View) (g h : Grammar) :
    Prop where
  parse : ∀ s t c d, T s t → Cache.Sound defs c → Cache.Sound defs' d →
    (g.parse defs n v s c).map Ended.result = (h.parse defs' n v t d).map Ended.result
  finish : ∀ s t c d, T s t → Cache.Sound defs c → Cache.Sound defs' d →
    (g.parseFinish defs n v s c).map Ended.result = (h.parseFinish defs' n v t d).map Ended.result
  complete : ∀ s t c d, T s t → Cache.Sound defs c → Cache.Sound defs' d →
    (g.parseComplete defs n v s c).map Ended.result = (h.parseComplete defs' n v t d).map Ended.result

namespace EndAlike
variable {T T' T'' : Level → Level → Prop} {defs defs' defs'' : Definitions} {n : Nat} {v : View} {g h k : Grammar}

theorem of_agree
    (hparse : Run.Agree T (Cache.Sound defs) (Cache.Sound defs') (g.parse defs n v) (h.parse defs' n v)) :
    EndAlike T defs defs' n v g h := by
  have hfinish : Run.Agree T (Cache.Sound defs) (Cache.Sound defs') (g.parseFinish defs n v)
      (h.parseFinish defs' n v) := by
    refine hparse.bind fun o => ?_
    cases o with
    | done rest x => exact .ofExcept _
    | failed c => exact .emit (.ofExcept _)
    | incomplete needed => exact .emit (.ofExcept _)
  -- the names of the two grammars meet in records only
  have hcomplete : Run.Agree T (Cache.Sound defs) (Cache.Sound defs') (g.parseComplete defs n v)
      (h.parseComplete defs' n v) := by
    refine hfinish.bind fun ⟨remaining, output⟩ => ?_
    cases hempty : remaining.isEmpty with
    | true => simp only [hempty, if_true]; exact .ofExcept _
    | false => simp only [hempty]; exact .emit (.ofExcept _)
  exact ⟨fun _ _ _ _ => hparse.result_eq, fun _ _ _ _ => hfinish.result_eq,
    fun _ _ _ _ => hcomplete.result_eq⟩

theorem trans (hgh : EndAlike T defs defs' n v g h) (hhk : EndAlike T' defs' defs'' n v h k)
    (hT : ∀ s t, T'' s t → ∃ m, T s m ∧ T' m t) : EndAlike T'' defs defs'' n v g k := by
  have hnil := Cache.sound_nil defs'
  refine ⟨fun s t c d hst hc hd => ?_, fun s t c d hst hc hd => ?_, fun s t c d hst hc hd => ?_⟩ <;>
    obtain ⟨m, hsm, hmt⟩ := hT s t hst
  · exact (hgh.parse s m c [] hsm hc hnil).trans (hhk.parse m t [] d hmt hnil hd)
  · exact (hgh.finish s m c [] hsm hc hnil).trans (hhk.finish m t [] d hmt hnil hd)
  · exact (hgh.complete s m c [] hsm hc hnil).trans (hhk.complete m t [] d hmt hnil hd)

theorem symm (h' : EndAlike T defs defs' n v g h) : EndAlike (flip T) defs' defs n v h g :=
  ⟨fun s t c d hst hc hd => (h'.parse t s d c hst hd hc).symm,
    fun s t c d hst hc hd => (h'.finish t s d c hst hd hc).symm,
    fun s t c d hst hc hd => (h'.complete t s d c hst hd hc).symm⟩

end EndAlike

theorem endAlike_strip {T : Level → Level → Prop} {strict : Prop} {drop : Adapter → Bool}
    (hT : ∀ s t, T s t → s.Alike t ∧ (s.writes = true → strict))
    (hdrop : ∀ a, drop a = true → (Similarity.identity False strict).Observes a) (rename : String → String)
    (defs : Definitions) (n : Nat) (v : View) (g : Grammar) :
    EndAlike T defs (fun key => (defs key).map (strip drop rename)) n v g (g.strip drop rename) := by
  have hleft : ∀ key, Correspond (Similarity.identity False strict).Faults (Similarity.identity False strict).Grammars
      (defs key) ((defs key).map (strip drop rename)) := by
    intro key
    cases defs key with
    | error f => exact .error (.same trivial)
    | ok h => exact .ok (strip_similar hdrop rename h).1
  have hright : ∀ key, Correspond (Similarity.identity False strict).Faults (Similarity.identity False strict).Grammars
      ((defs key).map (strip drop rename)) (defs key) := by
    intro key
    cases defs key with
    | error f => exact .error (.same trivial)
    | ok h => exact .ok (strip_similar hdrop rename h).2
  refine .of_agree (Similarity.agree_of_runs hT ?_ ?_)
  · exact Similarity.parse hleft (strip_similar hdrop rename g).1 (Nat.le_refl n) v v rfl
  · exact Similarity.parse hright (strip_similar hdrop rename g).2 (Nat.le_refl n) v v rfl

/-! ### Grammars without traces -/

theorem untraced_everywhere (g : Grammar) :
    g.untraced.Everywhere fun h => ∀ label k, h ≠ .adapted (.trace label) k := by
  unfold untraced
  induction g with
  | primitive p => simp [strip]
  | custom name run => simp [strip]
  | sequence assembly parts ih => simpa [strip] using ih
  | choice first rest ih ihs => simpa [strip] using ⟨ih, ihs⟩
  | repeated r g ih => simpa [strip] using ih
  | manyTill g terminator ih iht => simpa [strip] using ⟨ih, iht⟩
  | separated nonempty separator g ihs ih => simpa [strip] using ⟨ihs, ih⟩
  | adapted a g ih =>
    rw [strip]
    split
    · exact ih
    · next ha =>
      refine Everywhere.adapted_iff.2 ⟨?_, ih⟩
      rintro label k ⟨⟩
      exact ha rfl
  | deferred name key => simp [strip]

/-- A parse without traces keeps a conduct that all leaves keep. -/
theorem parse_untraced {defs : Definitions} {D : Conduct defs.untraced} (hleaf : ∀ h : Grammar, D.Leaf h) (g : Grammar)
    (n : Nat) : D.Keeps (g.untraced.parse defs.untraced n) := by
  have hnodes : ∀ h : Grammar, h.untraced.Everywhere fun k => D.Leaf k ∧ D.Trace k := by
    refine fun h => (untraced_everywhere h).mono fun k hk => ⟨hleaf k, ?_⟩
    unfold Conduct.Trace
    split
    · next label k' => exact absurd rfl (hk label k')
    · trivial
  refine Conduct.parse (fun key h hh => ?_) (hnodes g) n
  unfold Definitions.untraced at hh
  cases hbody : defs key with
  | error fault =>
    rw [hbody] at hh
    cases hh
  | ok body =>
    rw [hbody] at hh
    cases hh
    exact hnodes body

/-- Without traces nothing is written out, so all thresholds are alike. -/
theorem endAlike_untraced (defs : Definitions) (n : Nat) (v : View) (g : Grammar) :
    EndAlike (fun _ _ => True) defs.untraced defs.untraced n v g.untraced g.untraced :=
  .of_agree (parse_untraced (D := Conduct.alike _ defs.untraced) Conduct.alike_leaf g n v)

theorem observes_isTrace {a : Adapter} (ha : a.isTrace = true) : (Similarity.identity False False).Observes a := by
  cases a with
  | trace label => exact not_false
  | _ => cases ha

/-! ### The whole of it -/

/-- Names do not matter to results. Nor do the threshold of the log and traces, where nothing is written out, whatever
is done with the outcome; and at a higher threshold there are, in the same order, just the records that it lets pass.
Where traces are written out the same holds unless an outcome in them cannot be, and then that ends the parse. -/
theorem observation_neutral (defs : Definitions) (n : Nat) (v : View) (g : Grammar) :
    EndAlike Level.Quiet defs defs n v g g ∧
    ((g.parse defs n v).Watched defs ∧ (g.parseFinish defs n v).Watched defs ∧
      (g.parseComplete defs n v).Watched defs) ∧
    EndAlike (fun s _ => s.writes = false) defs defs.untraced n v g g.untraced ∧
    ∀ defs' h, h.nameless = g.nameless → (∀ key, (defs' key).map nameless = (defs key).map nameless) →
      EndAlike Level.Alike defs defs' n v g h := by
  have hname : ∀ a : Adapter, a.isName = true → (Similarity.identity False True).Observes a := by
    intro a ha
    cases a with
    | renamed name => trivial
    | _ => cases ha
  have huntraced : EndAlike Level.Quiet defs defs.untraced n v g g.untraced :=
    endAlike_strip (fun s t hst => ⟨hst.1.trans hst.2.symm, fun hs => nomatch hst.1.symm.trans hs⟩)
      (fun _ => observes_isTrace) id defs n v g
  have hnameless : ∀ defs h, EndAlike Level.Alike defs (fun key => (defs key).map nameless) n v h h.nameless :=
    fun defs h => endAlike_strip (fun s t hst => ⟨hst, fun _ => trivial⟩) hname (fun _ => "") defs n v h
  refine ⟨?_, ⟨(parse_screened defs n v g).watched, (parseFinish_screened defs n v g).watched,
    (parseComplete_screened defs n v g).watched⟩, ?_, ?_⟩
  · exact huntraced.trans huntraced.symm fun s t hst => ⟨.silent, ⟨hst.1, rfl⟩, hst.2, rfl⟩
  · exact huntraced.trans (endAlike_untraced defs n v g) fun s t hs => ⟨.silent, ⟨hs, rfl⟩, trivial⟩
  · intro defs' h hh hdefs
    have hh' := hnameless defs' h
    rw [hh, funext hdefs] at hh'
    exact (hnameless defs g).trans hh'.symm fun s t hst => ⟨s, rfl, hst.symm⟩

def comma : Grammar := primitive (.tag (.ofString ","))

/-- Rules of dashes in a list, with a trace of every entry and of the whole. -/
def watchedRules (entry : String) : Grammar :=
  trace (separatedList1 comma (trace (deferred entry 0) "entry")) "rules"

def watchedRulesDefs (letter word : String) : Definitions := fun _ =>
  .ok (renamed (trace (primitive (.run letter (fun s => .ok (s.isAscii '-')) .complete)) "rule") word)

def watchedRulesInput : View := .whole ⟨0, .ofString "-,--!"⟩

theorem observation_neutral_watchedRules :
    ((watchedRules "entry").parseComplete (watchedRulesDefs "dash" "rule") 5 watchedRulesInput .debug []).map
      (fun e => e.records.length) = some 7 ∧
    (∃ e, (watchedRules "entry").parseComplete (watchedRulesDefs "dash" "rule") 5 watchedRulesInput .debug [] = some e ∧
      (watchedRules "entry").parseComplete (watchedRulesDefs "dash" "rule") 5 watchedRulesInput .error [] =
        some (e.screen .error)) ∧
    ((watchedRules "entry").parse (watchedRulesDefs "dash" "rule") 5 watchedRulesInput .info []).map Ended.result =
      ((watchedRules "entry").untraced.parse (watchedRulesDefs "dash" "rule").untraced 5 watchedRulesInput .debug
        []).map Ended.result ∧
    ((watchedRules "entry").parseFinish (watchedRulesDefs "dash" "rule") 5 watchedRulesInput .debug []).map
      Ended.result = ((watchedRules "line").parseFinish (watchedRulesDefs "stroke" "bar") 5 watchedRulesInput .debug
        []).map Ended.result := by
  have hnil : ∀ letter word, Cache.Sound (watchedRulesDefs letter word) [] := fun _ _ => Cache.sound_nil _
  obtain ⟨-, ⟨-, -, hcomplete⟩, huntraced, hnames⟩ :=
    observation_neutral (watchedRulesDefs "dash" "rule") 5 watchedRulesInput (watchedRules "entry")
  have hended : ((watchedRules "entry").parseComplete (watchedRulesDefs "dash" "rule") 5 watchedRulesInput .debug
      []).map Ended.result = some (.error (.inputTrailing (watchedRulesInput.drop 4))) := by decide +kernel
  obtain ⟨e, he, hr⟩ := Option.map_eq_some_iff.1 hended
  refine ⟨by decide +kernel, ⟨e, he, ?_⟩, ?_, ?_⟩
  · exact hcomplete.debug .error [] e (hnil _ _) he (Ended.not_cutShort hr nofun) (by decide)
  · exact huntraced.parse .info .debug [] [] rfl (hnil _ _) (Cache.sound_nil _)
  · exact (hnames (watchedRulesDefs "stroke" "bar") (watchedRules "line") rfl fun _ => rfl).finish .debug .debug
      [] [] rfl (hnil _ _) (hnil _ _)

/-- A letter with a number of one digit too many as its output. -/
def longNumber : Grammar := value (primitive (.tag (.ofString "a"))) (.int leastUnwritten)

def longNumberInput : View := .whole ⟨0, .ofString "ab"⟩

/-- A trace around it makes the parse raise at `debug`, where without the trace, and also with it at `info`, it is
done. -/
theorem trace_interferes_longNumber :
    (longNumber.parse noDefinitions 1 longNumberInput .debug []).map Ended.result =
      some (.ok (.done (longNumberInput.drop 1) (.int leastUnwritten))) ∧
    ((trace longNumber "n").parse noDefinitions 1 longNumberInput .info []).map Ended.result =
      some (.ok (.done (longNumberInput.drop 1) (.int leastUnwritten))) ∧
    ((trace longNumber "n").parse noDefinitions 1 longNumberInput .debug []).map Ended.result =
      some (.error (.unwritten (.mishap .tooManyDigits))) :=
  ⟨by decide +kernel, by decide +kernel, by decide +kernel⟩

end Grammar
end StreamGrammar
