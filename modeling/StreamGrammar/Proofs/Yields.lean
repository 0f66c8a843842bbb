import StreamGrammar.Proofs.Screening
import StreamGrammar.Proofs.Similarity

/-! # The result of a parse

Neither the budget, once it suffices, nor the threshold of the log, nor the deferred grammars built so far
have any influence on the result of a parse (`Grammar.Yields.of_parse`), but that a parse may be cut short where
traces are written out. So it makes sense to speak of the result that a grammar yields on a view
(`Grammar.Yields`). It is the only one (`Grammar.Yields.unique`), and similarities carry it over to other
grammars and views (`Grammar.Yields.similar`). -/

namespace StreamGrammar

/-- Everything is related to itself alone. -/
def Similarity.identity (lenient strict : Prop) : Similarity where
  view := (· = ·)
  value := (· = ·)
  position := (· = ·)
  raised := (· = ·)
  shared _ := True
  lenient := lenient
  strict := strict
  same_of_strict _ _ _ h := h
  start := congrArg View.start
  progress := by
    rintro v _ v' _ rfl rfl
    rfl
  consumed := by
    rintro v _ v' _ rfl rfl
    exact (Correspond.refl _).mono (fun _ _ h => h) fun _ _ h => congrArg Value.view h
  null := rfl
  tuple := by
    intro xs ys h
    rw [List.forall₂_eq_eq_eq] at h
    rw [h]
  list := by
    intro xs ys h
    rw [List.forall₂_eq_eq_eq] at h
    rw [h]
  raised_refl := fun _ => rfl
  errorClass := congrArg Raised.errorClass
  shared_of _ := trivial

namespace Similarity
variable {lenient strict : Prop}

theorem eq_of_entries {e f : Entry} (h : (identity lenient strict).Entries e f) : e = f := by
  have hcause := h.cause_eq id
  obtain ⟨hkind, hposition, hcode, -⟩ := h
  rcases e with ⟨kind, position, code, cause⟩
  rcases f with ⟨kind', position', code', cause'⟩
  cases hkind
  cases hposition
  cases hcode
  cases hcause
  rfl

theorem eq_of_chains {c d : Chain} (h : (identity lenient strict).Chains c d) : c = d := by
  obtain ⟨hinnermost, houter⟩ := h
  rcases c with ⟨e, es⟩
  rcases d with ⟨f, fs⟩
  cases eq_of_entries hinnermost
  have heq : List.Forall₂ (· = ·) es fs := houter.imp fun _ _ => eq_of_entries
  rw [List.forall₂_eq_eq_eq] at heq
  rw [heq]

theorem eq_of_correspond {r r' : Except Fault (Outcome Value)}
    (h : Correspond (identity lenient strict).Faults ((identity lenient strict).Outcomes (· = ·)) r r') : r = r' := by
  rcases h with (_ | h | h) | (⟨hv, hx⟩ | hc | n)
  · rfl
  · rw [show _ = _ from h]
  · rw [show _ = _ from h]
  · rw [show _ = _ from hv, hx]
  · rw [eq_of_chains hc]
  · rfl

/-- Thresholds at which similar parses may be compared for equality. -/
theorem levels_identity {s t : Level} (hst : s.Alike t) (hs : s.writes = true → strict) :
    (identity False strict).Levels s t := ⟨hst, fun h => ⟨hs h, id⟩⟩

theorem agree_of_runs {T : Level → Level → Prop} {I J : Cache → Prop} {x y : Run (Outcome Value)}
    (hT : ∀ s t, T s t → s.Alike t ∧ (s.writes = true → strict))
    (h : (identity False strict).Runs I J (· = ·) x y) (h' : (identity False strict).Runs J I (· = ·) y x) :
    Run.Agree T I J x y := by
  have hfollows : ∀ {T : Level → Level → Prop} {I J : Cache → Prop} {x y : Run (Outcome Value)},
      (∀ s t, T s t → s.Alike t ∧ (s.writes = true → strict)) → (identity False strict).Runs I J (· = ·) x y →
        x.Follows T I J (· = ·) (fun _ => False) (· = ·) y := by
    intro T I J x y hT h s t c d e hst hc hd he
    obtain ⟨halike, hs⟩ := hT s t hst
    obtain ⟨hc', ⟨_, -, hlenient, -⟩ | ⟨e', he', hd', hr⟩⟩ := h s t c d e (levels_identity halike hs) hc hd he
    · exact hlenient.elim
    · refine ⟨hc', .inr ⟨e', he', hd', ?_⟩⟩
      rw [eq_of_correspond hr]
      exact .refl _
  refine ⟨hfollows hT h, hfollows (fun s t hst => ?_) h'⟩
  obtain ⟨halike, hs⟩ := hT t s hst
  exact ⟨halike.symm, fun h => hs (halike.trans h)⟩

theorem entries_rfl (e : Entry) : (identity lenient strict).Entries e e := by
  refine ⟨rfl, rfl, rfl, ?_⟩
  cases e.cause with
  | none => exact .none
  | some cause => exact .some rfl

theorem outcomes_rfl (o : Outcome Value) : (identity lenient strict).Outcomes (· = ·) o o := by
  cases o with
  | done rest x => exact .done rfl rfl
  | failed c => exact .failed ⟨entries_rfl _, List.forall₂_same.2 fun e _ => entries_rfl e⟩
  | incomplete n => exact .incomplete n

theorem leaves_rfl (r : Except Fault (Outcome Value)) : (identity lenient strict).Leaves r r := by
  refine .inr ((Correspond.refl r).mono ?_ ?_)
  · rintro f _ rfl
    exact .same trivial
  · rintro o _ rfl
    exact outcomes_rfl o

theorem uniform_eq (g : Grammar) : g.Uniform (· = ·) (· = ·) := by
  cases g with
  | sequence assembly parts =>
    cases assembly with
    | slots names construct =>
      intro bs cs h
      have heq : List.Forall₂ (· = ·) bs cs := h.imp fun _ _ h => Prod.ext h.1 h.2
      rw [List.forall₂_eq_eq_eq] at heq
      rw [heq]
      exact .refl _
    | _ => trivial
  | repeated r g =>
    cases r with
    | fold0 start step =>
      refine ⟨.refl _, ?_⟩
      rintro a _ x _ rfl rfl
      exact .refl _
    | fold1 start step =>
      refine ⟨.refl _, ?_⟩
      rintro a _ x _ rfl rfl
      exact .refl _
    | _ => trivial
  | adapted a g =>
    cases a with
    | map f => rintro x _ rfl; exact .refl _
    | mapResult f caught code => rintro x _ rfl; exact .refl _
    | verify test => rintro x _ rfl; exact .refl _
    | _ => trivial
  | _ => trivial

/-- Two versions of a grammar are related by the identity if their primitives are; nothing is asked of
hand-made leaves and the functions of callers. -/
theorem identity_mapPrimitives {a b : Primitive → Primitive}
    (h : ∀ p v, (identity lenient strict).Leaves ((a p).parse v) ((b p).parse v)) (g : Grammar) :
    (identity lenient strict).Grammars (g.mapPrimitives a) (g.mapPrimitives b) := by
  refine grammars_mapPrimitives (.of_forall (fun g => ⟨uniform_eq g, ?_, ?_⟩) g)
  · rintro p rfl v _ rfl
    exact h p v
  · rintro name run rfl v _ rfl
    exact leaves_rfl _

theorem identity_rfl (g : Grammar) : (identity lenient strict).Grammars g g := by
  have h : (identity lenient strict).Grammars (g.mapPrimitives id) (g.mapPrimitives id) :=
    identity_mapPrimitives (fun p v => leaves_rfl _) g
  rwa [Grammar.mapPrimitives_id] at h

end Similarity

/-! ### Results -/

namespace Grammar

/-- Every parse of `v` with enough budget ends with the result `r`, at any threshold of the log and with any
sound cache, but that it may be cut short where traces are written out. -/
def Yields (defs : Definitions) (g : Grammar) (v : View) (r : Except Fault (Outcome Value)) : Prop :=
  ∃ budget, ∀ n, budget ≤ n → ∀ threshold cache, Cache.Sound defs cache →
    (g.parse defs n v).ComesTo threshold cache r

namespace Yields
variable {defs defs' : Definitions} {g h : Grammar} {v w : View} {r r' : Except Fault (Outcome Value)}

/-- One parse that ends, and is not cut short, shows what the grammar yields. -/
theorem of_parse {n : Nat} {threshold : Level} {cache : Cache} {e : Ended (Outcome Value)}
    (hc : Cache.Sound defs cache) (h : g.parse defs n v threshold cache = some e) (hcut : ¬ e.CutShort threshold) :
    g.Yields defs v e.result := by
  obtain ⟨e, he, rfl⟩ := (parse_screened defs n v g).eq_screen hc h hcut
  refine ⟨n, fun m hnm threshold' cache' hc' => ?_⟩
  have hself : ∀ key, Correspond (Similarity.identity False False).Faults
      (Similarity.identity False False).Grammars (defs key) (defs key) :=
    fun key => Similarity.correspond_self fun h _ => Similarity.identity_rfl h
  have hfollows := Similarity.parse hself (Similarity.identity_rfl g) hnm v v rfl
  obtain ⟨-, ⟨o, -, hf, -⟩ | ⟨e', he', -, hr⟩⟩ :=
    hfollows .visit .visit cache cache' e (Similarity.levels_identity rfl nofun) hc hc' he
  · exact hf.elim
  · rw [Ended.screen, Similarity.eq_of_correspond hr]
    exact (parse_screened defs m v g).comesTo hc' he' threshold'

theorem of_quiet {n : Nat} {threshold : Level} {cache : Cache} {e : Ended (Outcome Value)}
    (hquiet : threshold.writes = false) (hc : Cache.Sound defs cache)
    (h : g.parse defs n v threshold cache = some e) : g.Yields defs v e.result := by
  refine of_parse hc h fun hcut => ?_
  have hwrites := hcut.1
  rw [hquiet] at hwrites
  cases hwrites

theorem of_result {n : Nat} (h : (g.parse defs n v .silent []).map Ended.result = some r) :
    g.Yields defs v r := by
  obtain ⟨e, he, rfl⟩ := Option.map_eq_some_iff.1 h
  exact of_quiet rfl (Cache.sound_nil defs) he

/-- Where nothing is written out, the grammar ends with what it yields. -/
theorem exists_result (h : g.Yields defs v r) : ∃ budget, ∀ n, budget ≤ n → ∀ threshold cache,
    threshold.writes = false → Cache.Sound defs cache →
      ∃ e, g.parse defs n v threshold cache = some e ∧ e.result = r := by
  obtain ⟨budget, hbudget⟩ := h
  exact ⟨budget, fun n hn threshold cache hquiet hc => (hbudget n hn threshold cache hc).exists_result hquiet⟩

theorem unique (h : g.Yields defs v r) (h' : g.Yields defs v r') : r = r' := by
  obtain ⟨m, hm⟩ := h.exists_result
  obtain ⟨n, hn⟩ := h'.exists_result
  obtain ⟨e, he, rfl⟩ := hm (max m n) (Nat.le_max_left _ _) .silent [] rfl (Cache.sound_nil defs)
  obtain ⟨e', he', rfl⟩ := hn (max m n) (Nat.le_max_right _ _) .silent [] rfl (Cache.sound_nil defs)
  rw [he] at he'
  cases he'
  rfl

theorem ended (hr : g.Yields defs v r) : ∃ n c es, g.parse defs n v .silent [] = some ⟨r, c, es⟩ := by
  obtain ⟨n, hn⟩ := hr.exists_result
  obtain ⟨⟨r, c, es⟩, he, rfl⟩ := hn n (Nat.le_refl n) .silent [] rfl (Cache.sound_nil defs)
  exact ⟨n, c, es, he⟩

/-- What all runs of the parse meet holds of the outcome that the grammar yields. -/
theorem ok_of_meets {F : Fault → Prop} {Q : Outcome Value → Prop} {o : Outcome Value}
    (hr : g.Yields defs v (.ok o))
    (hmeets : ∀ n, (g.parse defs n v).Meets True (Cache.Sound defs) F Q) : Q o := by
  obtain ⟨n, c, es, he⟩ := hr.ended
  have hm := hmeets n .silent [] rfl (Cache.sound_nil defs)
  rw [he] at hm
  exact hm.2

theorem error_of_meets {F : Fault → Prop} {Q : Outcome Value → Prop} {fault : Fault}
    (hr : g.Yields defs v (.error fault))
    (hmeets : ∀ n, (g.parse defs n v).Meets True (Cache.Sound defs) F Q) : F fault := by
  obtain ⟨n, c, es, he⟩ := hr.ended
  have hm := hmeets n .silent [] rfl (Cache.sound_nil defs)
  rw [he] at hm
  exact hm.2

/-- A similarity carries a result over, unless it is silent about it. -/
theorem similar {S : Similarity} (hdefs : ∀ key, Correspond S.Faults S.Grammars (defs key) (defs' key))
    (hgh : S.Grammars g h) (hv : S.view v w) (hr : g.Yields defs v r) :
    (∃ o, r = .ok o ∧ S.Silent o) ∨
      ∃ r', h.Yields defs' w r' ∧ Correspond S.Faults (S.Outcomes S.value) r r' := by
  obtain ⟨n, c, es, he⟩ := hr.ended
  have hc := Cache.sound_nil defs
  have hc' := Cache.sound_nil defs'
  have hfollows := Similarity.parse hdefs hgh (Nat.le_refl n) v w hv
  obtain ⟨-, ho | ⟨e', he', -, hr'⟩⟩ := hfollows .silent .silent [] [] _ ⟨rfl, nofun⟩ hc hc' he
  · exact .inl ho
  · exact .inr ⟨e'.result, of_quiet rfl hc' he', hr'⟩

end Yields

def noDefinitions : Definitions := fun _ => .error .noPart

end Grammar
end StreamGrammar
