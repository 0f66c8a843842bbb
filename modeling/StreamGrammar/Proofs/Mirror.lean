import StreamGrammar.Proofs.Yields

/-! # Similarities from right to left

A similarity relates a first parse to a second one and says nothing before the first one ends. Unless it is
lenient, it can be read from right to left as well (`Similarity.flip`), and then each of the parses ends if and only
if the other does (`Grammar.Yields.similar_both`). -/

namespace StreamGrammar

theorem Correspond.flip {ε δ α β : Type} {F : ε → δ → Prop} {R : α → β → Prop} {r : Except ε α} {r' : Except δ β}
    (h : Correspond F R r r') : Correspond (fun d e => F e d) (fun b a => R a b) r' r := by
  cases h with
  | error he => exact .error he
  | ok hab => exact .ok hab

namespace Similarity

/-- The similarity with its two sides exchanged. -/
def flip (S : Similarity) : Similarity where
  view v w := S.view w v
  value x y := S.value y x
  position p q := S.position q p
  raised e e' := S.raised e' e
  shared := S.shared
  lenient := False
  strict := S.strict
  same_of_strict h _ _ hxy := (S.same_of_strict h hxy).symm
  start := S.start
  progress hv hv' := (S.progress hv hv').symm
  consumed hv hv' := (S.consumed hv hv').flip.mono (fun _ _ h => h.symm) fun _ _ h => h
  null := S.null
  tuple h := S.tuple h.flip
  list h := S.list h.flip
  raised_refl := S.raised_refl
  errorClass h := (S.errorClass h).symm
  shared_of := S.shared_of

variable {S : Similarity}

theorem Faults.flip {f f' : Fault} (h : S.Faults f f') : S.flip.Faults f' f := by
  cases h with
  | same hf => exact .same hf
  | raised he => exact .raised he
  | stalled hp => exact .stalled hp

theorem Entries.flip {e f : Entry} (h : S.Entries e f) : S.flip.Entries f e := by
  refine ⟨h.kind.symm, h.position, h.code.symm, ?_⟩
  have hcause := h.cause
  generalize e.cause = x, f.cause = y at hcause
  cases hcause with
  | some hxy => exact .some hxy
  | none => exact .none

theorem Outcomes.flip {o o' : Outcome Value} (h : S.Outcomes S.value o o') : S.flip.Outcomes S.flip.value o' o := by
  cases h with
  | done hv hxy => exact .done hv hxy
  | failed hc => exact .failed ⟨hc.innermost.flip, .flip (hc.outer.imp fun _ _ he => he.flip)⟩
  | incomplete n => exact .incomplete n

theorem Leaves.flip (hS : ¬ S.lenient) {r r' : Except Fault (Outcome Value)} (h : S.Leaves r r') :
    S.flip.Leaves r' r := by
  obtain ⟨_, -, hlenient, -⟩ | h := h
  · exact absurd hlenient hS
  · exact .inr (h.flip.mono (fun _ _ => Faults.flip) fun _ _ => Outcomes.flip)

theorem Repetitions.flip {r r' : Repetition} (h : S.Repetitions r r') : S.flip.Repetitions r' r := by
  cases h with
  | many0 => exact .many0
  | many1 => exact .many1
  | between least most => exact .between least most
  | times count => exact .times count
  | fold0 hxy hstep => exact .fold0 hxy.flip fun a b x y ha hx => (hstep b a y x ha hx).flip
  | fold1 hxy hstep => exact .fold1 hxy.flip fun a b x y ha hx => (hstep b a y x ha hx).flip

theorem Adapters.flip {a b : Adapter} (h : S.Adapters a b) : S.flip.Adapters b a := by
  cases h with
  | optional => exact .optional
  | peek => exact .peek
  | negate => exact .negate
  | map hf => exact .map fun x y hxy => (hf y x hxy).flip
  | mapResult hf => exact .mapResult fun x y hxy => (hf y x hxy).flip
  | recognize => exact .recognize
  | verify hf => exact .verify fun x y hxy => (hf y x hxy).flip.mono (fun _ _ h => h) fun _ _ h => h.symm
  | context code => exact .context code
  | cond hxy => exact .cond hxy.symm
  | condReduce hxy => exact .condReduce hxy.symm
  | trace label label' => exact .trace label' label
  | renamed name name' => exact .renamed name' name

theorem Observes.flip {a : Adapter} (h : S.Observes a) : S.flip.Observes a := by
  cases a with
  | trace label => exact h
  | renamed name => trivial
  | _ => cases h

theorem Grammars.flip (hS : ¬ S.lenient) {g h : Grammar} (hgh : S.Grammars g h) : S.flip.Grammars h g := by
  have hzip : ∀ {gs hs : List Grammar}, gs.length = hs.length →
      (∀ {g h}, (g, h) ∈ gs.zip hs → S.flip.Grammars h g) →
        hs.length = gs.length ∧ ∀ {h g}, (h, g) ∈ hs.zip gs → S.flip.Grammars h g := by
    intro gs hs hlen hall
    have hforall : List.Forall₂ (fun g h => S.flip.Grammars h g) gs hs := List.forall₂_iff_zip.2 ⟨hlen, hall⟩
    exact List.forall₂_iff_zip.1 hforall.flip
  induction hgh with
  | primitive hp => exact .primitive fun v w hv => (hp w v hv).flip hS
  | custom hrun => exact .custom fun v w hv => (hrun w v hv).flip hS
  | sequence ha hlen _ ih =>
    obtain ⟨hlen', hall⟩ := hzip hlen ih
    exact .sequence (fun xs ys hxs => (ha ys xs hxs.flip).flip) hlen' hall
  | choice _ hlen _ ih ihs =>
    obtain ⟨hlen', hall⟩ := hzip hlen ihs
    exact .choice ih hlen' hall
  | repeated hr _ ih => exact .repeated hr.flip ih
  | manyTill _ _ ih iht => exact .manyTill ih iht
  | separated _ _ ihs ih => exact .separated ihs ih
  | adapted ha _ ih => exact .adapted ha.flip ih
  | deferred key => exact .deferred key
  | observedLeft ha _ ih => exact .observedRight ha.flip ih
  | observedRight ha _ ih => exact .observedLeft ha.flip ih

end Similarity

/-- Under a similarity that is not lenient, each of two parses ends if the other does, and their ends are related. -/
theorem Grammar.Yields.similar_both {S : Similarity} {defs defs' : Definitions} {g h : Grammar} {v w : View}
    (hS : ¬ S.lenient) (hdefs : ∀ key, Correspond S.Faults S.Grammars (defs key) (defs' key))
    (hgh : S.Grammars g h) (hv : S.view v w) :
    (∀ r, g.Yields defs v r →
      ∃ r', h.Yields defs' w r' ∧ Correspond S.Faults (S.Outcomes S.value) r r') ∧
    ∀ r', h.Yields defs' w r' →
      ∃ r, g.Yields defs v r ∧ Correspond S.Faults (S.Outcomes S.value) r r' := by
  have hright : ∀ r, g.Yields defs v r →
      ∃ r', h.Yields defs' w r' ∧ Correspond S.Faults (S.Outcomes S.value) r r' := by
    intro r hr
    obtain ⟨_, -, hlenient, -⟩ | hr' := hr.similar hdefs hgh hv
    · exact absurd hlenient hS
    · exact hr'
  refine ⟨hright, fun r' hr' => ?_⟩
  have hdefs' : ∀ key, Correspond S.flip.Faults S.flip.Grammars (defs' key) (defs key) := fun key =>
    (hdefs key).flip.mono (fun _ _ => Similarity.Faults.flip) fun _ _ hbody => hbody.flip hS
  -- the way back shows that the first parse ends, the way there what it ends with
  obtain ⟨_, -, hlenient, -⟩ | ⟨r, hr, -⟩ := hr'.similar (S := S.flip) hdefs' (hgh.flip hS) hv
  · exact hlenient.elim
  · obtain ⟨r'', hr'', hcorr⟩ := hright r hr
    rw [hr''.unique hr'] at hcorr
    exact ⟨r, hr, hcorr⟩

end StreamGrammar
