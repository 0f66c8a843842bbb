import StreamGrammar.Grammar.Build
import StreamGrammar.Proofs.Contract
import StreamGrammar.Proofs.Yields

/-! # The chain of a failure

`Grammar.failure_reported`: when a grammar made of primitives and combinators fails on a view, its chain
tells one story from the inside out. It begins with what was rejected, goes on with the contexts around it,
each of which began no later, and ends at the start of the view.

The invariant is `Chain.ReportedAt`. A combinator may report a failure of a parser that it ran further on
(`Chain.ReportedAt.wrap`); since what it ran that parser on was a suffix of its own view, its entry cannot
stand behind one that is there already. -/

namespace StreamGrammar

/-- What holds of the chain of a parser that was begun at `v` and failed. -/
structure Chain.ReportedAt (v : View) (c : Chain) : Prop where
  outermost : c.outermost.position = v.start
  /-- No entry stands behind one that is further inside. -/
  ordered : c.entries.Pairwise fun inner outer => outer.position.toNat ≤ inner.position.toNat
  inside : ∀ e ∈ c.entries, v.offset ≤ e.position.toNat ∧ e.position.toNat ≤ v.stop
  code : ∀ e ∈ c.entries, e.code.isSome = true ↔ e.kind = .custom
  innermost : c.innermost.kind ∉ [.sequence, .repetition, .alternativesExhausted]
  outer : ∀ e ∈ c.outer, e.kind ∈ [.sequence, .repetition, .alternativesExhausted, .custom]
  cause : ∀ e ∈ c.outer, e.cause = none

namespace Chain
variable {c : Chain} {e : Entry} {P : Entry → Prop}

theorem forall_entries_wrap : (∀ x ∈ (c.wrap e).entries, P x) ↔ (∀ x ∈ c.entries, P x) ∧ P e := by
  simp [or_imp, forall_and]

theorem forall_outer_wrap : (∀ x ∈ (c.wrap e).outer, P x) ↔ (∀ x ∈ c.outer, P x) ∧ P e := by
  simp [Chain.wrap, or_imp, forall_and]

end Chain

namespace Chain.ReportedAt
variable {v rest : View} {c : Chain}

theorem single {e : Entry} (hpos : e.position = v.start) (hcode : e.code.isSome = true ↔ e.kind = .custom)
    (hkind : e.kind ∉ [.sequence, .repetition, .alternativesExhausted]) :
    ReportedAt v { innermost := e } := by
  have hinside : v.offset ≤ e.position.toNat ∧ e.position.toNat ≤ v.stop := by
    rw [hpos]
    exact ⟨Nat.le_refl _, Nat.le_add_right _ _⟩
  refine ⟨hpos, List.pairwise_singleton _ _, ?_, ?_, hkind, ?_, ?_⟩ <;> simp_all [Chain.entries]

/-- The entry of a combinator that was begun at `v` and ran a parser on `rest`, which failed. -/
theorem wrap {e : Entry} (h : c.ReportedAt rest) (hrest : rest.SuffixOf v) (hpos : e.position = v.start)
    (hcode : e.code.isSome = true ↔ e.kind = .custom)
    (hkind : e.kind ∈ [.sequence, .repetition, .alternativesExhausted, .custom]) (hcause : e.cause = none) :
    (c.wrap e).ReportedAt v := by
  have hnat : e.position.toNat = v.offset := by rw [hpos]; rfl
  have hbehind : ∀ x ∈ c.entries, v.offset ≤ x.position.toNat :=
    fun x hx => Nat.le_trans hrest.offset_le (h.inside x hx).1
  refine ⟨by simp [hpos], ?_, forall_entries_wrap.2 ⟨fun x hx => ?_, ?_⟩, forall_entries_wrap.2 ⟨h.code, hcode⟩,
    h.innermost, forall_outer_wrap.2 ⟨h.outer, hkind⟩, forall_outer_wrap.2 ⟨h.cause, hcause⟩⟩
  · rw [Chain.entries_wrap, List.pairwise_append]
    refine ⟨h.ordered, List.pairwise_singleton _ _, fun x hx y hy => ?_⟩
    rw [List.mem_singleton.1 hy, hnat]
    exact hbehind x hx
  · have hstop := (h.inside x hx).2
    rw [hrest.stop] at hstop
    exact ⟨hbehind x hx, hstop⟩
  · rw [hnat]
    exact ⟨Nat.le_refl _, Nat.le_add_right _ _⟩

end Chain.ReportedAt

/-- Anything may happen, but a failure is reported as `Chain.ReportedAt` says. -/
def Contract.reported : Contract where
  limit := True
  chain v c := c.ReportedAt v
  needed _ := True
  fault _ _ := True
  fault_suffix _ h := h
  single {v kind} h := by
    refine .single rfl ?_ ?_ <;> cases kind <;> simp_all [ErrorKind.isInnermost]
  caught := .single rfl (by simp) (by simp)
  within hrest hc hkind := by
    refine hc.wrap hrest rfl ?_ ?_ rfl <;> rcases hkind with rfl | rfl | rfl <;> simp
  coded hc := hc.wrap (.refl _) rfl (by simp) (by simp) rfl

namespace Grammar
variable {defs : Definitions} {g : Grammar} {v : View} {c : Chain}

/-- The chain of a failure is not empty, ends at the start of the view, and its positions go back from the
innermost to the outermost entry without leaving the view. Entries have a code exactly if they are custom ones;
what was rejected comes first, contexts follow, and only the first entry may have a cause. -/
theorem failure_reported (hg : g.Library) (hdefs : ∀ key h, defs key = .ok h → h.Library)
    (hfailed : g.Yields defs v (.ok (.failed c))) : c.entries ≠ [] ∧ c.ReportedAt v := by
  have heverywhere : ∀ h : Grammar, h.Library →
      h.Everywhere (Contract.reported.Node (fun _ => false) fun _ => True) :=
    fun h => Contract.everywhere_of_library (fun _ _ _ => trivial) fun _ => trivial
  have hdefines : Contract.reported.Defines (fun _ => false) defs :=
    ⟨fun key h hh => heverywhere h (hdefs key h hh), fun _ _ _ h => (nomatch h), fun _ _ _ _ => trivial⟩
  have hends : ∀ n, (g.parse defs n v).Meets True (Cache.Sound defs) (fun _ => True)
      (Contract.reported.Accepts v v (g.consuming (fun _ => false) = true) fun _ => True) :=
    fun n => Contract.parse trivial hdefines (heverywhere g hg) n v
  exact ⟨List.cons_ne_nil _ _, hfailed.ok_of_meets hends⟩

/-- Refuses whatever it is given. -/
def refusal : Transform := fun _ => ErrorClass.value.raise "refused"

/-- After a letter come digits, or words that are refused. -/
def labelled : Grammar :=
  context (preceded (primitive (.take 1)) (deferred "label" 0)) (some (.int 4))

def labelledDefs : Definitions := fun _ =>
  .ok (many1 (choice (digit .complete) [(alpha .complete).mapResult refusal [.value] (some (.int 9))]))

def labelledInput : View := ⟨⟨0, .ofString "..ab!"⟩, .ofNat 2, 2, by decide⟩

theorem labelled_library : labelled.Library := by
  simp [Library, labelled, context, preceded]

theorem failure_reported_labelled :
    ∃ c, labelled.Yields labelledDefs labelledInput (.ok (.failed c)) ∧
      c.kinds = [.custom, .alternativesExhausted, .repetition, .sequence, .custom] ∧
      c.entries.map (·.position.toNat) = [3, 3, 3, 2, 2] ∧ c.entries ≠ [] ∧ c.ReportedAt labelledInput := by
  have hdefs : ∀ key h, labelledDefs key = .ok h → h.Library := by
    rintro key _ ⟨⟩
    simp [Library, many1, digit, alpha, alphabetRun, mapResult]
  have hfailed : labelled.Yields labelledDefs labelledInput (.ok (.failed
      { innermost := ⟨.custom, .ofNat 3, some (.int 9), some (.thrown .value "refused")⟩
        outer := [⟨.alternativesExhausted, .ofNat 3, none, none⟩, ⟨.repetition, .ofNat 3, none, none⟩,
          ⟨.sequence, .ofNat 2, none, none⟩, ⟨.custom, .ofNat 2, some (.int 4), none⟩] })) :=
    .of_result (n := 4) (by decide +kernel)
  exact ⟨_, hfailed, rfl, rfl, failure_reported labelled_library hdefs hfailed⟩

end Grammar
end StreamGrammar
