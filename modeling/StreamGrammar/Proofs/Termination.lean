import StreamGrammar.Grammar.Build
import StreamGrammar.Proofs.Contract
import StreamGrammar.Proofs.Yields
import Mathlib.Data.Finset.Lattice.Fold
import Mathlib.Order.Lattice.Nat

/-! # Guarded recursion

Deferred grammars may refer to each other and to themselves. `Definitions.Guarded`: each reference is behind
something that consumes, or leads to a grammar of lower rank. `Grammar.guarded_recursion_ends`: every parse
with such a grammar ends. From one reference to the next either the input gets shorter or the rank falls, so
the two together, in this order, bound how deep references nest. -/

namespace StreamGrammar

/-- The definitions of `names` are grammars of the library over these names. Those that are `known` to consume
do, given that the others of them do. A reference that is not guarded leads down in `rank`. -/
structure Definitions.Guarded (defs : Definitions) (names : Finset Key) (known : Key → Bool)
    (rank : Key → Nat) : Prop where
  library : ∀ key ∈ names, ∀ g, defs key = .ok g → g.Library
  consuming : ∀ key ∈ names, ∀ g, defs key = .ok g → known key = true → g.consuming known = true
  closed : ∀ key ∈ names, ∀ g, defs key = .ok g → ∀ r ∈ g.references known, r.key ∈ names
  descending : ∀ key ∈ names, ∀ g, defs key = .ok g → ∀ r ∈ g.references known,
    r.guarded = false → rank r.key < rank key

/-- Parses must end, with whatever outcome or with a fault of parsing or of one of the definitions. -/
def Contract.ending (defs : Definitions) (names : Finset Key) : Contract where
  limit := False
  chain _ _ := True
  needed _ := True
  fault _ f := f.ofParsing = true ∨ ∃ key ∈ names, defs key = .error f
  fault_suffix _ hf := hf
  single _ := trivial
  caught := trivial
  within _ _ _ := trivial
  coded _ := trivial

namespace Grammar

/-! ### How deep references nest -/

section Budget
variable (names : Finset Key) (rank : Key → Nat)

/-- The pair of `length` and rank as a number, with room for the rounds of repetitions. -/
def guardedBudget (key : Key) (length : Nat) : Nat :=
  length * (names.sup rank + 1) + rank key + 2

variable {names rank} {key key' : Key} {m n : Nat}

theorem length_lt_guardedBudget : n + 1 < guardedBudget names rank key n := by
  have hle : n * 1 ≤ n * (names.sup rank + 1) := Nat.mul_le_mul_left n (Nat.le_add_left _ _)
  rw [guardedBudget]
  omega

/-- Behind something that consumes, any name may be next. -/
theorem guardedBudget_lt_of_length (hkey : key' ∈ names) (h : m < n) :
    guardedBudget names rank key' m < guardedBudget names rank key n := by
  have hrank : rank key' ≤ names.sup rank := Finset.le_sup hkey
  have hmul : (m + 1) * (names.sup rank + 1) ≤ n * (names.sup rank + 1) := Nat.mul_le_mul_right _ h
  rw [Nat.succ_mul] at hmul
  rw [guardedBudget, guardedBudget]
  omega

theorem guardedBudget_lt_of_rank (hrank : rank key' < rank key) (h : m ≤ n) :
    guardedBudget names rank key' m < guardedBudget names rank key n := by
  have hmul : m * (names.sup rank + 1) ≤ n * (names.sup rank + 1) := Nat.mul_le_mul_right _ h
  rw [guardedBudget, guardedBudget]
  omega

end Budget

/-! ### Parses end -/

variable {defs : Definitions} {names : Finset Key} {known : Key → Bool} {rank : Key → Nat} {key : Key}
  {g : Grammar} {v : View}

theorem guardedBudget_reference (h : defs.Guarded names known rank) (hkey : key ∈ names)
    (hg : defs key = .ok g) {r : Reference} (hr : r ∈ g.references known) {w : View}
    (hw : w.length < v.length + 1 - r.guarded.toNat) :
    guardedBudget names rank r.key w.length < guardedBudget names rank key v.length := by
  cases hguarded : r.guarded with
  | true =>
    rw [hguarded, Bool.toNat_true] at hw
    exact guardedBudget_lt_of_length (h.closed key hkey g hg r hr) (by omega)
  | false =>
    rw [hguarded, Bool.toNat_false] at hw
    exact guardedBudget_lt_of_rank (h.descending key hkey g hg r hr hguarded) (by omega)

/-- The body of a name ends every parse within its budget. -/
theorem ends_of_guarded (h : defs.Guarded names known rank) (hkey : key ∈ names) (hg : defs key = .ok g)
    {budget : Nat} (hb : guardedBudget names rank key v.length ≤ budget) :
    (Contract.ending defs names).Ends (Cache.Sound defs) v v (known key = true) (fun _ => True)
      (g.parse defs budget v) := by
  -- one level of references uses up one of the budget
  induction budget generalizing key g v with
  | zero =>
    have hlt : v.length + 1 < guardedBudget names rank key v.length := length_lt_guardedBudget
    omega
  | succ budget ih =>
    have hlt : v.length + 1 < guardedBudget names rank key v.length := length_lt_guardedBudget
    have hsize : v.length + 1 ≤ budget := by omega
    have hkeeps : (Contract.ending defs names).Keeps (Cache.Sound defs) (v.length + 1)
        (g.consuming known = true) (fun _ => True) (g.parse defs (budget + 1)) := by
      have hnodes : g.Everywhere ((Contract.ending defs names).Node known fun _ => True) :=
        Contract.everywhere_of_library (fun _ _ hf => .inl hf) (fun _ => trivial) (h.library key hkey g hg)
      refine Contract.interp_references hsize (fun r hr name w hw => ?_) hnodes
      have hmem := h.closed key hkey g hg r hr
      have hless := guardedBudget_reference h hkey hg hr (hw.resolve_left id)
      refine (Run.Meets.body fun f hf => .inr ⟨r.key, hmem, hf⟩).bind fun body hbody => ?_
      exact ih hmem hbody (by omega)
    exact (hkeeps v (.inr (Nat.lt_succ_self _))).after (.refl v) fun hknown =>
      .inr (h.consuming key hkey g hg hknown)

theorem deferred_ends (h : defs.Guarded names known rank) (hkey : key ∈ names) (name : String) {budget : Nat}
    (hb : guardedBudget names rank key v.length < budget) :
    (Contract.ending defs names).Ends (Cache.Sound defs) v v (known key = true) (fun _ => True)
      ((deferred name key).parse defs budget v) := by
  obtain ⟨budget, rfl⟩ := Nat.exists_eq_add_one_of_ne_zero (Nat.ne_zero_of_lt hb)
  refine (Run.Meets.body fun f hf => .inr ⟨key, hkey, hf⟩).bind fun body hbody => ?_
  exact ends_of_guarded h hkey hbody (Nat.le_of_lt_succ hb)

/-- Guarded recursion ends: with the budget that the length of the view and the rank of the name call for, or
more, every parse of a deferred grammar ends, always with the same result, unless it is cut short where traces are
written out. That result is an outcome, a fault of parsing, or the fault of a definition. -/
theorem guarded_recursion_ends (h : defs.Guarded names known rank) (hkey : key ∈ names) (name : String)
    (v : View) :
    ∃ r, (∀ f, r = .error f → f.ofParsing = true ∨ ∃ key ∈ names, defs key = .error f) ∧
      ∀ budget, guardedBudget names rank key v.length < budget →
        ∀ threshold cache, Cache.Sound defs cache →
          ((deferred name key).parse defs budget v).ComesTo threshold cache r := by
  have hends := fun budget (hb : guardedBudget names rank key v.length < budget) =>
    deferred_ends h hkey name hb
  have hsound := Cache.sound_nil defs
  have hfirst := hends _ (Nat.lt_succ_self _) .visit [] rfl hsound
  obtain ⟨e, he, hfault⟩ := hfirst.ended
  refine ⟨e.result, fun f hf => hfault f hf, fun budget hb threshold cache hcache => ?_⟩
  obtain ⟨e', he', -⟩ := (hends budget hb .visit cache rfl hcache).ended
  rw [← (Yields.of_quiet rfl hcache he').unique (Yields.of_quiet rfl hsound he)]
  exact (parse_screened defs budget v (deferred name key)).comesTo hcache he' threshold

/-- Lists of numbers and bracketed lists. What parts two items may hold a list itself. -/
def nestedLists : Definitions
  | 0 => .ok (separatedList1 (deferred "gap" 2) (deferred "item" 1))
  | 1 => .ok (choice (delimited (primitive (.tag (.ofString "("))) (deferred "list" 0)
      (primitive (.tag (.ofString ")")))) [digit .complete])
  | 2 => .ok (choice (primitive (.tag (.ofString ","))) [preceded (primitive (.tag (.ofString "<")))
      (terminated (deferred "list" 0) (primitive (.tag (.ofString ">"))))])
  | _ => .error .noPart

/-- The gap is of the highest rank: a list refers to it behind an item only. -/
def nestedRank : Key → Nat
  | 0 => 1
  | 1 => 0
  | _ => 2

def nestedInput : View := .whole ⟨0, .ofString "1<2>(3,4)"⟩

theorem nestedLists_cases {key : Key} (hkey : key ∈ ({0, 1, 2} : Finset Key)) : key = 0 ∨ key = 1 ∨ key = 2 := by
  simpa using hkey

theorem nestedLists_guarded : nestedLists.Guarded {0, 1, 2} (fun _ => true) nestedRank := by
  refine ⟨fun key hkey g hg => ?_, fun key hkey g hg _ => ?_, fun key hkey g hg => ?_, fun key hkey g hg => ?_⟩
  · rcases nestedLists_cases hkey with rfl | rfl | rfl <;> cases hg <;>
      simp [Library, separatedList1, delimited, preceded, terminated, digit, alphabetRun]
  · rcases nestedLists_cases hkey with rfl | rfl | rfl <;> cases hg <;> decide
  · rcases nestedLists_cases hkey with rfl | rfl | rfl <;> cases hg <;> decide
  · rcases nestedLists_cases hkey with rfl | rfl | rfl <;> cases hg <;> decide

theorem guarded_recursion_ends_nestedLists :
    ∃ r, (∀ f, r = .error f → f.ofParsing = true ∨ ∃ key ∈ ({0, 1, 2} : Finset Key), nestedLists key = .error f) ∧
      ∀ budget, 30 < budget → ∀ threshold cache, Cache.Sound nestedLists cache →
        ((deferred "list" 0).parse nestedLists budget nestedInput).ComesTo threshold cache r := by
  have hbudget : guardedBudget {0, 1, 2} nestedRank 0 nestedInput.length = 30 := by decide
  have hends := guarded_recursion_ends nestedLists_guarded (Finset.mem_insert_self 0 _) "list" nestedInput
  rwa [hbudget] at hends

end Grammar
end StreamGrammar
