import StreamGrammar.Proofs.CallLog
import StreamGrammar.Proofs.Contract
import StreamGrammar.Proofs.LoopLaws

/-! # Rounds of loops

What a loop logs is told round by round. The rounds after which it goes on are a `Trip`, in which every round moves
the input forward and takes a symbol away; with its last round it is a whole loop (`Rounds`). Folding loops and
repetitions up to a terminator have their own last rounds (`FoldLast`, `TillLast`), and `fold_logs` and `manyTill_logs`
say that these are all. -/

namespace StreamGrammar

variable {defs : Definitions}

open Call

/-- Rounds that have moved the input from `w` to `u`, each with its calls and its output. -/
inductive Trip (Next : View → List Call → Value → View → Prop) : View → List Call → List Value → View → Prop
  | nil (u : View) : Trip Next u [] [] u
  | cons {w rest u : View} {calls calls' : List Call} {x : Value} {xs : List Value} : Next w calls x rest →
    rest.SuffixOf w → w.offset < rest.offset → Trip Next rest calls' xs u → Trip Next w (calls ++ calls') (x :: xs) u

namespace Trip
variable {Next : View → List Call → Value → View → Prop} {w u : View} {calls : List Call} {xs : List Value}
  {label other : String}

theorem suffix (h : Trip Next w calls xs u) : u.SuffixOf w := by
  induction h with
  | nil u => exact .refl u
  | cons _ hrest _ _ ih => exact hrest.trans ih

/-- Every round takes a symbol away. -/
theorem length_add_le (h : Trip Next w calls xs u) : xs.length + u.length ≤ w.length := by
  induction h with
  | nil u => simp
  | cons _ hrest hlt _ ih =>
    have hshorter := Contract.length_lt_of_offset_lt hrest hlt
    rw [List.length_cons]
    omega

theorem length_only (h : Trip Next w calls xs u)
    (hnext : ∀ {w calls x rest}, Next w calls x rest → (only label calls).length = 1) :
    (only label calls).length = xs.length := by
  induction h with
  | nil u => rfl
  | cons hn _ _ _ ih =>
    rw [only_append, List.length_append, hnext hn, ih, List.length_cons]
    omega

theorem outputs_only (h : Trip Next w calls xs u)
    (hnext : ∀ {w calls x rest}, Next w calls x rest → outputs (only label calls) = [x]) :
    outputs (only label calls) = xs := by
  induction h with
  | nil u => rfl
  | cons hn _ _ _ ih => rw [only_append, outputs_append, hnext hn, ih, List.singleton_append]

/-- The parser that begins each round is called further and further on. -/
theorem increasing (h : Trip Next w calls xs u)
    (hnext : ∀ {w calls x rest}, Next w calls x rest → ∃ o, only label calls = [⟨label, w.offset, o⟩]) :
    (only label calls).Pairwise (·.offset < ·.offset) ∧
      ∀ c ∈ only label calls, w.offset ≤ c.offset ∧ c.offset < u.offset := by
  induction h with
  | nil u => exact ⟨.nil, by simp⟩
  | @cons w rest u calls calls' x xs hn hrest hlt htrip ih =>
    obtain ⟨o, ho⟩ := hnext hn
    have hle := htrip.suffix.offset_le
    rw [only_append, ho, List.singleton_append]
    refine ⟨List.pairwise_cons.2 ⟨fun c hc => ?_, ih.1⟩, fun c hc => ?_⟩
    · exact Nat.lt_of_lt_of_le hlt (ih.2 c hc).1
    · rcases List.mem_cons.1 hc with rfl | hc
      · exact ⟨Nat.le_refl _, Nat.lt_of_lt_of_le hlt hle⟩
      · have := ih.2 c hc
        exact ⟨by omega, this.2⟩

theorem forall_only {P : Call → Prop} (h : Trip Next w calls xs u)
    (hnext : ∀ {w calls x rest}, Next w calls x rest → w.offset < rest.offset → ∀ c ∈ only label calls, P c) :
    ∀ c ∈ only label calls, P c := by
  induction h with
  | nil u => simp
  | cons hn _ hlt _ ih =>
    intro c hc
    rw [only_append] at hc
    rcases List.mem_append.1 hc with hc | hc
    · exact hnext hn hlt c hc
    · exact ih c hc

end Trip

/-- The fault of a loop with this word that made no progress. -/
def Stalled {γ : Type} (word : String) (r : Except Fault γ) : Prop := ∃ position, r = .error (.stalled word position)

/-- Where only the last of the rounds can stall, the loop does if and only if some round does. -/
theorem stalls_append {γ : Type} {stalls moves : γ → Prop} (hnot : ∀ {c}, moves c → ¬ stalls c) {stalled : Prop}
    {before last : List γ} (hbefore : ∀ c ∈ before, moves c)
    (hlast : (stalled ∧ ∃ c ∈ last, stalls c) ∨ ¬ stalled ∧ ∀ c ∈ last, moves c) :
    (stalled ↔ ∃ c ∈ before ++ last, stalls c) ∧ (¬ stalled → ∀ c ∈ before ++ last, moves c) := by
  simp only [List.mem_append]
  rcases hlast with ⟨hstalled, c, hc, hstalls⟩ | ⟨hstalled, hmoves⟩
  · exact ⟨iff_of_true hstalled ⟨c, .inr hc, hstalls⟩, fun hn => absurd hstalled hn⟩
  · refine ⟨iff_of_false hstalled ?_, fun _ c hc => hc.elim (hbefore c) (hmoves c)⟩
    rintro ⟨c, hc | hc, hstalls⟩
    · exact hnot (hbefore c hc) hstalls
    · exact hnot (hmoves c hc) hstalls

/-- A loop that has put out `xs` before: it goes through some rounds and comes to its last one. -/
def Rounds {γ : Type} (Next : View → List Call → Value → View → Prop)
    (Last : List Value → View → List Call → Except Fault (Outcome γ) → Prop) (xs : List Value) (w : View)
    (calls : List Call) (r : Except Fault (Outcome γ)) : Prop :=
  ∃ before ys u last, calls = before ++ last ∧ Trip Next w before ys u ∧ Last (xs ++ ys) u last r

namespace Rounds
variable {γ : Type} {Next : View → List Call → Value → View → Prop}
  {Last : List Value → View → List Call → Except Fault (Outcome γ) → Prop} {xs : List Value} {w rest : View}
  {calls calls' : List Call} {x : Value} {r : Except Fault (Outcome γ)}

theorem last (h : Last xs w calls r) : Rounds Next Last xs w calls r :=
  ⟨[], [], w, calls, rfl, .nil w, by rwa [List.append_nil]⟩

theorem next (hnext : Next w calls x rest) (hrest : rest.SuffixOf w) (hmoves : rest.offset ≠ w.offset)
    (h : Rounds Next Last (xs ++ [x]) rest calls' r) : Rounds Next Last xs w (calls ++ calls') r := by
  obtain ⟨before, ys, u, last, rfl, htrip, hlast⟩ := h
  refine ⟨calls ++ before, x :: ys, u, last, by rw [List.append_assoc], ?_, by simpa using hlast⟩
  exact .cons hnext hrest (Nat.lt_of_le_of_ne hrest.offset_le hmoves.symm) htrip

variable {label : String}

/-- A parser that is run once in each round is run at most once more than there are symbols. -/
theorem length_only_le (h : Rounds Next Last xs w calls r)
    (hnext : ∀ {w calls x rest}, Next w calls x rest → (only label calls).length = 1)
    (hlast : ∀ {xs u calls}, Last xs u calls r → (only label calls).length ≤ 1) :
    (only label calls).length ≤ w.length + 1 := by
  obtain ⟨before, ys, u, last, rfl, htrip, hl⟩ := h
  have hle := htrip.length_add_le
  have hone := hlast hl
  rw [only_append, List.length_append, htrip.length_only hnext]
  omega

/-- A parser that begins each round is run further and further on. -/
theorem pairwise_only (h : Rounds Next Last xs w calls r)
    (hnext : ∀ {w calls x rest}, Next w calls x rest → ∃ o, only label calls = [⟨label, w.offset, o⟩])
    (hlast : ∀ {xs u calls}, Last xs u calls r →
      only label calls = [] ∨ ∃ o, only label calls = [⟨label, u.offset, o⟩]) :
    (only label calls).Pairwise (·.offset < ·.offset) := by
  obtain ⟨before, ys, u, last, rfl, htrip, hl⟩ := h
  obtain ⟨hpairwise, hbefore⟩ := htrip.increasing hnext
  rw [only_append]
  rcases hlast hl with hnone | ⟨o, ho⟩
  · rw [hnone, List.append_nil]
    exact hpairwise
  · rw [ho]
    refine List.pairwise_append.2 ⟨hpairwise, List.pairwise_singleton _ _, fun a ha b hb => ?_⟩
    rw [List.mem_singleton.1 hb]
    exact (hbefore a ha).2

theorem stalls_iff {word : String} (h : Rounds Next Last xs w calls r)
    (hnext : ∀ {w calls x rest}, Next w calls x rest → w.offset < rest.offset → ∀ c ∈ only label calls, c.Moves)
    (hlast : ∀ {xs u calls}, Last xs u calls r →
      (Stalled word r ∧ ∃ c ∈ only label calls, c.Stalls) ∨ ¬ Stalled word r ∧ ∀ c ∈ only label calls, c.Moves) :
    (Stalled word r ↔ ∃ c ∈ only label calls, c.Stalls) ∧ (¬ Stalled word r → ∀ c ∈ only label calls, c.Moves) := by
  obtain ⟨before, ys, u, last, rfl, htrip, hl⟩ := h
  rw [only_append]
  exact stalls_append (fun hmoves => hmoves.not_stalls) (htrip.forall_only hnext) (hlast hl)

theorem of_last {P : Prop} (h : Rounds Next Last xs w calls r) (hlast : ∀ {xs u calls}, Last xs u calls r → P) : P := by
  obtain ⟨before, ys, u, last, -, -, hl⟩ := h
  exact hlast hl

/-- What a parser that matches once in each round has put out on the way. -/
theorem exists_last (label : String) (h : Rounds Next Last xs w calls r)
    (hnext : ∀ {w calls x rest}, Next w calls x rest → outputs (only label calls) = [x]) :
    ∃ ys u last, Last (xs ++ ys) u last r ∧ outputs (only label calls) = ys ++ outputs (only label last) ∧
      ys.length ≤ w.length := by
  obtain ⟨before, ys, u, last, rfl, htrip, hl⟩ := h
  refine ⟨ys, u, last, hl, ?_, Nat.le_trans (Nat.le_add_right _ _) htrip.length_add_le⟩
  rw [only_append, outputs_append, htrip.outputs_only hnext]

end Rounds

/-- The last round of a folding loop whose child makes the calls and comes to the outcomes in `E`. -/
inductive FoldLast {β : Type} (E : View → List Call → Outcome Value → Prop) (l : Parser.Loop Value β) (start : β)
    (xs : List Value) (u : View) : List Call → Except Fault (Outcome β) → Prop
  | full {acc : β} : xs.foldlM l.step start = .ok acc → l.full xs.length = true →
    (∀ most, l.most = some most → xs.length ≤ most) → FoldLast E l start xs u [] (.ok (.done u acc))
  | enough {calls : List Call} {c : Chain} {acc : β} : E u calls (.failed c) → xs.foldlM l.step start = .ok acc →
    l.least ≤ xs.length → (∀ most, l.most = some most → xs.length ≤ most) →
      FoldLast E l start xs u calls (.ok (.done u acc))
  | failed {calls : List Call} {c : Chain} : E u calls (.failed c) →
    FoldLast E l start xs u calls (.ok (.failed (c.within .repetition l.origin)))
  | incomplete {calls : List Call} {k : Needed} : E u calls (.incomplete k) →
    FoldLast E l start xs u calls (.ok (.incomplete k))
  | stalled {calls : List Call} {rest : View} {x : Value} : E u calls (.done rest x) → rest.offset = u.offset →
    FoldLast E l start xs u calls (.error (.stalled l.word u.start))
  | raised {calls : List Call} {rest : View} {x : Value} {e : Raised} : E u calls (.done rest x) →
    rest.offset ≠ u.offset → FoldLast E l start xs u calls (.error (.raised e))

theorem fold_logs {β : Type} {E : View → List Call → Outcome Value → Prop} {p : Parser Value} {v : View}
    (hp : ∀ w, w.SuffixOf v → (p w).Logs defs fun calls r => ∃ o, r = .ok o ∧ E w calls o)
    (hE : ∀ {w calls rest x}, E w calls (.done rest x) → rest.SuffixOf w) {l : Parser.Loop Value β} {start acc : β}
    (xs : List Value) (n : Nat) (hacc : xs.foldlM l.step start = .ok acc)
    (hmost : ∀ most, l.most = some most → xs.length ≤ most) {w : View} (hw : w.SuffixOf v) :
    (p.fold l n xs.length acc w).Logs defs
      (Rounds (fun w calls x rest => E w calls (.done rest x)) (FoldLast E l start) xs w) := by
  induction n generalizing xs acc w with
  | zero =>
    rw [Parser.fold]
    split
    · next hfull => exact .pure (.last (.full hacc hfull hmost))
    · exact .exhausted
  | succ n ih =>
    rw [Parser.fold]
    split
    · next hfull => exact .pure (.last (.full hacc hfull hmost))
    next hfull =>
    refine .after (hp w hw) fun calls o ho => ?_
    rcases o with ⟨rest, x⟩ | c | k
    · have hrest := hE ho
      refine .progress (fun hstall => ?_) fun hmoves => .call (fun e _ => ?_) fun acc' hstep => ?_
      · rw [List.append_nil]
        exact .last (.stalled ho hstall)
      · rw [List.append_nil]
        exact .last (.raised ho hmoves)
      · have hacc' : (xs ++ [x]).foldlM l.step start = .ok acc' := by
          rw [List.foldlM_append, hacc]
          show [x].foldlM l.step acc = .ok acc'
          simpa using hstep
        have hmost' : ∀ most, l.most = some most → (xs ++ [x]).length ≤ most := by
          intro most hm
          simp only [Parser.Loop.full, hm, decide_eq_true_eq] at hfull
          rw [List.length_append, List.length_singleton]
          omega
        have hlength : (xs ++ [x]).length = xs.length + 1 := by simp
        rw [← hlength]
        exact (ih (xs ++ [x]) hacc' hmost' (hw.trans hrest)).mono fun calls' r h => .next ho hrest hmoves h
    · dsimp only
      split
      · exact .pure (by rw [List.append_nil]; exact .last (.failed ho))
      · next hleast => exact .pure (by rw [List.append_nil]; exact .last (.enough ho hacc (by omega) hmost))
    · exact .pure (by rw [List.append_nil]; exact .last (.incomplete ho))

/-- The last round of a repetition up to a terminator, with the calls of the item and the terminator. -/
inductive TillLast (item stop : String) (origin : Position) (xs : List Value) (u : View) :
    List Call → Except Fault (Outcome (List Value × Value)) → Prop
  | closed {calls : List Call} {rest : View} {y : Value} : Single stop [item] u calls (.done rest y) →
    TillLast item stop origin xs u calls (.ok (.done rest (xs, y)))
  | undecided {calls : List Call} {k : Needed} : Single stop [item] u calls (.incomplete k) →
    TillLast item stop origin xs u calls (.ok (.incomplete k))
  | failed {calls calls' : List Call} {c c' : Chain} : Single stop [item] u calls (.failed c) →
    Single item [stop] u calls' (.failed c') →
      TillLast item stop origin xs u (calls ++ calls') (.ok (.failed (c'.within .repetition origin)))
  | incomplete {calls calls' : List Call} {c : Chain} {k : Needed} : Single stop [item] u calls (.failed c) →
    Single item [stop] u calls' (.incomplete k) →
      TillLast item stop origin xs u (calls ++ calls') (.ok (.incomplete k))
  | stalled {calls calls' : List Call} {c : Chain} {rest : View} {x : Value} :
    Single stop [item] u calls (.failed c) → Single item [stop] u calls' (.done rest x) → rest.offset = u.offset →
      TillLast item stop origin xs u (calls ++ calls') (.error (.stalled "many_till" u.start))

/-- A round of a repetition up to a terminator after which it goes on. -/
def TillNext (item stop : String) (w : View) (calls : List Call) (x : Value) (rest : View) : Prop :=
  ∃ before after c, calls = before ++ after ∧ Single stop [item] w before (.failed c) ∧
    Single item [stop] w after (.done rest x)

theorem manyTill_logs {item stop : String} {p t : Parser Value} {v : View}
    (hp : ∀ w, w.SuffixOf v → (p w).Logs defs fun calls r => ∃ o, r = .ok o ∧ Single item [stop] w calls o)
    (ht : ∀ w, w.SuffixOf v → (t w).Logs defs fun calls r => ∃ o, r = .ok o ∧ Single stop [item] w calls o)
    (origin : Position) (n : Nat) (xs : List Value) {w : View} (hw : w.SuffixOf v) :
    (Parser.manyTill origin p t n xs w).Logs defs
      (Rounds (TillNext item stop) (TillLast item stop origin) xs w) := by
  induction n generalizing xs w with
  | zero => exact .exhausted
  | succ n ih =>
    refine .after (ht w hw) fun calls o ho => ?_
    rcases o with ⟨rest, y⟩ | c | k
    · exact .pure (by rw [List.append_nil]; exact .last (.closed ho))
    · refine .after (hp w hw) fun calls' o' ho' => ?_
      rcases o' with ⟨rest, x⟩ | c' | k
      · have hrest := ho'.suffix rest x rfl
        refine .progress (fun hstall => ?_) fun hmoves => ?_
        · rw [List.append_nil]
          exact .last (.stalled ho ho' hstall)
        · refine (ih (xs ++ [x]) (hw.trans hrest)).mono fun calls'' r h => ?_
          rw [← List.append_assoc]
          exact .next ⟨calls, calls', c, rfl, ho, ho'⟩ hrest hmoves h
      · exact .pure (by rw [List.append_nil]; exact .last (.failed ho ho'))
      · exact .pure (by rw [List.append_nil]; exact .last (.incomplete ho ho'))
    · exact .pure (by rw [List.append_nil]; exact .last (.undecided ho))

end StreamGrammar
