import StreamGrammar.Proofs.Request
import StreamGrammar.Proofs.Settled

/-! # Stretches of a view

Two views can be the same stretch of a buffer and still not be equal, since a view that keeps the start of another
keeps the way it is written, too, and a computed start is a plain number (`View.SameStretch`). What is left when a loop
has consumed symbol after symbol is `View.after`; it is the view itself where nothing has been consumed. Also here:
what looking ahead and recognizing make of a match (`Grammar.Yields.peek`, `Grammar.Yields.recognize`). -/

namespace StreamGrammar

variable {defs : Definitions}

namespace View

/-- The same symbols of the same buffer. Only the way in which the start is written may differ. -/
structure SameStretch (v w : View) : Prop where
  buffer : v.buffer = w.buffer
  offset : v.offset = w.offset
  length : v.length = w.length

/-- What is left of a view when its first `n` symbols have been consumed one after the other. -/
def after (v : View) : Nat → View
  | 0 => v
  | n + 1 => v.drop (n + 1)

variable (v : View)

theorem sameStretch_after (n : Nat) : (v.drop n).SameStretch (v.after n) := by
  cases n with
  | zero => exact ⟨rfl, by rw [offset_drop, Nat.zero_min]; rfl, rfl⟩
  | succ n => exact ⟨rfl, rfl, rfl⟩

theorem length_after (n : Nat) : (v.after n).length = v.length - n :=
  (v.sameStretch_after n).length.symm

theorem offset_after (n : Nat) : (v.after n).offset = v.offset + min n v.length :=
  (v.sameStretch_after n).offset.symm

theorem symbols_after (n : Nat) : (v.after n).symbols = v.symbols.drop n := by
  cases n with
  | zero => rfl
  | succ n => exact v.symbols_drop (n + 1)

theorem kind_after (n : Nat) : (v.after n).kind = v.kind := by
  cases n <;> rfl

theorem symbol?_after (n : Nat) : (v.after n).symbol? 0 = v.symbols[n]? := by
  rw [symbol?_eq_symbols, symbols_after, List.getElem?_drop, Nat.add_zero]

/-- One symbol more. -/
theorem drop_after (n : Nat) : (v.after n).drop 1 = v.after (n + 1) := by
  cases n with
  | zero => rfl
  | succ n =>
    refine eq_of_parts rfl (congrArg Position.ofNat ?_) (Nat.sub_sub _ _ _)
    show v.offset + min (n + 1) v.length + min 1 (v.length - (n + 1)) = v.offset + min (n + 1 + 1) v.length
    omega

theorem after_suffixOf (n : Nat) : (v.after n).SuffixOf v := by
  cases n with
  | zero => exact .refl v
  | succ n => exact .drop v (n + 1)

/-- Going on by a symbol moves the input. -/
theorem offset_after_succ_ne {n : Nat} (h : n < v.length) : (v.after (n + 1)).offset ≠ (v.after n).offset := by
  rw [offset_after, offset_after]
  omega

/-- What lies before a suffix is cut out as so many first symbols of the view. -/
theorem SuffixOf.sameStretch_take {v rest : View} (h : rest.SuffixOf v) : ∃ head, v.consumedUntil rest = .ok head ∧
    (v.take (rest.offset - v.offset)).SameStretch head := by
  obtain ⟨head, hhead, hbuffer, hstart, hstop, -⟩ := h.consumedUntil
  have hoffset : head.offset = v.offset := congrArg Position.toNat hstart
  have hlength := h.length_add
  refine ⟨head, hhead, hbuffer.symm, hoffset.symm, ?_⟩
  rw [View.stop] at hstop
  rw [length_take]
  omega

end View

/-! ### Looking ahead and recognizing -/

/-- A match of nothing at `v` with the output of a match. -/
def Outcome.peeked (v : View) : Outcome Value → Outcome Value
  | done _ x => done v x
  | failed c => failed c
  | incomplete k => incomplete k

/-- A match that yields what it has consumed since `v`. -/
def Outcome.recognized (v : View) : Outcome Value → Except Fault (Outcome Value)
  | done rest _ =>
    match v.consumedUntil rest with
    | .ok head => .ok (.done rest (.view head))
    | .error f => .error (.view f)
  | failed c => .ok (.failed c)
  | incomplete k => .ok (.incomplete k)

namespace Parser
variable {p : Parser Value}

theorem settled_peek (p : Parser Value) (v : View) :
    (Adapter.peek.parse p v).settled = (p v).settled.map (Except.map (Outcome.peeked v)) := by
  have hmap : Adapter.peek.parse p v = Outcome.peeked v <$> p v := by
    rw [map_eq_pure_bind]
    show (p v >>= _) = p v >>= _
    congr 1
    funext o
    cases o <;> rfl
  rw [hmap, Run.settled_map]

theorem settled_recognize (hp : p.Steady defs) (v : View) :
    (Adapter.recognize.parse p v).settled = (p v).settled.andThen fun o => some (o.recognized v) := by
  refine Run.Settles.eq (.bind (hp v) fun o => ?_)
  rcases o with ⟨rest, x⟩ | c | k
  · rw [Outcome.recognized]
    dsimp only
    cases v.consumedUntil rest <;> exact ⟨.ofExcept _, rfl⟩
  · exact .pure _
  · exact .pure _

end Parser

namespace Grammar.Yields
variable {g : Grammar} {v : View} {o : Outcome Value}

theorem peek (h : g.Yields defs v (.ok o)) : g.peek.Yields defs v (.ok (o.peeked v)) := by
  obtain ⟨n, hn⟩ := h.settled
  refine .of_settled (n := n + 1) ?_
  rw [Grammar.peek, parse_adapted, Parser.settled_peek, hn n (Nat.le_refl n)]
  rfl

theorem recognize (h : g.Yields defs v (.ok o)) : g.recognize.Yields defs v (o.recognized v) := by
  obtain ⟨n, hn⟩ := h.settled
  refine .of_settled (n := n + 1) ?_
  rw [Grammar.recognize, parse_adapted, Parser.settled_recognize (g.parse_steady defs (n + 1)), hn n (Nat.le_refl n)]
  rfl

/-- A match that leaves the view after `n` symbols is recognized as these symbols. -/
theorem recognize_after {n : Nat} {x : Value} (h : g.Yields defs v (.ok (.done (v.after n) x))) (hn : n ≤ v.length) :
    ∃ head, g.recognize.Yields defs v (.ok (.done (v.after n) (.view head))) ∧ (v.take n).SameStretch head := by
  obtain ⟨head, hhead, hstretch⟩ := (v.after_suffixOf n).sameStretch_take
  have hcount : (v.after n).offset - v.offset = n := by rw [View.offset_after]; omega
  have hrecognize := h.recognize
  rw [Outcome.recognized, hhead] at hrecognize
  rw [hcount] at hstretch
  exact ⟨head, hrecognize, hstretch⟩

end Grammar.Yields

end StreamGrammar
