import StreamGrammar.Chunk
import StreamGrammar.Position

/-! # Views of a buffer

A view is a stretch of a buffer, given by an absolute position and a length that fit into it. Every
operation yields another view of the same buffer, so that positions need no conversion. What a view
denotes is `View.symbols`; `drop` and `take` are exact on it, and `advance`, `slice` and `splitAt` are
their checked forms for indices that a caller supplies. The start of a view made by them is computed,
so it is a plain number; a view that keeps the start of another also keeps the way it is written. -/

namespace StreamGrammar

/-- Symbols held by a caller. Two buffers with equal content are different when their sources are. -/
structure Buffer where
  source : Nat
  content : Chunk
  deriving DecidableEq, Repr

namespace Buffer

def length (b : Buffer) : Nat := b.content.length

def kind (b : Buffer) : Kind := b.content.kind

def symbols (b : Buffer) : List Symbol := b.content.symbols

@[simp] theorem length_symbols (b : Buffer) : b.symbols.length = b.length :=
  b.content.length_symbols

end Buffer

/-- The `length` symbols of `buffer` from `start` on. -/
structure View where
  buffer : Buffer
  start : Position
  length : Nat
  fits : start.toNat + length ≤ buffer.length
  deriving DecidableEq, Repr

/-- Why no view can be had. -/
inductive ViewFault where
  | notABuffer (typeName : String)
  | offsetOutside (size : Nat) (offset : Numeral)
  | stretchOutside (offset : Numeral) (stop : Int) (size : Nat)
  | unitOutside (index : Numeral) (length : Nat)
  | advanceOutside (count : Numeral) (length : Nat)
  | sliceOutside (start stop : Numeral) (length : Nat)
  | notASuffix
  | otherKind
  deriving DecidableEq, Repr

/-- The wording of a fault, with numbers as the caller wrote them; comparing with a literal of the other
kind has none of its own. -/
def ViewFault.message : ViewFault → Option String
  | notABuffer typeName => some s!"Input buffer must be str or bytes-like, got {typeName}"
  | offsetOutside size offset => some s!"Input.offset must be within 0..{size}, got {offset.text}"
  | stretchOutside offset stop size =>
    some s!"Input view [{offset.text}, {stop}) exceeds buffer of length {size}"
  | unitOutside index length => some s!"Unit index {index.text} outside view of length {length}"
  | advanceOutside count length => some s!"Cannot advance by {count.text} in view of length {length}"
  | sliceOutside start stop length =>
    some s!"Slice [{start.text}, {stop.text}) outside view of length {length}"
  | notASuffix => some "remaining is not a suffix of this input"
  | otherKind => none

namespace View

/-! ### Construction -/

/-- The view of all of `b`. -/
def whole (b : Buffer) : View where
  buffer := b
  start := .ofNat 0
  length := b.length
  fits := by simp

/-- The view of `b` at `offset`, of the given length or up to the end. -/
def of (b : Buffer) (offset : Numeral) (length : Option Numeral) : Except ViewFault View :=
  if h : 0 ≤ offset.toInt ∧ offset.toInt ≤ b.length then
    match length with
    | none => .ok ⟨b, ⟨offset, h.1⟩, b.length - offset.toNat, by
        rw [Position.toNat_mk, Numeral.toNat]
        omega⟩
    | some n =>
      if hn : 0 ≤ n.toInt ∧ offset.toInt + n.toInt ≤ b.length then
        .ok ⟨b, ⟨offset, h.1⟩, n.toNat, by
          rw [Position.toNat_mk, Numeral.toNat]
          omega⟩
      else .error (.stretchOutside offset (offset.toInt + n.toInt) b.length)
  else .error (.offsetOutside b.length offset)

/-! ### Queries -/

variable (v : View)

/-- Absolute offset of the first symbol. -/
def offset : Nat := v.start.toNat

/-- Absolute offset just behind the last symbol. -/
def stop : Nat := v.offset + v.length

theorem stop_le : v.stop ≤ v.buffer.length := v.fits

def isEmpty : Bool := v.length == 0

def kind : Kind := v.buffer.kind

/-- A copy of the viewed stretch, in the form of the buffer. -/
def fragment : Chunk := v.buffer.content.cut v.offset v.length

/-- What the view denotes. -/
def symbols : List Symbol := (v.buffer.symbols.drop v.offset).take v.length

def symbol? (i : Nat) : Option Symbol :=
  if i < v.length then v.buffer.content.get? (v.offset + i) else none

/-- The symbol at an index of the view. -/
def unitAt (index : Numeral) : Except ViewFault Symbol :=
  match if index.toInt < 0 then none else v.symbol? index.toNat with
  | some s => .ok s
  | none => .error (.unitOutside index v.length)

/-! ### Derived views -/

/-- The view without its first `n` symbols. -/
def drop (n : Nat) : View where
  buffer := v.buffer
  start := .ofNat (v.offset + min n v.length)
  length := v.length - n
  fits := by
    have := v.stop_le
    simp only [stop, Position.toNat_ofNat] at this ⊢
    omega

/-- The first `n` symbols of the view. -/
def take (n : Nat) : View where
  buffer := v.buffer
  start := .ofNat v.offset
  length := min n v.length
  fits := by
    have := v.stop_le
    simp only [stop, Position.toNat_ofNat] at this ⊢
    omega

def advance (count : Numeral) : Except ViewFault View :=
  if 0 ≤ count.toInt ∧ count.toInt ≤ v.length then .ok (v.drop count.toNat)
  else .error (.advanceOutside count v.length)

/-- The symbols from `start` up to `stop`, or to the end. -/
def slice (start : Numeral) (stop : Option Numeral) : Except ViewFault View :=
  let stop : Numeral := stop.getD (.int v.length)
  if 0 ≤ start.toInt ∧ start.toInt ≤ stop.toInt ∧ stop.toInt ≤ v.length then
    .ok ((v.drop start.toNat).take (stop.toInt - start.toInt).toNat)
  else .error (.sliceOutside start stop v.length)

/-- The first `count` symbols and the rest. -/
def splitAt (count : Numeral) : Except ViewFault (View × View) := do
  let head ← v.slice 0 (some count)
  let rest ← v.advance count
  return (head, rest)

/-- The stretch from the start of `v` to the start of `rest`, which must be what is left of `v`. -/
def consumedUntil (rest : View) : Except ViewFault View :=
  if h : rest.buffer.source = v.buffer.source ∧ v.offset ≤ rest.offset ∧ rest.stop = v.stop then
    .ok ⟨v.buffer, v.start, rest.offset - v.offset, by
      have := v.stop_le
      have hs : v.start.toNat = v.offset := rfl
      simp only [stop] at h this
      omega⟩
  else .error .notASuffix

/-- The view from the start of `v` to the end of the buffer. -/
def rewrap : View where
  buffer := v.buffer
  start := v.start
  length := v.buffer.length - v.offset
  fits := by
    have := v.stop_le
    have hs : v.start.toNat = v.offset := rfl
    simp only [stop] at this
    omega

/-- The same stretch of a buffer that has grown since. -/
def onto (b : Buffer) (h : v.buffer.length ≤ b.length) : View where
  buffer := b
  start := v.start
  length := v.length
  fits := Nat.le_trans v.fits h

/-! ### Content -/

/-- Equal content, whatever the offsets and buffers. -/
def same (w : View) : Bool :=
  v.fragment.same w.fragment

/-- Equal views have equal hashes. -/
instance : Hashable View := ⟨fun v => hash v.symbols⟩

def shown : String :=
  "Input(" ++ v.fragment.fix.shown ++ ", offset=" ++ v.start.text ++ ")"

/-- How many different contents there are among `views`. -/
def distinct : List View → Nat
  | [] => 0
  | v :: views => if views.any v.same then distinct views else distinct views + 1

/-! ### What the operations denote -/

@[simp] theorem offset_whole (b : Buffer) : (whole b).offset = 0 := rfl

@[simp] theorem symbols_whole (b : Buffer) : (whole b).symbols = b.symbols := by
  simp [symbols, whole, offset, List.take_of_length_le]

@[simp] theorem length_symbols : v.symbols.length = v.length := by
  have := v.stop_le
  simp only [stop] at this
  simp only [symbols, List.length_take, List.length_drop, Buffer.length_symbols]
  omega

@[simp] theorem symbols_fragment : v.fragment.symbols = v.symbols := by
  simp [fragment, symbols, Buffer.symbols]

@[simp] theorem kind_fragment : v.fragment.kind = v.kind := by
  simp [fragment, kind, Buffer.kind]

theorem symbol?_eq_symbols (i : Nat) : v.symbol? i = v.symbols[i]? := by
  by_cases h : i < v.length
  · simp [symbol?, symbols, Buffer.symbols, h]
  · simp [symbol?, h, length_symbols]

@[simp] theorem buffer_drop (n : Nat) : (v.drop n).buffer = v.buffer := rfl

@[simp] theorem buffer_take (n : Nat) : (v.take n).buffer = v.buffer := rfl

@[simp] theorem offset_drop (n : Nat) : (v.drop n).offset = v.offset + min n v.length := rfl

@[simp] theorem length_drop (n : Nat) : (v.drop n).length = v.length - n := rfl

@[simp] theorem offset_take (n : Nat) : (v.take n).offset = v.offset := rfl

@[simp] theorem length_take (n : Nat) : (v.take n).length = min n v.length := rfl

@[simp] theorem symbols_drop (n : Nat) : (v.drop n).symbols = v.symbols.drop n := by
  by_cases h : n ≤ v.length
  · simp [symbols, List.drop_take, Nat.min_eq_left h]
  · have h0 : v.length - n = 0 := by omega
    have hl : v.symbols.length ≤ n := by rw [length_symbols]; omega
    simp [symbols, h0] at hl ⊢
    omega

@[simp] theorem symbols_take (n : Nat) : (v.take n).symbols = v.symbols.take n := by
  simp [symbols, List.take_take]

@[simp] theorem stop_drop (n : Nat) : (v.drop n).stop = v.stop := by
  simp only [stop, offset_drop, length_drop]
  omega

end View

end StreamGrammar
