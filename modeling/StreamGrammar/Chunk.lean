import StreamGrammar.Text.Lowercase
import StreamGrammar.Text.Quoted

/-! # Chunks of text and bytes

A chunk is a finite run of symbols of one kind: characters, or bytes held in one of three forms. What
a chunk denotes is its list of symbols, and a character is never the same symbol as a byte. -/

namespace StreamGrammar

/-- Text holds characters, binary data holds bytes. -/
inductive Kind where
  | text
  | binary
  deriving DecidableEq, Repr

def Kind.name : Kind → String
  | text => "text"
  | binary => "binary"

/-- How a run of bytes is held: for good, so that it can grow in place, or as a window on other data. A window
has one dimension and its items are unsigned bytes (the format `B`); windows of another format or shape are not
modelled. -/
inductive ByteForm where
  | fixed
  | growable
  | window
  deriving DecidableEq, Repr

/-- One unit of input. -/
inductive Symbol where
  | char (c : Char)
  | byte (b : UInt8)
  deriving DecidableEq, Repr

inductive Chunk where
  | text (cs : List Char)
  | bytes (form : ByteForm) (bs : List UInt8)
  deriving DecidableEq, Repr

/-! ### Symbols -/

namespace Symbol

def kind : Symbol → Kind
  | char _ => .text
  | byte _ => .binary

/-- The symbol as a chunk of length one. -/
def toChunk : Symbol → Chunk
  | char c => .text [c]
  | byte b => .bytes .fixed [b]

/-- Code point of a character, value of a byte. -/
def code : Symbol → Nat
  | char c => c.toNat
  | byte b => b.toNat

/-- A character and a byte of the same code have the same hash. -/
instance : Hashable Symbol := ⟨fun s => hash s.code⟩

/-- The symbol is the ASCII character `c` in its kind. -/
def isAscii (c : Char) : Symbol → Bool
  | char d => d == c
  | byte b => b.toNat == c.toNat

def lowerByte (b : UInt8) : UInt8 :=
  if 65 ≤ b.toNat ∧ b.toNat ≤ 90 then b + 32 else b

/-- Lower case; of a byte only the ASCII letters have one. -/
def lower : Symbol → List Symbol
  | char c => (Text.lower c).map char
  | byte b => [byte (lowerByte b)]

end Symbol

/-! ### Chunks -/

namespace Chunk

def kind : Chunk → Kind
  | text _ => .text
  | bytes _ _ => .binary

/-- The symbols of the chunk, first to last. -/
def symbols : Chunk → List Symbol
  | text cs => cs.map .char
  | bytes _ bs => bs.map .byte

def length : Chunk → Nat
  | text cs => cs.length
  | bytes _ bs => bs.length

def get? (c : Chunk) (i : Nat) : Option Symbol :=
  match c with
  | text cs => cs[i]?.map .char
  | bytes _ bs => bs[i]?.map .byte

/-- The `length` symbols from `offset` on, in the same form. -/
def cut (c : Chunk) (offset length : Nat) : Chunk :=
  match c with
  | text cs => text ((cs.drop offset).take length)
  | bytes form bs => bytes form ((bs.drop offset).take length)

/-- The chunk with its bytes held for good. -/
def fix : Chunk → Chunk
  | text cs => text cs
  | bytes _ bs => bytes .fixed bs

/-- The chunk of this kind without symbols. -/
def empty : Kind → Chunk
  | .text => text []
  | .binary => bytes .fixed []

/-- The chunks of length one in a chunk. -/
def singles (c : Chunk) : List Chunk :=
  c.symbols.map Symbol.toChunk

/-- Both chunks one after the other, in the form of the first, if they are of one kind. -/
def append? : Chunk → Chunk → Option Chunk
  | text cs, text ds => some (text (cs ++ ds))
  | bytes form bs, bytes _ ds => some (bytes form (bs ++ ds))
  | _, _ => none

/-- The chunk `times` times over. -/
def replicate (times : Nat) : Chunk → Chunk
  | text cs => text (List.replicate times cs).flatten
  | bytes form bs => bytes form (List.replicate times bs).flatten

/-- Same kind and same symbols; the form does not matter. -/
def same (c d : Chunk) : Bool :=
  c.kind == d.kind && c.symbols == d.symbols

/-- Name of the type of a value that is this chunk. -/
def typeName : Chunk → String
  | text _ => "str"
  | bytes .fixed _ => "bytes"
  | bytes .growable _ => "bytearray"
  | bytes .window _ => "memoryview"

/-- The chunk as it is shown in names and messages. -/
def shown : Chunk → String
  | text cs => Text.quoted cs
  | bytes .fixed bs => Text.quotedBytes bs
  | bytes .growable bs => "bytearray(" ++ Text.quotedBytesStrict bs ++ ")"
  | bytes .window _ => "<memory>"

def ofString (s : String) : Chunk :=
  text s.toList

/-! ### The symbols of a chunk -/

variable (c d : Chunk)

@[simp] theorem length_symbols : c.symbols.length = c.length := by
  cases c <;> simp [symbols, length]

@[simp] theorem get?_eq_symbols (i : Nat) : c.get? i = c.symbols[i]? := by
  cases c <;> simp [get?, symbols]

@[simp] theorem symbols_cut (offset length : Nat) :
    (c.cut offset length).symbols = (c.symbols.drop offset).take length := by
  cases c <;> simp [cut, symbols]

@[simp] theorem symbols_fix : c.fix.symbols = c.symbols := by
  cases c <;> rfl

@[simp] theorem kind_fix : c.fix.kind = c.kind := by
  cases c <;> rfl

@[simp] theorem length_fix : c.fix.length = c.length := by
  cases c <;> rfl

@[simp] theorem kind_cut (offset length : Nat) : (c.cut offset length).kind = c.kind := by
  cases c <;> rfl

theorem kind_of_mem_symbols {s : Symbol} (h : s ∈ c.symbols) : s.kind = c.kind := by
  cases c <;> simp only [symbols, List.mem_map] at h <;> obtain ⟨_, _, rfl⟩ := h <;> rfl

end Chunk

end StreamGrammar
