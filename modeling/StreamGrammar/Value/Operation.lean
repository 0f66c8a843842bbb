import StreamGrammar.Raised
import StreamGrammar.Value.Equality

/-! # Operations on values

Sums, lengths, elements and order. Each operation is defined on some types of values only, and on the
others it ends in a mishap that names them. -/

namespace StreamGrammar

namespace Value

/-- A view as the text or bytes that it shows; every other value as it is. -/
def raw : Value → Value
  | view v => chunk v.fragment.fix
  | x => x

/-! ### Sums, lengths and order -/

/-- Numbers are added; text, bytes, lists and tuples are joined. Nothing can be added to a window. -/
def add : Value → Value → Except Raised Value
  | chunk (.bytes .window _), y => Mishap.raise (.noSum "memoryview" y.typeName)
  | chunk c, chunk d => match c.append? d with
    | some e => .ok (chunk e)
    | none => Mishap.raise (.noSum c.typeName d.typeName)
  | list xs, list ys => .ok (list (xs ++ ys))
  | tuple xs, tuple ys => .ok (tuple (xs ++ ys))
  | x, y => match x.numeral?, y.numeral? with
    | some m, some n => .ok (int (m.toInt + n.toInt))
    | _, _ => Mishap.raise (.noSum x.typeName y.typeName)

def size : Value → Except Raised Nat
  | chunk c => .ok c.length
  | list xs => .ok xs.length
  | tuple xs => .ok xs.length
  | record _ xs => .ok xs.length
  | view v => .ok v.length
  | x => Mishap.raise (.noLength x.typeName)

/-- The first chunk comes behind the second in the order of codes; windows have no order. -/
def chunkExceeds? : Chunk → Chunk → Option Bool
  | .bytes .window _, _ => none
  | _, .bytes .window _ => none
  | c, d =>
    if c.kind = d.kind then
      some (decide (d.symbols.map Symbol.code < c.symbols.map Symbol.code))
    else none

/-- The first value is above the second: numbers by size, text and bytes by their codes. -/
def exceeds (x y : Value) : Except Raised Bool :=
  let found? := match x, y with
    | chunk c, chunk d => chunkExceeds? c d
    | _, _ => do return (← y.numeral?).toInt < (← x.numeral?).toInt
  match found? with
  | some b => .ok b
  | none => Mishap.raise (.noOrder ">" x.typeName y.typeName)

/-! ### Elements -/

/-- The elements of a value that has them in a row; a byte is a number here. -/
def row? : Value → Option (List Value)
  | chunk (.text cs) => some (cs.map fun c => chunk (.text [c]))
  | chunk (.bytes _ bs) => some (bs.map fun b => int b.toNat)
  | list xs => some xs
  | tuple xs => some xs
  | _ => none

/-- What a value is made of; of a record these are its fields. -/
def elements : Value → Except Raised (List Value)
  | record fields _ => .ok (fields.map text)
  | x => match x.row? with
    | some xs => .ok xs
    | none => Mishap.raise (.notIterable x.typeName)

/-- The elements from the last to the first. -/
def reversed : Value → Except Raised (List Value)
  | record fields _ => .ok (fields.map text).reverse
  | x => match x.row? with
    | some xs => .ok xs.reverse
    | none => Mishap.raise (.notReversible x.typeName)

/-- Indices take 64 bits with a sign. -/
def isIndex (n : Int) : Bool :=
  -9223372036854775808 ≤ n && n < 9223372036854775808

/-- An element of a row by its index; negative ones count from the end. -/
def nth? (xs : List Value) (index : Int) : Option Value :=
  let i := if index < 0 then index + xs.length else index
  if i < 0 then none else xs[i.toNat]?

/-- The value of a field. -/
def entry (fields : List String) (xs : List Value) (key : Value) : Except Raised Value :=
  match key.unhashable?, (fields.zip xs).find? fun p => key.same (text p.1) with
  | some k, _ => Mishap.raise (.notHashable k.typeName)
  | none, some p => .ok p.2
  | none, none => Mishap.raise (.noEntry key.shown)

/-- An element by its index, or the value of a field. -/
def item (x key : Value) : Except Raised Value :=
  match x, x.row?, key.numeral? with
  | record fields xs, _, _ => entry fields xs key
  | _, none, _ => Mishap.raise (.notSubscriptable x.typeName)
  | _, some _, none => Mishap.raise (.notAnIndex x.typeName key.typeName)
  | _, some xs, some n =>
    if !isIndex n.toInt then Mishap.raise .indexTooLarge
    else match nth? xs n.toInt with
      | some y => .ok y
      | none => Mishap.raise (.indexOutside x.typeName)

/-! ### Joining -/

/-- The parts one after the other in a chunk of the given kind. -/
def joined (kind : Kind) (parts : List Value) : Except Raised Chunk :=
  parts.zipIdx.foldlM (fun done (part, index) =>
    let found? := match part with
      | chunk c => done.append? c
      | _ => none
    match found? with
    | some c => .ok c
    | none => Mishap.raise (.notJoinable index kind part.typeName)) (Chunk.empty kind)

/-- The parts of a value as texts, all of which must be text. -/
def texts (x : Value) : Except Raised (List String) := do
  let parts ← x.elements
  parts.zipIdx.mapM fun (part, index) =>
    match part with
    | chunk (.text cs) => .ok (String.ofList cs)
    | _ => Mishap.raise (.notJoinable index .text part.typeName)

/-- The byte that a number is. -/
def octet (x : Value) : Except Raised UInt8 :=
  match x.numeral? with
  | none => Mishap.raise (.notANumber x.typeName)
  | some n =>
    if 0 ≤ n.toInt ∧ n.toInt < 256 then .ok (UInt8.ofNat n.toNat) else Mishap.raise .byteOutside

end Value

/-- The buffer with the elements of `x` as more bytes at its end; only growable bytes can grow. -/
def Buffer.extend (b : Buffer) (x : Value) : Except Raised Buffer :=
  match b.content with
  | .bytes .growable bs => do
    let more ← (← x.elements).mapM Value.octet
    return { b with content := .bytes .growable (bs ++ more) }
  | c => Mishap.raise (.noMember c.typeName "extend")

end StreamGrammar
