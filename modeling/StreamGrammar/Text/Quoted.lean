import StreamGrammar.Text.Printable

/-! # Quoted text and bytes

Text is shown between apostrophes, or between double quotes where it holds an apostrophe and no
double quote. The backslash, the enclosing quote, line feed, carriage return and tab are escaped by a
backslash, whatever is not printable by its code in lower-case hexadecimal digits. -/

namespace StreamGrammar.Text

def apostrophe : Char := '\x27'
def doubleQuote : Char := '\x22'
def backslash : Char := '\x5c'

/-! ### Hexadecimal digits -/

def hexDigit (n : Nat) : Char :=
  if n < 10 then Char.ofNat (48 + n) else Char.ofNat (87 + n)

/-- The last `width` hexadecimal digits of `n`. -/
def hex : (width : Nat) → (n : Nat) → List Char
  | 0, _ => []
  | width + 1, n => hex width (n / 16) ++ [hexDigit (n % 16)]

@[simp] theorem length_hex (width n : Nat) : (hex width n).length = width := by
  induction width generalizing n with
  | zero => rfl
  | succ width ih => simp [hex, ih]

/-! ### Text -/

/-- The quote that encloses `cs`. -/
def enclosing (cs : List Char) : Char :=
  if cs.contains apostrophe && !cs.contains doubleQuote then doubleQuote else apostrophe

/-- The shortest of the escapes with two, four and eight digits that holds code `n`. -/
def escapeCode (n : Nat) : List Char :=
  if n < 0x100 then backslash :: 'x' :: hex 2 n
  else if n < 0x10000 then backslash :: 'u' :: hex 4 n
  else backslash :: 'U' :: hex 8 n

def escapeChar (quote c : Char) : List Char :=
  if c = quote ∨ c = backslash then [backslash, c]
  else if c = '\n' then [backslash, 'n']
  else if c = '\r' then [backslash, 'r']
  else if c = '\t' then [backslash, 't']
  else if isPrintable c then [c]
  else escapeCode c.toNat

/-- Text between quotes. -/
def quoted (cs : List Char) : String :=
  let q := enclosing cs
  String.ofList (q :: cs.flatMap (escapeChar q) ++ [q])

/-! ### Bytes -/

/-- A byte of the ASCII range `0x20` to `0x7e` is shown as its character. -/
def escapeByte (quote : Char) (b : UInt8) : List Char :=
  let c := Char.ofNat b.toNat
  if c = quote ∨ c = backslash then [backslash, c]
  else if c = '\n' then [backslash, 'n']
  else if c = '\r' then [backslash, 'r']
  else if c = '\t' then [backslash, 't']
  else if 0x20 ≤ b.toNat ∧ b.toNat ≤ 0x7e then [c]
  else escapeCode b.toNat

/-- Bytes between quotes, after the letter that marks them. -/
def quotedBytes (bs : List UInt8) : String :=
  let q := enclosing (bs.map fun b => Char.ofNat b.toNat)
  String.ofList ('b' :: q :: bs.flatMap (escapeByte q) ++ [q])

/-- Bytes as in `quotedBytes`, with every apostrophe escaped whichever quote encloses it. -/
def quotedBytesStrict (bs : List UInt8) : String :=
  let q := enclosing (bs.map fun b => Char.ofNat b.toNat)
  let escape (b : UInt8) : List Char :=
    if b = 39 then [backslash, apostrophe] else escapeByte q b
  String.ofList ('b' :: q :: bs.flatMap escape ++ [q])

end StreamGrammar.Text
