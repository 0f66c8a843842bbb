import Mathlib.Data.Int.ModEq
import Mathlib.Data.List.Induction
import Mathlib.Data.Nat.Digits.Defs
import StreamGrammar.Proofs.Literals

/-! # Integers of fixed width

A format of `width` bytes holds `256 ^ width` integers, no two of them congruent modulo that number
(`IntegerFormat.Holds.eq_of_modEq`), and a value is congruent to what its bytes write in base 256 whatever the sign
(`IntegerFormat.decode_modEq`). So reading and writing are inverse to each other, and the two readings of the same bytes
with and without a sign differ by a multiple of `256 ^ width` only. -/

namespace StreamGrammar

variable {defs : Definitions}

/-! ### Natural numbers -/

theorem natOfBytes_lt (bs : List UInt8) : natOfBytes bs < 256 ^ bs.length := by
  induction bs using List.reverseRecOn with
  | nil => exact Nat.one_pos
  | append_singleton bs b ih =>
    have hb := b.toNat_lt
    rw [natOfBytes_append_singleton, List.length_append, List.length_singleton, Nat.pow_succ]
    omega

theorem natOfBytes_bytesOfNat (width n : Nat) : natOfBytes (bytesOfNat width n) = n % 256 ^ width := by
  induction width generalizing n with
  | zero => rw [Nat.pow_zero, Nat.mod_one]; rfl
  | succ width ih =>
    rw [bytesOfNat, natOfBytes_append_singleton, ih, Nat.pow_succ', Nat.mod_mul, UInt8.toNat_ofNat']
    omega

theorem bytesOfNat_natOfBytes (bs : List UInt8) : bytesOfNat bs.length (natOfBytes bs) = bs := by
  induction bs using List.reverseRecOn with
  | nil => rfl
  | append_singleton bs b ih =>
    have hb := b.toNat_lt
    have hinit : (256 * natOfBytes bs + b.toNat) / 256 = natOfBytes bs := by omega
    have hlast : (256 * natOfBytes bs + b.toNat) % 256 = b.toNat := by omega
    rw [List.length_append, List.length_singleton, bytesOfNat, natOfBytes_append_singleton, hinit, hlast, ih,
      UInt8.ofNat_toNat]

/-- The most significant digit comes first. -/
theorem natOfBytes_eq_ofDigits (bs : List UInt8) :
    natOfBytes bs = Nat.ofDigits 256 (bs.reverse.map UInt8.toNat) := by
  induction bs using List.reverseRecOn with
  | nil => rfl
  | append_singleton bs b ih =>
    rw [natOfBytes_append_singleton, List.reverse_append, List.reverse_singleton, List.singleton_append, List.map_cons,
      Nat.ofDigits_cons, ← ih, Nat.add_comm]

/-! ### Formats -/

/-- The digits of a number in base 256 that the bytes are, the least significant one first. -/
def ByteOrder.digits (order : ByteOrder) (bs : List UInt8) : List Nat :=
  match order with
  | .big => bs.reverse.map UInt8.toNat
  | .little => bs.map UInt8.toNat

namespace IntegerFormat
variable {f : IntegerFormat} {bs : List UInt8} {m n : Int}

/-- The integers of the format: those from zero on, or as many below zero as from zero on. -/
def Holds (f : IntegerFormat) (n : Int) : Prop :=
  if f.signed then -(256 ^ f.width / 2) ≤ n ∧ n < 256 ^ f.width / 2 else 0 ≤ n ∧ n < 256 ^ f.width

theorem cast_size (f : IntegerFormat) : (f.size : Int) = 256 ^ f.width :=
  Int.natCast_pow 256 f.width

theorem two_mul_half (hf : 0 < f.width) : 2 * ((256 : Int) ^ f.width / 2) = 256 ^ f.width := by
  obtain ⟨w, hw⟩ := Nat.exists_eq_succ_of_ne_zero (Nat.ne_of_gt hf)
  rw [hw, Int.pow_succ]
  omega

@[simp] theorem length_arrange (f : IntegerFormat) (bs : List UInt8) : (f.arrange bs).length = bs.length := by
  unfold arrange
  split
  · rfl
  · exact List.length_reverse

@[simp] theorem arrange_arrange (f : IntegerFormat) (bs : List UInt8) : f.arrange (f.arrange bs) = bs := by
  unfold arrange
  split
  · rfl
  · exact List.reverse_reverse bs

@[simp] theorem length_encode (f : IntegerFormat) (n : Int) : (f.encode n).length = f.width := by
  rw [encode, length_arrange, length_bytesOfNat]

theorem natOfBytes_arrange (f : IntegerFormat) (bs : List UInt8) :
    natOfBytes (f.arrange bs) = Nat.ofDigits 256 (f.order.digits bs) := by
  rw [natOfBytes_eq_ofDigits, arrange]
  cases f.order with
  | big => rfl
  | little => exact congrArg (fun bs => Nat.ofDigits 256 (bs.map UInt8.toNat)) bs.reverse_reverse

theorem natOfBytes_arrange_lt (hbs : bs.length = f.width) : (natOfBytes (f.arrange bs) : Int) < 256 ^ f.width := by
  have hlt := natOfBytes_lt (f.arrange bs)
  rw [length_arrange, hbs] at hlt
  exact_mod_cast hlt

theorem decode_modEq (f : IntegerFormat) (bs : List UInt8) :
    f.decode bs ≡ natOfBytes (f.arrange bs) [ZMOD 256 ^ f.width] := by
  rw [decode, ← cast_size]
  split
  · exact Int.sub_emod_right _ _
  · exact Int.ModEq.refl _

theorem holds_decode (hf : 0 < f.width) (hbs : bs.length = f.width) : f.Holds (f.decode bs) := by
  have hlt := natOfBytes_arrange_lt hbs
  have hhalf := two_mul_half hf
  have hsize := f.cast_size
  rw [Holds, decode]
  cases f.signed with
  | false =>
    rw [Bool.false_and, if_neg Bool.false_ne_true, if_neg Bool.false_ne_true]
    exact ⟨Int.natCast_nonneg _, hlt⟩
  | true =>
    rw [Bool.true_and, if_pos rfl]
    split
    · next hupper =>
      rw [decide_eq_true_eq] at hupper
      omega
    · next hlower =>
      rw [decide_eq_true_eq] at hlower
      omega

/-- Two integers of a format that are congruent are the same. -/
theorem Holds.eq_of_modEq (hf : 0 < f.width) (hm : f.Holds m) (hn : f.Holds n) (h : m ≡ n [ZMOD 256 ^ f.width]) :
    m = n := by
  have hdvd := Int.modEq_iff_dvd.1 h
  have hhalf := two_mul_half hf
  have hnear : |n - m| < 256 ^ f.width := by
    rw [abs_lt]
    unfold Holds at hm hn
    cases hsigned : f.signed with
    | false =>
      rw [hsigned, if_neg Bool.false_ne_true] at hm hn
      omega
    | true =>
      rw [hsigned, if_pos rfl] at hm hn
      omega
  have hzero := Int.eq_zero_of_abs_lt_dvd hdvd hnear
  omega

theorem encode_decode (hbs : bs.length = f.width) : f.encode (f.decode bs) = bs := by
  have hmod : f.decode bs % f.size = natOfBytes (f.arrange bs) := by
    rw [cast_size, f.decode_modEq bs]
    exact Int.emod_eq_of_lt (Int.natCast_nonneg _) (natOfBytes_arrange_lt hbs)
  have hlength : (f.arrange bs).length = f.width := by rw [length_arrange, hbs]
  rw [encode, hmod, Int.toNat_natCast, ← hlength, bytesOfNat_natOfBytes, arrange_arrange]

theorem decode_encode (hf : 0 < f.width) (hn : f.Holds n) : f.decode (f.encode n) = n := by
  have hpos : (0 : Int) < 256 ^ f.width := Int.pow_pos (by decide)
  refine (holds_decode hf (f.length_encode n)).eq_of_modEq hf hn ((f.decode_modEq _).trans ?_)
  have hmod : ((n % 256 ^ f.width).toNat : Int) = n % 256 ^ f.width :=
    Int.toNat_of_nonneg (Int.emod_nonneg n (Int.ne_of_gt hpos))
  rw [encode, arrange_arrange, natOfBytes_bytesOfNat, cast_size, Int.natCast_mod, hmod]
  exact_mod_cast (Int.mod_modEq _ _).trans (Int.mod_modEq n _)

end IntegerFormat

/-! ### The primitive -/

namespace Grammar
variable {f : IntegerFormat} {v : View}

theorem yields_integer_iff {r : Except Fault (Outcome Value)} :
    (integer f).Yields defs v r ↔ r = Primitive.parseInteger v f :=
  yields_primitive_iff (R := (· = _)) (.integer f) rfl fun h h' => h.trans h'.symm

theorem yields_integer_of_text (hk : v.kind = .text) :
    (integer f).Yields defs v (.error (.integerOnText f.name)) :=
  yields_integer_iff.2 (if_pos hk).symm

theorem yields_integer_of_lt (hk : v.kind = .binary) (hlt : v.length < f.width) :
    (integer f).Yields defs v (.ok (.incomplete (.exact (.int (f.width - v.length : Nat))))) := by
  have hkind : v.kind ≠ .text := by rw [hk]; decide
  rw [yields_integer_iff, Primitive.parseInteger, if_neg hkind, if_pos hlt, Primitive.missing_of_pos (by omega)]

/-- The bytes that a view with enough of them begins with are what every format of their number decodes. -/
theorem exists_bytes_of_le {width : Nat} (defs : Definitions) (hk : v.kind = .binary) (hle : width ≤ v.length) :
    ∃ bs : List UInt8, bs.length = width ∧ bs.map .byte = v.symbols.take width ∧
      ∀ f : IntegerFormat, f.width = width →
        (integer f).Yields defs v (.ok (.done (v.drop width) (.int (f.decode bs)))) := by
  have hkind : v.kind ≠ .text := by rw [hk]; decide
  have hhead : (v.take width).fragment.kind ≠ .text := by rwa [View.kind_fragment]
  have hbytes := Primitive.map_bytesOf hhead
  rw [View.symbols_fragment, View.symbols_take] at hbytes
  refine ⟨_, ?_, hbytes, ?_⟩
  · have hlength := congrArg List.length hbytes
    rw [List.length_map, List.length_take, View.length_symbols] at hlength
    omega
  · rintro f rfl
    exact yields_integer_iff.2 (Primitive.parseInteger_of_le hkind hle).symm

theorem bytes_inj {bs cs : List UInt8} (h : bs.map Symbol.byte = cs.map Symbol.byte) : bs = cs :=
  List.map_injective_iff.2 (fun _ _ h => Symbol.byte.inj h) h

theorem yields_encoded (hf : 0 < f.width) {n : Int} (hn : f.Holds n) (hk : v.kind = .binary) {ss : List Symbol}
    (hsymbols : v.symbols = (f.encode n).map .byte ++ ss) :
    f.width ≤ v.length ∧ (v.drop f.width).symbols = ss ∧
      (integer f).Yields defs v (.ok (.done (v.drop f.width) (.int n))) := by
  have hwidth : ((f.encode n).map Symbol.byte).length = f.width := by rw [List.length_map, f.length_encode]
  have hle : f.width ≤ v.length := by
    have hlength := congrArg List.length hsymbols
    rw [View.length_symbols, List.length_append, hwidth] at hlength
    omega
  obtain ⟨bs, -, hbytes, hyields⟩ := exists_bytes_of_le defs hk hle
  rw [hsymbols, List.take_left' hwidth] at hbytes
  have hdone := hyields f rfl
  rw [bytes_inj hbytes, IntegerFormat.decode_encode hf hn] at hdone
  exact ⟨hle, by rw [View.symbols_drop, hsymbols, List.drop_left' hwidth], hdone⟩

/-- Reading bytes from the last to the first is reading them backwards from the first to the last. -/
theorem yields_mirrored {w : View} (f : IntegerFormat) (hv : v.kind = .binary) (hw : w.kind = .binary)
    (hle : f.width ≤ v.length) (hreverse : w.symbols.take f.width = (v.symbols.take f.width).reverse) :
    ∃ n, (integer { f with order := .little }).Yields defs v (.ok (.done (v.drop f.width) (.int n))) ∧
      (integer { f with order := .big }).Yields defs w (.ok (.done (w.drop f.width) (.int n))) := by
  have hle' : f.width ≤ w.length := by
    have hlength := congrArg List.length hreverse
    rw [List.length_reverse, List.length_take, List.length_take, View.length_symbols, View.length_symbols] at hlength
    omega
  obtain ⟨bs, -, hbytes, hyields⟩ := exists_bytes_of_le defs hv hle
  obtain ⟨cs, -, hbytes', hyields'⟩ := exists_bytes_of_le defs hw hle'
  rw [hreverse, ← hbytes, ← List.map_reverse] at hbytes'
  have hbig := hyields' { f with order := .big } rfl
  rw [bytes_inj hbytes'] at hbig
  -- the little-endian format turns the bytes round before it reads them
  exact ⟨_, hyields { f with order := .little } rfl, hbig⟩

theorem not_yields_integer_failed (c : Chain) : ¬ (integer f).Yields defs v (.ok (.failed c)) := by
  intro hfailed
  cases hk : v.kind with
  | text => cases hfailed.unique (yields_integer_of_text hk)
  | binary =>
    by_cases hlt : v.length < f.width
    · cases hfailed.unique (yields_integer_of_lt hk hlt)
    · obtain ⟨bs, -, -, hyields⟩ := exists_bytes_of_le defs hk (Nat.not_lt.1 hlt)
      cases hfailed.unique (hyields f rfl)

/-- What reading an integer of the format comes to. -/
structure IntegerLaw (defs : Definitions) (f : IntegerFormat) : Prop where
  short : ∀ v : View, v.kind = .binary → v.length < f.width →
    (integer f).Yields defs v (.ok (.incomplete (.exact (.int (f.width - v.length : Nat)))))
  decoded : ∀ v : View, v.kind = .binary → f.width ≤ v.length → ∃ rest n bs,
    v.advance f.width = .ok rest ∧ (integer f).Yields defs v (.ok (.done rest (.int n))) ∧ f.Holds n ∧
      bs.map .byte = v.symbols.take f.width ∧ f.encode n = bs ∧
        n ≡ (Nat.ofDigits 256 (f.order.digits bs) : Nat) [ZMOD 256 ^ f.width]
  encoded : ∀ (n : Int) (v : View) (ss : List Symbol), f.Holds n → v.kind = .binary →
    v.symbols = (f.encode n).map .byte ++ ss → ∃ rest, v.advance f.width = .ok rest ∧ rest.symbols = ss ∧
      (integer f).Yields defs v (.ok (.done rest (.int n)))
  congruent : ∀ v : View, v.kind = .binary → f.width ≤ v.length → ∃ rest m n,
    (integer { f with signed := true }).Yields defs v (.ok (.done rest (.int m))) ∧
      (integer { f with signed := false }).Yields defs v (.ok (.done rest (.int n))) ∧
        m ≡ n [ZMOD 256 ^ f.width]
  mirrored : ∀ v w : View, v.kind = .binary → w.kind = .binary → f.width ≤ v.length →
    w.symbols.take f.width = (v.symbols.take f.width).reverse → ∃ n,
      (integer { f with order := .little }).Yields defs v (.ok (.done (v.drop f.width) (.int n))) ∧
        (integer { f with order := .big }).Yields defs w (.ok (.done (w.drop f.width) (.int n)))
  notFailed : ∀ (v : View) (c : Chain), ¬ (integer f).Yields defs v (.ok (.failed c))
  onText : ∀ v : View, v.kind = .text → ∃ e, (integer f).Yields defs v (.error e) ∧ e.label = "TypeError"

/-- Reading integers of a fixed width is exact in both directions: the value is the one of the format whose encoding has
been consumed. -/
theorem integer_exact (defs : Definitions) {f : IntegerFormat} (hf : 0 < f.width) : IntegerLaw defs f where
  short v hk hlt := yields_integer_of_lt hk hlt
  decoded v hk hle := by
    obtain ⟨bs, hlength, hbytes, hyields⟩ := exists_bytes_of_le defs hk hle
    have hvalue := f.decode_modEq bs
    rw [f.natOfBytes_arrange bs] at hvalue
    exact ⟨_, _, bs, View.advance_of_le hle, hyields f rfl, f.holds_decode hf hlength, hbytes,
      f.encode_decode hlength, hvalue⟩
  encoded n v ss hn hk hsymbols := by
    obtain ⟨hle, hrest, hdone⟩ := yields_encoded hf hn hk hsymbols
    exact ⟨_, View.advance_of_le hle, hrest, hdone⟩
  congruent v hk hle := by
    obtain ⟨bs, -, -, hyields⟩ := exists_bytes_of_le defs hk hle
    have hsigned := IntegerFormat.decode_modEq { f with signed := true } bs
    have hunsigned := IntegerFormat.decode_modEq { f with signed := false } bs
    exact ⟨_, _, _, hyields { f with signed := true } rfl, hyields { f with signed := false } rfl,
      hsigned.trans hunsigned.symm⟩
  mirrored v w hv hw hle hreverse := yields_mirrored f hv hw hle hreverse
  notFailed v c := not_yields_integer_failed c
  onText v hk := ⟨_, yields_integer_of_text hk, rfl⟩

/-- Three bytes, the least significant one first, of which the last holds the sign. -/
def offsetFormat : IntegerFormat := ⟨3, .little, true⟩

/-- The inner part of a longer frame. -/
def frameWindow : View := ⟨⟨0, .bytes .window [9, 1, 2, 255, 127, 9]⟩, .ofNat 1, 4, by decide⟩

theorem integer_exact_frameWindow :
    0 < offsetFormat.width ∧
    (integer offsetFormat).Yields noDefinitions frameWindow (.ok (.done (frameWindow.drop 3) (.int (-65023)))) ∧
    (integer offsetFormat).Yields noDefinitions (frameWindow.drop 3) (.ok (.incomplete (.exact (.int 2)))) ∧
    ∃ rest m n, (integer { offsetFormat with signed := true }).Yields noDefinitions frameWindow
        (.ok (.done rest (.int m))) ∧
      (integer { offsetFormat with signed := false }).Yields noDefinitions frameWindow (.ok (.done rest (.int n))) ∧
        m ≡ n [ZMOD 256 ^ 3] := by
  have hwidth : 0 < offsetFormat.width := by decide
  have hholds : offsetFormat.Holds (-65023) := by
    rw [IntegerFormat.Holds, offsetFormat]
    decide
  have hlaw := integer_exact noDefinitions hwidth
  obtain ⟨rest, hrest, -, hdone⟩ := hlaw.encoded (-65023) frameWindow [.byte 127] hholds rfl (by decide)
  rw [View.advance_of_le (by decide)] at hrest
  cases hrest
  exact ⟨hwidth, hdone, hlaw.short _ rfl (by decide), hlaw.congruent frameWindow rfl (by decide)⟩

end Grammar
end StreamGrammar
