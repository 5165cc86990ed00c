import HeadlessClient.Capture.Parser
import HeadlessClient.Quic.Varint

/-!
# Capture — reading QUIC variable-length integers

`readQUICVarint` of the capture tool is written independently of
`quic/quicvarint`; `reads_append` is the agreement of the two: every value the
stack can encode is read back, and nothing after it is consumed.
-/

namespace HeadlessClient.Capture

open Base Quic Wire List

/-- The loop `for i := 0; i < extra; i++`: big-endian accumulation. The value
has at most 62 bits (6 in the first byte, 56 in the rest), so the `uint64`
shift of the source loses nothing. -/
def readVarintTail : Nat → Nat → Reader Nat
  | 0, value, r => .ok (value, r)
  | extra + 1, value, r => do
      let (next, r') ← r.u8
      readVarintTail extra (value <<< 8 ||| next.toNat) r'

def readQUICVarint (r : ByteReader) : Except WireError (Nat × ByteReader) := do
  let (first, r') ← r.u8
  let extra := 1 <<< (first >>> 6).toNat - 1
  let value := (first &&& 0x3f).toNat
  readVarintTail extra value r'

/-! ## Progress -/

theorem advances_readVarintTail (extra : Nat) : ∀ value, Advances (readVarintTail extra value) := by
  induction extra with
  | zero => intro value r a r' h; cases h; exact Nat.le_refl _
  | succ extra ih =>
    intro value r a r' h
    obtain ⟨b, r₁, h₁, h⟩ := step_ok h
    have := u8_remaining h₁
    have := ih _ _ _ _ h
    omega

theorem readQUICVarint_remaining {r r' : ByteReader} {v : Nat}
    (h : readQUICVarint r = .ok (v, r')) : r'.remaining < r.remaining := by
  obtain ⟨b, r₁, h₁, h⟩ := step_ok h
  have := u8_remaining h₁
  have := advances_readVarintTail _ _ _ _ _ h
  omega

theorem advances_readQUICVarint : Advances readQUICVarint := fun _ _ _ h =>
  Nat.le_of_lt (readQUICVarint_remaining h)

/-! ## Byte-level arithmetic -/

theorem shiftLeft_or_toNat (v : Nat) (b : UInt8) :
    v <<< 8 ||| b.toNat = v * 256 + b.toNat := by
  have hb : b.toNat < 2 ^ 8 := b.toNat_lt
  rw [Nat.shiftLeft_eq, Nat.mul_comm, ← Nat.two_pow_add_eq_or_of_lt hb]

/-! ## Every encoding of a value

A value may be written in more bytes than it needs. -/

/-- A value in `2^width` bytes: `width` in the top two bits, then the value. -/
structure EncodedVarint where
  width : Nat
  value : Nat
  width_lt : width < 4
  fits : value < 64 * 256 ^ (2 ^ width - 1)

def EncodedVarint.put (x : EncodedVarint) : Bytes :=
  putUint (2 ^ x.width) (x.value + 64 * x.width * 256 ^ (2 ^ x.width - 1))

theorem tagged_byte : ∀ tag < 4, ∀ n < 64,
    (UInt8.ofNat (n + 64 * tag) >>> 6).toNat = tag ∧
      (UInt8.ofNat (n + 64 * tag) &&& 0x3f).toNat = n := by
  decide

theorem foldl_getUint (bs : Bytes) : ∀ value : Nat,
    bs.foldl (fun v b => v * 256 + b.toNat) value = value * 256 ^ bs.length + getUint bs := by
  induction bs with
  | nil => intro value; simp [getUint]
  | cons b bs ih =>
    intro value
    rw [foldl_cons, ih, getUint, length_cons, pow_succ]
    ring

theorem exact_tail (bs : Bytes) : ∀ value : Nat,
    Exact (readVarintTail bs.length value) bs (value * 256 ^ bs.length + getUint bs) := by
  intro value
  rw [← foldl_getUint]
  induction bs generalizing value with
  | nil => exact Exact.pure value
  | cons b bs ih =>
    have hrest := ih (value * 256 + b.toNat)
    rw [← shiftLeft_or_toNat] at hrest
    have hstep := (exact_u8 b).bind (q := fun next => readVarintTail bs.length
      (value <<< 8 ||| next.toNat)) hrest
    rw [shiftLeft_or_toNat] at hstep
    exact hstep

theorem EncodedVarint.put_eq (x : EncodedVarint) : x.put =
    UInt8.ofNat (x.value / 256 ^ (2 ^ x.width - 1) + 64 * x.width) ::
      putUint (2 ^ x.width - 1) x.value := by
  have hpos : 0 < 2 ^ x.width := Nat.pow_pos (by decide)
  obtain ⟨m, hm⟩ : ∃ m, 2 ^ x.width = m + 1 := ⟨2 ^ x.width - 1, by omega⟩
  rw [EncodedVarint.put, hm, Nat.add_sub_cancel, putUint, putUint_add_mul,
    Nat.add_mul_div_right _ _ (Nat.pow_pos (by decide))]

/-- **Any encoding of a value is read as the value.** -/
theorem EncodedVarint.exact (x : EncodedVarint) : Exact readQUICVarint x.put x.value := by
  have htop : x.value / 256 ^ (2 ^ x.width - 1) < 64 :=
    Nat.div_lt_of_lt_mul (by rw [Nat.mul_comm]; exact x.fits)
  obtain ⟨htag, hbits⟩ := tagged_byte x.width x.width_lt _ htop
  have htail := exact_tail (putUint (2 ^ x.width - 1) x.value) (x.value / 256 ^ (2 ^ x.width - 1))
  rw [length_putUint, getUint_putUint_mod, Nat.mul_comm, Nat.div_add_mod] at htail
  rw [x.put_eq]
  refine (exact_u8 _).bind (q := fun first : UInt8 =>
    readVarintTail (1 <<< (first >>> 6).toNat - 1) (first &&& 0x3f).toNat) ?_
  rw [htag, hbits, Nat.shiftLeft_eq, Nat.one_mul]
  exact htail

/-- `quicvarint.Append` writes one of the encodings. -/
theorem exists_encodedVarint {i : Nat} {b : Bytes} (h : Varint.append i = .ok b) :
    ∃ x : EncodedVarint, x.value = i ∧ x.put = b := by
  have hmark : ∀ tag < 4, ∀ n < 64,
      UInt8.ofNat (n + 64 * tag) = UInt8.ofNat n ||| UInt8.ofNat (64 * tag) := by decide
  unfold Varint.append at h
  simp only [Varint.maxVarInt1, Varint.maxVarInt2, Varint.maxVarInt4, Varint.maxVarInt8,
    Nat.shiftRight_eq_div_pow] at h
  -- one case per length
  split_ifs at h with h1 h2 h4 h8 <;> cases h
  · exact ⟨⟨0, i, by decide, by omega⟩, rfl, by simp [EncodedVarint.put_eq, putUint]⟩
  · refine ⟨⟨1, i, by decide, by omega⟩, rfl, ?_⟩
    simp [EncodedVarint.put_eq, putUint, hmark 1 (by decide) (i / 256) (by omega)]
  · refine ⟨⟨2, i, by decide, by omega⟩, rfl, ?_⟩
    simp [EncodedVarint.put_eq, putUint, hmark 2 (by decide) (i / 16777216) (by omega)]
  · refine ⟨⟨3, i, by decide, by omega⟩, rfl, ?_⟩
    simp [EncodedVarint.put_eq, putUint, hmark 3 (by decide) (i / 72057594037927936) (by omega)]

/-- **The two varint implementations agree**: what `quicvarint.Append` writes,
`readQUICVarint` reads back. -/
theorem reads_append {i : Nat} {b : Bytes} (h : Varint.append i = .ok b) :
    Reads readQUICVarint b i := by
  obtain ⟨x, rfl, rfl⟩ := exists_encodedVarint h
  exact x.exact.reads

theorem steady_readVarintTail (extra : Nat) : ∀ value, Steady (readVarintTail extra value) := by
  induction extra with
  | zero => exact fun value => Steady.pure value
  | succ extra ih =>
    intro value
    exact steady_u8.bind (q := fun next => readVarintTail extra (value <<< 8 ||| next.toNat))
      fun next => ih _

theorem steady_readQUICVarint : Steady readQUICVarint :=
  steady_u8.bind (q := fun first : UInt8 =>
      readVarintTail (1 <<< (first >>> 6).toNat - 1) (first &&& 0x3f).toNat)
    fun _ => steady_readVarintTail _ _

end HeadlessClient.Capture
