import HeadlessClient.Base.Except
import HeadlessClient.Quic.Varint

/-!
# Quic — frames and the frame store

The frames of a packet payload (`quic/internal/wire`), as far as the packer
touches them: CRYPTO, PING, ACK, and every other frame as its serialization.

`*wire.CryptoFrame` is a POINTER, and `chaosProtect` mutates the frames it
points at. The store makes that explicit: a `FrameRef.crypto a` is the pointer
and `Store` holds what it points at. Go slices of the data are values here: no
modelled function writes through one.
-/

namespace HeadlessClient.Quic

open Base List

/-! ## Frame types on the wire -/

def frameTypePing : UInt8 := 0x01
def frameTypeAck : UInt8 := 0x02
def frameTypeAckECN : UInt8 := 0x03
def frameTypeCrypto : UInt8 := 0x06

/-- A Go conversion `uint64(x)` of a signed value. -/
def toUint64 (x : Int) : Nat := (x % 2 ^ 64).toNat

theorem toUint64_le {x : Int} (h : 0 ≤ x) : (toUint64 x : Int) ≤ x := by
  unfold toUint64
  omega

/-! ## CRYPTO -/

structure CryptoFrame where
  offset : Nat
  data : Bytes
deriving DecidableEq, Repr

namespace CryptoFrame

/-- One past the last stream byte the frame carries. -/
def finish (f : CryptoFrame) : Nat := f.offset + f.data.length

/-- `(*CryptoFrame).Append`: the bytes it appends. -/
def append (f : CryptoFrame) : Except Panic Bytes := do
  let offset ← Varint.append f.offset
  let length ← Varint.append f.data.length
  .ok (frameTypeCrypto :: (offset ++ length ++ f.data))

/-- The serialized size of a frame that can be serialized. -/
def size (f : CryptoFrame) : Nat :=
  1 + Varint.size f.offset + Varint.size f.data.length + f.data.length

theorem append_ok {f : CryptoFrame} (h : f.finish < 2 ^ 62) : ∃ b, f.append = .ok b := by
  unfold finish at h
  obtain ⟨o, ho⟩ := Varint.append_ok (i := f.offset) (by omega)
  obtain ⟨l, hl⟩ := Varint.append_ok (i := f.data.length) (by omega)
  exact ⟨_, by rw [append, ho, ok_bind, hl, ok_bind]⟩

theorem append_size {f : CryptoFrame} {b : Bytes} (h : f.append = .ok b) : b.length = f.size := by
  obtain ⟨o, ho, h⟩ := bind_eq_ok.mp h
  obtain ⟨l, hl, h⟩ := bind_eq_ok.mp h
  cases h
  simp only [length_cons, length_append, Varint.append_size ho, Varint.append_size hl, size]
  omega

end CryptoFrame

/-! ## ACK -/

structure AckRange where
  smallest : Int
  largest : Int
deriving DecidableEq, Repr

structure AckFrame where
  /-- Highest range first. -/
  ackRanges : List AckRange
  /-- Nanoseconds. -/
  delayTime : Int
  ect0 : Nat
  ect1 : Nat
  ecnce : Nat
deriving DecidableEq, Repr

def maxNumAckRanges : Nat := 64
def ackDelayExponent : Nat := 3

def encodeAckDelay (delay : Int) : Nat :=
  toUint64 (delay.tdiv (1000 * (1 <<< ackDelayExponent)))

namespace AckFrame

def hasECN (f : AckFrame) : Bool := 0 < f.ect0 || 0 < f.ect1 || 0 < f.ecnce

/-- `encodeAckRange(i)` for `i > 0`: the gap to the range before and the length. -/
def encodeAckRange (before range : AckRange) : Nat × Nat :=
  (toUint64 (before.smallest - range.largest - 2), toUint64 (range.largest - range.smallest))

/-- The loop over the ranges after the first. -/
def appendRanges : AckRange → List AckRange → Except Panic Bytes
  | _, [] => .ok []
  | before, range :: ranges => do
      let (gap, len) := encodeAckRange before range
      let g ← Varint.append gap
      let l ← Varint.append len
      let tail ← appendRanges range ranges
      .ok (g ++ l ++ tail)

/-- `(*AckFrame).Append`: the bytes it appends. `LargestAcked` indexes
`AckRanges[0]`, so a frame without ranges panics. -/
def append (f : AckFrame) : Except Panic Bytes :=
  match f.ackRanges with
  | [] => .error .indexOutOfRange
  | first :: others => do
      let largest ← Varint.append (toUint64 first.largest)
      let delay ← Varint.append (encodeAckDelay f.delayTime)
      let written := others.take (maxNumAckRanges - 1)
      let count ← Varint.append written.length
      let firstRange ← Varint.append (toUint64 (first.largest - first.smallest))
      let ranges ← appendRanges first written
      let head := (if f.hasECN then frameTypeAckECN else frameTypeAck) ::
        (largest ++ delay ++ count ++ firstRange ++ ranges)
      if f.hasECN then
        let ect0 ← Varint.append f.ect0
        let ect1 ← Varint.append f.ect1
        let ecnce ← Varint.append f.ecnce
        .ok (head ++ (ect0 ++ ect1 ++ ecnce))
      else .ok head

/-- The loop of `Length` over the ranges after the first. -/
def lengthRanges : AckRange → List AckRange → Except Panic Nat
  | _, [] => .ok 0
  | before, range :: ranges => do
      let (gap, len) := encodeAckRange before range
      let g ← Varint.len gap
      let l ← Varint.len len
      let tail ← lengthRanges range ranges
      .ok (g + l + tail)

/-- `(*AckFrame).Length`. The range count is taken to fit one byte. -/
def length (f : AckFrame) : Except Panic Nat :=
  match f.ackRanges with
  | [] => .error .indexOutOfRange
  | first :: others => do
      let largest ← Varint.len (toUint64 first.largest)
      let delay ← Varint.len (encodeAckDelay f.delayTime)
      let firstRange ← Varint.len (toUint64 (first.largest - first.smallest))
      let ranges ← lengthRanges first (others.take (maxNumAckRanges - 1))
      let head := 1 + largest + delay + 1 + firstRange + ranges
      if f.hasECN then
        let ect0 ← Varint.len f.ect0
        let ect1 ← Varint.len f.ect1
        let ecnce ← Varint.len f.ecnce
        .ok (head + (ect0 + ect1 + ecnce))
      else .ok head

theorem appendRanges_length {ranges : List AckRange} : ∀ {before : AckRange} {b : Bytes},
    appendRanges before ranges = .ok b → lengthRanges before ranges = .ok b.length := by
  induction ranges with
  | nil => intro before b h; cases h; rfl
  | cons range ranges ih =>
    intro before b h
    obtain ⟨g, hg, h⟩ := bind_eq_ok.mp h
    obtain ⟨l, hl, h⟩ := bind_eq_ok.mp h
    obtain ⟨tail, htail, h⟩ := bind_eq_ok.mp h
    cases h
    simp only [lengthRanges, encodeAckRange, Varint.append_length hg, Varint.append_length hl,
      ih htail,
      ok_bind, length_append]

/-- The range count is at most 63, and so takes ONE byte: the constant in
`Length` is right. -/
theorem rangeCount_length {others : List AckRange} {b : Bytes}
    (h : Varint.append (others.take (maxNumAckRanges - 1)).length = .ok b) : b.length = 1 := by
  have hle : (others.take (maxNumAckRanges - 1)).length ≤ Varint.maxVarInt1 := by
    rw [length_take]; unfold maxNumAckRanges Varint.maxVarInt1; omega
  rw [Varint.append, if_pos hle] at h
  cases h
  rfl

/-- **`Length` announces what `Append` writes.** -/
theorem append_length {f : AckFrame} {b : Bytes} (h : f.append = .ok b) :
    f.length = .ok b.length := by
  unfold append at h
  unfold length
  cases hr : f.ackRanges with
  | nil => rw [hr] at h; cases h
  | cons first others =>
    rw [hr] at h
    dsimp only at h ⊢
    obtain ⟨largest, hlargest, h⟩ := bind_eq_ok.mp h
    obtain ⟨delay, hdelay, h⟩ := bind_eq_ok.mp h
    obtain ⟨count, hcount, h⟩ := bind_eq_ok.mp h
    obtain ⟨firstRange, hfirst, h⟩ := bind_eq_ok.mp h
    obtain ⟨ranges, hranges, h⟩ := bind_eq_ok.mp h
    have hc := rangeCount_length hcount
    rw [Varint.append_length hlargest, ok_bind, Varint.append_length hdelay, ok_bind,
      Varint.append_length hfirst, ok_bind, appendRanges_length hranges, ok_bind]
    split_ifs at h ⊢ with hecn
    · obtain ⟨ect0, h0, h⟩ := bind_eq_ok.mp h
      obtain ⟨ect1, h1, h⟩ := bind_eq_ok.mp h
      obtain ⟨ecnce, h2, h⟩ := bind_eq_ok.mp h
      cases h
      rw [Varint.append_length h0, ok_bind, Varint.append_length h1, ok_bind,
        Varint.append_length h2, ok_bind]
      simp only [length_cons, length_append, hc]
      exact congrArg Except.ok (by omega)
    · cases h
      simp only [length_cons, length_append, hc]
      exact congrArg Except.ok (by omega)

end AckFrame

/-! ## Frames, pointers and the store -/

/-- Any other frame: its `Length`, and what its `Append` writes (`none` where
`Append` returns an error). A frame writes as many bytes as it announces. -/
structure OpaqueFrame where
  length : Nat
  encoding : Option Bytes
  consistent : ∀ b, encoding = some b → b.length = length

/-- A `wire.Frame` interface value. -/
inductive FrameRef where
  | crypto (addr : Nat)
  | ping
  | other (f : OpaqueFrame)

abbrev Store := List CryptoFrame

/-- A frame with its contents, as it is serialized. -/
inductive Frame where
  | crypto (f : CryptoFrame)
  | ping
  | other (f : OpaqueFrame)

namespace Frame

def size : Frame → Nat
  | .crypto f => f.size
  | .ping => 1
  | .other f => f.length

def crypto? : Frame → Option CryptoFrame
  | .crypto f => some f
  | _ => none

@[simp] theorem crypto?_crypto (f : CryptoFrame) : (Frame.crypto f).crypto? = some f := rfl

@[simp] theorem crypto?_ping : Frame.ping.crypto? = none := rfl

@[simp] theorem crypto?_other (f : OpaqueFrame) : (Frame.other f).crypto? = none := rfl

theorem crypto?_eq_some {x : Frame} {f : CryptoFrame} : x.crypto? = some f ↔ x = .crypto f := by
  cases x <;> simp [crypto?]

end Frame

namespace Store

def load (s : Store) : FrameRef → Frame
  | .crypto a => .crypto (s.getD a ⟨0, []⟩)
  | .ping => .ping
  | .other f => .other f

/-- `&wire.CryptoFrame{...}`: the new pointer and the grown store. -/
def alloc (s : Store) (f : CryptoFrame) : FrameRef × Store := (.crypto s.length, s ++ [f])

/-- A pointer into the store. -/
def Valid (s : Store) : FrameRef → Prop
  | .crypto a => a < s.length
  | _ => True

end Store

end HeadlessClient.Quic
