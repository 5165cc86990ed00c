import HeadlessClient.Capture.HelloSafety
import HeadlessClient.Capture.QuicCrypto

/-!
# Capture — QUIC Initial packets

`ParseQUICInitial` of the capture tool (`stand/internal/wire/quicv1.go`): the
long header, the keys derived from the destination connection ID, header
protection, and the frames of the decrypted payload.

HKDF, AES and GCM are parameters (`Primitives`) with the laws the code relies
on. Every index and slice is written as such; `parseQUICInitial_safe` says that
no datagram leads to a panic.
-/

namespace HeadlessClient.Capture

open Base Wire List

def quicVersion1 : Nat := 0x00000001
def quicSampleLen : Nat := 16

/-- The version 1 initial salt. -/
def quicInitialSaltV1 : Bytes :=
  [0x38, 0x76, 0x2c, 0xf7, 0xf5, 0x59, 0x34, 0xb3, 0x4d, 0x17,
    0x9a, 0xe6, 0xa4, 0xc8, 0x0c, 0xad, 0xcc, 0xbb, 0x7f, 0x0a]

/-- The cryptographic functions of the libraries. -/
structure Primitives where
  /-- `hkdf.Extract` with SHA-256. -/
  extract : (secret salt : Bytes) → Bytes
  /-- `hkdf.Expand` with SHA-256. -/
  expand : (secret info : Bytes) → (length : Nat) → Bytes
  /-- AES on one block. -/
  encrypt : (key block : Bytes) → Bytes
  /-- AES-GCM: `Seal` and `Open`. -/
  gcmSeal : (key nonce header plaintext : Bytes) → Bytes
  gcmOpen : (key nonce header ciphertext : Bytes) → Option Bytes
  expand_length : ∀ secret info n, (expand secret info n).length = n
  encrypt_length : ∀ key block, (encrypt key block).length = 16
  seal_length : ∀ key nonce header plaintext,
    (gcmSeal key nonce header plaintext).length = plaintext.length + 16
  open_seal : ∀ key nonce header plaintext,
    gcmOpen key nonce header (gcmSeal key nonce header plaintext) = some plaintext

structure QUICInitial where
  version : Nat
  destConnID : Bytes
  srcConnID : Bytes
  packetNum : Nat
  crypto : List QUICCryptoChunk
  rest : Bytes
deriving DecidableEq, Repr

/-! ## Keys -/

def expandLabel (c : Primitives) (secret : Bytes) (label : String) (length : Nat) : Bytes :=
  let full := ascii ("tls13 " ++ label)
  let info := putUint 2 length ++ putUint 1 full.length ++ full ++ [0]
  c.expand secret info length

structure InitialKeys where
  key : Bytes
  iv : Bytes
  headerKey : Bytes

/-- `quicClientInitialKeys`. Its errors are those of HKDF for lengths that are
too large, which 12, 16 and 32 are not. -/
def quicClientInitialKeys (c : Primitives) (destConnID : Bytes) : InitialKeys :=
  let initialSecret := c.extract destConnID quicInitialSaltV1
  let clientSecret := expandLabel c initialSecret "client in" 32
  { key := expandLabel c clientSecret "quic key" 16
    iv := expandLabel c clientSecret "quic iv" 12
    headerKey := expandLabel c clientSecret "quic hp" 16 }

theorem length_expandLabel (c : Primitives) (secret : Bytes) (label : String) (n : Nat) :
    (expandLabel c secret label n).length = n := c.expand_length _ _ _

/-- `xorNonce`: the last eight bytes of the nonce are changed. -/
def xorNonce (iv : Bytes) (sequence : Nat) : Except WireError Bytes :=
  if iv.length < 8 then .error (.panic .indexOutOfRange)
  else .ok (iv.take (iv.length - 8) ++
    List.zipWith (· ^^^ ·) (iv.drop (iv.length - 8)) (putUint 8 sequence))

theorem zipWith_xor_zero (xs : Bytes) :
    List.zipWith (· ^^^ ·) xs (List.replicate xs.length 0) = xs := by
  induction xs with
  | nil => rfl
  | cons x xs ih => rw [length_cons, replicate_succ, zipWith_cons_cons, ih, UInt8.xor_zero]

theorem xorNonce_padded {iv : Bytes} (hiv : iv.length = 12) (sequence : Nat) :
    xorNonce iv sequence =
      .ok (List.zipWith (· ^^^ ·) iv (List.replicate 4 0 ++ putUint 8 sequence)) := by
  have hlen : (iv.take 4).length = 4 := by rw [length_take, hiv]; rfl
  have hiv' : iv = iv.take 4 ++ iv.drop 4 := (take_append_drop 4 iv).symm
  have hzero := zipWith_xor_zero (iv.take 4)
  rw [hlen] at hzero
  rw [xorNonce, if_neg (by omega), hiv]
  change Except.ok (iv.take 4 ++ List.zipWith (· ^^^ ·) (iv.drop 4) (putUint 8 sequence)) = _
  rw [hiv', zipWith_append (by rw [hlen, length_replicate]), ← hiv', hzero]

/-- `quicHeaderMask`. The key has 16 bytes, so there is a cipher for it. -/
def quicHeaderMask (c : Primitives) (headerKey sample : Bytes) : Except WireError Bytes := do
  ensure (16 ≤ sample.length) .quicUnprotected
  .ok (c.encrypt headerKey sample)

def quicDecrypt (c : Primitives) (key iv : Bytes) (packetNum : Nat) (header ciphertext : Bytes) :
    Except WireError Bytes := do
  let nonce ← xorNonce iv packetNum
  match c.gcmOpen key nonce header ciphertext with
  | some plaintext => .ok plaintext
  | none => .error .openFailed

/-! ## The packet -/

def readQUICConnID : Parser Bytes := do
  let length ← Parser.u8
  Parser.check (length ≤ 20) .notQUICInitial
  Parser.bytes length.toNat

/-- The long header from the connection IDs on: the two IDs, and the length of
what follows the header. The token is skipped. -/
def readLongHeader : Parser (Bytes × Bytes × Nat) := do
  let destConnID ← readQUICConnID
  let srcConnID ← readQUICConnID
  let tokenLen ← (readQUICVarint : Parser Nat)
  Parser.skip tokenLen
  let remainder ← (readQUICVarint : Parser Nat)
  pure (destConnID, srcConnID, remainder)

/-- `for i := 0; i < pnLen; i++`: the bytes of the packet number are unmasked in
place and accumulated. There are at most four, so the `uint64` loses nothing. -/
def unmaskNumber (mask : Bytes) (pnOffset : Nat) :
    (i n : Nat) → Bytes → Nat → Except WireError (Bytes × Nat)
  | _, 0, packet, packetNum => .ok (packet, packetNum)
  | i, n + 1, packet, packetNum => do
      let masked ← index .panic packet (pnOffset + i)
      let bits ← index .panic mask (1 + i)
      let byte := masked ^^^ bits
      unmaskNumber mask pnOffset (i + 1) n (packet.set (pnOffset + i) byte)
        (packetNum <<< 8 ||| byte.toNat)

/-- Removing the header protection: the packet, the packet number, and where the
payload starts. -/
def unprotect (c : Primitives) (headerKey packet : Bytes) (pnOffset : Nat) :
    Except WireError (Bytes × Nat × Nat) := do
  let sample ← slice .panic packet (pnOffset + 4) (pnOffset + 4 + quicSampleLen)
  let mask ← quicHeaderMask c headerKey sample
  let first ← index .panic packet 0
  let bits ← index .panic mask 0
  let first := first ^^^ (bits &&& 0x0f)
  let pnLen := (first &&& 0x03).toNat + 1
  let (packet, packetNum) ← unmaskNumber mask pnOffset 0 pnLen (packet.set 0 first) 0
  .ok (packet, packetNum, pnOffset + pnLen)

/-- `ParseQUICInitial`. An `int` has 64 bits: a length read from the packet is
below `2^62`, so no sum of it overflows. -/
def parseQUICInitial (c : Primitives) (datagram : Bytes) : Except WireError QUICInitial := do
  ensure (7 ≤ datagram.length) .notQUICInitial
  let first ← index .panic datagram 0
  ensure (first &&& 0x80 ≠ 0) .notQUICInitial
  ensure ((first &&& 0x30) >>> 4 = 0) .notQUICInitial
  let word ← slice .panic datagram 1 5
  let version := getUint word
  ensure (version = quicVersion1) (.quicVersion version)
  let ((destConnID, srcConnID, remainder), reader) ← readLongHeader ⟨datagram, 5⟩
  let pnOffset := reader.pos
  ensure (pnOffset + remainder ≤ datagram.length ∧ quicSampleLen + 4 ≤ remainder) .notQUICInitial
  let keys := quicClientInitialKeys c destConnID
  let packet ← slice .panic datagram 0 (pnOffset + remainder)
  let (packet, packetNum, start) ← unprotect c keys.headerKey packet pnOffset
  let header ← slice .panic packet 0 start
  let ciphertext ← sliceFrom .panic packet start
  let plaintext ← quicDecrypt c keys.key keys.iv packetNum header ciphertext
  let rest ← sliceFrom .panic datagram (pnOffset + remainder)
  .ok { version, destConnID, srcConnID, packetNum, crypto := quicCryptoFrames plaintext, rest }

/-! ## No panics -/

theorem steady_readQUICConnID : Steady readQUICConnID :=
  steady_u8.bind fun _ => (Steady.check (by simp) _).bind fun _ => steady_bytes _

theorem steady_readLongHeader : Steady readLongHeader :=
  steady_readQUICConnID.bind fun _ => steady_readQUICConnID.bind fun _ =>
    steady_readQUICVarint.bind fun _ => (steady_skip _).bind fun _ =>
      steady_readQUICVarint.bind fun _ => Steady.pure _

theorem unmaskNumber_returns {mask : Bytes} {pnOffset : Nat} (n : Nat) :
    ∀ {i : Nat} {packet : Bytes} {packetNum : Nat}, pnOffset + i + n ≤ packet.length →
      1 + i + n ≤ mask.length →
        ∃ packet' packetNum', unmaskNumber mask pnOffset i n packet packetNum =
          .ok (packet', packetNum') ∧ packet'.length = packet.length := by
  induction n with
  | zero => exact fun _ _ => ⟨_, _, rfl, rfl⟩
  | succ n ih =>
    intro i packet packetNum hpacket hmask
    rw [unmaskNumber, index_eq (by omega), ok_bind, index_eq (by omega), ok_bind]
    obtain ⟨packet', packetNum', heq, hlen⟩ := @ih (i + 1)
      (packet.set (pnOffset + i) (packet[pnOffset + i] ^^^ mask[1 + i]))
      (packetNum <<< 8 ||| (packet[pnOffset + i] ^^^ mask[1 + i]).toNat)
      (by rw [length_set]; omega) (by omega)
    exact ⟨packet', packetNum', heq, by rw [hlen, length_set]⟩

theorem numberLength_le (first : UInt8) : (first &&& 0x03).toNat + 1 ≤ 4 := by
  rw [UInt8.toNat_and]
  exact Nat.succ_le_succ Nat.and_le_right

/-- Where the sample is in the packet, header protection is removed without a
panic, and the payload starts within the packet. -/
theorem unprotect_returns (c : Primitives) (headerKey : Bytes) {packet : Bytes} {pnOffset : Nat}
    (h : pnOffset + 4 + quicSampleLen ≤ packet.length) :
    ∃ packet' packetNum start, unprotect c headerKey packet pnOffset =
      .ok (packet', packetNum, start) ∧ start ≤ packet'.length := by
  unfold quicSampleLen at h
  have hsample : slice WireError.panic packet (pnOffset + 4) (pnOffset + 4 + quicSampleLen) =
      .ok ((packet.take (pnOffset + 4 + quicSampleLen)).drop (pnOffset + 4)) :=
    slice_eq (Nat.le_add_right _ _) h
  have hlen : 16 ≤ ((packet.take (pnOffset + 4 + quicSampleLen)).drop (pnOffset + 4)).length := by
    rw [length_drop, length_take]
    unfold quicSampleLen
    omega
  obtain ⟨mask, hmask⟩ : ∃ mask, mask = c.encrypt headerKey
    ((packet.take (pnOffset + 4 + quicSampleLen)).drop (pnOffset + 4)) := ⟨_, rfl⟩
  have hbits : mask.length = 16 := by rw [hmask]; exact c.encrypt_length _ _
  have hfirst : 0 < packet.length := by omega
  have hzero : 0 < mask.length := by omega
  obtain ⟨first, hunmasked⟩ : ∃ first, first = packet[0] ^^^ (mask[0] &&& 0x0f) := ⟨_, rfl⟩
  have hnumber := numberLength_le first
  obtain ⟨packet', packetNum, hnum, hsame⟩ := @unmaskNumber_returns mask pnOffset
    ((first &&& 0x03).toNat + 1) 0 (packet.set 0 first) 0
    (by rw [length_set]; omega) (by omega)
  rw [length_set] at hsame
  refine ⟨packet', packetNum, pnOffset + ((first &&& 0x03).toNat + 1), ?_, by omega⟩
  rw [unprotect, hsample, ok_bind, quicHeaderMask, decide_eq_true hlen, ensure_true, ok_bind,
    ok_bind, index_eq hfirst, ok_bind, ← hmask, index_eq hzero, ok_bind, ← hunmasked]
  dsimp only
  rw [hnum, ok_bind]

theorem quicDecrypt_safe (c : Primitives) (key : Bytes) {iv : Bytes} (hiv : 8 ≤ iv.length)
    (packetNum : Nat) (header ciphertext : Bytes) :
    Safe .panic (quicDecrypt c key iv packetNum header ciphertext) := by
  rw [quicDecrypt, xorNonce, if_neg (Nat.not_lt.mpr hiv), ok_bind]
  split
  · exact .ok _
  · exact fun _ h => nomatch h

/-- **Parsing an Initial packet never panics**, whatever the bytes. -/
theorem parseQUICInitial_safe (c : Primitives) (datagram : Bytes) :
    Safe .panic (parseQUICInitial c datagram) := by
  refine (ensure_safe _ (by simp)).bind fun _ hlen => ?_
  have hlen : 7 ≤ datagram.length := of_decide_eq_true (ensure_eq_ok hlen)
  rw [index_eq (show 0 < datagram.length by omega), ok_bind]
  refine (ensure_safe _ (by simp)).bind fun _ _ => ?_
  refine (ensure_safe _ (by simp)).bind fun _ _ => ?_
  rw [slice_eq (by omega) (by omega), ok_bind]
  refine (ensure_safe _ (by simp)).bind fun _ _ => ?_
  obtain ⟨hheader, -⟩ := steady_readLongHeader ⟨datagram, 5⟩ (show 5 ≤ datagram.length by omega)
  refine hheader.bind fun x _ => ?_
  obtain ⟨⟨destConnID, srcConnID, remainder⟩, reader⟩ := x
  refine (ensure_safe _ (by simp)).bind fun _ hfits => ?_
  obtain ⟨hend, hsample⟩ := of_decide_eq_true (ensure_eq_ok hfits)
  rw [slice_eq (Nat.zero_le _) hend, ok_bind]
  have hpacket : reader.pos + 4 + quicSampleLen ≤
      ((datagram.take (reader.pos + remainder)).drop 0).length := by
    rw [drop_zero, length_take]
    omega
  obtain ⟨packet, packetNum, start, hunprotect, hstart⟩ := unprotect_returns c
    (quicClientInitialKeys c destConnID).headerKey hpacket
  rw [hunprotect, ok_bind]
  dsimp only
  rw [slice_eq (Nat.zero_le _) hstart, ok_bind, sliceFrom_eq hstart, ok_bind]
  refine (quicDecrypt_safe c _ ?_ _ _ _).bind fun _ _ => ?_
  · rw [quicClientInitialKeys, length_expandLabel]
    decide
  · rw [sliceFrom_eq hend, ok_bind]
    exact .ok _

end HeadlessClient.Capture
