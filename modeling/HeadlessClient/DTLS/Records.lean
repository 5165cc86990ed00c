import HeadlessClient.Base.GoMap
import HeadlessClient.DTLS.ExtensionList

/-!
# DTLS — handshake fragments, records and datagrams

`prepareHandshakeRecords` predicts what a record adds to a fragment
(`handshakeRecordOverhead`), cuts the message so that a full fragment fills the
MTU (`fragmentHandshake`), and only then makes the records (`encodeRecord`).
`compactPreparedRecords` puts the records of a flight into datagrams.

The protection of DTLS 1.3 is a `Seal` and a `Mask` of the traffic generation;
of both only the lengths matter here (`Conn.Seals`). What `encodeRecord` does for
a protected record of DTLS 1.2 is the field `protect12`.
-/

namespace HeadlessClient.DTLS.Records

open Base Wire List

inductive RecordError where
  | bufferTooSmall
  | invalidCapabilities
  | invalidPacketLength
  | cidTooBig
  | epochOverflow
  | sequenceNumberOverflow
  | invalidProtectionInput
  | cipherSuiteNotInit
  | recordProtectionNotImplemented
  /-- An error of `Message.Marshal`, `Seal` or `Mask`. -/
  | other (text : Bytes)
deriving DecidableEq, Repr

/-! ## Headers -/

/-- `handshake.Header`. -/
structure Header where
  type : UInt8
  length : UInt32
  messageSequence : UInt16
  fragmentOffset : UInt32
  fragmentLength : UInt32
deriving DecidableEq, Repr

def headerLength : Nat := 12

def Header.marshal (h : Header) : Bytes :=
  putUint 1 h.type.toNat ++ putUint 3 h.length.toNat ++ putUint 2 h.messageSequence.toNat ++
    putUint 3 h.fragmentOffset.toNat ++ putUint 3 h.fragmentLength.toNat

/-- `util.BigEndianUint24` and its kin, at an index. -/
def uintAt (i w : Nat) (data : Bytes) : Nat := getUint ((data.drop i).take w)

def Header.unmarshal (data : Bytes) : Except RecordError Header :=
  if data.length < headerLength then .error .bufferTooSmall
  else .ok
    { type := .ofNat (uintAt 0 1 data)
      length := .ofNat (uintAt 1 3 data)
      messageSequence := .ofNat (uintAt 4 2 data)
      fragmentOffset := .ofNat (uintAt 6 3 data)
      fragmentLength := .ofNat (uintAt 9 3 data) }

/-- `recordlayer.UnifiedHeader`. -/
structure UnifiedHeader where
  connectionID : Bytes := []
  sequenceNumber : UInt16 := 0
  seqBit : Bool
  length : UInt16 := 0
  lengthBit : Bool
  epochLow : UInt8 := 0
deriving DecidableEq, Repr

def UnifiedHeader.marshal (u : UnifiedHeader) : Except RecordError Bytes :=
  if 255 < u.connectionID.length then .error .cidTooBig
  else
    let contentType := 0x20 ||| (u.epochLow &&& 3) ||| (if u.connectionID = [] then 0 else 0x10) |||
      (if u.seqBit then 0x08 else 0) ||| (if u.lengthBit then 0x04 else 0)
    .ok (contentType :: u.connectionID ++
      putUint (if u.seqBit then 2 else 1) u.sequenceNumber.toNat ++
      (if u.lengthBit then putUint 2 u.length.toNat else []))

/-- `recordlayer.MarshalRecord`, without a connection ID. -/
def marshalRecord (contentType : UInt8) (version epoch : UInt16) (seq : Nat) (content : Bytes) :
    Except RecordError Bytes :=
  if 65535 < content.length then .error .invalidPacketLength
  else if 2 ^ 48 - 1 < seq then .error .sequenceNumberOverflow
  else .ok (putUint 1 contentType.toNat ++ putUint 2 version.toNat ++ putUint 2 epoch.toNat ++
    putUint 6 seq ++ vec 2 content)

/-- `CiphertextRecord.Marshal`. -/
def marshalCiphertext (header : UnifiedHeader) (encrypted : Bytes) : Except RecordError Bytes := do
  if encrypted.length < 16 ∨ 2 ^ 14 + 256 < encrypted.length then throw .invalidPacketLength
  let header ← UnifiedHeader.marshal { header with
    seqBit := true, length := .ofNat encrypted.length, lengthBit := true }
  return header ++ encrypted

/-! ## Protection -/

inductive LengthMode where
  | none
  | aead
  | cbc
deriving DecidableEq, Repr

/-- `ciphersuite.Capabilities`. -/
structure Capabilities where
  version : UInt16 := 0
  mode : LengthMode := .none
  maxPlaintextLen : Nat := 0
  explicitNonceLen : Nat := 0
  tagLen : Nat := 0
  macLen : Nat := 0
  blockLen : Nat := 0
  maskSampleLen : Nat := 0

def Capabilities.protectedLen (c : Capabilities) (plaintextLen : Nat) : Except RecordError Nat :=
  if c.mode = .none ∨ c.maxPlaintextLen < plaintextLen then .error .invalidCapabilities
  else if c.mode = .aead then .ok (plaintextLen + c.explicitNonceLen + c.tagLen)
  else
    let unpadded := plaintextLen + c.macLen + 1
    .ok (c.explicitNonceLen + (unpadded + c.blockLen - 1) / c.blockLen * c.blockLen)

/-- `mustAEADCapabilities` for DTLS 1.3, with a mask sample of 16 bytes. -/
def aeadCapabilities (explicitNonceLen tagLen : Nat) : Capabilities :=
  if 0 < tagLen ∧ 2 ^ 14 + 1 + explicitNonceLen + tagLen ≤ 65535 then
    { version := version1_3, mode := .aead, maxPlaintextLen := 2 ^ 14 + 1, explicitNonceLen,
      tagLen, maskSampleLen := 16 }
  else {}

/-- What `NewUnifiedRecord` hands to `Seal`. -/
structure Metadata where
  recordNumber : Nat
  authenticationData : Bytes
  protectedLen : Nat

def newUnifiedRecord (epoch sequenceNumber : Nat) (header : UnifiedHeader) (protectedLen : Nat) :
    Except RecordError Metadata := do
  if 3 < header.epochLow ∨ UInt8.ofNat (epoch % 4) ≠ header.epochLow ∨
      255 < header.connectionID.length ∨ 65535 < protectedLen then throw .invalidProtectionInput
  if header.seqBit then
    if UInt16.ofNat (sequenceNumber % 2 ^ 16) ≠ header.sequenceNumber then
      throw .invalidProtectionInput
  else if 255 < header.sequenceNumber ∨
      UInt16.ofNat (sequenceNumber % 2 ^ 8) ≠ header.sequenceNumber then
    throw .invalidProtectionInput
  if header.lengthBit ∧ header.length ≠ 0 ∧ header.length.toNat ≠ protectedLen then
    throw .invalidProtectionInput
  let authenticationData ← UnifiedHeader.marshal
    (if header.lengthBit then { header with length := .ofNat protectedLen } else header)
  return ⟨sequenceNumber, authenticationData, protectedLen⟩

/-- The `Protection` of a traffic generation. -/
structure Protection where
  sealing : Metadata → Bytes → Except RecordError Bytes
  mask : Bytes → Except RecordError Bytes

def applySequenceNumberMask (sequenceNumber : UInt16) (twoBytes : Bool) (mask : Bytes) :
    Except RecordError UInt16 :=
  match twoBytes, mask with
  | false, m :: _ => .ok ((sequenceNumber ^^^ .ofNat m.toNat) &&& 0xff)
  | true, m :: n :: _ => .ok (sequenceNumber ^^^ .ofNat (m.toNat * 256) ^^^ .ofNat n.toNat)
  | _, _ => .error .bufferTooSmall

/-- `InnerPlaintext.Marshal`. -/
def innerPlaintext (content : Bytes) (realType : UInt8) (zeros : Nat) : Bytes :=
  content ++ realType :: List.replicate zeros 0

inductive Protected where
  | plaintext
  | ciphertext
deriving DecidableEq, Repr

/-- What a connection has, as far as the records depend on it. -/
structure Conn where
  maximumTransmissionUnit : Nat
  localVersion : UInt16
  /-- The capabilities of the cipher suite, once there is one. -/
  cipherSuite : Option Capabilities
  /-- `TrafficKeys.Write`. -/
  trafficKeys : Nat → Option Protection
  /-- The connection ID that is sent, if one was negotiated and is in use. -/
  sendCID : Option Bytes
  protect12 : Nat → Nat → UInt8 → Bytes → Except RecordError Bytes
  localSequenceNumber : Nat → Nat

namespace Conn

def writeTrafficGeneration (c : Conn) (epoch : Nat) : Except RecordError Protection :=
  match c.trafficKeys epoch with
  | none => .error .recordProtectionNotImplemented
  | some protection => .ok protection

def sealRecordContent (c : Conn) (epoch seq : Nat) (contentType : UInt8) (plaintext : Bytes) :
    Except RecordError Bytes := do
  let generation ← c.writeTrafficGeneration epoch
  let inner := innerPlaintext plaintext contentType 0
  if 2 ^ 14 + 1 < inner.length then throw .invalidPacketLength
  let header : UnifiedHeader :=
    { epochLow := .ofNat (epoch % 4), sequenceNumber := .ofNat (seq % 2 ^ 16), seqBit := true,
      lengthBit := true, connectionID := c.sendCID.getD [] }
  let some capabilities := c.cipherSuite | throw .cipherSuiteNotInit
  if capabilities.mode = .none ∨ capabilities.version ≠ version1_3 then throw .invalidCapabilities
  let protectedLen ← capabilities.protectedLen inner.length
  let sampleLen := capabilities.maskSampleLen
  if sampleLen = 0 then throw .invalidCapabilities
  -- short plaintexts are padded until the ciphertext is as long as the sample
  let (inner, protectedLen) ←
    if protectedLen < sampleLen then do
      let inner := innerPlaintext plaintext contentType (sampleLen - protectedLen)
      if 2 ^ 14 + 1 < inner.length then throw .invalidPacketLength
      pure (inner, ← capabilities.protectedLen inner.length)
    else pure (inner, protectedLen)
  let metadata ← newUnifiedRecord epoch seq header protectedLen
  let sealed ← generation.sealing metadata inner
  if sealed.length ≠ protectedLen then throw .invalidCapabilities
  if sealed.length < sampleLen then throw .bufferTooSmall
  let mask ← generation.mask (sealed.take sampleLen)
  let sequenceNumber ← applySequenceNumberMask header.sequenceNumber true mask
  marshalCiphertext { header with sequenceNumber, length := .ofNat protectedLen } sealed

def encodeRecord (c : Conn) (epoch seq : Nat) (contentType : UInt8) (plaintext : Bytes) :
    Protected → Except RecordError Bytes
  | .plaintext =>
    if 2 ^ 14 < plaintext.length then .error .invalidPacketLength
    else if 0xffff < epoch then .error .epochOverflow
    else marshalRecord contentType 0xfefd (.ofNat epoch) seq plaintext
  | .ciphertext =>
    if 2 ^ 14 < plaintext.length then .error .invalidPacketLength
    else if c.localVersion = version1_3 then c.sealRecordContent epoch seq contentType plaintext
    else c.protect12 epoch seq contentType plaintext

/-- `allocateLocalSequenceNumber`: a number, and the connection after it. -/
def allocateLocalSequenceNumber (c : Conn) (epoch : Nat) : Except RecordError (Nat × Conn) :=
  let next := c.localSequenceNumber epoch
  if c.localVersion ≠ version1_3 ∧ 0xffff < epoch then .error .epochOverflow
  else if 2 ^ 48 - 1 < next then .error .sequenceNumberOverflow
  else .ok (next, { c with
    localSequenceNumber := Function.update c.localSequenceNumber epoch (next + 1) })

/-! ## Fragments -/

/-- What a record adds to a fragment. -/
def handshakeRecordOverhead (c : Conn) (epoch : Nat) (protection : Protected) :
    Except RecordError Nat := do
  if protection ≠ .ciphertext ∨ c.localVersion ≠ version1_3 then return 13
  let some capabilities := c.cipherSuite | throw .cipherSuiteNotInit
  let _ ← c.writeTrafficGeneration epoch
  let protectedLen ← capabilities.protectedLen 1
  let marshalled ← UnifiedHeader.marshal
    { seqBit := true, lengthBit := true, connectionID := c.sendCID.getD [] }
  return marshalled.length + protectedLen

def maxHandshakeFragmentLength (c : Conn) (recordOverhead : Nat) : { n : Nat // 0 < n } :=
  let available := c.maximumTransmissionUnit - recordOverhead - headerLength
  if h : available < 1 then ⟨1, Nat.one_pos⟩ else ⟨available, Nat.not_lt.mp h⟩

end Conn

/-- The loop of `util.SplitBytes`, from index `i` on. -/
def splitBytes (bytes : Bytes) (splitLen : { n : Nat // 0 < n }) (i : Nat) : List Bytes :=
  if i < bytes.length then
    (bytes.take (min (i + splitLen) bytes.length)).drop i ::
      splitBytes bytes splitLen (i + splitLen)
  else []
termination_by bytes.length - i
decreasing_by
  have := splitLen.2
  omega

/-- `handshake.Handshake`: its header, and what `Message.Marshal` returns. -/
structure Handshake where
  header : Header
  message : Except RecordError Bytes

def fragmentsFrom (header : Header) : Nat → List Bytes → List Bytes
  | _, [] => []
  | offset, piece :: pieces =>
    let headerFragment := { header with
      fragmentOffset := .ofNat offset, fragmentLength := .ofNat piece.length }
    (headerFragment.marshal ++ piece) :: fragmentsFrom header (offset + piece.length) pieces

def Conn.fragmentHandshake (c : Conn) (handshake : Handshake) (recordOverhead : Nat) :
    Except RecordError (List Bytes) := do
  let content ← handshake.message
  let contentFragments := splitBytes content (c.maxHandshakeFragmentLength recordOverhead) 0
  return fragmentsFrom handshake.header 0
    (if contentFragments = [] then [[]] else contentFragments)

/-! ## Records -/

/-- `SentHandshakeRecord`: its number, and the fragments in it. -/
structure SentHandshakeRecord where
  epoch : Nat
  sequenceNumber : Nat
  /-- Message sequence, offset and length. -/
  fragments : List (UInt16 × UInt32 × UInt32)
deriving DecidableEq, Repr

structure PreparedRecord where
  raw : Bytes
  tracked : Option SentHandshakeRecord
deriving DecidableEq, Repr

/-- `flight.Outbound`, for a handshake message. -/
structure Outbound where
  epoch : Nat
  protection : Protected
  handshakeFragmentOffsets : Option (GoMap UInt32 UInt32)
  trackACK : Bool

def selectHandshakeFragment (offsets : Option (GoMap UInt32 UInt32)) (raw : Bytes) :
    Except RecordError Bool :=
  match offsets with
  | none => .ok true
  | some offsets => do
    let header ← Header.unmarshal raw
    return offsets.lookup header.fragmentOffset = some header.fragmentLength

namespace Conn

/-- One selected fragment: its record. -/
def prepareFragment (c : Conn) (outbound : Outbound) (fragment : Bytes) :
    Except RecordError (PreparedRecord × Conn) := do
  let (seq, c) ← c.allocateLocalSequenceNumber outbound.epoch
  let raw ← c.encodeRecord outbound.epoch seq 22 fragment outbound.protection
  if outbound.trackACK then
    let header ← Header.unmarshal fragment
    return (⟨raw, some ⟨outbound.epoch, seq,
      [(header.messageSequence, header.fragmentOffset, header.fragmentLength)]⟩⟩, c)
  return (⟨raw, none⟩, c)

def prepareFragments (outbound : Outbound) :
    Conn → List Bytes → Except RecordError (List PreparedRecord × Conn)
  | c, [] => .ok ([], c)
  | c, fragment :: fragments => do
    if ← selectHandshakeFragment outbound.handshakeFragmentOffsets fragment then
      let (record, c) ← c.prepareFragment outbound fragment
      let (records, c) ← prepareFragments outbound c fragments
      return (record :: records, c)
    else prepareFragments outbound c fragments

def prepareHandshakeRecords (c : Conn) (outbound : Outbound) (handshake : Handshake) :
    Except RecordError (List PreparedRecord × Conn) := do
  let recordOverhead ← c.handshakeRecordOverhead outbound.epoch outbound.protection
  prepareFragments outbound c (← c.fragmentHandshake handshake recordOverhead)

end Conn

structure PreparedDatagram where
  raw : Bytes := []
  tracked : List SentHandshakeRecord := []
deriving DecidableEq, Repr

def PreparedDatagram.add (d : PreparedDatagram) (record : PreparedRecord) : PreparedDatagram :=
  ⟨d.raw ++ record.raw, d.tracked ++ record.tracked.toList⟩

/-- The loop of `compactPreparedRecords`: the datagrams, and the current one. -/
def compactFrom (mtu : Nat) : PreparedDatagram → List PreparedRecord → List PreparedDatagram
  | current, [] => [current]
  | current, record :: records =>
    if 0 < current.raw.length ∧ mtu ≤ current.raw.length + record.raw.length then
      current :: compactFrom mtu (PreparedDatagram.add {} record) records
    else compactFrom mtu (current.add record) records

def Conn.compactPreparedRecords (c : Conn) (records : List PreparedRecord) :
    List PreparedDatagram :=
  compactFrom c.maximumTransmissionUnit {} records

/-! ## What the fragments hold -/

theorem uintAt_eq {data before after : Bytes} {i w n : Nat}
    (hdata : data = before ++ putUint w n ++ after) (hi : before.length = i) :
    uintAt i w data = n % 256 ^ w := by
  rw [uintAt, hdata, append_assoc, drop_left' hi, take_left' (length_putUint w n),
    getUint_putUint_mod]

@[simp] theorem Header.length_marshal (h : Header) : h.marshal.length = headerLength := by
  simp [marshal, headerLength]

/-- A header whose numbers fit three bytes is read back. -/
theorem Header.unmarshal_marshal {h : Header} (hlength : h.length.toNat < 256 ^ 3)
    (hoffset : h.fragmentOffset.toNat < 256 ^ 3) (hfragment : h.fragmentLength.toNat < 256 ^ 3)
    (rest : Bytes) : unmarshal (h.marshal ++ rest) = .ok h := by
  have hlen : ¬(h.marshal ++ rest).length < headerLength := by simp
  rw [unmarshal, if_neg hlen,
    @uintAt_eq _ [] _ 0 1 h.type.toNat (by simp [marshal]; rfl) rfl,
    @uintAt_eq _ (putUint 1 _) _ 1 3 h.length.toNat (by simp [marshal]; rfl) (by simp),
    @uintAt_eq _ (putUint 1 _ ++ putUint 3 _) _ 4 2 h.messageSequence.toNat
      (by simp [marshal]; rfl) (by simp),
    @uintAt_eq _ (putUint 1 _ ++ putUint 3 _ ++ putUint 2 _) _ 6 3 h.fragmentOffset.toNat
      (by simp [marshal]; rfl) (by simp),
    @uintAt_eq _ (putUint 1 _ ++ putUint 3 _ ++ putUint 2 _ ++ putUint 3 _) rest 9 3
      h.fragmentLength.toNat (by simp [marshal]; rfl) (by simp),
    Nat.mod_eq_of_lt (show _ < 256 ^ 1 from h.type.toNat_lt), Nat.mod_eq_of_lt hlength,
    Nat.mod_eq_of_lt (show _ < 256 ^ 2 from h.messageSequence.toNat_lt),
    Nat.mod_eq_of_lt hoffset, Nat.mod_eq_of_lt hfragment]
  simp

theorem toNat_ofNat_lt {n : Nat} (h : n < 256 ^ 3) : (UInt32.ofNat n).toNat < 256 ^ 3 := by
  rw [UInt32.toNat_ofNat']
  omega

/-- All but the last of the lengths are `n`, and none is larger. -/
def Filled (n : Nat) (lengths : List Nat) : Prop :=
  (∀ m ∈ lengths, m ≤ n) ∧ ∀ m ∈ lengths.dropLast, m = n

namespace Filled

variable {n m : Nat} {lengths shorter : List Nat}

theorem nil : Filled n [] := ⟨nofun, nofun⟩

theorem cons (hle : m ≤ n) (heq : lengths ≠ [] → m = n) (h : Filled n lengths) :
    Filled n (m :: lengths) := by
  refine ⟨forall_mem_cons.mpr ⟨hle, h.1⟩, ?_⟩
  cases lengths with
  | nil => exact nofun
  | cons next rest => exact forall_mem_cons.mpr ⟨heq (cons_ne_nil _ _), h.2⟩

theorem add (h : Filled n lengths) (k : Nat) : Filled (k + n) (lengths.map (k + ·)) := by
  refine ⟨fun m hm => ?_, fun m hm => ?_⟩
  · obtain ⟨l, hl, rfl⟩ := mem_map.mp hm
    exact Nat.add_le_add_left (h.1 l hl) k
  · rw [← map_dropLast] at hm
    obtain ⟨l, hl, rfl⟩ := mem_map.mp hm
    rw [h.2 l hl]

theorem tail (h : Filled n (m :: lengths)) : Filled n lengths := by
  refine ⟨fun l hl => h.1 l (mem_cons_of_mem _ hl), fun l hl => h.2 l ?_⟩
  have hne : lengths ≠ [] := ne_nil_of_mem ((dropLast_sublist _).subset hl)
  rw [dropLast_cons_of_ne_nil hne]
  exact mem_cons_of_mem _ hl

/-- Leaving some out: what is before the last of them is before the last of all. -/
theorem sublist (h : Filled n lengths) (hsub : shorter.Sublist lengths) : Filled n shorter := by
  induction hsub with
  | slnil => exact nil
  | @cons shorter lengths l hsub ih => exact ih h.tail
  | @cons_cons shorter lengths l hsub ih =>
    refine cons (h.1 l mem_cons_self) (fun hne => h.2 l ?_) (ih h.tail)
    obtain ⟨m, hm⟩ := exists_mem_of_ne_nil _ hne
    rw [dropLast_cons_of_ne_nil (ne_nil_of_mem (hsub.subset hm))]
    exact mem_cons_self

end Filled

theorem splitBytes_spec (bytes : Bytes) (splitLen : { n : Nat // 0 < n }) (i : Nat) :
    (splitBytes bytes splitLen i).flatten = bytes.drop i ∧
      Filled splitLen ((splitBytes bytes splitLen i).map List.length) := by
  fun_induction splitBytes bytes splitLen i with
  | case1 i hi ih =>
    obtain ⟨hflatten, hfilled⟩ := ih
    have hlen : ((bytes.take (min (i + splitLen) bytes.length)).drop i).length =
        min (i + splitLen) bytes.length - i := by simp
    constructor
    · rw [flatten_cons, hflatten, drop_take, ← drop_drop]
      rcases Nat.le_total (i + splitLen) bytes.length with hle | hge
      · rw [Nat.min_eq_left hle, Nat.add_sub_cancel_left, take_append_drop]
      · rw [Nat.min_eq_right hge, drop_drop, drop_of_length_le hge, append_nil,
          take_of_length_le (by simp)]
    · refine hfilled.cons (by omega) fun hne => ?_
      -- there is a next piece, so that this one does not reach the end
      have hmore : i + splitLen < bytes.length := by
        by_contra hend
        rw [splitBytes, if_neg hend] at hne
        exact hne rfl
      omega
  | case2 i hi => exact ⟨(drop_of_length_le (by omega)).symm, .nil⟩

abbrev contents (fragments : List Bytes) : Bytes :=
  (fragments.map (List.drop headerLength)).flatten

theorem contents_cons (header : Header) (piece : Bytes) (fragments : List Bytes) :
    contents ((header.marshal ++ piece) :: fragments) = piece ++ contents fragments := by
  rw [contents, map_cons, drop_left' (Header.length_marshal _), flatten_cons]

/-- The fragments carry the content, each behind a header that says where its
part belongs and what it is a part of. -/
structure FragmentsOf (header : Header) (content : Bytes) (fragments : List Bytes) : Prop where
  content_eq : contents fragments = content
  header_eq : ∀ before fragment after, fragments = before ++ fragment :: after →
    headerLength ≤ fragment.length ∧
      Header.unmarshal fragment = .ok { header with
        fragmentOffset := .ofNat (contents before).length
        fragmentLength := .ofNat (fragment.drop headerLength).length }

theorem map_drop_fragmentsFrom (header : Header) (offset : Nat) (pieces : List Bytes) :
    (fragmentsFrom header offset pieces).map (List.drop headerLength) = pieces := by
  induction pieces generalizing offset with
  | nil => rfl
  | cons piece pieces ih =>
    rw [fragmentsFrom, map_cons, ih, drop_left' (Header.length_marshal _)]

theorem header_fragmentsFrom {header : Header} (hlength : header.length.toNat < 256 ^ 3)
    {offset : Nat} {pieces : List Bytes} (hfits : offset + pieces.flatten.length < 256 ^ 3)
    {before after : List Bytes} {fragment : Bytes}
    (heq : fragmentsFrom header offset pieces = before ++ fragment :: after) :
    headerLength ≤ fragment.length ∧
      Header.unmarshal fragment = .ok { header with
        fragmentOffset := .ofNat (offset + (contents before).length)
        fragmentLength := .ofNat (fragment.drop headerLength).length } := by
  induction pieces generalizing offset before with
  | nil => cases before <;> cases heq
  | cons piece pieces ih =>
    rw [flatten_cons, length_append] at hfits
    cases before with
    | nil =>
      cases heq
      refine ⟨by simp, ?_⟩
      rw [drop_left' (Header.length_marshal _)]
      exact @Header.unmarshal_marshal
        { header with fragmentOffset := .ofNat offset, fragmentLength := .ofNat piece.length }
        hlength (toNat_ofNat_lt (by omega)) (toNat_ofNat_lt (by omega)) piece
    | cons first before =>
      obtain ⟨rfl, htail⟩ := List.cons.inj heq
      rw [contents_cons, length_append, ← Nat.add_assoc]
      exact ih (by omega) htail

/-! ## How long the records are -/

theorem UnifiedHeader.marshal_returns {u : UnifiedHeader} (hcid : u.connectionID.length ≤ 255)
    (hseq : u.seqBit = true) (hlength : u.lengthBit = true) :
    ∃ bytes, u.marshal = .ok bytes ∧ bytes.length = u.connectionID.length + 5 := by
  rw [marshal, if_neg (Nat.not_lt.mpr hcid), hseq, hlength]
  exact ⟨_, rfl, by simp⟩

theorem newUnifiedRecord_returns {epoch seq protectedLen : Nat} {header : UnifiedHeader}
    (hepoch : header.epochLow = .ofNat (epoch % 4))
    (hnumber : header.sequenceNumber = .ofNat (seq % 2 ^ 16)) (hseq : header.seqBit = true)
    (hbit : header.lengthBit = true) (hlength : header.length = 0)
    (hcid : header.connectionID.length ≤ 255) (hlen : protectedLen ≤ 65535) :
    ∃ metadata, newUnifiedRecord epoch seq header protectedLen = .ok metadata := by
  have hlow : ¬(3 : UInt8) < UInt8.ofNat (epoch % 4) := by
    rw [UInt8.lt_iff_toNat_lt, UInt8.toNat_ofNat']
    have hmod : epoch % 4 < 4 := Nat.mod_lt _ (by decide)
    show ¬3 < epoch % 4 % 2 ^ 8
    omega
  obtain ⟨bytes, hmarshal, -⟩ := @UnifiedHeader.marshal_returns
    { header with length := .ofNat protectedLen } hcid hseq hbit
  have hguard : ¬(3 < header.epochLow ∨ UInt8.ofNat (epoch % 4) ≠ header.epochLow ∨
      255 < header.connectionID.length ∨ 65535 < protectedLen) := by
    rw [hepoch]
    simp [hlow, hcid, hlen]
  refine ⟨⟨seq, bytes, protectedLen⟩, ?_⟩
  rw [newUnifiedRecord, if_neg hguard, if_pos hseq, if_neg (not_not_intro hnumber.symm), if_neg,
    if_pos hbit]
  · simp only [hmarshal]
    rfl
  · simp [hlength]

theorem marshalCiphertext_returns {header : UnifiedHeader} {cid encrypted : Bytes}
    (heq : header.connectionID = cid) (hcid : cid.length ≤ 255) (hlow : 16 ≤ encrypted.length)
    (hhigh : encrypted.length ≤ 2 ^ 14 + 256) :
    ∃ raw, marshalCiphertext header encrypted = .ok raw ∧
      raw.length = cid.length + 5 + encrypted.length := by
  subst heq
  obtain ⟨bytes, hmarshal, hbytes⟩ := @UnifiedHeader.marshal_returns
    { header with
      seqBit := true, length := .ofNat encrypted.length, lengthBit := true } hcid rfl rfl
  refine ⟨bytes ++ encrypted, ?_, by rw [length_append, hbytes]⟩
  rw [marshalCiphertext, if_neg (by omega)]
  simp only [hmarshal]
  rfl

/-- The protection of DTLS 1.3 as the connection uses it: `k` bytes are added to
every plaintext, and the sequence number is masked with a sample of 16 bytes. -/
structure Conn.Seals (c : Conn) (epoch k : Nat) : Prop where
  version : c.localVersion = version1_3
  suite : ∃ capabilities, c.cipherSuite = some capabilities ∧ capabilities.version = version1_3 ∧
    capabilities.maskSampleLen = 16 ∧
    ∀ n ≤ 2 ^ 14 + 1, capabilities.protectedLen n = .ok (n + k)
  enough : 8 ≤ k
  generation : ∃ protection, c.trafficKeys epoch = some protection ∧
    (∀ metadata inner, ∃ sealed, protection.sealing metadata inner = .ok sealed ∧
      sealed.length = inner.length + k) ∧
    ∀ sample, sample.length = 16 → ∃ a b rest, protection.mask sample = .ok (a :: b :: rest)
  cid : (c.sendCID.getD []).length ≤ 255

namespace Conn

variable {c : Conn} {epoch k : Nat}

theorem Seals.overhead (h : c.Seals epoch k) :
    c.handshakeRecordOverhead epoch .ciphertext = .ok ((c.sendCID.getD []).length + 6 + k) := by
  obtain ⟨capabilities, hsuite, -, -, hlen⟩ := h.suite
  obtain ⟨protection, hkeys, -, -⟩ := h.generation
  obtain ⟨bytes, hmarshal, hbytes⟩ := @UnifiedHeader.marshal_returns
    { seqBit := true, lengthBit := true, connectionID := c.sendCID.getD [] } h.cid rfl rfl
  have hsum : bytes.length + (1 + k) = (c.sendCID.getD []).length + 6 + k := by
    dsimp only at hbytes
    omega
  simp [handshakeRecordOverhead, h.version, hsuite, writeTrafficGeneration, hkeys,
    hlen 1 (by decide), hmarshal, hsum]

theorem Seals.sealRecordContent (h : c.Seals epoch k) {seq : Nat} {contentType : UInt8}
    {plaintext : Bytes} (hlow : headerLength ≤ plaintext.length)
    (hhigh : (c.sendCID.getD []).length + 6 + k + plaintext.length ≤ 2 ^ 14) :
    ∃ raw, c.sealRecordContent epoch seq contentType plaintext = .ok raw ∧
      raw.length = (c.sendCID.getD []).length + 6 + k + plaintext.length := by
  obtain ⟨capabilities, hsuite, hversion, hsample, hlen⟩ := h.suite
  obtain ⟨protection, hkeys, hseal, hmask⟩ := h.generation
  have henough := h.enough
  have hinner : (innerPlaintext plaintext contentType 0).length = plaintext.length + 1 := by
    simp [innerPlaintext]
  have hmode : capabilities.mode ≠ .none := by
    intro hnone
    have hzero := hlen 0 (by decide)
    rw [Capabilities.protectedLen, if_pos (.inl hnone)] at hzero
    cases hzero
  have hfits : ¬2 ^ 14 + 1 < plaintext.length + 1 := by omega
  have hlong : ¬plaintext.length + 1 + k < 16 := by
    rw [headerLength] at hlow
    omega
  obtain ⟨metadata, hmetadata⟩ := @newUnifiedRecord_returns epoch seq (plaintext.length + 1 + k)
    { epochLow := .ofNat (epoch % 4), sequenceNumber := .ofNat (seq % 2 ^ 16), seqBit := true,
      lengthBit := true, connectionID := c.sendCID.getD [] } rfl rfl rfl rfl rfl h.cid (by omega)
  obtain ⟨sealed, hsealed, hsealedLen⟩ := hseal metadata (innerPlaintext plaintext contentType 0)
  rw [hinner] at hsealedLen
  obtain ⟨a, b, rest, hmasked⟩ := hmask (sealed.take 16) (by simp; omega)
  have hmarshal : ∀ header : UnifiedHeader, header.connectionID = c.sendCID.getD [] →
      ∃ raw, marshalCiphertext header sealed = .ok raw ∧
        raw.length = (c.sendCID.getD []).length + 6 + k + plaintext.length := by
    intro header heq
    obtain ⟨raw, hraw, hrawLen⟩ := marshalCiphertext_returns heq h.cid
      (show 16 ≤ sealed.length by omega) (by omega)
    exact ⟨raw, hraw, by omega⟩
  simp only [Conn.sealRecordContent, writeTrafficGeneration, hkeys, hsuite, hinner, hfits, hmode,
    hversion, hsample, hlen _ (Nat.not_lt.mp hfits), hlong, hmetadata, hsealed, hsealedLen,
    hmasked, applySequenceNumberMask, ok_bind, pure_bind, ne_eq, not_true_eq_false, or_self,
    OfNat.ofNat_ne_zero, if_false]
  exact hmarshal _ rfl

/-- The two kinds of records: plaintext, and protected by DTLS 1.3. -/
def Frames (c : Conn) (epoch : Nat) : Protected → Prop
  | .plaintext => True
  | .ciphertext => ∃ k, c.Seals epoch k

/-- A record is longer than its fragment by the overhead that was predicted. The
one error left is an epoch that the fixed header cannot carry. -/
theorem encodeRecord_cases {protection : Protected} {overhead seq : Nat} {contentType : UInt8}
    {plaintext : Bytes} (hframes : c.Frames epoch protection)
    (hoverhead : c.handshakeRecordOverhead epoch protection = .ok overhead) (hseq : seq < 2 ^ 48)
    (hlow : headerLength ≤ plaintext.length) (hhigh : overhead + plaintext.length ≤ 2 ^ 14) :
    (protection = .plaintext ∧ 0xffff < epoch ∧
        c.encodeRecord epoch seq contentType plaintext protection = .error .epochOverflow) ∨
      ∃ raw, c.encodeRecord epoch seq contentType plaintext protection = .ok raw ∧
        raw.length = overhead + plaintext.length := by
  have hfits : ¬2 ^ 14 < plaintext.length := by omega
  cases protection with
  | plaintext =>
    have hfixed : c.handshakeRecordOverhead epoch .plaintext = .ok 13 := by
      simp [handshakeRecordOverhead]
      rfl
    obtain rfl := Except.ok.inj (hfixed.symm.trans hoverhead)
    rw [encodeRecord, if_neg hfits]
    by_cases hepoch : 0xffff < epoch
    · exact .inl ⟨rfl, hepoch, if_pos hepoch⟩
    · rw [if_neg hepoch, marshalRecord, if_neg (by omega), if_neg (by omega)]
      refine .inr ⟨_, rfl, ?_⟩
      simp
      omega
  | ciphertext =>
    obtain ⟨k, hseals⟩ := hframes
    obtain rfl : (c.sendCID.getD []).length + 6 + k = overhead := by
      simpa [hseals.overhead] using hoverhead
    rw [encodeRecord, if_neg hfits, if_pos hseals.version]
    exact .inr (hseals.sealRecordContent hlow hhigh)

end Conn

/-! ## The records of a message -/

/-- A fragment for which a record can be made. -/
structure Fits (overhead : Nat) (fragment : Bytes) : Prop where
  low : headerLength ≤ fragment.length
  high : overhead + fragment.length ≤ 2 ^ 14
  read : ∃ header, Header.unmarshal fragment = .ok header

namespace Conn

variable {c c' : Conn} {outbound : Outbound} {overhead : Nat} {fragment : Bytes}
  {fragments : List Bytes} {record : PreparedRecord} {records : List PreparedRecord}

/-- The connection behind a record. -/
def sent (c : Conn) (epoch : Nat) : Conn :=
  { c with localSequenceNumber :=
      Function.update c.localSequenceNumber epoch (c.localSequenceNumber epoch + 1) }

theorem Frames.sent {epoch : Nat} {protection : Protected} (h : c.Frames epoch protection) :
    (c.sent epoch).Frames epoch protection := by
  cases protection with
  | plaintext => trivial
  | ciphertext =>
    obtain ⟨k, hseals⟩ := h
    exact ⟨k, hseals.version, hseals.suite, hseals.enough, hseals.generation, hseals.cid⟩

theorem prepareFragment_guards (hok : c.prepareFragment outbound fragment = .ok (record, c')) :
    (0xffff < outbound.epoch → outbound.protection = .ciphertext) ∧
      c.localSequenceNumber outbound.epoch < 2 ^ 48 := by
  obtain ⟨seq, d, halloc, hrest⟩ := step_ok hok
  obtain ⟨raw, hraw, -⟩ := bind_eq_ok.mp hrest
  obtain ⟨-, hnext⟩ := guard_eq_ok.mp halloc
  refine ⟨fun hepoch => ?_, by have := (guard_eq_ok.mp hnext).1; omega⟩
  cases hprotection : outbound.protection with
  | ciphertext => rfl
  | plaintext =>
    rw [hprotection, encodeRecord] at hraw
    exact absurd hepoch (guard_eq_ok.mp (guard_eq_ok.mp hraw).2).1

theorem selectHandshakeFragment_returns (hfits : Fits overhead fragment)
    (offsets : Option (GoMap UInt32 UInt32)) :
    ∃ selected, selectHandshakeFragment offsets fragment = .ok selected := by
  obtain ⟨header, hread⟩ := hfits.read
  cases offsets with
  | none => exact ⟨true, rfl⟩
  | some offsets =>
    rw [selectHandshakeFragment, hread]
    exact ⟨_, rfl⟩

section

variable (hframes : c.Frames outbound.epoch outbound.protection)
  (hoverhead : c.handshakeRecordOverhead outbound.epoch outbound.protection = .ok overhead)
include hframes hoverhead

theorem prepareFragment_returns (hfits : Fits overhead fragment)
    (hepoch : 0xffff < outbound.epoch → outbound.protection = .ciphertext)
    (hnumber : c.localSequenceNumber outbound.epoch < 2 ^ 48) :
    ∃ record, c.prepareFragment outbound fragment = .ok (record, c.sent outbound.epoch) ∧
      record.raw.length = overhead + fragment.length := by
  have halloc : c.allocateLocalSequenceNumber outbound.epoch =
      .ok (c.localSequenceNumber outbound.epoch, c.sent outbound.epoch) := by
    rw [allocateLocalSequenceNumber, if_neg, if_neg (by omega)]
    · rfl
    · rintro ⟨hversion, hlarge⟩
      rw [hepoch hlarge] at hframes
      obtain ⟨k, hseals⟩ := hframes
      exact hversion hseals.version
  obtain ⟨hplain, hlarge, -⟩ | ⟨raw, hraw, hlength⟩ := @encodeRecord_cases
    (c.sent outbound.epoch) outbound.epoch outbound.protection overhead
    (c.localSequenceNumber outbound.epoch) 22 fragment hframes.sent hoverhead hnumber hfits.low
    hfits.high
  · rw [hepoch hlarge] at hplain
    cases hplain
  · obtain ⟨header, hread⟩ := hfits.read
    rw [prepareFragment, halloc, ok_bind]
    simp only [hraw, hread, ok_bind]
    split
    · exact ⟨_, rfl, hlength⟩
    · exact ⟨_, rfl, hlength⟩

/-- The records that are made belong to the selected fragments, one by one. -/
theorem prepareFragments_ok (hfits : ∀ fragment ∈ fragments, Fits overhead fragment)
    (hok : prepareFragments outbound c fragments = .ok (records, c')) :
    ∃ selected, selected.Sublist fragments ∧
      (outbound.handshakeFragmentOffsets = none → selected = fragments) ∧
      records.map (·.raw.length) = selected.map (overhead + ·.length) := by
  induction fragments generalizing c records with
  | nil =>
    cases hok
    exact ⟨[], .slnil, fun _ => rfl, rfl⟩
  | cons fragment fragments ih =>
    obtain ⟨hfirst, htail⟩ := forall_mem_cons.mp hfits
    obtain ⟨selected, hselected, hrest⟩ := bind_eq_ok.mp hok
    cases selected with
    | false =>
      obtain ⟨chosen, hsub, -, hrecords⟩ := ih hframes hoverhead htail hrest
      refine ⟨chosen, hsub.cons fragment, fun hnone => ?_, hrecords⟩
      rw [hnone] at hselected
      cases hselected
    | true =>
      obtain ⟨record, d, hrecord, hrest⟩ := step_ok hrest
      obtain ⟨more, e, hmore, hpair⟩ := step_ok hrest
      obtain ⟨hepoch, hnumber⟩ := prepareFragment_guards hrecord
      obtain ⟨made, hmade, hlength⟩ :=
        prepareFragment_returns hframes hoverhead hfirst hepoch hnumber
      cases hmade.symm.trans hrecord
      cases hpair
      obtain ⟨chosen, hsub, hall, hrecords⟩ := ih hframes.sent hoverhead htail hmore
      refine ⟨fragment :: chosen, hsub.cons_cons fragment, fun hnone => by rw [hall hnone], ?_⟩
      rw [map_cons, map_cons, hlength, hrecords]

theorem prepareFragments_returns (hfits : ∀ fragment ∈ fragments, Fits overhead fragment)
    (hepoch : 0xffff < outbound.epoch → outbound.protection = .ciphertext)
    (hnumbers : c.localSequenceNumber outbound.epoch + fragments.length ≤ 2 ^ 48) :
    ∃ records c', prepareFragments outbound c fragments = .ok (records, c') := by
  induction fragments generalizing c with
  | nil => exact ⟨[], c, rfl⟩
  | cons fragment fragments ih =>
    rw [length_cons] at hnumbers
    obtain ⟨hfirst, htail⟩ := forall_mem_cons.mp hfits
    obtain ⟨selected, hselected⟩ :=
      selectHandshakeFragment_returns hfirst outbound.handshakeFragmentOffsets
    rw [prepareFragments, hselected, ok_bind]
    cases selected with
    | false => exact ih hframes hoverhead htail (by omega)
    | true =>
      obtain ⟨record, hrecord, -⟩ :=
        prepareFragment_returns hframes hoverhead hfirst hepoch (by omega)
      have hsent : (c.sent outbound.epoch).localSequenceNumber outbound.epoch =
          c.localSequenceNumber outbound.epoch + 1 := Function.update_self ..
      obtain ⟨more, d, hmore⟩ := ih hframes.sent hoverhead htail (by omega)
      simp only [if_true, hrecord, hmore, ok_bind]
      exact ⟨_, _, rfl⟩

end

end Conn

/-! ## Datagrams -/

def datagramOf (group : List PreparedRecord) : PreparedDatagram :=
  ⟨(group.map (·.raw)).flatten, group.filterMap (·.tracked)⟩

theorem datagramOf_append (group : List PreparedRecord) (record : PreparedRecord) :
    datagramOf (group ++ [record]) = (datagramOf group).add record := by
  cases htracked : record.tracked <;> simp [datagramOf, PreparedDatagram.add, htracked]

/-- The loop cuts the records that are left, behind those of the current datagram. -/
theorem compactFrom_groups (mtu : Nat) (records group : List PreparedRecord) :
    ∃ groups : List (List PreparedRecord), groups.flatten = group ++ records ∧
      compactFrom mtu (datagramOf group) records = groups.map datagramOf := by
  induction records generalizing group with
  | nil => exact ⟨[group], by simp, rfl⟩
  | cons record records ih =>
    rw [compactFrom]
    split
    · obtain ⟨groups, hflatten, heq⟩ := ih [record]
      refine ⟨group :: groups, by simp [hflatten], ?_⟩
      rw [map_cons, ← heq, ← nil_append [record], datagramOf_append]
      rfl
    · obtain ⟨groups, hflatten, heq⟩ := ih (group ++ [record])
      exact ⟨groups, by simp [hflatten], by rw [← heq, datagramOf_append]⟩

theorem compactFrom_le {mtu : Nat} {current : PreparedDatagram} {records : List PreparedRecord}
    (hcurrent : current.raw.length ≤ mtu) (hrecords : ∀ record ∈ records, record.raw.length ≤ mtu) :
    ∀ datagram ∈ compactFrom mtu current records, datagram.raw.length ≤ mtu := by
  induction records generalizing current with
  | nil =>
    intro datagram hmem
    rwa [mem_singleton.mp hmem]
  | cons record records ih =>
    obtain ⟨hfirst, hrest⟩ := forall_mem_cons.mp hrecords
    rw [compactFrom]
    split
    · refine forall_mem_cons.mpr ⟨hcurrent, ih ?_ hrest⟩
      simpa [PreparedDatagram.add] using hfirst
    · refine ih ?_ hrest
      rw [PreparedDatagram.add, length_append]
      omega

/-! ## Handshake messages in datagrams -/

theorem fragmentHandshake_eq {c : Conn} {handshake : Handshake} {content : Bytes} {overhead : Nat}
    (hcontent : handshake.message = .ok content)
    (hmin : overhead + 13 ≤ c.maximumTransmissionUnit) :
    ∃ pieces : List Bytes, pieces.flatten = content ∧
      Filled (c.maximumTransmissionUnit - overhead - headerLength) (pieces.map List.length) ∧
      c.fragmentHandshake handshake overhead = .ok (fragmentsFrom handshake.header 0 pieces) := by
  have hmax : (c.maxHandshakeFragmentLength overhead : Nat) =
      c.maximumTransmissionUnit - overhead - headerLength := by
    rw [Conn.maxHandshakeFragmentLength, dif_neg (by rw [headerLength]; omega)]
  obtain ⟨hflatten, hfilled⟩ := splitBytes_spec content (c.maxHandshakeFragmentLength overhead) 0
  rw [hmax] at hfilled
  rw [Conn.fragmentHandshake, hcontent, ok_bind]
  dsimp only
  split_ifs with hnil
  · rw [hnil] at hflatten
    exact ⟨[[]], hflatten, .cons (Nat.zero_le _) (absurd rfl) .nil, rfl⟩
  · exact ⟨_, hflatten, hfilled, rfl⟩

theorem lengths_fragmentsFrom (header : Header) (offset : Nat) (pieces : List Bytes) :
    (fragmentsFrom header offset pieces).map List.length =
      (pieces.map List.length).map (headerLength + ·) := by
  induction pieces generalizing offset with
  | nil => rfl
  | cons piece pieces ih => simp [fragmentsFrom, ih]

/-- **Handshake datagrams fit the MTU.** The fragments carry the message at
consecutive offsets under headers that keep its type, length and sequence; every
record is at most the MTU, and every one but the last is exactly the MTU; and
records that fit are put into datagrams that fit, in order and without loss. -/
theorem handshake_datagrams_fit {c : Conn} {outbound : Outbound} {handshake : Handshake}
    {content : Bytes} {overhead : Nat} (hcontent : handshake.message = .ok content)
    (hshort : content.length < 2 ^ 24) (hlength : handshake.header.length.toNat < 2 ^ 24)
    (hframes : c.Frames outbound.epoch outbound.protection)
    (hoverhead : c.handshakeRecordOverhead outbound.epoch outbound.protection = .ok overhead)
    (hmin : overhead + 13 ≤ c.maximumTransmissionUnit)
    (hmax : c.maximumTransmissionUnit ≤ 16384) :
    ∃ fragments, c.fragmentHandshake handshake overhead = .ok fragments ∧
      FragmentsOf handshake.header content fragments ∧
      (∀ records c', c.prepareHandshakeRecords outbound handshake = .ok (records, c') →
        Filled c.maximumTransmissionUnit (records.map (·.raw.length)) ∧
          (outbound.handshakeFragmentOffsets = none → records.length = fragments.length)) ∧
      ((0xffff < outbound.epoch → outbound.protection = .ciphertext) →
        c.localSequenceNumber outbound.epoch + fragments.length ≤ 2 ^ 48 →
        ∃ records c', c.prepareHandshakeRecords outbound handshake = .ok (records, c')) ∧
      ∀ records : List PreparedRecord,
        (∀ record ∈ records, record.raw.length ≤ c.maximumTransmissionUnit) →
        (∃ groups : List (List PreparedRecord), groups.flatten = records ∧
          c.compactPreparedRecords records = groups.map datagramOf) ∧
        ∀ datagram ∈ c.compactPreparedRecords records,
          datagram.raw.length ≤ c.maximumTransmissionUnit := by
  obtain ⟨pieces, hflatten, hfilled, hfragments⟩ := fragmentHandshake_eq hcontent hmin
  have hprepare : c.prepareHandshakeRecords outbound handshake =
      Conn.prepareFragments outbound c (fragmentsFrom handshake.header 0 pieces) := by
    rw [Conn.prepareHandshakeRecords, hoverhead, ok_bind, hfragments, ok_bind]
  have hheader : ∀ before fragment after,
      fragmentsFrom handshake.header 0 pieces = before ++ fragment :: after → _ :=
    fun before fragment after => @header_fragmentsFrom handshake.header (by omega) 0 pieces
      (by rw [hflatten]; omega) before after fragment
  have hrecords : Filled c.maximumTransmissionUnit
      ((fragmentsFrom handshake.header 0 pieces).map (overhead + ·.length)) := by
    have hmtu : overhead + (headerLength + (c.maximumTransmissionUnit - overhead - headerLength)) =
        c.maximumTransmissionUnit := by
      rw [headerLength]
      omega
    have hsum := (hfilled.add headerLength).add overhead
    rwa [← lengths_fragmentsFrom handshake.header 0, map_map, hmtu] at hsum
  have hfits : ∀ fragment ∈ fragmentsFrom handshake.header 0 pieces, Fits overhead fragment := by
    intro fragment hmem
    obtain ⟨before, after, heq⟩ := append_of_mem hmem
    obtain ⟨hlow, hread⟩ := hheader before fragment after heq
    have hle := hrecords.1 _ (mem_map_of_mem hmem)
    exact ⟨hlow, by omega, _, hread⟩
  refine ⟨_, hfragments, ⟨?_, ?_⟩, ?_, ?_, fun records hle => ⟨?_, ?_⟩⟩
  · rw [contents, map_drop_fragmentsFrom, hflatten]
  · intro before fragment after heq
    simpa using hheader before fragment after heq
  · intro records c' hok
    rw [hprepare] at hok
    obtain ⟨selected, hsub, hall, hlengths⟩ :=
      Conn.prepareFragments_ok hframes hoverhead hfits hok
    refine ⟨?_, fun hnone => ?_⟩
    · rw [hlengths]
      exact hrecords.sublist (hsub.map _)
    · rw [← hall hnone, ← length_map, hlengths, length_map]
  · intro hepoch hnumbers
    rw [hprepare]
    exact Conn.prepareFragments_returns hframes hoverhead hfits hepoch hnumbers
  · exact compactFrom_groups _ records []
  · exact compactFrom_le (Nat.zero_le _) hle

/-- DTLS 1.3 with a connection ID of two bytes, a tag of 16 and an MTU of 46. -/
def sampleConn : Conn where
  maximumTransmissionUnit := 46
  localVersion := version1_3
  cipherSuite := some (aeadCapabilities 0 16)
  trafficKeys _ := some ⟨fun _ inner => .ok (inner ++ List.replicate 16 0), .ok⟩
  sendCID := some [7, 7]
  protect12 _ _ _ _ := .error .cipherSuiteNotInit
  localSequenceNumber _ := 0

theorem sampleConn_seals (epoch : Nat) : sampleConn.Seals epoch 16 where
  version := rfl
  suite := by
    refine ⟨_, rfl, rfl, rfl, fun n hn => ?_⟩
    rw [Capabilities.protectedLen, if_neg, if_pos]
    · rfl
    · rfl
    · rintro (hmode | hlen)
      · cases hmode
      · exact absurd hlen (Nat.not_lt.mpr hn)
  enough := by decide
  generation := by
    refine ⟨_, rfl, fun metadata inner => ⟨_, rfl, by simp⟩, fun sample hsample => ?_⟩
    match sample with
    | a :: b :: rest => exact ⟨a, b, rest, rfl⟩
  cid := by decide

/-- A message of 25 bytes, ten to a record. -/
def sampleHandshake : Handshake := ⟨⟨11, 25, 3, 0, 0⟩, .ok (List.replicate 25 1)⟩

theorem handshake_datagrams_fit_three_records :
    ∃ fragments, sampleConn.fragmentHandshake sampleHandshake 24 = .ok fragments ∧
      FragmentsOf sampleHandshake.header (List.replicate 25 1) fragments ∧
      ∀ records c',
        sampleConn.prepareHandshakeRecords ⟨2, .ciphertext, none, true⟩ sampleHandshake =
          .ok (records, c') → Filled 46 (records.map (·.raw.length)) := by
  obtain ⟨fragments, hfragments, hof, hrecords, -⟩ := @handshake_datagrams_fit sampleConn
    ⟨2, .ciphertext, none, true⟩ sampleHandshake _ 24 rfl (by decide) (by decide)
    ⟨16, sampleConn_seals 2⟩ (sampleConn_seals 2).overhead (by decide) (by decide)
  exact ⟨fragments, hfragments, hof, fun records c' hok => (hrecords records c' hok).1⟩

end HeadlessClient.DTLS.Records
