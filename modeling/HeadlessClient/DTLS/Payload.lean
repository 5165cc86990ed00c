import HeadlessClient.Wire.Vector

/-!
# DTLS — extension payloads

The payload codecs of `pkg/protocol/extension` (with `dtls12` and `dtls13`) for
the extensions of a ClientHello: what `MarshalData` writes and what
`UnmarshalData` accepts, byte by byte.

Almost every pair is a bijection between the payloads it can write and the
bytes it accepts: `marshalData v = ok data` iff `unmarshalData data = ok v`.
The exceptions are `server_name` and `ec_point_formats`, whose readers DROP
what they do not know; there a payload that was read is written back in a form
that reads as the same payload.
-/

namespace HeadlessClient.DTLS

open Base Wire List

/-! ## Errors -/

/-- The messages an extension can stand in (those a retry needs). -/
inductive ExtensionContext where
  | clientHello
  | helloRetryRequest
deriving DecidableEq, Repr

/-- `alert.Description`. -/
inductive Alert where
  | decodeError
  | illegalParameter
  | internalError
  | missingExtension
deriving DecidableEq, Repr

/-- The sentinel errors of `internal/errors` and of package `negotiation`. -/
inductive Sentinel where
  | bufferTooSmall
  | lengthMismatch
  | invalidExtensionsLength
  | alpnInvalidFormat
  | invalidSNIFormat
  | invalidCIDFormat
  | masterKeyIdentifierTooLarge
  | useSRTPDataTooLarge
  | pointFormatsTooLarge
  | preSharedKeyFormat
  | pskKeyExchangeModesFormat
  | noPskKeyExchangeMode
  | cookieExtFormat
  | invalidKeyShareFormat
  | duplicateKeyShare
  | invalidSupportedVersionsFormat
  | earlyDataIndicationFormat
  | invalidCertificateAuthFormat
  | cookieTooLong
  | sessionIDTooLong
  | compressionMethodsTooLong
  | duplicateExtension
  | extensionNotAllowed
  | preSharedKeyNotLast
  | missingPSKKeyExchangeModesExtension
  | missingConnectionIDExtension
  | earlyDataWithoutPreSharedKey
  | keyShareWithoutSupportedGroups
  | keyShareGroupNotOffered
  | supportedGroupsWithoutKeyShare
  | duplicateSupportedGroup
  | missingSupportedVersionsExtension
  | missingClientHelloExtension
  | invalidConnectionIDLength
  | invalidClientHello
  | invalidHelloRetryRequest
  | cookieMismatch
  | retryMissingInitial
  | retryNoEffect
  | retryUnvalidatedRequest
  | retryMissingFreshShare
  | retryMissingSnapshot
  | retryChangedFields
  | retryWrongKeyShare
  | retryChangedExtensions
  | retryCipherSuiteNotOffered
  | retryGroupNotOffered
  | retryGroupAlreadyShared
deriving DecidableEq, Repr

/-- An error value, as the sentinels and alerts it wraps. -/
inductive Error where
  | sentinel (e : Sentinel)
  /-- `"extensions in %s: %w: %w"`. -/
  | extensions (context : ExtensionContext) (cause : Error) (alert : Alert)
  /-- `"extension %d in %s: %w: %w"`. -/
  | extension (typ : UInt16) (context : ExtensionContext) (cause : Error) (alert : Alert)
  /-- `"extension %d in %s requires extension %d: %w: %w"`. -/
  | requires (typ : UInt16) (context : ExtensionContext) (required : UInt16) (cause : Error)
      (alert : Alert)
  /-- `"%w: %d"`. -/
  | about (e : Sentinel) (id : UInt16)
  /-- `"<text>: %w"`. -/
  | within (text : String) (cause : Error)
  /-- `"%w: hello hook returned %d bytes, want %d"`. -/
  | cidLength (got want : Nat)
  /-- `negotiationError(kind, err, description)`. -/
  | negotiation (kind : Sentinel) (cause : Error) (alert : Alert)
deriving DecidableEq, Repr

/-- Return a sentinel error. -/
def fail {α : Type} (e : Sentinel) : Except Error α := .error (.sentinel e)

@[simp] theorem fail_ne_ok {α : Type} (e : Sentinel) (a : α) : (fail e = .ok a) ↔ False := by
  simp [fail]

variable {e : Sentinel} {data : Bytes} {w least : Nat} {as : List Bytes}

theorem fail_guard {α : Type} {c : Prop} [Decidable c] {x : Except Error α} {a : α} :
    (if c then fail e else x) = .ok a ↔ ¬c ∧ x = .ok a :=
  guard_eq_ok

/-! ## 16-bit lists -/

def putUint16 (x : UInt16) : Bytes := putUint 2 x.toNat

/-- `binary.BigEndian.Uint16(data)`. -/
def getUint16 (data : Bytes) : UInt16 := UInt16.ofNat (getUint (data.take 2))

@[simp] theorem length_putUint16 (x : UInt16) : (putUint16 x).length = 2 := by
  simp [putUint16]

theorem getUint16_putUint16 (x : UInt16) (rest : Bytes) :
    getUint16 (putUint16 x ++ rest) = x := by
  rw [getUint16, putUint16, take_left' (length_putUint _ _),
    getUint_putUint (by simpa using x.toNat_lt), UInt16.ofNat_toNat]

theorem putUint16_getUint16 (h : 2 ≤ data.length) : putUint16 (getUint16 data) = data.take 2 := by
  have hlen : (data.take 2).length = 2 := by simpa using h
  have hlt : getUint (data.take 2) < 2 ^ 16 := by simpa [hlen] using getUint_lt (data.take 2)
  have hput := putUint_getUint (data.take 2)
  rw [hlen] at hput
  rw [putUint16, getUint16, UInt16.toNat_ofNat_of_lt' hlt, hput]

/-- `data` starts with the 16-bit number `x`. -/
theorem putUint16_append_iff {x : UInt16} {rest : Bytes} :
    (2 ≤ data.length ∧ getUint16 data = x ∧ data.drop 2 = rest) ↔
      data = putUint16 x ++ rest := by
  constructor
  · rintro ⟨hlen, rfl, rfl⟩
    rw [putUint16_getUint16 hlen, take_append_drop]
  · rintro rfl
    exact ⟨by simp, getUint16_putUint16 x rest, by rw [drop_left' (length_putUint16 x)]⟩

theorem putUint16_vec_append_iff {x : UInt16} {body rest : Bytes} :
    (4 ≤ data.length ∧ getUint ((data.drop 2).take 2) ≤ (data.drop 4).length ∧
        getUint16 data = x ∧ (data.drop 4).take (getUint ((data.drop 2).take 2)) = body ∧
        (data.drop 4).drop (getUint ((data.drop 2).take 2)) = rest) ↔
      body.length ≤ 0xffff ∧ data = putUint16 x ++ vec 2 body ++ rest := by
  have hdrop : data.drop 4 = (data.drop 2).drop 2 := by rw [drop_drop]
  have hlen := length_drop (i := 2) (l := data)
  rw [append_assoc, ← putUint16_append_iff, hdrop]
  constructor
  · rintro ⟨hfour, hle, hx, hbody, hrest⟩
    obtain ⟨hlt, hvec⟩ := (vec_append_iff rfl).mp ⟨by omega, hle, hbody, hrest⟩
    exact ⟨by omega, by omega, hx, hvec⟩
  · rintro ⟨hfit, -, hx, hvec⟩
    obtain ⟨htwo, hle, hbody, hrest⟩ := (vec_append_iff rfl).mpr
      ⟨show body.length < 256 ^ 2 by omega, hvec⟩
    exact ⟨by omega, hle, hx, hbody, hrest⟩

/-- The loop `for offset := 0; offset < len(data); offset += 2`. -/
def uint16s : Bytes → List UInt16
  | a :: b :: rest => getUint16 [a, b] :: uint16s rest
  | _ => []

theorem uint16s_flatMap (xs : List UInt16) : uint16s (xs.flatMap putUint16) = xs := by
  induction xs with
  | nil => rfl
  | cons x xs ih =>
    have hhead := getUint16_putUint16 x []
    simp only [append_nil] at hhead
    simp only [flatMap_cons]
    change getUint16 (putUint16 x) :: uint16s (xs.flatMap putUint16) = _
    rw [hhead, ih]

theorem flatMap_uint16s : ∀ {data : Bytes}, data.length % 2 = 0 →
    (uint16s data).flatMap putUint16 = data
  | [], _ => rfl
  | [_], h => by simp at h
  | a :: b :: rest, h => by
      have hrest : rest.length % 2 = 0 := by simp only [length_cons] at h; omega
      rw [uint16s, flatMap_cons, flatMap_uint16s hrest, putUint16_getUint16 (by simp)]
      rfl

theorem length_flatMap_putUint16 (xs : List UInt16) :
    (xs.flatMap putUint16).length = 2 * xs.length := by
  simp [length_flatMap, map_const', Nat.mul_comm]

theorem vec_flatMap_putUint16 (w : Nat) (xs : List UInt16) :
    putUint w (xs.length * 2) ++ xs.flatMap putUint16 = vec w (xs.flatMap putUint16) := by
  rw [vec, length_flatMap_putUint16, Nat.mul_comm]

/-- `vec_codec` for a list of numbers. -/
theorem uint16s_codec {good ok : Prop} {xs : List UInt16} (hgood : good → xs.length * 2 < 256 ^ w)
    (hok : ok → w ≤ data.length ∧ getUint (data.take w) = data.length - w ∧
      (data.length - w) % 2 = 0)
    (h : data.length = w + xs.length * 2 → getUint (data.take w) = xs.length * 2 →
      xs.length * 2 < 256 ^ w → (good ↔ ok)) :
    good ∧ vec w (xs.flatMap putUint16) = data ↔ ok ∧ uint16s (data.drop w) = xs := by
  have hread : ok → (uint16s (data.drop w) = xs ↔ data.drop w = xs.flatMap putUint16) := by
    intro hread
    constructor
    · rintro rfl
      rw [flatMap_uint16s (by rw [length_drop]; exact (hok hread).2.2)]
    · intro hdata
      rw [hdata, uint16s_flatMap]
  rw [Nat.mul_comm, ← length_flatMap_putUint16] at hgood h
  rw [and_congr_right hread]
  exact vec_codec hgood (fun hread => ⟨(hok hread).1, (hok hread).2.1⟩) h

/-- `marshalUint16List`; also the body of `SupportedGroups.MarshalData`. -/
def marshalUint16List (values : List UInt16) : Except Error Bytes :=
  if values.length = 0 ∨ 0x7fff < values.length then fail .lengthMismatch
  else .ok (putUint 2 (values.length * 2) ++ values.flatMap putUint16)

/-- `unmarshalUint16List`; also the body of `SupportedGroups.UnmarshalData`. -/
def unmarshalUint16List (data : Bytes) : Except Error (List UInt16) :=
  if data.length < 4 ∨ getUint (data.take 2) ≠ data.length - 2 ∨ (data.length - 2) % 2 ≠ 0 then
    fail .lengthMismatch
  else .ok (uint16s (data.drop 2))

theorem marshalUint16List_eq_ok {values : List UInt16} :
    marshalUint16List values = .ok data ↔
      (values.length ≠ 0 ∧ values.length ≤ 0x7fff) ∧ data = vec 2 (values.flatMap putUint16) := by
  rw [marshalUint16List, fail_guard, vec_flatMap_putUint16]
  simp only [Except.ok.injEq, not_or, Nat.not_lt, eq_comm (b := data), ne_eq]

theorem unmarshalUint16List_eq_ok {values : List UInt16} :
    unmarshalUint16List data = .ok values ↔
      (values.length ≠ 0 ∧ values.length ≤ 0x7fff) ∧ data = vec 2 (values.flatMap putUint16) := by
  rw [unmarshalUint16List, fail_guard, Except.ok.injEq, eq_comm (a := data)]
  exact (uint16s_codec (by omega) (by omega) (by omega)).symm

/-! ## Lists of byte strings -/

/-- One byte string of at least `least` bytes behind its `w`-byte length: the
loop body of the ALPN, `certificate_authorities` and PSK binder readers. -/
def readOpaque (w least : Nat) (e : Sentinel) (_ : List Bytes) (data : Bytes) :
    Except Error (Bytes × Bytes) :=
  if data.length < w then fail e
  else
    let length := getUint (data.take w)
    let rest := data.drop w
    if length < least ∨ rest.length < length then fail e
    else .ok (rest.take length, rest.drop length)

/-- The loop body of the matching writers. -/
def writeOpaque (w least : Nat) (e : Sentinel) (_ : List Bytes) (a : Bytes) :
    Except Error Bytes :=
  if a.length < least ∨ 256 ^ w - 1 < a.length then fail e
  else .ok (vec w a)

theorem readOpaque_eq_ok (acc : List Bytes) (data a rest : Bytes) :
    readOpaque w least e acc data = .ok (a, rest) ↔
      (least ≤ a.length ∧ a.length < 256 ^ w) ∧ data = vec w a ++ rest := by
  simp only [readOpaque, fail_guard, Except.ok.injEq, Prod.mk.injEq, not_or, Nat.not_lt]
  constructor
  · rintro ⟨hw, ⟨hleast, hle⟩, ha, hrest⟩
    obtain ⟨hlt, hdata⟩ := (vec_append_iff rfl).mp ⟨hw, hle, ha, hrest⟩
    have hlen := ha ▸ length_take_of_le hle
    exact ⟨⟨hlen ▸ hleast, hlt⟩, hdata⟩
  · rintro ⟨⟨hleast, hlt⟩, hdata⟩
    obtain ⟨hw, hle, ha, hrest⟩ := (vec_append_iff rfl).mpr ⟨hlt, hdata⟩
    have hlen := ha ▸ length_take_of_le hle
    exact ⟨hw, ⟨hlen ▸ hleast, hle⟩, ha, hrest⟩

theorem writeOpaque_eq_ok (acc : List Bytes) (a bytes : Bytes) :
    writeOpaque w least e acc a = .ok bytes ↔
      (least ≤ a.length ∧ a.length < 256 ^ w) ∧ bytes = vec w a := by
  have hpow : 0 < 256 ^ w := Nat.pow_pos (by decide)
  rw [writeOpaque, fail_guard, Except.ok.injEq, eq_comm (b := bytes)]
  refine and_congr_left fun _ => ?_
  omega

theorem readOpaques_eq_ok (hw : 0 < w) :
    readList (readOpaque w least e) data = .ok as ↔
      (∀ a ∈ as, least ≤ a.length ∧ a.length < 256 ^ w) ∧ data = as.flatMap (vec w) := by
  rw [readList_eq_ok (vec_ne_nil hw) readOpaque_eq_ok, follows_const]

theorem writeOpaques_eq_ok {room : Nat} {out : Bytes} :
    writeList room (.sentinel e) (writeOpaque w least e) as = .ok out ↔
      (∀ a ∈ as, least ≤ a.length ∧ a.length < 256 ^ w) ∧ out = as.flatMap (vec w) ∧
        out.length ≤ room := by
  rw [writeList_eq_ok writeOpaque_eq_ok, follows_const]

/-- A non-empty payload behind its 16-bit length: the check at the head of the
`server_name`, ALPN and `certificate_authorities` readers. -/
def unframe (e : Sentinel) (data : Bytes) : Except Error Bytes :=
  if data.length < 2 ∨ getUint (data.take 2) ≠ data.length - 2 ∨ data.length = 2 then fail e
  else .ok (data.drop 2)

theorem unframe_eq_ok {body : Bytes} :
    unframe e data = .ok body ↔ (body ≠ [] ∧ body.length ≤ 0xffff) ∧ data = vec 2 body := by
  simp only [unframe, fail_guard, Except.ok.injEq, ne_eq, ← length_eq_zero_iff, eq_comm (a := data)]
  exact (vec_codec (by omega) (by omega) (by omega)).symm

namespace ALPNOffer

/-- `marshalALPNProtocols`. -/
def marshalData (protocols : List Bytes) : Except Error Bytes :=
  if protocols.length = 0 then fail .alpnInvalidFormat
  else do
    let list ← writeList 0xffff (.sentinel .alpnInvalidFormat)
      (writeOpaque 1 1 .alpnInvalidFormat) protocols
    .ok (vec 2 list)

/-- `unmarshalALPNProtocols`. -/
def unmarshalData (data : Bytes) : Except Error (List Bytes) := do
  let list ← unframe .alpnInvalidFormat data
  readList (readOpaque 1 1 .alpnInvalidFormat) list

end ALPNOffer

namespace CertificateAuthorities

def marshalData (authorities : List Bytes) : Except Error Bytes :=
  if authorities.length = 0 then fail .invalidCertificateAuthFormat
  else do
    let list ← writeList 0xffff (.sentinel .invalidCertificateAuthFormat)
      (writeOpaque 2 1 .invalidCertificateAuthFormat) authorities
    .ok (vec 2 list)

def unmarshalData (data : Bytes) : Except Error (List Bytes) := do
  let list ← unframe .invalidCertificateAuthFormat data
  readList (readOpaque 2 1 .invalidCertificateAuthFormat) list

end CertificateAuthorities

theorem opaques_marshal_iff (hw : 0 < w) :
    ((if as.length = 0 then fail e
      else do
        let list ← writeList 0xffff (.sentinel e) (writeOpaque w 1 e) as
        .ok (vec 2 list)) = .ok data) ↔
      (do let list ← unframe e data
          readList (readOpaque w 1 e) list) = .ok as := by
  simp only [fail_guard, bind_eq_ok, writeOpaques_eq_ok, unframe_eq_ok, readOpaques_eq_ok hw,
    Except.ok.injEq]
  constructor
  · rintro ⟨hne, list, ⟨hgood, rfl, hroom⟩, rfl⟩
    rw [length_eq_zero_iff, ← flatMap_put_eq_nil (vec_ne_nil hw)] at hne
    exact ⟨_, ⟨⟨hne, hroom⟩, rfl⟩, hgood, rfl⟩
  · rintro ⟨list, ⟨⟨hne, hroom⟩, rfl⟩, hgood, rfl⟩
    rw [ne_eq, flatMap_put_eq_nil (vec_ne_nil hw), ← length_eq_zero_iff] at hne
    exact ⟨hne, _, ⟨hgood, rfl, hroom⟩, rfl⟩

theorem ALPNOffer.marshal_iff {protocols : List Bytes} :
    marshalData protocols = .ok data ↔ unmarshalData data = .ok protocols :=
  opaques_marshal_iff (by decide)

theorem CertificateAuthorities.marshal_iff {authorities : List Bytes} :
    marshalData authorities = .ok data ↔ unmarshalData data = .ok authorities :=
  opaques_marshal_iff (by decide)

/-! ## Single vectors -/

namespace ConnectionID

def marshalData (cid : Bytes) : Except Error Bytes :=
  if 255 < cid.length then fail .invalidCIDFormat else .ok (vec 1 cid)

def unmarshalData (data : Bytes) : Except Error Bytes :=
  if data.length = 0 then fail .invalidCIDFormat
  else
    let cidLen := getUint (data.take 1)
    if data.length - 1 < cidLen then fail .invalidCIDFormat
    else if cidLen ≠ data.length - 1 then fail .lengthMismatch
    else .ok (data.drop 1)

theorem marshal_iff {cid : Bytes} : marshalData cid = .ok data ↔ unmarshalData data = .ok cid := by
  simp only [marshalData, unmarshalData, fail_guard, Except.ok.injEq, ← and_assoc]
  exact vec_codec (by omega) (by omega) (by omega)

end ConnectionID

def maxCookieSize : Nat := 0xffff - 2

namespace Cookie

def marshalData (cookie : Bytes) : Except Error Bytes :=
  if cookie.length = 0 ∨ maxCookieSize < cookie.length then fail .cookieExtFormat
  else .ok (vec 2 cookie)

def unmarshalData (data : Bytes) : Except Error Bytes :=
  if data.length < 2 then fail .cookieExtFormat
  else
    let length := getUint (data.take 2)
    if length = 0 ∨ maxCookieSize < length ∨ length ≠ data.length - 2 then fail .cookieExtFormat
    else .ok (data.drop 2)

theorem marshal_iff {cookie : Bytes} :
    marshalData cookie = .ok data ↔ unmarshalData data = .ok cookie := by
  have hmax : maxCookieSize = 0xffff - 2 := rfl
  simp only [marshalData, unmarshalData, fail_guard, Except.ok.injEq, ← and_assoc]
  exact vec_codec (by omega) (by omega) (by omega)

end Cookie

namespace PSKKeyExchangeModes

def marshalData (modes : Bytes) : Except Error Bytes :=
  if modes.length = 0 then fail .noPskKeyExchangeMode
  else if 255 < modes.length then fail .pskKeyExchangeModesFormat
  else .ok (vec 1 modes)

def unmarshalData (data : Bytes) : Except Error Bytes :=
  if data.length < 2 ∨ getUint (data.take 1) ≠ data.length - 1 then
    fail .pskKeyExchangeModesFormat
  else .ok (data.drop 1)

theorem marshal_iff {modes : Bytes} :
    marshalData modes = .ok data ↔ unmarshalData data = .ok modes := by
  simp only [marshalData, unmarshalData, fail_guard, Except.ok.injEq, ← and_assoc]
  exact vec_codec (by omega) (by omega) (by omega)

end PSKKeyExchangeModes

namespace OfferedVersions

def marshalData (versions : List UInt16) : Except Error Bytes :=
  let length := versions.length * 2
  if length < 2 ∨ 254 < length then fail .invalidSupportedVersionsFormat
  else .ok (putUint 1 length ++ versions.flatMap putUint16)

def unmarshalData (data : Bytes) : Except Error (List UInt16) :=
  if data.length < 3 ∨ getUint (data.take 1) ≠ data.length - 1 ∨ getUint (data.take 1) % 2 ≠ 0 then
    fail .invalidSupportedVersionsFormat
  else .ok (uint16s (data.drop 1))

theorem marshal_iff {versions : List UInt16} :
    marshalData versions = .ok data ↔ unmarshalData data = .ok versions := by
  simp only [marshalData, unmarshalData, fail_guard, Except.ok.injEq, vec_flatMap_putUint16]
  exact uint16s_codec (by omega) (by omega) (by omega)

end OfferedVersions

namespace SRTPOffer

/-- `marshalSRTPPayload`. -/
def marshalData (profiles : List UInt16) (mki : Bytes) : Except Error Bytes :=
  if profiles.length = 0 ∨ 0x7fff < profiles.length then fail .useSRTPDataTooLarge
  else if 255 < mki.length then fail .masterKeyIdentifierTooLarge
  else .ok (putUint 2 (profiles.length * 2) ++ profiles.flatMap putUint16 ++ vec 1 mki)

/-- `unmarshalSRTPPayload`. -/
def unmarshalData (data : Bytes) : Except Error (List UInt16 × Bytes) :=
  if data.length < 3 then fail .bufferTooSmall
  else
    let profilesLen := getUint (data.take 2)
    if profilesLen = 0 ∨ profilesLen % 2 ≠ 0 ∨ data.length ≤ 2 + profilesLen then
      fail .lengthMismatch
    else
      let mkiLen := getUint ((data.drop (2 + profilesLen)).take 1)
      if 3 + profilesLen + mkiLen ≠ data.length then fail .lengthMismatch
      else .ok (uint16s ((data.drop 2).take profilesLen), data.drop (3 + profilesLen))

theorem marshal_iff {profiles : List UInt16} {mki : Bytes} :
    marshalData profiles mki = .ok data ↔ unmarshalData data = .ok (profiles, mki) := by
  have hcount := length_flatMap_putUint16 profiles
  simp only [marshalData, unmarshalData, fail_guard, Except.ok.injEq, Prod.mk.injEq, not_or,
    not_not, Nat.not_lt, Nat.not_le, vec_flatMap_putUint16]
  constructor
  · rintro ⟨⟨hne, hle⟩, hmki, rfl⟩
    generalize hbody : profiles.flatMap putUint16 = body at hcount
    have hval : getUint ((vec 2 body ++ vec 1 mki).take 2) = body.length :=
      getUint_take_vec (by omega) _
    have hafter : (vec 2 body ++ vec 1 mki).drop (2 + body.length) = vec 1 mki := by
      rw [← drop_drop, drop_vec, drop_left]
    have hmkiLen : getUint ((vec 1 mki).take 1) = mki.length := by
      simpa using getUint_take_vec (w := 1) (a := mki) (by omega) []
    have hend : (vec 2 body ++ vec 1 mki).drop (3 + body.length) = mki := by
      rw [show 3 + body.length = (2 + body.length) + 1 by omega, ← drop_drop, hafter]
      simpa using drop_vec 1 mki []
    rw [hval, hafter, hmkiLen, hend, drop_vec, take_left, ← hbody, uint16s_flatMap, hbody]
    simp only [length_append, length_vec]
    exact ⟨by omega, by omega, by omega, trivial, trivial⟩
  · rintro ⟨hthree, ⟨hne, heven, hlt⟩, htotal, rfl, rfl⟩
    have hlen : ((data.drop 2).take (getUint (data.take 2))).length = getUint (data.take 2) := by
      rw [length_take, length_drop]
      omega
    have hbody := flatMap_uint16s (hlen ▸ heven)
    obtain ⟨hprofiles, hdata⟩ := (vec_append_iff rfl).mp
      ⟨by omega, by rw [length_drop]; omega, hbody.symm, rfl⟩
    have hrest : (data.drop 2).drop (getUint (data.take 2)) =
        vec 1 (data.drop (3 + getUint (data.take 2))) ∧
        (data.drop (3 + getUint (data.take 2))).length < 256 := by
      rw [drop_drop]
      obtain ⟨hmki, hvec1⟩ := (@vec_iff 1 (data.drop (2 + getUint (data.take 2)))
        (data.drop (3 + getUint (data.take 2)))).mp
        ⟨by rw [length_drop]; omega, by rw [length_drop]; omega,
          by rw [drop_drop]; congr 1; omega⟩
      exact ⟨hvec1, hmki⟩
    rw [hcount] at hprofiles
    rw [hbody] at hcount ⊢
    rw [hbody, hrest.1] at hdata
    exact ⟨by omega, by omega, hdata.symm⟩

end SRTPOffer

/-! ## Key shares -/

structure KeyShareEntry where
  group : UInt16
  keyExchange : Bytes
deriving DecidableEq, Repr

namespace KeyShareEntry

def put (entry : KeyShareEntry) : Bytes := putUint16 entry.group ++ vec 2 entry.keyExchange

theorem put_ne_nil (entry : KeyShareEntry) : entry.put ≠ [] := by
  simp [put, vec_ne_nil]

/-- An entry that may follow `seen`: a new group with a key. -/
def Good (seen : List KeyShareEntry) (entry : KeyShareEntry) : Prop :=
  (∀ e ∈ seen, e.group ≠ entry.group) ∧ entry.keyExchange ≠ [] ∧
    entry.keyExchange.length ≤ 0xffff

end KeyShareEntry

namespace ClientKeyShare

def marshalKeyShareEntry (entry : KeyShareEntry) : Except Error Bytes :=
  if entry.keyExchange.length = 0 ∨ 0xffff < entry.keyExchange.length then
    fail .invalidKeyShareFormat
  else .ok (putUint16 entry.group ++ vec 2 entry.keyExchange)

/-- The loop body of `marshalKeyShareEntries`. -/
def writeEntry (seen : List KeyShareEntry) (entry : KeyShareEntry) : Except Error Bytes :=
  if seen.any (·.group = entry.group) then fail .duplicateKeyShare
  else marshalKeyShareEntry entry

def marshalKeyShareEntries (entries : List KeyShareEntry) (allowEmpty : Bool) :
    Except Error Bytes :=
  if !allowEmpty ∧ entries.length = 0 then fail .invalidKeyShareFormat
  else writeList 0xffff (.sentinel .invalidKeyShareFormat) writeEntry entries

def marshalData (shares : List KeyShareEntry) : Except Error Bytes := do
  let entries ← marshalKeyShareEntries shares true
  .ok (vec 2 entries)

/-- The loop body of `unmarshalKeyShareEntries`. -/
def readEntry (seen : List KeyShareEntry) (data : Bytes) :
    Except Error (KeyShareEntry × Bytes) :=
  if data.length < 4 then fail .invalidKeyShareFormat
  else
    let group := getUint16 data
    let length := getUint ((data.drop 2).take 2)
    let rest := data.drop 4
    if length = 0 ∨ rest.length < length then fail .invalidKeyShareFormat
    else if seen.any (·.group = group) then fail .duplicateKeyShare
    else .ok (⟨group, rest.take length⟩, rest.drop length)

def unmarshalKeyShareEntries (data : Bytes) : Except Error (List KeyShareEntry) :=
  readList readEntry data

def unmarshalData (data : Bytes) : Except Error (List KeyShareEntry) :=
  if data.length < 2 ∨ getUint (data.take 2) ≠ data.length - 2 then fail .invalidKeyShareFormat
  else unmarshalKeyShareEntries (data.drop 2)

variable {shares : List KeyShareEntry}

theorem writeEntry_eq_ok (seen : List KeyShareEntry) (entry : KeyShareEntry) (bytes : Bytes) :
    writeEntry seen entry = .ok bytes ↔ entry.Good seen ∧ bytes = entry.put := by
  simp only [writeEntry, marshalKeyShareEntry, fail_guard, Except.ok.injEq, KeyShareEntry.Good,
    KeyShareEntry.put, any_eq_true, decide_eq_true_eq, not_exists, not_and, not_or,
    Nat.not_lt, length_eq_zero_iff, eq_comm (b := bytes), and_assoc, ne_eq]

theorem readEntry_eq_ok (seen : List KeyShareEntry) (data : Bytes) (entry : KeyShareEntry)
    (rest : Bytes) :
    readEntry seen data = .ok (entry, rest) ↔ entry.Good seen ∧ data = entry.put ++ rest := by
  obtain ⟨group, key⟩ := entry
  simp only [readEntry, fail_guard, Except.ok.injEq, Prod.mk.injEq, KeyShareEntry.mk.injEq,
    KeyShareEntry.Good, KeyShareEntry.put, any_eq_true, decide_eq_true_eq, not_exists,
    not_and, not_or, Nat.not_lt, ne_eq]
  constructor
  · rintro ⟨hfour, ⟨hne, hle⟩, hseen, ⟨rfl, hkey⟩, hrest⟩
    obtain ⟨hfit, hdata⟩ := putUint16_vec_append_iff.mp ⟨hfour, hle, rfl, hkey, hrest⟩
    have hlen := hkey ▸ length_take_of_le hle
    refine ⟨⟨hseen, ?_, hfit⟩, hdata⟩
    rintro rfl
    exact hne hlen.symm
  · rintro ⟨⟨hseen, hne, hfit⟩, hdata⟩
    obtain ⟨hfour, hle, rfl, hkey, hrest⟩ := putUint16_vec_append_iff.mpr ⟨hfit, hdata⟩
    have hlen := hkey ▸ length_take_of_le hle
    have hpos := length_pos_iff.mpr hne
    exact ⟨hfour, ⟨by omega, hle⟩, hseen, ⟨rfl, hkey⟩, hrest⟩

theorem unmarshalKeyShareEntries_eq_ok {body : Bytes} :
    unmarshalKeyShareEntries body = .ok shares ↔
      Follows KeyShareEntry.Good [] shares ∧ body = shares.flatMap KeyShareEntry.put := by
  exact readList_eq_ok KeyShareEntry.put_ne_nil readEntry_eq_ok

theorem marshalKeyShareEntries_eq_ok {shares : List KeyShareEntry} {body : Bytes} :
    marshalKeyShareEntries shares true = .ok body ↔
      Follows KeyShareEntry.Good [] shares ∧ body = shares.flatMap KeyShareEntry.put ∧
        body.length ≤ 0xffff := by
  rw [marshalKeyShareEntries, if_neg (by simp)]
  exact writeList_eq_ok writeEntry_eq_ok

theorem marshal_iff :
    marshalData shares = .ok data ↔ unmarshalData data = .ok shares := by
  simp only [marshalData, unmarshalData, bind_eq_ok, fail_guard, marshalKeyShareEntries_eq_ok,
    unmarshalKeyShareEntries_eq_ok, Except.ok.injEq, not_or, not_not, Nat.not_lt]
  constructor
  · rintro ⟨body, ⟨hgood, hbody, hle⟩, rfl⟩
    obtain ⟨htwo, hlen, hdrop⟩ := (@vec_iff 2 _ body).mpr ⟨by omega, rfl⟩
    exact ⟨⟨htwo, hlen⟩, hgood, by rw [hdrop, hbody]⟩
  · rintro ⟨⟨htwo, hlen⟩, hgood, hbody⟩
    obtain ⟨hlt, hdata⟩ := vec_iff.mp ⟨htwo, hlen, rfl⟩
    exact ⟨data.drop 2, ⟨hgood, hbody, by omega⟩, hdata.symm⟩

end ClientKeyShare

/-! ## Offered pre-shared keys -/

structure PSKIdentity where
  identity : Bytes
  obfuscatedTicketAge : UInt32
deriving DecidableEq, Repr

namespace PSKIdentity

def put (i : PSKIdentity) : Bytes := vec 2 i.identity ++ putUint 4 i.obfuscatedTicketAge.toNat

theorem put_ne_nil (i : PSKIdentity) : i.put ≠ [] := by
  simp [put, vec_ne_nil]

def Good (_ : List PSKIdentity) (i : PSKIdentity) : Prop :=
  i.identity ≠ [] ∧ i.identity.length ≤ 0xffff

end PSKIdentity

def minPSKBinderSize : Nat := 32

namespace OfferedPSKs

def writeIdentity (_ : List PSKIdentity) (i : PSKIdentity) : Except Error Bytes :=
  if i.identity.length = 0 ∨ 0xffff < i.identity.length then fail .preSharedKeyFormat
  else .ok (vec 2 i.identity ++ putUint 4 i.obfuscatedTicketAge.toNat)

def marshalData (identities : List PSKIdentity) (binders : List Bytes) : Except Error Bytes :=
  if identities.length = 0 ∨ identities.length ≠ binders.length then fail .preSharedKeyFormat
  else do
    let identities ← writeList 0xffff (.sentinel .preSharedKeyFormat) writeIdentity identities
    let binders ← writeList 0xffff (.sentinel .preSharedKeyFormat)
      (writeOpaque 1 minPSKBinderSize .preSharedKeyFormat) binders
    .ok (vec 2 identities ++ vec 2 binders)

def readIdentity (_ : List PSKIdentity) (data : Bytes) : Except Error (PSKIdentity × Bytes) :=
  if data.length < 2 then fail .preSharedKeyFormat
  else
    let identityLen := getUint (data.take 2)
    let rest := data.drop 2
    if identityLen = 0 ∨ rest.length < identityLen + 4 then fail .preSharedKeyFormat
    else .ok (⟨rest.take identityLen, UInt32.ofNat (getUint ((rest.drop identityLen).take 4))⟩,
      rest.drop (identityLen + 4))

def unmarshalData (data : Bytes) : Except Error (List PSKIdentity × List Bytes) :=
  if data.length < 2 then fail .preSharedKeyFormat
  else
    let identitiesLen := getUint (data.take 2)
    let rest := data.drop 2
    if identitiesLen = 0 ∨ rest.length < identitiesLen then fail .preSharedKeyFormat
    else do
      let identities ← readList readIdentity (rest.take identitiesLen)
      let binders ← unframe .preSharedKeyFormat (rest.drop identitiesLen)
      let binders ← readList (readOpaque 1 minPSKBinderSize .preSharedKeyFormat) binders
      if identities.length ≠ binders.length then fail .preSharedKeyFormat
      else .ok (identities, binders)

variable {identities : List PSKIdentity} {data : Bytes}

theorem writeIdentity_eq_ok (acc : List PSKIdentity) (i : PSKIdentity) (bytes : Bytes) :
    writeIdentity acc i = .ok bytes ↔ i.Good acc ∧ bytes = i.put := by
  simp only [writeIdentity, fail_guard, Except.ok.injEq, PSKIdentity.Good, PSKIdentity.put, not_or,
    Nat.not_lt, length_eq_zero_iff, eq_comm (b := bytes), ne_eq]

theorem readIdentity_eq_ok (acc : List PSKIdentity) (data : Bytes) (i : PSKIdentity)
    (rest : Bytes) :
    readIdentity acc data = .ok (i, rest) ↔ i.Good acc ∧ data = i.put ++ rest := by
  obtain ⟨identity, age⟩ := i
  simp only [readIdentity, fail_guard, Except.ok.injEq, Prod.mk.injEq, PSKIdentity.mk.injEq,
    PSKIdentity.Good, PSKIdentity.put, not_or, Nat.not_lt, ne_eq]
  constructor
  · rintro ⟨htwo, ⟨hne, hle⟩, ⟨hid, rfl⟩, rfl⟩
    obtain ⟨hlt, hdata⟩ := (vec_append_iff rfl).mp ⟨htwo, by omega, hid, rfl⟩
    have hlen : identity.length = getUint (data.take 2) := by
      rw [← hid, length_take]
      omega
    obtain ⟨hage, htail⟩ := putUint_append_iff.mp
      ⟨show 4 ≤ ((data.drop 2).drop (getUint (data.take 2))).length by
        rw [length_drop]; omega, rfl, rfl⟩
    refine ⟨⟨?_, by omega⟩, ?_⟩
    · rintro rfl
      exact hne hlen.symm
    · rw [UInt32.toNat_ofNat_of_lt' (by simpa using hage), append_assoc, ← drop_drop,
        ← htail]
      exact hdata
  · rintro ⟨⟨hne, hle⟩, hdata⟩
    rw [append_assoc] at hdata
    obtain ⟨htwo, hfit, hid, hrest⟩ := (vec_append_iff rfl).mpr
      ⟨show identity.length < 256 ^ 2 by omega, hdata⟩
    have hlen := hid ▸ length_take_of_le hfit
    obtain ⟨hfour, hage, htail⟩ := putUint_append_iff.mpr
      ⟨show age.toNat < 256 ^ 4 by simpa using age.toNat_lt, hrest⟩
    have hpos := length_pos_iff.mpr hne
    rw [length_drop] at hfour
    refine ⟨htwo, ⟨by omega, by omega⟩, ⟨hid, ?_⟩, ?_⟩
    · rw [hage, UInt32.ofNat_toNat]
    · rw [← drop_drop, htail]

theorem writeIdentities_eq_ok {out : Bytes} :
    writeList 0xffff (.sentinel .preSharedKeyFormat) writeIdentity identities = .ok out ↔
      Follows PSKIdentity.Good [] identities ∧ out = identities.flatMap PSKIdentity.put ∧
        out.length ≤ 0xffff := by
  exact writeList_eq_ok writeIdentity_eq_ok

theorem readIdentities_eq_ok :
    readList readIdentity data = .ok identities ↔
      Follows PSKIdentity.Good [] identities ∧ data = identities.flatMap PSKIdentity.put := by
  exact readList_eq_ok PSKIdentity.put_ne_nil readIdentity_eq_ok

theorem marshal_iff {binders : List Bytes} :
    marshalData identities binders = .ok data ↔ unmarshalData data = .ok (identities, binders) := by
  have hone : 0 < 1 := by decide
  simp only [marshalData, unmarshalData, fail_guard, bind_eq_ok, writeIdentities_eq_ok,
    writeOpaques_eq_ok, readIdentities_eq_ok, readOpaques_eq_ok hone, unframe_eq_ok,
    Except.ok.injEq, Prod.mk.injEq, not_or, not_not, Nat.not_lt]
  constructor
  · rintro ⟨⟨hne, hsame⟩, ids, ⟨hids, rfl, hidsLen⟩, bs, ⟨hbs, rfl, hbsLen⟩, rfl⟩
    obtain ⟨htwo, hfit, htake, hdrop⟩ := (vec_append_iff rfl).mpr
      ⟨show (identities.flatMap PSKIdentity.put).length < 256 ^ 2 by omega, rfl⟩
    have hbinders : binders.flatMap (vec 1) ≠ [] := by
      rw [ne_eq, flatMap_put_eq_nil (vec_ne_nil hone), ← length_eq_zero_iff]
      omega
    have hidentities : identities.flatMap PSKIdentity.put ≠ [] := by
      rwa [ne_eq, flatMap_put_eq_nil PSKIdentity.put_ne_nil, ← length_eq_zero_iff]
    have hpos : 0 < (identities.flatMap PSKIdentity.put).length := length_pos_iff.mpr hidentities
    refine ⟨htwo, ⟨?_, hfit⟩, identities, ⟨hids, htake⟩, _, ⟨⟨hbinders, hbsLen⟩, hdrop⟩, binders,
      ⟨hbs, rfl⟩, hsame, rfl, rfl⟩
    rw [getUint_take_vec (by omega)]
    omega
  · rintro ⟨htwo, ⟨hne, hfit⟩, ids, ⟨hids, htake⟩, body, ⟨⟨hbody, hbodyLen⟩, hdrop⟩, bs,
      ⟨hbs, rfl⟩, hsame, rfl, rfl⟩
    obtain ⟨hlt, hdata⟩ := (vec_append_iff rfl).mp ⟨htwo, hfit, htake, hdrop⟩
    have hlen := htake ▸ length_take_of_le hfit
    have hids0 : ids.length ≠ 0 := by
      intro hzero
      rw [length_eq_zero_iff] at hzero
      exact hne (by rw [← hlen, hzero]; rfl)
    exact ⟨⟨hids0, hsame⟩, _, ⟨hids, rfl, by omega⟩, _, ⟨hbs, rfl, hbodyLen⟩, hdata.symm⟩

end OfferedPSKs

/-! ## Readers that drop what they do not know -/

/-- An entry of a `server_name` list: its type and its name. -/
structure ServerName where
  nameType : UInt8
  name : Bytes
deriving DecidableEq, Repr

def serverNameTypeDNSHostName : UInt8 := 0

namespace ServerName

def put (n : ServerName) : Bytes := n.nameType :: vec 2 n.name

theorem put_ne_nil (n : ServerName) : n.put ≠ [] := cons_ne_nil _ _

/-- An entry that may follow `seen`: one host name at most, and not with a
trailing dot. -/
def Good (seen : List ServerName) (n : ServerName) : Prop :=
  (n.name ≠ [] ∧ n.name.length ≤ 0xffff) ∧
    (n.nameType = serverNameTypeDNSHostName →
      (∀ m ∈ seen, m.nameType ≠ serverNameTypeDNSHostName) ∧ n.name.getLast? ≠ some 46)

end ServerName

namespace ServerNameOffer

def marshalData (name : Bytes) : Except Error Bytes :=
  if name.length = 0 ∨ 0xffff - 3 < name.length ∨ name.getLast? = some 46 then
    fail .invalidSNIFormat
  else .ok (putUint 2 (3 + name.length) ++ [serverNameTypeDNSHostName] ++ vec 2 name)

/-- The loop body of `UnmarshalData`. -/
def readEntry (seen : List ServerName) (data : Bytes) : Except Error (ServerName × Bytes) :=
  if data.length < 3 then fail .invalidSNIFormat
  else
    let nameType := data.getD 0 0
    let nameLen := getUint ((data.drop 1).take 2)
    let rest := data.drop 3
    if nameLen = 0 ∨ rest.length < nameLen then fail .invalidSNIFormat
    else
      let name := rest.take nameLen
      if nameType = serverNameTypeDNSHostName ∧
          (seen.any (·.nameType = serverNameTypeDNSHostName) ∨ name.getLast? = some 46) then
        fail .invalidSNIFormat
      else .ok (⟨nameType, name⟩, rest.drop nameLen)

def unmarshalData (data : Bytes) : Except Error Bytes := do
  let list ← unframe .invalidSNIFormat data
  let names ← readList readEntry list
  match names.find? (·.nameType = serverNameTypeDNSHostName) with
  | none => fail .invalidSNIFormat
  | some n => .ok n.name

variable {data name : Bytes}

theorem readEntry_eq_ok (seen : List ServerName) (data : Bytes) (n : ServerName) (rest : Bytes) :
    readEntry seen data = .ok (n, rest) ↔ n.Good seen ∧ data = n.put ++ rest := by
  obtain ⟨nameType, name⟩ := n
  simp only [readEntry, fail_guard, Except.ok.injEq, Prod.mk.injEq, ServerName.mk.injEq,
    ServerName.Good, ServerName.put, not_or, not_and, any_eq_true, decide_eq_true_eq,
    not_exists, Nat.not_lt, ne_eq]
  cases data with
  | nil => simp
  | cons b data =>
    have hdrop : (b :: data).drop 3 = data.drop 2 := rfl
    simp only [hdrop, drop_succ_cons, drop_zero, getD_cons_zero,
      length_cons, cons_append, List.cons.injEq]
    constructor
    · rintro ⟨hthree, ⟨hne, hle⟩, hhost, ⟨rfl, rfl⟩, hrest⟩
      obtain ⟨hlt, hvec⟩ := (vec_append_iff rfl).mp ⟨by omega, hle, rfl, hrest⟩
      refine ⟨⟨⟨?_, by omega⟩, hhost⟩, rfl, hvec⟩
      intro hnil
      have hzero := congrArg List.length hnil
      rw [length_take, length_nil] at hzero
      omega
    · rintro ⟨⟨⟨hne, hle⟩, hhost⟩, rfl, hvec⟩
      obtain ⟨htwo, hfit, htake, hrest⟩ := (vec_append_iff rfl).mpr
        ⟨show name.length < 256 ^ 2 by omega, hvec⟩
      have hlen := htake ▸ length_take_of_le hfit
      have hpos := length_pos_iff.mpr hne
      rw [htake]
      exact ⟨by omega, ⟨by omega, hfit⟩, hhost, ⟨rfl, rfl⟩, hrest⟩

theorem readEntries_eq_ok {names : List ServerName} :
    readList readEntry data = .ok names ↔
      Follows ServerName.Good [] names ∧ data = names.flatMap ServerName.put := by
  exact readList_eq_ok ServerName.put_ne_nil readEntry_eq_ok

theorem marshal_eq_ok :
    marshalData name = .ok data ↔
      (name ≠ [] ∧ name.length ≤ 0xffff - 3 ∧ name.getLast? ≠ some 46) ∧
        data = vec 2 (ServerName.put ⟨serverNameTypeDNSHostName, name⟩) := by
  have hvec : putUint 2 (3 + name.length) ++ [serverNameTypeDNSHostName] ++ vec 2 name =
      vec 2 (ServerName.put ⟨serverNameTypeDNSHostName, name⟩) := by
    simp only [vec, ServerName.put, length_cons, length_append, length_putUint,
      append_assoc, cons_append, nil_append]
    rw [show 2 + name.length + 1 = 3 + name.length by omega]
  rw [marshalData, fail_guard, hvec, Except.ok.injEq, eq_comm (b := data)]
  simp only [not_or, length_eq_zero_iff, Nat.not_lt, ne_eq]

theorem unmarshal_of_marshal (h : marshalData name = .ok data) : unmarshalData data = .ok name := by
  obtain ⟨⟨hne, hle, hdot⟩, rfl⟩ := marshal_eq_ok.mp h
  have hput : (ServerName.put ⟨serverNameTypeDNSHostName, name⟩).length = 3 + name.length := by
    simp only [ServerName.put, length_cons, length_vec]
    omega
  have hframe : unframe .invalidSNIFormat
      (vec 2 (ServerName.put ⟨serverNameTypeDNSHostName, name⟩)) =
        .ok (ServerName.put ⟨serverNameTypeDNSHostName, name⟩) :=
    unframe_eq_ok.mpr ⟨⟨ServerName.put_ne_nil _, by omega⟩, rfl⟩
  have hentries : readList readEntry (ServerName.put ⟨serverNameTypeDNSHostName, name⟩) =
      .ok [⟨serverNameTypeDNSHostName, name⟩] :=
    readEntries_eq_ok.mpr
      ⟨⟨⟨⟨hne, by dsimp only; omega⟩, fun _ => ⟨by simp, hdot⟩⟩, trivial⟩, by simp⟩
  simp [unmarshalData, hframe, hentries]

theorem marshal_of_unmarshal (h : unmarshalData data = .ok name) :
    ∃ out, marshalData name = .ok out := by
  simp only [unmarshalData, bind_eq_ok, unframe_eq_ok, readEntries_eq_ok] at h
  obtain ⟨list, ⟨⟨-, hlist⟩, -⟩, names, ⟨hgood, rfl⟩, hfind⟩ := h
  cases hhost : names.find? (·.nameType = serverNameTypeDNSHostName) with
  | none => simp [hhost] at hfind
  | some n =>
    obtain rfl : n.name = name := by simpa [hhost] using hfind
    have hmem := mem_of_find?_eq_some hhost
    obtain ⟨seen, ⟨hne, -⟩, hdns⟩ := hgood.mem hmem
    have hfits : n.put.length ≤ (names.flatMap ServerName.put).length := length_put_le hmem
    have hput : n.put.length = 3 + n.name.length := by
      simp only [ServerName.put, length_cons, length_vec]
      omega
    have htype : n.nameType = serverNameTypeDNSHostName := by
      simpa using find?_some hhost
    exact ⟨_, marshal_eq_ok.mpr ⟨⟨hne, by omega, (hdns htype).2⟩, rfl⟩⟩

end ServerNameOffer

/-- `elliptic.CurvePointFormatUncompressed`. -/
def curvePointFormatUncompressed : UInt8 := 0

namespace SupportedPointFormats

def marshalData (pointFormats : Bytes) : Except Error Bytes :=
  if 255 < pointFormats.length then fail .pointFormatsTooLarge else .ok (vec 1 pointFormats)

def unmarshalData (data : Bytes) : Except Error Bytes :=
  if data.length = 0 then fail .bufferTooSmall
  else if getUint (data.take 1) + 1 ≠ data.length then fail .lengthMismatch
  else .ok ((data.drop 1).filter (· = curvePointFormatUncompressed))

theorem unmarshal_eq_ok {formats : Bytes} :
    unmarshalData data = .ok formats ↔
      ∃ body : Bytes, body.length ≤ 255 ∧ data = vec 1 body ∧
        body.filter (· = curvePointFormatUncompressed) = formats := by
  simp only [unmarshalData, fail_guard, Except.ok.injEq, not_not]
  constructor
  · rintro ⟨hne, hlen, hformats⟩
    obtain ⟨hlt, hdata⟩ := (@vec_iff 1 data _).mp ⟨by omega, by omega, rfl⟩
    exact ⟨data.drop 1, by omega, hdata, hformats⟩
  · rintro ⟨body, hle, hdata, hformats⟩
    obtain ⟨hone, hlen, rfl⟩ := vec_iff.mpr ⟨show body.length < 256 ^ 1 by omega, hdata⟩
    exact ⟨by omega, by omega, hformats⟩

theorem settles {formats : Bytes} (h : unmarshalData data = .ok formats) :
    ∃ out, marshalData formats = .ok out ∧ unmarshalData out = .ok formats := by
  obtain ⟨body, hle, -, rfl⟩ := unmarshal_eq_ok.mp h
  have hshort := length_filter_le (fun b => decide (b = curvePointFormatUncompressed)) body
  refine ⟨_, if_neg (by omega), unmarshal_eq_ok.mpr ⟨_, by omega, rfl, ?_⟩⟩
  rw [filter_filter]
  simp

end SupportedPointFormats

end HeadlessClient.DTLS
