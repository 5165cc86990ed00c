import HeadlessClient.Base.Loop
import HeadlessClient.Capture.QuicVarint

/-!
# Capture — reading a hello

`ParseHello`, `ParseDTLSFragment` and the parsers of the extensions the capture
tool knows (`stand/internal/wire/clienthello.go`, and
`ParseQUICTransportParams` of `quicv1.go`).

Every index and slice of the source is written as such, so that a panic is a
possible outcome of the model (`Capture.HelloSafety`: no record leads to one). The
text of an error is left out: it names the position, and callers only test which
sentinel it wraps.
-/

namespace HeadlessClient.Capture

open Base Wire

def contentTypeHandshake : UInt8 := 22

def handshakeClientHello : UInt8 := 1
def handshakeServerHello : UInt8 := 2

def versionDTLS10 : UInt16 := 0xfeff
def versionDTLS12 : UInt16 := 0xfefd

def extServerName : UInt16 := 0x0000
def extSupportedGroups : UInt16 := 0x000a
def extECPointFormats : UInt16 := 0x000b
def extSignatureAlgorithms : UInt16 := 0x000d
def extUseSRTP : UInt16 := 0x000e
def extALPN : UInt16 := 0x0010
def extSupportedVersions : UInt16 := 0x002b
def extKeyShare : UInt16 := 0x0033
def extQUICTransportParams : UInt16 := 0x0039

def tlsRecordHeaderLen : Nat := 5
def dtlsRecordHeaderLen : Nat := 13
def dtlsHandshakeHeaderLen : Nat := 12
def helloRandomLen : Nat := 32

inductive HelloKind where
  | tlsClient
  | tlsServer
  | dtlsClient
  | dtlsServer
deriving DecidableEq, Repr

/-- Where an extension sat inside the record. -/
structure Extension where
  type : UInt16
  length : UInt16
  offset : Nat
deriving DecidableEq, Repr

/-- `QUICTransportParam`; the value is its hexadecimal text. -/
structure QUICTransportParam where
  id : Nat
  value : Bytes
deriving DecidableEq, Repr

structure Hello where
  kind : HelloKind
  recordVersion : UInt16
  helloVersion : UInt16 := 0
  messageSeq : UInt16 := 0
  random : Bytes := []
  sessionIDLen : Nat := 0
  cookieLen : Nat := 0
  cipherSuites : List UInt16 := []
  compressionMethods : List UInt8 := []
  extensions : List Extension := []
  serverName : Bytes := []
  supportedGroups : List UInt16 := []
  supportedVersions : List UInt16 := []
  keyShareGroups : List UInt16 := []
  keyShareLengths : List Nat := []
  pointFormats : List UInt8 := []
  signatureAlgorithms : List UInt16 := []
  alpn : List Bytes := []
  quicTransportParams : List QUICTransportParam := []
  useSRTPProfiles : List UInt16 := []
  raw : Bytes
deriving DecidableEq, Repr

/-- `binary.BigEndian.Uint16`. -/
def uint16 (pair : Bytes) : UInt16 := UInt16.ofNat (getUint pair)

/-! ## The lists inside the extensions -/

/-- A loop over a buffer: the position it has reached and what it has appended. -/
structure Scan (α : Type) where
  pos : Nat
  found : List α

/-- What the loop has in front of it. -/
def Scan.unread {α : Type} (buf : Bytes) (s : Scan α) : Nat := buf.length - s.pos

def uint16Round (buf : Bytes) (s : Scan UInt16) :
    Except WireError (Round (Scan.unread buf) (List UInt16) s) :=
  if h : s.pos + 1 < buf.length then do
    let pair ← slice .panic buf s.pos (s.pos + 2)
    .ok (.next ⟨s.pos + 2, s.found ++ [uint16 pair]⟩ (by simp only [Scan.unread]; omega))
  else .ok (.done s.found)

def uint16List (buf : Bytes) : Except WireError (List UInt16) :=
  runLoop (Scan.unread buf) (uint16Round buf) ⟨0, []⟩

def alpnRound (body : Bytes) (s : Scan Bytes) :
    Except WireError (Round (Scan.unread body) (List Bytes) s) :=
  if h : s.pos < body.length then do
    let length ← index .panic body s.pos
    let pos := s.pos + 1
    if pos + length.toNat > body.length then .ok (.done s.found)
    else do
      let protocol ← slice .panic body pos (pos + length.toNat)
      .ok (.next ⟨pos + length.toNat, s.found ++ [protocol]⟩ (by simp only [Scan.unread]; omega))
  else .ok (.done s.found)

def parseALPN (body : Bytes) : Except WireError (List Bytes) :=
  if body.length < 2 then .ok []
  else runLoop (Scan.unread body) (alpnRound body) ⟨2, []⟩

/-- A round of `parseKeyShare`; the two lists of the source grow together. -/
def keyShareRound (body : Bytes) (s : Scan (UInt16 × Nat)) :
    Except WireError (Round (Scan.unread body) (List (UInt16 × Nat)) s) :=
  if h : s.pos + 4 ≤ body.length then do
    let group ← slice .panic body s.pos (s.pos + 2)
    let length ← slice .panic body (s.pos + 2) (s.pos + 4)
    let pos := s.pos + 4
    if pos + getUint length > body.length then .ok (.done s.found)
    else .ok (.next ⟨pos + getUint length, s.found ++ [(uint16 group, getUint length)]⟩
      (by simp only [Scan.unread]; omega))
  else .ok (.done s.found)

def parseKeyShare (body : Bytes) : Except WireError (List UInt16 × List Nat) := do
  let shares ← runLoop (Scan.unread body) (keyShareRound body) ⟨2, []⟩
  .ok (shares.map Prod.fst, shares.map Prod.snd)

/-- A round of `parseServerName`: the first name of type 0 is returned. -/
def serverNameRound (body : Bytes) (pos : Nat) :
    Except WireError (Round (fun pos => body.length - pos) Bytes pos) :=
  if h : pos + 3 ≤ body.length then do
    let nameType ← index .panic body pos
    let length ← slice .panic body (pos + 1) (pos + 3)
    let start := pos + 3
    if start + getUint length > body.length then .ok (.done [])
    else if nameType = 0 then do
      let name ← slice .panic body start (start + getUint length)
      .ok (.done name)
    else .ok (.next (start + getUint length) (by omega))
  else .ok (.done [])

def parseServerName (body : Bytes) : Except WireError Bytes :=
  runLoop (fun pos => body.length - pos) (serverNameRound body) 2

/-! ### QUIC transport parameters -/

def transportParam : Parser QUICTransportParam := do
  let id ← (readQUICVarint : Parser Nat)
  let length ← (readQUICVarint : Parser Nat)
  let value ← Parser.bytes length
  pure ⟨id, hexEncode value⟩

variable {r r' : ByteReader}

theorem transportParam_remaining {p : QUICTransportParam} (h : transportParam r = .ok (p, r')) :
    r'.remaining < r.remaining := by
  obtain ⟨id, r₁, h₁, h⟩ := step_ok h
  obtain ⟨length, r₂, h₂, h⟩ := step_ok h
  obtain ⟨value, r₃, h₃, h⟩ := step_ok h
  have := readQUICVarint_remaining h₁
  have := readQUICVarint_remaining h₂
  have := advances_bytes _ _ _ _ h₃
  cases h
  dsimp only at *
  omega

/-- A round of `ParseQUICTransportParams`: the first error ends the list and is
not reported. -/
def transportParamRound (s : ByteReader × List QUICTransportParam) :
    Except WireError (Round (fun s : ByteReader × List QUICTransportParam => s.1.remaining)
      (List QUICTransportParam) s) :=
  if s.1.remaining = 0 then .ok (.done s.2)
  else
    match h : transportParam s.1 with
    | .error _ => .ok (.done s.2)
    | .ok (param, reader) => .ok (.next (reader, s.2 ++ [param]) (transportParam_remaining h))

def parseQUICTransportParams (body : Bytes) : Except WireError (List QUICTransportParam) :=
  runLoop _ transportParamRound (⟨body, 0⟩, [])

/-! ## The extensions -/

/-- `uint16List(body[n:])` if the body is that long, and else what was there. -/
def uint16Tail (n : Nat) (body : Bytes) (old : List UInt16) : Except WireError (List UInt16) :=
  if n ≤ body.length then do
    let values ← sliceFrom .panic body n
    uint16List values
  else .ok old

def srtpProfiles (body : Bytes) (old : List UInt16) : Except WireError (List UInt16) :=
  if 2 ≤ body.length then do
    let pair ← slice .panic body 0 2
    let listLen := getUint pair
    if listLen ≤ body.length - 2 then do
      let values ← slice .panic body 2 (2 + listLen)
      uint16List values
    else .ok old
  else .ok old

def applyKnownExtension (hello : Hello) (extensionType : UInt16) (body : Bytes) :
    Except WireError Hello :=
  if extensionType = extSupportedGroups then do
    let groups ← uint16Tail 2 body hello.supportedGroups
    .ok { hello with supportedGroups := groups }
  else if extensionType = extSignatureAlgorithms then do
    let algorithms ← uint16Tail 2 body hello.signatureAlgorithms
    .ok { hello with signatureAlgorithms := algorithms }
  else if extensionType = extECPointFormats then
    if 1 ≤ body.length then do
      let formats ← sliceFrom .panic body 1
      .ok { hello with pointFormats := formats }
    else .ok hello
  else if extensionType = extUseSRTP then do
    let profiles ← srtpProfiles body hello.useSRTPProfiles
    .ok { hello with useSRTPProfiles := profiles }
  else if extensionType = extALPN then do
    let protocols ← parseALPN body
    .ok { hello with alpn := protocols }
  else if extensionType = extQUICTransportParams then do
    let params ← parseQUICTransportParams body
    .ok { hello with quicTransportParams := params }
  else if extensionType = extServerName then do
    let name ← parseServerName body
    .ok { hello with serverName := name }
  else if extensionType = extSupportedVersions then do
    let versions ← uint16Tail 1 body hello.supportedVersions
    .ok { hello with supportedVersions := versions }
  else if extensionType = extKeyShare then do
    let (groups, lengths) ← parseKeyShare body
    .ok { hello with keyShareGroups := groups, keyShareLengths := lengths }
  else .ok hello

/-- One extension, which starts at `offset`, and its body. -/
def readExtension (offset : Nat) : Parser (Extension × Bytes) := do
  let extensionType ← Parser.u16
  let extensionLen ← Parser.u16
  let body ← Parser.bytes extensionLen.toNat
  pure (⟨extensionType, extensionLen, offset⟩, body)

theorem u16_remaining {v : UInt16} (h : Parser.u16 r = .ok (v, r')) :
    r'.remaining < r.remaining := by
  have := primitive_u16.remaining h
  omega

theorem readExtension_remaining {offset : Nat} {x : Extension × Bytes}
    (h : readExtension offset r = .ok (x, r')) : r'.remaining < r.remaining := by
  obtain ⟨extensionType, r₁, h₁, h⟩ := step_ok h
  obtain ⟨extensionLen, r₂, h₂, h⟩ := step_ok h
  obtain ⟨body, r₃, h₃, h⟩ := step_ok h
  have := u16_remaining h₁
  have := u16_remaining h₂
  have := advances_bytes _ _ _ _ h₃
  cases h
  dsimp only at *
  omega

/-- What a round of the extension loop does with an extension. -/
def addExtension (hello : Hello) (extension : Extension) (body : Bytes) : Except WireError Hello :=
  applyKnownExtension { hello with extensions := hello.extensions ++ [extension] }
    extension.type body

def extensionRound (fin : Nat) (s : Hello × ByteReader) :
    Except WireError (Round (fun s : Hello × ByteReader => s.2.remaining) (Hello × ByteReader) s) :=
  if s.2.pos < fin then
    match h : readExtension s.2.pos s.2 with
    | .error e => .error e
    | .ok ((extension, body), reader) => do
        let hello ← addExtension s.1 extension body
        .ok (.next (hello, reader) (readExtension_remaining h))
  else .ok (.done s)

/-! ### Rounds of the extension loop -/

section Rounds

variable {fin : Nat} {s : Hello × ByteReader}

theorem extensionRound_done (h : fin ≤ s.2.pos) : extensionRound fin s = .ok (.done s) :=
  if_neg (Nat.not_lt.mpr h)

theorem extensionRound_error (h : s.2.pos < fin) {e : WireError}
    (hread : readExtension s.2.pos s.2 = .error e) : extensionRound fin s = .error e := by
  unfold extensionRound
  rw [if_pos h]
  split
  · rename_i e' h'
    rw [hread] at h'
    cases h'
    rfl
  · rename_i h'
    rw [hread] at h'
    cases h'

theorem extensionRound_next (h : s.2.pos < fin) {extension : Extension} {body : Bytes}
    {reader : ByteReader} (hread : readExtension s.2.pos s.2 = .ok ((extension, body), reader)) :
    extensionRound fin s = (addExtension s.1 extension body >>= fun hello =>
      .ok (.next (hello, reader) (readExtension_remaining hread))) := by
  unfold extensionRound
  rw [if_pos h]
  split
  · rename_i h'
    rw [hread] at h'
    cases h'
  · rename_i h'
    rw [hread] at h'
    cases h'
    rfl

end Rounds

/-- `parseExtensions`. A hello may END before its extensions: nothing left to
read is not an error. -/
def parseExtensions (hello : Hello) : Parser Hello := fun reader =>
  if reader.remaining = 0 then .ok (hello, reader)
  else do
    let (totalLen, reader) ← Parser.u16 reader
    let fin := reader.pos + totalLen.toNat
    if fin > reader.buf.length then .error .truncated
    else runLoop _ (extensionRound fin) (hello, reader)

/-! ## The body of a hello -/

/-- Only a DTLS ClientHello has a cookie. -/
def readCookie (isDTLS isClient : Bool) : Parser Nat :=
  if isDTLS && isClient then do
    let cookieLen ← Parser.u8
    Parser.skip cookieLen.toNat
    pure cookieLen.toNat
  else pure 0

/-- The cipher suites and compression methods: lists that the client offers, or
the one of each that the server chose. -/
def readSuites (isClient : Bool) : Parser (List UInt16 × List UInt8) :=
  if isClient then do
    let suitesLen ← Parser.u16
    let suites ← Parser.bytes suitesLen.toNat
    let cipherSuites ← StateT.lift (uint16List suites)
    let compressionLen ← Parser.u8
    let compression ← Parser.bytes compressionLen.toNat
    pure (cipherSuites, compression)
  else do
    let suite ← Parser.u16
    let method ← Parser.u8
    pure ([suite], [method])

/-- `parseHelloBody` up to the extensions. -/
def parseHelloFields (hello : Hello) (isDTLS isClient : Bool) : Parser Hello := do
  let helloVersion ← Parser.u16
  let random ← Parser.bytes helloRandomLen
  let sessionIDLen ← Parser.u8
  Parser.skip sessionIDLen.toNat
  let cookieLen ← readCookie isDTLS isClient
  let (cipherSuites, compressionMethods) ← readSuites isClient
  pure { hello with
    helloVersion, random, sessionIDLen := sessionIDLen.toNat, cookieLen, cipherSuites,
    compressionMethods }

def parseHelloBody (hello : Hello) (isDTLS isClient : Bool) : Parser Hello := do
  let hello ← parseHelloFields hello isDTLS isClient
  parseExtensions hello

/-! ## Records -/

def helloKind (isDTLS : Bool) (messageType : UInt8) : HelloKind :=
  if isDTLS then
    if messageType = handshakeClientHello then .dtlsClient else .dtlsServer
  else if messageType = handshakeClientHello then .tlsClient else .tlsServer

/-- The rest of a DTLS handshake header; a fragment is refused. -/
def readMessageSeq (isDTLS : Bool) (messageLen : Nat) : Parser UInt16 :=
  if isDTLS then do
    let messageSeq ← Parser.u16
    let fragmentOffset ← Parser.u24
    let fragmentLen ← Parser.u24
    Parser.check (fragmentOffset = 0 ∧ fragmentLen = messageLen) .fragmented
    pure messageSeq
  else pure 0

/-- The handshake header: the message type and, for DTLS, the message number. -/
def readHandshakeHeader (isDTLS : Bool) : Parser (UInt8 × UInt16) := do
  let messageType ← Parser.u8
  Parser.check (messageType = handshakeClientHello ∨ messageType = handshakeServerHello) .notHello
  let messageLen ← Parser.u24
  let messageSeq ← readMessageSeq isDTLS messageLen
  pure (messageType, messageSeq)

/-- The part of `ParseHello` behind the record header. -/
def readHello (record : Bytes) (version : UInt16) (isDTLS : Bool) : Parser Hello := do
  let (messageType, messageSeq) ← readHandshakeHeader isDTLS
  let hello : Hello :=
    { kind := helloKind isDTLS messageType, recordVersion := version, messageSeq, raw := record }
  parseHelloBody hello isDTLS (messageType = handshakeClientHello)

/-- `if !ok { return nil, err }`. -/
def ensure (ok : Bool) (e : WireError) : Except WireError Unit := if ok then .ok () else .error e

theorem ensure_true (e : WireError) : ensure true e = .ok () := rfl

theorem ensure_false (e : WireError) : ensure false e = .error e := rfl

def isDTLSVersion (version : UInt16) : Bool := version == versionDTLS10 || version == versionDTLS12

def recordHeaderLen (isDTLS : Bool) : Nat :=
  if isDTLS then dtlsRecordHeaderLen else tlsRecordHeaderLen

/-- `ParseHello`. The length fields of the record and of a TLS handshake message
are not looked at. -/
def parseHello (record : Bytes) : Except WireError Hello := do
  ensure (tlsRecordHeaderLen ≤ record.length) .truncated
  let contentType ← index .panic record 0
  ensure (contentType = contentTypeHandshake) .notHandshake
  let pair ← slice .panic record 1 3
  let version := uint16 pair
  let isDTLS := isDTLSVersion version
  let headerLen := recordHeaderLen isDTLS
  ensure (headerLen + 1 ≤ record.length) .truncated
  let (hello, _) ← readHello record version isDTLS ⟨record, headerLen⟩
  .ok hello

/-! ### DTLS fragments -/

structure DTLSFragment where
  messageType : UInt8
  messageSeq : UInt16
  length : Nat
  offset : Nat
  fragmentLen : Nat
  body : Bytes
deriving DecidableEq, Repr

def DTLSFragment.isHello (f : DTLSFragment) : Bool :=
  f.messageType == handshakeClientHello || f.messageType == handshakeServerHello

/-- `Reassemble`. The two conversions keep the low-order bits. -/
def DTLSFragment.reassemble (f : DTLSFragment) (body : Bytes) : Bytes :=
  [contentTypeHandshake, 0xfe, 0xfd, 0, 0, 0, 0, 0, 0, 0, 0] ++
    putUint 2 (dtlsHandshakeHeaderLen + body.length) ++ [f.messageType] ++
    putUint 3 body.length ++ putUint 2 f.messageSeq.toNat ++ putUint 3 0 ++
    putUint 3 body.length ++ body

def readFragment : Parser DTLSFragment := do
  let messageType ← Parser.u8
  let length ← Parser.u24
  let messageSeq ← Parser.u16
  let offset ← Parser.u24
  let fragmentLen ← Parser.u24
  let body ← Parser.bytes fragmentLen
  Parser.check (offset + fragmentLen ≤ length) .truncated
  pure { messageType, messageSeq, length, offset, fragmentLen, body }

def parseDTLSFragment (record : Bytes) : Except WireError DTLSFragment := do
  ensure (dtlsRecordHeaderLen + dtlsHandshakeHeaderLen ≤ record.length) .truncated
  let contentType ← index .panic record 0
  ensure (contentType = contentTypeHandshake) .notHandshake
  let pair ← slice .panic record 1 3
  ensure (isDTLSVersion (uint16 pair)) .notHandshake
  let (fragment, _) ← readFragment ⟨record, dtlsRecordHeaderLen⟩
  .ok fragment

end HeadlessClient.Capture
