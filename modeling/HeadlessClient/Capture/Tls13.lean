import HeadlessClient.Capture.Records
import Mathlib.Data.List.DropRight

/-!
# Capture — decrypting TLS 1.3

`Decrypt13` (`stand/internal/wire/tls13.go`). A client changes its keys behind its
Finished message. The tool looks for that message in ONE record at a time: it
reads the record from its start as a list of messages and asks whether the last
one is a Finished (`endsWithFinished`).

Handshake messages may be cut anywhere into records, so a record can start in
the middle of a message, and the Finished can be cut itself. `decrypt13_exact_iff`
says for which client flights, cut behind any byte, the tool gets the application
data: those in which no record looks finished too early, and the last one does.
-/

namespace HeadlessClient.Capture

open Base Wire List

def handshakeFinished : UInt8 := 20
def handshakeCertificate : UInt8 := 11
def handshakeCertificateVerify : UInt8 := 15

def tlsAES128GCMSHA256 : UInt16 := 0x1301
def tlsAES256GCMSHA384 : UInt16 := 0x1302
def tlsChaCha20Poly1305SHA256 : UInt16 := 0x1303

/-! ## The code -/

def expandLabelHash (c : TLSPrimitives) (hash : Hash) (secret : Bytes) (label : String)
    (length : Nat) : Bytes :=
  let full := ascii ("tls13 " ++ label)
  let info := putUint 2 length ++ putUint 1 full.length ++ full ++ [0]
  c.expand hash secret info length

/-- `recordProtection`: the AEAD is a cipher with its key. -/
structure RecordProtection where
  cipher : Cipher
  key : Bytes
  iv : Bytes
  sequence : Nat

/-- `newRecordProtection`. The errors of the libraries are those of lengths that
do not occur. -/
def newRecordProtection (c : TLSPrimitives) (suite : UInt16) (secret : Bytes) :
    Except TLSError RecordProtection :=
  let protection := fun hash keyLen cipher => .ok
    { cipher
      key := expandLabelHash c hash secret "key" keyLen
      iv := expandLabelHash c hash secret "iv" 12
      sequence := 0 }
  if suite = tlsAES128GCMSHA256 then protection .sha256 16 .aesGCM
  else if suite = tlsAES256GCMSHA384 then protection .sha384 32 .aesGCM
  else if suite = tlsChaCha20Poly1305SHA256 then protection .sha256 32 .chacha20Poly1305
  else .error (.notTLS13 suite)

def RecordProtection.counted (p : RecordProtection) : RecordProtection :=
  { p with sequence := p.sequence + 1 }

/-- `open`: the content type, the content, and the protection for the next
record. `none` is `ErrTLSDecrypt`. -/
def RecordProtection.openRecord (c : TLSPrimitives) (p : RecordProtection) (header body : Bytes) :
    Except WireError (Option (UInt8 × Bytes × RecordProtection)) := do
  let nonce ← xorNonce p.iv p.sequence
  match c.aeadOpen p.cipher p.key nonce header body with
  | none => .ok none
  | some plaintext =>
    -- the zeros at the end are padding
    let trimmed := plaintext.rdropWhile (· = 0)
    match trimmed.getLast? with
    | none => .ok none
    | some contentType => .ok (some (contentType, trimmed.dropLast, p.counted))

/-- The loop of `endsWithFinished`. A message has four bytes at least, so there
are enough rounds. -/
def endsWithFinishedFrom : (fuel : Nat) → (last : UInt8) → (messages : Bytes) → Bool
  | fuel + 1, _, messageType :: high :: middle :: low :: rest =>
    let length := getUint [high, middle, low]
    if rest.length < length then false
    else endsWithFinishedFrom fuel messageType (rest.drop length)
  | _, last, _ => last = handshakeFinished

def endsWithFinished (messages : Bytes) : Bool :=
  endsWithFinishedFrom messages.length 0 messages

/-- The variables of the loop; `switched` is `current == traffic`. -/
structure Decrypting13 where
  handshake : RecordProtection
  traffic : RecordProtection
  switched : Bool
  data : Bytes

namespace Decrypting13

def current (s : Decrypting13) : RecordProtection := if s.switched then s.traffic else s.handshake

def setCurrent (s : Decrypting13) (p : RecordProtection) : Decrypting13 :=
  if s.switched then { s with traffic := p } else { s with handshake := p }

/-- A record that has been opened. -/
def accept (s : Decrypting13) (contentType : UInt8) (plaintext : Bytes) : Turn Decrypting13 :=
  if contentType = contentTypeHandshake then
    .next { s with switched := s.switched || endsWithFinished plaintext }
  else if contentType = contentTypeApplicationData then
    .next { s with data := s.data ++ plaintext }
  else if contentType = contentTypeAlert then .done (s.data, none)
  else .next s

end Decrypting13

/-- What the loop does with a record. -/
def turn13 (c : TLSPrimitives) (s : Decrypting13) (header body : Bytes) :
    Except WireError (Turn Decrypting13) := do
  let first ← index .panic header 0
  if first ≠ contentTypeApplicationData then .ok (.next s)
  else
    match ← s.current.openRecord c header body with
    | none => .ok (.done (s.data, some .decrypt))
    | some (contentType, plaintext, p) => .ok ((s.setCurrent p).accept contentType plaintext)

def decrypt13 (c : TLSPrimitives) (stream : Bytes) (suite : UInt16)
    (handshakeSecret trafficSecret : Bytes) : Except WireError Decrypted :=
  match newRecordProtection c suite handshakeSecret with
  | .error e => .ok ([], some e)
  | .ok handshake =>
    match newRecordProtection c suite trafficSecret with
    | .error e => .ok ([], some e)
    | .ok traffic => recordLoop Decrypting13.data (turn13 c) ⟨handshake, traffic, false, []⟩ stream

/-! ## A record that looks finished -/

structure HandshakeMessage where
  messageType : UInt8
  body : Bytes
  fits : body.length < 256 ^ 3

def HandshakeMessage.put (m : HandshakeMessage) : Bytes :=
  m.messageType :: (putUint 3 m.body.length ++ m.body)

/-- Read from its start, the content is a list of messages that ends with a
Finished, up to three bytes. -/
def LooksFinished (content : Bytes) : Prop :=
  ∃ (messages : List HandshakeMessage) (tail : Bytes),
    content = messages.flatMap HandshakeMessage.put ++ tail ∧ tail.length < 4 ∧
      messages.getLast?.map HandshakeMessage.messageType = some handshakeFinished

namespace HandshakeMessage

theorem length_put (m : HandshakeMessage) : m.put.length = m.body.length + 4 := by
  rw [put, length_cons, length_append, length_putUint]
  omega

theorem put_append_eq {m : HandshakeMessage} {t rest : Bytes} {messageType high middle low : UInt8}
    (h : messageType :: high :: middle :: low :: rest = m.put ++ t) :
    messageType = m.messageType ∧ getUint [high, middle, low] = m.body.length ∧
      rest = m.body ++ t := by
  rw [put, cons_append, append_assoc, List.cons.injEq] at h
  have hsplit : [high, middle, low] ++ rest = putUint 3 m.body.length ++ (m.body ++ t) := h.2
  obtain ⟨hlength, hrest⟩ := append_inj hsplit (length_putUint 3 _).symm
  refine ⟨h.1, ?_, hrest⟩
  rw [hlength, getUint_putUint m.fits]

theorem exists_put {messageType high middle low : UInt8} {rest : Bytes}
    (h : getUint [high, middle, low] ≤ rest.length) :
    ∃ m : HandshakeMessage, m.messageType = messageType ∧
      messageType :: high :: middle :: low :: rest =
        m.put ++ rest.drop (getUint [high, middle, low]) := by
  have hbody := length_take_of_le h
  refine ⟨⟨messageType, rest.take (getUint [high, middle, low]), ?_⟩, rfl, ?_⟩
  · rw [hbody]
    exact getUint_lt [high, middle, low]
  · have hput : putUint 3 (getUint [high, middle, low]) = [high, middle, low] :=
      putUint_getUint [high, middle, low]
    show _ = messageType :: (putUint 3 (rest.take (getUint [high, middle, low])).length ++
      rest.take (getUint [high, middle, low])) ++ rest.drop (getUint [high, middle, low])
    rw [hbody, hput, cons_append, append_assoc, take_append_drop]
    rfl

end HandshakeMessage

/-- The type of the last message; `last` if there is none. -/
def lastType (last : UInt8) (messages : List HandshakeMessage) : UInt8 :=
  (messages.getLast?.map HandshakeMessage.messageType).getD last

theorem lastType_cons (last : UInt8) (m : HandshakeMessage) (messages : List HandshakeMessage) :
    lastType last (m :: messages) = lastType m.messageType messages := by
  rw [lastType, lastType, getLast?_cons]
  cases messages.getLast? with
  | none => rfl
  | some m' => rfl

theorem messages_eq_nil {messages : List HandshakeMessage} {content tail : Bytes}
    (h : content = messages.flatMap HandshakeMessage.put ++ tail) (hshort : content.length < 4) :
    messages = [] := by
  cases messages with
  | nil => rfl
  | cons m messages =>
    have hlength := congrArg List.length h
    rw [flatMap_cons, length_append, length_append, m.length_put] at hlength
    omega

/-- **The loop finds the last message**, by induction on the rounds. -/
theorem endsWithFinishedFrom_iff (fuel : Nat) : ∀ (last : UInt8) (content : Bytes),
    content.length ≤ fuel →
      (endsWithFinishedFrom fuel last content = true ↔
        ∃ (messages : List HandshakeMessage) (tail : Bytes),
          content = messages.flatMap HandshakeMessage.put ++ tail ∧ tail.length < 4 ∧
            lastType last messages = handshakeFinished) := by
  -- a content that is too short for a message
  have hshort : ∀ (last : UInt8) (content : Bytes), content.length < 4 →
      (decide (last = handshakeFinished) = true ↔
        ∃ (messages : List HandshakeMessage) (tail : Bytes),
          content = messages.flatMap HandshakeMessage.put ++ tail ∧ tail.length < 4 ∧
            lastType last messages = handshakeFinished) := by
    intro last content hlength
    rw [decide_eq_true_iff]
    constructor
    · intro hlast
      exact ⟨[], content, rfl, hlength, hlast⟩
    · rintro ⟨messages, tail, heq, -, hlast⟩
      rw [messages_eq_nil heq hlength] at hlast
      exact hlast
  induction fuel with
  | zero =>
    intro last content hfuel
    have hnil : content = [] := length_eq_zero_iff.mp (Nat.le_zero.mp hfuel)
    rw [hnil]
    exact hshort last [] (by decide)
  | succ fuel ih =>
    intro last content hfuel
    rcases content with _ | ⟨messageType, _ | ⟨high, _ | ⟨middle, _ | ⟨low, rest⟩⟩⟩⟩
    · exact hshort last _ (by decide)
    · exact hshort last _ (by simp)
    · exact hshort last _ (by simp)
    · exact hshort last _ (by simp)
    have hnonempty : ∀ (messages : List HandshakeMessage) (tail : Bytes),
        messageType :: high :: middle :: low :: rest =
          messages.flatMap HandshakeMessage.put ++ tail → tail.length < 4 →
        ∃ m messages', messages = m :: messages' := by
      intro messages tail heq htail
      cases messages with
      | cons m messages => exact ⟨m, messages, rfl⟩
      | nil =>
        rw [flatMap_nil, nil_append] at heq
        rw [← heq] at htail
        simp only [length_cons] at htail
        omega
    rw [endsWithFinishedFrom]
    by_cases hmissing : rest.length < getUint [high, middle, low]
    · simp only [hmissing, if_true, Bool.false_eq_true, false_iff]
      rintro ⟨messages, tail, heq, htail, -⟩
      obtain ⟨m, messages, rfl⟩ := hnonempty messages tail heq htail
      rw [flatMap_cons, append_assoc] at heq
      obtain ⟨-, hlength, hrest⟩ := HandshakeMessage.put_append_eq heq
      have := congrArg List.length hrest
      rw [length_append] at this
      omega
    · have hfuel' : (rest.drop (getUint [high, middle, low])).length ≤ fuel := by
        rw [length_drop]
        simp only [length_cons] at hfuel
        omega
      simp only [hmissing, if_false]
      rw [ih messageType _ hfuel']
      constructor
      · rintro ⟨messages, tail, heq, htail, hlast⟩
        obtain ⟨m, htype, hput⟩ :=
          @HandshakeMessage.exists_put messageType high middle low rest (Nat.not_lt.mp hmissing)
        refine ⟨m :: messages, tail, ?_, htail, ?_⟩
        · rw [hput, heq, flatMap_cons, append_assoc]
        · rw [lastType_cons, htype]
          exact hlast
      · rintro ⟨messages, tail, heq, htail, hlast⟩
        obtain ⟨m, messages, rfl⟩ := hnonempty messages tail heq htail
        rw [flatMap_cons, append_assoc] at heq
        obtain ⟨htype, hlength, hrest⟩ := HandshakeMessage.put_append_eq heq
        refine ⟨messages, tail, ?_, htail, ?_⟩
        · rw [hlength, hrest, drop_left]
        · rw [htype, ← lastType_cons last]
          exact hlast

/-- **What `endsWithFinished` accepts.** -/
theorem endsWithFinished_iff (content : Bytes) :
    endsWithFinished content = true ↔ LooksFinished content := by
  rw [endsWithFinished, endsWithFinishedFrom_iff _ _ _ (Nat.le_refl _)]
  refine exists_congr fun messages => exists_congr fun tail => and_congr_right fun _ =>
    and_congr_right fun _ => ?_
  rw [lastType]
  cases messages.getLast? with
  | none => simp [handshakeFinished]
  | some m => simp

instance (content : Bytes) : Decidable (LooksFinished content) :=
  decidable_of_iff _ (endsWithFinished_iff content)

/-! ## A client -/

inductive Suite13 where
  | aes128GCM
  | aes256GCM
  | chacha20Poly1305

namespace Suite13

def id : Suite13 → UInt16
  | aes128GCM => 0x1301
  | aes256GCM => 0x1302
  | chacha20Poly1305 => 0x1303

def hash : Suite13 → Hash
  | aes256GCM => .sha384
  | _ => .sha256

def cipher : Suite13 → Cipher
  | chacha20Poly1305 => .chacha20Poly1305
  | _ => .aesGCM

def keyLength : Suite13 → Nat
  | aes128GCM => 16
  | _ => 32

end Suite13

/-- `HkdfLabel` of RFC 8446, section 7.1, without a context. -/
def hkdfLabel (length : Nat) (label : String) : Bytes :=
  putUint 2 length ++ vec 1 (ascii ("tls13 " ++ label)) ++ vec 1 []

/-- The keys of RFC 8446, section 7.3. -/
def trafficKeys (c : TLSPrimitives) (suite : Suite13) (secret : Bytes) : RecordProtection where
  cipher := suite.cipher
  key := c.expand suite.hash secret (hkdfLabel suite.keyLength "key") suite.keyLength
  iv := c.expand suite.hash secret (hkdfLabel 12 "iv") 12
  sequence := 0

theorem newRecordProtection_eq (c : TLSPrimitives) (suite : Suite13) (secret : Bytes) :
    newRecordProtection c suite.id secret = .ok (trafficKeys c suite secret) := by
  have hlabel : ∀ (hash : Hash) (label : String) (length : Nat),
      expandLabelHash c hash secret label length =
        c.expand hash secret (hkdfLabel length label) length := by
    intro hash label length
    simp [expandLabelHash, hkdfLabel, vec, putUint]
  cases suite with
  | aes128GCM | aes256GCM | chacha20Poly1305 =>
    simp [newRecordProtection, Suite13.id, tlsAES128GCMSHA256, tlsAES256GCMSHA384,
      tlsChaCha20Poly1305SHA256, hlabel, trafficKeys, Suite13.cipher, Suite13.hash,
      Suite13.keyLength]

/-- `TLSInnerPlaintext` up to its type: content and padding. -/
structure Padded where
  content : Bytes
  padding : Nat
  fits : content.length + 1 + padding + overhead < 256 ^ 2

namespace Padded

def inner (r : Padded) (contentType : UInt8) : Bytes :=
  r.content ++ contentType :: List.replicate r.padding 0

theorem length_inner (r : Padded) (contentType : UInt8) :
    (r.inner contentType).length = r.content.length + 1 + r.padding := by
  rw [inner, length_append, length_cons, length_replicate]
  omega

def header (r : Padded) : Bytes :=
  recordHeader contentTypeApplicationData 0x0303 (r.content.length + 1 + r.padding + overhead)

variable (c : TLSPrimitives) (p : RecordProtection) (contentType : UInt8) (r : Padded)

def ciphertext : Bytes :=
  c.aeadSeal p.cipher p.key (recordNonce p.iv p.sequence) r.header (r.inner contentType)

theorem length_ciphertext :
    (r.ciphertext c p contentType).length = r.content.length + 1 + r.padding + overhead := by
  rw [ciphertext, c.seal_length, length_inner]

def record : Record where
  contentType := contentTypeApplicationData
  version := 0x0303
  body := r.ciphertext c p contentType
  fits := by
    rw [length_ciphertext]
    exact r.fits

theorem header_record : (r.record c p contentType).header = r.header := by
  rw [Record.header, record, length_ciphertext]
  rfl

end Padded

/-- A record of the stream: unprotected, such as a ClientHello or ChangeCipherSpec,
or protected. -/
inductive Item where
  | plain (record : Record) (type_ne : record.contentType ≠ contentTypeApplicationData)
  | sealed (r : Padded)

def Item.content? : Item → Option Bytes
  | .plain .. => none
  | .sealed r => some r.content

/-- What the protected records carry. -/
def contents (items : List Item) : List Bytes := items.filterMap Item.content?

/-- Records of one content type under one key, with consecutive sequence numbers. -/
def sealAll13 (c : TLSPrimitives) (contentType : UInt8) : RecordProtection → List Item → List Record
  | _, [] => []
  | p, .plain record _ :: items => record :: sealAll13 c contentType p items
  | p, .sealed r :: items =>
    r.record c p contentType :: sealAll13 c contentType p.counted items

/-- The client's side of a connection, without early data, KeyUpdate or alerts:
its handshake messages in fragments, and then application data. -/
structure ClientFlight where
  authentication : List HandshakeMessage
  finished : HandshakeMessage
  handshake : List Item
  application : List Item
  authentication_type : ∀ m ∈ authentication,
    m.messageType = handshakeCertificate ∨ m.messageType = handshakeCertificateVerify
  finished_type : finished.messageType = handshakeFinished
  fragments : (contents handshake).flatten =
    (authentication ++ [finished]).flatMap HandshakeMessage.put
  fragments_ne : ∀ fragment ∈ contents handshake, fragment ≠ []

namespace ClientFlight

variable (c : TLSPrimitives) (suite : Suite13) (handshakeSecret trafficSecret : Bytes)

def records (flight : ClientFlight) : List Record :=
  sealAll13 c contentTypeHandshake (trafficKeys c suite handshakeSecret) flight.handshake ++
    sealAll13 c contentTypeApplicationData (trafficKeys c suite trafficSecret) flight.application

def put (flight : ClientFlight) : Bytes :=
  (flight.records c suite handshakeSecret trafficSecret).flatMap Record.put

/-- The number of complete records in the first `n` bytes. -/
def complete (flight : ClientFlight) (n : Nat) : Nat :=
  completeCount n (flight.records c suite handshakeSecret trafficSecret)

/-- The fragments in complete records. -/
def seen (flight : ClientFlight) (n : Nat) : List Bytes :=
  contents (flight.handshake.take (flight.complete c suite handshakeSecret trafficSecret n))

/-- The application data in complete records. -/
def received (flight : ClientFlight) (n : Nat) : List Bytes :=
  contents (flight.application.take
    (flight.complete c suite handshakeSecret trafficSecret n - flight.handshake.length))

end ClientFlight

/-- No fragment looks finished although another one follows, and the one in
front of application data does. -/
def Recognizable (fragments data : List Bytes) : Prop :=
  (∀ fragment ∈ fragments.dropLast, ¬ LooksFinished fragment) ∧
    (data ≠ [] → ∃ fragment ∈ fragments.getLast?, LooksFinished fragment)

/-- What one key protects, the other does not open. -/
def Foreign (c : TLSPrimitives) (p q : RecordProtection) : Prop :=
  ∀ nonce nonce' additional additional' plaintext,
    c.aeadOpen q.cipher q.key nonce' additional'
      (c.aeadSeal p.cipher p.key nonce additional plaintext) = none

/-! ## Record by record -/

section Rounds

variable {c : TLSPrimitives}

/-- The padding ends at the content type, which is not zero. -/
theorem trimmed_inner (r : Padded) {contentType : UInt8} (hne : contentType ≠ 0) :
    (r.inner contentType).rdropWhile (· = 0) = r.content ++ [contentType] := by
  simp [Padded.inner, List.rdropWhile, hne]

variable {p q : RecordProtection}

theorem openRecord_record (hiv : p.iv.length = 12) {contentType : UInt8} (hne : contentType ≠ 0)
    (r : Padded) :
    p.openRecord c (r.record c p contentType).header (r.record c p contentType).body =
      .ok (some (contentType, r.content, p.counted)) := by
  rw [RecordProtection.openRecord, xorNonce_recordNonce hiv, ok_bind, r.header_record]
  rw [show (r.record c p contentType).body = r.ciphertext c p contentType from rfl,
    Padded.ciphertext, c.open_seal]
  dsimp only
  rw [trimmed_inner r hne, getLast?_concat, dropLast_concat]

theorem openRecord_foreign (hiv : q.iv.length = 12) (hforeign : Foreign c p q) (contentType : UInt8)
    (r : Padded) :
    q.openRecord c (r.record c p contentType).header (r.record c p contentType).body =
      .ok none := by
  rw [RecordProtection.openRecord, xorNonce_recordNonce hiv, ok_bind]
  rw [show (r.record c p contentType).body = r.ciphertext c p contentType from rfl,
    Padded.ciphertext, hforeign]

theorem Foreign.counted (h : Foreign c p q) : Foreign c p.counted q := h

theorem turn13_plain (s : Decrypting13) {record : Record}
    (hne : record.contentType ≠ contentTypeApplicationData) :
    turn13 c s record.header record.body = .ok (.next s) := by
  rw [turn13, record.index_header, ok_bind, if_pos hne]

theorem turn13_record (s : Decrypting13) (hiv : s.current.iv.length = 12) {contentType : UInt8}
    (hne : contentType ≠ 0) (r : Padded) :
    turn13 c s (r.record c s.current contentType).header (r.record c s.current contentType).body =
      .ok ((s.setCurrent s.current.counted).accept contentType r.content) := by
  have htype : (r.record c s.current contentType).contentType = contentTypeApplicationData := rfl
  rw [turn13, Record.index_header, ok_bind, if_neg (not_not_intro htype), openRecord_record hiv hne,
    ok_bind]

theorem turn13_foreign (s : Decrypting13) (hiv : s.current.iv.length = 12)
    (hforeign : Foreign c p s.current) (contentType : UInt8) (r : Padded) :
    turn13 c s (r.record c p contentType).header (r.record c p contentType).body =
      .ok (.done (s.data, some .decrypt)) := by
  have htype : (r.record c p contentType).contentType = contentTypeApplicationData := rfl
  rw [turn13, Record.index_header, ok_bind, if_neg (not_not_intro htype),
    openRecord_foreign hiv hforeign, ok_bind]

theorem turn13_fragment (s : Decrypting13) (hswitched : s.switched = false)
    (hiv : s.handshake.iv.length = 12) (r : Padded) :
    turn13 c s (r.record c s.handshake contentTypeHandshake).header
        (r.record c s.handshake contentTypeHandshake).body =
      .ok (.next ⟨s.handshake.counted, s.traffic, endsWithFinished r.content, s.data⟩) := by
  have hcurrent : s.current = s.handshake := by
    rw [Decrypting13.current, hswitched]
    rfl
  have hturn := @turn13_record c s (by rw [hcurrent]; exact hiv) contentTypeHandshake (by decide) r
  rw [hcurrent, Decrypting13.setCurrent, hswitched] at hturn
  exact hturn

/-! ## Whole runs -/

def run13 (c : TLSPrimitives) : Decrypting13 → List Record → Except WireError Decrypted :=
  runRecords Decrypting13.data (turn13 c)

theorem run13_cons (s : Decrypting13) (hlimit : s.data.length < maxStreamBytes) (record : Record)
    (records : List Record) : run13 c s (record :: records) =
      (turn13 c s record.header record.body >>=
        fun x => x.elim .ok fun s' => run13 c s' records) := by
  rw [run13, runRecords, if_pos hlimit]

/-- **Behind the change of keys**, application data is collected. -/
theorem run13_application (items : List Item) : ∀ s : Decrypting13, s.switched = true →
    s.traffic.iv.length = 12 →
      run13 c s (sealAll13 c contentTypeApplicationData s.traffic items) =
        .ok (limited s.data (contents items), none) := by
  induction items with
  | nil =>
    intro s _ _
    rfl
  | cons item items ih =>
    intro s hswitched hiv
    by_cases hlimit : s.data.length < maxStreamBytes
    · cases item with
      | plain record hne =>
        rw [sealAll13, run13_cons s hlimit, turn13_plain s hne, ok_bind]
        exact ih s hswitched hiv
      | sealed r =>
        have hcurrent : s.current = s.traffic := by rw [Decrypting13.current, hswitched, if_pos rfl]
        have hturn := @turn13_record c s (by rw [hcurrent]; exact hiv)
          contentTypeApplicationData (by decide) r
        rw [hcurrent, Decrypting13.setCurrent, if_pos hswitched] at hturn
        rw [sealAll13, run13_cons s hlimit, hturn, ok_bind]
        refine (ih { s with traffic := s.traffic.counted, data := s.data ++ r.content }
          hswitched hiv).trans ?_
        rw [contents, contents, filterMap_cons, Item.content?]
        simp [limited, hlimit]
    · -- the limit has been reached, whatever follows
      have hstop : run13 c s (sealAll13 c contentTypeApplicationData s.traffic (item :: items)) =
          .ok (s.data, none) := by
        cases item with
        | plain record hne | sealed r => rw [sealAll13, run13, runRecords, if_neg hlimit]
      rw [hstop]
      cases contents (item :: items) with
      | nil => rfl
      | cons piece pieces => rw [limited, if_neg hlimit]

/-- Of records under other keys, the first fragment is an error. -/
theorem run13_foreign (contentType : UInt8) {s : Decrypting13} {p : RecordProtection}
    (hdata : s.data = []) (hiv : s.current.iv.length = 12) (hforeign : Foreign c p s.current)
    (items : List Item) (records : List Record) :
    run13 c s (sealAll13 c contentType p items ++ records) =
      if contents items = [] then run13 c s records else .ok ([], some .decrypt) := by
  have hlimit : s.data.length < maxStreamBytes := by
    rw [hdata]
    decide
  induction items with
  | nil => rfl
  | cons item items ih =>
    cases item with
    | plain record hne =>
      rw [sealAll13, cons_append, run13_cons s hlimit, turn13_plain s hne, ok_bind]
      exact ih
    | sealed r =>
      rw [sealAll13, cons_append, run13_cons s hlimit, turn13_foreign s hiv hforeign, ok_bind,
        hdata]
      exact (if_neg (by simp [contents, Item.content?])).symm

/-- Behind an early change of keys, the next fragment is an error. -/
theorem run13_early (items application : List Item) (s : Decrypting13) (p : RecordProtection)
    (hswitched : s.switched = true) (hdata : s.data = []) (hiv : s.traffic.iv.length = 12)
    (hforeign : Foreign c p s.traffic) :
    run13 c s (sealAll13 c contentTypeHandshake p items ++
        sealAll13 c contentTypeApplicationData s.traffic application) =
      .ok (limited [] (contents application), none) ↔ contents items = [] := by
  have hcurrent : s.current = s.traffic := by rw [Decrypting13.current, hswitched, if_pos rfl]
  rw [run13_foreign _ hdata (by rwa [hcurrent]) (by rwa [hcurrent]),
    run13_application application s hswitched hiv, hdata]
  split_ifs with hnone <;> simp [hnone]

/-- Without a change of keys, application data is an error. -/
theorem run13_late (application : List Item) (s : Decrypting13) (q : RecordProtection)
    (hswitched : s.switched = false) (hdata : s.data = []) (hiv : s.handshake.iv.length = 12)
    (hforeign : Foreign c q s.handshake) :
    run13 c s (sealAll13 c contentTypeApplicationData q application) =
      .ok (limited [] (contents application), none) ↔ contents application = [] := by
  have hcurrent : s.current = s.handshake := by
    rw [Decrypting13.current, hswitched]
    rfl
  rw [← append_nil (sealAll13 _ _ _ _),
    run13_foreign _ hdata (by rwa [hcurrent]) (by rwa [hcurrent])]
  split_ifs with hnone
  · simp [hnone, run13, runRecords, hdata, limited]
  · simp [hnone]

/-- The fragments are taken one by one up to the one that looks finished. -/
def Accepts : (fragments data : List Bytes) → Prop
  | [], data => data = []
  | fragment :: fragments, data =>
    if LooksFinished fragment then fragments = [] else Accepts fragments data

theorem accepts_iff (fragments data : List Bytes) :
    Accepts fragments data ↔ Recognizable fragments data := by
  induction fragments with
  | nil => simp [Accepts, Recognizable]
  | cons fragment fragments ih =>
    rw [Accepts]
    cases fragments with
    | nil =>
      by_cases hlooks : LooksFinished fragment
      · simp [hlooks, Recognizable]
      · simp [hlooks, Accepts, Recognizable]
    | cons next fragments =>
      by_cases hlooks : LooksFinished fragment
      · simp [hlooks, Recognizable]
      · rw [if_neg hlooks, ih]
        simp [Recognizable, hlooks]

/-- **The whole flight**, by induction on its handshake records. -/
theorem run13_flight (items application : List Item) : ∀ s : Decrypting13,
    s.switched = false → s.data = [] → s.handshake.iv.length = 12 → s.traffic.iv.length = 12 →
      Foreign c s.handshake s.traffic → Foreign c s.traffic s.handshake →
        (run13 c s (sealAll13 c contentTypeHandshake s.handshake items ++
            sealAll13 c contentTypeApplicationData s.traffic application) =
          .ok (limited [] (contents application), none) ↔
            Accepts (contents items) (contents application)) := by
  induction items with
  | nil =>
    intro s hswitched hdata hiv _ _ hforeign
    exact run13_late application s s.traffic hswitched hdata hiv hforeign
  | cons item items ih =>
    intro s hswitched hdata hiv htiv hearly hlate
    have hlimit : s.data.length < maxStreamBytes := by
      rw [hdata]
      decide
    cases item with
    | plain record hne =>
      rw [sealAll13, cons_append, run13_cons s hlimit, turn13_plain s hne, ok_bind]
      exact ih s hswitched hdata hiv htiv hearly hlate
    | sealed r =>
      have hcontents : contents (.sealed r :: items) = r.content :: contents items := rfl
      rw [sealAll13, cons_append, run13_cons s hlimit, turn13_fragment s hswitched hiv,
        ok_bind, hcontents, Accepts]
      by_cases hlooks : LooksFinished r.content
      · rw [if_pos hlooks, (endsWithFinished_iff r.content).mpr hlooks]
        exact run13_early items application ⟨s.handshake.counted, s.traffic, true, s.data⟩
          s.handshake.counted rfl hdata htiv hearly.counted
      · have hends : endsWithFinished r.content = false := by
          rw [← Bool.not_eq_true, endsWithFinished_iff]
          exact hlooks
        rw [if_neg hlooks, hends]
        exact ih ⟨s.handshake.counted, s.traffic, false, s.data⟩ rfl hdata hiv htiv hearly hlate

theorem sealAll13_take (contentType : UInt8) (items : List Item) :
    ∀ (p : RecordProtection) (k : Nat), (sealAll13 c contentType p items).take k =
      sealAll13 c contentType p (items.take k) := by
  induction items with
  | nil =>
    intro p k
    simp [sealAll13]
  | cons item items ih =>
    intro p k
    cases k with
    | zero => simp [sealAll13]
    | succ k =>
      cases item with
      | plain record hne => simp [sealAll13, ih]
      | sealed r => simp [sealAll13, ih]

theorem length_sealAll13 (contentType : UInt8) (items : List Item) :
    ∀ p : RecordProtection, (sealAll13 c contentType p items).length = items.length := by
  induction items with
  | nil =>
    intro p
    rfl
  | cons item items ih =>
    intro p
    cases item with
    | plain record hne => simp [sealAll13, ih]
    | sealed r => simp [sealAll13, ih]

end Rounds

/-- **When TLS 1.3 streams are decrypted exactly.** For every suite and every
client flight, cut behind any byte: `Decrypt13` returns the application data of
the complete records without an error iff the end of the handshake can be
recognized record by record. It is all of the data, as long as it is shorter
than 2²⁰ bytes. -/
theorem decrypt13_exact_iff (c : TLSPrimitives) (suite : Suite13)
    (handshakeSecret trafficSecret : Bytes)
    (hearly : Foreign c (trafficKeys c suite handshakeSecret) (trafficKeys c suite trafficSecret))
    (hlate : Foreign c (trafficKeys c suite trafficSecret) (trafficKeys c suite handshakeSecret))
    (flight : ClientFlight) (n : Nat) :
    let fragments := flight.seen c suite handshakeSecret trafficSecret n
    let pieces := flight.received c suite handshakeSecret trafficSecret n
    (decrypt13 c ((flight.put c suite handshakeSecret trafficSecret).take n) suite.id
        handshakeSecret trafficSecret = .ok (limited [] pieces, none) ↔
      Recognizable fragments pieces) ∧
    (pieces.flatten.length < 2 ^ 20 → limited [] pieces = pieces.flatten) := by
  intro fragments pieces
  refine ⟨?_, ?_⟩
  · have hiv : ∀ secret, (trafficKeys c suite secret).iv.length = 12 :=
      fun secret => c.expand_length _ _ _ _
    obtain ⟨k, hk⟩ : ∃ k, k = flight.complete c suite handshakeSecret trafficSecret n := ⟨_, rfl⟩
    have htake : (flight.records c suite handshakeSecret trafficSecret).take k =
        sealAll13 c contentTypeHandshake (trafficKeys c suite handshakeSecret)
            (flight.handshake.take k) ++
          sealAll13 c contentTypeApplicationData (trafficKeys c suite trafficSecret)
            (flight.application.take (k - flight.handshake.length)) := by
      rw [ClientFlight.records, take_append, sealAll13_take, sealAll13_take, length_sealAll13]
    rw [decrypt13, newRecordProtection_eq, newRecordProtection_eq, ClientFlight.put]
    dsimp only
    rw [recordLoop_take, ← accepts_iff, ← ClientFlight.complete, ← hk, htake]
    have hflight := run13_flight (c := c) (flight.handshake.take k)
      (flight.application.take (k - flight.handshake.length))
      ⟨trafficKeys c suite handshakeSecret, trafficKeys c suite trafficSecret, false, []⟩
      rfl rfl (hiv _) (hiv _) hearly hlate
    rw [hk] at hflight ⊢
    exact hflight
  · intro htotal
    exact limited_eq pieces [] htotal

/-! ### A Finished message in one record, and in two -/

theorem foreign_checked {p q : RecordProtection} (h : p.key.headD 0 ≠ q.key.headD 0) :
    Foreign checkedPrimitives p q := by
  intro nonce nonce' additional additional' plaintext
  apply if_neg
  show (plaintext ++ checkedTag p.key nonce additional).drop _ ≠ _
  rw [checkedPrimitives.seal_length, Nat.add_sub_cancel, drop_left]
  intro heq
  exact h (List.cons.inj heq).1

def certificateMessage : HandshakeMessage := ⟨handshakeCertificate, [1, 2, 3], by decide⟩
def verifyMessage : HandshakeMessage := ⟨handshakeCertificateVerify, [8, 9], by decide⟩
def finishedMessage : HandshakeMessage := ⟨handshakeFinished, [5, 6, 7, 8], by decide⟩

/-- A protected record with `padding` zeros. -/
def paddedItem (content : Bytes) (padding : Nat)
    (fits : content.length + 1 + padding + overhead < 256 ^ 2) : Item :=
  .sealed ⟨content, padding, fits⟩

/-- The certificate is cut; the Finished shares its record with the message in
front of it. -/
def certificateFlight : ClientFlight where
  authentication := [certificateMessage, verifyMessage]
  finished := finishedMessage
  handshake := [.plain ⟨22, 0x0301, [1, 0, 0, 2, 3, 3], by decide⟩ (by decide),
    paddedItem [11, 0, 0, 3, 1] 2 (by decide), paddedItem [2, 3] 0 (by decide),
    paddedItem [15, 0, 0, 2, 8, 9, 20, 0, 0, 4, 5, 6, 7, 8] 0 (by decide)]
  application := [paddedItem (ascii "hi") 1 (by decide), paddedItem (ascii "lost") 0 (by decide)]
  authentication_type := by simp [certificateMessage, verifyMessage]
  finished_type := rfl
  fragments := rfl
  fragments_ne := by decide

theorem decrypt13_exact_certificate :
    decrypt13 checkedPrimitives
        ((certificateFlight.put checkedPrimitives .aes128GCM [1] [2]).take 142) 0x1301 [1] [2] =
      .ok (ascii "hi", none) := by
  have hkeys : ((trafficKeys checkedPrimitives .aes128GCM [1]).key.headD 0) ≠
      (trafficKeys checkedPrimitives .aes128GCM [2]).key.headD 0 := by decide
  obtain ⟨hiff, hall⟩ := decrypt13_exact_iff checkedPrimitives .aes128GCM [1] [2]
    (foreign_checked hkeys) (foreign_checked hkeys.symm) certificateFlight 142
  have hseen : certificateFlight.seen checkedPrimitives .aes128GCM [1] [2] 142 =
      [[11, 0, 0, 3, 1], [2, 3], [15, 0, 0, 2, 8, 9, 20, 0, 0, 4, 5, 6, 7, 8]] := by decide +kernel
  have hpieces : certificateFlight.received checkedPrimitives .aes128GCM [1] [2] 142 =
      [ascii "hi"] := by decide +kernel
  rw [hseen, hpieces] at hiff
  rw [hpieces] at hall
  rw [hall (by decide)] at hiff
  apply hiff.mpr
  constructor
  · decide
  · intro _
    exact ⟨_, rfl, by decide⟩

/-- The Finished message in two records. -/
def cutFlight : ClientFlight where
  authentication := []
  finished := finishedMessage
  handshake := [paddedItem [20, 0, 0, 4, 5, 6] 0 (by decide), paddedItem [7, 8] 0 (by decide)]
  application := [paddedItem (ascii "hi") 0 (by decide)]
  authentication_type := by simp
  finished_type := rfl
  fragments := rfl
  fragments_ne := by decide

/-- **A Finished in two records is missed**: all records are complete, and the
application data is opened with the handshake key. -/
theorem decrypt13_misses_finished :
    cutFlight.received checkedPrimitives .aes128GCM [1] [2]
        (cutFlight.put checkedPrimitives .aes128GCM [1] [2]).length = [ascii "hi"] ∧
      decrypt13 checkedPrimitives (cutFlight.put checkedPrimitives .aes128GCM [1] [2]) 0x1301
        [1] [2] = .ok ([], some .decrypt) := by
  decide +kernel

end HeadlessClient.Capture
