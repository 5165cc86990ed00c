import HeadlessClient.Capture.Records

/-!
# Capture — decrypting TLS 1.2

`Decrypt12` (`stand/internal/wire/tls12.go`): the client's keys from the master
secret, then the records behind ChangeCipherSpec. AES-GCM takes half of its nonce
from the record, ChaCha20-Poly1305 counts; both authenticate the length of the
PLAINTEXT, which the code recomputes from the ciphertext.

`decrypt12_exact`: whatever a client sends — any suite of the table, any records,
cut anywhere — the application data of the complete records comes out.
-/

namespace HeadlessClient.Capture

open Base Wire List

/-! ## The pseudorandom function -/

/-- The loop of `tls12PRF`. A round appends a whole HMAC, so `length` rounds are
enough. -/
def prfLoop (c : TLSPrimitives) (hash : Hash) (secret labelAndSeed : Bytes) (length : Nat) :
    (fuel : Nat) → (a out : Bytes) → Bytes
  | 0, _, out => out
  | fuel + 1, a, out =>
    if out.length < length then
      prfLoop c hash secret labelAndSeed length fuel (c.hmac hash secret a)
        (out ++ c.hmac hash secret (a ++ labelAndSeed))
    else out

def tls12PRF (c : TLSPrimitives) (hash : Hash) (secret : Bytes) (label : String) (seed : Bytes)
    (length : Nat) : Except WireError Bytes :=
  let labelAndSeed := ascii label ++ seed
  slice .panic (prfLoop c hash secret labelAndSeed length length
    (c.hmac hash secret labelAndSeed) []) 0 length

/-! ### RFC 5246, section 5 -/

section PRF

variable (c : TLSPrimitives) (hash : Hash) (secret seed : Bytes)

/-- `A(i)`. -/
def prfA : Nat → Bytes
  | 0 => seed
  | i + 1 => c.hmac hash secret (prfA i)

/-- The first `n` blocks of `P_hash`. -/
def pHash (n : Nat) : Bytes :=
  (List.range n).flatMap fun i => c.hmac hash secret (prfA c hash secret seed (i + 1) ++ seed)

/-- `PRF`, `length` bytes of it. Every block has a byte. -/
def prf (label : String) (length : Nat) : Bytes :=
  (pHash c hash secret (ascii label ++ seed) length).take length

theorem Hash.size_pos : 0 < hash.size := by
  cases hash with
  | sha256 => decide
  | sha384 => decide

theorem pHash_succ (n : Nat) : pHash c hash secret seed (n + 1) =
    pHash c hash secret seed n ++ c.hmac hash secret (prfA c hash secret seed (n + 1) ++ seed) := by
  simp [pHash, range_succ]

theorem le_length_pHash (n : Nat) : n ≤ (pHash c hash secret seed n).length := by
  induction n with
  | zero => exact Nat.zero_le _
  | succ n ih =>
    have hsize := hash.size_pos
    rw [pHash_succ, length_append, c.hmac_length]
    omega

theorem pHash_prefix {m n : Nat} (h : m ≤ n) :
    pHash c hash secret seed m <+: pHash c hash secret seed n := by
  induction n, h using Nat.le_induction with
  | base => exact prefix_rfl
  | succ n _ ih =>
    rw [pHash_succ]
    exact ih.trans (prefix_append _ _)

theorem prfLoop_eq (length : Nat) (fuel : Nat) : ∀ i : Nat, length ≤ i + fuel →
    ∃ m, prfLoop c hash secret seed length fuel (prfA c hash secret seed (i + 1))
        (pHash c hash secret seed i) = pHash c hash secret seed m ∧
      length ≤ (pHash c hash secret seed m).length := by
  induction fuel with
  | zero =>
    intro i h
    exact ⟨i, rfl, h.trans (le_length_pHash c hash secret seed i)⟩
  | succ fuel ih =>
    intro i h
    rw [prfLoop]
    split_ifs with hshort
    · rw [← pHash_succ]
      exact ih (i + 1) (by omega)
    · exact ⟨i, rfl, Nat.not_lt.mp hshort⟩

theorem tls12PRF_eq (label : String) (length : Nat) :
    tls12PRF c hash secret label seed length = .ok (prf c hash secret seed label length) := by
  obtain ⟨m, hloop, hlength⟩ := prfLoop_eq c hash secret (ascii label ++ seed) length length 0
    (by omega)
  have henough := le_length_pHash c hash secret (ascii label ++ seed) length
  have hloop : prfLoop c hash secret (ascii label ++ seed) length length
      (c.hmac hash secret (ascii label ++ seed)) [] = pHash c hash secret (ascii label ++ seed) m :=
    hloop
  rw [tls12PRF, hloop, slice_eq (Nat.zero_le _) hlength, prf, drop_zero]
  congr 1
  -- one of the two is a prefix of the other
  rcases Nat.le_total m length with hle | hle
  · obtain ⟨more, hmore⟩ := pHash_prefix c hash secret (ascii label ++ seed) hle
    rw [← hmore, take_append_of_le_length hlength]
  · obtain ⟨more, hmore⟩ := pHash_prefix c hash secret (ascii label ++ seed) hle
    rw [← hmore, take_append_of_le_length henough]

theorem length_prf (label : String) (length : Nat) :
    (prf c hash secret seed label length).length = length := by
  rw [prf, length_take]
  exact Nat.min_eq_left (le_length_pHash _ _ _ _ _)

end PRF

/-! ## The code -/

structure TLS12Suite where
  hash : Hash
  keyLen : Nat
  ivLen : Nat
  chacha : Bool
deriving DecidableEq, Repr

def tls12Suites : List (UInt16 × TLS12Suite) :=
  [(0x009c, ⟨.sha256, 16, 4, false⟩), (0x009d, ⟨.sha384, 32, 4, false⟩),
    (0xc02b, ⟨.sha256, 16, 4, false⟩), (0xc02c, ⟨.sha384, 32, 4, false⟩),
    (0xc02f, ⟨.sha256, 16, 4, false⟩), (0xc030, ⟨.sha384, 32, 4, false⟩),
    (0xcca8, ⟨.sha256, 32, 12, true⟩), (0xcca9, ⟨.sha256, 32, 12, true⟩)]

def gcmExplicitNonceLen : Nat := 8

def TLS12Suite.cipher (suite : TLS12Suite) : Cipher :=
  if suite.chacha then .chacha20Poly1305 else .aesGCM

/-- The variables of the loop. -/
structure Decrypting12 where
  encrypted : Bool
  sequence : Nat
  data : Bytes

/-- The nonce, and what is left of the body: `none` is too short a body. -/
def splitNonce (suite : TLS12Suite) (iv : Bytes) (sequence : Nat) (body : Bytes) :
    Except WireError (Option (Bytes × Bytes)) :=
  if suite.chacha then do
    let nonce ← xorNonce iv sequence
    .ok (some (nonce, body))
  else if body.length < gcmExplicitNonceLen then .ok none
  else .ok (some (iv ++ body.take gcmExplicitNonceLen, body.drop gcmExplicitNonceLen))

/-- A protected record, once its nonce is known. -/
def openRecord12 (c : TLSPrimitives) (suite : TLS12Suite) (key : Bytes) (s : Decrypting12)
    (first : UInt8) (header nonce body : Bytes) : Turn Decrypting12 :=
  if body.length < overhead then .done (s.data, some .decrypt)
  else
    let additional := putUint 8 s.sequence ++ header.take 3 ++ putUint 2 (body.length - overhead)
    match c.aeadOpen suite.cipher key nonce additional body with
    | none => .done (s.data, some .decrypt)
    | some plaintext =>
      let s := { s with sequence := s.sequence + 1 }
      if first = contentTypeApplicationData then .next { s with data := s.data ++ plaintext }
      else if first = contentTypeAlert then .done (s.data, none)
      else .next s

/-- What the loop does with a record. -/
def turn12 (c : TLSPrimitives) (suite : TLS12Suite) (key iv : Bytes) (s : Decrypting12)
    (header body : Bytes) : Except WireError (Turn Decrypting12) := do
  let first ← index .panic header 0
  if !s.encrypted then .ok (.next { s with encrypted := first = contentTypeChangeCipherSpec })
  else
    match ← splitNonce suite iv s.sequence body with
    | none => .ok (.done (s.data, some .decrypt))
    | some (nonce, body) => .ok (openRecord12 c suite key s first header nonce body)

/-- `Decrypt12`. The key has a length that the cipher accepts. -/
def decrypt12 (c : TLSPrimitives) (stream : Bytes) (cipherSuite : UInt16)
    (masterSecret clientRandom serverRandom : Bytes) : Except WireError Decrypted :=
  match tls12Suites.lookup cipherSuite with
  | none => .ok ([], some (.notSupported cipherSuite))
  | some suite => do
      let keyBlock ← tls12PRF c suite.hash masterSecret "key expansion"
        (serverRandom ++ clientRandom) (2 * suite.keyLen + 2 * suite.ivLen)
      let key ← slice .panic keyBlock 0 suite.keyLen
      let iv ← slice .panic keyBlock (2 * suite.keyLen) (2 * suite.keyLen + suite.ivLen)
      recordLoop Decrypting12.data (turn12 c suite key iv) ⟨false, 0, []⟩ stream

/-! ## A client -/

/-- The AEAD suites, by their names in the RFCs. -/
inductive Suite12 where
  | rsaAES128GCM
  | rsaAES256GCM
  | ecdheECDSAAES128GCM
  | ecdheECDSAAES256GCM
  | ecdheRSAAES128GCM
  | ecdheRSAAES256GCM
  | ecdheRSAChaCha20Poly1305
  | ecdheECDSAChaCha20Poly1305

namespace Suite12

def id : Suite12 → UInt16
  | rsaAES128GCM => 0x009c
  | rsaAES256GCM => 0x009d
  | ecdheECDSAAES128GCM => 0xc02b
  | ecdheECDSAAES256GCM => 0xc02c
  | ecdheRSAAES128GCM => 0xc02f
  | ecdheRSAAES256GCM => 0xc030
  | ecdheRSAChaCha20Poly1305 => 0xcca8
  | ecdheECDSAChaCha20Poly1305 => 0xcca9

def cipher : Suite12 → Cipher
  | ecdheRSAChaCha20Poly1305 => .chacha20Poly1305
  | ecdheECDSAChaCha20Poly1305 => .chacha20Poly1305
  | _ => .aesGCM

/-- SHA-384 goes with AES-256. -/
def hash : Suite12 → Hash
  | rsaAES256GCM => .sha384
  | ecdheECDSAAES256GCM => .sha384
  | ecdheRSAAES256GCM => .sha384
  | _ => .sha256

def keyLength : Suite12 → Nat
  | rsaAES128GCM => 16
  | ecdheECDSAAES128GCM => 16
  | ecdheRSAAES128GCM => 16
  | _ => 32

/-- The salt of RFC 5288, or the whole nonce of RFC 7905. -/
def fixedIVLength (suite : Suite12) : Nat :=
  match suite.cipher with
  | .aesGCM => 4
  | .chacha20Poly1305 => 12

/-- The suite as the table of the code has it. -/
def entry (suite : Suite12) : TLS12Suite where
  hash := suite.hash
  keyLen := suite.keyLength
  ivLen := suite.fixedIVLength
  chacha := suite.cipher = .chacha20Poly1305

theorem lookup_id (suite : Suite12) : tls12Suites.lookup suite.id = some suite.entry := by
  cases suite <;> decide

theorem cipher_entry (suite : Suite12) : suite.entry.cipher = suite.cipher := by
  cases suite <;> rfl

end Suite12

structure WriteKeys where
  key : Bytes
  iv : Bytes

section Client

variable (c : TLSPrimitives) (suite : Suite12)

/-- RFC 5246, section 6.3, without MAC keys: the client's key, the server's key,
the client's IV, the server's IV. -/
def keyBlock12 (masterSecret clientRandom serverRandom : Bytes) : Bytes :=
  prf c suite.hash masterSecret (serverRandom ++ clientRandom) "key expansion"
    (suite.keyLength + suite.keyLength + suite.fixedIVLength + suite.fixedIVLength)

def clientKeys12 (masterSecret clientRandom serverRandom : Bytes) : WriteKeys where
  key := (keyBlock12 c suite masterSecret clientRandom serverRandom).take suite.keyLength
  iv := ((keyBlock12 c suite masterSecret clientRandom serverRandom).drop
    (suite.keyLength + suite.keyLength)).take suite.fixedIVLength

/-- What a client protects: handshake or application data, with an explicit nonce
for AES-GCM. -/
structure Protected12 where
  contentType : UInt8
  version : UInt16
  plaintext : Bytes
  explicitNonce : Bytes
  kind : contentType = contentTypeHandshake ∨ contentType = contentTypeApplicationData
  nonce_length : explicitNonce.length = 8
  fits : plaintext.length + 24 < 256 ^ 2

namespace Protected12

/-- RFC 5246, section 6.2.3.3. -/
def additional (r : Protected12) (sequence : Nat) : Bytes :=
  putUint 8 sequence ++ (r.contentType :: putUint 2 r.version.toNat) ++ putUint 2 r.plaintext.length

/-- The fragment: RFC 5288 with AES-GCM, RFC 7905 with ChaCha20-Poly1305. -/
def fragment (keys : WriteKeys) (sequence : Nat) (r : Protected12) : Bytes :=
  match suite.cipher with
  | .aesGCM => r.explicitNonce ++
      c.aeadSeal .aesGCM keys.key (keys.iv ++ r.explicitNonce) (r.additional sequence) r.plaintext
  | .chacha20Poly1305 =>
    c.aeadSeal .chacha20Poly1305 keys.key (recordNonce keys.iv sequence) (r.additional sequence)
      r.plaintext

theorem length_fragment (keys : WriteKeys) (sequence : Nat) (r : Protected12) :
    (r.fragment c suite keys sequence).length < 256 ^ 2 := by
  have hfits := r.fits
  have hnonce := r.nonce_length
  unfold fragment
  cases suite.cipher with
  | aesGCM =>
    rw [length_append, c.seal_length, overhead]
    omega
  | chacha20Poly1305 =>
    rw [c.seal_length, overhead]
    omega

def record (keys : WriteKeys) (sequence : Nat) (r : Protected12) : Record :=
  ⟨r.contentType, r.version, r.fragment c suite keys sequence,
    r.length_fragment c suite keys sequence⟩

def data? (r : Protected12) : Option Bytes :=
  if r.contentType = contentTypeApplicationData then some r.plaintext else none

end Protected12

/-- Records with consecutive sequence numbers. -/
def sealAll12 (keys : WriteKeys) : Nat → List Protected12 → List Record
  | _, [] => []
  | sequence, r :: rs => r.record c suite keys sequence :: sealAll12 keys (sequence + 1) rs

/-- The client's side of a connection, without renegotiation or alerts. -/
structure ClientStream12 where
  handshake : List Record
  changeCipherSpec : Record
  sent : List Protected12
  handshake_type : ∀ r ∈ handshake, r.contentType = contentTypeHandshake
  change_type : changeCipherSpec.contentType = contentTypeChangeCipherSpec

namespace ClientStream12

def records (keys : WriteKeys) (stream : ClientStream12) : List Record :=
  stream.handshake ++ stream.changeCipherSpec :: sealAll12 c suite keys 0 stream.sent

def put (keys : WriteKeys) (stream : ClientStream12) : Bytes :=
  (stream.records c suite keys).flatMap Record.put

/-- The application data of the records that are complete in the first `n`
bytes. -/
def received (keys : WriteKeys) (stream : ClientStream12) (n : Nat) : List Bytes :=
  (stream.sent.take (completeCount n (stream.records c suite keys) -
    (stream.handshake.length + 1))).filterMap Protected12.data?

end ClientStream12

end Client

/-! ## Record by record -/

section Rounds

variable {c : TLSPrimitives} {suite : Suite12} {keys : WriteKeys}

/-- The run of the loop behind the code's keys. -/
def run12 (c : TLSPrimitives) (suite : Suite12) (keys : WriteKeys) :
    Decrypting12 → List Record → Except WireError Decrypted :=
  runRecords Decrypting12.data (turn12 c suite.entry keys.key keys.iv)

theorem turn12_plain (s : Decrypting12) (hplain : s.encrypted = false) (r : Record) :
    turn12 c suite.entry keys.key keys.iv s r.header r.body =
      .ok (.next { s with encrypted := r.contentType = contentTypeChangeCipherSpec }) := by
  rw [turn12, r.index_header, ok_bind, hplain]
  rfl

theorem openRecord12_seal (s : Decrypting12) (r : Protected12) (header nonce : Bytes)
    (hheader : header.take 3 = r.contentType :: putUint 2 r.version.toNat) :
    openRecord12 c suite.entry keys.key s r.contentType header nonce
        (c.aeadSeal suite.cipher keys.key nonce (r.additional s.sequence) r.plaintext) =
      .next { s with sequence := s.sequence + 1, data := s.data ++ r.data?.getD [] } := by
  have hadditional : putUint 8 s.sequence ++ header.take 3 ++ putUint 2
      ((c.aeadSeal suite.cipher keys.key nonce (r.additional s.sequence) r.plaintext).length -
        overhead) = r.additional s.sequence := by
    rw [hheader, c.seal_length, Nat.add_sub_cancel]
    rfl
  rw [openRecord12, if_neg (by rw [c.seal_length]; omega)]
  dsimp only
  rw [hadditional, suite.cipher_entry, c.open_seal]
  dsimp only
  rcases r.kind with hkind | hkind
  · have hne : ¬ contentTypeHandshake = contentTypeApplicationData := by decide
    have hne' : ¬ contentTypeHandshake = contentTypeAlert := by decide
    simp [hkind, hne, hne', Protected12.data?]
  · simp [hkind, Protected12.data?]

/-- **A protected record.** -/
theorem turn12_record (hiv : keys.iv.length = suite.fixedIVLength) (s : Decrypting12)
    (hencrypted : s.encrypted = true) (r : Protected12) :
    turn12 c suite.entry keys.key keys.iv s (r.record c suite keys s.sequence).header
        (r.record c suite keys s.sequence).body =
      .ok (.next { s with sequence := s.sequence + 1, data := s.data ++ r.data?.getD [] }) := by
  obtain ⟨record, hrecord⟩ : ∃ record, record = r.record c suite keys s.sequence := ⟨_, rfl⟩
  have hheader : record.header.take 3 = r.contentType :: putUint 2 r.version.toNat := by
    rw [hrecord]
    rfl
  have htype : record.contentType = r.contentType := by
    rw [hrecord]
    rfl
  have hbody : record.body = r.fragment c suite keys s.sequence := by
    rw [hrecord]
    rfl
  have hopen := fun nonce => @openRecord12_seal c suite keys s r record.header nonce hheader
  rw [← hrecord, turn12, record.index_header, ok_bind, hencrypted, htype, hbody]
  unfold Protected12.fragment
  unfold Suite12.fixedIVLength at hiv
  cases hcipher : suite.cipher with
  | aesGCM =>
    have hchacha : suite.entry.chacha = false := by simp [Suite12.entry, hcipher]
    rw [hcipher] at hopen
    simp [splitNonce, hchacha, gcmExplicitNonceLen, r.nonce_length, hopen, hencrypted]
  | chacha20Poly1305 =>
    have hchacha : suite.entry.chacha = true := by simp [Suite12.entry, hcipher]
    rw [hcipher] at hiv hopen
    simp [splitNonce, hchacha, xorNonce_recordNonce hiv, hopen, hencrypted]

/-! ## Whole runs -/

theorem run12_handshake (rs rest : List Record)
    (h : ∀ r ∈ rs, r.contentType = contentTypeHandshake) :
    run12 c suite keys ⟨false, 0, []⟩ (rs ++ rest) = run12 c suite keys ⟨false, 0, []⟩ rest := by
  induction rs with
  | nil => rfl
  | cons r rs ih =>
    have htype : r.contentType = contentTypeHandshake := h r (by simp)
    have ih := ih fun r' hr' => h r' (mem_cons_of_mem _ hr')
    rw [cons_append, run12, runRecords, if_pos (by decide), turn12_plain _ rfl, ok_bind, htype]
    exact ih

theorem run12_sealed (hiv : keys.iv.length = suite.fixedIVLength) (rs : List Protected12) :
    ∀ (sequence : Nat) (data : Bytes),
      run12 c suite keys ⟨true, sequence, data⟩ (sealAll12 c suite keys sequence rs) =
        .ok (limited data (rs.filterMap Protected12.data?), none) := by
  induction rs with
  | nil =>
    intro sequence data
    rfl
  | cons r rs ih =>
    intro sequence data
    rw [sealAll12, run12, runRecords]
    by_cases hlimit : data.length < maxStreamBytes
    · have hturn := turn12_record (c := c) hiv ⟨true, sequence, data⟩ rfl r
      rw [if_pos hlimit, hturn, ok_bind]
      refine (ih (sequence + 1) (data ++ r.data?.getD [])).trans ?_
      rw [filterMap_cons]
      cases r.data? with
      | none => simp
      | some piece => simp [limited, hlimit]
    · -- the limit has been reached, whatever follows
      rw [if_neg hlimit]
      cases (r :: rs).filterMap Protected12.data? with
      | nil => rfl
      | cons piece pieces => rw [limited, if_neg hlimit]

theorem sealAll12_take (rs : List Protected12) : ∀ (sequence k : Nat),
    (sealAll12 c suite keys sequence rs).take k = sealAll12 c suite keys sequence (rs.take k) := by
  induction rs with
  | nil =>
    intro sequence k
    simp [sealAll12]
  | cons r rs ih =>
    intro sequence k
    cases k with
    | zero => rfl
    | succ k => rw [sealAll12, take_succ_cons, take_succ_cons, sealAll12, ih]

end Rounds

theorem length_clientIV (c : TLSPrimitives) (suite : Suite12)
    (masterSecret clientRandom serverRandom : Bytes) :
    (clientKeys12 c suite masterSecret clientRandom serverRandom).iv.length =
      suite.fixedIVLength := by
  rw [clientKeys12, length_take, length_drop, keyBlock12, length_prf]
  omega

theorem decrypt12_eq (c : TLSPrimitives) (suite : Suite12) (stream masterSecret clientRandom
    serverRandom : Bytes) :
    decrypt12 c stream suite.id masterSecret clientRandom serverRandom =
      recordLoop Decrypting12.data
        (turn12 c suite.entry (clientKeys12 c suite masterSecret clientRandom serverRandom).key
          (clientKeys12 c suite masterSecret clientRandom serverRandom).iv)
            ⟨false, 0, []⟩ stream := by
  have hlength : 2 * suite.entry.keyLen + 2 * suite.entry.ivLen =
      suite.keyLength + suite.keyLength + suite.fixedIVLength + suite.fixedIVLength := by
    show 2 * suite.keyLength + 2 * suite.fixedIVLength = _
    omega
  have hblock : tls12PRF c suite.entry.hash masterSecret "key expansion"
      (serverRandom ++ clientRandom) (2 * suite.entry.keyLen + 2 * suite.entry.ivLen) =
        .ok (keyBlock12 c suite masterSecret clientRandom serverRandom) := by
    rw [tls12PRF_eq, hlength]
    rfl
  have hsize : (keyBlock12 c suite masterSecret clientRandom serverRandom).length =
      2 * suite.entry.keyLen + 2 * suite.entry.ivLen := by
    rw [keyBlock12, length_prf, hlength]
  rw [decrypt12, suite.lookup_id]
  dsimp only
  rw [hblock, ok_bind, slice_eq (Nat.zero_le _) (by omega), ok_bind,
    slice_eq (by omega) (by omega), ok_bind]
  have hiv : ((keyBlock12 c suite masterSecret clientRandom serverRandom).take
      (2 * suite.entry.keyLen + suite.entry.ivLen)).drop (2 * suite.entry.keyLen) =
        (clientKeys12 c suite masterSecret clientRandom serverRandom).iv := by
    rw [drop_take, clientKeys12, Nat.add_sub_cancel_left, Nat.two_mul]
    rfl
  rw [hiv]
  rfl

/-- **TLS 1.2 streams are decrypted exactly.** For every suite of the table and
every client stream, cut behind any byte, `Decrypt12` returns the application
data of the complete records without an error; all of it, as long as it is
shorter than 2²⁰ bytes. -/
theorem decrypt12_exact (c : TLSPrimitives) (suite : Suite12)
    (masterSecret clientRandom serverRandom : Bytes) (stream : ClientStream12) (n : Nat) :
    let keys := clientKeys12 c suite masterSecret clientRandom serverRandom
    let pieces := stream.received c suite keys n
    decrypt12 c ((stream.put c suite keys).take n) suite.id masterSecret clientRandom serverRandom =
        .ok (limited [] pieces, none) ∧
      (pieces.flatten.length < 2 ^ 20 → limited [] pieces = pieces.flatten) := by
  intro keys pieces
  refine ⟨?_, ?_⟩
  · have hiv := length_clientIV c suite masterSecret clientRandom serverRandom
    rw [decrypt12_eq, ClientStream12.put, recordLoop_take]
    obtain ⟨k, hk⟩ : ∃ k, k = completeCount n (stream.records c suite keys) := ⟨_, rfl⟩
    have hpieces : pieces = (stream.sent.take (k - (stream.handshake.length + 1))).filterMap
        Protected12.data? := by
      rw [hk]
      rfl
    rw [← hk, hpieces, ClientStream12.records, take_append]
    have hplain : ∀ r ∈ stream.handshake.take k, r.contentType = contentTypeHandshake :=
      fun r hr => stream.handshake_type r (mem_of_mem_take hr)
    refine (run12_handshake _ _ hplain).trans ?_
    cases hrest : k - stream.handshake.length with
    | zero =>
      rw [Nat.sub_add_eq, hrest]
      rfl
    | succ j =>
      -- ChangeCipherSpec is complete
      rw [Nat.sub_add_eq, hrest, take_succ_cons, sealAll12_take, run12, runRecords,
        if_pos (by decide), turn12_plain _ rfl, ok_bind, stream.change_type]
      exact run12_sealed hiv _ 0 []
  · intro htotal
    exact limited_eq pieces [] htotal

/-! ### A request in two records -/

/-- A record of handshake or application data under TLS 1.2. -/
def protect (contentType : UInt8)
    (kind : contentType = contentTypeHandshake ∨ contentType = contentTypeApplicationData)
    (plaintext : Bytes) (fits : plaintext.length + 24 < 256 ^ 2) : Protected12 :=
  ⟨contentType, 0x0303, plaintext, [0, 0, 0, 0, 0, 0, 0, 5], kind, rfl, fits⟩

def requestStream : ClientStream12 where
  handshake := [⟨22, 0x0301, [1, 0, 0, 0], by decide⟩, ⟨22, 0x0303, [16, 0, 0, 0], by decide⟩]
  changeCipherSpec := ⟨20, 0x0303, [1], by decide⟩
  sent := [protect 22 (.inl rfl) [20, 0, 0, 0] (by decide),
    protect 23 (.inr rfl) (ascii "GET ") (by decide), protect 23 (.inr rfl) (ascii "/") (by decide),
    protect 23 (.inr rfl) (ascii "lost") (by decide)]
  handshake_type := by decide
  change_type := rfl

theorem decrypt12_exact_request :
    decrypt12 checkedPrimitives ((requestStream.put checkedPrimitives .ecdheRSAAES128GCM
        (clientKeys12 checkedPrimitives .ecdheRSAAES128GCM [7] [1] [2])).take 150)
        0xc02f [7] [1] [2] =
      .ok (ascii "GET /", none) := by
  have hexact := decrypt12_exact checkedPrimitives .ecdheRSAAES128GCM [7] [1] [2] requestStream 150
  have hpieces : requestStream.received checkedPrimitives .ecdheRSAAES128GCM
      (clientKeys12 checkedPrimitives .ecdheRSAAES128GCM [7] [1] [2]) 150 =
        [ascii "GET ", ascii "/"] := by decide +kernel
  obtain ⟨hresult, hall⟩ := hexact
  rw [hpieces] at hresult hall
  rw [hall (by decide)] at hresult
  exact hresult

end HeadlessClient.Capture
