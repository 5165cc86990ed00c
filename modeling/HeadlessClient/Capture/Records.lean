import HeadlessClient.Capture.QuicInitial
import HeadlessClient.Capture.Streams

/-!
# Capture — TLS records

What `Decrypt13` and `Decrypt12` of the capture tool have in common
(`stand/internal/wire/tls13.go`, `tls12.go`): `nextRecord`, and the loop that
takes record after record off a stream until enough data has been collected.
The two functions differ in what they do with ONE record, which is the `turn`
of `recordLoop`.

A captured stream ends anywhere. `recordLoop_take`: the loop on a stream that is
cut somewhere is a run over its complete records.
-/

namespace HeadlessClient.Capture

open Base Wire List

def contentTypeChangeCipherSpec : UInt8 := 20
def contentTypeAlert : UInt8 := 21
def contentTypeApplicationData : UInt8 := 23

/-! ## Cryptography -/

inductive Hash where
  | sha256
  | sha384
deriving DecidableEq, Repr

def Hash.size : Hash → Nat
  | .sha256 => 32
  | .sha384 => 48

inductive Cipher where
  | aesGCM
  | chacha20Poly1305
deriving DecidableEq, Repr

/-- `aead.Overhead()`, the same for both ciphers. -/
def overhead : Nat := 16

/-- The cryptographic functions of the libraries. -/
structure TLSPrimitives where
  /-- `hkdf.Expand`. -/
  expand : Hash → (secret info : Bytes) → (length : Nat) → Bytes
  /-- `hmac.New`, `Write` and `Sum`. -/
  hmac : Hash → (key message : Bytes) → Bytes
  /-- `Seal` and `Open` of a `cipher.AEAD`. -/
  aeadSeal : Cipher → (key nonce additional plaintext : Bytes) → Bytes
  aeadOpen : Cipher → (key nonce additional ciphertext : Bytes) → Option Bytes
  expand_length : ∀ hash secret info n, (expand hash secret info n).length = n
  hmac_length : ∀ hash key message, (hmac hash key message).length = hash.size
  seal_length : ∀ cipher key nonce additional plaintext,
    (aeadSeal cipher key nonce additional plaintext).length = plaintext.length + overhead
  open_seal : ∀ cipher key nonce additional plaintext,
    aeadOpen cipher key nonce additional (aeadSeal cipher key nonce additional plaintext) =
      some plaintext

/-- The errors of the two functions. -/
inductive TLSError where
  | notTLS13 (suite : UInt16)
  | notSupported (suite : UInt16)
  /-- `ErrTLSDecrypt`. -/
  | decrypt
deriving DecidableEq, Repr

/-- What the functions return: data, and an error next to it. -/
abbrev Decrypted := Bytes × Option TLSError

/-- The nonce of RFC 8446 and RFC 7905: the 64-bit sequence number, padded on
the left, is added to the IV. -/
def recordNonce (iv : Bytes) (sequence : Nat) : Bytes :=
  List.zipWith (· ^^^ ·) iv (List.replicate 4 0 ++ putUint 8 sequence)

theorem xorNonce_recordNonce {iv : Bytes} (hiv : iv.length = 12) (sequence : Nat) :
    xorNonce iv sequence = .ok (recordNonce iv sequence) := xorNonce_padded hiv sequence

/-! ## The loop -/

/-- `nextRecord`. The length field is in the five bytes that have been checked. -/
def nextRecord (stream : Bytes) : Option (Bytes × Bytes × Bytes) :=
  if stream.length < tlsRecordHeaderLen then none
  else
    let fin := tlsRecordHeaderLen + getUint ((stream.take 5).drop 3)
    if stream.length < fin then none
    else some (stream.take tlsRecordHeaderLen, (stream.take fin).drop tlsRecordHeaderLen,
      stream.drop fin)

theorem length_nextRecord {stream header body rest : Bytes}
    (h : nextRecord stream = some (header, body, rest)) : rest.length < stream.length := by
  unfold nextRecord at h
  split at h
  · cases h
  · dsimp only at h
    split at h
    · cases h
    · cases h
      rw [length_drop]
      unfold tlsRecordHeaderLen at *
      omega

/-- What a function decides about one record. -/
inductive Turn (σ : Type) where
  | next (s : σ)
  | done (result : Decrypted)

def Turn.elim {σ α : Type} (done : Decrypted → α) (next : σ → α) : Turn σ → α
  | .done result => done result
  | .next s => next s

section Loop

variable {σ : Type} (data : σ → Bytes)
  (turn : σ → (header body : Bytes) → Except WireError (Turn σ))

/-- One round of `for len(data) < maxStreamBytes`. -/
def recordRound (s : σ × Bytes) :
    Except WireError (Round (fun s : σ × Bytes => s.2.length) Decrypted s) :=
  if (data s.1).length < maxStreamBytes then
    match h : nextRecord s.2 with
    | none => .ok (.done (data s.1, none))
    | some (header, body, rest) => do
        let x ← turn s.1 header body
        .ok (x.elim .done fun s' => .next (s', rest) (length_nextRecord h))
  else .ok (.done (data s.1, none))

def recordLoop (s : σ) (stream : Bytes) : Except WireError Decrypted :=
  runLoop (fun s : σ × Bytes => s.2.length) (recordRound data turn) (s, stream)

end Loop

/-! ## Records on the wire -/

def recordHeader (contentType : UInt8) (version : UInt16) (length : Nat) : Bytes :=
  contentType :: (putUint 2 version.toNat ++ putUint 2 length)

structure Record where
  contentType : UInt8
  version : UInt16
  body : Bytes
  fits : body.length < 256 ^ 2

namespace Record

def header (r : Record) : Bytes := recordHeader r.contentType r.version r.body.length

def put (r : Record) : Bytes := r.header ++ r.body

theorem length_header (r : Record) : r.header.length = tlsRecordHeaderLen := by
  simp [header, recordHeader, tlsRecordHeaderLen]

theorem index_header (r : Record) : index WireError.panic r.header 0 = .ok r.contentType := rfl

theorem header_length_field (r : Record) : getUint (r.header.drop 3) = r.body.length := by
  have hdrop : r.header.drop 3 = putUint 2 r.body.length := by
    rw [header, recordHeader, drop_succ_cons, drop_left' (length_putUint _ _)]
  rw [hdrop, getUint_putUint r.fits]

theorem length_put (r : Record) : r.put.length = tlsRecordHeaderLen + r.body.length := by
  rw [put, length_append, r.length_header]

theorem nextRecord_put (r : Record) (t : Bytes) :
    nextRecord (r.put ++ t) = some (r.header, r.body, t) := by
  have hheader := r.length_header
  have hput : r.put ++ t = r.header ++ (r.body ++ t) := by rw [put, append_assoc]
  have htake : (r.put ++ t).take tlsRecordHeaderLen = r.header := by
    rw [hput, take_left' hheader]
  have hlength : (r.put ++ t).length = tlsRecordHeaderLen + r.body.length + t.length := by
    rw [length_append, r.length_put]
  have hfield : getUint (((r.put ++ t).take 5).drop 3) = r.body.length := by
    rw [show (r.put ++ t).take 5 = r.header from htake]
    exact r.header_length_field
  rw [nextRecord, if_neg (by omega), hfield]
  dsimp only
  rw [if_neg (by omega), htake, ← r.length_put, take_left, drop_left, put,
    drop_left' hheader]

theorem nextRecord_take (r : Record) (t : Bytes) {n : Nat} (hn : n < r.put.length) :
    nextRecord ((r.put ++ t).take n) = none := by
  have hheader := r.length_header
  have hlength : ((r.put ++ t).take n).length = n := by
    rw [length_take, length_append]
    omega
  rw [nextRecord, hlength]
  by_cases hshort : n < tlsRecordHeaderLen
  · rw [if_pos hshort]
  · have hfield : getUint ((((r.put ++ t).take n).take 5).drop 3) = r.body.length := by
      have htake : ((r.put ++ t).take n).take 5 = r.header := by
        rw [take_take, Nat.min_eq_left (show 5 ≤ n from Nat.not_lt.mp hshort), put, append_assoc]
        exact take_left' hheader
      rw [htake]
      exact r.header_length_field
    rw [if_neg hshort, hfield]
    dsimp only
    rw [if_pos (by rw [← r.length_put]; exact hn)]

end Record

/-! ## A stream that is cut -/

/-- How many records are complete in the first `n` bytes. -/
def completeCount : Nat → List Record → Nat
  | _, [] => 0
  | n, r :: rs => if r.put.length ≤ n then completeCount (n - r.put.length) rs + 1 else 0

section Runs

variable {σ : Type} (data : σ → Bytes)
  (turn : σ → (header body : Bytes) → Except WireError (Turn σ))

/-- The loop, on records. -/
def runRecords : σ → List Record → Except WireError Decrypted
  | s, [] => .ok (data s, none)
  | s, r :: rs =>
    if (data s).length < maxStreamBytes then do
      let x ← turn s r.header r.body
      x.elim .ok fun s' => runRecords s' rs
    else .ok (data s, none)

variable {data turn}

theorem recordLoop_none {s : σ} {stream : Bytes} (h : nextRecord stream = none) :
    recordLoop data turn s stream = .ok (data s, none) := by
  apply runLoop_done
  unfold recordRound
  split
  · split
    · rfl
    · rename_i hsome
      rw [h] at hsome
      cases hsome
  · rfl

theorem recordRound_put (s : σ) (r : Record) (t : Bytes)
    (hlimit : (data s).length < maxStreamBytes) :
    recordRound data turn (s, r.put ++ t) = (do
      let x ← turn s r.header r.body
      .ok (x.elim .done fun s' => .next (s', t) (length_nextRecord (r.nextRecord_put t)))) := by
  unfold recordRound
  rw [if_pos hlimit]
  split
  · rename_i hnone
    rw [r.nextRecord_put] at hnone
    cases hnone
  · rename_i header body rest hsome
    rw [r.nextRecord_put] at hsome
    cases hsome
    rfl

theorem recordLoop_put (s : σ) (r : Record) (t : Bytes) :
    recordLoop data turn s (r.put ++ t) =
      if (data s).length < maxStreamBytes then do
        let x ← turn s r.header r.body
        x.elim .ok fun s' => recordLoop data turn s' t
      else .ok (data s, none) := by
  by_cases hlimit : (data s).length < maxStreamBytes
  · have hround := @recordRound_put σ data turn s r t hlimit
    rw [if_pos hlimit]
    cases hturn : turn s r.header r.body with
    | error e =>
      rw [hturn] at hround
      exact runLoop_error hround
    | ok x =>
      rw [hturn] at hround
      cases x with
      | done result => exact runLoop_done hround
      | next s' => exact runLoop_next hround
  · rw [if_neg hlimit]
    apply runLoop_done
    unfold recordRound
    rw [if_neg hlimit]

/-- **A stream that is cut is its complete records.** -/
theorem recordLoop_take (rs : List Record) : ∀ (n : Nat) (s : σ),
    recordLoop data turn s ((rs.flatMap Record.put).take n) =
      runRecords data turn s (rs.take (completeCount n rs)) := by
  induction rs with
  | nil =>
    intro n s
    rw [flatMap_nil, take_nil, take_nil]
    exact recordLoop_none rfl
  | cons r rs ih =>
    intro n s
    rw [flatMap_cons, completeCount]
    by_cases hwhole : r.put.length ≤ n
    · rw [if_pos hwhole, take_append, take_of_length_le hwhole, recordLoop_put,
        take_succ_cons, runRecords]
      simp only [ih]
    · rw [if_neg hwhole, take_zero]
      exact recordLoop_none (r.nextRecord_take _ (Nat.not_le.mp hwhole))

end Runs

/-! ## The limit -/

/-- The data of one record after another, until there is enough. -/
def limited : Bytes → List Bytes → Bytes
  | collected, [] => collected
  | collected, piece :: pieces =>
    if collected.length < maxStreamBytes then limited (collected ++ piece) pieces else collected

theorem limited_eq (pieces : List Bytes) : ∀ collected : Bytes,
    (collected ++ pieces.flatten).length < maxStreamBytes →
      limited collected pieces = collected ++ pieces.flatten := by
  induction pieces with
  | nil =>
    intro collected _
    simp [limited]
  | cons piece pieces ih =>
    intro collected h
    have hshort : collected.length < maxStreamBytes := by
      rw [length_append] at h
      omega
    rw [flatten_cons, ← append_assoc] at h ⊢
    rw [limited, if_pos hshort, ih _ h]

/-! ## A model of the primitives -/

/-- The tag of `checkedPrimitives`: it names the key and adds up the rest. -/
def checkedTag (key nonce additional : Bytes) : Bytes :=
  key.headD 0 :: putUint 15 (getUint nonce + getUint additional)

theorem length_checkedTag (key nonce additional : Bytes) :
    (checkedTag key nonce additional).length = overhead := by
  simp [checkedTag, overhead]

/-- Functions that satisfy the laws, and reject another key. -/
def checkedPrimitives : TLSPrimitives where
  expand _ secret _ n := (secret ++ List.replicate n 0).take n
  hmac hash key message := (key ++ message ++ List.replicate hash.size 0).take hash.size
  aeadSeal _ key nonce additional plaintext := plaintext ++ checkedTag key nonce additional
  aeadOpen _ key nonce additional ciphertext :=
    if ciphertext.drop (ciphertext.length - overhead) = checkedTag key nonce additional then
      some (ciphertext.take (ciphertext.length - overhead))
    else none
  expand_length _ _ _ _ := by simp
  hmac_length _ _ _ := by
    rw [length_take, length_append, length_replicate]
    omega
  seal_length _ _ _ _ _ := by rw [length_append, length_checkedTag]
  open_seal _ _ _ _ _ := by
    rw [length_append, length_checkedTag, Nat.add_sub_cancel, drop_left, take_left, if_pos rfl]

end HeadlessClient.Capture
