import HeadlessClient.Capture.HelloSafety

/-!
# Capture — the layout of a hello

How a TLS or DTLS hello is laid out in a record, as values that can be encoded:
`Framing` is the record layer, `Fields` the message up to its extensions,
`RawExtension` one extension. `parseHello_head` reads everything in front of the
extensions, whatever follows; `parseExtensions_block` reads the block.

The parser's behaviour on a record that is CUT SHORT is stated next to it:
`parseHello_head_short`, `parseExtensions_short`. Every cut is reported as truncated,
except one: a record that ends where the extensions would begin.
-/

namespace HeadlessClient.Capture

open Base Wire List

/-! ## The record layer -/

inductive Framing where
  | tls (version : UInt16) (other : isDTLSVersion version = false)
  /-- A DTLS record header also has an epoch and a sequence number, 8 bytes
  together; the handshake header has the number of the message. -/
  | dtls (version : UInt16) (known : isDTLSVersion version = true) (epochAndSequence : Bytes)
      (size : epochAndSequence.length = 8) (messageSeq : UInt16)

namespace Framing

def isDTLS : Framing → Bool
  | .tls .. => false
  | .dtls .. => true

def version : Framing → UInt16
  | .tls version _ => version
  | .dtls version .. => version

def messageSeq : Framing → UInt16
  | .tls .. => 0
  | .dtls _ _ _ _ messageSeq => messageSeq

/-- The epoch and sequence number, which a TLS record does not have. -/
def numbers : Framing → Bytes
  | .tls .. => []
  | .dtls _ _ epochAndSequence .. => epochAndSequence

theorem isDTLSVersion_version (f : Framing) : isDTLSVersion f.version = f.isDTLS := by
  cases f with
  | tls version other => exact other
  | dtls version known numbers size messageSeq => exact known

def header (f : Framing) (n : Nat) : Bytes :=
  contentTypeHandshake :: (putUint 2 f.version.toNat ++ (f.numbers ++ putUint 2 n))

theorem length_header (f : Framing) (n : Nat) :
    (f.header n).length = recordHeaderLen f.isDTLS := by
  cases f with
  | tls version other => simp [header, numbers, recordHeaderLen, isDTLS, tlsRecordHeaderLen]
  | dtls version known numbers size messageSeq =>
    simp [header, Framing.numbers, size, recordHeaderLen, isDTLS, dtlsRecordHeaderLen]

/-- What DTLS adds to the header of a handshake message: its number, and that
it is one fragment. -/
def fragmentHeader (f : Framing) (n : Nat) : Bytes :=
  match f with
  | .tls .. => []
  | .dtls _ _ _ _ messageSeq => putUint 2 messageSeq.toNat ++ (putUint 3 0 ++ (putUint 3 n ++ []))

/-- The header of an unfragmented handshake message of `n` bytes. -/
def handshakeHeader (f : Framing) (messageType : UInt8) (n : Nat) : Bytes :=
  [messageType] ++ (putUint 3 n ++ f.fragmentHeader n)

end Framing

theorem isDTLSVersion_tls10 : isDTLSVersion 0x0301 = false := rfl

theorem isDTLSVersion_dtls12 : isDTLSVersion versionDTLS12 = true := rfl

theorem isDTLSVersion_dtls10 : isDTLSVersion versionDTLS10 = true := rfl

theorem uint16_putUint (v : UInt16) : uint16 (putUint 2 v.toNat) = v := by
  rw [uint16, getUint_putUint v.toNat_lt, UInt16.ofNat_toNat]

theorem index_header (f : Framing) (n : Nat) (payload : Bytes) :
    index WireError.panic (f.header n ++ payload) 0 = .ok contentTypeHandshake := rfl

theorem slice_header (f : Framing) (n : Nat) (payload : Bytes) :
    slice WireError.panic (f.header n ++ payload) 1 3 = .ok (putUint 2 f.version.toNat) := by
  have hmiddle : f.header n ++ payload = [contentTypeHandshake] ++
      (putUint 2 f.version.toNat ++ (f.numbers ++ putUint 2 n ++ payload)) := by
    simp [Framing.header]
  exact slice_at hmiddle rfl (by simp)

/-- **Behind the record header.** -/
theorem parseHello_header (f : Framing) (n : Nat) (payload : Bytes) :
    parseHello (f.header n ++ payload) = (do
      ensure (1 ≤ payload.length) .truncated
      let (hello, _) ← readHello (f.header n ++ payload) f.version f.isDTLS
        ⟨f.header n ++ payload, (f.header n).length⟩
      .ok hello) := by
  have hlen := f.length_header n
  have hfive : tlsRecordHeaderLen ≤ recordHeaderLen f.isDTLS := by
    cases f.isDTLS <;> decide
  have htotal : decide (recordHeaderLen f.isDTLS + 1 ≤ (f.header n ++ payload).length) =
      decide (1 ≤ payload.length) := by
    rw [length_append, hlen, decide_eq_decide]
    omega
  have htls : tlsRecordHeaderLen ≤ (f.header n ++ payload).length := by
    rw [length_append]
    omega
  simp only [parseHello, decide_eq_true htls, index_header, slice_header, uint16_putUint,
    f.isDTLSVersion_version, htotal, decide_true, ensure_true, hlen, ok_bind]

theorem parseHello_short {record : Bytes} (h : record.length < tlsRecordHeaderLen) :
    parseHello record = .error .truncated := by
  rw [parseHello, decide_eq_false (Nat.not_le.mpr h), ensure_false, error_bind]

variable {n : Nat} {r : ByteReader}

theorem exact_readMessageSeq (f : Framing) (hn : n < 256 ^ 3) :
    Exact (readMessageSeq f.isDTLS n) (f.fragmentHeader n) f.messageSeq := by
  cases f with
  | tls version other => exact Exact.pure 0
  | dtls version known numbers size messageSeq =>
    refine (exact_u16 messageSeq).bind ((exact_u24 (by decide)).bind ((exact_u24 hn).bind ?_))
    exact Exact.check (by simp) _ (Exact.pure messageSeq)

theorem exact_handshakeHeader (f : Framing) {messageType : UInt8}
    (htype : messageType = handshakeClientHello ∨ messageType = handshakeServerHello)
    (hn : n < 256 ^ 3) :
    Exact (readHandshakeHeader f.isDTLS) (f.handshakeHeader messageType n)
      (messageType, f.messageSeq) := by
  refine (exact_u8 messageType).bind (Exact.check (decide_eq_true htype) _ ?_)
  refine (exact_u24 hn).bind ?_
  exact (exact_readMessageSeq f hn).andThen (Exact.pure _)

/-! ## The fields in front of the extensions -/

/-- Two-byte numbers one behind another. -/
def putUint16s (values : List UInt16) : Bytes := values.flatMap fun v => putUint 2 v.toNat

theorem length_putUint16s (values : List UInt16) :
    (putUint16s values).length = 2 * values.length := by
  induction values with
  | nil => rfl
  | cons v values ih =>
    simp only [putUint16s, flatMap_cons, length_append, length_putUint, length_cons] at ih ⊢
    omega

/-- **One item a round**: a loop that starts behind `head` collects the values
of the items there. -/
theorem runLoop_scan {α β : Type} {put : α → Bytes} {value : α → β} {head : Bytes}
    {items : List α} {buf : Bytes} {start : Nat} (hbuf : buf = head ++ items.flatMap put)
    (hstart : start = head.length)
    {round : (s : Scan β) → Except WireError (Round (Scan.unread buf) (List β) s)}
    (hnext : ∀ a ∈ items, ∀ before after found, buf = before ++ (put a ++ after) →
      ∃ smaller, round ⟨before.length, found⟩ =
        .ok (.next ⟨before.length + (put a).length, found ++ [value a]⟩ smaller))
    (hdone : ∀ found, round ⟨buf.length, found⟩ = .ok (.done found)) :
    runLoop (Scan.unread buf) round ⟨start, []⟩ = .ok (items.map value) := by
  let state (seen : List α) : Scan β := ⟨(head ++ seen.flatMap put).length, seen.map value⟩
  have hfirst : state [] = ⟨start, []⟩ := by simp [state, hstart]
  rw [← hfirst]
  refine runLoop_items state items (fun seen a rest hitems => ?_) ?_
  · have hsplit : buf = (head ++ seen.flatMap put) ++ (put a ++ rest.flatMap put) := by
      rw [hbuf, hitems, flatMap_append, flatMap_cons, append_assoc]
    have hnow : state (seen ++ [a]) =
        ⟨(head ++ seen.flatMap put).length + (put a).length, seen.map value ++ [value a]⟩ := by
      simp [state, Nat.add_assoc]
    rw [hnow]
    exact hnext a (by rw [hitems]; simp) _ _ _ hsplit
  · have hend : state items = ⟨buf.length, items.map value⟩ := by rw [hbuf]
    rw [hend]
    exact hdone _

/-- `uint16List` reads back two-byte numbers. -/
theorem uint16List_putUint16s (values : List UInt16) :
    uint16List (putUint16s values) = .ok values := by
  have hbuf : putUint16s values = [] ++ values.flatMap fun v => putUint 2 v.toNat := rfl
  have hrun : uint16List (putUint16s values) = .ok (values.map id) := by
    refine runLoop_scan hbuf rfl (fun v _ before after found hsplit => ?_) fun found => ?_
    · have hlen : before.length + 1 < (putUint16s values).length := by
        rw [hsplit]
        simp only [length_append, length_putUint]
        omega
      unfold uint16Round
      rw [dif_pos hlen, slice_at hsplit rfl (by simp), ok_bind, uint16_putUint]
      exact ⟨_, rfl⟩
    · exact dif_neg (by simp)
  rwa [map_id] at hrun

/-! ### Cipher suites and compression methods -/

/-- What the client offers, or what the server chose. -/
inductive Suites where
  | offered (suites : List UInt16) (methods : List UInt8) (suites_fit : 2 * suites.length < 256 ^ 2)
      (methods_fit : methods.length < 256)
  | chosen (suite : UInt16) (method : UInt8)

namespace Suites

def isClient : Suites → Bool
  | .offered .. => true
  | .chosen .. => false

def messageType : Suites → UInt8
  | .offered .. => handshakeClientHello
  | .chosen .. => handshakeServerHello

def cipherSuites : Suites → List UInt16
  | .offered suites .. => suites
  | .chosen suite _ => [suite]

def compressionMethods : Suites → List UInt8
  | .offered _ methods .. => methods
  | .chosen _ method => [method]

def put : Suites → Bytes
  | .offered suites methods .. => vec 2 (putUint16s suites) ++ (vec 1 methods ++ [])
  | .chosen suite method => putUint 2 suite.toNat ++ ([method] ++ [])

theorem messageType_cases (s : Suites) :
    s.messageType = handshakeClientHello ∨ s.messageType = handshakeServerHello := by
  cases s with
  | offered suites methods suites_fit methods_fit => exact .inl rfl
  | chosen suite method => exact .inr rfl

theorem isClient_eq (s : Suites) :
    decide (s.messageType = handshakeClientHello) = s.isClient := by
  cases s with
  | offered suites methods suites_fit methods_fit => rfl
  | chosen suite method => rfl

theorem exact (s : Suites) :
    Exact (readSuites s.isClient) s.put (s.cipherSuites, s.compressionMethods) := by
  cases s with
  | offered suites methods suites_fit methods_fit =>
    have hsuites : (putUint16s suites).length < 256 ^ 2 := by
      rw [length_putUint16s]
      exact suites_fit
    refine Exact.vec16 hsuites ?_
    rw [toNat_ofNat_length16 hsuites]
    refine (exact_bytes (Nat.le_of_lt hsuites)).bind ?_
    have hlist : Exact (StateT.lift (uint16List (putUint16s suites)) : Parser (List UInt16)) []
        suites := by
      rw [uint16List_putUint16s]
      exact Exact.pure suites
    refine hlist.bind (Exact.vec8 ?_)
    rw [toNat_ofNat_length8 methods_fit]
    exact (exact_bytes (Nat.le_trans (Nat.le_of_lt methods_fit) (by decide))).bind (Exact.pure _)
  | chosen suite method =>
    exact (exact_u16 suite).bind ((exact_u8 method).bind (Exact.pure _))

end Suites

/-! ### The fields -/

structure Fields where
  helloVersion : UInt16
  random : Bytes
  sessionID : Bytes
  /-- Written only where the layout has a cookie. -/
  cookie : Bytes
  suites : Suites
  random_length : random.length = helloRandomLen
  sessionID_fits : sessionID.length < 256
  cookie_fits : cookie.length < 256

namespace Fields

def putCookie (m : Fields) (isDTLS : Bool) : Bytes :=
  if isDTLS && m.suites.isClient then vec 1 m.cookie ++ [] else []

def put (m : Fields) (isDTLS : Bool) : Bytes :=
  putUint 2 m.helloVersion.toNat ++
    (m.random ++ (vec 1 m.sessionID ++ (m.putCookie isDTLS ++ m.suites.put)))

def cookieLen (m : Fields) (isDTLS : Bool) : Nat :=
  if isDTLS && m.suites.isClient then m.cookie.length else 0

def report (m : Fields) (isDTLS : Bool) (hello : Hello) : Hello :=
  { hello with
    helloVersion := m.helloVersion, random := m.random, sessionIDLen := m.sessionID.length,
    cookieLen := m.cookieLen isDTLS, cipherSuites := m.suites.cipherSuites,
    compressionMethods := m.suites.compressionMethods }

theorem exact_cookie (m : Fields) (isDTLS : Bool) :
    Exact (readCookie isDTLS m.suites.isClient) (m.putCookie isDTLS) (m.cookieLen isDTLS) := by
  unfold readCookie putCookie cookieLen
  split
  · refine Exact.vec8 ?_
    rw [toNat_ofNat_length8 m.cookie_fits]
    exact (exact_skip (Nat.le_trans (Nat.le_of_lt m.cookie_fits) (by decide))).bind (Exact.pure _)
  · exact Exact.pure 0

theorem exact (m : Fields) (isDTLS : Bool) (hello : Hello) :
    Exact (parseHelloFields hello isDTLS m.suites.isClient) (m.put isDTLS)
      (m.report isDTLS hello) := by
  have hrandom : Exact (Parser.bytes m.random.length) m.random m.random :=
    exact_bytes (by rw [m.random_length]; decide)
  rw [m.random_length] at hrandom
  refine (exact_u16 m.helloVersion).bind (hrandom.bind (Exact.vec8 ?_))
  rw [toNat_ofNat_length8 m.sessionID_fits]
  refine (exact_skip (Nat.le_trans (Nat.le_of_lt m.sessionID_fits) (by decide))).bind ?_
  refine (m.exact_cookie isDTLS).bind ?_
  exact m.suites.exact.andThen (Exact.pure _)

end Fields

theorem Fields.nil_fits : ([] : Bytes).length < 256 := by decide

/-- A ClientHello that offers one suite, without a session. -/
def Fields.minimal (suite : UInt16) : Fields where
  helloVersion := 0x0303
  random := List.replicate 32 9
  sessionID := []
  cookie := []
  suites := .offered [suite] [1, 0] (by simp) (by simp)
  random_length := rfl
  sessionID_fits := nil_fits
  cookie_fits := nil_fits

/-! ## Everything in front of the extensions -/

/-- The handshake message up to its extensions, given the length of its body. -/
def putHead (f : Framing) (m : Fields) (n : Nat) : Bytes :=
  f.handshakeHeader m.suites.messageType n ++ m.put f.isDTLS

/-- The hello as it stands when the extensions are read. -/
def headReport (f : Framing) (m : Fields) (record : Bytes) : Hello :=
  m.report f.isDTLS
    { kind := helloKind f.isDTLS m.suites.messageType, recordVersion := f.version,
      messageSeq := f.messageSeq, raw := record }

/-- `readHello` up to the extensions. -/
def readHead (record : Bytes) (version : UInt16) (isDTLS : Bool) : Parser Hello := do
  let (messageType, messageSeq) ← readHandshakeHeader isDTLS
  parseHelloFields
    { kind := helloKind isDTLS messageType, recordVersion := version, messageSeq, raw := record }
    isDTLS (messageType = handshakeClientHello)

theorem readHello_eq (record : Bytes) (version : UInt16) (isDTLS : Bool) (r : ByteReader) :
    readHello record version isDTLS r =
      (readHead record version isDTLS r >>= fun x => parseExtensions x.1 x.2) := by
  change (readHandshakeHeader isDTLS r >>= _) = ((readHandshakeHeader isDTLS r >>= _) >>= _)
  cases readHandshakeHeader isDTLS r with
  | error e => rfl
  | ok x => rfl

theorem exact_readHead (f : Framing) (m : Fields) (hn : n < 256 ^ 3) (record : Bytes) :
    Exact (readHead record f.version f.isDTLS) (putHead f m n) (headReport f m record) := by
  refine (exact_handshakeHeader f m.suites.messageType_cases hn).bind ?_
  dsimp only
  rw [m.suites.isClient_eq]
  exact m.exact f.isDTLS _

theorem putHead_ne_nil (f : Framing) (m : Fields) (n : Nat) : putHead f m n ≠ [] :=
  cons_ne_nil _ _

/-- **In front of the extensions** the record is read as `headReport`, whatever
follows. -/
theorem parseHello_head (f : Framing) (m : Fields) (hn : n < 256 ^ 3) (k : Nat)
    {record rest : Bytes} (hrecord : record = f.header k ++ (putHead f m n ++ rest)) :
    parseHello record = (do
      let (hello, _) ← parseExtensions (headReport f m record)
        ⟨record, (f.header k ++ putHead f m n).length⟩
      .ok hello) := by
  have hpos := length_pos_iff.mpr (putHead_ne_nil f m n)
  have hpayload : 1 ≤ (putHead f m n ++ rest).length := by
    rw [length_append]
    omega
  have hrest : (⟨record, (f.header k).length⟩ : ByteReader).rest = putHead f m n ++ rest := by
    rw [ByteReader.rest, hrecord, drop_left]
  have hhead := (exact_readHead f m hn record).takes _ _ hrest
  have hparse := parseHello_header f k (putHead f m n ++ rest)
  rw [← hrecord, decide_eq_true hpayload, ensure_true, ok_bind, readHello_eq, hhead,
    ok_bind] at hparse
  rw [hparse, length_append]
  rfl

theorem parseHello_head_short (f : Framing) (m : Fields) (hn : n < 256 ^ 3) (k : Nat)
    {part missing : Bytes} (h : part ++ missing = putHead f m n) (hne : missing ≠ []) :
    parseHello (f.header k ++ part) = .error .truncated := by
  rw [parseHello_header]
  by_cases hpart : 1 ≤ part.length
  · have hrest : (⟨f.header k ++ part, (f.header k).length⟩ : ByteReader).rest = part := by
      rw [ByteReader.rest, drop_left]
    have hhead := (exact_readHead f m hn (f.header k ++ part)).short _ missing
      (by rw [hrest]; exact h) hne
    rw [decide_eq_true hpart, ensure_true, ok_bind, readHello_eq, hhead]
    rfl
  · rw [decide_eq_false hpart, ensure_false, error_bind]

/-! ## The extensions -/

structure RawExtension where
  type : UInt16
  body : Bytes
  fits : body.length < 256 ^ 2

namespace RawExtension

def put (e : RawExtension) : Bytes := putUint 2 e.type.toNat ++ (vec 2 e.body ++ [])

/-- How the extension is listed when it starts at `offset`. -/
def listed (e : RawExtension) (offset : Nat) : Extension :=
  ⟨e.type, UInt16.ofNat e.body.length, offset⟩

theorem exact (e : RawExtension) (offset : Nat) :
    Exact (readExtension offset) e.put (e.listed offset, e.body) := by
  refine (exact_u16 e.type).bind (Exact.vec16 e.fits ?_)
  rw [toNat_ofNat_length16 e.fits]
  exact (exact_bytes (Nat.le_of_lt e.fits)).bind (Exact.pure _)

theorem length_put (e : RawExtension) : e.put.length = 4 + e.body.length := by
  simp only [put, length_append, length_putUint, length_vec, length_nil]
  omega

end RawExtension

def putExtensions (es : List RawExtension) : Bytes := es.flatMap RawExtension.put

/-- The extensions of a block as they are listed, the first at `offset`. -/
def listAll : Nat → List RawExtension → List Extension
  | _, [] => []
  | offset, e :: es => e.listed offset :: listAll (offset + e.put.length) es

/-- What the loop over the extensions computes, the first of them at `offset`. -/
def addAll : Hello → Nat → List RawExtension → Except WireError Hello
  | hello, _, [] => .ok hello
  | hello, offset, e :: es => do
      let hello ← addExtension hello (e.listed offset) e.body
      addAll hello (offset + e.put.length) es

theorem addAll_returns (es : List RawExtension) : ∀ (hello : Hello) (offset : Nat),
    Returns (addAll hello offset es) := by
  induction es with
  | nil => exact fun hello _ => .ok hello
  | cons e es ih =>
    intro hello offset
    exact (applyKnownExtension_returns _ _ _).bind fun hello' => ih hello' _

theorem runLoop_extensions (es : List RawExtension) :
    ∀ (hello : Hello) (r : ByteReader) (t : Bytes),
    r.rest = putExtensions es ++ t →
      runLoop _ (extensionRound (r.pos + (putExtensions es).length)) (hello, r) =
        (addAll hello r.pos es >>= fun hello' =>
          .ok (hello', r.advance (putExtensions es).length)) := by
  induction es with
  | nil =>
    intro hello r t _
    exact runLoop_done (extensionRound_done (Nat.le_refl _))
  | cons e es ih =>
    intro hello r t hr
    have hput : putExtensions (e :: es) = e.put ++ putExtensions es := flatMap_cons
    have hlen : (putExtensions (e :: es)).length = e.put.length + (putExtensions es).length := by
      rw [hput, length_append]
    have hpos := e.length_put
    rw [hput, append_assoc] at hr
    have hread := (e.exact r.pos).takes r _ hr
    have hround := extensionRound_next (s := (hello, r))
      (show r.pos < r.pos + (putExtensions (e :: es)).length by omega) hread
    obtain ⟨hello', hadd⟩ := applyKnownExtension_returns e.body
      { hello with extensions := hello.extensions ++ [e.listed r.pos] } e.type
    change addExtension hello (e.listed r.pos) e.body = .ok hello' at hadd
    rw [hadd, ok_bind] at hround
    have htail := ih hello' (r.advance e.put.length) t (ByteReader.rest_advance hr)
    have hfin : (r.advance e.put.length).pos + (putExtensions es).length =
        r.pos + (putExtensions (e :: es)).length := by
      rw [hlen, ← Nat.add_assoc]
      rfl
    rw [hfin, ByteReader.advance_advance, ← hlen] at htail
    rw [runLoop_next hround, htail, addAll, hadd, ok_bind]
    rfl

theorem buf_length_eq (h : 0 < r.remaining) : r.buf.length = r.pos + r.rest.length := by
  rw [← ByteReader.remaining_eq]
  unfold ByteReader.remaining at h ⊢
  omega

/-- **The extension block** is read extension by extension. -/
theorem parseExtensions_block (hello : Hello) {es : List RawExtension}
    (hes : (putExtensions es).length < 256 ^ 2) {t : Bytes}
    (hr : r.rest = vec 2 (putExtensions es) ++ t) :
    parseExtensions hello r = (addAll hello (r.pos + 2) es >>= fun hello' =>
      .ok (hello', r.advance (2 + (putExtensions es).length))) := by
  have hrem := remaining_of_rest hr
  rw [length_vec] at hrem
  have hbuf := buf_length_eq (r := r) (by omega)
  rw [vec, append_assoc, ← toNat_ofNat_length16 hes] at hr
  have htotal := (exact_u16 (UInt16.ofNat (putExtensions es).length)).takes r _ hr
  have hrest := ByteReader.rest_advance hr
  rw [length_putUint] at htotal hrest
  have hlen := remaining_of_rest hr
  rw [ByteReader.remaining_eq] at hlen
  have hfin : ¬ (r.advance 2).pos + (putExtensions es).length > (r.advance 2).buf.length := by
    simp only [ByteReader.advance, hbuf, hlen, length_putUint, length_append]
    omega
  unfold parseExtensions
  rw [if_neg (by omega), htotal, ok_bind]
  dsimp only
  rw [toNat_ofNat_length16 hes, if_neg hfin, runLoop_extensions es hello _ t hrest,
    ByteReader.advance_advance]
  rfl

theorem parseExtensions_short (hello : Hello) {block : Bytes} (hblock : block.length < 256 ^ 2)
    {missing : Bytes} (hr : r.rest ++ missing = vec 2 block) (hmissing : missing ≠ [])
    (hne : r.rest ≠ []) : parseExtensions hello r = .error .truncated := by
  have hpos : 0 < r.remaining := by
    rw [ByteReader.remaining_eq]
    exact length_pos_iff.mpr hne
  have hbuf := buf_length_eq hpos
  have hmore := length_pos_iff.mpr hmissing
  have htotal := congrArg List.length hr
  rw [length_append, length_vec] at htotal
  unfold parseExtensions
  rw [if_neg (by omega)]
  by_cases htwo : r.remaining < 2
  · rw [Parser.u16, if_pos htwo, error_bind]
  · -- the length is there, but not all that it announces
    rw [ByteReader.remaining_eq] at htwo
    have htake : (r.rest ++ missing).take 2 = r.rest.take 2 :=
      take_append_of_le_length (by omega)
    have hstart : r.rest.take 2 = putUint 2 (UInt16.ofNat block.length).toNat := by
      rw [toNat_ofNat_length16 hblock, ← htake, hr, vec, take_left' (length_putUint 2 _)]
    have hrest : r.rest = putUint 2 (UInt16.ofNat block.length).toNat ++ r.rest.drop 2 := by
      rw [← hstart, take_append_drop]
    have hread := (exact_u16 (UInt16.ofNat block.length)).takes r _ hrest
    rw [length_putUint] at hread
    rw [hread, ok_bind]
    dsimp only
    rw [toNat_ofNat_length16 hblock]
    refine if_pos ?_
    simp only [ByteReader.advance, hbuf]
    omega

/-! ## Whole records -/

/-- An unfragmented hello. The extension block may be missing altogether, which
is not the same as an empty one. -/
structure HelloRecord where
  framing : Framing
  fields : Fields
  extensions : Option (List RawExtension)
  fits : ∀ es, extensions = some es → (putExtensions es).length < 256 ^ 2

namespace HelloRecord

def block (h : HelloRecord) : Bytes :=
  match h.extensions with
  | none => []
  | some es => vec 2 (putExtensions es)

def bodyLength (h : HelloRecord) : Nat := (h.fields.put h.framing.isDTLS ++ h.block).length

/-- The handshake message up to the extension block. -/
def head (h : HelloRecord) : Bytes := putHead h.framing h.fields h.bodyLength

def header (h : HelloRecord) : Bytes := h.framing.header (h.head ++ h.block).length

def encode (h : HelloRecord) : Bytes := h.header ++ (h.head ++ h.block)

def blockOffset (h : HelloRecord) : Nat := (h.header ++ h.head).length

theorem bodyLength_le (h : HelloRecord) : h.bodyLength ≤ (h.head ++ h.block).length := by
  simp only [bodyLength, head, putHead, length_append]
  omega

theorem bodyLength_lt {h : HelloRecord} (hsize : h.encode.length ≤ 65536) :
    h.bodyLength < 256 ^ 3 := by
  have hle : h.bodyLength ≤ h.encode.length := by
    rw [encode, length_append]
    exact h.bodyLength_le.trans (Nat.le_add_left _ _)
  exact Nat.lt_of_le_of_lt (hle.trans hsize) (by decide)

/-- **A whole record**: the fields, then extension by extension. -/
theorem parseHello_encode (h : HelloRecord) (hn : h.bodyLength < 256 ^ 3) :
    parseHello h.encode = addAll (headReport h.framing h.fields h.encode) (h.blockOffset + 2)
      (h.extensions.getD []) := by
  have hparse := parseHello_head h.framing h.fields hn _
    (show h.encode = h.header ++ (h.head ++ h.block) from rfl)
  have hrest : (⟨h.encode, h.blockOffset⟩ : ByteReader).rest = h.block := by
    rw [ByteReader.rest, encode, blockOffset, ← append_assoc, drop_left]
  change parseHello h.encode = (parseExtensions _ ⟨h.encode, h.blockOffset⟩ >>= _) at hparse
  rw [hparse]
  cases hes : h.extensions with
  | none =>
    have hnil : h.block = [] := by rw [block, hes]
    have hrem : (⟨h.encode, h.blockOffset⟩ : ByteReader).remaining = 0 := by
      rw [ByteReader.remaining_eq, hrest, hnil]
      rfl
    rw [parseExtensions, if_pos hrem]
    rfl
  | some es =>
    have hblock : h.block = vec 2 (putExtensions es) ++ [] := by
      rw [block, hes, append_nil]
    rw [parseExtensions_block _ (h.fits es hes) (hrest.trans hblock)]
    obtain ⟨hello, hadd⟩ := addAll_returns es
      (headReport h.framing h.fields h.encode) (h.blockOffset + 2)
    rw [hadd]
    exact hadd.symm

/-- A TLS record cut short is truncated, unless the cut is where the extension
block begins. -/
theorem parseHello_cut (h : HelloRecord) (htls : h.framing.isDTLS = false)
    (hn : h.bodyLength < 256 ^ 3) {part missing : Bytes} (hcut : part ++ missing = h.encode)
    (hmissing : missing ≠ []) (hoffset : part.length ≠ h.blockOffset) :
    parseHello part = .error .truncated := by
  have hheader : h.header.length = tlsRecordHeaderLen := by
    rw [header, Framing.length_header, htls]
    rfl
  rcases append_eq_append_iff.mp hcut with ⟨more, hhead, -⟩ | ⟨rest, hpart, hrest⟩
  · by_cases hmore : more = []
    · -- only the record header is there
      rw [hmore, append_nil] at hhead
      have := parseHello_head_short h.framing h.fields hn (h.head ++ h.block).length
        (nil_append _) (putHead_ne_nil _ _ _)
      rw [append_nil] at this
      rw [← hhead]
      exact this
    · have hshort := congrArg List.length hhead
      rw [length_append, hheader] at hshort
      have := length_pos_iff.mpr hmore
      exact parseHello_short (by omega)
  · rw [hpart]
    rcases append_eq_append_iff.mp hrest.symm with ⟨more, hhead, -⟩ | ⟨part', hrest', hblock⟩
    · by_cases hmore : more = []
      · rw [hmore, append_nil] at hhead
        exact absurd (by rw [hpart, ← hhead]; rfl) hoffset
      · exact parseHello_head_short h.framing h.fields hn _ hhead.symm hmore
    · -- the head is there: the cut is within the block, and not at its start
      have hparse := parseHello_head h.framing h.fields hn (h.head ++ h.block).length
        (show part = h.header ++ (h.head ++ part') by rw [hpart, hrest'])
      have hpart' : part' ≠ [] := by
        intro hnil
        rw [hnil, append_nil] at hrest'
        exact hoffset (by rw [hpart, hrest']; rfl)
      have hreader : (⟨part, h.blockOffset⟩ : ByteReader).rest = part' := by
        rw [ByteReader.rest, hpart, hrest', blockOffset, ← append_assoc, drop_left]
      cases hes : h.extensions with
      | none =>
        rw [block, hes] at hblock
        exact absurd (append_eq_nil_iff.mp hblock.symm).2 hmissing
      | some es =>
        rw [block, hes] at hblock
        have hshort := parseExtensions_short (headReport h.framing h.fields part)
          (h.fits es hes) (by rw [hreader]; exact hblock.symm) hmissing
          (by rw [hreader]; exact hpart')
        rw [← hpart]
        refine hparse.trans ?_
        change (parseExtensions _ ⟨part, h.blockOffset⟩ >>= _) = _
        rw [hshort]
        rfl

/-- Cut where its extension block would begin, a record IS a hello: one without
extensions. -/
theorem parseHello_without_block (h : HelloRecord) (hsize : h.encode.length ≤ 65536) :
    parseHello (h.header ++ h.head) =
      .ok (headReport h.framing h.fields (h.header ++ h.head)) := by
  have hparse := parseHello_head h.framing h.fields (bodyLength_lt hsize)
    (h.head ++ h.block).length (show h.header ++ h.head = h.header ++ (h.head ++ []) by
      rw [append_nil])
  have hrem : (⟨h.header ++ h.head, h.blockOffset⟩ : ByteReader).remaining = 0 := Nat.sub_self _
  refine hparse.trans ?_
  change (parseExtensions _ ⟨h.header ++ h.head, h.blockOffset⟩ >>= _) = _
  rw [parseExtensions, if_pos hrem]
  rfl

end HelloRecord

end HeadlessClient.Capture
