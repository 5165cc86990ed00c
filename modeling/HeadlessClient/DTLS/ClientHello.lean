import HeadlessClient.DTLS.ExtensionList

/-!
# DTLS — the ClientHello and its snapshot

`handshake.MessageClientHello` with its wire codec, and
`negotiation.FinalizeClientHello`, which sends a hello through that codec before
and after the hook and keeps a snapshot of the bytes.

A hello that was decoded is CANONICAL: its fields fit their length bytes, its
compression methods are null and its extensions are stable. On canonical hellos
`validatedClientHello` is the identity, defined exactly on the hellos that fit
and whose extensions are acceptable (`validatedClientHello_eq_ok`). So
`FinalizeClientHello` hands on precisely what the hook returned
(`finalizeClientHello_eq_ok`).
-/

namespace HeadlessClient.DTLS

open Base Wire

/-! ## The message -/

/-- `handshake.Random`. The time is kept as the 32-bit seconds that
`MarshalFixed` writes. -/
structure Random where
  gmtUnixTime : UInt32
  randomBytes : Vector UInt8 28
deriving DecidableEq, Repr

def randomLength : Nat := 32

namespace Random

def marshalFixed (r : Random) : Bytes := putUint 4 r.gmtUnixTime.toNat ++ r.randomBytes.toList

def unmarshalFixed (data : Bytes) : Random where
  gmtUnixTime := UInt32.ofNat (getUint (data.take 4))
  randomBytes := Vector.ofFn fun i => data.getD (4 + i) 0

@[simp] theorem length_marshalFixed (r : Random) : r.marshalFixed.length = randomLength := by
  simp [marshalFixed, randomLength]

theorem unmarshalFixed_marshalFixed (r : Random) : unmarshalFixed r.marshalFixed = r := by
  obtain ⟨time, bytes⟩ := r
  have htime : getUint ((putUint 4 time.toNat ++ bytes.toList).take 4) = time.toNat := by
    rw [List.take_left' (length_putUint _ _), getUint_putUint (by simpa using time.toNat_lt)]
  simp only [unmarshalFixed, marshalFixed, mk.injEq]
  refine ⟨by rw [htime, UInt32.ofNat_toNat], ?_⟩
  ext i hi
  have hlen : bytes.toList.length = 28 := by simp
  rw [Vector.getElem_ofFn, List.getD_append_right _ _ _ _ (by simp), length_putUint,
    Nat.add_sub_cancel_left, List.getD_eq_getElem _ _ (by omega), Vector.getElem_toList]

end Random

open List

/-- `handshake.MessageClientHello`. A compression method is its ID. -/
structure MessageClientHello where
  version : UInt16
  random : Random
  sessionID : Bytes
  cookie : Bytes
  cipherSuiteIDs : List UInt16
  compressionMethods : Bytes
  extensions : List Value
deriving DecidableEq, Repr

namespace MessageClientHello

/-- The body up to the extensions, as `marshalTo` writes it: the suite count is
truncated to 16 bits, and the compression methods come out BACKWARDS. -/
def head (m : MessageClientHello) : Bytes :=
  putUint16 m.version ++ (m.random.marshalFixed ++ (vec 1 m.sessionID ++ (vec 1 m.cookie ++
    (putUint 2 (2 * m.cipherSuiteIDs.length) ++ m.cipherSuiteIDs.flatMap putUint16 ++
      vec 1 m.compressionMethods.reverse))))

def marshal (m : MessageClientHello) : Except Error Bytes :=
  if 255 < m.cookie.length then fail .cookieTooLong
  else if 255 < m.sessionID.length then fail .sessionIDTooLong
  else if 255 < m.compressionMethods.length then fail .compressionMethodsTooLong
  else do
    let extensions ← marshalList m.extensions
    .ok (m.head ++ extensions)

/-- The session ID and the cookie: a byte for the length, the bytes, and at
least one byte more behind them. -/
def readVariable (rest : Bytes) : Except Error (Bytes × Bytes) :=
  if rest.length ≤ 1 then fail .bufferTooSmall
  else
    let n := getUint (rest.take 1)
    if (rest.drop 1).length ≤ n then fail .bufferTooSmall
    else .ok ((rest.drop 1).take n, (rest.drop 1).drop n)

def decodeCipherSuiteIDs (buf : Bytes) : Except Error (List UInt16) :=
  if buf.length < 2 then fail .bufferTooSmall
  else
    let cipherSuitesCount := getUint (buf.take 2) / 2
    if buf.length < 2 * cipherSuitesCount + 2 then fail .bufferTooSmall
    else .ok (uint16s ((buf.drop 2).take (2 * cipherSuitesCount)))

/-- The cipher suites and what follows their declared length, odd or even. -/
def readCipherSuites (rest : Bytes) : Except Error (List UInt16 × Bytes) := do
  let ids ← decodeCipherSuiteIDs rest
  if rest.length < getUint (rest.take 2) + 2 then fail .bufferTooSmall
  else .ok (ids, rest.drop (getUint (rest.take 2) + 2))

def compressionMethodNull : UInt8 := 0

/-- `DecodeCompressionMethods` keeps the null method only. -/
def readCompressionMethods (rest : Bytes) : Except Error (Bytes × Bytes) :=
  if rest.length = 0 then fail .bufferTooSmall
  else
    let count := getUint (rest.take 1)
    if (rest.drop 1).length < count then fail .bufferTooSmall
    else .ok (((rest.drop 1).take count).filter (· = compressionMethodNull),
      (rest.drop 1).drop count)

def unmarshal (data : Bytes) : Except Error MessageClientHello :=
  if data.length < 2 + randomLength then fail .bufferTooSmall
  else do
    let (sessionID, rest) ← readVariable (data.drop (2 + randomLength))
    let (cookie, rest) ← readVariable rest
    let (cipherSuiteIDs, rest) ← readCipherSuites rest
    let (compressionMethods, rest) ← readCompressionMethods rest
    let extensions ← decodeExtensionList rest .clientHello
    .ok { version := getUint16 data
          random := .unmarshalFixed ((data.drop 2).take randomLength)
          sessionID, cookie, cipherSuiteIDs, compressionMethods, extensions }

/-! ## Canonical hellos -/

/-- A hello in the form in which `unmarshal` returns it. -/
structure Canonical (m : MessageClientHello) : Prop where
  sessionID : m.sessionID.length ≤ 255
  cookie : m.cookie.length ≤ 255
  cipherSuiteIDs : m.cipherSuiteIDs.length ≤ 0x7fff
  methods : m.compressionMethods.length ≤ 255
  null : ∀ c ∈ m.compressionMethods, c = compressionMethodNull
  stable : ∀ v ∈ m.extensions, v.Stable

def Fits (m : MessageClientHello) : Prop := marshalListSize m.extensions ≤ 2 + 0xffff

instance (m : MessageClientHello) : Decidable m.Fits :=
  inferInstanceAs (Decidable (marshalListSize m.extensions ≤ 2 + 0xffff))

variable {data : Bytes} {m : MessageClientHello}

theorem readVariable_eq_ok {a rest : Bytes} :
    readVariable data = .ok (a, rest) ↔
      (a.length ≤ 255 ∧ rest ≠ []) ∧ data = vec 1 a ++ rest := by
  simp only [readVariable, fail_guard, Except.ok.injEq, Prod.mk.injEq, Nat.not_le]
  constructor
  · rintro ⟨hone, hlt, ha, hrest⟩
    obtain ⟨hlen, hdata⟩ := (vec_append_iff rfl).mp ⟨by omega, Nat.le_of_lt hlt, ha, hrest⟩
    refine ⟨⟨by omega, ?_⟩, hdata⟩
    rintro rfl
    exact absurd (drop_eq_nil_iff.mp hrest) (Nat.not_le.mpr hlt)
  · rintro ⟨⟨hlen, hne⟩, rfl⟩
    have hpos := length_pos_iff.mpr hne
    have hval := getUint_take_vec (show a.length < 256 ^ 1 by omega) rest
    rw [hval, drop_vec]
    simp only [length_append, length_vec, take_left, drop_left]
    exact ⟨by omega, by omega, trivial, trivial⟩

theorem length_decodeCipherSuiteIDs {ids : List UInt16} (h : decodeCipherSuiteIDs data = .ok ids) :
    ids.length ≤ 0x7fff := by
  simp only [decodeCipherSuiteIDs, fail_guard, Except.ok.injEq] at h
  obtain ⟨htwo, hfit, rfl⟩ := h
  have hlt := getUint_lt (data.take 2)
  have hlen : (data.take 2).length = 2 := by rw [length_take]; omega
  have htake : ((data.drop 2).take (2 * (getUint (data.take 2) / 2))).length =
      2 * (getUint (data.take 2) / 2) := by
    rw [length_take, length_drop]
    omega
  have hcount := length_flatMap_putUint16
    (uint16s ((data.drop 2).take (2 * (getUint (data.take 2) / 2))))
  rw [flatMap_uint16s (by omega), htake] at hcount
  rw [hlen] at hlt
  omega

theorem readCipherSuites_append {ids : List UInt16} (h : ids.length ≤ 0x7fff) (rest : Bytes) :
    readCipherSuites (putUint 2 (2 * ids.length) ++ ids.flatMap putUint16 ++ rest) =
      .ok (ids, rest) := by
  have hcount := length_flatMap_putUint16 ids
  have hvec : putUint 2 (2 * ids.length) ++ ids.flatMap putUint16 ++ rest =
      vec 2 (ids.flatMap putUint16) ++ rest := by rw [vec, hcount]
  have hval := getUint_take_vec (show (ids.flatMap putUint16).length < 256 ^ 2 by omega) rest
  have htwice : 2 * ((ids.flatMap putUint16).length / 2) = (ids.flatMap putUint16).length := by
    omega
  have hids : decodeCipherSuiteIDs (vec 2 (ids.flatMap putUint16) ++ rest) = .ok ids := by
    simp only [decodeCipherSuiteIDs, fail_guard, hval, drop_vec, htwice, take_left,
      uint16s_flatMap, length_append, length_vec, and_true]
    omega
  have hdrop : (vec 2 (ids.flatMap putUint16) ++ rest).drop
      ((ids.flatMap putUint16).length + 2) = rest := by
    rw [Nat.add_comm, ← drop_drop, drop_vec, drop_left]
  rw [hvec, readCipherSuites, hids, ok_bind, hval, hdrop, if_neg]
  simp only [length_append, length_vec]
  omega

theorem readCompressionMethods_append {methods : Bytes} (h : methods.length ≤ 255)
    (hnull : ∀ c ∈ methods, c = compressionMethodNull) (rest : Bytes) :
    readCompressionMethods (vec 1 methods.reverse ++ rest) = .ok (methods, rest) := by
  have hsame : methods.reverse = methods := by
    rw [eq_replicate_of_mem hnull, reverse_replicate]
  have hval := getUint_take_vec (show methods.length < 256 ^ 1 by omega) rest
  have hfilter : methods.filter (· = compressionMethodNull) = methods := by
    simpa using hnull
  simp only [readCompressionMethods, fail_guard, hsame, hval, drop_vec,
    take_left, drop_left, length_append, length_vec, hfilter, and_true]
  omega

theorem readCompressionMethods_null {methods rest : Bytes}
    (h : readCompressionMethods data = .ok (methods, rest)) :
    methods.length ≤ 255 ∧ ∀ c ∈ methods, c = compressionMethodNull := by
  simp only [readCompressionMethods, fail_guard, Except.ok.injEq, Prod.mk.injEq] at h
  obtain ⟨hne, hfit, rfl, -⟩ := h
  have hlt := getUint_lt (data.take 1)
  have hlen : (data.take 1).length = 1 := by rw [length_take]; omega
  have hfilter := length_filter_le (fun c => decide (c = compressionMethodNull))
    ((data.drop 1).take (getUint (data.take 1)))
  rw [length_take] at hfilter
  rw [hlen] at hlt
  exact ⟨by omega, fun c hc => by simpa using (mem_filter.mp hc).2⟩

/-- **What was decoded is canonical**, and its extensions are acceptable. -/
theorem canonical_of_unmarshal (h : unmarshal data = .ok m) :
    m.Canonical ∧ Acceptable m.extensions := by
  rw [unmarshal, fail_guard, bind_eq_ok] at h
  obtain ⟨-, ⟨sid, rest₁⟩, hsid, h⟩ := h
  obtain ⟨cookie, rest₂, hcookie, h⟩ := step_ok h
  obtain ⟨ids, rest₃, hids, h⟩ := step_ok h
  obtain ⟨methods, rest₄, hmethods, h⟩ := step_ok h
  obtain ⟨extensions, hextensions, h⟩ := bind_eq_ok.mp h
  cases h
  obtain ⟨ids', hids', hpair⟩ := bind_eq_ok.mp hids
  obtain ⟨-, hpair⟩ := fail_guard.mp hpair
  cases hpair
  obtain ⟨hstable, hok⟩ := decodeExtensionList_eq_ok hextensions
  obtain ⟨hlen, hnull⟩ := readCompressionMethods_null hmethods
  exact ⟨⟨(readVariable_eq_ok.mp hsid).1.1, (readVariable_eq_ok.mp hcookie).1.1,
    length_decodeCipherSuiteIDs hids', hlen, hnull, hstable⟩, hok⟩

theorem unmarshal_head (hm : m.Canonical) {ext : Bytes} {x : MessageClientHello} :
    unmarshal (m.head ++ ext) = .ok x ↔
      ∃ values, decodeExtensionList ext .clientHello = .ok values ∧
        x = { m with extensions := values } := by
  obtain ⟨suites, hsuites⟩ : ∃ bytes : Bytes, putUint 2 (2 * m.cipherSuiteIDs.length) ++
      m.cipherSuiteIDs.flatMap putUint16 = bytes := ⟨_, rfl⟩
  have hne : ∀ rest : Bytes, suites ++ rest ≠ [] := by
    intro rest hnil
    rw [← hsuites] at hnil
    simp [putUint] at hnil
  have hhead :
      m.head ++ ext = putUint16 m.version ++ (m.random.marshalFixed ++ (vec 1 m.sessionID ++
      (vec 1 m.cookie ++ (suites ++ (vec 1 m.compressionMethods.reverse ++ ext))))) := by
    simp only [head, hsuites, append_assoc]
  have hlen : ¬(m.head ++ ext).length < 2 + randomLength := by
    rw [hhead]
    simp only [length_append, length_putUint16, Random.length_marshalFixed]
    omega
  have htwo : (m.head ++ ext).drop 2 = m.random.marshalFixed ++ (vec 1 m.sessionID ++
      (vec 1 m.cookie ++ (suites ++ (vec 1 m.compressionMethods.reverse ++ ext)))) := by
    rw [hhead, drop_left' (length_putUint16 _)]
  have hvariable : (m.head ++ ext).drop (2 + randomLength) = vec 1 m.sessionID ++
      (vec 1 m.cookie ++ (suites ++ (vec 1 m.compressionMethods.reverse ++ ext))) := by
    rw [← drop_drop, htwo, drop_left' (Random.length_marshalFixed _)]
  have hversion : getUint16 (m.head ++ ext) = m.version := by
    rw [hhead, getUint16_putUint16]
  have hrandom : Random.unmarshalFixed (((m.head ++ ext).drop 2).take randomLength) = m.random := by
    rw [htwo, take_left' (Random.length_marshalFixed _), Random.unmarshalFixed_marshalFixed]
  have hsid := readVariable_eq_ok.mpr ⟨⟨hm.sessionID, by simp [vec_ne_nil]⟩, hvariable⟩
  have hcookie := readVariable_eq_ok.mpr
    ⟨⟨hm.cookie, hne (vec 1 m.compressionMethods.reverse ++ ext)⟩, rfl⟩
  have hids := readCipherSuites_append hm.cipherSuiteIDs (vec 1 m.compressionMethods.reverse ++ ext)
  rw [hsuites] at hids
  have hmethods := readCompressionMethods_append hm.methods hm.null ext
  simp only [unmarshal, if_neg hlen, hsid, hcookie, hids, hmethods, ok_bind, hversion, hrandom,
    bind_eq_ok, Except.ok.injEq, eq_comm (b := x)]

/-- **Writing a canonical hello** fails only when its block is too long. -/
theorem marshal_eq_ok (hm : m.Canonical) {body : Bytes} :
    m.marshal = .ok body ↔
      m.Fits ∧ body = m.head ++ vec 2 ((m.extensions.map Value.toRaw).flatMap Raw.put) := by
  rw [marshal, fail_guard, fail_guard, fail_guard, bind_eq_ok]
  simp only [marshalList_eq_ok hm.stable, Except.ok.injEq]
  constructor
  · rintro ⟨-, -, -, ext, ⟨hfits, rfl⟩, rfl⟩
    exact ⟨hfits, rfl⟩
  · rintro ⟨hfits, rfl⟩
    exact ⟨by have := hm.cookie; omega, by have := hm.sessionID; omega,
      by have := hm.methods; omega, _, ⟨hfits, rfl⟩, rfl⟩

/-- A canonical hello that the codec sends back. -/
structure Accepted (m : MessageClientHello) : Prop where
  fits : m.Fits
  acceptable : Acceptable m.extensions

theorem unmarshal_marshal {m x : MessageClientHello} (hm : m.Canonical) {body : Bytes}
    (hbody : m.marshal = .ok body) :
    unmarshal body = .ok x ↔ Acceptable m.extensions ∧ x = m := by
  obtain ⟨hfits, rfl⟩ := (marshal_eq_ok hm).mp hbody
  have hlist := (marshalList_eq_ok hm.stable).mpr ⟨hfits, rfl⟩
  rw [unmarshal_head hm]
  simp only [decodeExtensionList_marshal hm.stable hlist]
  constructor
  · rintro ⟨values, ⟨hok, rfl⟩, rfl⟩
    exact ⟨hok, rfl⟩
  · rintro ⟨hok, rfl⟩
    exact ⟨_, ⟨hok, rfl⟩, rfl⟩

end MessageClientHello

/-! ## Snapshots -/

/-- `negotiation.ClientHelloSnapshot`. -/
structure ClientHelloSnapshot where
  body : Bytes
  extensionOffset : Nat
  extensions : List Raw
deriving DecidableEq, Repr

namespace ClientHelloSnapshot

def valid (s : ClientHelloSnapshot) : Bool := s.body.length ≠ 0

/-- `Extension(typ)`. -/
def extension (s : ClientHelloSnapshot) (typ : UInt16) : Option Raw :=
  s.extensions.find? (·.typ = typ)

def offered (s : ClientHelloSnapshot) (typ : UInt16) : Bool := s.extensions.any (·.typ = typ)

end ClientHelloSnapshot

/-- The loop of `clientHelloExtensions` over the widths of the vectors to skip. -/
def skipVectors : List Nat → Bytes → Except Error Bytes
  | [], rest => .ok rest
  | width :: widths, rest =>
    if rest.length < width then fail .bufferTooSmall
    else
      let length := getUint (rest.take width)
      if rest.length - width < length then fail .bufferTooSmall
      else skipVectors widths (rest.drop (width + length))

def clientHelloExtensions (body : Bytes) : Except Error Bytes :=
  if body.length < 2 + randomLength then fail .bufferTooSmall
  else skipVectors [1, 1, 2, 1] (body.drop (2 + randomLength))

def snapshotClientHello (body : Bytes) : Except Error ClientHelloSnapshot := do
  let extensionData ← clientHelloExtensions body
  match parseList extensionData with
  | .error e => .error (.within "extensions" e)
  | .ok extensions => .ok ⟨body, body.length - extensionData.length, extensions⟩

theorem skipVectors_vec {w : Nat} {widths : List Nat} {a rest : Bytes} (h : a.length < 256 ^ w) :
    skipVectors (w :: widths) (vec w a ++ rest) = skipVectors widths rest := by
  have hval := getUint_take_vec h rest
  have hdrop : (vec w a ++ rest).drop (w + a.length) = rest := by
    rw [← drop_drop, drop_vec, drop_left]
  have hlen : (vec w a ++ rest).length = w + a.length + rest.length := by simp
  simp only [skipVectors, hval, hdrop]
  rw [if_neg (by omega), if_neg (by omega)]

variable {m x : MessageClientHello}

theorem clientHelloExtensions_head (hm : m.Canonical) (ext : Bytes) :
    clientHelloExtensions (m.head ++ ext) = .ok ext := by
  have hcount := length_flatMap_putUint16 m.cipherSuiteIDs
  have hsuites : putUint 2 (2 * m.cipherSuiteIDs.length) ++ m.cipherSuiteIDs.flatMap putUint16 =
      vec 2 (m.cipherSuiteIDs.flatMap putUint16) := by rw [vec, hcount]
  have hhead : m.head ++ ext = (putUint16 m.version ++ m.random.marshalFixed) ++
      (vec 1 m.sessionID ++ (vec 1 m.cookie ++ (vec 2 (m.cipherSuiteIDs.flatMap putUint16) ++
        (vec 1 m.compressionMethods.reverse ++ ext)))) := by
    simp only [MessageClientHello.head, hsuites, append_assoc]
  have hfixed : (putUint16 m.version ++ m.random.marshalFixed).length = 2 + randomLength := by simp
  have h1 := hm.sessionID
  have h2 := hm.cookie
  have h3 := hm.cipherSuiteIDs
  have h4 := hm.methods
  rw [clientHelloExtensions, hhead, drop_left' hfixed, if_neg,
    skipVectors_vec (by omega), skipVectors_vec (by omega), skipVectors_vec (by omega),
    skipVectors_vec (by rw [length_reverse]; omega), skipVectors]
  rw [length_append, hfixed]
  omega

def MessageClientHello.snapshot (m : MessageClientHello) : ClientHelloSnapshot where
  body := m.head ++ vec 2 ((m.extensions.map Value.toRaw).flatMap Raw.put)
  extensionOffset := m.head.length
  extensions := m.extensions.map Value.toRaw

theorem snapshotClientHello_marshal (hm : m.Canonical) {body : Bytes}
    (hbody : m.marshal = .ok body) :
    snapshotClientHello body = .ok m.snapshot := by
  obtain ⟨hfits, rfl⟩ := (MessageClientHello.marshal_eq_ok hm).mp hbody
  have hsize : marshalListSize m.extensions ≤ 2 + 0xffff := hfits
  have hlen := length_flatMap_toRaw hm.stable
  have hparse : parseList (vec 2 ((m.extensions.map Value.toRaw).flatMap Raw.put)) =
      .ok (m.extensions.map Value.toRaw) := parseList_eq_ok.mpr ⟨by omega, rfl⟩
  rw [snapshotClientHello, clientHelloExtensions_head hm, ok_bind, hparse,
    MessageClientHello.snapshot]
  simp

theorem MessageClientHello.valid_snapshot (m : MessageClientHello) : m.snapshot.valid := by
  simp [ClientHelloSnapshot.valid, MessageClientHello.snapshot, MessageClientHello.head, putUint16,
    putUint]

theorem MessageClientHello.offered_snapshot (m : MessageClientHello) (typ : UInt16) :
    m.snapshot.offered typ ↔ ∃ v ∈ m.extensions, v.extensionType = typ := by
  rw [ClientHelloSnapshot.offered, MessageClientHello.snapshot, any_map, any_eq_true]
  simp only [Function.comp, decide_eq_true_eq]
  exact Iff.rfl

/-! ## `FinalizeClientHello` -/

/-- A `ClientHelloMessageHook`. -/
abbrev Hook := MessageClientHello → MessageClientHello

/-- The error of a hello that the codec rejects, `invalidHook`. -/
def invalidHook (e : Error) : Error := .negotiation .invalidClientHello e .internalError

/-- `validatedClientHello`: the hello as the wire gives it back. -/
def validatedClientHello (m : MessageClientHello) : Except Error MessageClientHello :=
  match m.marshal >>= MessageClientHello.unmarshal with
  | .error e => .error (invalidHook e)
  | .ok canonical => .ok canonical

def hooked (hook : Option Hook) (m : MessageClientHello) : MessageClientHello :=
  match hook with
  | none => m
  | some f => f m

/-- The statement `if err == nil && hook != nil { … }` of `FinalizeClientHello`. -/
def runHook (hook : Option Hook) (m : MessageClientHello) : Except Error MessageClientHello :=
  match hook with
  | none => .ok m
  | some f => validatedClientHello (f m)

theorem canonical_of_validated (h : validatedClientHello m = .ok x) :
    x.Canonical ∧ Acceptable x.extensions := by
  unfold validatedClientHello at h
  split at h
  · cases h
  · rename_i canonical hcodec
    cases h
    obtain ⟨body, -, hbody⟩ := bind_eq_ok.mp hcodec
    exact MessageClientHello.canonical_of_unmarshal hbody

/-- **On canonical hellos the codec is the identity**, where it is defined. -/
theorem validatedClientHello_eq_ok (hm : m.Canonical) :
    validatedClientHello m = .ok x ↔ m.Accepted ∧ x = m := by
  have hcodec : ∀ y, (m.marshal >>= MessageClientHello.unmarshal) = .ok y ↔ m.Accepted ∧ y = m := by
    intro y
    rw [bind_eq_ok]
    constructor
    · rintro ⟨body, hbody, hback⟩
      obtain ⟨hok, rfl⟩ := (MessageClientHello.unmarshal_marshal hm hbody).mp hback
      exact ⟨⟨((MessageClientHello.marshal_eq_ok hm).mp hbody).1, hok⟩, rfl⟩
    · rintro ⟨hacc, rfl⟩
      have hbody := (MessageClientHello.marshal_eq_ok hm).mpr ⟨hacc.fits, rfl⟩
      exact ⟨_, hbody, (MessageClientHello.unmarshal_marshal hm hbody).mpr ⟨hacc.acceptable, rfl⟩⟩
  rw [← hcodec x]
  unfold validatedClientHello
  split <;> simp_all

theorem snapshot_step (hm : m.Canonical) {s : ClientHelloSnapshot} :
    (m.marshal >>= snapshotClientHello) = .ok s ↔ m.Fits ∧ s = m.snapshot := by
  rw [bind_eq_ok]
  constructor
  · rintro ⟨body, hbody, hs⟩
    rw [snapshotClientHello_marshal hm hbody, Except.ok.injEq] at hs
    exact ⟨((MessageClientHello.marshal_eq_ok hm).mp hbody).1, hs.symm⟩
  · rintro ⟨hfits, rfl⟩
    have hbody := (MessageClientHello.marshal_eq_ok hm).mpr ⟨hfits, rfl⟩
    exact ⟨_, hbody, snapshotClientHello_marshal hm hbody⟩

theorem runHook_eq_ok {hook : Option Hook} (hm : (hooked hook m).Canonical) (hacc : m.Accepted) :
    runHook hook m = .ok x ↔ (hooked hook m).Accepted ∧ x = hooked hook m := by
  cases hook with
  | none => simp [runHook, hooked, hacc, eq_comm]
  | some f => exact validatedClientHello_eq_ok hm

namespace Negotiation

/-- `negotiation.FinalizeClientHello`. -/
def finalizeClientHello (base : MessageClientHello) (hook : Option Hook) :
    Except Error (MessageClientHello × ClientHelloSnapshot) := do
  let clientHello ← validatedClientHello base
  let clientHello ← runHook hook clientHello
  match clientHello.marshal >>= snapshotClientHello with
  | .error e => .error (.negotiation .invalidClientHello e .internalError)
  | .ok snapshot => .ok (clientHello, snapshot)

variable {m x : MessageClientHello} {s : ClientHelloSnapshot}

/-- The last step of `finalizeClientHello`, for a canonical hello. -/
theorem finalizeClientHello_last (hm : m.Canonical) :
    ((match m.marshal >>= snapshotClientHello with
      | .error e => .error (.negotiation .invalidClientHello e .internalError)
      | .ok snapshot => .ok (m, snapshot)) : Except Error (MessageClientHello × _)) = .ok (x, s) ↔
      m.Fits ∧ x = m ∧ s = m.snapshot := by
  have hstep := snapshot_step hm (s := s)
  split
  · rename_i e he
    rw [he] at hstep
    simp only [reduceCtorEq, false_iff, not_and] at hstep ⊢
    exact fun hfits _ => hstep hfits
  · rename_i snapshot hsnapshot
    obtain ⟨hfits, rfl⟩ := (snapshot_step hm).mp hsnapshot
    simp [hfits, eq_comm]

/-- What `finalizeClientHello` returns: an accepted canonical hello, whose snapshot it is. -/
theorem finalizeClientHello_spec {base : MessageClientHello} {hook : Option Hook}
    (h : finalizeClientHello base hook = .ok (x, s)) :
    x.Canonical ∧ x.Accepted ∧ s = x.snapshot ∧
      ∃ m, validatedClientHello base = .ok m ∧ runHook hook m = .ok x := by
  rw [finalizeClientHello, bind_eq_ok] at h
  obtain ⟨m, hm, h⟩ := h
  obtain ⟨y, hy, h⟩ := bind_eq_ok.mp h
  have hcanonical : y.Canonical ∧ Acceptable y.extensions := by
    cases hook with
    | none =>
      cases hy
      exact canonical_of_validated hm
    | some f => exact canonical_of_validated hy
  obtain ⟨hfits, rfl, hs⟩ := (finalizeClientHello_last hcanonical.1).mp h
  exact ⟨hcanonical.1, ⟨hfits, hcanonical.2⟩, hs, m, hm, hy⟩

/-- **`FinalizeClientHello` hands on what the hook returned**: for a canonical
hello with a canonical hooked form it succeeds iff both are accepted. -/
theorem finalizeClientHello_eq_ok {hook : Option Hook} (hm : m.Canonical)
    (hh : (hooked hook m).Canonical) :
    finalizeClientHello m hook = .ok (x, s) ↔
      m.Accepted ∧ (hooked hook m).Accepted ∧ x = hooked hook m ∧ s = (hooked hook m).snapshot := by
  rw [finalizeClientHello, bind_eq_ok]
  constructor
  · rintro ⟨y, hy, h⟩
    obtain ⟨hacc, rfl⟩ := (validatedClientHello_eq_ok hm).mp hy
    obtain ⟨z, hz, h⟩ := bind_eq_ok.mp h
    obtain ⟨hhook, rfl⟩ := (runHook_eq_ok hh hacc).mp hz
    obtain ⟨-, rfl, rfl⟩ := (finalizeClientHello_last hh).mp h
    exact ⟨hacc, hhook, rfl, rfl⟩
  · rintro ⟨hacc, hhook, rfl, rfl⟩
    refine ⟨m, (validatedClientHello_eq_ok hm).mpr ⟨hacc, rfl⟩, ?_⟩
    rw [(runHook_eq_ok hh hacc).mpr ⟨hhook, rfl⟩, ok_bind]
    exact (finalizeClientHello_last hh).mpr ⟨hhook.fits, rfl, rfl⟩

end Negotiation

/-! ## The client's flights -/

/-- The fields of `HandshakeConfig` that `flight.FinalizeClientHello` reads. -/
structure HandshakeConfig where
  clientHelloMessageHook : Option Hook
  /-- `ConnectionIDGenerator != nil`. -/
  connectionIDGenerator : Bool
  receiveCIDLength : Nat
  enableRRC : Bool

/-- The loop of `ValidateHookedConnectionIDLength`. -/
def checkConnectionIDs (want : Nat) : List Value → Except Error Unit
  | [] => .ok ()
  | .connectionID cid :: rest =>
    if cid.length ≠ want then .error (.cidLength cid.length want)
    else checkConnectionIDs want rest
  | _ :: rest => checkConnectionIDs want rest

def validateHookedConnectionIDLength (values : List Value) (cfg : HandshakeConfig)
    (hookConfigured : Bool) : Except Error Unit :=
  if !hookConfigured ∨ !cfg.connectionIDGenerator then .ok ()
  else checkConnectionIDs cfg.receiveCIDLength values

def withoutExtension (values : List Value) (typ : UInt16) : List Value :=
  values.filter (·.extensionType ≠ typ)

/-- The connection IDs have the configured length, where that is checked. -/
def HandshakeConfig.CIDsMatch (cfg : HandshakeConfig) (values : List Value) : Prop :=
  cfg.clientHelloMessageHook.isSome → cfg.connectionIDGenerator →
    ∀ cid, .connectionID cid ∈ values → cid.length = cfg.receiveCIDLength

/-- RRC is offered only where the configuration permits it. -/
def HandshakeConfig.PermitsRRC (cfg : HandshakeConfig) (values : List Value) : Prop :=
  cfg.enableRRC ∨ ∀ v ∈ values, v.extensionType ≠ typeReturnRoutabilityCheck

theorem checkConnectionIDs_eq_ok {want : Nat} {values : List Value} :
    checkConnectionIDs want values = .ok () ↔
      ∀ cid, .connectionID cid ∈ values → cid.length = want := by
  induction values with
  | nil => simp [checkConnectionIDs]
  | cons v rest ih =>
    cases v with
    | connectionID cid =>
      rw [checkConnectionIDs, guard_eq_ok, ih]
      simp only [mem_cons, Value.connectionID.injEq, not_not]
      exact ⟨fun h c hc => hc.elim (fun heq => heq ▸ h.1) (h.2 c),
        fun h => ⟨h cid (.inl rfl), fun c hc => h c (.inr hc)⟩⟩
    | _ => simp [checkConnectionIDs, ih]

theorem validateHookedConnectionIDLength_eq_ok {values : List Value} {cfg : HandshakeConfig} :
    validateHookedConnectionIDLength values cfg cfg.clientHelloMessageHook.isSome = .ok () ↔
      cfg.CIDsMatch values := by
  rw [validateHookedConnectionIDLength, skip_eq_ok, checkConnectionIDs_eq_ok,
    HandshakeConfig.CIDsMatch]
  simp only [not_or, Bool.not_eq_true, Bool.not_eq_false', and_imp]

namespace Flight

/-- `flight.FinalizeClientHello`. -/
def finalizeClientHello (base : MessageClientHello) (cfg : HandshakeConfig) :
    Except Error (MessageClientHello × ClientHelloSnapshot) := do
  let (clientHello, snapshot) ← Negotiation.finalizeClientHello base cfg.clientHelloMessageHook
  validateHookedConnectionIDLength clientHello.extensions cfg cfg.clientHelloMessageHook.isSome
  if cfg.enableRRC ∨ ¬snapshot.offered typeReturnRoutabilityCheck then .ok (clientHello, snapshot)
  else
    Negotiation.finalizeClientHello
      { clientHello with
        extensions := withoutExtension clientHello.extensions typeReturnRoutabilityCheck } none

variable {x : MessageClientHello} {s : ClientHelloSnapshot}

/-- What `FinalizeClientHello` returns: an accepted hello within the
configuration, made from what the hook returned by dropping RRC at most. -/
theorem finalizeClientHello_spec {base : MessageClientHello} {cfg : HandshakeConfig}
    (h : finalizeClientHello base cfg = .ok (x, s)) :
    x.Canonical ∧ x.Accepted ∧ s = x.snapshot ∧ cfg.CIDsMatch x.extensions ∧
      cfg.PermitsRRC x.extensions ∧
      ∃ m y, validatedClientHello base = .ok m ∧
        runHook cfg.clientHelloMessageHook m = .ok y ∧
        (x = y ∨ x = { y with
          extensions := withoutExtension y.extensions typeReturnRoutabilityCheck }) := by
  rw [finalizeClientHello, bind_eq_ok] at h
  obtain ⟨⟨y, t⟩, hy, h⟩ := h
  obtain ⟨hcids, h⟩ := check_bind_eq_ok.mp h
  obtain ⟨hycanon, hyacc, rfl, m, hm, hhook⟩ := Negotiation.finalizeClientHello_spec hy
  rw [validateHookedConnectionIDLength_eq_ok] at hcids
  split at h
  · rename_i hskip
    cases h
    refine ⟨hycanon, hyacc, rfl, hcids, ?_, m, _, hm, hhook, .inl rfl⟩
    rcases hskip with hrrc | hnone
    · exact .inl hrrc
    · refine .inr fun v hv htype => hnone ?_
      exact (x.offered_snapshot _).mpr ⟨v, hv, htype⟩
  · -- the hook added RRC against the configuration: it is dropped, and no hook runs
    obtain ⟨z, hz⟩ : ∃ z : MessageClientHello, z = { y with
        extensions := withoutExtension y.extensions typeReturnRoutabilityCheck } := ⟨_, rfl⟩
    rw [← hz] at h
    have hsub : ∀ v ∈ z.extensions, v ∈ y.extensions ∧
        v.extensionType ≠ typeReturnRoutabilityCheck := by
      intro v hv
      rw [hz] at hv
      simpa [withoutExtension] using hv
    have hzcanon : z.Canonical := by
      rw [hz]
      exact { hycanon with
        stable := fun v hv => hycanon.stable v (mem_of_mem_filter hv) }
    have hnone : (hooked none z).Canonical := hzcanon
    obtain ⟨hacc, -, rfl, rfl⟩ := (Negotiation.finalizeClientHello_eq_ok hzcanon hnone).mp h
    exact ⟨hzcanon, hacc, rfl, fun hset hgen cid hcid => hcids hset hgen cid (hsub _ hcid).1,
      .inr fun v hv => (hsub v hv).2, m, y, hm, hhook, .inr hz⟩

/-- For a hello whose hooked form offers no RRC without permission,
`FinalizeClientHello` succeeds iff both forms are accepted and the connection
IDs match. -/
theorem finalizeClientHello_eq_ok {cfg : HandshakeConfig} (hm : m.Canonical)
    (hh : (hooked cfg.clientHelloMessageHook m).Canonical)
    (hrrc : cfg.PermitsRRC (hooked cfg.clientHelloMessageHook m).extensions) :
    finalizeClientHello m cfg = .ok (x, s) ↔
      (m.Accepted ∧ (hooked cfg.clientHelloMessageHook m).Accepted ∧
        cfg.CIDsMatch (hooked cfg.clientHelloMessageHook m).extensions) ∧
      x = hooked cfg.clientHelloMessageHook m ∧
        s = (hooked cfg.clientHelloMessageHook m).snapshot := by
  have hskip : cfg.enableRRC ∨ ¬(hooked cfg.clientHelloMessageHook m).snapshot.offered
      typeReturnRoutabilityCheck := by
    rcases hrrc with hrrc | hnone
    · exact .inl hrrc
    · refine .inr fun hoffered => ?_
      obtain ⟨v, hv, htype⟩ := (MessageClientHello.offered_snapshot _ _).mp hoffered
      exact hnone v hv htype
  rw [finalizeClientHello, bind_eq_ok]
  constructor
  · rintro ⟨⟨y, t⟩, hy, h⟩
    obtain ⟨hcids, h⟩ := check_bind_eq_ok.mp h
    obtain ⟨hacc, hhook, rfl, rfl⟩ := (Negotiation.finalizeClientHello_eq_ok hm hh).mp hy
    rw [if_pos hskip] at h
    cases h
    exact ⟨⟨hacc, hhook, validateHookedConnectionIDLength_eq_ok.mp hcids⟩, rfl, rfl⟩
  · rintro ⟨⟨hacc, hhook, hcids⟩, rfl, rfl⟩
    refine ⟨_, (Negotiation.finalizeClientHello_eq_ok hm hh).mpr ⟨hacc, hhook, rfl, rfl⟩, ?_⟩
    rw [check_bind_eq_ok, validateHookedConnectionIDLength_eq_ok, if_pos hskip]
    exact ⟨hcids, rfl⟩

end Flight

end HeadlessClient.DTLS
