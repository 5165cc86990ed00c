import HeadlessClient.Capture.QuicInitial

/-!
# Capture — reading protected Initial packets

A client's Initial packet as RFC 9001 has it protected (`InitialPacket`), with
the frames an Initial may carry (`InitialFrame`). The capture tool undoes the
protection of EVERY such packet (`parseQUICInitial_datagram`); what it finds in
the payload are the CRYPTO frames in front of the first frame that it does not
know (`quicCryptoFrames_put`).
-/

namespace HeadlessClient.Capture

open Base Wire List

/-! ## Frames -/

/-- The frames of an Initial packet. Their integers may be written in any width. -/
inductive InitialFrame where
  | padding
  | ping
  | ack (largest delay count firstRange : EncodedVarint)
      (ranges : List (EncodedVarint × EncodedVarint)) (count_eq : count.value = ranges.length)
      (ecn : Option (EncodedVarint × EncodedVarint × EncodedVarint))
  | crypto (offset length : EncodedVarint) (data : Bytes) (length_eq : length.value = data.length)
  | connectionClose (errorCode frameType length : EncodedVarint) (reason : Bytes)
      (length_eq : length.value = reason.length)

namespace InitialFrame

def putRanges (ranges : List (EncodedVarint × EncodedVarint)) : Bytes :=
  ranges.flatMap fun range => range.1.put ++ range.2.put

def put : InitialFrame → Bytes
  | .padding => [quicFramePadding]
  | .ping => [quicFramePing]
  | .ack largest delay count firstRange ranges _ none =>
    quicFrameAckLow :: (largest.put ++ delay.put ++ count.put ++ firstRange.put ++
      putRanges ranges ++ [])
  | .ack largest delay count firstRange ranges _ (some (ect0, ect1, ce)) =>
    quicFrameAckHigh :: (largest.put ++ delay.put ++ count.put ++ firstRange.put ++
      putRanges ranges ++ (ect0.put ++ (ect1.put ++ ce.put)))
  | .crypto offset length data _ => quicFrameCrypto :: (offset.put ++ length.put ++ data)
  | .connectionClose errorCode frameType length reason _ =>
    0x1c :: (errorCode.put ++ frameType.put ++ length.put ++ reason)

def chunk? : InitialFrame → Option QUICCryptoChunk
  | .crypto offset _ data _ => some ⟨offset.value, data⟩
  | _ => none

/-- The frame ends the tool's search. -/
def stops : InitialFrame → Bool
  | .crypto _ _ data _ => quicMaxCryptoLen < data.length
  | .connectionClose .. => true
  | _ => false

theorem reads_ranges (ranges : List (EncodedVarint × EncodedVarint)) :
    Reads (skipVarints (2 * ranges.length)) (putRanges ranges) () := by
  induction ranges with
  | nil => exact reads_skip_zero
  | cons range ranges ih =>
    have hput : putRanges (range :: ranges) =
        range.1.put ++ (range.2.put ++ putRanges ranges) := by
      simp [putRanges]
    rw [hput, length_cons, Nat.mul_add]
    exact reads_skip_append range.1.exact.reads (reads_skip_append range.2.exact.reads ih)

theorem reads (f : InitialFrame) (h : f.stops = false) : Reads quicCryptoFrame f.put f.chunk? := by
  cases f with
  | padding => exact reads_padding
  | ping => exact reads_ping
  | ack largest delay count firstRange ranges count_eq ecn =>
    have hranges := reads_ranges ranges
    rw [← count_eq] at hranges
    cases ecn with
    | none =>
      refine reads_ack_frame (.inl rfl) (reads_ack_fields largest.exact.reads delay.exact.reads
        count.exact.reads firstRange.exact.reads hranges ?_)
      exact fun r _ hr => ⟨r, rfl, hr⟩
    | some counts =>
      obtain ⟨ect0, ect1, ce⟩ := counts
      refine reads_ack_frame (.inr rfl) (reads_ack_fields largest.exact.reads delay.exact.reads
        count.exact.reads firstRange.exact.reads hranges ?_)
      exact reads_skip_append ect0.exact.reads
        (reads_skip_append ect1.exact.reads (reads_skip_one ce.exact.reads))
  | crypto offset length data length_eq =>
    have hlen : data.length ≤ quicMaxCryptoLen := Nat.not_lt.mp (of_decide_eq_false h)
    have hread := length.exact.reads
    rw [length_eq] at hread
    exact reads_crypto_fields offset.exact.reads hread hlen
  | connectionClose errorCode frameType length reason length_eq => cases h

theorem quicCryptoFrame_stops {f : InitialFrame} (h : f.stops = true) {r : ByteReader} {t : Bytes}
    (hr : r.rest = f.put ++ t) : ∃ e, quicCryptoFrame r = .error e := by
  cases f with
  | padding => cases h
  | ping => cases h
  | ack largest delay count firstRange ranges count_eq ecn => cases h
  | crypto offset length data length_eq =>
    have hlen : quicMaxCryptoLen < length.value := by
      rw [length_eq]
      exact of_decide_eq_true h
    rw [put, cons_append, append_assoc, append_assoc] at hr
    obtain ⟨r₁, h₁, hr₁⟩ := ByteReader.u8_cons hr
    obtain ⟨r₂, h₂, hr₂⟩ := offset.exact.reads r₁ _ hr₁
    obtain ⟨r₃, h₃, -⟩ := length.exact.reads r₂ _ hr₂
    refine ⟨.truncated, ?_⟩
    rw [quicCryptoFrame, h₁, ok_bind]
    change (readQUICVarint r₁ >>= _) = _
    simp only [h₂, h₃, ok_bind, gt_iff_lt, hlen, if_true]
  | connectionClose errorCode frameType length reason length_eq =>
    obtain ⟨r₁, h₁, -⟩ := ByteReader.u8_cons (show r.rest = 0x1c :: _ from hr)
    refine ⟨.truncated, ?_⟩
    rw [quicCryptoFrame, h₁, ok_bind]
    rfl

end InitialFrame

theorem framesFrom_error {r : ByteReader} {e : WireError} (h : quicCryptoFrame r = .error e) :
    framesFrom r = [] := by
  unfold framesFrom
  cases r.remaining with
  | zero => rfl
  | succ n =>
    rw [quicCryptoLoop, h]
    split <;> rfl

open InitialFrame in
/-- **What the tool collects**: the chunks in front of the first frame that
stops its search. -/
theorem framesFrom_put (frames : List InitialFrame) : ∀ {r : ByteReader},
    r.rest = frames.flatMap put →
      framesFrom r = (frames.takeWhile fun f => !f.stops).filterMap chunk? := by
  induction frames with
  | nil =>
    intro r hr
    have hrem : r.remaining = 0 := by
      rw [ByteReader.remaining_eq, hr]
      rfl
    rw [framesFrom, hrem]
    rfl
  | cons f frames ih =>
    intro r hr
    rw [flatMap_cons] at hr
    cases hstops : f.stops with
    | true =>
      obtain ⟨e, herr⟩ := quicCryptoFrame_stops hstops hr
      rw [framesFrom_error herr, takeWhile_cons_of_neg (by rw [hstops]; decide)]
      rfl
    | false =>
      obtain ⟨r', hr', hframes⟩ := Parses.of_reads (f.reads hstops) r _ hr
      rw [hframes, ih hr', takeWhile_cons_of_pos (by rw [hstops]; decide)]
      cases hchunk : f.chunk? with
      | none => rw [filterMap_cons_none hchunk]; rfl
      | some chunk => rw [filterMap_cons_some hchunk]; rfl

theorem quicCryptoFrames_put (frames : List InitialFrame) :
    quicCryptoFrames (frames.flatMap InitialFrame.put) =
      (frames.takeWhile fun f => !f.stops).filterMap InitialFrame.chunk? :=
  @framesFrom_put frames ⟨_, 0⟩ rfl

/-- All chunks are collected iff no CRYPTO frame is, or comes behind, one that
stops the search. -/
theorem quicCryptoFrames_put_iff (frames : List InitialFrame) :
    quicCryptoFrames (frames.flatMap InitialFrame.put) = frames.filterMap InitialFrame.chunk? ↔
      ∀ f ∈ frames.dropWhile (fun f => !f.stops), f.chunk? = none := by
  have hsplit : frames.filterMap InitialFrame.chunk? =
      (frames.takeWhile fun f => !f.stops).filterMap InitialFrame.chunk? ++
        (frames.dropWhile fun f => !f.stops).filterMap InitialFrame.chunk? := by
    rw [← filterMap_append, takeWhile_append_dropWhile]
  rw [quicCryptoFrames_put, hsplit, self_eq_append_right, filterMap_eq_nil_iff]

/-! ## Protection -/

/-- HKDF-Expand-Label of TLS 1.3. -/
def hkdfExpandLabel (c : Primitives) (secret : Bytes) (label : String) (context : Bytes)
    (length : Nat) : Bytes :=
  c.expand secret (putUint 2 length ++ vec 1 (ascii ("tls13 " ++ label)) ++ vec 1 context) length

/-- The keys a client protects its Initial packets with. -/
def clientKeys (c : Primitives) (destConnID : Bytes) : InitialKeys :=
  let secret := hkdfExpandLabel c (c.extract destConnID quicInitialSaltV1) "client in" [] 32
  { key := hkdfExpandLabel c secret "quic key" [] 16
    iv := hkdfExpandLabel c secret "quic iv" [] 12
    headerKey := hkdfExpandLabel c secret "quic hp" [] 16 }

theorem expandLabel_eq (c : Primitives) (secret : Bytes) (label : String) (n : Nat) :
    expandLabel c secret label n = hkdfExpandLabel c secret label [] n := by
  rw [expandLabel, hkdfExpandLabel, vec, vec, append_assoc, append_assoc,
    append_assoc, append_assoc]
  rfl

theorem quicClientInitialKeys_eq (c : Primitives) (destConnID : Bytes) :
    quicClientInitialKeys c destConnID = clientKeys c destConnID := by
  simp only [quicClientInitialKeys, clientKeys, expandLabel_eq]

/-- An Initial packet of a client, and what follows it in its datagram. -/
structure InitialPacket where
  destConnID : Bytes
  srcConnID : Bytes
  token : Bytes
  tokenLength : EncodedVarint
  length : EncodedVarint
  packetNum : Nat
  /-- The number of bytes the packet number is written in. -/
  numberLen : Nat
  payload : Bytes
  trailing : Bytes
  destConnID_fits : destConnID.length ≤ 20
  srcConnID_fits : srcConnID.length ≤ 20
  token_fits : token.length ≤ 65536
  tokenLength_eq : tokenLength.value = token.length
  numberLen_pos : 1 ≤ numberLen
  numberLen_le : numberLen ≤ 4
  packetNum_fits : packetNum < 256 ^ numberLen
  /-- There is enough behind the packet number for the sample. -/
  payload_long : 4 ≤ numberLen + payload.length
  length_eq : length.value = numberLen + (payload.length + 16)

namespace InitialPacket

/-- A long header of type Initial, with the length of the packet number. -/
def first (p : InitialPacket) : UInt8 := UInt8.ofNat (0xc0 + (p.numberLen - 1))

/-- The long header behind the version, up to the packet number. -/
def longHeader (p : InitialPacket) : Bytes :=
  vec 1 p.destConnID ++ (vec 1 p.srcConnID ++ (p.tokenLength.put ++ (p.token ++
    (p.length.put ++ []))))

def number (p : InitialPacket) : Bytes := putUint p.numberLen p.packetNum

/-- The header as it is authenticated. -/
def header (p : InitialPacket) : Bytes :=
  p.first :: ((putUint 4 quicVersion1 ++ p.longHeader) ++ p.number)

/-- The packet number, padded to the length of the IV, is added to it. -/
def nonce (c : Primitives) (p : InitialPacket) : Bytes :=
  List.zipWith (· ^^^ ·) (clientKeys c p.destConnID).iv (putUint 12 p.packetNum)

def ciphertext (c : Primitives) (p : InitialPacket) : Bytes :=
  c.gcmSeal (clientKeys c p.destConnID).key (p.nonce c) p.header p.payload

/-- The sample is taken as if the packet number had four bytes. -/
def mask (c : Primitives) (p : InitialPacket) : Bytes :=
  c.encrypt (clientKeys c p.destConnID).headerKey (((p.number ++ p.ciphertext c).drop 4).take 16)

/-- The packet with its header protected. -/
def sealedPacket (c : Primitives) (p : InitialPacket) : Bytes :=
  (p.first ^^^ ((p.mask c).headD 0 &&& 0x0f)) :: ((putUint 4 quicVersion1 ++ p.longHeader) ++
    (List.zipWith (· ^^^ ·) p.number ((p.mask c).drop 1) ++ p.ciphertext c))

def datagram (c : Primitives) (p : InitialPacket) : Bytes := p.sealedPacket c ++ p.trailing

/-! ### The first byte -/

theorem first_bits : ∀ n < 4, ∀ bits < 256,
    let first := UInt8.ofNat (0xc0 + n)
    let sent := first ^^^ (UInt8.ofNat bits &&& 0x0f)
    sent &&& 0x80 ≠ 0 ∧ (sent &&& 0x30) >>> 4 = 0 ∧
      sent ^^^ (UInt8.ofNat bits &&& 0x0f) = first ∧ (first &&& 0x03).toNat = n := by
  decide +kernel

end InitialPacket

theorem xor_xor_self (b k : UInt8) : b ^^^ k ^^^ k = b := by
  rw [UInt8.xor_assoc, UInt8.xor_self, UInt8.xor_zero]

/-! ### The packet number -/

theorem unmaskNumber_mask {mask : Bytes} {pnOffset : Nat} (rest number : Bytes) :
    ∀ {i : Nat} {front : Bytes} {packetNum : Nat}, front.length = pnOffset + i →
      1 + i + number.length ≤ mask.length →
        unmaskNumber mask pnOffset i number.length
            (front ++ (List.zipWith (· ^^^ ·) number (mask.drop (1 + i)) ++ rest)) packetNum =
          .ok (front ++ (number ++ rest),
            packetNum * 256 ^ number.length + getUint number) := by
  induction number with
  | nil =>
    intro i front packetNum _ _
    simp [unmaskNumber, getUint]
  | cons b number ih =>
    intro i front packetNum hfront hmask
    rw [length_cons] at hmask
    have hlt : 1 + i < mask.length := by omega
    have hdrop : mask.drop (1 + i) = mask[1 + i] :: mask.drop (1 + (i + 1)) :=
      drop_eq_getElem_cons hlt
    obtain ⟨tail, htail⟩ : ∃ tail,
      tail = List.zipWith (· ^^^ ·) number (mask.drop (1 + (i + 1))) ++ rest := ⟨_, rfl⟩
    have hbyte : front ++ (List.zipWith (· ^^^ ·) (b :: number) (mask.drop (1 + i)) ++ rest) =
        front ++ (b ^^^ mask[1 + i]) :: tail := by
      rw [hdrop, htail]
      rfl
    have hset : (front ++ (b ^^^ mask[1 + i]) :: tail).set (pnOffset + i) b =
        (front ++ [b]) ++ tail := by
      rw [← hfront, set_append_right _ _ (Nat.le_refl _), Nat.sub_self, append_assoc]
      rfl
    have hrest := @ih (i + 1) (front ++ [b]) (packetNum * 256 + b.toNat)
      (by rw [length_append, hfront]; rfl) (by omega)
    rw [hbyte, length_cons, unmaskNumber, index_at rfl hfront.symm, ok_bind, index_eq hlt, ok_bind]
    dsimp only
    rw [xor_xor_self, hset, shiftLeft_or_toNat, htail, hrest, getUint, pow_succ]
    simp only [append_assoc, cons_append, nil_append]
    congr 2
    ring

theorem xorNonce_eq {iv : Bytes} (hiv : iv.length = 12) {n : Nat} (hn : n < 256 ^ 8) :
    xorNonce iv n = .ok (List.zipWith (· ^^^ ·) iv (putUint 12 n)) := by
  have hpad : putUint 12 n = List.replicate 4 0 ++ putUint 8 n := by
    have hzero : ∀ w, 8 ≤ w → n / 256 ^ w = 0 := fun w hw =>
      Nat.div_eq_of_lt (Nat.lt_of_lt_of_le hn (Nat.pow_le_pow_right (by decide) hw))
    have hstep : ∀ w, 8 ≤ w → putUint (w + 1) n = 0 :: putUint w n := fun w hw => by
      rw [putUint, hzero w hw]
      rfl
    rw [hstep 11 (by decide), hstep 10 (by decide), hstep 9 (by decide), hstep 8 (by decide)]
    rfl
  rw [xorNonce_padded hiv, hpad]

namespace InitialPacket

variable (c : Primitives) (p : InitialPacket)

theorem length_mask : (p.mask c).length = 16 := c.encrypt_length _ _

theorem length_ciphertext : (p.ciphertext c).length = p.payload.length + 16 := c.seal_length _ _ _ _

theorem length_number : p.number.length = p.numberLen := length_putUint _ _

theorem headD_mask : index WireError.panic (p.mask c) 0 = .ok ((p.mask c).headD 0) := by
  have hlen := p.length_mask c
  cases hmask : p.mask c with
  | nil =>
    rw [hmask] at hlen
    cases hlen
  | cons b bs => rfl

/-- The first byte: a long header of type Initial whatever the mask is, and the
mask comes off. -/
theorem first_sent :
    let bits := (p.mask c).headD 0 &&& 0x0f
    (p.first ^^^ bits) &&& 0x80 ≠ 0 ∧ ((p.first ^^^ bits) &&& 0x30) >>> 4 = 0 ∧
      p.first ^^^ bits ^^^ bits = p.first ∧ (p.first &&& 0x03).toNat + 1 = p.numberLen := by
  have hlen := p.numberLen_le
  have hpos := p.numberLen_pos
  have hbits := first_bits (p.numberLen - 1) (by omega) ((p.mask c).headD 0).toNat
    ((p.mask c).headD 0).toNat_lt
  rw [UInt8.ofNat_toNat] at hbits
  obtain ⟨hlong, htype, hback, hnumber⟩ := hbits
  refine ⟨hlong, htype, hback, ?_⟩
  change (p.first &&& 0x03).toNat = p.numberLen - 1 at hnumber
  omega

/-- What stands in front of the packet number, the first byte apart. -/
def middle : Bytes := putUint 4 quicVersion1 ++ p.longHeader

/-- **Removing header protection**: the packet as it was authenticated, and its
number. -/
theorem unprotect_sealed :
    unprotect c (clientKeys c p.destConnID).headerKey (p.sealedPacket c) (1 + p.middle.length) =
      .ok (p.header ++ p.ciphertext c, p.packetNum, 1 + p.middle.length + p.numberLen) := by
  obtain ⟨-, -, hback, hnumber⟩ := p.first_sent c
  have hmask := p.length_mask c
  have hct := p.length_ciphertext c
  have hlong := p.payload_long
  have hle := p.numberLen_le
  obtain ⟨masked, hmasked⟩ : ∃ masked,
    masked = List.zipWith (· ^^^ ·) p.number ((p.mask c).drop 1) := ⟨_, rfl⟩
  have hmaskedLen : masked.length = p.numberLen := by
    rw [hmasked, length_zipWith, length_drop, hmask, p.length_number]
    omega
  obtain ⟨sent, hsent⟩ : ∃ sent, sent = p.first ^^^ ((p.mask c).headD 0 &&& 0x0f) := ⟨_, rfl⟩
  have hpacket : p.sealedPacket c = (sent :: p.middle) ++ (masked ++ p.ciphertext c) := by
    rw [hsent, hmasked]
    rfl
  -- the sample lies behind the four bytes that a packet number can have, so it
  -- is not masked
  have hbehind : (masked ++ p.ciphertext c).drop 4 = (p.number ++ p.ciphertext c).drop 4 := by
    have hnil : masked.drop 4 = [] := drop_eq_nil_of_le (by omega)
    have hnil' : p.number.drop 4 = [] :=
      drop_eq_nil_of_le (by rw [p.length_number]; exact p.numberLen_le)
    rw [drop_append, drop_append, hnil, hnil', hmaskedLen, p.length_number]
  have hlen : (((p.number ++ p.ciphertext c).drop 4).take 16).length = 16 := by
    rw [length_take, length_drop, length_append, p.length_number, hct]
    omega
  have hsplit : p.sealedPacket c = ((sent :: p.middle) ++ (masked ++ p.ciphertext c).take 4) ++
      (((p.number ++ p.ciphertext c).drop 4).take 16 ++
        ((p.number ++ p.ciphertext c).drop 4).drop 16) := by
    rw [hpacket, take_append_drop, ← hbehind, append_assoc, take_append_drop]
  have hfour : ((masked ++ p.ciphertext c).take 4).length = 4 := by
    rw [length_take, length_append, hmaskedLen, hct]
    omega
  have hsample : slice WireError.panic (p.sealedPacket c) (1 + p.middle.length + 4)
      (1 + p.middle.length + 4 + quicSampleLen) =
        .ok (((p.number ++ p.ciphertext c).drop 4).take 16) := by
    refine slice_at hsplit ?_ ?_
    · rw [length_append, length_cons, hfour]
      omega
    · rw [length_append, length_cons, hfour, hlen, quicSampleLen]
      omega
  have hnum := @unmaskNumber_mask (p.mask c) (1 + p.middle.length) (p.ciphertext c) p.number 0
    (p.first :: p.middle) 0 (by rw [length_cons]; omega) (by rw [hmask, p.length_number]; omega)
  rw [Nat.add_zero, ← hmasked, p.length_number, Nat.zero_mul, Nat.zero_add] at hnum
  have hdef : c.encrypt (clientKeys c p.destConnID).headerKey
      (((p.number ++ p.ciphertext c).drop 4).take 16) = p.mask c := rfl
  have hfirst : index WireError.panic ((sent :: p.middle) ++ (masked ++ p.ciphertext c)) 0 =
      .ok sent := rfl
  rw [unprotect, hsample, ok_bind, quicHeaderMask, decide_eq_true (Nat.le_of_eq hlen.symm),
    ensure_true, ok_bind, ok_bind, hdef, hpacket, hfirst, ok_bind, p.headD_mask c, ok_bind]
  have hvalue : getUint p.number = p.packetNum := getUint_putUint p.packetNum_fits
  have hwhole : (p.first :: p.middle) ++ (p.number ++ p.ciphertext c) =
      p.header ++ p.ciphertext c := by
    rw [header, ← append_assoc]
    rfl
  dsimp only
  rw [hsent, hback, hnumber, cons_append, set_cons_zero, ← cons_append, hnum,
    ok_bind, hvalue, hwhole]

/-! ### The long header -/

theorem exact_connID {id : Bytes} (h : id.length ≤ 20) : Exact readQUICConnID (vec 1 id) id := by
  rw [← append_nil (vec 1 id)]
  have hlen : (UInt8.ofNat id.length).toNat = id.length := toNat_ofNat_length8 (by omega)
  refine Exact.vec8 (Exact.check (decide_eq_true ?_) _ ?_)
  · rw [UInt8.le_iff_toNat_le, hlen]
    exact h
  · rw [hlen, append_nil]
    exact exact_bytes (Nat.le_trans h (by decide))

theorem exact_longHeader :
    Exact readLongHeader p.longHeader (p.destConnID, p.srcConnID, p.length.value) := by
  refine (exact_connID p.destConnID_fits).bind ((exact_connID p.srcConnID_fits).bind ?_)
  refine p.tokenLength.exact.bind ?_
  rw [p.tokenLength_eq]
  refine (exact_skip p.token_fits).bind ?_
  exact p.length.exact.bind (Exact.pure _)

/-- What the tool reports of a packet, given the CRYPTO chunks of its payload. -/
def report (chunks : List QUICCryptoChunk) : QUICInitial :=
  { version := quicVersion1, destConnID := p.destConnID, srcConnID := p.srcConnID,
    packetNum := p.packetNum, crypto := chunks, rest := p.trailing }

/-- **Every protected Initial packet is read**: its connection IDs, its number,
what its payload holds for the tool, and the rest of the datagram. -/
theorem parseQUICInitial_datagram :
    parseQUICInitial c (p.datagram c) = .ok (p.report (quicCryptoFrames p.payload)) := by
  obtain ⟨hlong, htype, -, -⟩ := p.first_sent c
  obtain ⟨sent, hsent⟩ : ∃ sent, sent = p.first ^^^ ((p.mask c).headD 0 &&& 0x0f) := ⟨_, rfl⟩
  obtain ⟨masked, hmasked⟩ : ∃ masked,
    masked = List.zipWith (· ^^^ ·) p.number ((p.mask c).drop 1) := ⟨_, rfl⟩
  have hmaskedLen : masked.length = p.numberLen := by
    have hle := p.numberLen_le
    rw [hmasked, length_zipWith, length_drop, p.length_mask c, p.length_number]
    omega
  have hpacket : p.sealedPacket c = sent :: (p.middle ++ (masked ++ p.ciphertext c)) := by
    rw [hsent, hmasked]
    rfl
  have hdata : p.datagram c = sent :: (putUint 4 quicVersion1 ++ (p.longHeader ++
      (masked ++ (p.ciphertext c ++ p.trailing)))) := by
    rw [datagram, hpacket, middle]
    simp only [cons_append, append_assoc]
  have hmiddle : p.middle.length = 4 + p.longHeader.length := by
    rw [middle, length_append, length_putUint]
  have hct := p.length_ciphertext c
  have hlen := congrArg List.length hdata
  have hsealed := congrArg List.length hpacket
  simp only [length_cons, length_append, length_putUint, hmaskedLen, hct] at hlen hsealed
  have hfields := p.length_eq
  have hnumber := p.payload_long
  -- the header up to the packet number
  have hword : slice WireError.panic (p.datagram c) 1 5 = .ok (putUint 4 quicVersion1) :=
    slice_at (show p.datagram c = [sent] ++ (putUint 4 quicVersion1 ++ _) from hdata) rfl
      (by rw [length_putUint]; rfl)
  have hrest : (⟨p.datagram c, 5⟩ : ByteReader).rest =
      p.longHeader ++ (masked ++ (p.ciphertext c ++ p.trailing)) := by
    rw [ByteReader.rest, hdata]
    rfl
  have hheader : readLongHeader ⟨p.datagram c, 5⟩ = .ok
      ((p.destConnID, p.srcConnID, p.length.value), ⟨p.datagram c, 1 + p.middle.length⟩) := by
    have hoffset : 1 + p.middle.length = 5 + p.longHeader.length := by omega
    rw [hoffset]
    exact p.exact_longHeader.takes _ _ hrest
  have hend : 1 + p.middle.length + p.length.value = (p.sealedPacket c).length := by omega
  have htake : slice WireError.panic (p.datagram c) 0 (p.sealedPacket c).length =
      .ok (p.sealedPacket c) :=
    slice_at (show p.datagram c = [] ++ (p.sealedPacket c ++ p.trailing) from rfl) rfl
      (Nat.zero_add _).symm
  have hheaderLen : p.header.length = 1 + p.middle.length + p.numberLen := by
    rw [header, length_cons, length_append, p.length_number, middle]
    omega
  have hauth : slice WireError.panic (p.header ++ p.ciphertext c) 0 p.header.length =
      .ok p.header :=
    slice_at (show p.header ++ p.ciphertext c = [] ++ (p.header ++ p.ciphertext c) from rfl) rfl
      (Nat.zero_add _).symm
  have hbody : sliceFrom WireError.panic (p.header ++ p.ciphertext c) p.header.length =
      .ok (p.ciphertext c) := by
    rw [sliceFrom_eq (by simp), drop_left]
  have htrailing : sliceFrom WireError.panic (p.datagram c) (p.sealedPacket c).length =
      .ok p.trailing := by
    rw [sliceFrom_eq (by simp [datagram]), datagram, drop_left]
  have hdecrypt : quicDecrypt c (clientKeys c p.destConnID).key (clientKeys c p.destConnID).iv
      p.packetNum p.header (p.ciphertext c) = .ok p.payload := by
    have hnum : p.packetNum < 256 ^ 8 := Nat.lt_of_lt_of_le p.packetNum_fits
      (Nat.pow_le_pow_right (by decide) (Nat.le_trans p.numberLen_le (by decide)))
    have hiv : (clientKeys c p.destConnID).iv.length = 12 := c.expand_length _ _ _
    have hopen : c.gcmOpen (clientKeys c p.destConnID).key (p.nonce c) p.header (p.ciphertext c) =
        some p.payload := c.open_seal _ _ _ _
    unfold nonce at hopen
    simp only [quicDecrypt, xorNonce_eq hiv hnum, ok_bind, hopen]
  have hmin : 7 ≤ (p.datagram c).length := by omega
  have hfirst : index WireError.panic (p.datagram c) 0 = .ok sent := by
    rw [hdata]
    rfl
  have hversion : getUint (putUint 4 quicVersion1) = quicVersion1 := by decide
  have hfits : 1 + p.middle.length + p.length.value ≤ (p.datagram c).length ∧
      quicSampleLen + 4 ≤ p.length.value := by
    rw [quicSampleLen]
    omega
  rw [← hsent] at hlong htype
  rw [parseQUICInitial, decide_eq_true hmin, ensure_true, ok_bind, hfirst, ok_bind,
    decide_eq_true hlong, ensure_true, ok_bind, decide_eq_true htype, ensure_true, ok_bind, hword,
    ok_bind]
  dsimp only
  rw [hversion, decide_eq_true rfl, ensure_true, ok_bind, hheader, ok_bind]
  dsimp only
  rw [decide_eq_true hfits, ensure_true, ok_bind, hend, htake, ok_bind,
    quicClientInitialKeys_eq, p.unprotect_sealed c, ok_bind]
  dsimp only
  rw [← hheaderLen, hauth, ok_bind, hbody, ok_bind, hdecrypt, ok_bind, htrailing, ok_bind]
  rfl

end InitialPacket

/-- **Reading inverts protection, up to the frames**: the chunks of the payload
are all reported iff no CRYPTO frame is, or comes behind, a frame that stops the
search. No bytes whatsoever lead to a panic. -/
theorem parseQUICInitial_inverts_iff (c : Primitives) :
    (∀ datagram, Safe .panic (parseQUICInitial c datagram)) ∧
      ∀ (p : InitialPacket) (frames : List InitialFrame),
        p.payload = frames.flatMap InitialFrame.put →
          (parseQUICInitial c (p.datagram c) =
              .ok (p.report (frames.filterMap InitialFrame.chunk?)) ↔
            ∀ f ∈ frames.dropWhile (fun f => !f.stops), f.chunk? = none) := by
  refine ⟨parseQUICInitial_safe c, fun p frames hpayload => ?_⟩
  rw [p.parseQUICInitial_datagram c, hpayload, ← quicCryptoFrames_put_iff]
  constructor
  · intro heq
    exact congrArg QUICInitial.crypto (Except.ok.inj heq)
  · intro heq
    rw [heq]

/-! ### Two packets -/

/-- Functions that satisfy the laws, for the packets below. -/
def plainPrimitives : Primitives where
  extract _ _ := []
  expand _ _ n := List.replicate n 7
  encrypt _ _ := List.replicate 16 0x5a
  gcmSeal _ _ _ plaintext := plaintext ++ List.replicate 16 0
  gcmOpen _ _ _ ciphertext := some (ciphertext.take (ciphertext.length - 16))
  expand_length _ _ _ := length_replicate
  encrypt_length _ _ := length_replicate
  seal_length _ _ _ _ := by simp
  open_seal _ _ _ _ := by simp

/-- A value below 64, in one byte. -/
def shortVarint (n : Nat) (h : n < 64) : EncodedVarint where
  width := 0
  value := n
  width_lt := by decide
  fits := by simpa using h

def cryptoByte : InitialFrame :=
  .crypto (shortVarint 0 (by decide)) (shortVarint 1 (by decide)) [0x41] rfl

def closeFrame : InitialFrame :=
  .connectionClose (shortVarint 0 (by decide)) (shortVarint 0 (by decide))
    (shortVarint 0 (by decide)) [] rfl

/-- A packet with the given payload of four or eight bytes. -/
def smallPacket (payload : Bytes) (hlong : 4 ≤ payload.length) (hshort : payload.length ≤ 8) :
    InitialPacket where
  destConnID := [1, 2, 3, 4, 5, 6, 7, 8]
  srcConnID := []
  token := []
  tokenLength := shortVarint 0 (by decide)
  length := shortVarint (2 + (payload.length + 16)) (by omega)
  packetNum := 258
  numberLen := 2
  payload := payload
  trailing := [0xff, 0xee]
  destConnID_fits := by decide
  srcConnID_fits := by decide
  token_fits := by decide
  tokenLength_eq := rfl
  numberLen_pos := by decide
  numberLen_le := by decide
  packetNum_fits := by decide
  payload_long := by omega
  length_eq := rfl

theorem parseQUICInitial_inverts_ping_crypto :
    parseQUICInitial plainPrimitives
        ((smallPacket ([InitialFrame.ping, cryptoByte].flatMap InitialFrame.put) (by decide)
          (by decide)).datagram plainPrimitives) =
      .ok ⟨1, [1, 2, 3, 4, 5, 6, 7, 8], [], 258, [⟨0, [0x41]⟩], [0xff, 0xee]⟩ :=
  ((parseQUICInitial_inverts_iff plainPrimitives).2 _ [.ping, cryptoByte] rfl).mpr (by decide)

/-- A CONNECTION_CLOSE in front of the CRYPTO frame hides it. -/
theorem parseQUICInitial_loses_crypto :
    [closeFrame, cryptoByte].filterMap InitialFrame.chunk? = [⟨0, [0x41]⟩] ∧
      parseQUICInitial plainPrimitives
          ((smallPacket ([closeFrame, cryptoByte].flatMap InitialFrame.put) (by decide)
            (by decide)).datagram plainPrimitives) =
        .ok ⟨1, [1, 2, 3, 4, 5, 6, 7, 8], [], 258, [], [0xff, 0xee]⟩ := by
  constructor
  · rfl
  · decide +kernel

end HeadlessClient.Capture
