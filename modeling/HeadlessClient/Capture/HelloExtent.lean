import HeadlessClient.Capture.HelloFields
import HeadlessClient.Capture.RecordHeader

/-!
# Capture — how far `ParseHello` reads

A hello is a nest of length fields: the message inside the record, the extension
block inside the message, the extensions inside the block. `Layout` finds these
places in ARBITRARY bytes by adding up lengths; the parser stands exactly there
(`readHead_pos`), but it compares none of them with the enclosing one. What
follows is said by `parseHello_own_message_iff`.
-/

namespace HeadlessClient.Capture

open Base Wire List

/-! ## The places of a hello -/

def uintAt (buf : Bytes) (i w : Nat) : Nat := getUint ((buf.drop i).take w)

namespace Layout

variable (record : Bytes)

def isDTLS : Bool := isDTLSVersion (uint16 ((record.take 3).drop 1))

/-- Where the handshake message begins. -/
def messageStart : Nat := recordHeaderLen (isDTLS record)

def isClient : Bool := uintAt record (messageStart record) 1 == handshakeClientHello.toNat

/-- Where the body of the message begins. -/
def bodyStart : Nat := messageStart record + if isDTLS record then dtlsHandshakeHeaderLen else 4

/-- Where the message ends, by its own length field. -/
def messageEnd : Nat := bodyStart record + uintAt record (messageStart record + 1) 3

def sessionEnd : Nat := bodyStart record + 35 + uintAt record (bodyStart record + 34) 1

def cookieEnd : Nat :=
  if isDTLS record && isClient record then
    sessionEnd record + 1 + uintAt record (sessionEnd record) 1
  else sessionEnd record

def suitesEnd : Nat := cookieEnd record + 2 + uintAt record (cookieEnd record) 2

/-- Where the extension block begins, or would. -/
def blockStart : Nat :=
  if isClient record then suitesEnd record + 1 + uintAt record (suitesEnd record) 1
  else cookieEnd record + 3

/-- Where the extension block ends, by its own length field. -/
def blockEnd : Nat := blockStart record + 2 + uintAt record (blockStart record) 2

end Layout

/-! ## What a successful read has read -/

variable {r r' : ByteReader} {n : Nat} {isDTLS : Bool} {record : Bytes} {hello hello' : Hello}

theorem getUint_take_lt (bs : Bytes) (w : Nat) : getUint (bs.take w) < 256 ^ w :=
  (getUint_lt _).trans_le (Nat.pow_le_pow_right (by decide) (length_take_le w bs))

theorem u8_ok {v : UInt8} (h : Parser.u8 r = .ok (v, r')) :
    v.toNat = uintAt r.buf r.pos 1 ∧ r' = r.advance 1 := by
  obtain ⟨-, rfl, hr'⟩ := primitive_u8.ok h
  exact ⟨(UInt8.toNat_ofNat' ..).trans (Nat.mod_eq_of_lt (getUint_take_lt _ 1)), hr'⟩

theorem u16_ok {v : UInt16} (h : Parser.u16 r = .ok (v, r')) :
    v.toNat = uintAt r.buf r.pos 2 ∧ r' = r.advance 2 := by
  obtain ⟨-, rfl, hr'⟩ := primitive_u16.ok h
  exact ⟨(UInt16.toNat_ofNat' ..).trans (Nat.mod_eq_of_lt (getUint_take_lt _ 2)), hr'⟩

theorem u24_ok {v : Nat} (h : Parser.u24 r = .ok (v, r')) :
    v = uintAt r.buf r.pos 3 ∧ r' = r.advance 3 :=
  (primitive_u24.ok h).2

theorem skip_ok {u : Unit} (h : Parser.skip n r = .ok (u, r')) : r' = r.advance n := by
  obtain ⟨bs, r₁, hbytes, h⟩ := step_ok h
  cases h
  exact (bytes_ok hbytes).2.2

/-! ## In front of the extensions -/

theorem readMessageSeq_ok {messageLen : Nat} {seq : UInt16}
    (h : readMessageSeq isDTLS messageLen r = .ok (seq, r')) :
    r' = r.advance (if isDTLS then 8 else 0) := by
  cases isDTLS with
  | false =>
    cases h
    rfl
  | true =>
    obtain ⟨seq', r₁, h₁, h⟩ := step_ok h
    obtain ⟨offset, r₂, h₂, h⟩ := step_ok h
    obtain ⟨length, r₃, h₃, h⟩ := step_ok h
    obtain ⟨_, r₄, h₄, h⟩ := step_ok h
    cases h
    rw [(check_ok h₄).2, (u24_ok h₃).2, (u24_ok h₂).2, (u16_ok h₁).2]
    rfl

theorem readHandshakeHeader_ok {x : UInt8 × UInt16}
    (h : readHandshakeHeader isDTLS r = .ok (x, r')) :
    x.1.toNat = uintAt r.buf r.pos 1 ∧
      r' = r.advance (if isDTLS then dtlsHandshakeHeaderLen else 4) := by
  obtain ⟨messageType, r₁, h₁, h⟩ := step_ok h
  obtain ⟨_, r₂, h₂, h⟩ := step_ok h
  obtain ⟨messageLen, r₃, h₃, h⟩ := step_ok h
  obtain ⟨messageSeq, r₄, h₄, h⟩ := step_ok h
  cases h
  refine ⟨(u8_ok h₁).1, ?_⟩
  rw [readMessageSeq_ok h₄, (u24_ok h₃).2, (check_ok h₂).2, (u8_ok h₁).2,
    ByteReader.advance_advance, ByteReader.advance_advance]
  cases isDTLS with
  | false => rfl
  | true => rfl

theorem readCookie_ok {isClient : Bool} (h : readCookie isDTLS isClient r = .ok (n, r')) :
    r' = r.advance (if isDTLS && isClient then 1 + uintAt r.buf r.pos 1 else 0) := by
  unfold readCookie at h
  split_ifs at h ⊢ with hcookie
  · obtain ⟨length, r₁, h₁, h⟩ := step_ok h
    obtain ⟨_, r₂, h₂, h⟩ := step_ok h
    cases h
    rw [skip_ok h₂, (u8_ok h₁).1, (u8_ok h₁).2, ByteReader.advance_advance]
  · cases h
    rfl

theorem readSuites_ok {isClient : Bool} {x : List UInt16 × List UInt8}
    (h : readSuites isClient r = .ok (x, r')) :
    r' = r.advance (if isClient then
      2 + uintAt r.buf r.pos 2 + 1 + uintAt r.buf (r.pos + 2 + uintAt r.buf r.pos 2) 1 else 3) := by
  cases isClient with
  | false =>
    obtain ⟨suite, r₁, h₁, h⟩ := step_ok h
    obtain ⟨method, r₂, h₂, h⟩ := step_ok h
    cases h
    rw [(u8_ok h₂).2, (u16_ok h₁).2]
    rfl
  | true =>
    obtain ⟨suitesLen, r₁, h₁, h⟩ := step_ok h
    obtain ⟨suites, r₂, h₂, h⟩ := step_ok h
    obtain ⟨cipherSuites, r₃, h₃, h⟩ := step_ok h
    obtain ⟨methodsLen, r₄, h₄, h⟩ := step_ok h
    obtain ⟨methods, r₅, h₅, h⟩ := step_ok h
    cases h
    have hlift : r₃ = r₂ := by
      obtain ⟨values, -, h₃⟩ := bind_eq_ok.mp h₃
      cases h₃
      rfl
    obtain ⟨hlength, hr₁⟩ := u16_ok h₁
    have hr₂ := (bytes_ok h₂).2.2
    obtain ⟨hmethods, hr₄⟩ := u8_ok h₄
    rw [hlength, hr₁, ByteReader.advance_advance] at hr₂
    rw [hlift, hr₂] at hmethods hr₄
    rw [ByteReader.advance_advance] at hr₄
    rw [(bytes_ok h₅).2.2, hmethods, hr₄, ByteReader.advance_advance]
    simp [ByteReader.advance, Nat.add_assoc]

theorem readHead_pos {version : UInt16}
    (h : readHead record version (Layout.isDTLS record) ⟨record, Layout.messageStart record⟩ =
      .ok (hello, r)) :
    r = ⟨record, Layout.blockStart record⟩ ∧ hello.extensions = [] ∧ hello.alpn = [] := by
  obtain ⟨x, r₀, hheader, h⟩ := step_ok h
  obtain ⟨htype, hr₀⟩ := readHandshakeHeader_ok hheader
  have hclient : decide (x.1 = handshakeClientHello) = Layout.isClient record := by
    rw [Layout.isClient, ← htype, Bool.eq_iff_iff, decide_eq_true_iff, beq_iff_eq, UInt8.toNat_inj]
  dsimp only at h
  rw [hclient] at h
  obtain ⟨version', r₁, h₁, h⟩ := step_ok h
  obtain ⟨random, r₂, h₂, h⟩ := step_ok h
  obtain ⟨sessionLen, r₃, h₃, h⟩ := step_ok h
  obtain ⟨_, r₄, h₄, h⟩ := step_ok h
  obtain ⟨cookieLen, r₅, h₅, h⟩ := step_ok h
  obtain ⟨suites, r₆, h₆, h⟩ := step_ok h
  cases h
  refine ⟨?_, rfl, rfl⟩
  have hr₂ : r₂ = ⟨record, Layout.bodyStart record + 34⟩ := by
    rw [(bytes_ok h₂).2.2, (u16_ok h₁).2, hr₀]
    rfl
  have hr₄ : r₄ = ⟨record, Layout.sessionEnd record⟩ := by
    rw [skip_ok h₄, (u8_ok h₃).1, (u8_ok h₃).2, hr₂]
    rfl
  have hr₅ : r₅ = ⟨record, Layout.cookieEnd record⟩ := by
    rw [readCookie_ok h₅, hr₄, Layout.cookieEnd]
    split
    · simp [ByteReader.advance, Nat.add_assoc]
    · rfl
  rw [readSuites_ok h₆, hr₅, Layout.blockStart, Layout.suitesEnd]
  split
  · simp [ByteReader.advance, Nat.add_assoc]
  · rfl

/-! ## The extensions -/

/-- The extensions lie end to end from `start` to `fin`. -/
def Tiles : Nat → List Extension → Nat → Prop
  | start, [], fin => start = fin
  | start, e :: es, fin => e.offset = start ∧ Tiles (start + 4 + e.length.toNat) es fin

theorem tiles_listAll (es : List RawExtension) : ∀ {start fin : Nat},
    Tiles start (listAll start es) fin ↔ start + (putExtensions es).length = fin := by
  induction es with
  | nil =>
    intro start fin
    rfl
  | cons e es ih =>
    intro start fin
    have hnext : start + 4 + (e.listed start).length.toNat = start + e.put.length := by
      rw [RawExtension.listed, toNat_ofNat_length16 e.fits, e.length_put, Nat.add_assoc]
    have hput : (putExtensions (e :: es)).length = e.put.length + (putExtensions es).length := by
      rw [putExtensions, flatMap_cons, length_append]
      rfl
    rw [listAll, Tiles, hnext, ih, hput, ← Nat.add_assoc]
    exact and_iff_right rfl

theorem rest_advance_drop (r : ByteReader) (n : Nat) : (r.advance n).rest = r.rest.drop n := by
  rw [ByteReader.rest, ByteReader.rest, ByteReader.advance, drop_drop]

theorem u16_rest {v : UInt16} (h : Parser.u16 r = .ok (v, r')) :
    r.rest = putUint 2 v.toNat ++ r'.rest := by
  have hlong := (primitive_u16.ok h).1
  rw [ByteReader.remaining_eq] at hlong
  obtain ⟨hvalue, hr'⟩ := u16_ok h
  have hput := putUint_getUint (r.rest.take 2)
  rw [length_take, Nat.min_eq_left hlong] at hput
  rw [hvalue, hr', rest_advance_drop, uintAt]
  change r.rest = putUint 2 (getUint (r.rest.take 2)) ++ _
  rw [hput, take_append_drop]

theorem bytes_rest {bs : Bytes} (h : Parser.bytes n r = .ok (bs, r')) : r.rest = bs ++ r'.rest := by
  obtain ⟨hbs, -, hr'⟩ := bytes_ok h
  rw [hbs, hr', rest_advance_drop, take_append_drop]

theorem readExtension_ok {offset : Nat} {extension : Extension} {body : Bytes}
    (h : readExtension offset r = .ok ((extension, body), r')) :
    ∃ e : RawExtension, extension = e.listed offset ∧ body = e.body ∧
      r.rest = e.put ++ r'.rest ∧ r' = r.advance e.put.length := by
  obtain ⟨type, r₁, h₁, h⟩ := step_ok h
  obtain ⟨length, r₂, h₂, h⟩ := step_ok h
  obtain ⟨body', r₃, h₃, h⟩ := step_ok h
  cases h
  obtain ⟨-, hlength, hr₃⟩ := bytes_ok h₃
  have hfits : body.length < 256 ^ 2 := by
    rw [hlength]
    exact length.toNat_lt
  refine ⟨⟨type, body, hfits⟩, ?_, rfl, ?_, ?_⟩
  · rw [RawExtension.listed, hlength, UInt16.ofNat_toNat]
  · rw [u16_rest h₁, u16_rest h₂, bytes_rest h₃, RawExtension.put, vec, hlength]
    simp
  · rw [hr₃, (u16_ok h₂).2, (u16_ok h₁).2, ByteReader.advance_advance, ByteReader.advance_advance,
      RawExtension.length_put, hlength, ← Nat.add_assoc]

theorem addAll_extensions (es : List RawExtension) : ∀ {hello hello' : Hello} {offset : Nat},
    addAll hello offset es = .ok hello' →
      hello'.extensions = hello.extensions ++ listAll offset es := by
  induction es with
  | nil =>
    intro hello hello' offset h
    cases h
    exact (append_nil _).symm
  | cons e es ih =>
    intro hello hello' offset h
    obtain ⟨hello₁, hadd, h⟩ := bind_eq_ok.mp h
    rw [ih h, (touches_applyKnownExtension _ _ _ _ hadd).extensions, listAll, append_assoc]
    rfl

/-- **What the loop over the extensions has read**: whole extensions, up to or
PAST the end of the block. -/
theorem runLoop_extensions_ok {fin : Nat}
    (h : runLoop _ (extensionRound fin) (hello, r) = .ok (hello', r')) :
    ∃ es, addAll hello r.pos es = .ok hello' ∧
      r.rest = putExtensions es ++ r'.rest ∧ r' = r.advance (putExtensions es).length ∧
      fin ≤ r'.pos := by
  obtain ⟨n, hn⟩ : ∃ n, n = r.remaining := ⟨_, rfl⟩
  induction n using Nat.strongRecOn generalizing hello r with
  | _ n ih =>
    by_cases hlt : r.pos < fin
    · cases hread : readExtension r.pos r with
      | error e =>
        rw [runLoop_error (extensionRound_error (by exact hlt) (by exact hread))] at h
        cases h
      | ok x =>
        obtain ⟨⟨extension, body⟩, r₁⟩ := x
        have hround := extensionRound_next (s := (hello, r)) hlt hread
        obtain ⟨hello₁, hadd⟩ : Returns (addExtension hello extension body) :=
          applyKnownExtension_returns _ _ _
        rw [hadd, ok_bind] at hround
        rw [runLoop_next hround] at h
        obtain ⟨e, rfl, rfl, hrest, hr₁⟩ := readExtension_ok hread
        have hsmaller := readExtension_remaining hread
        obtain ⟨es, hes, hrest', hr', hfin⟩ := ih r₁.remaining (by omega) h rfl
        have hpos : r₁.pos = r.pos + e.put.length := by
          rw [hr₁]
          rfl
        have hput : putExtensions (e :: es) = e.put ++ putExtensions es := flatMap_cons
        refine ⟨e :: es, ?_, ?_, ?_, hfin⟩
        · rw [addAll, hadd, ok_bind, ← hpos, hes]
        · rw [hrest, hrest', hput, append_assoc]
        · rw [hr', hr₁, ByteReader.advance_advance, hput, length_append]
    · have hle := Nat.not_lt.mp hlt
      rw [runLoop_done (extensionRound_done (by exact hle))] at h
      cases h
      exact ⟨[], rfl, rfl, rfl, hle⟩

theorem parseExtensions_ok (hmore : r.remaining ≠ 0)
    (h : parseExtensions hello r = .ok (hello', r')) :
    ∃ (length : UInt16) (r₁ : ByteReader), Parser.u16 r = .ok (length, r₁) ∧
      r₁.pos + length.toNat ≤ r₁.buf.length ∧
      runLoop _ (extensionRound (r₁.pos + length.toNat)) (hello, r₁) = .ok (hello', r') := by
  unfold parseExtensions at h
  rw [if_neg hmore] at h
  obtain ⟨length, r₁, hlength, h⟩ := step_ok h
  dsimp only at h
  obtain ⟨hout, h⟩ := guard_eq_ok.mp h
  exact ⟨length, r₁, hlength, Nat.not_lt.mp hout, h⟩

/-- **The listed extensions fill the block iff the block consists of whole
extensions.** -/
theorem parseExtensions_fills_iff (hnil : hello.extensions = []) (hmore : r.remaining ≠ 0)
    (h : parseExtensions hello r = .ok (hello', r')) :
    Tiles (r.pos + 2) hello'.extensions (r.pos + 2 + uintAt r.buf r.pos 2) ↔
      ∃ es, (r.buf.drop (r.pos + 2)).take (uintAt r.buf r.pos 2) = putExtensions es := by
  obtain ⟨length, r₁, hlength, hinside, hloop⟩ := parseExtensions_ok hmore h
  obtain ⟨hvalue, hr₁⟩ := u16_ok hlength
  have hpos : r₁.pos = r.pos + 2 := by
    rw [hr₁]
    rfl
  have hbuf : r₁.buf = r.buf := by
    rw [hr₁]
    rfl
  rw [← hvalue, ← hpos, ← hbuf]
  obtain ⟨es, hadd, hrest, hr', hfin⟩ := runLoop_extensions_ok hloop
  have hes := addAll_extensions es hadd
  rw [hnil, nil_append] at hes
  rw [hes, tiles_listAll]
  constructor
  · intro hlen
    refine ⟨es, ?_⟩
    change r₁.rest.take length.toNat = _
    rw [hrest, take_left' (by omega)]
  · rintro ⟨es', hes'⟩
    -- the loop stops behind `es'`, and it has stopped behind `es`
    have hlen' : (putExtensions es').length = length.toNat := by
      rw [← hes', length_take, length_drop]
      omega
    have hrest' : r₁.rest = putExtensions es' ++ r₁.rest.drop length.toNat := by
      rw [← hes']
      exact (take_append_drop _ _).symm
    have hrun := runLoop_extensions es' hello r₁ _ hrest'
    rw [hlen', hloop] at hrun
    obtain ⟨hello'', -, hrun⟩ := bind_eq_ok.mp hrun.symm
    cases hrun
    have := congrArg ByteReader.pos hr'
    simp only [ByteReader.advance] at this
    omega

/-! ## Accepted records -/

theorem parseHello_ok (h : parseHello record = .ok hello) :
    ∃ hello₀ r', (hello₀.extensions = [] ∧ hello₀.alpn = []) ∧
      Layout.blockStart record ≤ record.length ∧
      parseExtensions hello₀ ⟨record, Layout.blockStart record⟩ = .ok (hello, r') := by
  obtain ⟨_, hfive, h⟩ := bind_eq_ok.mp h
  obtain ⟨contentType, -, h⟩ := bind_eq_ok.mp h
  obtain ⟨_, -, h⟩ := bind_eq_ok.mp h
  obtain ⟨pair, hpair, h⟩ := bind_eq_ok.mp h
  obtain ⟨_, hlong, h⟩ := bind_eq_ok.mp h
  obtain ⟨hello', r', hread, h⟩ := step_ok h
  cases h
  have hfive := of_decide_eq_true (ensure_eq_ok hfive)
  have hlong := of_decide_eq_true (ensure_eq_ok hlong)
  unfold tlsRecordHeaderLen at hfive
  rw [slice_eq (by decide) (by omega)] at hpair
  have hdtls : isDTLSVersion (uint16 pair) = Layout.isDTLS record := by
    rw [Layout.isDTLS, ← Except.ok.inj hpair]
  rw [hdtls] at hread hlong
  rw [readHello_eq] at hread
  obtain ⟨hello₀, r₀, hhead, hread⟩ := step_ok hread
  obtain ⟨hr₀, hnil⟩ := readHead_pos hhead
  have hsteady := ((moved_readHead (uint16 pair) record record (uint16 pair)
    (Layout.isDTLS record)).steady ⟨record, recordHeaderLen (Layout.isDTLS record)⟩
      (Nat.le_of_succ_le hlong)).2 _ _ hhead
  rw [hr₀] at hread hsteady
  exact ⟨hello₀, r', hnil, hsteady.2.2, hread⟩

/-- The extensions of the hello fill the extension block of the record, which
ends inside the handshake message; a record that ends where the block would begin
has none. -/
def ReportsOwnBlock (record : Bytes) (hello : Hello) : Prop :=
  if record.length = Layout.blockStart record then hello.extensions = []
  else
    Tiles (Layout.blockStart record + 2) hello.extensions (Layout.blockEnd record) ∧
      Layout.blockEnd record ≤ Layout.messageEnd record

/-- The block is made of whole extensions and ends inside the message, or the
record ends where it would begin. -/
def WholeBlock (record : Bytes) : Prop :=
  record.length = Layout.blockStart record ∨
    (∃ es, (record.drop (Layout.blockStart record + 2)).take
        (uintAt record (Layout.blockStart record) 2) = putExtensions es) ∧
      Layout.blockEnd record ≤ Layout.messageEnd record

theorem reportsOwnBlock_iff (h : parseHello record = .ok hello) :
    ReportsOwnBlock record hello ↔ WholeBlock record := by
  obtain ⟨hello₀, r', ⟨hnil, -⟩, hle, hread⟩ := parseHello_ok h
  unfold ReportsOwnBlock WholeBlock
  by_cases hend : record.length = Layout.blockStart record
  · have hrem : (⟨record, Layout.blockStart record⟩ : ByteReader).remaining = 0 := by
      simp [ByteReader.remaining, hend]
    rw [parseExtensions, if_pos hrem] at hread
    cases hread
    simp [hend, hnil]
  · have hmore : (⟨record, Layout.blockStart record⟩ : ByteReader).remaining ≠ 0 := by
      unfold ByteReader.remaining
      dsimp only
      omega
    have hfills := parseExtensions_fills_iff hnil hmore hread
    dsimp only at hfills
    rw [if_neg hend, or_iff_right hend, ← hfills]
    rfl

/-! ## What follows a record -/

/-- The same hello out of other bytes. -/
def Hello.withRaw (raw : Bytes) (hello : Hello) : Hello := { hello with raw }

theorem addAll_relabel (version : UInt16) (raw : Bytes) (es : List RawExtension) :
    ∀ (hello : Hello) (offset : Nat), addAll (hello.relabel version raw) offset es =
      (addAll hello offset es).map (Hello.relabel version raw) := by
  induction es with
  | nil =>
    intro hello offset
    rfl
  | cons e es ih =>
    intro hello offset
    rw [addAll, addAll, addExtension_relabel]
    cases addExtension hello (e.listed offset) e.body with
    | error err => rfl
    | ok hello' => exact ih hello' _

/-- The bytes a hello is read from show in `raw` only. -/
theorem addAll_withRaw (f : Framing) (m : Fields) (raw raw' : Bytes) (offset : Nat)
    (es : List RawExtension) :
    addAll (headReport f m raw') offset es =
      (addAll (headReport f m raw) offset es).map (Hello.withRaw raw') := by
  obtain ⟨hello, hadd⟩ := addAll_returns es (headReport f m raw) offset
  have hsame := addAll_relabel f.version raw es (headReport f m raw) offset
  have hother := addAll_relabel f.version raw' es (headReport f m raw) offset
  change addAll (headReport f m raw) offset es = _ at hsame
  change addAll (headReport f m raw') offset es = _ at hother
  rw [hadd] at hsame hother ⊢
  have hversion : hello.recordVersion = f.version :=
    congrArg Hello.recordVersion (Except.ok.inj hsame)
  rw [hother]
  change Except.ok (hello.relabel f.version raw') = .ok (hello.withRaw raw')
  rw [Hello.relabel, Hello.withRaw, ← hversion]

namespace HelloRecord

variable {h : HelloRecord}

/-- The record's length field holds its length. -/
def FitsRecord (h : HelloRecord) : Prop := (h.head ++ h.block).length < 256 ^ 2

instance (h : HelloRecord) : Decidable h.FitsRecord :=
  inferInstanceAs (Decidable ((h.head ++ h.block).length < 256 ^ 2))

theorem FitsRecord.bodyLength_lt (hfits : h.FitsRecord) : h.bodyLength < 256 ^ 3 :=
  Nat.lt_of_le_of_lt h.bodyLength_le (Nat.lt_trans hfits (by decide))

/-- With more bytes behind it, a record is read up to its extension block. -/
theorem parseHello_append (hfits : h.FitsRecord) (t : Bytes) :
    parseHello (h.encode ++ t) = (do
      let (hello, _) ← parseExtensions (headReport h.framing h.fields (h.encode ++ t))
        ⟨h.encode ++ t, h.blockOffset⟩
      .ok hello) :=
  parseHello_head h.framing h.fields hfits.bodyLength_lt (h.head ++ h.block).length
    (show h.encode ++ t = h.header ++ (h.head ++ (h.block ++ t)) by
      rw [encode, append_assoc, append_assoc])

theorem rest_block (t : Bytes) :
    (⟨h.encode ++ t, h.blockOffset⟩ : ByteReader).rest = h.block ++ t := by
  have hsplit : h.encode ++ t = (h.header ++ h.head) ++ (h.block ++ t) := by
    rw [encode, ← append_assoc, append_assoc]
  rw [ByteReader.rest, hsplit, blockOffset, drop_left]

/-- The bytes behind a record with an extension block do not matter, and those
behind a record without one are read as such a block. -/
theorem parseHello_append_block (hfits : h.FitsRecord) {es : List RawExtension} {t t' : Bytes}
    (hes : (putExtensions es).length < 256 ^ 2)
    (hblock : h.block ++ t = vec 2 (putExtensions es) ++ t') :
    parseHello (h.encode ++ t) =
      (addAll (headReport h.framing h.fields h.encode) (h.blockOffset + 2) es).map
        (Hello.withRaw (h.encode ++ t)) := by
  rw [parseHello_append hfits, parseExtensions_block _ hes ((rest_block t).trans hblock),
    addAll_withRaw h.framing h.fields h.encode]
  cases addAll (headReport h.framing h.fields h.encode) (h.blockOffset + 2) es with
  | error e => rfl
  | ok hello => rfl

/-- A record without an extension block that reads the same in front of other
bytes is followed by an empty block, or by nothing. -/
theorem zero_of_append (hfits : h.FitsRecord) (hnone : h.extensions = none) {t : Bytes}
    (hne : t ≠ []) (hparse : parseHello (h.encode ++ t) = .ok hello)
    (hnil : hello.extensions = []) :
    [0, 0] <+: t := by
  have hrest : (⟨h.encode ++ t, h.blockOffset⟩ : ByteReader).rest = t := by
    rw [rest_block, block, hnone, nil_append]
  have hmore : (⟨h.encode ++ t, h.blockOffset⟩ : ByteReader).remaining ≠ 0 := by
    rw [ByteReader.remaining_eq, hrest]
    exact fun hzero => hne (length_eq_zero_iff.mp hzero)
  rw [parseHello_append hfits] at hparse
  obtain ⟨hello', r', hread, hparse⟩ := step_ok hparse
  cases hparse
  obtain ⟨length, r₁, hlength, -, hloop⟩ := parseExtensions_ok hmore hread
  obtain ⟨es, hadd, -, hr', hfin⟩ := runLoop_extensions_ok hloop
  have hes := addAll_extensions es hadd
  rw [hnil] at hes
  have hempty : es = [] := by
    cases es with
    | nil => rfl
    | cons e es => simp [listAll] at hes
  have hzero : length.toNat = 0 := by
    rw [hempty] at hr'
    have := congrArg ByteReader.pos hr'
    simp only [ByteReader.advance, putExtensions, flatMap_nil, length_nil] at this
    omega
  have htwo := u16_rest hlength
  rw [hrest, hzero] at htwo
  exact ⟨r₁.rest, htwo.symm⟩

/-- **Bytes behind a record do not matter iff it has an extension block**, or
what follows looks like an empty one. -/
theorem parseHello_append_iff (hfits : h.FitsRecord) (t : Bytes) :
    parseHello (h.encode ++ t) = (parseHello h.encode).map (Hello.withRaw (h.encode ++ t)) ↔
      h.extensions.isSome = true ∨ t = [] ∨ [0, 0] <+: t := by
  rw [h.parseHello_encode hfits.bodyLength_lt]
  cases hes : h.extensions with
  | some es =>
    have hblock : h.block ++ t = vec 2 (putExtensions es) ++ t := by rw [block, hes]
    rw [parseHello_append_block hfits (h.fits es hes) hblock]
    simp
  | none =>
    have hblock : h.block = [] := by rw [block, hes]
    constructor
    · intro hsame
      by_cases hne : t = []
      · exact .inr (.inl hne)
      · exact .inr (.inr (zero_of_append hfits hes hne hsame rfl))
    · rintro (hsome | rfl | ⟨t', rfl⟩)
      · cases hsome
      · rw [append_nil, h.parseHello_encode hfits.bodyLength_lt, hes]
        rfl
      · exact parseHello_append_block hfits (by decide) (by rw [hblock]; rfl)

end HelloRecord

/-- **When `ParseHello` reads its own message only.** A record that is followed
by other bytes is read as on its own iff it has an extension block, or nothing or
two zero bytes follow; and of any bytes that are accepted the reported extensions
fill the declared block inside the declared message iff that block is made of
whole extensions and ends there. -/
theorem parseHello_own_message_iff {h : HelloRecord} (hfits : h.FitsRecord) (t : Bytes)
    {record : Bytes} {hello : Hello} (hread : parseHello record = .ok hello) :
    (parseHello (h.encode ++ t) = (parseHello h.encode).map (Hello.withRaw (h.encode ++ t)) ↔
        h.extensions.isSome = true ∨ t = [] ∨ [0, 0] <+: t) ∧
      (ReportsOwnBlock record hello ↔ WholeBlock record) :=
  ⟨HelloRecord.parseHello_append_iff hfits t, reportsOwnBlock_iff hread⟩

/-! ### A hello in front of another record -/

/-- A TLS ClientHello with the extensions given, or without a block. -/
def shortHello (extensions : Option (List RawExtension))
    (fits : ∀ es, extensions = some es → (putExtensions es).length < 256 ^ 2) : HelloRecord :=
  ⟨.tls 0x0301 isDTLSVersion_tls10, .minimal 0xc02f, extensions, fits⟩

def bareHello : HelloRecord := shortHello none (by simp)

def renegotiationHello : HelloRecord := shortHello (some [⟨0xff01, [0], by simp⟩]) (by simp; decide)

def changeCipherSpec : Bytes := [20, 3, 3, 0, 1, 1]

theorem parseHello_own_message_renegotiation :
    ∃ hello, parseHello renegotiationHello.encode = .ok hello ∧
      parseHello (renegotiationHello.encode ++ changeCipherSpec) =
        .ok (hello.withRaw (renegotiationHello.encode ++ changeCipherSpec)) ∧
      ReportsOwnBlock renegotiationHello.encode hello := by
  obtain ⟨hello, hread⟩ := addAll_returns (renegotiationHello.extensions.getD [])
    (headReport renegotiationHello.framing renegotiationHello.fields renegotiationHello.encode)
    (renegotiationHello.blockOffset + 2)
  rw [← renegotiationHello.parseHello_encode (by decide +kernel)] at hread
  obtain ⟨happend, hown⟩ := @parseHello_own_message_iff renegotiationHello (by decide +kernel)
    changeCipherSpec _ hello hread
  refine ⟨hello, hread, ?_, hown.mpr (.inr ⟨⟨[⟨0xff01, [0], by simp⟩], ?_⟩, ?_⟩)⟩
  · rw [happend.mpr (.inl rfl), hread]
    rfl
  · decide +kernel
  · decide +kernel

/-- Bytes that follow a hello without extensions are read as its extensions: a
record that follows makes it truncated, and here they become an extension of six
bytes in a block of four, behind the end of the message. -/
theorem parseHello_reads_on :
    (parseHello bareHello.encode).toOption.map (fun hello => hello.extensions) = some [] ∧
      parseHello (bareHello.encode ++ changeCipherSpec) = .error .truncated ∧
      (parseHello (bareHello.encode ++ [0, 4, 0, 23, 0, 2, 7, 7])).toOption.map
        (fun hello => hello.extensions) = some [⟨23, 2, 53⟩] ∧
      Layout.blockEnd (bareHello.encode ++ [0, 4, 0, 23, 0, 2, 7, 7]) = 57 ∧
      Layout.messageEnd (bareHello.encode ++ [0, 4, 0, 23, 0, 2, 7, 7]) = 51 := by
  decide +kernel

end HeadlessClient.Capture
