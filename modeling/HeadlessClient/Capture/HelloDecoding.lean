import HeadlessClient.Capture.ClientExtensions
import HeadlessClient.Capture.HelloExtent

/-!
# Capture — decoding a hello inverts encoding

For a ClientHello, `ParseHello` reports what was encoded, field by field, and
for every extension where in the record it sits. For a ServerHello it does NOT:
the extensions are read with the layouts a CLIENT uses, and two of them have
another layout when the server sends them.
-/

namespace HeadlessClient.Capture

open Base Wire List

/-! ## Where the extensions are -/

theorem listAll_append (before after : List RawExtension) : ∀ offset : Nat,
    listAll offset (before ++ after) =
      listAll offset before ++ listAll (offset + (putExtensions before).length) after := by
  induction before with
  | nil => intro offset; simp [listAll, putExtensions]
  | cons e before ih =>
    intro offset
    have hlen :
        (putExtensions (e :: before)).length = e.put.length + (putExtensions before).length := by
      simp [putExtensions]
    rw [cons_append, listAll, listAll, ih, hlen, Nat.add_assoc]
    rfl

theorem length_listAll (es : List RawExtension) :
    ∀ offset, (listAll offset es).length = es.length := by
  induction es with
  | nil => intro offset; rfl
  | cons e es ih => intro offset; simp [listAll, ih]

/-- The `i`-th extension is listed at the index of its type field. -/
theorem listAll_offset {front : Bytes} {before after : List RawExtension} {e : RawExtension}
    {offset : Nat} (hfront : offset = front.length) {t : Bytes} :
    ∃ x, (listAll offset (before ++ e :: after))[before.length]? = some x ∧
      x = e.listed (front ++ putExtensions before).length ∧
      (front ++ (putExtensions (before ++ e :: after) ++ t)).drop x.offset =
        e.put ++ (putExtensions after ++ t) := by
  refine ⟨e.listed (front ++ putExtensions before).length, ?_, rfl, ?_⟩
  · rw [listAll_append, getElem?_append_right (by rw [length_listAll]), length_listAll,
      Nat.sub_self, listAll, getElem?_cons_zero, hfront, length_append]
  · have hsplit : front ++ (putExtensions (before ++ e :: after) ++ t) =
        (front ++ putExtensions before) ++ (e.put ++ (putExtensions after ++ t)) := by
      simp [putExtensions]
    rw [hsplit]
    exact drop_left

/-! ## ClientHello -/

/-- An extension a client may send. -/
structure WireExtension where
  ext : ClientExtension
  wellFormed : ext.WellFormed
  fits : ext.body.length < 256 ^ 2

def WireExtension.raw (e : WireExtension) : RawExtension := ⟨e.ext.type, e.ext.body, e.fits⟩

namespace ClientExtension

def hostName? : ClientExtension → Option Bytes
  | .serverName names => some (hostName names)
  | _ => none

def groups? : ClientExtension → Option (List UInt16)
  | .supportedGroups groups => some groups
  | _ => none

def formats? : ClientExtension → Option (List UInt8)
  | .pointFormats formats => some formats
  | _ => none

def algorithms? : ClientExtension → Option (List UInt16)
  | .signatureAlgorithms algorithms => some algorithms
  | _ => none

def profiles? : ClientExtension → Option (List UInt16)
  | .useSRTP profiles _ => some profiles
  | _ => none

def protocols? : ClientExtension → Option (List Bytes)
  | .alpn protocols => some (protocols.map ProtocolName.name)
  | _ => none

def versions? : ClientExtension → Option (List UInt16)
  | .supportedVersions versions => some versions
  | _ => none

def shares? : ClientExtension → Option (List KeyShareEntry)
  | .keyShare shares => some shares
  | _ => none

def params? : ClientExtension → Option (List QUICTransportParam)
  | .quicTransportParams params => some (params.map TransportParameter.report)
  | _ => none

end ClientExtension

open ClientExtension in
/-- The report on a list of extensions: for every field, the extension that has
it, and what was there if none does. -/
def reportAll (hello : Hello) (es : List ClientExtension) : Hello :=
  { hello with
    serverName := (es.findSome? hostName?).getD hello.serverName
    supportedGroups := (es.findSome? groups?).getD hello.supportedGroups
    pointFormats := (es.findSome? formats?).getD hello.pointFormats
    signatureAlgorithms := (es.findSome? algorithms?).getD hello.signatureAlgorithms
    useSRTPProfiles := (es.findSome? profiles?).getD hello.useSRTPProfiles
    alpn := (es.findSome? protocols?).getD hello.alpn
    supportedVersions := (es.findSome? versions?).getD hello.supportedVersions
    keyShareGroups :=
      ((es.findSome? shares?).map fun shares => shares.map KeyShareEntry.group).getD
        hello.keyShareGroups
    keyShareLengths :=
      ((es.findSome? shares?).map fun shares => shares.map fun s => s.key.length).getD
        hello.keyShareLengths
    quicTransportParams := (es.findSome? params?).getD hello.quicTransportParams }

variable {es : List ClientExtension}

/-- A field is looked up in the extension of one type only. -/
theorem findSome?_eq_none_of_type {β : Type} {p : ClientExtension → Option β} {t : UInt16}
    (h : t ∉ es.map ClientExtension.type) (hp : ∀ e, e.type ≠ t → p e = none := by
      rintro ⟨⟩ he <;> first | rfl | exact absurd rfl he) :
    es.findSome? p = none := by
  rw [findSome?_eq_none_iff]
  intro e he
  refine hp e fun htype => h ?_
  rw [← htype]
  exact mem_map_of_mem he

open ClientExtension in
/-- Extensions of distinct types do not disturb each other. -/
theorem reportAll_cons (hello : Hello) {e : ClientExtension}
    (hfresh : e.type ∉ es.map ClientExtension.type) :
    reportAll (e.report hello) es = reportAll hello (e :: es) := by
  -- in each case the field that `e` sets is not set again by `es`
  cases e with
  | serverName names =>
    rw [reportAll, findSome?_eq_none_of_type (p := hostName?) hfresh]
    rfl
  | supportedGroups groups =>
    rw [reportAll, findSome?_eq_none_of_type (p := groups?) hfresh]
    rfl
  | pointFormats formats =>
    rw [reportAll, findSome?_eq_none_of_type (p := formats?) hfresh]
    rfl
  | signatureAlgorithms algorithms =>
    rw [reportAll, findSome?_eq_none_of_type (p := algorithms?) hfresh]
    rfl
  | useSRTP profiles mki =>
    rw [reportAll, findSome?_eq_none_of_type (p := profiles?) hfresh]
    rfl
  | alpn protocols =>
    rw [reportAll, findSome?_eq_none_of_type (p := protocols?) hfresh]
    rfl
  | supportedVersions versions =>
    rw [reportAll, findSome?_eq_none_of_type (p := versions?) hfresh]
    rfl
  | keyShare shares =>
    rw [reportAll, findSome?_eq_none_of_type (p := shares?) hfresh]
    rfl
  | quicTransportParams params =>
    rw [reportAll, findSome?_eq_none_of_type (p := params?) hfresh]
    rfl
  | other type body => rfl

/-- What one extension adds is independent of the list of all extensions. -/
theorem report_with_extensions (e : ClientExtension) (hello : Hello) (xs : List Extension) :
    { e.report hello with extensions := (e.report hello).extensions ++ xs } =
      e.report { hello with extensions := hello.extensions ++ xs } := by
  cases e <;> rfl

theorem addAll_wire (es : List WireExtension) : ∀ (hello : Hello) (offset : Nat),
    (es.map fun e => e.ext.type).Nodup →
      addAll hello offset (es.map WireExtension.raw) =
        .ok (reportAll
          { hello with
            extensions := hello.extensions ++ listAll offset (es.map WireExtension.raw) }
          (es.map WireExtension.ext)) := by
  induction es with
  | nil =>
    intro hello offset _
    simp only [map_nil, listAll, append_nil]
    rfl
  | cons e es ih =>
    intro hello offset hnodup
    rw [map_cons, nodup_cons] at hnodup
    have hfresh : e.ext.type ∉ (es.map WireExtension.ext).map ClientExtension.type := by
      rw [map_map]
      exact hnodup.1
    have hadd : addExtension hello (e.raw.listed offset) e.raw.body = .ok (e.ext.report
        { hello with extensions := hello.extensions ++ [e.raw.listed offset] }) :=
      applyKnownExtension_body e.wellFormed _
    rw [map_cons, addAll, hadd, ok_bind, ih _ _ hnodup.2, report_with_extensions,
      reportAll_cons _ hfresh, listAll, append_assoc]
    rfl

/-- A ClientHello that can be put in a record. -/
structure ClientHello where
  framing : Framing
  helloVersion : UInt16
  random : Bytes
  sessionID : Bytes
  /-- Only DTLS has one. -/
  cookie : Bytes
  cipherSuites : List UInt16
  compressionMethods : List UInt8
  extensions : Option (List WireExtension)
  random_length : random.length = helloRandomLen
  sessionID_fits : sessionID.length < 256
  cookie_fits : cookie.length < 256
  suites_fit : 2 * cipherSuites.length < 256 ^ 2
  methods_fit : compressionMethods.length < 256
  block_fits : ∀ es, extensions = some es →
    (putExtensions (es.map WireExtension.raw)).length < 256 ^ 2
  distinct : ∀ es, extensions = some es → (es.map fun e => e.ext.type).Nodup

namespace ClientHello

def toRecord (h : ClientHello) : HelloRecord where
  framing := h.framing
  fields :=
    { helloVersion := h.helloVersion, random := h.random, sessionID := h.sessionID,
      cookie := h.cookie,
      suites := .offered h.cipherSuites h.compressionMethods h.suites_fit h.methods_fit,
      random_length := h.random_length, sessionID_fits := h.sessionID_fits,
      cookie_fits := h.cookie_fits }
  extensions := h.extensions.map fun es => es.map WireExtension.raw
  fits := by
    intro raws hraws
    obtain ⟨es, hes, rfl⟩ := Option.map_eq_some_iff.mp hraws
    exact h.block_fits es hes

def encode (h : ClientHello) : Bytes := h.toRecord.encode

/-- The index in the record of the first extension, if there is one. -/
def firstOffset (h : ClientHello) : Nat := h.toRecord.blockOffset + 2

def exts (h : ClientHello) : List WireExtension := h.extensions.getD []

open ClientExtension in
def report (h : ClientHello) : Hello where
  kind := if h.framing.isDTLS then .dtlsClient else .tlsClient
  recordVersion := h.framing.version
  helloVersion := h.helloVersion
  messageSeq := h.framing.messageSeq
  random := h.random
  sessionIDLen := h.sessionID.length
  cookieLen := if h.framing.isDTLS then h.cookie.length else 0
  cipherSuites := h.cipherSuites
  compressionMethods := h.compressionMethods
  extensions := listAll h.firstOffset (h.exts.map WireExtension.raw)
  serverName := ((h.exts.map WireExtension.ext).findSome? hostName?).getD []
  supportedGroups := ((h.exts.map WireExtension.ext).findSome? groups?).getD []
  supportedVersions := ((h.exts.map WireExtension.ext).findSome? versions?).getD []
  keyShareGroups := (((h.exts.map WireExtension.ext).findSome? shares?).map fun shares =>
    shares.map KeyShareEntry.group).getD []
  keyShareLengths := (((h.exts.map WireExtension.ext).findSome? shares?).map fun shares =>
    shares.map fun s => s.key.length).getD []
  pointFormats := ((h.exts.map WireExtension.ext).findSome? formats?).getD []
  signatureAlgorithms := ((h.exts.map WireExtension.ext).findSome? algorithms?).getD []
  alpn := ((h.exts.map WireExtension.ext).findSome? protocols?).getD []
  quicTransportParams := ((h.exts.map WireExtension.ext).findSome? params?).getD []
  useSRTPProfiles := ((h.exts.map WireExtension.ext).findSome? profiles?).getD []
  raw := h.encode

theorem headReport_eq (h : ClientHello) :
    headReport h.framing h.toRecord.fields h.encode =
      { kind := if h.framing.isDTLS then .dtlsClient else .tlsClient
        recordVersion := h.framing.version, helloVersion := h.helloVersion
        messageSeq := h.framing.messageSeq, random := h.random
        sessionIDLen := h.sessionID.length
        cookieLen := if h.framing.isDTLS then h.cookie.length else 0
        cipherSuites := h.cipherSuites, compressionMethods := h.compressionMethods
        raw := h.encode } := by
  cases hdtls : h.framing.isDTLS with
  | false => simp [headReport, Fields.report, hdtls, toRecord, helloKind, Suites.messageType,
      Fields.cookieLen, Suites.cipherSuites, Suites.compressionMethods]
  | true => simp [headReport, Fields.report, hdtls, toRecord, helloKind, Suites.messageType,
      Fields.cookieLen, Suites.isClient, Suites.cipherSuites, Suites.compressionMethods]

theorem exts_nodup (h : ClientHello) : (h.exts.map fun e => e.ext.type).Nodup := by
  unfold exts
  cases hes : h.extensions with
  | none => exact nodup_nil
  | some es => exact h.distinct es hes

/-- **Decoding a ClientHello inverts encoding**: every field is reported as it
was encoded, and every extension at the index of its type field. -/
theorem parseHello_client_encode (h : ClientHello) (hsize : h.encode.length ≤ 65536) :
    parseHello h.encode = .ok h.report ∧
      ∀ before e after, h.extensions = some (before ++ e :: after) →
        ∃ x, h.report.extensions[before.length]? = some x ∧ x.type = e.ext.type ∧
          x.length.toNat = e.ext.body.length ∧
          h.encode.drop x.offset =
            putUint 2 e.ext.type.toNat ++ (vec 2 e.ext.body ++
              putExtensions (after.map WireExtension.raw)) := by
  constructor
  · have hraws : h.toRecord.extensions.getD [] = h.exts.map WireExtension.raw := by
      change (h.extensions.map fun es => es.map WireExtension.raw).getD [] =
        (h.extensions.getD []).map WireExtension.raw
      cases h.extensions with
      | none => rfl
      | some es => rfl
    have hparse := h.toRecord.parseHello_encode (HelloRecord.bodyLength_lt hsize)
    rw [hraws, addAll_wire _ _ _ h.exts_nodup] at hparse
    change parseHello h.encode = .ok (reportAll
      { headReport h.framing h.toRecord.fields h.encode with extensions := _ } _) at hparse
    rw [hparse, headReport_eq]
    rfl
  · intro before e after hes
    have hexts : h.exts.map WireExtension.raw =
        before.map WireExtension.raw ++ e.raw :: after.map WireExtension.raw := by
      rw [exts, hes]
      simp
    have hblock : h.toRecord.block = vec 2 (putExtensions
        (before.map WireExtension.raw ++ e.raw :: after.map WireExtension.raw)) := by
      have hsome : h.toRecord.extensions = some ((before ++ e :: after).map WireExtension.raw) := by
        change h.extensions.map _ = _
        rw [hes]
        rfl
      rw [HelloRecord.block, hsome, map_append, map_cons]
    -- everything in front of the first extension, the length of the block included
    obtain ⟨front, hfront⟩ : ∃ front, front = h.toRecord.header ++ h.toRecord.head ++
      putUint 2 (putExtensions (before.map WireExtension.raw ++
        e.raw :: after.map WireExtension.raw)).length := ⟨_, rfl⟩
    have hoffset : h.firstOffset = front.length := by
      rw [hfront, length_append, length_putUint]
      rfl
    have hencode : h.encode = front ++ (putExtensions (before.map WireExtension.raw ++
        e.raw :: after.map WireExtension.raw) ++ []) := by
      rw [hfront, encode, HelloRecord.encode, hblock, vec]
      simp
    obtain ⟨x, hx, hlisted, hdrop⟩ := listAll_offset (e := e.raw) hoffset (t := [])
    rw [length_map] at hx
    refine ⟨x, ?_, ?_, ?_, ?_⟩
    · rw [← hx, ← hexts]
      rfl
    · rw [hlisted]
      rfl
    · rw [hlisted]
      exact toNat_ofNat_length16 e.fits
    · rw [hencode, hdrop, append_nil]
      simp [RawExtension.put, WireExtension.raw]

end ClientHello

/-- A DTLS hello with a cookie, a server name and the versions it supports. -/
def sampleClientHello : ClientHello where
  framing := .dtls versionDTLS12 rfl [0, 0, 0, 0, 0, 0, 0, 7] rfl 1
  helloVersion := versionDTLS12
  random := List.replicate 32 5
  sessionID := [1, 2]
  cookie := [9, 9, 9]
  cipherSuites := [0xc02b, 0xc02f]
  compressionMethods := [0]
  extensions := some [
    ⟨.serverName [⟨0, ascii "example.org", by decide⟩], by decide, by decide⟩,
    ⟨.other 0x0017 [], by decide, by decide⟩,
    ⟨.supportedVersions [0xfefc, 0xfefd], by decide, by decide⟩]
  random_length := rfl
  sessionID_fits := by decide
  cookie_fits := by decide
  suites_fit := by decide
  methods_fit := by decide
  block_fits := by
    intro es hes
    cases hes
    decide
  distinct := by
    intro es hes
    cases hes
    decide

theorem sampleClientHello_decoded :
    sampleClientHello.encode.length ≤ 65536 ∧
      parseHello sampleClientHello.encode = .ok sampleClientHello.report ∧
      sampleClientHello.report.serverName = ascii "example.org" ∧
      sampleClientHello.report.extensions = [⟨0, 16, 76⟩, ⟨0x17, 0, 96⟩, ⟨0x2b, 5, 100⟩] :=
  ⟨by decide +kernel, (sampleClientHello.parseHello_client_encode (by decide +kernel)).1,
    by decide +kernel, by decide +kernel⟩

/-! ## ServerHello -/

/-- An extension of a ServerHello: the version the server selected, its share of
the key, or another one. -/
inductive ServerExtension where
  | selectedVersion (version : UInt16)
  | share (entry : KeyShareEntry) (fits : entry.put.length < 256 ^ 2)
  | other (type : UInt16) (body : Bytes) (fits : body.length < 256 ^ 2)
      (apart : type ≠ extSupportedVersions ∧ type ≠ extKeyShare)

namespace ServerExtension

def type : ServerExtension → UInt16
  | .selectedVersion _ => extSupportedVersions
  | .share .. => extKeyShare
  | .other type .. => type

/-- The server writes ONE version and ONE share, without a length in front. -/
def body : ServerExtension → Bytes
  | .selectedVersion version => putUint 2 version.toNat
  | .share entry _ => entry.put
  | .other _ body .. => body

theorem body_fits (e : ServerExtension) : e.body.length < 256 ^ 2 := by
  cases e with
  | selectedVersion version => exact (length_putUint 2 _).trans_lt (by decide)
  | share entry fits => exact fits
  | other type body fits apart => exact fits

def raw (e : ServerExtension) : RawExtension := ⟨e.type, e.body, e.body_fits⟩

def version? : ServerExtension → Option UInt16
  | .selectedVersion version => some version
  | _ => none

def share? : ServerExtension → Option KeyShareEntry
  | .share entry _ => some entry
  | _ => none

end ServerExtension

/-! ### What the client's layouts make of the server's bodies -/

/-- The versions are read behind a length the server does not write: of the two
bytes there is one left, and no version. -/
theorem uint16Tail_selected (version : UInt16) (old : List UInt16) :
    uint16Tail 1 (putUint 2 version.toNat) old = .ok [] := by
  rfl

/-- What a round of `parseKeyShare` adds is at least six bytes shorter than the
body. -/
theorem parseKeyShare_length {body : Bytes} {groups : List UInt16} {lengths : List Nat}
    (h : parseKeyShare body = .ok (groups, lengths)) : ∀ n ∈ lengths, n + 6 ≤ body.length := by
  obtain ⟨shares, hrun, hmap⟩ := bind_eq_ok.mp h
  have hall : ∀ found, runLoop (Scan.unread body) (keyShareRound body) ⟨2, []⟩ = .ok found →
      ∀ x ∈ found, x.2 + 6 ≤ body.length := by
    have hfirst : 2 ≤ 2 ∧ ∀ x ∈ ([] : List (UInt16 × Nat)), x.2 + 6 ≤ body.length := by simp
    refine runLoop_induct (fun s : Scan (UInt16 × Nat) => 2 ≤ s.pos ∧
        ∀ x ∈ s.found, x.2 + 6 ≤ body.length)
      (fun result : Except WireError (List (UInt16 × Nat)) =>
        ∀ found, result = .ok found → ∀ x ∈ found, x.2 + 6 ≤ body.length) (fun s hs => ?_) hfirst
    obtain ⟨hpos, hfound⟩ := hs
    unfold keyShareRound
    by_cases hfour : s.pos + 4 ≤ body.length
    · rw [dif_pos hfour, slice_eq (by omega) (by omega), ok_bind, slice_eq (by omega) (by omega),
        ok_bind]
      dsimp only
      split_ifs with hfits
      · intro found hok
        cases hok
        exact hfound
      · refine ⟨Nat.le_add_right_of_le (Nat.le_add_right_of_le hpos), fun x hx => ?_⟩
        rcases mem_append.mp hx with hx | hx
        · exact hfound x hx
        · rw [mem_singleton.mp hx]
          dsimp only
          omega
    · rw [dif_neg hfour]
      intro found hok
      cases hok
      exact hfound
  cases hmap
  intro n hn
  obtain ⟨s, hs, rfl⟩ := mem_map.mp hn
  exact hall shares hrun s hs

/-- A share without a length in front is never read as itself. -/
theorem parseKeyShare_single {entry : KeyShareEntry} {groups : List UInt16} {lengths : List Nat}
    (h : parseKeyShare entry.put = .ok (groups, lengths)) : lengths ≠ [entry.key.length] := by
  intro heq
  have hle := parseKeyShare_length h entry.key.length (by rw [heq]; exact mem_singleton_self _)
  simp only [KeyShareEntry.put, length_append, length_putUint, length_vec] at hle
  omega

/-! ### The fields in question -/

/-- If the computation returns, the versions and the shares are those of `hello`. -/
def Keeps (hello : Hello) (x : Except WireError Hello) : Prop :=
  ∀ hello', x = .ok hello' → hello'.supportedVersions = hello.supportedVersions ∧
    hello'.keyShareGroups = hello.keyShareGroups ∧ hello'.keyShareLengths = hello.keyShareLengths

theorem applyKnownExtension_keeps (hello : Hello) {extensionType : UInt16} (body : Bytes)
    (h : extensionType ≠ extSupportedVersions ∧ extensionType ≠ extKeyShare) :
    Keeps hello (applyKnownExtension hello extensionType body) := by
  intro hello' hok
  have htouches := touches_applyKnownExtension _ _ _ _ hok
  exact ⟨htouches.supportedVersions h.1, htouches.keyShareGroups h.2, htouches.keyShareLengths h.2⟩

open ServerExtension in
/-- What the loop leaves in the fields in question: no version ever, and the
shares of the key_share body, if there is one. -/
theorem addAll_server (es : List ServerExtension) : ∀ {hello hello' : Hello} {offset : Nat},
    (es.map type).Nodup → hello.supportedVersions = [] →
      addAll hello offset (es.map raw) = .ok hello' →
        hello'.supportedVersions = [] ∧
          match es.findSome? share? with
          | none => hello'.keyShareGroups = hello.keyShareGroups ∧
              hello'.keyShareLengths = hello.keyShareLengths
          | some entry =>
            parseKeyShare entry.put = .ok (hello'.keyShareGroups, hello'.keyShareLengths) := by
  induction es with
  | nil =>
    intro hello hello' offset _ hversions h
    cases h
    exact ⟨hversions, rfl, rfl⟩
  | cons e es ih =>
    intro hello hello' offset hnodup hversions h
    rw [map_cons, nodup_cons] at hnodup
    obtain ⟨hello₁, hadd, h⟩ := bind_eq_ok.mp h
    cases e with
    | selectedVersion version =>
      change (uint16Tail 1 (putUint 2 version.toNat) _ >>= _) = _ at hadd
      rw [uint16Tail_selected] at hadd
      obtain ⟨hv, hg, hl⟩ : hello₁.supportedVersions = [] ∧
          hello₁.keyShareGroups = hello.keyShareGroups ∧
          hello₁.keyShareLengths = hello.keyShareLengths := by
        cases hadd
        exact ⟨rfl, rfl, rfl⟩
      have htail := ih hnodup.2 hv h
      rw [hg, hl] at htail
      exact htail
    | share entry fits =>
      -- there is no other share to overwrite what is read here
      have hnone : es.findSome? share? = none := by
        rw [findSome?_eq_none_iff]
        intro e he
        cases e with
        | share entry' fits' => exact absurd (mem_map_of_mem he) hnodup.1
        | selectedVersion version => rfl
        | other type body fits apart => rfl
      change (parseKeyShare entry.put >>= _) = _ at hadd
      obtain ⟨groups, lengths, hparse, hadd⟩ := step_ok hadd
      obtain ⟨hv₁, hg₁, hl₁⟩ : hello₁.supportedVersions = hello.supportedVersions ∧
          hello₁.keyShareGroups = groups ∧ hello₁.keyShareLengths = lengths := by
        cases hadd
        exact ⟨rfl, rfl, rfl⟩
      have htail := ih hnodup.2 (hv₁.trans hversions) h
      rw [hnone] at htail
      obtain ⟨hv, hg, hl⟩ := htail
      refine ⟨hv, ?_⟩
      change parseKeyShare entry.put = .ok (hello'.keyShareGroups, hello'.keyShareLengths)
      rw [hg, hl, hg₁, hl₁]
      exact hparse
    | other type body fits apart =>
      obtain ⟨hv, hg, hl⟩ := applyKnownExtension_keeps _ _ apart _ hadd
      have htail := ih hnodup.2 (hv.trans hversions) h
      rw [hg, hl] at htail
      exact htail

/-- A TLS ServerHello that can be put in a record. -/
structure ServerHello where
  version : UInt16
  helloVersion : UInt16
  random : Bytes
  sessionID : Bytes
  cipherSuite : UInt16
  compressionMethod : UInt8
  extensions : List ServerExtension
  version_tls : isDTLSVersion version = false
  random_length : random.length = helloRandomLen
  sessionID_fits : sessionID.length < 256
  block_fits : (putExtensions (extensions.map ServerExtension.raw)).length < 256 ^ 2
  distinct : (extensions.map ServerExtension.type).Nodup

namespace ServerHello

def toRecord (h : ServerHello) : HelloRecord where
  framing := .tls h.version h.version_tls
  fields :=
    { helloVersion := h.helloVersion, random := h.random, sessionID := h.sessionID, cookie := [],
      suites := .chosen h.cipherSuite h.compressionMethod, random_length := h.random_length,
      sessionID_fits := h.sessionID_fits, cookie_fits := Fields.nil_fits }
  extensions := some (h.extensions.map ServerExtension.raw)
  fits := by
    intro es hes
    cases hes
    exact h.block_fits

def encode (h : ServerHello) : Bytes := h.toRecord.encode

/-- The payload fits the length field of the record. -/
def Fits (h : ServerHello) : Prop := (h.toRecord.head ++ h.toRecord.block).length < 256 ^ 2

def selected (h : ServerHello) : Option UInt16 := h.extensions.findSome? ServerExtension.version?

def share (h : ServerHello) : Option KeyShareEntry := h.extensions.findSome? ServerExtension.share?

/-- **A ServerHello is decoded as it was encoded only if it has neither of the
two extensions**, which makes it none of TLS 1.3. -/
theorem parseHello_server_encode_iff (h : ServerHello) (hfits : h.Fits) :
    (∃ hello, parseHello h.encode = .ok hello ∧
        hello.supportedVersions = h.selected.toList ∧
        hello.keyShareGroups = h.share.toList.map KeyShareEntry.group ∧
        hello.keyShareLengths = h.share.toList.map fun s => s.key.length) ↔
      h.selected = none ∧ h.share = none := by
  have hn : h.toRecord.bodyLength < 256 ^ 3 :=
    Nat.lt_of_le_of_lt h.toRecord.bodyLength_le (Nat.lt_trans hfits (by decide))
  obtain ⟨hello, hadd⟩ := addAll_returns (h.extensions.map ServerExtension.raw)
    (headReport h.toRecord.framing h.toRecord.fields h.encode) (h.toRecord.blockOffset + 2)
  have hparse : parseHello h.encode = .ok hello := (h.toRecord.parseHello_encode hn).trans hadd
  obtain ⟨hversions, hshares⟩ := addAll_server h.extensions h.distinct rfl hadd
  change (match h.share with
    | none => hello.keyShareGroups = [] ∧ hello.keyShareLengths = []
    | some entry =>
      parseKeyShare entry.put = .ok (hello.keyShareGroups, hello.keyShareLengths)) at hshares
  constructor
  · rintro ⟨hello', hparse', hversions', -, hlengths'⟩
    obtain rfl : hello' = hello := Except.ok.inj (hparse'.symm.trans hparse)
    constructor
    · rw [hversions] at hversions'
      exact Option.toList_eq_nil_iff.mp hversions'.symm
    · cases hshare : h.share with
      | none => rfl
      | some entry =>
        rw [hshare] at hshares hlengths'
        exact absurd hlengths' (parseKeyShare_single hshares)
  · rintro ⟨hselected, hshare⟩
    rw [hshare] at hshares
    refine ⟨hello, hparse, ?_, ?_, ?_⟩
    · rw [hversions, hselected]
      rfl
    · rw [hshares.1, hshare]
      rfl
    · rw [hshares.2, hshare]
      rfl

end ServerHello

/-- A ServerHello of TLS 1.3 that selects a version and sends a share. -/
def sampleServerHello : ServerHello where
  version := 0x0303
  helloVersion := 0x0303
  random := List.replicate 32 5
  sessionID := []
  cipherSuite := 0x1301
  compressionMethod := 0
  extensions :=
    [.selectedVersion 0x0304, .share ⟨0x001d, List.replicate 32 0, by decide⟩ (by decide)]
  version_tls := rfl
  random_length := rfl
  sessionID_fits := Fields.nil_fits
  block_fits := by decide
  distinct := by decide

theorem sampleServerHello_not_exact :
    sampleServerHello.Fits ∧ ¬ ∃ hello, parseHello sampleServerHello.encode = .ok hello ∧
      hello.supportedVersions = [0x0304] ∧ hello.keyShareGroups = [0x001d] ∧
      hello.keyShareLengths = [32] := by
  have hfits : sampleServerHello.Fits := by
    unfold ServerHello.Fits
    decide +kernel
  refine ⟨hfits, fun hexact => ?_⟩
  have hnone := (sampleServerHello.parseHello_server_encode_iff hfits).mp hexact
  exact absurd hnone.1 (by decide)

/-- No version is reported, and shares that were never sent. -/
theorem sampleServerHello_misread :
    sampleServerHello.Fits ∧ sampleServerHello.selected = some 0x0304 ∧
      sampleServerHello.share.map (fun s => (s.group, s.key.length)) = some (0x001d, 32) ∧
      (parseHello sampleServerHello.encode).toOption.map (fun hello =>
          (hello.supportedVersions, hello.keyShareGroups, hello.keyShareLengths)) =
        some ([], [32, 0, 0, 0, 0, 0, 0, 0], [0, 0, 0, 0, 0, 0, 0, 0]) := by
  refine ⟨?_, by decide +kernel, by decide +kernel, by decide +kernel⟩
  unfold ServerHello.Fits
  decide +kernel

end HeadlessClient.Capture
