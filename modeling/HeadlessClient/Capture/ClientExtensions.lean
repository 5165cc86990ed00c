import HeadlessClient.Capture.HelloFormat

/-!
# Capture — the extensions of a ClientHello

The extensions the capture tool knows, as a client encodes them
(`ClientExtension`), and what each is reported as (`applyKnownExtension_body`).
An extension whose type the tool does not know changes nothing.
-/

namespace HeadlessClient.Capture

open Base Wire List

/-! ## Items of the lists -/

structure ServerNameEntry where
  nameType : UInt8
  name : Bytes
  fits : name.length < 256 ^ 2

def ServerNameEntry.put (n : ServerNameEntry) : Bytes := n.nameType :: vec 2 n.name

structure KeyShareEntry where
  group : UInt16
  key : Bytes
  fits : key.length < 256 ^ 2

def KeyShareEntry.put (s : KeyShareEntry) : Bytes := putUint 2 s.group.toNat ++ vec 2 s.key

structure ProtocolName where
  name : Bytes
  fits : name.length < 256

def ProtocolName.put (p : ProtocolName) : Bytes := vec 1 p.name

/-- A QUIC transport parameter; its two integers may be written in any width. -/
structure TransportParameter where
  id : EncodedVarint
  length : EncodedVarint
  value : Bytes
  length_eq : length.value = value.length
  fits : value.length < 256 ^ 2

def TransportParameter.put (p : TransportParameter) : Bytes :=
  p.id.put ++ (p.length.put ++ (p.value ++ []))

def TransportParameter.report (p : TransportParameter) : QUICTransportParam :=
  ⟨p.id.value, hexEncode p.value⟩

/-! ## The list parsers on encodings -/

theorem parseALPN_put (protocols : List ProtocolName) :
    parseALPN (vec 2 (protocols.flatMap ProtocolName.put)) =
      .ok (protocols.map ProtocolName.name) := by
  unfold parseALPN
  rw [if_neg (by rw [length_vec]; omega)]
  have hbody : vec 2 (protocols.flatMap ProtocolName.put) =
      putUint 2 (protocols.flatMap ProtocolName.put).length ++
        protocols.flatMap ProtocolName.put := rfl
  refine runLoop_scan hbody (length_putUint 2 _).symm
    (fun p _ before after found hsplit => ?_) fun found => ?_
  · have hbuf : vec 2 (protocols.flatMap ProtocolName.put) =
        before ++ UInt8.ofNat p.name.length :: (p.name ++ after) := by
      rw [hsplit]
      simp [ProtocolName.put, vec, putUint]
    have hname : vec 2 (protocols.flatMap ProtocolName.put) =
        (before ++ [UInt8.ofNat p.name.length]) ++ (p.name ++ after) := by
      rw [hbuf]
      simp
    have hlen := congrArg List.length hname
    simp only [length_append, length_singleton] at hlen
    have hpos : before.length < (vec 2 (protocols.flatMap ProtocolName.put)).length := by omega
    unfold alpnRound
    rw [dif_pos hpos, index_at hbuf rfl, ok_bind]
    dsimp only
    have hsize := toNat_ofNat_length8 p.fits
    have hput : before.length + p.put.length =
        before.length + 1 + (UInt8.ofNat p.name.length).toNat := by
      rw [hsize, ProtocolName.put, length_vec, Nat.add_assoc]
    rw [if_neg (by omega), slice_at hname (by simp) (by simp [hsize]), ok_bind, hput]
    exact ⟨_, rfl⟩
  · exact dif_neg (Nat.lt_irrefl _)

theorem parseKeyShare_put (shares : List KeyShareEntry) :
    parseKeyShare (vec 2 (shares.flatMap KeyShareEntry.put)) =
      .ok (shares.map KeyShareEntry.group, shares.map fun s => s.key.length) := by
  have hbody : vec 2 (shares.flatMap KeyShareEntry.put) =
      putUint 2 (shares.flatMap KeyShareEntry.put).length ++
        shares.flatMap KeyShareEntry.put := rfl
  have hrun : runLoop (Scan.unread (vec 2 (shares.flatMap KeyShareEntry.put)))
      (keyShareRound (vec 2 (shares.flatMap KeyShareEntry.put))) ⟨2, []⟩ =
        .ok (shares.map fun s => (s.group, s.key.length)) := by
    refine runLoop_scan hbody (length_putUint 2 _).symm
      (fun s _ before after found hsplit => ?_) fun found => ?_
    · have hgroup : vec 2 (shares.flatMap KeyShareEntry.put) =
          before ++ (putUint 2 s.group.toNat ++ (putUint 2 s.key.length ++ (s.key ++ after))) := by
        rw [hsplit]
        simp [KeyShareEntry.put, vec]
      have hkey : vec 2 (shares.flatMap KeyShareEntry.put) =
          (before ++ putUint 2 s.group.toNat) ++ (putUint 2 s.key.length ++ (s.key ++ after)) := by
        rw [hgroup]
        simp
      have hlen := congrArg List.length hgroup
      simp only [length_append, length_putUint] at hlen
      have hpos : before.length + 4 ≤ (vec 2 (shares.flatMap KeyShareEntry.put)).length := by omega
      unfold keyShareRound
      rw [dif_pos hpos, slice_at hgroup rfl (by simp), ok_bind,
        slice_at hkey (by simp) (by simp), ok_bind]
      dsimp only
      have hsize := getUint_putUint s.fits
      have hput : before.length + s.put.length =
          before.length + 4 + getUint (putUint 2 s.key.length) := by
        rw [hsize, KeyShareEntry.put, length_append, length_putUint, length_vec]
        omega
      have hvalue : (s.group, s.key.length) =
          (uint16 (putUint 2 s.group.toNat), getUint (putUint 2 s.key.length)) := by
        rw [hsize, uint16_putUint]
      rw [if_neg (by omega), hput, hvalue]
      exact ⟨_, rfl⟩
    · exact dif_neg (by simp)
  rw [parseKeyShare, hrun, ok_bind, map_map, map_map]
  rfl

/-- The first host name of the list; a list without one has none to report. -/
def hostName (names : List ServerNameEntry) : Bytes :=
  match names with
  | [] => []
  | n :: names => if n.nameType = 0 then n.name else hostName names

theorem runLoop_serverName (names : List ServerNameEntry) : ∀ {body before : Bytes},
    body = before ++ names.flatMap ServerNameEntry.put →
      runLoop (fun pos => body.length - pos) (serverNameRound body) before.length =
        .ok (hostName names) := by
  induction names with
  | nil =>
    intro body before hbody
    refine runLoop_done (dif_neg ?_)
    rw [hbody]
    simp
  | cons n names ih =>
    intro body before hbody
    have hfirst : body = before ++ n.nameType :: (putUint 2 n.name.length ++
        (n.name ++ names.flatMap ServerNameEntry.put)) := by
      rw [hbody]
      simp [ServerNameEntry.put, vec]
    have hsize : body = (before ++ [n.nameType]) ++ (putUint 2 n.name.length ++
        (n.name ++ names.flatMap ServerNameEntry.put)) := by
      rw [hfirst]
      simp
    have hname : body = (before ++ [n.nameType] ++ putUint 2 n.name.length) ++
        (n.name ++ names.flatMap ServerNameEntry.put) := by
      rw [hfirst]
      simp
    have hlen := congrArg List.length hname
    simp only [length_append, length_putUint, length_singleton] at hlen
    have hround : serverNameRound body before.length =
        if n.nameType = 0 then .ok (.done n.name)
        else .ok (.next (before.length + 3 + n.name.length) (by omega)) := by
      unfold serverNameRound
      rw [dif_pos (by omega), index_at hfirst rfl, ok_bind, slice_at hsize (by simp) (by simp),
        ok_bind]
      dsimp only
      simp only [getUint_putUint n.fits]
      rw [if_neg (by omega), slice_at hname (by simp) (by simp)]
      rfl
    split_ifs at hround with hzero
    · rw [runLoop_done hround, hostName, if_pos hzero]
    · have hrest : body = (before ++ n.put) ++ names.flatMap ServerNameEntry.put := by
        rw [hbody, flatMap_cons, append_assoc]
      have htail := ih hrest
      have hpos : (before ++ n.put).length = before.length + 3 + n.name.length := by
        simp only [ServerNameEntry.put, length_append, length_cons, length_vec]
        omega
      rw [hpos] at htail
      rw [runLoop_next hround, hostName, if_neg hzero]
      exact htail

theorem parseServerName_put (names : List ServerNameEntry) :
    parseServerName (vec 2 (names.flatMap ServerNameEntry.put)) = .ok (hostName names) := by
  have hrun := runLoop_serverName names
    (show vec 2 (names.flatMap ServerNameEntry.put) = putUint 2 _ ++ _ from rfl)
  rwa [length_putUint] at hrun

theorem TransportParameter.exact (p : TransportParameter) :
    Exact transportParam p.put p.report := by
  refine p.id.exact.bind (p.length.exact.bind ?_)
  rw [p.length_eq]
  exact (exact_bytes (Nat.le_of_lt p.fits)).bind (Exact.pure _)

theorem runLoop_transportParams (params : List TransportParameter) :
    ∀ (r : ByteReader) (found : List QUICTransportParam),
      r.rest = params.flatMap TransportParameter.put →
        runLoop _ transportParamRound (r, found) =
          .ok (found ++ params.map TransportParameter.report) := by
  induction params with
  | nil =>
    intro r found hr
    have hrem : r.remaining = 0 := by
      rw [ByteReader.remaining_eq, hr]
      rfl
    rw [map_nil, append_nil]
    exact runLoop_done (if_pos hrem)
  | cons p params ih =>
    intro r found hr
    rw [flatMap_cons] at hr
    have hread := p.exact.takes r _ hr
    have hround : transportParamRound (r, found) = .ok (.next
        (r.advance p.put.length, found ++ [p.report]) (transportParam_remaining hread)) := by
      have hrem := transportParam_remaining hread
      unfold transportParamRound
      rw [if_neg (by dsimp only; omega)]
      split
      · rename_i herr
        rw [hread] at herr
        cases herr
      · rename_i hok
        rw [hread] at hok
        cases hok
        rfl
    rw [runLoop_next hround, ih _ _ (ByteReader.rest_advance hr), map_cons, append_assoc]
    rfl

theorem parseQUICTransportParams_put (params : List TransportParameter) :
    parseQUICTransportParams (params.flatMap TransportParameter.put) =
      .ok (params.map TransportParameter.report) :=
  runLoop_transportParams params ⟨_, 0⟩ [] rfl

/-! ## The extensions -/

inductive ClientExtension where
  | serverName (names : List ServerNameEntry)
  | supportedGroups (groups : List UInt16)
  | pointFormats (formats : List UInt8)
  | signatureAlgorithms (algorithms : List UInt16)
  | useSRTP (profiles : List UInt16) (mki : Bytes)
  | alpn (protocols : List ProtocolName)
  | supportedVersions (versions : List UInt16)
  | keyShare (shares : List KeyShareEntry)
  | quicTransportParams (params : List TransportParameter)
  | other (type : UInt16) (body : Bytes)

/-- The types the tool looks into. -/
def knownTypes : List UInt16 :=
  [extSupportedGroups, extSignatureAlgorithms, extECPointFormats, extUseSRTP, extALPN,
    extQUICTransportParams, extServerName, extSupportedVersions, extKeyShare]

namespace ClientExtension

def type : ClientExtension → UInt16
  | .serverName _ => extServerName
  | .supportedGroups _ => extSupportedGroups
  | .pointFormats _ => extECPointFormats
  | .signatureAlgorithms _ => extSignatureAlgorithms
  | .useSRTP _ _ => extUseSRTP
  | .alpn _ => extALPN
  | .supportedVersions _ => extSupportedVersions
  | .keyShare _ => extKeyShare
  | .quicTransportParams _ => extQUICTransportParams
  | .other type _ => type

def body : ClientExtension → Bytes
  | .serverName names => vec 2 (names.flatMap ServerNameEntry.put)
  | .supportedGroups groups => vec 2 (putUint16s groups)
  | .pointFormats formats => vec 1 formats
  | .signatureAlgorithms algorithms => vec 2 (putUint16s algorithms)
  | .useSRTP profiles mki => vec 2 (putUint16s profiles) ++ vec 1 mki
  | .alpn protocols => vec 2 (protocols.flatMap ProtocolName.put)
  | .supportedVersions versions => vec 1 (putUint16s versions)
  | .keyShare shares => vec 2 (shares.flatMap KeyShareEntry.put)
  | .quicTransportParams params => params.flatMap TransportParameter.put
  | .other _ body => body

/-- The lengths inside the body fit their fields, and `other` is not one of the
types that have a form of their own. -/
def WellFormed : ClientExtension → Prop
  | .serverName names => (names.flatMap ServerNameEntry.put).length < 256 ^ 2
  | .supportedGroups groups => (putUint16s groups).length < 256 ^ 2
  | .pointFormats formats => formats.length < 256
  | .signatureAlgorithms algorithms => (putUint16s algorithms).length < 256 ^ 2
  | .useSRTP profiles mki => (putUint16s profiles).length < 256 ^ 2 ∧ mki.length < 256
  | .alpn protocols => (protocols.flatMap ProtocolName.put).length < 256 ^ 2
  | .supportedVersions versions => (putUint16s versions).length < 256
  | .keyShare shares => (shares.flatMap KeyShareEntry.put).length < 256 ^ 2
  | .quicTransportParams _ => True
  | .other type _ => type ∉ knownTypes

instance (e : ClientExtension) : Decidable e.WellFormed :=
  match e with
  | .serverName _ => inferInstanceAs (Decidable (_ < _))
  | .supportedGroups _ => inferInstanceAs (Decidable (_ < _))
  | .pointFormats _ => inferInstanceAs (Decidable (_ < _))
  | .signatureAlgorithms _ => inferInstanceAs (Decidable (_ < _))
  | .useSRTP _ _ => inferInstanceAs (Decidable (_ ∧ _))
  | .alpn _ => inferInstanceAs (Decidable (_ < _))
  | .supportedVersions _ => inferInstanceAs (Decidable (_ < _))
  | .keyShare _ => inferInstanceAs (Decidable (_ < _))
  | .quicTransportParams _ => inferInstanceAs (Decidable True)
  | .other _ _ => inferInstanceAs (Decidable (_ ∉ _))

def report (hello : Hello) : ClientExtension → Hello
  | .serverName names => { hello with serverName := hostName names }
  | .supportedGroups groups => { hello with supportedGroups := groups }
  | .pointFormats formats => { hello with pointFormats := formats }
  | .signatureAlgorithms algorithms => { hello with signatureAlgorithms := algorithms }
  | .useSRTP profiles _ => { hello with useSRTPProfiles := profiles }
  | .alpn protocols => { hello with alpn := protocols.map ProtocolName.name }
  | .supportedVersions versions => { hello with supportedVersions := versions }
  | .keyShare shares =>
    { hello with
      keyShareGroups := shares.map KeyShareEntry.group,
      keyShareLengths := shares.map fun s => s.key.length }
  | .quicTransportParams params =>
    { hello with quicTransportParams := params.map TransportParameter.report }
  | .other _ _ => hello

end ClientExtension

/-- A list of two-byte numbers behind a length of `w` bytes. -/
theorem uint16Tail_vec (w : Nat) (values old : List UInt16) :
    uint16Tail w (vec w (putUint16s values)) old = .ok values := by
  have hdrop := drop_vec w (putUint16s values) []
  rw [append_nil, append_nil] at hdrop
  rw [uint16Tail, if_pos (by simp), sliceFrom_eq (by simp), ok_bind, hdrop,
    uint16List_putUint16s]

theorem srtpProfiles_vec {profiles : List UInt16} {mki : Bytes} (old : List UInt16)
    (h : (putUint16s profiles).length < 256 ^ 2) :
    srtpProfiles (vec 2 (putUint16s profiles) ++ vec 1 mki) old = .ok profiles := by
  have hbody : vec 2 (putUint16s profiles) ++ vec 1 mki =
      [] ++ (putUint 2 (putUint16s profiles).length ++ (putUint16s profiles ++ vec 1 mki)) := by
    simp [vec]
  have hlist : vec 2 (putUint16s profiles) ++ vec 1 mki =
      putUint 2 (putUint16s profiles).length ++ (putUint16s profiles ++ vec 1 mki) := by
    simp [vec]
  have hpair : slice WireError.panic (vec 2 (putUint16s profiles) ++ vec 1 mki) 0 2 =
      .ok (putUint 2 (putUint16s profiles).length) := slice_at hbody rfl (by simp)
  unfold srtpProfiles
  rw [if_pos (by simp only [length_append, length_vec]; omega), hpair, ok_bind]
  dsimp only
  rw [getUint_putUint h, if_pos (by simp only [length_append, length_vec]; omega),
    slice_at hlist (by simp) (by simp), ok_bind, uint16List_putUint16s]

/-- **What an extension is reported as.** -/
theorem applyKnownExtension_body {e : ClientExtension} (h : e.WellFormed) (hello : Hello) :
    applyKnownExtension hello e.type e.body = .ok (e.report hello) := by
  cases e with
  | serverName names =>
    change (parseServerName _ >>= _) = _
    rw [ClientExtension.body, parseServerName_put]
    rfl
  | supportedGroups | signatureAlgorithms | supportedVersions =>
    change (uint16Tail _ _ _ >>= _) = _
    rw [ClientExtension.body, uint16Tail_vec]
    rfl
  | pointFormats formats =>
    have hdrop := drop_vec 1 formats []
    rw [append_nil, append_nil] at hdrop
    change (if 1 ≤ (vec 1 formats).length then (sliceFrom WireError.panic (vec 1 formats) 1 >>=
      fun x => .ok { hello with pointFormats := x }) else .ok hello) = _
    rw [if_pos (by simp), sliceFrom_eq (by simp), hdrop]
    rfl
  | useSRTP profiles mki =>
    change (srtpProfiles _ _ >>= _) = _
    rw [ClientExtension.body, srtpProfiles_vec _ h.1]
    rfl
  | alpn protocols =>
    change (parseALPN _ >>= _) = _
    rw [ClientExtension.body, parseALPN_put]
    rfl
  | keyShare shares =>
    change (parseKeyShare _ >>= _) = _
    rw [ClientExtension.body, parseKeyShare_put]
    rfl
  | quicTransportParams params =>
    change (parseQUICTransportParams _ >>= _) = _
    rw [ClientExtension.body, parseQUICTransportParams_put]
    rfl
  | other type body =>
    simp only [ClientExtension.WellFormed, knownTypes, mem_cons, not_mem_nil, or_false, not_or] at h
    obtain ⟨h1, h2, h3, h4, h5, h6, h7, h8, h9⟩ := h
    change applyKnownExtension hello type body = .ok hello
    rw [applyKnownExtension, if_neg h1, if_neg h2, if_neg h3, if_neg h4, if_neg h5, if_neg h6,
      if_neg h7, if_neg h8, if_neg h9]

end HeadlessClient.Capture
