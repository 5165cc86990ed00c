import HeadlessClient.DTLS.Payload

/-!
# DTLS — extension values and the registry

An `extension.Value` of the hellos that take part in a retry, and
`extensionRegistry`, the table that says which codec reads an extension type in
which message. An unknown type is kept as `raw`.

A value is STABLE when it survives its own wire form: it marshals, and its bytes
decode to it again. Whatever `decodeExtension` returns is stable
(`decodeExtension_stable`), because every reader in the table settles after one
round. So a hello that was decoded once can be written and read any number of
times.
-/

namespace HeadlessClient.DTLS

open Base Wire List

/-! ## Types -/

abbrev typeServerName : UInt16 := 0
abbrev typeSupportedGroups : UInt16 := 10
abbrev typeSupportedPointFormats : UInt16 := 11
abbrev typeSignatureAlgorithms : UInt16 := 13
abbrev typeUseSRTP : UInt16 := 14
abbrev typeALPN : UInt16 := 16
abbrev typePadding : UInt16 := 21
abbrev typeExtendedMasterSecret : UInt16 := 23
abbrev typePreSharedKey : UInt16 := 41
abbrev typeEarlyData : UInt16 := 42
abbrev typeSupportedVersions : UInt16 := 43
abbrev typeCookie : UInt16 := 44
abbrev typePSKKeyExchangeModes : UInt16 := 45
abbrev typeCertificateAuthorities : UInt16 := 47
abbrev typeOIDFilters : UInt16 := 48
abbrev typePostHandshakeAuth : UInt16 := 49
abbrev typeSignatureAlgorithmsCert : UInt16 := 50
abbrev typeKeyShare : UInt16 := 51
abbrev typeConnectionID : UInt16 := 54
abbrev typeReturnRoutabilityCheck : UInt16 := 61
abbrev typeRenegotiationInfo : UInt16 := 65281

/-- `extension.Raw`: a payload that has not been decoded. -/
structure Raw where
  typ : UInt16
  data : Bytes
deriving DecidableEq, Repr

/-- `extension.Value`, one constructor for each type of payload. -/
inductive Value where
  | serverNameOffer (serverName : Bytes)
  | supportedGroups (groups : List UInt16)
  | supportedPointFormats (pointFormats : Bytes)
  | signatureAlgorithms (schemes : List UInt16)
  | certificateSignatureAlgorithms (schemes : List UInt16)
  | srtpOffer (protectionProfiles : List UInt16) (masterKeyIdentifier : Bytes)
  | alpnOffer (protocols : List Bytes)
  | extendedMasterSecret
  | offeredPSKs (identities : List PSKIdentity) (binders : List Bytes)
  | earlyData
  | offeredVersions (versions : List UInt16)
  | selectedVersion (version : UInt16)
  | cookie (cookie : Bytes)
  | pskKeyExchangeModes (modes : Bytes)
  | certificateAuthorities (authorities : List Bytes)
  | postHandshakeAuth
  | clientKeyShare (shares : List KeyShareEntry)
  | retryKeyShare (selectedGroup : UInt16)
  | connectionID (cid : Bytes)
  | returnRoutabilityCheck
  | renegotiationInfo (renegotiatedConnection : UInt8)
  | raw (typ : UInt16) (data : Bytes)
deriving DecidableEq, Repr

namespace Value

/-- `ExtensionType()`. -/
def extensionType : Value → UInt16
  | serverNameOffer _ => typeServerName
  | supportedGroups _ => typeSupportedGroups
  | supportedPointFormats _ => typeSupportedPointFormats
  | signatureAlgorithms _ => typeSignatureAlgorithms
  | certificateSignatureAlgorithms _ => typeSignatureAlgorithmsCert
  | srtpOffer .. => typeUseSRTP
  | alpnOffer _ => typeALPN
  | extendedMasterSecret => typeExtendedMasterSecret
  | offeredPSKs .. => typePreSharedKey
  | earlyData => typeEarlyData
  | offeredVersions _ => typeSupportedVersions
  | selectedVersion _ => typeSupportedVersions
  | cookie _ => typeCookie
  | pskKeyExchangeModes _ => typePSKKeyExchangeModes
  | certificateAuthorities _ => typeCertificateAuthorities
  | postHandshakeAuth => typePostHandshakeAuth
  | clientKeyShare _ => typeKeyShare
  | retryKeyShare _ => typeKeyShare
  | connectionID _ => typeConnectionID
  | returnRoutabilityCheck => typeReturnRoutabilityCheck
  | renegotiationInfo _ => typeRenegotiationInfo
  | raw typ _ => typ

/-- `MarshalSize()`. -/
def marshalSize : Value → Nat
  | serverNameOffer name => 5 + name.length
  | supportedGroups groups => 2 + 2 * groups.length
  | supportedPointFormats formats => 1 + formats.length
  | signatureAlgorithms schemes => 2 + 2 * schemes.length
  | certificateSignatureAlgorithms schemes => 2 + 2 * schemes.length
  | srtpOffer profiles mki => 3 + 2 * profiles.length + mki.length
  | alpnOffer protocols => 2 + (protocols.map (1 + ·.length)).sum
  | extendedMasterSecret => 0
  | offeredPSKs identities binders =>
    4 + (identities.map (6 + ·.identity.length)).sum + (binders.map (1 + ·.length)).sum
  | earlyData => 0
  | offeredVersions versions => 1 + 2 * versions.length
  | selectedVersion _ => 2
  | cookie c => 2 + c.length
  | pskKeyExchangeModes modes => 1 + modes.length
  | certificateAuthorities authorities => 2 + (authorities.map (2 + ·.length)).sum
  | postHandshakeAuth => 0
  | clientKeyShare shares => 2 + (shares.map (4 + ·.keyExchange.length)).sum
  | retryKeyShare _ => 2
  | connectionID cid => 1 + cid.length
  | returnRoutabilityCheck => 0
  | renegotiationInfo _ => 1
  | raw _ data => data.length

/-- `MarshalData()`. -/
def marshalData : Value → Except Error Bytes
  | serverNameOffer name => ServerNameOffer.marshalData name
  | supportedGroups groups => marshalUint16List groups
  | supportedPointFormats formats => SupportedPointFormats.marshalData formats
  | signatureAlgorithms schemes => marshalUint16List schemes
  | certificateSignatureAlgorithms schemes => marshalUint16List schemes
  | srtpOffer profiles mki => SRTPOffer.marshalData profiles mki
  | alpnOffer protocols => ALPNOffer.marshalData protocols
  | extendedMasterSecret => .ok []
  | offeredPSKs identities binders => OfferedPSKs.marshalData identities binders
  | earlyData => .ok []
  | offeredVersions versions => OfferedVersions.marshalData versions
  | selectedVersion version => .ok (putUint16 version)
  | cookie c => Cookie.marshalData c
  | pskKeyExchangeModes modes => PSKKeyExchangeModes.marshalData modes
  | certificateAuthorities authorities => CertificateAuthorities.marshalData authorities
  | postHandshakeAuth => .ok []
  | clientKeyShare shares => ClientKeyShare.marshalData shares
  | retryKeyShare group => .ok (putUint16 group)
  | connectionID cid => ConnectionID.marshalData cid
  | returnRoutabilityCheck => .ok []
  | renegotiationInfo connection => .ok [connection]
  | raw _ data => .ok data

end Value

theorem length_flatMap_vec (w : Nat) (as : List Bytes) :
    (as.flatMap (vec w)).length = (as.map (w + ·.length)).sum := by
  simp [length_flatMap]

variable {data : Bytes} {v : Value} {raw : Raw} {contexts : ExtensionContext → Option Factory}

theorem length_marshalUint16List {values : List UInt16} (h : marshalUint16List values = .ok data) :
    data.length = 2 + 2 * values.length := by
  obtain ⟨-, rfl⟩ := marshalUint16List_eq_ok.mp h
  rw [length_vec, length_flatMap_putUint16]

/-- **A payload is as long as its value announces.** -/
theorem Value.length_of_marshalData (h : v.marshalData = .ok data) :
    data.length = v.marshalSize := by
  cases v with
  | serverNameOffer name =>
    obtain ⟨-, rfl⟩ := ServerNameOffer.marshal_eq_ok.mp h
    simp only [length_vec, ServerName.put, length_cons, marshalSize]
    omega
  | supportedGroups groups | signatureAlgorithms schemes
  | certificateSignatureAlgorithms schemes =>
    exact length_marshalUint16List h
  | supportedPointFormats | cookie | connectionID =>
    obtain ⟨-, hdata⟩ := fail_guard.mp h
    cases hdata
    exact length_vec _ _
  | srtpOffer profiles mki =>
    obtain ⟨-, hmki⟩ := fail_guard.mp h
    obtain ⟨-, hdata⟩ := fail_guard.mp hmki
    cases hdata
    simp only [length_append, length_putUint, length_flatMap_putUint16, length_vec, marshalSize]
    omega
  | alpnOffer protocols | certificateAuthorities authorities =>
    obtain ⟨-, hlist⟩ := fail_guard.mp h
    obtain ⟨list, hwrite, hdata⟩ := bind_eq_ok.mp hlist
    cases hdata
    obtain ⟨-, rfl, -⟩ := writeOpaques_eq_ok.mp hwrite
    rw [length_vec, length_flatMap_vec, marshalSize]
  | offeredPSKs identities binders =>
    obtain ⟨-, hlists⟩ := fail_guard.mp h
    obtain ⟨ids, hids, hrest⟩ := bind_eq_ok.mp hlists
    obtain ⟨bs, hbs, hdata⟩ := bind_eq_ok.mp hrest
    cases hdata
    obtain ⟨-, rfl, -⟩ := OfferedPSKs.writeIdentities_eq_ok.mp hids
    obtain ⟨-, rfl, -⟩ := writeOpaques_eq_ok.mp hbs
    have hput : ∀ i : PSKIdentity, i.put.length = 6 + i.identity.length := by
      intro i
      simp only [PSKIdentity.put, length_append, length_vec, length_putUint]
      omega
    rw [length_append, length_vec, length_vec, length_flatMap_vec, length_flatMap]
    simp only [hput, marshalSize]
    omega
  | clientKeyShare shares =>
    obtain ⟨body, hbody, hdata⟩ := bind_eq_ok.mp h
    cases hdata
    obtain ⟨-, rfl, -⟩ := ClientKeyShare.marshalKeyShareEntries_eq_ok.mp hbody
    have hput : ∀ e : KeyShareEntry, e.put.length = 4 + e.keyExchange.length := by
      intro e
      simp only [KeyShareEntry.put, length_append, length_putUint16, length_vec]
      omega
    rw [length_vec, length_flatMap]
    simp only [hput, marshalSize]
  | offeredVersions versions =>
    obtain ⟨-, hdata⟩ := fail_guard.mp h
    cases hdata
    rw [length_append, length_putUint, length_flatMap_putUint16, marshalSize]
  | pskKeyExchangeModes modes =>
    obtain ⟨-, hmodes⟩ := fail_guard.mp h
    obtain ⟨-, hdata⟩ := fail_guard.mp hmodes
    cases hdata
    exact length_vec 1 modes
  | selectedVersion | retryKeyShare => cases h; exact length_putUint16 _
  | extendedMasterSecret | earlyData | postHandshakeAuth | returnRoutabilityCheck
  | renegotiationInfo connection | raw typ payload =>
    cases h; rfl

/-! ## The registry -/

/-- A payload reader of the registry. -/
abbrev Factory := Bytes → Except Error Value

def emptyPayload (e : Sentinel) (value : Value) : Factory := fun data =>
  if data.length ≠ 0 then fail e else .ok value

/-- A reader for a 16-bit payload. -/
def uint16Payload (e : Sentinel) (value : UInt16 → Value) : Factory := fun data =>
  if data.length ≠ 2 then fail e else .ok (value (getUint16 data))

/-- `RenegotiationInfo.UnmarshalData`. -/
def renegotiationPayload : Factory := fun data =>
  if data.length ≠ 1 then fail .lengthMismatch else .ok (.renegotiationInfo (data.getD 0 0))

/-- An entry for a type that only a ClientHello carries (of the two messages). -/
def clientHelloOnly (factory : Factory) : ExtensionContext → Option Factory
  | .clientHello => some factory
  | .helloRetryRequest => none

/-- An entry for a type that both messages carry. -/
def bothHellos (client retry : Factory) : ExtensionContext → Option Factory
  | .clientHello => some client
  | .helloRetryRequest => some retry

/-- `extensionRegistry`, restricted to the two messages. -/
def extensionRegistry : List (UInt16 × (ExtensionContext → Option Factory)) :=
  [(typeServerName, clientHelloOnly fun data =>
      .serverNameOffer <$> ServerNameOffer.unmarshalData data),
   (typeSupportedGroups, clientHelloOnly fun data =>
      .supportedGroups <$> unmarshalUint16List data),
   (typeSupportedPointFormats, clientHelloOnly fun data =>
      .supportedPointFormats <$> SupportedPointFormats.unmarshalData data),
   (typeSignatureAlgorithms, clientHelloOnly fun data =>
      .signatureAlgorithms <$> unmarshalUint16List data),
   (typeUseSRTP, clientHelloOnly fun data =>
      (fun p => .srtpOffer p.1 p.2) <$> SRTPOffer.unmarshalData data),
   (typeALPN, clientHelloOnly fun data =>
      .alpnOffer <$> ALPNOffer.unmarshalData data),
   (typeExtendedMasterSecret, clientHelloOnly
      (emptyPayload .lengthMismatch .extendedMasterSecret)),
   (typePreSharedKey, clientHelloOnly fun data =>
      (fun p => .offeredPSKs p.1 p.2) <$> OfferedPSKs.unmarshalData data),
   (typeEarlyData, clientHelloOnly (emptyPayload .earlyDataIndicationFormat .earlyData)),
   (typeSupportedVersions, bothHellos
      (fun data => .offeredVersions <$> OfferedVersions.unmarshalData data)
      (uint16Payload .invalidSupportedVersionsFormat .selectedVersion)),
   (typeCookie, bothHellos
      (fun data => .cookie <$> Cookie.unmarshalData data)
      (fun data => .cookie <$> Cookie.unmarshalData data)),
   (typePSKKeyExchangeModes, clientHelloOnly fun data =>
      .pskKeyExchangeModes <$> PSKKeyExchangeModes.unmarshalData data),
   (typeCertificateAuthorities, clientHelloOnly fun data =>
      .certificateAuthorities <$> CertificateAuthorities.unmarshalData data),
   (typeOIDFilters, fun _ => none),
   (typePostHandshakeAuth, clientHelloOnly (emptyPayload .lengthMismatch .postHandshakeAuth)),
   (typeSignatureAlgorithmsCert, clientHelloOnly fun data =>
      .certificateSignatureAlgorithms <$> unmarshalUint16List data),
   (typeKeyShare, bothHellos
      (fun data => .clientKeyShare <$> ClientKeyShare.unmarshalData data)
      (uint16Payload .invalidKeyShareFormat .retryKeyShare)),
   (typeConnectionID, clientHelloOnly fun data =>
      .connectionID <$> ConnectionID.unmarshalData data),
   (typeReturnRoutabilityCheck, clientHelloOnly
      (emptyPayload .lengthMismatch .returnRoutabilityCheck)),
   (typeRenegotiationInfo, clientHelloOnly renegotiationPayload)]

/-- The error of `decodeRawExtensions` for a type that is known but not allowed. -/
def notAllowed (typ : UInt16) (context : ExtensionContext) : Error :=
  .extension typ context (.sentinel .extensionNotAllowed) .illegalParameter

/-- The loop body of `decodeRawExtensions`. -/
def decodeExtension (context : ExtensionContext) (raw : Raw) : Except Error Value :=
  match extensionRegistry.lookup raw.typ with
  | none => .ok (.raw raw.typ raw.data)
  | some contexts =>
    match contexts context with
    | none => .error (notAllowed raw.typ context)
    | some factory =>
      match factory raw.data with
      | .error e => .error (.extension raw.typ context e .decodeError)
      | .ok value => .ok value

/-- A raw extension is kept if its type is not registered, and read by the factory of its
type otherwise. -/
theorem decodeExtension_cases {context : ExtensionContext}
    (h : decodeExtension context raw = .ok v) :
    (extensionRegistry.lookup raw.typ = none ∧ v = .raw raw.typ raw.data) ∨
      ∃ contexts factory, extensionRegistry.lookup raw.typ = some contexts ∧
        (raw.typ, contexts) ∈ extensionRegistry ∧ contexts context = some factory ∧
        factory raw.data = .ok v := by
  unfold decodeExtension at h
  split at h
  · next hlookup =>
      cases h
      exact .inl ⟨hlookup, rfl⟩
  · next contexts hlookup =>
      split at h
      · cases h
      · next factory hfactory =>
          split at h
          · cases h
          · next value hread =>
              cases h
              obtain ⟨before, after, htable, -⟩ := lookup_eq_some_iff.mp hlookup
              have hentry : (raw.typ, contexts) ∈ extensionRegistry := by
                rw [htable]
                simp
              exact .inr ⟨contexts, factory, hlookup, hentry, hfactory, hread⟩

/-! ## Stable values -/

/-- A reader settles: what it returns has the type `typ`, and marshals to bytes
that it reads as the same value. -/
def Factory.Settles (typ : UInt16) (factory : Factory) : Prop :=
  ∀ data value, factory data = .ok value → value.extensionType = typ ∧
    ∃ out, value.marshalData = .ok out ∧ factory out = .ok value

theorem Factory.settles_of_iff {α : Type} {typ : UInt16} {make : α → Value}
    {unmarshal : Bytes → Except Error α} (htype : ∀ a, (make a).extensionType = typ)
    (hiff : ∀ a data, (make a).marshalData = .ok data ↔ unmarshal data = .ok a) :
    Factory.Settles typ fun data => make <$> unmarshal data := by
  intro data value h
  obtain ⟨a, hread, rfl⟩ := map_eq_ok.mp h
  exact ⟨htype a, data, (hiff a data).mpr hread, map_eq_ok.mpr ⟨a, hread, rfl⟩⟩

theorem Factory.settles_empty {typ : UInt16} {e : Sentinel} {value : Value}
    (htype : value.extensionType = typ) (hdata : value.marshalData = .ok []) :
    Factory.Settles typ (emptyPayload e value) := by
  intro data v h
  obtain ⟨-, rfl⟩ : data = [] ∧ value = v := by
    rw [emptyPayload, fail_guard] at h
    simpa using h
  exact ⟨htype, [], hdata, by simp [emptyPayload]⟩

theorem Factory.settles_renegotiation :
    Factory.Settles typeRenegotiationInfo renegotiationPayload := by
  intro data value h
  rw [renegotiationPayload, fail_guard] at h
  obtain ⟨-, hvalue⟩ := h
  obtain rfl : Value.renegotiationInfo (data.getD 0 0) = value := by simpa using hvalue
  exact ⟨rfl, _, rfl, rfl⟩

theorem Factory.settles_serverName : Factory.Settles typeServerName fun data =>
    .serverNameOffer <$> ServerNameOffer.unmarshalData data := by
  intro data value h
  obtain ⟨name, hread, rfl⟩ := map_eq_ok.mp h
  obtain ⟨out, hout⟩ := ServerNameOffer.marshal_of_unmarshal hread
  exact ⟨rfl, out, hout, map_eq_ok.mpr ⟨name, ServerNameOffer.unmarshal_of_marshal hout, rfl⟩⟩

theorem Factory.settles_pointFormats : Factory.Settles typeSupportedPointFormats fun data =>
    .supportedPointFormats <$> SupportedPointFormats.unmarshalData data := by
  intro data value h
  obtain ⟨formats, hread, rfl⟩ := map_eq_ok.mp h
  obtain ⟨out, hout, hagain⟩ := SupportedPointFormats.settles hread
  exact ⟨rfl, out, hout, map_eq_ok.mpr ⟨formats, hagain, rfl⟩⟩

theorem uint16List_marshal_iff (values : List UInt16) (data : Bytes) :
    marshalUint16List values = .ok data ↔ unmarshalUint16List data = .ok values :=
  marshalUint16List_eq_ok.trans unmarshalUint16List_eq_ok.symm

/-- **Every reader of the table settles.** -/
theorem extensionRegistry_settles : ∀ entry ∈ extensionRegistry,
    ∀ factory ∈ entry.2 .clientHello, factory.Settles entry.1 := by
  simp only [extensionRegistry, forall_mem_cons, clientHelloOnly, bothHellos,
    Option.mem_some_iff, forall_eq', Option.not_mem_none, not_mem_nil, IsEmpty.forall_iff,
    implies_true]
  exact ⟨Factory.settles_serverName,
    Factory.settles_of_iff (fun _ => rfl) uint16List_marshal_iff,
    Factory.settles_pointFormats,
    Factory.settles_of_iff (fun _ => rfl) uint16List_marshal_iff,
    Factory.settles_of_iff (fun _ => rfl) fun _ _ => SRTPOffer.marshal_iff,
    Factory.settles_of_iff (fun _ => rfl) fun _ _ => ALPNOffer.marshal_iff,
    Factory.settles_empty rfl rfl,
    Factory.settles_of_iff (fun _ => rfl) fun _ _ => OfferedPSKs.marshal_iff,
    Factory.settles_empty rfl rfl,
    Factory.settles_of_iff (fun _ => rfl) fun _ _ => OfferedVersions.marshal_iff,
    Factory.settles_of_iff (fun _ => rfl) fun _ _ => Cookie.marshal_iff,
    Factory.settles_of_iff (fun _ => rfl) fun _ _ => PSKKeyExchangeModes.marshal_iff,
    Factory.settles_of_iff (fun _ => rfl) fun _ _ => CertificateAuthorities.marshal_iff,
    trivial,
    Factory.settles_empty rfl rfl,
    Factory.settles_of_iff (fun _ => rfl) uint16List_marshal_iff,
    Factory.settles_of_iff (fun _ => rfl) fun _ _ => ClientKeyShare.marshal_iff,
    Factory.settles_of_iff (fun _ => rfl) fun _ _ => ConnectionID.marshal_iff,
    Factory.settles_empty rfl rfl,
    Factory.settles_renegotiation, trivial⟩

/-- A value that marshals, to bytes that decode to it again. -/
def Value.Stable (v : Value) : Prop :=
  ∃ data, v.marshalData = .ok data ∧ decodeExtension .clientHello ⟨v.extensionType, data⟩ = .ok v

/-- **What was decoded once is stable.** -/
theorem decodeExtension_stable (h : decodeExtension .clientHello raw = .ok v) :
    v.extensionType = raw.typ ∧ v.Stable := by
  rcases decodeExtension_cases h with ⟨hlookup, rfl⟩ |
    ⟨contexts, factory, hlookup, hentry, hfactory, hread⟩
  · refine ⟨rfl, raw.data, rfl, ?_⟩
    simp [decodeExtension, Value.extensionType, hlookup]
  · obtain ⟨htype, out, hout, hagain⟩ :=
      extensionRegistry_settles _ hentry factory hfactory _ _ hread
    refine ⟨htype, out, hout, ?_⟩
    simp [decodeExtension, htype, hlookup, hfactory, hagain]

theorem stable_of_marshal {factory : Factory}
    (hlookup : extensionRegistry.lookup v.extensionType = some contexts)
    (hfactory : contexts .clientHello = some factory) (hdata : v.marshalData = .ok data)
    (hread : factory data = .ok v) : v.Stable := by
  refine ⟨data, hdata, ?_⟩
  simp [decodeExtension, hlookup, hfactory, hread]

theorem stable_clientKeyShare {shares : List KeyShareEntry}
    (h : ClientKeyShare.marshalData shares = .ok data) : (Value.clientKeyShare shares).Stable :=
  stable_of_marshal rfl rfl h (map_eq_ok.mpr ⟨shares, ClientKeyShare.marshal_iff.mp h, rfl⟩)

theorem stable_cookie {cookie : Bytes} (h : Cookie.marshalData cookie = .ok data) :
    (Value.cookie cookie).Stable :=
  stable_of_marshal rfl rfl h (map_eq_ok.mpr ⟨cookie, Cookie.marshal_iff.mp h, rfl⟩)

/-- A stable value of a type that is read with `make` was made by it. -/
theorem Value.Stable.eq_make {α : Type} {make : α → Value} {unmarshal : Bytes → Except Error α}
    (h : v.Stable) (hlookup : extensionRegistry.lookup v.extensionType = some contexts)
    (hfactory : contexts .clientHello = some fun data => make <$> unmarshal data) :
    ∃ a, v = make a := by
  obtain ⟨data, -, hdecode⟩ := h
  cases hread : unmarshal data with
  | error e => simp [decodeExtension, hlookup, hfactory, hread] at hdecode
  | ok a => exact ⟨a, by simpa [decodeExtension, hlookup, hfactory, hread] using hdecode.symm⟩

theorem Value.Stable.eq_clientKeyShare (h : v.Stable) (htype : v.extensionType = typeKeyShare) :
    ∃ shares, v = .clientKeyShare shares :=
  h.eq_make (congrArg (List.lookup · extensionRegistry) htype) rfl

theorem Value.Stable.eq_cookie (h : v.Stable) (htype : v.extensionType = typeCookie) :
    ∃ c, v = .cookie c :=
  h.eq_make (congrArg (List.lookup · extensionRegistry) htype) rfl

theorem stable_retryCookie {c : Bytes}
    (h : decodeExtension .helloRetryRequest raw = .ok (.cookie c)) : (Value.cookie c).Stable := by
  have htable : ∀ entry ∈ extensionRegistry, ∀ factory ∈ entry.2 .helloRetryRequest,
      ∀ data, factory data = .ok (.cookie c) → Cookie.unmarshalData data = .ok c := by
    have huint : ∀ (e : Sentinel) (make : UInt16 → Value) (data : Bytes),
        uint16Payload e make data = .ok (.cookie c) ↔
          ¬data.length ≠ 2 ∧ make (getUint16 data) = .cookie c := by
      intro e make data
      rw [uint16Payload, fail_guard, Except.ok.injEq]
    simp [extensionRegistry, clientHelloOnly, bothHellos, huint, map_eq_ok]
  rcases decodeExtension_cases h with ⟨-, hraw⟩ | ⟨contexts, factory, -, hentry, hfactory, hread⟩
  · cases hraw
  · exact stable_cookie (Cookie.marshal_iff.mpr (htable _ hentry factory hfactory _ hread))

end HeadlessClient.DTLS
