import HeadlessClient.Capture.HelloFormat

/-!
# Capture — which extension sets which field

`applyKnownExtension` writes one field of the hello for each extension type it
knows (`Touches`), so a field depends on the extensions of ITS type only
(`FieldOf`), in the order in which they stand, whatever stands between them.

Bodies are arbitrary bytes here: what is not laid out as it should be is read as
far as it goes.
-/

namespace HeadlessClient.Capture

open Base Wire

/-! ## One extension -/

/-- `hello'` is `hello` but for the fields of this extension type. -/
structure Touches (type : UInt16) (hello hello' : Hello) : Prop where
  kind : hello'.kind = hello.kind
  recordVersion : hello'.recordVersion = hello.recordVersion
  helloVersion : hello'.helloVersion = hello.helloVersion
  sessionIDLen : hello'.sessionIDLen = hello.sessionIDLen
  cipherSuites : hello'.cipherSuites = hello.cipherSuites
  compressionMethods : hello'.compressionMethods = hello.compressionMethods
  serverName : type ≠ extServerName → hello'.serverName = hello.serverName
  supportedGroups : type ≠ extSupportedGroups → hello'.supportedGroups = hello.supportedGroups
  supportedVersions :
    type ≠ extSupportedVersions → hello'.supportedVersions = hello.supportedVersions
  keyShareGroups : type ≠ extKeyShare → hello'.keyShareGroups = hello.keyShareGroups
  keyShareLengths : type ≠ extKeyShare → hello'.keyShareLengths = hello.keyShareLengths
  pointFormats : type ≠ extECPointFormats → hello'.pointFormats = hello.pointFormats
  signatureAlgorithms :
    type ≠ extSignatureAlgorithms → hello'.signatureAlgorithms = hello.signatureAlgorithms
  alpn : type ≠ extALPN → hello'.alpn = hello.alpn
  quicTransportParams :
    type ≠ extQUICTransportParams → hello'.quicTransportParams = hello.quicTransportParams
  useSRTPProfiles : type ≠ extUseSRTP → hello'.useSRTPProfiles = hello.useSRTPProfiles
  extensions : hello'.extensions = hello.extensions

theorem touches_applyKnownExtension (hello : Hello) (type : UInt16) (body : Bytes) :
    Ensures (Touches type hello) (applyKnownExtension hello type body) := by
  unfold applyKnownExtension
  refine .ite (fun _ => .bind fun _ => .ok ?_) <| .ite (fun _ => .bind fun _ => .ok ?_) <|
    .ite (fun _ => .ite (fun _ => .bind fun _ => .ok ?_) (.ok ?_)) <|
    .ite (fun _ => .bind fun _ => .ok ?_) <| .ite (fun _ => .bind fun _ => .ok ?_) <|
    .ite (fun _ => .bind fun _ => .ok ?_) <| .ite (fun _ => .bind fun _ => .ok ?_) <|
    .ite (fun _ => .bind fun _ => .ok ?_) <| .ite (fun _ => .bind fun _ => .ok ?_) (.ok ?_)
  -- in each branch every field is as it was, or is the branch's own
  all_goals
    constructor <;> first
      | rfl
      | exact fun _ => rfl
      | exact fun hne => absurd ‹_› hne

/-! ## All extensions -/

def bodiesOf (type : UInt16) (es : List RawExtension) : List Bytes :=
  (es.filter fun e => e.type = type).map fun e => e.body

theorem bodiesOf_cons_self (e : RawExtension) (es : List RawExtension) :
    bodiesOf e.type (e :: es) = e.body :: bodiesOf e.type es := by
  simp [bodiesOf]

theorem bodiesOf_cons_ne {type : UInt16} {e : RawExtension} (h : e.type ≠ type)
    (es : List RawExtension) : bodiesOf type (e :: es) = bodiesOf type es := by
  simp [bodiesOf, h]

variable {β : Type} {get : Hello → β}

theorem map_set {x : Except WireError β} {set : β → Hello} (h : ∀ v, get (set v) = v) :
    ((x >>= fun v => .ok (set v)) : Except WireError Hello).map get = x := by
  cases x with
  | error e => rfl
  | ok v => exact congrArg Except.ok (h v)

/-- The field `get` is set by the extensions of this type, and by nothing else. -/
structure FieldOf (type : UInt16) (get : Hello → β) (decode : Bytes → β → Except WireError β) :
    Prop where
  own : ∀ hello body, (applyKnownExtension hello type body).map get = decode body (get hello)
  other : ∀ {type'}, type' ≠ type → ∀ {hello hello'}, Touches type' hello hello' →
    get hello' = get hello
  listed : ∀ hello extensions, get { hello with extensions } = get hello

/-- **A field depends on the extensions of its type only.** -/
theorem FieldOf.addAll {type : UInt16} {decode : Bytes → β → Except WireError β}
    (h : FieldOf type get decode) (es : List RawExtension) : ∀ (hello : Hello) (offset : Nat),
      (addAll hello offset es).map get =
        (bodiesOf type es).foldlM (fun v body => decode body v) (get hello) := by
  induction es with
  | nil => exact fun _ _ => rfl
  | cons e es ih =>
    intro hello offset
    obtain ⟨hello', hadd⟩ : Returns (addExtension hello (e.listed offset) e.body) :=
      applyKnownExtension_returns _ _ _
    rw [Capture.addAll, hadd, ok_bind, ih]
    by_cases htype : e.type = type
    · subst htype
      have hown := h.own { hello with extensions := hello.extensions ++ [e.listed offset] } e.body
      rw [h.listed] at hown
      rw [bodiesOf_cons_self, List.foldlM_cons, ← hown]
      change _ = ((addExtension hello (e.listed offset) e.body).map get >>= _)
      rw [hadd]
      rfl
    · have htouches := touches_applyKnownExtension _ _ _ _ hadd
      rw [bodiesOf_cons_ne htype, h.other htype htouches, h.listed]

theorem addAll_kept
    (hkept : ∀ {type hello hello'}, Touches type hello hello' → get hello' = get hello)
    (hlisted : ∀ hello extensions, get { hello with extensions } = get hello)
    (es : List RawExtension) : ∀ {hello hello' : Hello} {offset : Nat},
      addAll hello offset es = .ok hello' → get hello' = get hello := by
  induction es with
  | nil =>
    intro hello hello' offset h
    cases h
    rfl
  | cons e es ih =>
    intro hello hello' offset h
    obtain ⟨hello₁, hadd, h⟩ := bind_eq_ok.mp h
    rw [ih h, hkept (touches_applyKnownExtension _ _ _ _ hadd), hlisted]

theorem listAll_types (es : List RawExtension) : ∀ offset,
    (listAll offset es).map (fun x => x.type) = es.map fun e => e.type := by
  induction es with
  | nil => exact fun _ => rfl
  | cons e es ih =>
    intro offset
    rw [listAll, List.map_cons, List.map_cons, ih]
    rfl

/-! ## The fields -/

theorem serverName_field :
    FieldOf extServerName Hello.serverName fun body _ => parseServerName body where
  own _ _ := map_set fun _ => rfl
  listed _ _ := rfl
  other hne _ _ h := h.serverName hne

theorem alpn_field : FieldOf extALPN Hello.alpn fun body _ => parseALPN body where
  own _ _ := map_set fun _ => rfl
  listed _ _ := rfl
  other hne _ _ h := h.alpn hne

theorem quicTransportParams_field : FieldOf extQUICTransportParams Hello.quicTransportParams
    fun body _ => parseQUICTransportParams body where
  own _ _ := map_set fun _ => rfl
  listed _ _ := rfl
  other hne _ _ h := h.quicTransportParams hne

theorem supportedVersions_field :
    FieldOf extSupportedVersions Hello.supportedVersions (uint16Tail 1) where
  own _ _ := map_set fun _ => rfl
  listed _ _ := rfl
  other hne _ _ h := h.supportedVersions hne

theorem supportedGroups_field :
    FieldOf extSupportedGroups Hello.supportedGroups (uint16Tail 2) where
  own _ _ := map_set fun _ => rfl
  listed _ _ := rfl
  other hne _ _ h := h.supportedGroups hne

theorem signatureAlgorithms_field :
    FieldOf extSignatureAlgorithms Hello.signatureAlgorithms (uint16Tail 2) where
  own _ _ := map_set fun _ => rfl
  listed _ _ := rfl
  other hne _ _ h := h.signatureAlgorithms hne

theorem useSRTPProfiles_field : FieldOf extUseSRTP Hello.useSRTPProfiles srtpProfiles where
  own _ _ := map_set fun _ => rfl
  listed _ _ := rfl
  other hne _ _ h := h.useSRTPProfiles hne

theorem keyShare_field :
    FieldOf extKeyShare (fun hello => (hello.keyShareGroups, hello.keyShareLengths))
    fun body _ => parseKeyShare body where
  own _ _ := map_set fun _ => rfl
  listed _ _ := rfl
  other hne _ _ h := Prod.ext (h.keyShareGroups hne) (h.keyShareLengths hne)

/-- `hello.PointFormats` behind a body, which an empty one leaves alone. -/
def pointFormatsTail (body : Bytes) (old : List UInt8) : Except WireError (List UInt8) :=
  if 1 ≤ body.length then sliceFrom .panic body 1 else .ok old

theorem pointFormats_field : FieldOf extECPointFormats Hello.pointFormats pointFormatsTail where
  own hello body := by
    show (if 1 ≤ body.length then (do
        let formats ← sliceFrom .panic body 1
        .ok { hello with pointFormats := formats })
      else .ok hello : Except WireError Hello).map Hello.pointFormats = _
    unfold pointFormatsTail
    split_ifs with h
    · exact map_set fun _ => rfl
    · rfl
  listed _ _ := rfl
  other hne _ _ h := h.pointFormats hne

end HeadlessClient.Capture
