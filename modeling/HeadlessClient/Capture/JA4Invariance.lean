import HeadlessClient.Capture.ClientExtensions
import HeadlessClient.Capture.Fingerprint
import Mathlib.Logic.Relation

/-!
# Capture — JA4 and what a browser randomises

Chrome shuffles its extensions and puts GREASE values among its cipher suites,
extensions and versions. `Edit` lists these changes on what a ClientHello offers;
`ja4_invariant` follows any sequence of them through the record, the parser and
the fingerprint.

What the fingerprint sees of a hello is `SameFingerprint`, what an edit leaves
alone is `SameView`. The two meet because the extension types are pairwise
DISTINCT: then a permutation of the extensions does not change which body a field
is read from.
-/

namespace HeadlessClient.Capture

open Base Wire List

/-! ## What the fingerprint depends on -/

theorem sortStrings_perm {l l' : List Bytes} (h : l.Perm l') : sortStrings l = sortStrings l' := by
  apply List.Perm.eq_of_pairwise (fun a b _ _ hab hba => List.le_antisymm hab hba)
    (pairwise_insertionSort _ _) (pairwise_insertionSort _ _)
  exact (perm_insertionSort _ _).trans (h.trans (perm_insertionSort _ _).symm)

theorem ja4Version_eq (h : Hello) :
    ja4Version h = (withoutGREASE h.supportedVersions).foldl
      (fun version offered => if offered > version then offered else version) h.helloVersion := by
  rw [ja4Version, withoutGREASE, foldl_filter]
  refine foldl_ext _ _ _ fun version offered _ => ?_
  cases isGREASE offered <;> simp

/-- The two hellos agree in all that the fingerprint is made of. -/
structure SameFingerprint (h h' : Hello) : Prop where
  isDTLS : h.isDTLS = h'.isDTLS
  helloVersion : h.helloVersion = h'.helloVersion
  quicTransportParams : h.quicTransportParams = h'.quicTransportParams
  serverName : h.serverName = h'.serverName
  alpn : h.alpn = h'.alpn
  signatureAlgorithms : h.signatureAlgorithms = h'.signatureAlgorithms
  versions : withoutGREASE h.supportedVersions = withoutGREASE h'.supportedVersions
  suites : (withoutGREASE h.cipherSuites).Perm (withoutGREASE h'.cipherSuites)
  extensions : (withoutGREASE h.extensionTypes).Perm (withoutGREASE h'.extensionTypes)

theorem SameFingerprint.ja4_eq (sha256 : Bytes → Bytes) {h h' : Hello}
    (hsame : SameFingerprint h h') :
    h.ja4 sha256 = h'.ja4 sha256 := by
  have hversion : ja4Version h = ja4Version h' := by
    rw [ja4Version_eq, ja4Version_eq, hsame.versions, hsame.helloVersion]
  have hsuites := sortStrings_perm (hsame.suites.map hex4)
  have hcount : (hexList (withoutGREASE h.extensionTypes)).length =
      (hexList (withoutGREASE h'.extensionTypes)).length := (hsame.extensions.map hex4).length_eq
  have hhashed := sortStrings_perm ((hsame.extensions.map hex4).filter fun extension =>
    !(extension = ascii "0000" || extension = ascii "0010"))
  unfold Hello.ja4
  simp only [hexList] at hsuites hcount hhashed ⊢
  simp only [hsame.isDTLS, hsame.quicTransportParams, hversion, hsame.serverName, hsame.alpn,
    hsuites, hcount, hhashed, hsame.signatureAlgorithms]

/-! ## Edits -/

section GreaseEdit

variable {α : Type} (grease : α → Bool)

/-- One GREASE item is put in, taken out or replaced. -/
inductive GreaseEdit : List α → List α → Prop
  | insert (before after : List α) {x : α} (hx : grease x = true) :
      GreaseEdit (before ++ after) (before ++ x :: after)
  | remove (before after : List α) {x : α} (hx : grease x = true) :
      GreaseEdit (before ++ x :: after) (before ++ after)
  | replace (before after : List α) {x y : α} (hx : grease x = true) (hy : grease y = true) :
      GreaseEdit (before ++ x :: after) (before ++ y :: after)

variable {grease}

theorem GreaseEdit.filter_eq {keep : α → Bool} (hkeep : ∀ x, grease x = true → keep x = false)
    {l l' : List α} (h : GreaseEdit grease l l') : l.filter keep = l'.filter keep := by
  have hdrop : ∀ before after x, grease x = true →
      (before ++ x :: after).filter keep = (before ++ after).filter keep := by
    intro before after x hx
    rw [filter_append, filter_cons_of_neg (by simp [hkeep x hx]), filter_append]
  cases h with
  | insert before after hx => exact (hdrop _ _ _ hx).symm
  | remove before after hx => exact hdrop _ _ _ hx
  | replace before after hx hy => exact (hdrop _ _ _ hx).trans (hdrop _ _ _ hy).symm

end GreaseEdit

theorem GreaseEdit.withoutGREASE_eq {values values' : List UInt16}
    (h : GreaseEdit isGREASE values values') : withoutGREASE values = withoutGREASE values' :=
  h.filter_eq fun x hx => by rw [hx, Bool.not_true]

/-- What a ClientHello offers and a browser shuffles. -/
structure Offer where
  cipherSuites : List UInt16
  extensions : List RawExtension

/-- The supported_versions extension of a client. -/
def versionsExtension (versions : List UInt16) (fits : 2 * versions.length < 256) :
    RawExtension where
  type := extSupportedVersions
  body := vec 1 (putUint16s versions)
  fits := by
    rw [length_vec, length_putUint16s]
    omega

/-- The changes. Lengths are not part of an offer: a record is written with those
of the offer it carries. -/
inductive Edit : Offer → Offer → Prop
  | permuteSuites {suites suites' : List UInt16} (h : suites.Perm suites')
      (es : List RawExtension) : Edit ⟨suites, es⟩ ⟨suites', es⟩
  | permuteExtensions (suites : List UInt16) {es es' : List RawExtension} (h : es.Perm es') :
      Edit ⟨suites, es⟩ ⟨suites, es'⟩
  | greaseSuites {suites suites' : List UInt16} (h : GreaseEdit isGREASE suites suites')
      (es : List RawExtension) : Edit ⟨suites, es⟩ ⟨suites', es⟩
  | greaseExtensions (suites : List UInt16) {es es' : List RawExtension}
      (h : GreaseEdit (fun e : RawExtension => isGREASE e.type) es es') :
      Edit ⟨suites, es⟩ ⟨suites, es'⟩
  | greaseVersions (suites : List UInt16) (before after : List RawExtension)
      {versions versions' : List UInt16} (h : GreaseEdit isGREASE versions versions')
      (fits : 2 * versions.length < 256) (fits' : 2 * versions'.length < 256) :
      Edit ⟨suites, before ++ versionsExtension versions fits :: after⟩
        ⟨suites, before ++ versionsExtension versions' fits' :: after⟩

/-! ## What edits leave alone -/

/-- The versions in a body, without the GREASE ones. -/
def versionsOf (body : Bytes) : Except WireError (List UInt16) :=
  (uint16Tail 1 body []).map withoutGREASE

structure SameView (o o' : Offer) : Prop where
  suites : (withoutGREASE o.cipherSuites).Perm (withoutGREASE o'.cipherSuites)
  types : (withoutGREASE (o.extensions.map fun e => e.type)).Perm
    (withoutGREASE (o'.extensions.map fun e => e.type))
  bodies : ∀ type, isGREASE type = false → type ≠ extSupportedVersions →
    (bodiesOf type o.extensions).Perm (bodiesOf type o'.extensions)
  versions : ((bodiesOf extSupportedVersions o.extensions).map versionsOf).Perm
    ((bodiesOf extSupportedVersions o'.extensions).map versionsOf)

theorem SameView.refl (o : Offer) : SameView o o :=
  ⟨.refl _, .refl _, fun _ _ _ => .refl _, .refl _⟩

theorem SameView.trans {o₁ o₂ o₃ : Offer} (h : SameView o₁ o₂) (h' : SameView o₂ o₃) :
    SameView o₁ o₃ :=
  ⟨h.suites.trans h'.suites, h.types.trans h'.types,
    fun type hg hv => (h.bodies type hg hv).trans (h'.bodies type hg hv),
      h.versions.trans h'.versions⟩

theorem bodiesOf_append (type : UInt16) (es es' : List RawExtension) :
    bodiesOf type (es ++ es') = bodiesOf type es ++ bodiesOf type es' := by
  simp [bodiesOf]

variable {es es' : List RawExtension}

theorem bodiesOf_perm (type : UInt16) (h : es.Perm es') :
    (bodiesOf type es).Perm (bodiesOf type es') :=
  (h.filter _).map _

theorem bodiesOf_greaseEdit {type : UInt16} (htype : isGREASE type = false)
    (h : GreaseEdit (fun e : RawExtension => isGREASE e.type) es es') :
    bodiesOf type es = bodiesOf type es' := by
  rw [bodiesOf, bodiesOf, h.filter_eq fun e he => ?_]
  refine decide_eq_false fun heq => ?_
  rw [heq, htype] at he
  cases he

theorem types_greaseEdit (h : GreaseEdit (fun e : RawExtension => isGREASE e.type) es es') :
    withoutGREASE (es.map fun e => e.type) = withoutGREASE (es'.map fun e => e.type) := by
  rw [withoutGREASE, withoutGREASE, filter_map, filter_map, h.filter_eq fun e he => ?_]
  show (!isGREASE e.type) = false
  rw [he, Bool.not_true]

theorem versionsOf_body (versions : List UInt16) (fits : 2 * versions.length < 256) :
    versionsOf (versionsExtension versions fits).body = .ok (withoutGREASE versions) := by
  rw [versionsOf, versionsExtension, uint16Tail_vec]
  rfl

theorem isGREASE_extSupportedVersions : isGREASE extSupportedVersions = false := by decide

/-- **One edit leaves the view alone.** -/
theorem Edit.sameView {o o' : Offer} (h : Edit o o') : SameView o o' := by
  cases h with
  | permuteSuites h es => exact ⟨h.filter _, .refl _, fun _ _ _ => .refl _, .refl _⟩
  | permuteExtensions suites h =>
    exact ⟨.refl _, (h.map _).filter _, fun type _ _ => bodiesOf_perm type h,
      (bodiesOf_perm _ h).map _⟩
  | greaseSuites h es =>
    refine ⟨?_, .refl _, fun _ _ _ => .refl _, .refl _⟩
    rw [h.withoutGREASE_eq]
  | greaseExtensions suites h =>
    refine ⟨.refl _, ?_, fun type hg _ => ?_, ?_⟩
    · rw [types_greaseEdit h]
    · rw [bodiesOf_greaseEdit hg h]
    · rw [bodiesOf_greaseEdit isGREASE_extSupportedVersions h]
  | greaseVersions suites before after h fits fits' =>
    refine ⟨.refl _, ?_, fun type _ hv => ?_, ?_⟩
    · simp [versionsExtension]
    · -- another type does not see the extension at all
      have hother : ∀ versions fits, (versionsExtension versions fits).type ≠ type :=
        fun _ _ => Ne.symm hv
      rw [bodiesOf_append, bodiesOf_append, bodiesOf_cons_ne (hother _ _),
        bodiesOf_cons_ne (hother _ _)]
    · have hown : ∀ versions fits, bodiesOf extSupportedVersions
          (versionsExtension versions fits :: after) =
            (versionsExtension versions fits).body :: bodiesOf extSupportedVersions after :=
        fun versions fits => bodiesOf_cons_self (versionsExtension versions fits) after
      rw [bodiesOf_append, bodiesOf_append, hown, hown, map_append, map_append,
        map_cons, map_cons, versionsOf_body, versionsOf_body, h.withoutGREASE_eq]

/-- **Any number of edits.** -/
theorem sameView_of_edits {o o' : Offer} (h : Relation.ReflTransGen Edit o o') : SameView o o' := by
  induction h with
  | refl => exact .refl o
  | tail _ hedit ih => exact ih.trans hedit.sameView

/-! ## Records -/

namespace HelloRecord

/-- The extensions, of which a record without a block has none. -/
def exts (h : HelloRecord) : List RawExtension := h.extensions.getD []

def offer (h : HelloRecord) : Offer := ⟨h.fields.suites.cipherSuites, h.exts⟩

def IsTLSClient (h : HelloRecord) : Prop :=
  h.framing.isDTLS = false ∧ h.fields.suites.isClient = true

/-- The records carry the same, apart from what they offer. -/
structure SameEnvelope (h h' : HelloRecord) : Prop where
  framing : h.framing = h'.framing
  helloVersion : h.fields.helloVersion = h'.fields.helloVersion
  random : h.fields.random = h'.fields.random
  sessionID : h.fields.sessionID = h'.fields.sessionID
  messageType : h.fields.suites.messageType = h'.fields.suites.messageType
  compressionMethods :
    h.fields.suites.compressionMethods = h'.fields.suites.compressionMethods

theorem length_suites_put (s : Suites) : s.put.length < 256 ^ 2 + 300 := by
  cases s with
  | offered suites methods suites_fit methods_fit =>
    simp only [Suites.put, length_append, length_vec, length_putUint16s, length_nil]
    omega
  | chosen suite method => simp [Suites.put]

theorem bodyLength_fits (h : HelloRecord) : h.bodyLength < 256 ^ 3 := by
  have hsuites := length_suites_put h.fields.suites
  have hrandom := h.fields.random_length
  have hsession := h.fields.sessionID_fits
  have hcookie : (h.fields.putCookie h.framing.isDTLS).length ≤ 256 := by
    have := h.fields.cookie_fits
    unfold Fields.putCookie
    split
    · simp only [length_append, length_vec, length_nil]
      omega
    · simp
  have hblock : h.block.length < 256 ^ 2 + 2 := by
    unfold block
    cases hes : h.extensions with
    | none => simp
    | some es =>
      have := h.fits es hes
      simp only [length_vec]
      omega
  simp only [bodyLength, Fields.put, length_append, length_putUint, length_vec, hrandom,
    helloRandomLen]
  omega

theorem parseHello_returns (h : HelloRecord) : Returns (parseHello h.encode) := by
  rw [h.parseHello_encode h.bodyLength_fits]
  exact addAll_returns _ _ _

section Read

variable {h h' : HelloRecord} {hello hello' : Hello} (hread : parseHello h.encode = .ok hello)
  (hread' : parseHello h'.encode = .ok hello')
include hread

theorem addAll_of_read :
    addAll (headReport h.framing h.fields h.encode) (h.blockOffset + 2) h.exts = .ok hello := by
  rw [← hread, h.parseHello_encode h.bodyLength_fits]
  rfl

variable {β : Type} {decode : Bytes → β → Except WireError β}

theorem field_eq {type : UInt16} {get : Hello → β} (hfield : FieldOf type get decode) :
    (bodiesOf type h.exts).foldlM (fun v body => decode body v)
      (get (headReport h.framing h.fields h.encode)) = .ok (get hello) := by
  rw [← hfield.addAll h.exts _ (h.blockOffset + 2), addAll_of_read hread]
  rfl

theorem kept_eq (get : Hello → β)
    (hkept : ∀ {type hello hello'}, Touches type hello hello' → get hello' = get hello)
    (hlisted : ∀ hello extensions, get { hello with extensions } = get hello) :
    get hello = get (headReport h.framing h.fields h.encode) :=
  addAll_kept hkept hlisted _ (addAll_of_read hread)

theorem extensionTypes_eq : hello.extensionTypes = h.exts.map fun e => e.type := by
  rw [Hello.extensionTypes, addAll_extensions _ (addAll_of_read hread), headReport, Fields.report,
    nil_append, listAll_types]

include hread'

theorem field_congr {type : UInt16} {get : Hello → β}
    (hfield : FieldOf type get decode)
    (hdefault : get (headReport h.framing h.fields h.encode) =
      get (headReport h'.framing h'.fields h'.encode))
    (hbodies : bodiesOf type h.exts = bodiesOf type h'.exts) : get hello = get hello' := by
  have hvalue := field_eq hread hfield
  rw [hdefault, hbodies, field_eq hread' hfield] at hvalue
  exact (Except.ok.inj hvalue).symm

end Read

/-! ## The fingerprint of an edited record -/

theorem eq_of_perm_short {α : Type} {l l' : List α} (h : l.Perm l') (hshort : l.length ≤ 1) :
    l = l' := by
  cases l with
  | nil => exact h.nil_eq
  | cons x l =>
    have hnil : l = [] := length_eq_zero_iff.mp (by simpa using hshort)
    subst hnil
    exact singleton_perm.mp h

theorem length_bodiesOf_le (hdistinct : (es.map fun e => e.type).Nodup) (type : UInt16) :
    (bodiesOf type es).length ≤ 1 := by
  rw [bodiesOf, length_map]
  cases hfound : es.filter fun e => e.type = type with
  | nil => exact Nat.zero_le 1
  | cons e rest =>
    have he : e ∈ es.filter fun e => e.type = type := by
      rw [hfound]
      exact mem_cons_self
    obtain ⟨hmem, htype⟩ := mem_filter.mp he
    rw [← hfound, ← of_decide_eq_true htype, filter_key_eq_singleton hdistinct hmem]
    exact Nat.le_refl 1

theorem sameFingerprint {h h' : HelloRecord} {hello hello' : Hello}
    (hread : parseHello h.encode = .ok hello) (hread' : parseHello h'.encode = .ok hello')
    (hdistinct : (h.exts.map fun e => e.type).Nodup) (henvelope : SameEnvelope h h')
    (hview : SameView h.offer h'.offer) : SameFingerprint hello hello' := by
  have hbodies : ∀ type, isGREASE type = false → type ≠ extSupportedVersions →
      bodiesOf type h.exts = bodiesOf type h'.exts := fun type hgrease hne =>
    eq_of_perm_short (hview.bodies type hgrease hne) (length_bodiesOf_le hdistinct type)
  have hkind : hello.kind = hello'.kind := by
    rw [kept_eq hread Hello.kind (fun ht => ht.kind) fun _ _ => rfl,
      kept_eq hread' Hello.kind (fun ht => ht.kind) fun _ _ => rfl]
    simp only [headReport, Fields.report, henvelope.framing, henvelope.messageType]
  refine ⟨?_, ?_, ?_, ?_, ?_, ?_, ?_, ?_, ?_⟩
  · rw [Hello.isDTLS, Hello.isDTLS, hkind]
  · rw [kept_eq hread Hello.helloVersion (fun ht => ht.helloVersion) fun _ _ => rfl,
      kept_eq hread' Hello.helloVersion (fun ht => ht.helloVersion) fun _ _ => rfl]
    exact henvelope.helloVersion
  · exact field_congr hread hread' quicTransportParams_field rfl (hbodies _ (by decide) (by decide))
  · exact field_congr hread hread' serverName_field rfl (hbodies _ (by decide) (by decide))
  · exact field_congr hread hread' alpn_field rfl (hbodies _ (by decide) (by decide))
  · exact field_congr hread hread' signatureAlgorithms_field rfl (hbodies _ (by decide) (by decide))
  · -- the one versions body, if there is one
    have hshort := length_bodiesOf_le hdistinct extSupportedVersions
    have hversions := eq_of_perm_short hview.versions (by rw [length_map]; exact hshort)
    have hvalue := field_eq hread supportedVersions_field
    have hvalue' := field_eq hread' supportedVersions_field
    change (bodiesOf extSupportedVersions h.exts).map versionsOf =
      (bodiesOf extSupportedVersions h'.exts).map versionsOf at hversions
    cases hfound : bodiesOf extSupportedVersions h.exts with
    | nil =>
      rw [hfound] at hversions hvalue
      rw [map_eq_nil_iff.mp hversions.symm] at hvalue'
      rw [← Except.ok.inj hvalue, ← Except.ok.inj hvalue']
      rfl
    | cons body rest =>
      rw [hfound] at hshort hversions hvalue
      have hnil : rest = [] := length_eq_zero_iff.mp (by simpa using hshort)
      subst hnil
      obtain ⟨body', rest', hfound', hbody, hrest⟩ := map_eq_cons_iff.mp hversions.symm
      rw [hfound', map_eq_nil_iff.mp hrest] at hvalue'
      have hone : uint16Tail 1 body [] = .ok hello.supportedVersions := by
        rw [foldlM_cons] at hvalue
        exact (bind_pure _).symm.trans hvalue
      have hone' : uint16Tail 1 body' [] = .ok hello'.supportedVersions := by
        rw [foldlM_cons] at hvalue'
        exact (bind_pure _).symm.trans hvalue'
      rw [versionsOf, versionsOf, hone, hone'] at hbody
      exact (Except.ok.inj hbody).symm
  · rw [kept_eq hread Hello.cipherSuites (fun ht => ht.cipherSuites) fun _ _ => rfl,
      kept_eq hread' Hello.cipherSuites (fun ht => ht.cipherSuites) fun _ _ => rfl]
    exact hview.suites
  · rw [extensionTypes_eq hread, extensionTypes_eq hread']
    exact hview.types

/-- Every protocol name that an ALPN extension of the record lists has a byte. -/
def NamesProtocols (h : HelloRecord) : Prop :=
  ∀ e ∈ h.exts, e.type = extALPN → ∀ names, parseALPN e.body = .ok names → [] ∉ names

theorem alpn_head {h : HelloRecord} {hello : Hello} (hread : parseHello h.encode = .ok hello)
    (hnames : h.NamesProtocols) : hello.alpn.head? ≠ some [] := by
  rcases foldlM_parseALPN _ (field_eq hread alpn_field) with ⟨-, hnone⟩ | ⟨body, hlast, hparse⟩
  · rw [hnone]
    exact fun h => nomatch h
  · intro hhead
    obtain ⟨e, he, rfl⟩ := mem_map.mp (mem_of_getLast? hlast)
    obtain ⟨he, htype⟩ := mem_filter.mp he
    exact hnames e he (of_decide_eq_true htype) _ hparse (mem_of_head? hhead)

/-- **JA4 is invariant under what a browser randomises**: the order of extensions
and cipher suites, and GREASE among cipher suites, extensions and versions. -/
theorem ja4_invariant (sha256 : Bytes → Bytes) {h h' : HelloRecord} (hclient : h.IsTLSClient)
    (hdistinct : (h.exts.map fun e => e.type).Nodup) (hnames : h.NamesProtocols)
    (henvelope : SameEnvelope h h') (hedits : Relation.ReflTransGen Edit h.offer h'.offer) :
    ∃ hello hello' text, parseHello h.encode = .ok hello ∧ parseHello h'.encode = .ok hello' ∧
      hello.kind = .tlsClient ∧ hello.ja4 sha256 = .ok text ∧ hello'.ja4 sha256 = .ok text := by
  obtain ⟨hello, hread⟩ := h.parseHello_returns
  obtain ⟨hello', hread'⟩ := h'.parseHello_returns
  have hsame := sameFingerprint hread hread' hdistinct henvelope (sameView_of_edits hedits)
  obtain ⟨text, htext⟩ := (hello.ja4_returns sha256).mpr (.inr (alpn_head hread hnames))
  refine ⟨hello, hello', text, hread, hread', ?_, htext, by rw [← hsame.ja4_eq, htext]⟩
  have htype : h.fields.suites.messageType = handshakeClientHello := by
    have := h.fields.suites.isClient_eq
    rw [hclient.2] at this
    exact of_decide_eq_true this
  rw [kept_eq hread Hello.kind (fun ht => ht.kind) fun _ _ => rfl]
  simp only [headReport, Fields.report, helloKind, hclient.1, htype]
  rfl

/-! ### Two hellos of one browser -/

theorem null_method_fits : ([0] : Bytes).length < 256 := by decide

theorem nines_length : (List.replicate 32 (9 : UInt8)).length = helloRandomLen := rfl

theorem empty_body_fits : ([] : Bytes).length < 256 ^ 2 := by decide

/-- A record of a TLS client, with what it offers. -/
def browserHello (suites : List UInt16) (es : List RawExtension)
    (suites_fit : 2 * suites.length < 256 ^ 2) (es_fit : (putExtensions es).length < 256 ^ 2) :
    HelloRecord where
  framing := .tls 0x0301 isDTLSVersion_tls10
  fields :=
    { helloVersion := 0x0303, random := List.replicate 32 9, sessionID := [], cookie := [],
      suites := .offered suites [0] suites_fit null_method_fits,
      random_length := nines_length,
      sessionID_fits := Fields.nil_fits, cookie_fits := Fields.nil_fits }
  extensions := some es
  fits := by
    rintro es' ⟨⟩
    exact es_fit

def h2Extension : RawExtension := ⟨extALPN, [0, 3, 2, 104, 50], by decide⟩

/-- The suites in another order with another GREASE value, a GREASE version less,
the extensions swapped and a GREASE extension in front. -/
theorem ja4_invariant_two_hellos :
    ∃ hello hello' text,
      parseHello (browserHello [0x0a0a, 0x1301, 0x1302]
        [versionsExtension [0x1a1a, 0x0304] (by decide), h2Extension] (by decide)
          (by decide)).encode = .ok hello ∧
      parseHello (browserHello [0x1302, 0x1301, 0x2a2a]
        [⟨0x3a3a, [0], by decide⟩, h2Extension, versionsExtension [0x0304] (by decide)] (by decide)
          (by decide)).encode = .ok hello' ∧
      hello.kind = .tlsClient ∧ hello.ja4 (fun _ => List.replicate 32 0) = .ok text ∧
      hello'.ja4 (fun _ => List.replicate 32 0) = .ok text := by
  refine ja4_invariant _ ⟨rfl, rfl⟩ (by decide) ?_ ⟨rfl, rfl, rfl, rfl, rfl, rfl⟩ ?_
  · intro e he htype names hnames
    rcases mem_cons.mp he with rfl | he
    · exact absurd htype (by decide)
    · obtain rfl := mem_singleton.mp he
      have hh2 : parseALPN h2Extension.body = .ok [[104, 50]] := by decide +kernel
      rw [hh2] at hnames
      cases hnames
      decide
  · have hsuites : List.Perm [0x0a0a, 0x1301, 0x1302] [0x1302, 0x1301, (0x0a0a : UInt16)] := by
      decide
    refine .head (.permuteSuites hsuites _) ?_
    refine .head (.greaseSuites (.replace [0x1302, 0x1301] [] (y := 0x2a2a) (by decide)
      (by decide)) _) ?_
    refine .head (.greaseVersions _ [] [h2Extension] (.remove [] [0x0304] (by decide)) _
      (by decide)) ?_
    refine .head (.permuteExtensions _ (.swap _ _ _)) ?_
    exact .single (.greaseExtensions _ (.insert [] _ (by decide)))

end HelloRecord

end HeadlessClient.Capture
