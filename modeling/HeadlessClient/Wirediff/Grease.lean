import HeadlessClient.Capture.JA4Invariance
import HeadlessClient.Wirediff.Fields
import HeadlessClient.Wirediff.ReadCapture
import Mathlib.Data.List.Forall2

/-!
# Wirediff — GREASE does not show

A client draws its GREASE values anew for every connection. `RecordAlike` relates
two ClientHello records that differ in these draws only; `HelloAlike` is what is
left of the difference when the records have been parsed, and each of the
seventeen fields drops it in its own way (`HelloAlike.render_eq`). So two captures
of one client are reported as the SAME (`diff_ignores_grease`).
-/

namespace HeadlessClient.Wirediff

open Base Wire Capture List

/-! ## Records that differ in GREASE values -/

/-- The same value, or two GREASE values. -/
def Alike (v w : UInt16) : Prop := v = w ∨ isGREASE v = true ∧ isGREASE w = true

theorem Alike.eq_of_not {v w : UInt16} (h : Alike v w) (hv : isGREASE v = false) : v = w := by
  rcases h with h | ⟨hgrease, -⟩
  · exact h
  · rw [hv] at hgrease
    cases hgrease

theorem Alike.isGREASE_eq {v w : UInt16} (h : Alike v w) : isGREASE v = isGREASE w := by
  rcases h with rfl | ⟨hv, hw⟩
  · rfl
  · rw [hv, hw]

/-- The bodies of two extensions of a type: equal, or lists of versions, groups
or key shares with GREASE values at the same places. -/
inductive BodyAlike : UInt16 → Bytes → Bytes → Prop
  | same (type : UInt16) (body : Bytes) : BodyAlike type body body
  | versions {vs ws : List UInt16} (h : List.Forall₂ Alike vs ws) :
      BodyAlike extSupportedVersions (vec 1 (putUint16s vs)) (vec 1 (putUint16s ws))
  | groups {vs ws : List UInt16} (h : List.Forall₂ Alike vs ws) :
      BodyAlike extSupportedGroups (vec 2 (putUint16s vs)) (vec 2 (putUint16s ws))
  | keyShare {ss ts : List KeyShareEntry}
      (h : List.Forall₂ (fun s t => Alike s.group t.group ∧ s.key = t.key) ss ts) :
      BodyAlike extKeyShare (vec 2 (ss.flatMap KeyShareEntry.put))
        (vec 2 (ts.flatMap KeyShareEntry.put))

structure ExtensionAlike (e f : RawExtension) : Prop where
  type : Alike e.type f.type
  body : BodyAlike e.type e.body f.body

/-- Two ClientHello records that differ only in which GREASE values stand at the
GREASE positions. -/
structure RecordAlike (h k : HelloRecord) : Prop where
  client : h.fields.suites.isClient = true
  envelope : HelloRecord.SameEnvelope h k
  cookie : h.fields.cookie = k.fields.cookie
  suites : List.Forall₂ Alike h.fields.suites.cipherSuites k.fields.suites.cipherSuites
  extensions : List.Forall₂ ExtensionAlike h.exts k.exts

/-! ## Lists with GREASE -/

theorem withoutGREASE_alike {vs ws : List UInt16} (h : List.Forall₂ Alike vs ws) :
    withoutGREASE vs = withoutGREASE ws := by
  induction h with
  | nil => rfl
  | @cons v w vs ws hvw _ ih =>
    unfold withoutGREASE at ih ⊢
    by_cases hv : isGREASE v = true
    · have hw : isGREASE w = true := by rw [← hvw.isGREASE_eq, hv]
      rw [filter_cons_of_neg (by simp [hv]), filter_cons_of_neg (by simp [hw]), ih]
    · obtain rfl := hvw.eq_of_not (Bool.eq_false_iff.mpr hv)
      rw [filter_cons_of_pos (by simp [hv]), filter_cons_of_pos (by simp [hv]), ih]

variable {type : UInt16} {body : Bytes}

theorem bodiesOf_alike (htype : isGREASE type = false) {es fs : List RawExtension}
    (h : List.Forall₂ ExtensionAlike es fs) :
    List.Forall₂ (BodyAlike type) (bodiesOf type es) (bodiesOf type fs) := by
  induction h with
  | nil => exact .nil
  | @cons e f es fs hef _ ih =>
    by_cases he : e.type = type
    · subst he
      have hf : e.type = f.type := hef.type.eq_of_not htype
      rw [bodiesOf_cons_self, hf, bodiesOf_cons_self, ← hf]
      exact .cons hef.body ih
    · have hf : f.type ≠ type := by
        intro heq
        have hgrease : isGREASE e.type = false := by rw [hef.type.isGREASE_eq, heq, htype]
        exact he ((hef.type.eq_of_not hgrease).trans heq)
      rw [bodiesOf_cons_ne he, bodiesOf_cons_ne hf]
      exact ih

theorem BodyAlike.eq {body' : Bytes} (h : BodyAlike type body body')
    (hversions : type ≠ extSupportedVersions) (hgroups : type ≠ extSupportedGroups)
    (hshare : type ≠ extKeyShare) : body = body' := by
  cases h with
  | same => rfl
  | versions h => exact absurd rfl hversions
  | groups h => exact absurd rfl hgroups
  | keyShare h => exact absurd rfl hshare

/-! ## Fields with GREASE -/

theorem foldlM_alike {β : Type} {R : β → β → Prop}
    {decode : Bytes → β → Except WireError β}
    (hstep : ∀ {body body' v v' w w'}, BodyAlike type body body' → R v v' →
      decode body v = .ok w → decode body' v' = .ok w' → R w w')
    {bodies bodies' : List Bytes} (h : List.Forall₂ (BodyAlike type) bodies bodies') :
    ∀ {v v' w w' : β}, R v v' → bodies.foldlM (fun v body => decode body v) v = .ok w →
      bodies'.foldlM (fun v body => decode body v) v' = .ok w' → R w w' := by
  induction h with
  | nil =>
    intro v v' w w' hv hw hw'
    cases hw
    cases hw'
    exact hv
  | cons hbody _ ih =>
    intro v v' w w' hv hw hw'
    rw [foldlM_cons] at hw hw'
    obtain ⟨v₁, hv₁, hw⟩ := bind_eq_ok.mp hw
    obtain ⟨v₁', hv₁', hw'⟩ := bind_eq_ok.mp hw'
    exact ih (hstep hbody hv hv₁ hv₁') hw hw'

theorem alike_refl (vs : List UInt16) : List.Forall₂ Alike vs vs :=
  forall₂_same.mpr fun _ _ => .inl rfl

theorem uint16Tail_same {n : Nat} {v v' w w' : List UInt16} (hv : List.Forall₂ Alike v v')
    (hw : uint16Tail n body v = .ok w) (hw' : uint16Tail n body v' = .ok w') :
    List.Forall₂ Alike w w' := by
  unfold uint16Tail at hw hw'
  split_ifs at hw hw' with hlen
  · rw [hw] at hw'
    cases hw'
    exact alike_refl w
  · cases hw
    cases hw'
    exact hv

theorem uint16Tail_vec_alike {n : Nat} {vs ws v v' w w' : List UInt16}
    (h : List.Forall₂ Alike vs ws) (hw : uint16Tail n (vec n (putUint16s vs)) v = .ok w)
    (hw' : uint16Tail n (vec n (putUint16s ws)) v' = .ok w') : List.Forall₂ Alike w w' := by
  rw [uint16Tail_vec] at hw hw'
  cases hw
  cases hw'
  exact h

/-- Key shares: groups that are alike, and the same lengths. -/
def SharesAlike (x y : List UInt16 × List Nat) : Prop := List.Forall₂ Alike x.1 y.1 ∧ x.2 = y.2

theorem parseKeyShare_alike {body' : Bytes} {x y : List UInt16 × List Nat}
    (h : BodyAlike extKeyShare body body') (hx : parseKeyShare body = .ok x)
    (hy : parseKeyShare body' = .ok y) : SharesAlike x y := by
  cases h with
  | same =>
    rw [hx] at hy
    cases hy
    exact ⟨alike_refl _, rfl⟩
  | @keyShare ss ts h =>
    rw [parseKeyShare_put] at hx hy
    cases hx
    cases hy
    constructor
    · rw [forall₂_map_left_iff, forall₂_map_right_iff]
      exact h.imp fun _ _ hst => hst.1
    · rw [← forall₂_eq_eq_eq, forall₂_map_left_iff, forall₂_map_right_iff]
      exact h.imp fun _ _ hst => by rw [hst.2]

/-! ## Parsed hellos -/

/-- What two parsed hellos share if their records are alike. -/
structure HelloAlike (x y : Hello) : Prop where
  kind : x.kind = y.kind
  recordVersion : x.recordVersion = y.recordVersion
  helloVersion : x.helloVersion = y.helloVersion
  sessionIDLen : x.sessionIDLen = y.sessionIDLen
  cipherSuites : List.Forall₂ Alike x.cipherSuites y.cipherSuites
  compressionMethods : x.compressionMethods = y.compressionMethods
  extensionTypes : List.Forall₂ Alike x.extensionTypes y.extensionTypes
  serverName : x.serverName = y.serverName
  supportedGroups : List.Forall₂ Alike x.supportedGroups y.supportedGroups
  supportedVersions : List.Forall₂ Alike x.supportedVersions y.supportedVersions
  keyShare : SharesAlike (x.keyShareGroups, x.keyShareLengths) (y.keyShareGroups, y.keyShareLengths)
  pointFormats : x.pointFormats = y.pointFormats
  signatureAlgorithms : x.signatureAlgorithms = y.signatureAlgorithms
  alpn : x.alpn = y.alpn
  quicTransportParams : x.quicTransportParams = y.quicTransportParams
  useSRTPProfiles : x.useSRTPProfiles = y.useSRTPProfiles

section Parsed

variable {h k : HelloRecord} {x y : Hello} (hhk : RecordAlike h k)
  (hx : parseHello h.encode = .ok x) (hy : parseHello k.encode = .ok y)
include hhk hx hy

omit hhk in
theorem kept_alike {β : Type} (get : Hello → β)
    (hkept : ∀ {type hello hello'}, Touches type hello hello' → get hello' = get hello)
    (hlisted : ∀ hello extensions, get { hello with extensions } = get hello)
    {R : β → β → Prop} (hhead : R (get (headReport h.framing h.fields h.encode))
      (get (headReport k.framing k.fields k.encode))) : R (get x) (get y) := by
  rw [HelloRecord.kept_eq hx get hkept hlisted, HelloRecord.kept_eq hy get hkept hlisted]
  exact hhead

theorem RecordAlike.plain {β : Type} {get : Hello → β}
    {decode : Bytes → β → Except WireError β} (hfield : FieldOf type get decode)
    (hdefault : get (headReport h.framing h.fields h.encode) =
      get (headReport k.framing k.fields k.encode))
    (hgrease : isGREASE type = false) (hversions : type ≠ extSupportedVersions)
    (hgroups : type ≠ extSupportedGroups) (hshare : type ≠ extKeyShare) : get x = get y := by
  refine HelloRecord.field_congr hx hy hfield hdefault ?_
  rw [← forall₂_eq_eq_eq]
  exact (bodiesOf_alike hgrease hhk.extensions).imp fun _ _ hb => hb.eq hversions hgroups hshare

theorem RecordAlike.greased {β : Type} {R : β → β → Prop} {get : Hello → β}
    {decode : Bytes → β → Except WireError β} (hfield : FieldOf type get decode)
    (hgrease : isGREASE type = false)
    (hstep : ∀ {body body' v v' w w'}, BodyAlike type body body' → R v v' →
      decode body v = .ok w → decode body' v' = .ok w' → R w w')
    (hdefault : R (get (headReport h.framing h.fields h.encode))
      (get (headReport k.framing k.fields k.encode))) : R (get x) (get y) :=
  foldlM_alike hstep (bodiesOf_alike hgrease hhk.extensions) hdefault
    (HelloRecord.field_eq hx hfield) (HelloRecord.field_eq hy hfield)

/-- **Parsing keeps the difference where it was.** -/
theorem RecordAlike.helloAlike : HelloAlike x y where
  kind := kept_alike hx hy Hello.kind (fun ht => ht.kind) (fun _ _ => rfl)
    (by simp only [headReport, Fields.report, hhk.envelope.framing, hhk.envelope.messageType])
  recordVersion :=
    kept_alike hx hy Hello.recordVersion (fun ht => ht.recordVersion) (fun _ _ => rfl)
    (by simp only [headReport, Fields.report, hhk.envelope.framing])
  helloVersion := kept_alike hx hy Hello.helloVersion (fun ht => ht.helloVersion) (fun _ _ => rfl)
    hhk.envelope.helloVersion
  sessionIDLen := kept_alike hx hy Hello.sessionIDLen (fun ht => ht.sessionIDLen) (fun _ _ => rfl)
    (by simp only [headReport, Fields.report, hhk.envelope.sessionID])
  cipherSuites := kept_alike hx hy Hello.cipherSuites (fun ht => ht.cipherSuites) (fun _ _ => rfl)
    hhk.suites
  compressionMethods := kept_alike hx hy Hello.compressionMethods (fun ht => ht.compressionMethods)
    (fun _ _ => rfl) hhk.envelope.compressionMethods
  extensionTypes := by
    rw [HelloRecord.extensionTypes_eq hx, HelloRecord.extensionTypes_eq hy,
      forall₂_map_left_iff, forall₂_map_right_iff]
    exact hhk.extensions.imp fun _ _ he => he.type
  serverName := hhk.plain hx hy serverName_field rfl (by decide) (by decide) (by decide) (by decide)
  supportedGroups := by
    refine hhk.greased hx hy supportedGroups_field (by decide) ?_ .nil
    intro body body' v v' w w' hb hv hw hw'
    cases hb with
    | same => exact uint16Tail_same hv hw hw'
    | groups h => exact uint16Tail_vec_alike h hw hw'
  supportedVersions := by
    refine hhk.greased hx hy supportedVersions_field (by decide) ?_ .nil
    intro body body' v v' w w' hb hv hw hw'
    cases hb with
    | same => exact uint16Tail_same hv hw hw'
    | versions h => exact uint16Tail_vec_alike h hw hw'
  keyShare := hhk.greased hx hy keyShare_field (by decide)
    (fun hb _ hw hw' => parseKeyShare_alike hb hw hw') ⟨.nil, rfl⟩
  pointFormats :=
    hhk.plain hx hy pointFormats_field rfl (by decide) (by decide) (by decide) (by decide)
  signatureAlgorithms :=
    hhk.plain hx hy signatureAlgorithms_field rfl (by decide) (by decide) (by decide) (by decide)
  alpn := hhk.plain hx hy alpn_field rfl (by decide) (by decide) (by decide) (by decide)
  quicTransportParams :=
    hhk.plain hx hy quicTransportParams_field rfl (by decide) (by decide) (by decide) (by decide)
  useSRTPProfiles :=
    hhk.plain hx hy useSRTPProfiles_field rfl (by decide) (by decide) (by decide) (by decide)

end Parsed

/-! ## Rendered fields -/

theorem keyShareParts_alike (lengths : List Nat) {gs hs : List UInt16}
    (h : List.Forall₂ Alike gs hs) :
    ∀ i, keyShareParts lengths gs i = keyShareParts lengths hs i := by
  induction h with
  | nil => exact fun _ => rfl
  | @cons g g' gs hs hg _ ih =>
    intro i
    rw [keyShareParts, keyShareParts, ← hg.isGREASE_eq, ih]
    by_cases hgrease : isGREASE g = true
    · rw [if_pos hgrease, if_pos hgrease]
    · rw [if_neg hgrease, if_neg hgrease, hg.eq_of_not (Bool.eq_false_iff.mpr hgrease)]

theorem HelloAlike.sameFingerprint {x y : Hello} (h : HelloAlike x y) : SameFingerprint x y where
  isDTLS := by rw [Hello.isDTLS, Hello.isDTLS, h.kind]
  helloVersion := h.helloVersion
  quicTransportParams := h.quicTransportParams
  serverName := h.serverName
  alpn := h.alpn
  signatureAlgorithms := h.signatureAlgorithms
  versions := withoutGREASE_alike h.supportedVersions
  suites := by rw [withoutGREASE_alike h.cipherSuites]
  extensions := by rw [withoutGREASE_alike h.extensionTypes]

section Digest

variable (sha256 : Bytes → Bytes) {x y : Hello}

/-- **No field shows the difference.** -/
theorem HelloAlike.render_eq (h : HelloAlike x y) {field : HelloField}
    (hfield : field ∈ helloFields sha256) : field.render x = field.render y := by
  have htypes := withoutGREASE_alike h.extensionTypes
  have hsuites := withoutGREASE_alike h.cipherSuites
  simp only [helloFields, mem_cons, not_mem_nil, or_false] at hfield
  rcases hfield with rfl | rfl | rfl | rfl | rfl | rfl | rfl | rfl | rfl | rfl | rfl | rfl | rfl |
    rfl | rfl | rfl | rfl
  · exact h.sameFingerprint.ja4_eq sha256
  · exact congrArg (fun v => Except.ok (prefixedHex v)) h.recordVersion
  · exact congrArg (fun v => Except.ok (prefixedHex v)) h.helloVersion
  · exact congrArg (fun n => Except.ok (Http1.decimal n)) h.sessionIDLen
  · exact congrArg (fun n => Except.ok (Http1.decimal n)) h.cipherSuites.length_eq
  · exact congrArg (fun vs => Except.ok (renderHex4 vs)) hsuites
  · have hcount : x.extensions.length = y.extensions.length := by
      have hlen := h.extensionTypes.length_eq
      rwa [Hello.extensionTypes, Hello.extensionTypes, length_map, length_map] at hlen
    exact congrArg (fun n => Except.ok (Http1.decimal n)) hcount
  · exact congrArg (fun vs => Except.ok (renderHex4 (ascending vs))) htypes
  · exact congrArg (fun vs => Except.ok (renderHex4 vs)) htypes
  · exact congrArg (fun vs => Except.ok (renderHex4 vs)) (withoutGREASE_alike h.supportedVersions)
  · exact congrArg (fun vs => Except.ok (renderHex4 vs)) (withoutGREASE_alike h.supportedGroups)
  · show renderKeyShare x = renderKeyShare y
    rw [renderKeyShare, renderKeyShare, keyShareParts_alike _ h.keyShare.1,
      show x.keyShareLengths = y.keyShareLengths from h.keyShare.2]
  · exact congrArg (fun vs => Except.ok (renderHex4 vs)) h.signatureAlgorithms
  · show Except.ok (renderALPN x) = Except.ok (renderALPN y)
    rw [renderALPN, renderALPN, h.alpn]
  · exact congrArg (fun vs => Except.ok (renderHex2 vs)) h.pointFormats
  · exact congrArg (fun vs => Except.ok (renderHex2 vs)) h.compressionMethods
  · exact congrArg (fun vs => Except.ok (renderHex4 vs)) h.useSRTPProfiles

theorem keyShareParts_returns (lengths : List Nat) (groups : List UInt16) :
    ∀ i, i + groups.length ≤ lengths.length → Returns (keyShareParts lengths groups i) := by
  induction groups with
  | nil => exact fun _ _ => .ok _
  | cons group groups ih =>
    intro i hi
    rw [length_cons] at hi
    rw [keyShareParts]
    refine .ite (fun _ => ih (i + 1) (by omega)) fun _ => ?_
    rw [index_eq (by omega), ok_bind]
    exact (ih (i + 1) (by omega)).bind fun _ => .ok _

theorem render_returns {hello : Hello} (halpn : hello.alpn.head? ≠ some [])
    (hshares : hello.keyShareGroups.length = hello.keyShareLengths.length) {field : HelloField}
    (hfield : field ∈ helloFields sha256) : Returns (field.render hello) := by
  simp only [helloFields, mem_cons, not_mem_nil, or_false] at hfield
  rcases hfield with rfl | rfl | rfl | rfl | rfl | rfl | rfl | rfl | rfl | rfl | rfl | rfl | rfl |
    rfl | rfl | rfl | rfl
  case inl => exact (hello.ja4_returns sha256).mpr (.inr halpn)
  case inr.inr.inr.inr.inr.inr.inr.inr.inr.inr.inr.inl =>
    exact (keyShareParts_returns _ _ 0 (by omega)).bind fun _ => .ok _
  all_goals exact .ok _

theorem parseKeyShare_lengths {x : List UInt16 × List Nat} (h : parseKeyShare body = .ok x) :
    x.1.length = x.2.length := by
  obtain ⟨shares, -, hx⟩ := bind_eq_ok.mp h
  cases hx
  rw [length_map, length_map]

def SameFields (x y : Hello) : Prop :=
  ∀ field ∈ helloFields sha256, ∃ text, field.render x = .ok text ∧ field.render y = .ok text

theorem RecordAlike.sameFields {h k : HelloRecord} (hhk : RecordAlike h k)
    (hnames : h.NamesProtocols) (hx : parseHello h.encode = .ok x)
    (hy : parseHello k.encode = .ok y) : SameFields sha256 x y := by
  intro field hfield
  have hshares : x.keyShareGroups.length = x.keyShareLengths.length :=
    hhk.greased hx hy keyShare_field (by decide) (R := fun v _ => v.1.length = v.2.length)
      (fun _ _ hw _ => parseKeyShare_lengths hw) rfl
  obtain ⟨text, htext⟩ :=
    render_returns sha256 (HelloRecord.alpn_head hx hnames) hshares hfield
  exact ⟨text, htext, by rw [← (hhk.helloAlike hx hy).render_eq sha256 hfield, htext]⟩

/-! ## The diff -/

/-- A line that `report` writes. -/
inductive Line where
  | same (name text : Bytes)
  | differ (name left right : Bytes)
deriving DecidableEq, Repr

def Line.report (name left right : Bytes) : Line :=
  if left = right then .same name left else .differ name left right

def Line.isSame : Line → Bool
  | .same .. => true
  | .differ .. => false

/-- The texts that `orderVerdict` returns. -/
def Verdict.text : Verdict → Bytes
  | .unknown => ascii "unknown"
  | .shuffled => ascii "shuffled"
  | .stable => ascii "stable"

/-- The first loop of `diff`. -/
def diffFields (left right : List Hello) : List HelloField → Except RuntimeError (List Line)
  | [] => .ok []
  | field :: fields => do
      let x ← index id left 0
      let textX ← field.render x
      let y ← index id right 0
      let textY ← field.render y
      let lines ← diffFields left right fields
      .ok (Line.report field.name textX textY :: lines)

/-- The second loop of `diff`. -/
def diffStability (left right : List Hello) : List Line :=
  orderFields.map fun (name, key) => Line.report (name ++ ascii " stability")
    (orderVerdict left key).text (orderVerdict right key).text

def diff (left right : Group) : Except RuntimeError (List Line) := do
  let lines ← diffFields left.hellos right.hellos (helloFields sha256)
  .ok (lines ++ diffStability left.hellos right.hellos)

theorem Line.report_self (name text : Bytes) : (Line.report name text text).isSame = true := by
  rw [Line.report, if_pos rfl]
  rfl

theorem orderVerdict_congr {key : Hello → Bytes} {xs ys : List Hello}
    (h : List.Forall₂ (fun x y => key x = key y) xs ys) :
    orderVerdict xs key = orderVerdict ys key := by
  have hrun : ∀ values : List Bytes,
      xs.foldl (fun values hello =>
          if values.contains (key hello) then values else values ++ [key hello]) values =
        ys.foldl (fun values hello =>
          if values.contains (key hello) then values else values ++ [key hello]) values := by
    induction h with
    | nil => exact fun _ => rfl
    | cons hkey _ ih =>
      intro values
      rw [foldl_cons, foldl_cons, hkey]
      exact ih _
  rw [orderVerdict, orderVerdict, distinctValues, distinctValues, hrun, h.length_eq]

theorem diffFields_same (h : SameFields sha256 x y) (xs ys : List Hello) (fields : List HelloField)
    (hsub : fields ⊆ helloFields sha256) :
    ∃ lines, diffFields (x :: xs) (y :: ys) fields = .ok lines ∧
      ∀ line ∈ lines, line.isSame = true := by
  induction fields with
  | nil => exact ⟨[], rfl, by simp⟩
  | cons field fields ih =>
    obtain ⟨hfield, hrest⟩ := cons_subset.mp hsub
    obtain ⟨text, hx, hy⟩ := h field hfield
    obtain ⟨lines, hlines, hsame⟩ := ih hrest
    refine ⟨Line.report field.name text text :: lines, ?_, ?_⟩
    · rw [diffFields, index_eq (Nat.succ_pos _), ok_bind, getElem_cons_zero, hx, ok_bind,
        index_eq (Nat.succ_pos _), ok_bind, getElem_cons_zero, hy, ok_bind, hlines, ok_bind]
    · exact forall_mem_cons.mpr ⟨Line.report_self _ _, hsame⟩

theorem SameFields.orders (h : SameFields sha256 x y) :
    extensionOrder x = extensionOrder y ∧ cipherOrder x = cipherOrder y := by
  obtain ⟨text, hx, hy⟩ := h extensionOrderField (by simp [helloFields])
  obtain ⟨text', hx', hy'⟩ := h cipherOrderField (by simp [helloFields])
  exact ⟨Except.ok.inj (hx.trans hy.symm), Except.ok.inj (hx'.trans hy'.symm)⟩

theorem diffStability_same {xs ys : List Hello} (h : List.Forall₂ (SameFields sha256) xs ys) :
    ∀ line ∈ diffStability xs ys, line.isSame = true := by
  have hextensions := orderVerdict_congr (h.imp fun _ _ hxy => (hxy.orders sha256).1)
  have hciphers := orderVerdict_congr (h.imp fun _ _ hxy => (hxy.orders sha256).2)
  simp only [diffStability, orderFields, map_cons, map_nil, hextensions, hciphers,
    forall_mem_cons, Line.report_self, not_mem_nil, true_and]
  exact fun _ h => h.elim

theorem diff_same {left right : Group} (hne : left.hellos ≠ [])
    (h : List.Forall₂ (SameFields sha256) left.hellos right.hellos) :
    ∃ lines, diff sha256 left right = .ok lines ∧ ∀ line ∈ lines, line.isSame = true := by
  obtain ⟨transport, target, xs⟩ := left
  obtain ⟨transport', target', ys⟩ := right
  cases h with
  | nil => exact absurd rfl hne
  | @cons x y xs ys hxy hrest =>
    obtain ⟨lines, hlines, hsame⟩ := diffFields_same sha256 hxy xs ys _ (List.Subset.refl _)
    refine ⟨lines ++ diffStability (x :: xs) (y :: ys), by rw [diff, hlines, ok_bind], ?_⟩
    exact forall_mem_append.mpr ⟨hsame, diffStability_same sha256 (.cons hxy hrest)⟩

def Read (hs : List HelloRecord) (xs : List Hello) : Prop :=
  List.Forall₂ (fun h x => parseHello h.encode = .ok x) hs xs

theorem sameFields_of_alike {hs ks : List HelloRecord} (halike : List.Forall₂ RecordAlike hs ks)
    (hnames : ∀ h ∈ hs, h.NamesProtocols) :
    ∃ xs ys, Read hs xs ∧ Read ks ys ∧ List.Forall₂ (SameFields sha256) xs ys := by
  induction halike with
  | nil => exact ⟨[], [], .nil, .nil, .nil⟩
  | @cons h k hs ks hhk _ ih =>
    obtain ⟨hfirst, hrest⟩ := forall_mem_cons.mp hnames
    obtain ⟨xs, ys, hxs, hys, hsame⟩ := ih hrest
    obtain ⟨x, hx⟩ := h.parseHello_returns
    obtain ⟨y, hy⟩ := k.parseHello_returns
    exact ⟨x :: xs, y :: ys, .cons hx hxs, .cons hy hys,
      .cons (hhk.sameFields sha256 hfirst hx hy) hsame⟩

/-- **GREASE does not show.** Two captures whose ClientHello records differ, one by
one, only in the GREASE values are read to hellos with the same text in every
field, and the diff of them has no DIFF line. -/
theorem diff_ignores_grease {hs ks : List HelloRecord} (halike : List.Forall₂ RecordAlike hs ks)
    (hnames : ∀ h ∈ hs, h.NamesProtocols) :
    ∃ xs ys, Read hs xs ∧ Read ks ys ∧
      List.Forall₂ (fun x y => ∀ field ∈ helloFields sha256,
        ∃ text, field.render x = .ok text ∧ field.render y = .ok text) xs ys ∧
      ∀ transport target transport' target', hs ≠ [] →
        ∃ lines, diff sha256 ⟨transport, target, xs⟩ ⟨transport', target', ys⟩ = .ok lines ∧
          ∀ line ∈ lines, line.isSame = true := by
  obtain ⟨xs, ys, hxs, hys, hsame⟩ := sameFields_of_alike sha256 halike hnames
  refine ⟨xs, ys, hxs, hys, hsame, fun _ _ _ _ hne => diff_same sha256 ?_ hsame⟩
  rintro rfl
  cases hxs
  exact hne rfl

end Digest

/-! ### Two hellos of one browser -/

/-- The extensions of a browser that has drawn the GREASE value `g`. -/
def greasedExtensions (g : UInt16) : List RawExtension :=
  [⟨g, [], HelloRecord.empty_body_fits⟩,
    versionsExtension [g, 0x0304] (by decide : 2 * 2 < 256),
    ⟨extSupportedGroups, vec 2 (putUint16s [g, 0x001d]), by
      rw [length_vec, length_putUint16s]
      exact (by decide : 2 + 2 * 2 < 256 ^ 2)⟩,
    ⟨extKeyShare, vec 2 ([⟨g, [0], by decide⟩, ⟨0x001d, [7, 7], by decide⟩].flatMap
        KeyShareEntry.put), by
      simp only [length_vec, flatMap_cons, flatMap_nil, KeyShareEntry.put,
        length_append, length_putUint, length_cons, length_nil]
      decide⟩,
    HelloRecord.h2Extension]

theorem greasedExtensions_alike {g g' : UInt16} (h : Alike g g') :
    List.Forall₂ ExtensionAlike (greasedExtensions g) (greasedExtensions g') := by
  have hlist : ∀ v : UInt16, List.Forall₂ Alike [g, v] [g', v] :=
    fun v => .cons h (.cons (.inl rfl) .nil)
  have hshares : List.Forall₂ (fun s t : KeyShareEntry => Alike s.group t.group ∧ s.key = t.key)
      [⟨g, [0], by decide⟩, ⟨0x001d, [7, 7], by decide⟩]
      [⟨g', [0], by decide⟩, ⟨0x001d, [7, 7], by decide⟩] :=
    .cons ⟨h, rfl⟩ (.cons ⟨.inl rfl, rfl⟩ .nil)
  exact .cons ⟨h, .same _ _⟩ (.cons ⟨.inl rfl, .versions (hlist _)⟩
    (.cons ⟨.inl rfl, .groups (hlist _)⟩ (.cons ⟨.inl rfl, .keyShare hshares⟩
      (.cons ⟨.inl rfl, .same _ _⟩ .nil))))

def greasedHello (g : UInt16) (fits : (putExtensions (greasedExtensions g)).length < 256 ^ 2) :
    HelloRecord :=
  HelloRecord.browserHello [g, 0x1301] (greasedExtensions g) (by simp) fits

/-- The same client, with 0x0a0a and with 0x1a1a. -/
theorem diff_ignores_grease_two_hellos :
    ∃ xs ys, Read [greasedHello 0x0a0a (by decide)] xs ∧ Read [greasedHello 0x1a1a (by decide)] ys ∧
      List.Forall₂ (fun x y => ∀ field ∈ helloFields (fun _ => List.replicate 32 0),
        ∃ text, field.render x = .ok text ∧ field.render y = .ok text) xs ys ∧
      ∀ transport target transport' target', [greasedHello 0x0a0a (by decide)] ≠ [] →
        ∃ lines, diff (fun _ => List.replicate 32 0) ⟨transport, target, xs⟩
            ⟨transport', target', ys⟩ = .ok lines ∧
          ∀ line ∈ lines, line.isSame = true := by
  have halike : Alike 0x0a0a 0x1a1a := .inr ⟨by decide, by decide⟩
  refine diff_ignores_grease _ (.cons ⟨rfl, ⟨rfl, rfl, rfl, rfl, rfl, rfl⟩, rfl,
    .cons halike (.cons (.inl rfl) .nil), greasedExtensions_alike halike⟩ .nil) ?_
  intro h hh e he htype names hnames
  obtain rfl := mem_singleton.mp hh
  have hlast : e = HelloRecord.h2Extension := by
    simp only [HelloRecord.exts, greasedHello, HelloRecord.browserHello, Option.getD_some,
      greasedExtensions, mem_cons, not_mem_nil, or_false] at he
    rcases he with rfl | rfl | rfl | rfl | rfl
    case inr.inr.inr.inr => rfl
    all_goals exact absurd htype (by decide)
  subst hlast
  have hh2 : parseALPN HelloRecord.h2Extension.body = .ok [[104, 50]] := by decide +kernel
  rw [hh2] at hnames
  cases hnames
  decide

end HeadlessClient.Wirediff
