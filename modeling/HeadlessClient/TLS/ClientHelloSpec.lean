import HeadlessClient.Wire.Message

/-!
# TLS — the ClientHello of a profile

`clientHelloSpec` of `tls.go`: the extensions of a uTLS parrot, edited four times.
For the Chrome parrots the signature algorithms are extended and two extensions are
APPENDED; with a list of protocols the ALPN extension is rewritten and the
application settings are dropped; and a connection that can be resumed gets a
`pre_shared_key` extension if there is none.

RFC 8446 wants `pre_shared_key` to be the last extension. Each edit but one keeps it
there (`OnlyLast.filterMap`); the two appended extensions go BEHIND it.
-/

namespace HeadlessClient.TLS

open Base Wire List

/-! ## Extensions -/

/-- `utls.TLSExtension`: the types that `tls.go` looks at or makes, and all others. The
identities and binders of a `pre_shared_key`, and the contents of the others, are of
any type. -/
inductive Extension (Content : Type) where
  | signatureAlgorithms (supported : List UInt16)
  | alpn (protocols : List Bytes)
  | applicationSettings (protocols : List Bytes)
  | applicationSettingsNew (protocols : List Bytes)
  | generic (id : UInt16) (data : Bytes)
  /-- `UtlsPreSharedKeyExtension`; there is nothing in a new one. -/
  | utlsPreSharedKey (content : Option Content)
  | fakePreSharedKey (content : Content)
  | other (content : Content)
deriving DecidableEq, Repr

variable {Content : Type}

/-- The type assertion `extension.(utls.PreSharedKeyExtension)`. -/
def Extension.isPreSharedKey : Extension Content → Bool
  | .utlsPreSharedKey _ | .fakePreSharedKey _ => true
  | _ => false

/-- `utls.ClientHelloSpec`: its extensions, and the fields that nothing here reads. -/
structure ClientHelloSpec (Content : Type) where
  cipherSuites : List UInt16
  extensions : List (Extension Content)

/-- The fields of `utls.ClientHelloID`. -/
structure HelloID where
  client : Bytes
  version : Bytes
deriving DecidableEq, Repr

/-- `utls.HelloChrome_133` and `utls.HelloChrome_Auto`: they have one `Client`. -/
def helloChrome133 : HelloID := ⟨ascii "Chrome", ascii "133"⟩

def helloChromeAuto : HelloID := helloChrome133

/-- The field of `Profile` that is read here. -/
structure Profile where
  clientHelloID : HelloID

/-- `Profile.ClientHelloID`. -/
def Profile.ClientHelloID (p : Profile) : HelloID :=
  if p.clientHelloID.client = [] then helloChromeAuto else p.clientHelloID

/-! ## The edits -/

def chromePostQuantumSignatureAlgorithms : List UInt16 := [0x0904, 0x0905, 0x0906]

/-- One round of the loop of `applyChromeSignatureAlgorithms`. -/
def mergeSignatureAlgorithms : Extension Content → Extension Content
  | .signatureAlgorithms supported =>
    .signatureAlgorithms (chromePostQuantumSignatureAlgorithms ++
      supported.filter fun algorithm => !chromePostQuantumSignatureAlgorithms.contains algorithm)
  | extension => extension

def applyChromeSignatureAlgorithms (extensions : List (Extension Content)) :
    List (Extension Content) := extensions.map mergeSignatureAlgorithms

/-- `mustHex`, for the constants below: pairs of hexadecimal digits. -/
def mustHex : Bytes → Bytes
  | high :: low :: rest =>
    UInt8.ofNat ((digit high).getD 0 * 16 + (digit low).getD 0) :: mustHex rest
  | _ => []

def chromeCA34Extension : Extension Content :=
  .generic 0xca34 (mustHex (ascii (
    "00b808839a648c9b2d01080582df1302130582df13020608839a648c9b2d010908839a648c9b2d010704d679" ++
    "090b04d67909050582df1302120582df13020f08839a648c9b2d010c0582df13021404d679090708839a648c" ++
    "9b2d010a08839a648c9b2d010b0582df13020e0582df13020104d679090104d679090408839a648c9b2d010d" ++
    "04d679090808839a648c9b2d011204d679090f04d67909060582df13020d04d679090a04d679090d04d67909" ++
    "0c08839a648c9b2d0113")))

def chrome12E0Extension : Extension Content := .generic 0x12e0 [0, 0]

/-- One round of the loop over the extensions when the protocols are given. -/
def overrideALPN (alpnOverride : List Bytes) : Extension Content → Option (Extension Content)
  | .alpn _ => some (.alpn alpnOverride)
  | .applicationSettings _ => none
  | .applicationSettingsNew _ => none
  | extension => some extension

def appendPreSharedKeyExtension (extensions : List (Extension Content)) :
    List (Extension Content) :=
  if extensions.any Extension.isPreSharedKey then extensions
  else extensions ++ [.utlsPreSharedKey none]

/-- `clientHelloSpec`; `utlsIdToSpec` is the function of uTLS, and an absent
`alpnOverride` is nil. -/
def Profile.clientHelloSpec {Error : Type} (p : Profile)
    (utlsIdToSpec : HelloID → Except Error (ClientHelloSpec Content))
    (alpnOverride : Option (List Bytes)) (resumable : Bool) :
    Except Error (ClientHelloSpec Content) := do
  let spec ← utlsIdToSpec p.ClientHelloID
  let extensions := spec.extensions
  let extensions :=
    if p.ClientHelloID.client = helloChromeAuto.client then
      applyChromeSignatureAlgorithms extensions
    else extensions
  let extensions :=
    if p.ClientHelloID.client = helloChrome133.client then
      extensions ++ [chromeCA34Extension] ++ [chrome12E0Extension]
    else extensions
  let extensions :=
    match alpnOverride with
    | some protocols => extensions.filterMap (overrideALPN protocols)
    | none => extensions
  let extensions := if resumable then appendPreSharedKeyExtension extensions else extensions
  .ok { spec with extensions := extensions }

/-! ## One element, and in the last place -/

section OnlyLast

variable {α β : Type}

/-- There is at most one such element, and if there is one, it is the last. -/
structure OnlyLast (q : α → Bool) (l : List α) : Prop where
  unique : l.countP q ≤ 1
  last : ∀ e ∈ l, q e = true → ∃ e', l.getLast? = some e' ∧ q e' = true

variable {q : α → Bool} {l : List α}

theorem OnlyLast.of_none (h : ∀ e ∈ l, q e = false) : OnlyLast q l := by
  constructor
  · have hcount : l.countP q = 0 := by
      rw [countP_eq_zero]
      intro e he
      simp [h e he]
    omega
  · intro e he hq
    rw [h e he] at hq
    cases hq

theorem onlyLast_append_singleton {x : α} :
    OnlyLast q (l ++ [x]) ↔ ∀ e ∈ l, q e = false := by
  constructor
  · intro h e he
    apply Bool.eq_false_iff.mpr
    intro hq
    -- the last element is one too, and that makes two
    obtain ⟨e', hlast, hq'⟩ := h.last e (mem_append_left _ he) hq
    rw [getLast?_concat] at hlast
    cases hlast
    have hpos : 0 < l.countP q := countP_pos_iff.mpr ⟨e, he, hq⟩
    have hunique := h.unique
    rw [countP_append, countP_singleton, if_pos hq'] at hunique
    omega
  · intro h
    have hcount : l.countP q = 0 := by
      rw [countP_eq_zero]
      intro e he
      simp [h e he]
    constructor
    · rw [countP_append, hcount, countP_singleton]
      split <;> omega
    · intro e he hq
      rcases mem_append.mp he with hin | hin
      · rw [h e hin] at hq
        cases hq
      · rw [mem_singleton.mp hin] at hq
        exact ⟨x, getLast?_concat, hq⟩

/-- **An edit that neither makes such elements nor drops them.** -/
theorem OnlyLast.filterMap {q' : β → Bool} {f : α → Option β}
    (hf : ∀ a b, f a = some b → q' b = q a) (h : OnlyLast q l) : OnlyLast q' (l.filterMap f) := by
  have hnone : ∀ init : List α, (∀ e ∈ init, q e = false) →
      ∀ e ∈ init.filterMap f, q' e = false := by
    intro init hinit e he
    obtain ⟨a, ha, hfa⟩ := mem_filterMap.mp he
    rw [hf a e hfa]
    exact hinit a ha
  rcases eq_nil_or_concat l with rfl | ⟨init, x, rfl⟩
  · exact .of_none fun e he => by cases he
  · rw [concat_eq_append] at h ⊢
    have hinit := onlyLast_append_singleton.mp h
    rw [filterMap_append]
    cases hfx : f x with
    | none =>
      simp only [filterMap_cons, hfx, filterMap_nil, append_nil]
      exact .of_none (hnone init hinit)
    | some y =>
      simp only [filterMap_cons, hfx, filterMap_nil]
      exact onlyLast_append_singleton.mpr (hnone init hinit)

theorem not_onlyLast_append {x e : α} (he : e ∈ l) (hq : q e = true) : ¬OnlyLast q (l ++ [x]) := by
  intro h
  rw [onlyLast_append_singleton.mp h e he] at hq
  cases hq

end OnlyLast

/-! ## The place of `pre_shared_key` -/

theorem isPreSharedKey_merge (e : Extension Content) :
    (mergeSignatureAlgorithms e).isPreSharedKey = e.isPreSharedKey := by
  cases e <;> rfl

theorem isPreSharedKey_override {protocols : List Bytes} {e e' : Extension Content}
    (h : overrideALPN protocols e = some e') : e'.isPreSharedKey = e.isPreSharedKey := by
  cases e <;> cases h <;> rfl

theorem override_of_isPreSharedKey (protocols : List Bytes) {e : Extension Content}
    (h : e.isPreSharedKey = true) : overrideALPN protocols e = some e := by
  cases e <;> first | rfl | cases h

def Profile.isChrome (p : Profile) : Bool := p.ClientHelloID.client = helloChrome133.client

/-- The extensions before the last two edits. -/
def Profile.parroted (p : Profile) (extensions : List (Extension Content)) :
    List (Extension Content) :=
  if p.isChrome then
    applyChromeSignatureAlgorithms extensions ++ [chromeCA34Extension] ++ [chrome12E0Extension]
  else extensions

def withProtocols (alpnOverride : Option (List Bytes)) (extensions : List (Extension Content)) :
    List (Extension Content) :=
  match alpnOverride with
  | some protocols => extensions.filterMap (overrideALPN protocols)
  | none => extensions

def withSession (resumable : Bool) (extensions : List (Extension Content)) :
    List (Extension Content) :=
  if resumable then appendPreSharedKeyExtension extensions else extensions

theorem clientHelloSpec_ok {Error : Type} {p : Profile}
    {utlsIdToSpec : HelloID → Except Error (ClientHelloSpec Content)}
    {spec : ClientHelloSpec Content} (h : utlsIdToSpec p.ClientHelloID = .ok spec)
    (alpnOverride : Option (List Bytes)) (resumable : Bool) :
    p.clientHelloSpec utlsIdToSpec alpnOverride resumable =
      .ok { spec with
        extensions := withSession resumable
          (withProtocols alpnOverride (p.parroted spec.extensions)) } := by
  rw [Profile.clientHelloSpec, h]
  by_cases hchrome : p.ClientHelloID.client = helloChrome133.client
  · have hauto : p.ClientHelloID.client = helloChromeAuto.client := hchrome
    have hdecide : p.isChrome = true := decide_eq_true hchrome
    simp only [Profile.parroted, hdecide, if_true, if_pos hauto, if_pos hchrome]
    rfl
  · have hauto : ¬p.ClientHelloID.client = helloChromeAuto.client := hchrome
    have hdecide : p.isChrome = false := decide_eq_false hchrome
    simp only [Profile.parroted, hdecide, Bool.false_eq_true, if_false, if_neg hauto,
      if_neg hchrome]
    rfl

section Edits

variable {extensions : List (Extension Content)}

theorem OnlyLast.withProtocols (alpnOverride : Option (List Bytes))
    (h : OnlyLast Extension.isPreSharedKey extensions) :
    OnlyLast Extension.isPreSharedKey (withProtocols alpnOverride extensions) := by
  cases alpnOverride with
  | none => exact h
  | some protocols => exact h.filterMap fun _ _ => isPreSharedKey_override

theorem OnlyLast.withSession (resumable : Bool) (h : OnlyLast Extension.isPreSharedKey extensions) :
    OnlyLast Extension.isPreSharedKey (withSession resumable extensions) := by
  cases resumable with
  | false => exact h
  | true =>
    show OnlyLast Extension.isPreSharedKey (appendPreSharedKeyExtension extensions)
    rw [appendPreSharedKeyExtension]
    split_ifs with hany
    · exact h
    · apply onlyLast_append_singleton.mpr
      intro e he
      exact Bool.eq_false_iff.mpr fun hpsk => hany (any_eq_true.mpr ⟨e, he, hpsk⟩)

/-- Without a `pre_shared_key` in the parrot the two appended extensions do no harm. -/
theorem onlyLast_parroted {p : Profile} (h : OnlyLast Extension.isPreSharedKey extensions)
    (hfree : ¬(p.isChrome = true ∧ ∃ e ∈ extensions, e.isPreSharedKey = true)) :
    OnlyLast Extension.isPreSharedKey (p.parroted extensions) := by
  rw [Profile.parroted]
  split_ifs with hchrome
  · apply OnlyLast.of_none
    intro e he
    simp only [applyChromeSignatureAlgorithms, mem_append, mem_map, mem_singleton] at he
    rcases he with (⟨e', he', rfl⟩ | rfl) | rfl
    · rw [isPreSharedKey_merge]
      exact Bool.eq_false_iff.mpr fun hpsk => hfree ⟨hchrome, e', he', hpsk⟩
    · rfl
    · rfl
  · exact h

/-- With one, it is followed by two others, whatever is edited afterwards. -/
theorem not_onlyLast_chrome {p : Profile} (hchrome : p.isChrome = true) {e : Extension Content}
    (he : e ∈ extensions) (hpsk : e.isPreSharedKey = true) (alpnOverride : Option (List Bytes))
    (resumable : Bool) :
    ¬OnlyLast Extension.isPreSharedKey
      (TLS.withSession resumable (TLS.withProtocols alpnOverride (p.parroted extensions))) := by
  have hmerged : mergeSignatureAlgorithms e ∈ applyChromeSignatureAlgorithms extensions :=
    mem_map_of_mem he
  have hmerged' : (mergeSignatureAlgorithms e).isPreSharedKey = true := by
    rw [isPreSharedKey_merge]
    exact hpsk
  -- the list in front of the last extension still has it
  have hfront : ∃ front : List (Extension Content),
      TLS.withProtocols alpnOverride (p.parroted extensions) = front ++ [chrome12E0Extension] ∧
        mergeSignatureAlgorithms e ∈ front := by
    rw [Profile.parroted, if_pos hchrome]
    cases alpnOverride with
    | none => exact ⟨_, rfl, mem_append_left _ hmerged⟩
    | some protocols =>
      refine ⟨(applyChromeSignatureAlgorithms extensions ++ [chromeCA34Extension]).filterMap
        (overrideALPN protocols), ?_, ?_⟩
      · show List.filterMap _ _ = _
        rw [filterMap_append]
        rfl
      · apply mem_filterMap.mpr
        exact ⟨_, mem_append_left _ hmerged, override_of_isPreSharedKey protocols hmerged'⟩
  obtain ⟨front, hlist, hmem⟩ := hfront
  rw [hlist]
  have hany : (front ++ [chrome12E0Extension]).any Extension.isPreSharedKey = true :=
    any_eq_true.mpr ⟨_, mem_append_left _ hmem, hmerged'⟩
  cases resumable with
  | false => exact not_onlyLast_append hmem hmerged'
  | true =>
    show ¬OnlyLast _ (appendPreSharedKeyExtension _)
    rw [appendPreSharedKeyExtension, if_pos hany]
    exact not_onlyLast_append hmem hmerged'

end Edits

/-- **`pre_shared_key` stays the last extension iff it is not in a Chrome parrot.** For
every base list that has it in the last place, if at all, every list of protocols and
both values of the flag. -/
theorem clientHelloSpec_psk_last_iff {Error : Type} (p : Profile)
    (utlsIdToSpec : HelloID → Except Error (ClientHelloSpec Content))
    (spec : ClientHelloSpec Content) (hspec : utlsIdToSpec p.ClientHelloID = .ok spec)
    (hbase : OnlyLast Extension.isPreSharedKey spec.extensions)
    (alpnOverride : Option (List Bytes)) (resumable : Bool) :
    ∃ returned, p.clientHelloSpec utlsIdToSpec alpnOverride resumable = .ok returned ∧
      (OnlyLast Extension.isPreSharedKey returned.extensions ↔
        ¬(p.isChrome = true ∧ ∃ e ∈ spec.extensions, e.isPreSharedKey = true)) := by
  refine ⟨_, clientHelloSpec_ok hspec alpnOverride resumable, ?_, ?_⟩
  · intro h hpsk
    obtain ⟨hchrome, e, he, hpsk⟩ := hpsk
    exact not_onlyLast_chrome hchrome he hpsk alpnOverride resumable h
  · intro hfree
    exact ((onlyLast_parroted hbase hfree).withProtocols alpnOverride).withSession resumable

def resumingParrot : ClientHelloSpec Unit where
  cipherSuites := [0x1301]
  extensions := [.signatureAlgorithms [0x0403], .alpn [ascii "h2"]] ++ [.fakePreSharedKey ()]

theorem resumingParrot_psk_last : OnlyLast Extension.isPreSharedKey resumingParrot.extensions :=
  onlyLast_append_singleton.mpr (by decide)

/-- `UTLSIdToSpec` where every parrot is that one. -/
def resumingParrots (_ : HelloID) : Except Unit (ClientHelloSpec Unit) := .ok resumingParrot

theorem clientHelloSpec_psk_last_firefox :
    ∃ returned, Profile.clientHelloSpec ⟨⟨ascii "Firefox", ascii "120"⟩⟩ resumingParrots none true =
        .ok returned ∧ OnlyLast Extension.isPreSharedKey returned.extensions ∧
      ∃ e ∈ returned.extensions, e.isPreSharedKey = true := by
  obtain ⟨returned, hreturned, hiff⟩ := clientHelloSpec_psk_last_iff
    ⟨⟨ascii "Firefox", ascii "120"⟩⟩ resumingParrots resumingParrot rfl resumingParrot_psk_last
    none true
  refine ⟨returned, hreturned, hiff.mpr fun h => absurd h.1 (by decide), ?_⟩
  cases hreturned
  exact ⟨.fakePreSharedKey (), by decide, rfl⟩

/-- **The parrot with a `pre_shared_key`, sent as Chrome.** Two extensions come behind it. -/
theorem clientHelloSpec_psk_buried :
    ¬∀ (p : Profile) (utlsIdToSpec : HelloID → Except Unit (ClientHelloSpec Unit))
      (spec : ClientHelloSpec Unit), utlsIdToSpec p.ClientHelloID = .ok spec →
      OnlyLast Extension.isPreSharedKey spec.extensions →
      ∀ (alpnOverride : Option (List Bytes)) (resumable : Bool) (returned : ClientHelloSpec Unit),
        p.clientHelloSpec utlsIdToSpec alpnOverride resumable = .ok returned →
          OnlyLast Extension.isPreSharedKey returned.extensions := by
  intro h
  have hchrome : Profile.isChrome ⟨helloChrome133⟩ = true := by decide
  have hpsk : Extension.fakePreSharedKey () ∈ resumingParrot.extensions := by decide
  have hparrot :
      resumingParrots (Profile.ClientHelloID ⟨helloChrome133⟩) = .ok resumingParrot := rfl
  have hlast := h _ _ _ hparrot resumingParrot_psk_last none false _
    (clientHelloSpec_ok hparrot none false)
  exact not_onlyLast_chrome hchrome hpsk rfl none false hlast

end HeadlessClient.TLS
