import HeadlessClient.Base.Seeded
import HeadlessClient.DTLS.ClientHello
import Mathlib.Data.List.Flatten
import Mathlib.Data.List.Perm.Subperm

/-!
# DTLS — the Chrome hooks

`dtlsClientHelloHook` and `dtls13MimicHook` of the root package: the extensions
of a ClientHello are shuffled by a generator seeded from the client random and
wrapped in two GREASE extensions; mimicry first rewrites the key shares, the
signature algorithms, the SRTP profiles and the cipher suites.

Both hooks have one form (`hooked_eq`): a rewriting of the single extensions,
which is the identity without mimicry, followed by `disguise`. The rewriting is
IDEMPOTENT (`mimicValue_mimicValue`); `disguise` is not. Neither leaves the
canonical hellos (`canonical_hooked`).
-/

namespace HeadlessClient.DTLS

open Base Wire List

/-! ## Tables -/

/-- The flags of a `Profile` that the hooks read. -/
structure Profile where
  dtlsShuffle : Bool
  dtlsGREASE : Bool
  dtls13Mimic : Bool
deriving DecidableEq, Repr

def greaseValues : List UInt16 :=
  [0x0a0a, 0x1a1a, 0x2a2a, 0x3a3a, 0x4a4a, 0x5a5a, 0x6a6a, 0x7a7a,
   0x8a8a, 0x9a9a, 0xaaaa, 0xbaba, 0xcaca, 0xdada, 0xeaea, 0xfafa]

def greaseSecondExtensionOffset : UInt16 := 0x1010

def x25519MLKEM768Group : UInt16 := 0x11ec
def x25519Group : UInt16 := 0x001d

def chromeDTLS13CipherSuiteIDs : List UInt16 :=
  [4865, 4866, 4867, 49195, 49199, 52393, 52392, 49161, 49171, 49162, 49172, 156, 47, 53]

def chromeDTLS13SignatureAlgorithms : List UInt16 :=
  [0x0403, 0x0804, 0x0401, 0x0503, 0x0805, 0x0501, 0x0806, 0x0601, 0x0201]

/-- `SRTP_AES128_CM_HMAC_SHA1_80`, `SRTP_AEAD_AES_256_GCM`, `SRTP_AEAD_AES_128_GCM`. -/
def chromeSRTPProtectionProfiles : List UInt16 := [0x0001, 0x0008, 0x0007]

/-! ## The hooks -/

/-- `seedFromRandom`: the first 8 random bytes. -/
def seedFromRandom (random : Random) : Int64 :=
  (UInt64.ofNat (getUint (random.randomBytes.toList.take 8))).toInt64

/-- `rand.New(rand.NewSource(seedFromRandom(clientHello.Random)))`. -/
def newSource (random : Random) : Source := { seed := seedFromRandom random }

/-- `greaseExtension`; it behaves as a `Raw` with the same type and data. -/
def greaseExtension (value : UInt16) (data : Bytes) : Value := .raw value data

/-- The two values of `wrapInGREASE`. -/
def greasePair (g : Generator) (source : Source) : UInt16 × UInt16 :=
  let (i, source) := g.draw source greaseValues.length
  let (j, _) := g.draw source greaseValues.length
  let first := greaseValues.getD i 0
  let last := greaseValues.getD j 0
  (first, if last = first then last ^^^ greaseSecondExtensionOffset else last)

def wrapInGREASE (g : Generator) (extensions : List Value) (source : Source) : List Value :=
  let (first, last) := greasePair g source
  greaseExtension first [] :: extensions ++ [greaseExtension last [0]]

/-- The end of both hooks: `if p.dtlsShuffle { … }`, `if p.dtlsGREASE { … }`. -/
def Profile.disguise (p : Profile) (g : Generator) (extensions : List Value) (source : Source) :
    List Value :=
  let (extensions, source) :=
    if p.dtlsShuffle then g.shuffle source extensions else (extensions, source)
  if p.dtlsGREASE then wrapInGREASE g extensions source else extensions

def Profile.dtlsClientHelloHook (p : Profile) (g : Generator) : Hook := fun clientHello =>
  { clientHello with
    extensions := p.disguise g clientHello.extensions (newSource clientHello.random) }

/-- `orderByCanonical`: the items of the table in its order, the last of each
key counting, then all others in their own order. -/
def orderByCanonical {Item Key : Type} [DecidableEq Key] (items : List Item)
    (canonicalOrder : List Key) (keyOf : Item → Key) : List Item :=
  canonicalOrder.filterMap (fun key => items.reverse.find? (keyOf · = key)) ++
    items.filter (keyOf · ∉ canonicalOrder)

def reorderSRTPProfiles (current : List UInt16) : List UInt16 :=
  orderByCanonical current chromeSRTPProtectionProfiles id

/-- A group Chrome sends a key share for. -/
def browserGroup (group : UInt16) : Bool :=
  group = x25519MLKEM768Group ∨ group = x25519Group

/-- What `dtls13MimicHook` makes of one extension. -/
def mimicValue : Value → Value
  | .clientKeyShare shares => .clientKeyShare (shares.filter (browserGroup ·.group))
  | .signatureAlgorithms _ => .signatureAlgorithms chromeDTLS13SignatureAlgorithms
  | .srtpOffer profiles mki => .srtpOffer (reorderSRTPProfiles profiles) mki
  | value => value

/-- The in-place changes of `dtls13MimicHook`: `extensionsByType` holds the LAST
extension of each type, and only that one is changed. -/
def mimicLast : List Value → List Value
  | [] => []
  | value :: rest =>
    (if rest.any (·.extensionType = value.extensionType) then value else mimicValue value) ::
      mimicLast rest

def pskDHEKE : UInt8 := 1

/-- The extensions `dtls13MimicHook` shuffles. -/
def mimicExtensions (extensions : List Value) : List Value :=
  if extensions.any (·.extensionType = typePSKKeyExchangeModes) then mimicLast extensions
  else mimicLast extensions ++ [.pskKeyExchangeModes [pskDHEKE]]

def Profile.dtls13MimicHook (p : Profile) (g : Generator) : Hook := fun clientHello =>
  { clientHello with
    extensions := p.disguise g (mimicExtensions clientHello.extensions)
      (newSource clientHello.random)
    cipherSuiteIDs := chromeDTLS13CipherSuiteIDs }

/-- The ClientHello hook that `applyWebRTC` installs. -/
def Profile.clientHelloHook (p : Profile) (g : Generator) : Option Hook :=
  if p.dtls13Mimic then some (p.dtls13MimicHook g)
  else if p.dtlsShuffle ∨ p.dtlsGREASE then some (p.dtlsClientHelloHook g)
  else none

/-! ## The common form -/

/-- The rewriting before the disguise. -/
def Profile.rewrite (p : Profile) (extensions : List Value) : List Value :=
  if p.dtls13Mimic then mimicExtensions extensions else extensions

def Profile.suites (p : Profile) (suites : List UInt16) : List UInt16 :=
  if p.dtls13Mimic then chromeDTLS13CipherSuiteIDs else suites

/-- **Every hook rewrites the extensions and disguises the result.** -/
theorem hooked_eq (p : Profile) (g : Generator) (m : MessageClientHello) :
    hooked (p.clientHelloHook g) m =
      { m with
        extensions := p.disguise g (p.rewrite m.extensions) (newSource m.random)
        cipherSuiteIDs := p.suites m.cipherSuiteIDs } := by
  obtain ⟨shuffle, grease, mimic⟩ := p
  cases mimic with
  | true => rfl
  | false =>
    cases shuffle with
    | true => rfl
    | false =>
      cases grease with
      | true => rfl
      | false => rfl

variable {p : Profile} {profiles : List UInt16} {data : Bytes} {shares : List KeyShareEntry}
  {v : Value} {extensions : List Value} {g : Generator} {m : MessageClientHello}
  {cfg : HandshakeConfig}

theorem disguise_plain (hs : p.dtlsShuffle = false) (hg : p.dtlsGREASE = false) (g : Generator)
    (extensions : List Value) (source : Source) : p.disguise g extensions source = extensions := by
  simp [Profile.disguise, hs, hg]

theorem disguise_shuffle (hs : p.dtlsShuffle = true) (hg : p.dtlsGREASE = false) (g : Generator)
    (extensions : List Value) (source : Source) :
    p.disguise g extensions source =
      permute extensions (g.permutation source extensions.length) := by
  simp [Profile.disguise, hs, hg, Generator.shuffle]

/-- A disguised list is a rearrangement, with two GREASE extensions around it
when the flag is set. -/
theorem disguise_cases (p : Profile) (g : Generator) (extensions : List Value) (source : Source) :
    ∃ inner, inner.Perm extensions ∧
      ((p.dtlsGREASE = false ∧ p.disguise g extensions source = inner) ∨
        (p.dtlsGREASE = true ∧ ∃ s, p.disguise g extensions source = wrapInGREASE g inner s)) := by
  obtain ⟨shuffle, grease, mimic⟩ := p
  cases shuffle with
  | false =>
    refine ⟨extensions, .refl _, ?_⟩
    cases grease with
    | false => exact .inl ⟨rfl, rfl⟩
    | true => exact .inr ⟨rfl, source, rfl⟩
  | true =>
    refine ⟨_, permute_perm extensions (g.permutation source extensions.length), ?_⟩
    cases grease with
    | false => exact .inl ⟨rfl, rfl⟩
    | true => exact .inr ⟨rfl, _, rfl⟩

/-- The two values differ, also when both draws are the same. -/
theorem greasePair_spec (g : Generator) (source : Source) :
    (greasePair g source).1 ∈ greaseValues ∧ (greasePair g source).2 ∈ greaseValues ∧
      (greasePair g source).1 ≠ (greasePair g source).2 := by
  have htable : ∀ i < 16, ∀ j < 16,
      let second := if greaseValues.getD j 0 = greaseValues.getD i 0
        then greaseValues.getD j 0 ^^^ greaseSecondExtensionOffset
        else greaseValues.getD j 0
      greaseValues.getD i 0 ∈ greaseValues ∧ second ∈ greaseValues ∧
        greaseValues.getD i 0 ≠ second := by decide
  exact htable _ (g.intn_lt _ _ (by decide)) _ (g.intn_lt _ _ (by decide))

/-! ## Stability -/

/-- A GREASE type is in no registry, so its extension is stable. -/
theorem stable_grease {value : UInt16} (h : value ∈ greaseValues) (data : Bytes) :
    (greaseExtension value data).Stable := by
  have hunknown : ∀ v ∈ greaseValues, (extensionRegistry.lookup v).isNone = true :=
    all_eq_true.mp (by decide)
  have hlookup : extensionRegistry.lookup value = none :=
    Option.isNone_iff_eq_none.mp (hunknown value h)
  refine ⟨data, rfl, ?_⟩
  simp [decodeExtension, greaseExtension, Value.extensionType, hlookup]

theorem stable_srtpOffer {mki : Bytes} (h : SRTPOffer.marshalData profiles mki = .ok data) :
    (Value.srtpOffer profiles mki).Stable :=
  stable_of_marshal rfl rfl h (map_eq_ok.mpr ⟨(profiles, mki), SRTPOffer.marshal_iff.mp h, rfl⟩)

theorem stable_chromeSignatureAlgorithms :
    (Value.signatureAlgorithms chromeDTLS13SignatureAlgorithms).Stable := by
  have h : marshalUint16List chromeDTLS13SignatureAlgorithms =
      .ok (vec 2 (chromeDTLS13SignatureAlgorithms.flatMap putUint16)) :=
    marshalUint16List_eq_ok.mpr ⟨by decide, rfl⟩
  exact stable_of_marshal rfl rfl h
    (map_eq_ok.mpr ⟨_, (uint16List_marshal_iff _ _).mp h, rfl⟩)

theorem stable_pskModes : (Value.pskKeyExchangeModes [pskDHEKE]).Stable :=
  stable_of_marshal rfl rfl rfl rfl

theorem follows_keyShares {seen : List KeyShareEntry} :
    Follows KeyShareEntry.Good seen shares ↔
      (∀ e ∈ shares, e.keyExchange ≠ [] ∧ e.keyExchange.length ≤ 0xffff) ∧
        (shares.map (·.group)).Nodup ∧ ∀ e ∈ shares, ∀ s ∈ seen, s.group ≠ e.group := by
  induction shares generalizing seen with
  | nil => simp [Follows]
  | cons e rest ih =>
    simp only [Follows, ih, KeyShareEntry.Good, forall_mem_cons, map_cons,
      nodup_cons, mem_map, mem_append, mem_singleton, not_exists, not_and]
    constructor
    · rintro ⟨⟨hnew, hkey⟩, hkeys, hnodup, hseen⟩
      exact ⟨⟨hkey, hkeys⟩, ⟨fun x hx heq => hseen x hx e (.inr rfl) heq.symm, hnodup⟩, hnew,
        fun x hx s hs => hseen x hx s (.inl hs)⟩
    · rintro ⟨⟨hkey, hkeys⟩, ⟨hhead, hnodup⟩, hnew, hseen⟩
      refine ⟨⟨hnew, hkey⟩, hkeys, hnodup, fun x hx s hs => ?_⟩
      rcases hs with hs | rfl
      · exact hseen x hx s hs
      · exact fun heq => hhead x hx heq.symm

theorem marshal_filter_shares (h : ClientKeyShare.marshalData shares = .ok data)
    (keep : KeyShareEntry → Bool) :
    ∃ out, ClientKeyShare.marshalData (shares.filter keep) = .ok out := by
  obtain ⟨body, hbody, -⟩ := bind_eq_ok.mp h
  obtain ⟨hgood, rfl, hroom⟩ := ClientKeyShare.marshalKeyShareEntries_eq_ok.mp hbody
  obtain ⟨hkeys, hnodup, -⟩ := follows_keyShares.mp hgood
  have hsub : (shares.filter keep).Sublist shares := filter_sublist
  have hkept : Follows KeyShareEntry.Good [] (shares.filter keep) :=
    follows_keyShares.mpr ⟨fun e he => hkeys e (mem_of_mem_filter he),
      (hsub.map _).nodup hnodup, by simp⟩
  have hshort := (hsub.flatMap KeyShareEntry.put).length_le
  have hwrite := ClientKeyShare.marshalKeyShareEntries_eq_ok.mpr ⟨hkept, rfl, by omega⟩
  exact ⟨_, by rw [ClientKeyShare.marshalData, hwrite, ok_bind]⟩

/-! ## Reordering SRTP profiles -/

theorem filterMap_find?_last (items order : List UInt16) :
    order.filterMap (fun key => items.reverse.find? (id · = key)) =
      order.filter (· ∈ items) := by
  rw [← filterMap_eq_filter]
  refine filterMap_congr fun key _ => ?_
  cases hfind : items.reverse.find? (id · = key) with
  | none =>
    have hkey : key ∉ items := by
      intro hin
      simpa using find?_eq_none.mp hfind key (mem_reverse.mpr hin)
    exact (if_neg (by simpa using hkey)).symm
  | some x =>
    have hin := mem_reverse.mp (mem_of_find?_eq_some hfind)
    obtain rfl : x = key := by simpa using find?_some hfind
    exact (if_pos (by simpa using hin)).symm

theorem reorderSRTPProfiles_eq (profiles : List UInt16) :
    reorderSRTPProfiles profiles = chromeSRTPProtectionProfiles.filter (· ∈ profiles) ++
      profiles.filter (· ∉ chromeSRTPProtectionProfiles) := by
  rw [reorderSRTPProfiles, orderByCanonical, filterMap_find?_last]
  rfl

theorem mem_reorderSRTPProfiles {x : UInt16} : x ∈ reorderSRTPProfiles profiles ↔ x ∈ profiles := by
  rw [reorderSRTPProfiles_eq]
  simp only [mem_append, mem_filter, decide_eq_true_eq]
  by_cases hx : x ∈ chromeSRTPProtectionProfiles
  · simp [hx]
  · simp [hx]

/-- **Reordering twice is reordering once.** -/
theorem reorderSRTPProfiles_idem (profiles : List UInt16) :
    reorderSRTPProfiles (reorderSRTPProfiles profiles) = reorderSRTPProfiles profiles := by
  have hfirst : chromeSRTPProtectionProfiles.filter (· ∈ reorderSRTPProfiles profiles) =
      chromeSRTPProtectionProfiles.filter (· ∈ profiles) := by
    simp only [mem_reorderSRTPProfiles]
  have hrest : (reorderSRTPProfiles profiles).filter (· ∉ chromeSRTPProtectionProfiles) =
      profiles.filter (· ∉ chromeSRTPProtectionProfiles) := by
    have hnone : (chromeSRTPProtectionProfiles.filter (· ∈ profiles)).filter
        (· ∉ chromeSRTPProtectionProfiles) = [] := by
      rw [filter_eq_nil_iff]
      intro x hx
      simpa using (mem_filter.mp hx).1
    rw [reorderSRTPProfiles_eq, filter_append, hnone, filter_filter, nil_append]
    simp only [Bool.and_self]
  rw [reorderSRTPProfiles_eq (reorderSRTPProfiles profiles), hfirst, hrest,
    ← reorderSRTPProfiles_eq]

theorem length_reorderSRTPProfiles_le (profiles : List UInt16) :
    (reorderSRTPProfiles profiles).length ≤ profiles.length := by
  have hfirst : (chromeSRTPProtectionProfiles.filter (· ∈ profiles)).length ≤
      (profiles.filter (· ∈ chromeSRTPProtectionProfiles)).length := by
    refine (subperm_of_subset (List.Nodup.filter _ (by decide)) fun x hx => ?_).length_le
    simp only [mem_filter, decide_eq_true_eq] at hx ⊢
    exact hx.symm
  have hsplit := length_eq_length_filter_add (l := profiles) (· ∈ chromeSRTPProtectionProfiles)
  rw [reorderSRTPProfiles_eq, length_append]
  simp only [decide_not] at hsplit ⊢
  omega

theorem marshal_reorder {mki : Bytes} (h : SRTPOffer.marshalData profiles mki = .ok data) :
    ∃ out, SRTPOffer.marshalData (reorderSRTPProfiles profiles) mki = .ok out := by
  simp only [SRTPOffer.marshalData, fail_guard, not_or, Nat.not_lt] at h ⊢
  obtain ⟨⟨hne, hle⟩, hmki, -⟩ := h
  have hlen := length_reorderSRTPProfiles_le profiles
  obtain ⟨x, hx⟩ := exists_mem_of_length_pos (Nat.pos_of_ne_zero hne)
  have hpos := length_pos_of_mem (mem_reorderSRTPProfiles.mpr hx)
  exact ⟨_, ⟨by omega, by omega⟩, hmki, rfl⟩

/-! ## Mimicry -/

@[simp] theorem extensionType_mimicValue (v : Value) :
    (mimicValue v).extensionType = v.extensionType := by
  cases v <;> rfl

/-- **Mimicking a value twice is mimicking it once.** -/
theorem mimicValue_mimicValue (v : Value) : mimicValue (mimicValue v) = mimicValue v := by
  cases v with
  | clientKeyShare shares => simp [mimicValue]
  | srtpOffer profiles mki => simp [mimicValue, reorderSRTPProfiles_idem]
  | _ => rfl

theorem Value.Stable.mimic (h : v.Stable) : (mimicValue v).Stable := by
  obtain ⟨data, hdata, -⟩ := id h
  cases v with
  | clientKeyShare shares =>
    obtain ⟨out, hout⟩ := marshal_filter_shares hdata (browserGroup ·.group)
    exact stable_clientKeyShare hout
  | signatureAlgorithms schemes => exact stable_chromeSignatureAlgorithms
  | srtpOffer profiles mki =>
    obtain ⟨out, hout⟩ := marshal_reorder hdata
    exact stable_srtpOffer hout
  | _ => exact h

/-- With distinct types the hook changes every extension. -/
theorem mimicLast_eq_map (hnodup : (extensions.map (·.extensionType)).Nodup) :
    mimicLast extensions = extensions.map mimicValue := by
  induction extensions with
  | nil => rfl
  | cons v rest ih =>
    rw [map_cons, nodup_cons] at hnodup
    have hlast : ¬rest.any (·.extensionType = v.extensionType) := by
      intro hany
      obtain ⟨w, hw, htype⟩ := any_eq_true.mp hany
      exact hnodup.1 (mem_map.mpr ⟨w, hw, by simpa using htype⟩)
    rw [mimicLast, if_neg hlast, ih hnodup.2, map_cons]

theorem map_extensionType_mimicLast (extensions : List Value) :
    (mimicLast extensions).map (·.extensionType) = extensions.map (·.extensionType) := by
  induction extensions with
  | nil => rfl
  | cons v rest ih =>
    rw [mimicLast, map_cons, map_cons, ih]
    split
    · rfl
    · rw [extensionType_mimicValue]

theorem mem_mimicLast (hv : v ∈ mimicLast extensions) :
    ∃ w ∈ extensions, v = w ∨ v = mimicValue w := by
  induction extensions with
  | nil => simp [mimicLast] at hv
  | cons w rest ih =>
    rcases mem_cons.mp hv with rfl | hin
    · refine ⟨w, by simp, ?_⟩
      split
      · exact .inl rfl
      · exact .inr rfl
    · obtain ⟨u, hu, heq⟩ := ih hin
      exact ⟨u, mem_cons_of_mem _ hu, heq⟩

theorem mem_mimicExtensions (hv : v ∈ mimicExtensions extensions) :
    (∃ w ∈ extensions, v = w ∨ v = mimicValue w) ∨ v = .pskKeyExchangeModes [pskDHEKE] := by
  unfold mimicExtensions at hv
  split at hv
  · exact .inl (mem_mimicLast hv)
  · rcases mem_append.mp hv with hin | hin
    · exact .inl (mem_mimicLast hin)
    · exact .inr (mem_singleton.mp hin)

theorem stable_rewrite (p : Profile) (hstable : ∀ v ∈ extensions, v.Stable) :
    ∀ v ∈ p.rewrite extensions, v.Stable := by
  intro v hv
  unfold Profile.rewrite at hv
  split at hv
  · rcases mem_mimicExtensions hv with ⟨w, hw, rfl | rfl⟩ | rfl
    · exact hstable v hw
    · exact (hstable w hw).mimic
    · exact stable_pskModes
  · exact hstable v hv

theorem mem_disguise {source : Source} (hv : v ∈ p.disguise g extensions source) :
    v ∈ extensions ∨ ∃ value ∈ greaseValues, ∃ data, v = greaseExtension value data := by
  obtain ⟨inner, hperm, ⟨-, hlist⟩ | ⟨-, s, hlist⟩⟩ := disguise_cases p g extensions source
  · rw [hlist] at hv
    exact .inl (hperm.mem_iff.mp hv)
  · rw [hlist] at hv
    obtain ⟨hfirst, hlast, -⟩ := greasePair_spec g s
    simp only [wrapInGREASE, cons_append, mem_cons, mem_append, mem_nil_iff, or_false] at hv
    rcases hv with rfl | hin | rfl
    · exact .inr ⟨_, hfirst, _, rfl⟩
    · exact .inl (hperm.mem_iff.mp hin)
    · exact .inr ⟨_, hlast, _, rfl⟩

theorem types_rewrite (p : Profile) (extensions : List Value) :
    (extensions.map (·.extensionType)).Sublist ((p.rewrite extensions).map (·.extensionType)) := by
  unfold Profile.rewrite mimicExtensions
  split
  · split
    · rw [map_extensionType_mimicLast]
    · rw [map_append, map_extensionType_mimicLast]
      exact sublist_append_left _ _
  · exact List.Sublist.refl _

/-- **GREASE makes the list longer**, also when only some types are counted. -/
theorem length_filter_lt_of_grease (hp : p.dtlsGREASE = true) (g : Generator)
    (extensions : List Value) (source : Source) {q : UInt16 → Bool}
    (hq : ∀ value ∈ greaseValues, q value) :
    (extensions.filter (q ·.extensionType)).length <
      ((p.disguise g (p.rewrite extensions) source).filter (q ·.extensionType)).length := by
  have hcount : ∀ values : List Value, (values.filter (q ·.extensionType)).length =
      ((values.map (·.extensionType)).filter q).length := by
    intro values
    rw [filter_map, length_map]
    rfl
  have hkept : (extensions.filter (q ·.extensionType)).length ≤
      ((p.rewrite extensions).filter (q ·.extensionType)).length := by
    rw [hcount, hcount]
    exact ((types_rewrite p extensions).filter q).length_le
  obtain ⟨inner, hperm, ⟨hno, -⟩ | ⟨-, s, hlist⟩⟩ :=
    disguise_cases p g (p.rewrite extensions) source
  · rw [hp] at hno
    cases hno
  · have hfirst : q (greaseExtension (greasePair g s).1 []).extensionType :=
      hq _ (greasePair_spec g s).1
    have hwrap : wrapInGREASE g inner s = greaseExtension (greasePair g s).1 [] ::
        (inner ++ [greaseExtension (greasePair g s).2 [0]]) := rfl
    rw [hlist, hwrap, filter_cons, if_pos hfirst, length_cons, filter_append,
      length_append, (hperm.filter _).length_eq]
    omega

/-- **The hooks stay within the canonical hellos.** -/
theorem canonical_hooked (p : Profile) (g : Generator) (hm : m.Canonical) :
    (hooked (p.clientHelloHook g) m).Canonical := by
  rw [hooked_eq]
  refine { sessionID := hm.sessionID, cookie := hm.cookie, methods := hm.methods, null := hm.null,
           cipherSuiteIDs := ?_, stable := ?_ }
  · change (p.suites m.cipherSuiteIDs).length ≤ 0x7fff
    unfold Profile.suites
    split
    · decide
    · exact hm.cipherSuiteIDs
  · intro v hv
    rcases mem_disguise hv with hin | ⟨value, hvalue, data, rfl⟩
    · exact stable_rewrite p hm.stable v hin
    · exact stable_grease hvalue data

/-! ## Mimicked hellos -/

/-- A hello on which mimicry changes nothing but the order. -/
structure Mimicked (m : MessageClientHello) : Prop where
  values : ∀ v ∈ m.extensions, mimicValue v = v
  modes : ∃ v ∈ m.extensions, v.extensionType = typePSKKeyExchangeModes
  suites : m.cipherSuiteIDs = chromeDTLS13CipherSuiteIDs

theorem mimicExtensions_eq_self (hnodup : (extensions.map (·.extensionType)).Nodup)
    (hvalues : ∀ v ∈ extensions, mimicValue v = v)
    (hmodes : ∃ v ∈ extensions, v.extensionType = typePSKKeyExchangeModes) :
    mimicExtensions extensions = extensions := by
  have hany : extensions.any (·.extensionType = typePSKKeyExchangeModes) := by
    simpa using hmodes
  rw [mimicExtensions, if_pos hany, mimicLast_eq_map hnodup]
  exact (map_congr_left hvalues).trans (map_id _)

/-- **What the mimicry hook returns is mimicked.** -/
theorem mimicked_hooked (hp : p.dtls13Mimic = true) (g : Generator)
    (hnodup : (m.extensions.map (·.extensionType)).Nodup) :
    Mimicked (hooked (p.clientHelloHook g) m) := by
  rw [hooked_eq]
  obtain ⟨inner, hperm, hlist⟩ := disguise_cases p g (p.rewrite m.extensions) (newSource m.random)
  have hrewrite : p.rewrite m.extensions = mimicExtensions m.extensions := by
    rw [Profile.rewrite, if_pos hp]
  refine ⟨?_, ?_, by simp [Profile.suites, hp]⟩
  · intro v hv
    rcases mem_disguise hv with hin | ⟨value, -, data, rfl⟩
    · rw [hrewrite, mimicExtensions, mimicLast_eq_map hnodup] at hin
      have hcases : v ∈ m.extensions.map mimicValue ∨ v = .pskKeyExchangeModes [pskDHEKE] := by
        split at hin
        · exact .inl hin
        · simpa using hin
      rcases hcases with hmapped | rfl
      · obtain ⟨w, -, rfl⟩ := mem_map.mp hmapped
        exact mimicValue_mimicValue w
      · rfl
    · rfl
  · have hmodes :
        ∃ v ∈ mimicExtensions m.extensions, v.extensionType = typePSKKeyExchangeModes := by
      unfold mimicExtensions
      split
      · rename_i hany
        obtain ⟨v, hv, htype⟩ := any_eq_true.mp hany
        rw [mimicLast_eq_map hnodup]
        exact ⟨mimicValue v, mem_map_of_mem hv, by simpa using htype⟩
      · exact ⟨.pskKeyExchangeModes [pskDHEKE], by simp, rfl⟩
    obtain ⟨v, hv, htype⟩ := hmodes
    rw [← hrewrite] at hv
    refine ⟨v, ?_, htype⟩
    rcases hlist with ⟨-, hlist⟩ | ⟨-, s, hlist⟩
    · rw [hlist]
      exact hperm.mem_iff.mpr hv
    · rw [hlist]
      simp only [wrapInGREASE, cons_append, mem_cons, mem_append]
      exact .inr (.inl (hperm.mem_iff.mpr hv))

/-- On a mimicked hello every hook is the disguise alone. -/
theorem hooked_of_mimicked (hnodup : (m.extensions.map (·.extensionType)).Nodup)
    (h : p.dtls13Mimic → Mimicked m) :
    hooked (p.clientHelloHook g) m =
      { m with extensions := p.disguise g m.extensions (newSource m.random) } := by
  rw [hooked_eq]
  cases hp : p.dtls13Mimic with
  | false => simp [Profile.rewrite, Profile.suites, hp]
  | true =>
    have hm := h hp
    simp only [Profile.rewrite, Profile.suites, hp, if_true,
      mimicExtensions_eq_self hnodup hm.values hm.modes, ← hm.suites]

/-- The types a hook can send: those it got, `psk_key_exchange_modes` and GREASE. -/
theorem extensionType_hooked (hv : v ∈ (hooked (p.clientHelloHook g) m).extensions) :
    (∃ w ∈ m.extensions, v.extensionType = w.extensionType) ∨
      v.extensionType = typePSKKeyExchangeModes ∨ v.extensionType ∈ greaseValues := by
  rw [hooked_eq] at hv
  rcases mem_disguise hv with hin | ⟨value, hvalue, data, rfl⟩
  · unfold Profile.rewrite at hin
    split at hin
    · rcases mem_mimicExtensions hin with ⟨w, hw, rfl | rfl⟩ | rfl
      · exact .inl ⟨v, hw, rfl⟩
      · exact .inl ⟨w, hw, extensionType_mimicValue w⟩
      · exact .inr (.inl rfl)
    · exact .inl ⟨v, hin, rfl⟩
  · exact .inr (.inr hvalue)

def HandshakeConfig.hookedBy (cfg : HandshakeConfig) (p : Profile) (g : Generator) :
    HandshakeConfig :=
  { cfg with clientHelloMessageHook := p.clientHelloHook g }

/-- No hook offers RRC on its own. -/
theorem permitsRRC_hooked (h : cfg.PermitsRRC m.extensions) :
    cfg.PermitsRRC (hooked (p.clientHelloHook g) m).extensions := by
  rcases h with h | h
  · exact .inl h
  · refine .inr fun v hv htype => ?_
    rcases extensionType_hooked hv with ⟨w, hw, heq⟩ | hmodes | hgrease
    · exact h w hw (heq.symm.trans htype)
    · rw [htype] at hmodes
      exact absurd hmodes (by decide)
    · rw [htype] at hgrease
      exact absurd hgrease (by decide)

theorem cidsMatch_hooked (h : cfg.CIDsMatch m.extensions) :
    cfg.CIDsMatch (hooked (p.clientHelloHook g) m).extensions := by
  intro hset hgen cid hcid
  refine h hset hgen cid ?_
  rw [hooked_eq] at hcid
  rcases mem_disguise hcid with hin | ⟨value, -, data, heq⟩
  · unfold Profile.rewrite at hin
    split at hin
    · rcases mem_mimicExtensions hin with ⟨w, hw, rfl | heq⟩ | heq
      · exact hw
      · cases w <;> simp_all [mimicValue]
      · cases heq
    · exact hin
  · cases heq

/-- **A hello that was sent through the mimicry hook is mimicked.** -/
theorem mimicked_of_finalize (hp : p.dtls13Mimic = true) {base x : MessageClientHello}
    {s : ClientHelloSnapshot}
    (h : Flight.finalizeClientHello base (cfg.hookedBy p g) = .ok (x, s)) :
    Mimicked x := by
  obtain ⟨-, -, -, -, -, m, y, hm, hy, hx⟩ := Flight.finalizeClientHello_spec h
  obtain ⟨hcanon, hacc⟩ := canonical_of_validated hm
  have hsome : p.clientHelloHook g = some (p.dtls13MimicHook g) := by
    rw [Profile.clientHelloHook, if_pos hp]
  have hmimicked := mimicked_hooked hp g hacc.shape.nodup
  have hcanonical := canonical_hooked p g hcanon
  have hrun : runHook (p.clientHelloHook g) m = .ok y := hy
  rw [hsome] at hmimicked hcanonical hrun
  obtain ⟨-, rfl⟩ := (validatedClientHello_eq_ok hcanonical).mp hrun
  rcases hx with rfl | rfl
  · exact hmimicked
  · obtain ⟨v, hv, htype⟩ := hmimicked.modes
    refine ⟨fun w hw => hmimicked.values w (mem_of_mem_filter hw), ⟨v, ?_, htype⟩,
      hmimicked.suites⟩
    exact mem_filter.mpr ⟨hv, by rw [htype]; decide⟩

end HeadlessClient.DTLS
