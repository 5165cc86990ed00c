import HeadlessClient.DTLS.Hooks

/-!
# DTLS — the shape of a hooked ClientHello

What the peer sees of the two ClientHello hooks: WHICH extension types are sent and
where the GREASE values stand. A hello whose types are distinct and free of GREASE comes
out with the same types (`Framed`), in some order, between two GREASE values of its own;
mimicry may add `psk_key_exchange_modes`. Without mimicry the values are the caller's.

The generator is arbitrary, so this is about every permutation `Shuffle` may draw and
every pair of GREASE values, the colliding one included. What it answers depends on the
first eight random bytes only.
-/

namespace HeadlessClient.DTLS

open Base Wire List

/-! ## GREASE values -/

/-- RFC 8701: both bytes are `0x?a`, with one digit. -/
def IsGREASE (value : UInt16) : Prop := ∃ n < 16, value.toNat = 0x0a0a + 0x1010 * n

instance : DecidablePred IsGREASE := fun value =>
  inferInstanceAs (Decidable (∃ n < 16, value.toNat = 0x0a0a + 0x1010 * n))

theorem mem_greaseValues {value : UInt16} : value ∈ greaseValues ↔ IsGREASE value := by
  constructor
  · have htable : greaseValues.all (fun v => decide (IsGREASE v)) = true := by decide
    intro h
    exact of_decide_eq_true (all_eq_true.mp htable value h)
  · intro h
    obtain ⟨n, hn, hvalue⟩ := h
    have htable : ∀ n < 16, UInt16.ofNat (0x0a0a + 0x1010 * n) ∈ greaseValues := by decide
    have hin := htable n hn
    rw [← hvalue, UInt16.ofNat_toNat] at hin
    exact hin

/-! ## The frame -/

def typesOf (extensions : List Value) : List UInt16 := extensions.map (·.extensionType)

/-- The types `sent` are those of `types` in some order, and with GREASE there is one
value in front of them and another one behind. -/
structure Framed (grease : Bool) (types sent : List UInt16) : Prop where
  distinct : sent.Nodup
  plain : grease = false → sent.Perm types
  wrapped : grease = true → ∃ first inner last, sent = first :: (inner ++ [last]) ∧
    inner.Perm types ∧ IsGREASE first ∧ IsGREASE last ∧ first ≠ last ∧
      ∀ t ∈ inner, ¬IsGREASE t

def ownValue (value : Value) : Bool := ¬IsGREASE value.extensionType

theorem typesOf_wrapInGREASE (g : Generator) (extensions : List Value) (source : Source) :
    typesOf (wrapInGREASE g extensions source) =
      (greasePair g source).1 :: (typesOf extensions ++ [(greasePair g source).2]) := by
  simp [typesOf, wrapInGREASE, greaseExtension, Value.extensionType]

theorem nodup_framed {first last : UInt16} {inner : List UInt16} (hfirst : IsGREASE first)
    (hlast : IsGREASE last) (hne : first ≠ last) (hfree : ∀ t ∈ inner, ¬IsGREASE t)
    (hnodup : inner.Nodup) : (first :: (inner ++ [last])).Nodup := by
  rw [nodup_cons]
  constructor
  · intro hin
    rcases mem_append.mp hin with h | h
    · exact hfree first h hfirst
    · exact hne (mem_singleton.mp h)
  · rw [nodup_append]
    refine ⟨hnodup, nodup_singleton last, ?_⟩
    intro t ht u hu htu
    rw [mem_singleton.mp hu] at htu
    exact hfree t ht (htu ▸ hlast)

/-- **The disguise frames the types.** -/
theorem disguise_framed (p : Profile) (g : Generator) {extensions : List Value}
    (hnodup : (typesOf extensions).Nodup) (hfree : ∀ t ∈ typesOf extensions, ¬IsGREASE t)
    (source : Source) :
    Framed p.dtlsGREASE (typesOf extensions) (typesOf (p.disguise g extensions source)) := by
  obtain ⟨inner, hperm, ⟨hgrease, hlist⟩ | ⟨hgrease, s, hlist⟩⟩ :=
    disguise_cases p g extensions source
  · have htypes : (typesOf inner).Perm (typesOf extensions) := hperm.map _
    rw [hlist, hgrease]
    exact ⟨htypes.nodup_iff.mpr hnodup, fun _ => htypes, fun h => by cases h⟩
  · have htypes : (typesOf inner).Perm (typesOf extensions) := hperm.map _
    have hinner : ∀ t ∈ typesOf inner, ¬IsGREASE t := fun t ht => hfree t (htypes.mem_iff.mp ht)
    have hpair := greasePair_spec g s
    rw [mem_greaseValues, mem_greaseValues] at hpair
    rw [hlist, hgrease, typesOf_wrapInGREASE]
    constructor
    · exact nodup_framed hpair.1 hpair.2.1 hpair.2.2 hinner (htypes.nodup_iff.mpr hnodup)
    · intro h
      cases h
    · intro _
      exact ⟨_, _, _, rfl, htypes, hpair.1, hpair.2.1, hpair.2.2, hinner⟩

theorem filter_disguise (p : Profile) (g : Generator) {extensions : List Value}
    (hfree : ∀ t ∈ typesOf extensions, ¬IsGREASE t) (source : Source) :
    ((p.disguise g extensions source).filter ownValue).Perm extensions := by
  have hall : extensions.filter ownValue = extensions := by
    rw [filter_eq_self]
    intro v hv
    exact decide_eq_true (hfree _ (mem_map_of_mem hv))
  obtain ⟨inner, hperm, ⟨-, hlist⟩ | ⟨-, s, hlist⟩⟩ := disguise_cases p g extensions source
  · rw [hlist]
    exact (hperm.filter _).trans (.of_eq hall)
  · have hpair := greasePair_spec g s
    rw [mem_greaseValues, mem_greaseValues] at hpair
    have hfirst : ownValue (greaseExtension (greasePair g s).1 []) = false :=
      decide_eq_false (not_not_intro hpair.1)
    have hlast : ownValue (greaseExtension (greasePair g s).2 [0]) = false :=
      decide_eq_false (not_not_intro hpair.2.1)
    rw [hlist, wrapInGREASE]
    simp only [cons_append, filter_cons, filter_append, hfirst, hlast,
      Bool.false_eq_true, if_false, filter_nil, append_nil]
    exact (hperm.filter _).trans (.of_eq hall)

/-! ## Mimicry -/

/-- The types `dtls13MimicHook` sends, before the disguise. -/
def mimicTypes (types : List UInt16) : List UInt16 :=
  if typePSKKeyExchangeModes ∈ types then types else types ++ [typePSKKeyExchangeModes]

theorem typesOf_mimicExtensions (extensions : List Value) :
    typesOf (mimicExtensions extensions) = mimicTypes (typesOf extensions) := by
  have hany : extensions.any (·.extensionType = typePSKKeyExchangeModes) = true ↔
      typePSKKeyExchangeModes ∈ typesOf extensions := by
    simp [typesOf]
  by_cases hin : typePSKKeyExchangeModes ∈ typesOf extensions
  · rw [mimicExtensions, if_pos (hany.mpr hin), mimicTypes, if_pos hin]
    exact map_extensionType_mimicLast extensions
  · have hnone : ¬extensions.any (·.extensionType = typePSKKeyExchangeModes) = true :=
      fun h => hin (hany.mp h)
    rw [mimicExtensions, if_neg hnone, mimicTypes, if_neg hin]
    show (mimicLast extensions ++ [Value.pskKeyExchangeModes [pskDHEKE]]).map _ = _
    rw [map_append, map_extensionType_mimicLast]
    rfl

theorem nodup_mimicTypes {types : List UInt16} (h : types.Nodup) : (mimicTypes types).Nodup := by
  rw [mimicTypes]
  split
  · exact h
  · rename_i hnone
    rw [nodup_append]
    refine ⟨h, nodup_singleton _, ?_⟩
    intro t ht u hu htu
    rw [mem_singleton.mp hu] at htu
    exact hnone (htu ▸ ht)

theorem mimicTypes_free {types : List UInt16} (h : ∀ t ∈ types, ¬IsGREASE t) :
    ∀ t ∈ mimicTypes types, ¬IsGREASE t := by
  intro t ht
  rw [mimicTypes] at ht
  split at ht
  · exact h t ht
  · rcases mem_append.mp ht with hin | hin
    · exact h t hin
    · rw [mem_singleton.mp hin]
      decide

/-! ## The random -/

/-- Two randoms with the same first eight random bytes. -/
def SameSeedBytes (r r' : Random) : Prop :=
  r.randomBytes.toList.take 8 = r'.randomBytes.toList.take 8

theorem newSource_congr {r r' : Random} (h : SameSeedBytes r r') : newSource r = newSource r' := by
  have hbytes : r.randomBytes.toList.take 8 = r'.randomBytes.toList.take 8 := h
  simp only [newSource, seedFromRandom, hbytes]

/-! ## The hooks -/

/-- **The client hooks preserve the hello.** The types for each of the two, the values
and the other fields without mimicry, and what the result depends on. -/
theorem clientHello_hooks_preserve (p : Profile) (g : Generator) (m : MessageClientHello)
    (hnodup : (typesOf m.extensions).Nodup)
    (hfree : ∀ t ∈ typesOf m.extensions, t ≠ typePreSharedKey ∧ ¬IsGREASE t) :
    Framed p.dtlsGREASE (typesOf m.extensions) (typesOf (p.dtlsClientHelloHook g m).extensions) ∧
      Framed p.dtlsGREASE (mimicTypes (typesOf m.extensions))
        (typesOf (p.dtls13MimicHook g m).extensions) ∧
      (((p.dtlsClientHelloHook g m).extensions.filter ownValue).Perm m.extensions ∧
        { p.dtlsClientHelloHook g m with extensions := m.extensions } = m) ∧
      ∀ r, SameSeedBytes m.random r →
        p.dtlsClientHelloHook g { m with random := r } =
            { p.dtlsClientHelloHook g m with random := r } ∧
          p.dtls13MimicHook g { m with random := r } =
            { p.dtls13MimicHook g m with random := r } := by
  have hnone : ∀ t ∈ typesOf m.extensions, ¬IsGREASE t := fun t ht => (hfree t ht).2
  refine ⟨?_, ?_, ⟨?_, rfl⟩, ?_⟩
  · exact disguise_framed p g hnodup hnone _
  · show Framed _ _ (typesOf (p.disguise g (mimicExtensions m.extensions) (newSource m.random)))
    rw [← typesOf_mimicExtensions]
    apply disguise_framed
    · rw [typesOf_mimicExtensions]
      exact nodup_mimicTypes hnodup
    · rw [typesOf_mimicExtensions]
      exact mimicTypes_free hnone
  · exact filter_disguise p g hnone _
  · intro r hr
    have hsource := newSource_congr hr
    constructor
    · simp only [Profile.dtlsClientHelloHook, hsource]
    · simp only [Profile.dtls13MimicHook, hsource]

/-- A generator that reverses every list and draws the first GREASE value twice. -/
def colliding : Generator where
  permutation _ _ := Fin.revPerm
  intn _ _ := 0
  intn_lt _ _ h := h

def shortHello : MessageClientHello where
  version := 0xfefd
  random := ⟨0, .replicate 28 7⟩
  sessionID := []
  cookie := []
  cipherSuiteIDs := [0x1301]
  compressionMethods := [0]
  extensions := [.extendedMasterSecret, .renegotiationInfo 0]

theorem clientHello_hooks_preserve_colliding :
    Framed true (typesOf shortHello.extensions)
        (typesOf (Profile.dtlsClientHelloHook ⟨true, true, true⟩ colliding shortHello).extensions) ∧
      typesOf (Profile.dtls13MimicHook ⟨true, true, true⟩ colliding shortHello).extensions =
        [0x0a0a, typePSKKeyExchangeModes, typeRenegotiationInfo, typeExtendedMasterSecret,
          0x1a1a] := by
  have hfree : (typesOf shortHello.extensions).all
      (fun t => decide (t ≠ typePreSharedKey ∧ ¬IsGREASE t)) = true := by decide
  have hshape := clientHello_hooks_preserve ⟨true, true, true⟩ colliding shortHello (by decide)
    fun t ht => of_decide_eq_true (all_eq_true.mp hfree t ht)
  exact ⟨hshape.1, by decide⟩

end HeadlessClient.DTLS
