import HeadlessClient.QuicTLS.Extensions

/-!
# QuicTLS — the spec of a configuration

`quicClientHelloSpec` of `quicprofile.go`: the spec that `QUICConfig` makes once and
all connections of the configuration are made from. It has pointers to package
variables and to the caller's list of protocols; whatever the order of its
extensions, all of them are VALID: of a kind that can be copied, and without
dangling pointers (`quicClientHelloSpec_valid`).
-/

namespace HeadlessClient.QuicTLS

open Base List

/-! ## The spec -/

inductive QUICTransport where
  | webTransport | http3
deriving DecidableEq, Repr

def x25519 : UInt16 := 29
def curveP256 : UInt16 := 23
def curveP384 : UInt16 := 24
def x25519MLKEM768 : UInt16 := 0x11ec

/-- `chromeQUICSupportedGroups`; `modern` says that the measured version of the browser
has the hybrid group by default. -/
def chromeQUICSupportedGroups (modern : Bool) (transport : QUICTransport) : List UInt16 :=
  let groups := [x25519, curveP256, curveP384]
  if modern || transport == .http3 then x25519MLKEM768 :: groups else groups

def chromeQUICKeyShares (groups : List UInt16) : List (UInt16 × Slice) :=
  (groups.filter fun group => group == x25519MLKEM768 || group == x25519).map fun group =>
    (group, none)

/-- An entry of a list of extensions: a new object, without or with a block of its
own, or a pointer to an object that there is already. -/
inductive Entry where
  | object (e : Extension)
  | withBlock (b : Block) (e : Slice → Extension)
  | pointer (p : Nat)

def newObjects (h : Heap) : List Entry → Heap × List Nat
  | [] => (h, [])
  | .object e :: rest =>
    let next := newObjects (newObject h e).1 rest
    (next.1, (newObject h e).2 :: next.2)
  | .withBlock b e :: rest =>
    let next := newObjects (newWithBlock h b e).1 rest
    (next.1, (newWithBlock h b e).2 :: next.2)
  | .pointer p :: rest =>
    let next := newObjects h rest
    (next.1, p :: next.2)

/-- The package variables that every spec points to. -/
structure Globals where
  boringSSLDefaultSignatureAlgorithms : Slice
  chromeQUICCA34Extension : Nat
  chromeQUIC12E0Extension : Nat

/-- The extensions that `quicClientHelloSpec` makes before it shuffles them. -/
def quicExtensions (globals : Globals) (modern : Bool) (transport : QUICTransport) (alpn : Slice) :
    List Entry :=
  let groups := chromeQUICSupportedGroups modern transport
  [.withBlock (.words [2]) (.words .compressCert), .object (.sni []),
    .withBlock (.words [0x0304]) (.words .supportedVersions),
    .withBlock (.bytes [1]) (.bytes .pskKeyExchangeModes),
    .object (.generic quicTransportParametersExtensionID none),
    .object (.words .signatureAlgorithms globals.boringSSLDefaultSignatureAlgorithms),
    .object (.strings .applicationSettingsNew alpn),
    .withBlock (.shares (chromeQUICKeyShares groups)) .keyShare,
    .withBlock (.words groups) (.words .supportedCurves), .object (.strings .alpn alpn)] ++
  (if transport = .http3 then
    [.object (.greaseECH none), .pointer globals.chromeQUICCA34Extension,
      .pointer globals.chromeQUIC12E0Extension]
  else [])

/-- `quicClientHelloSpec`: the extensions in the order of `ShuffleChromeTLSExtensions`,
and the `pre_shared_key` extension. -/
def quicClientHelloSpec (globals : Globals) (modern : Bool) (transport : QUICTransport)
    (alpn : Slice) (shuffle : List Nat → List Nat) (h : Heap) : Heap × ClientHelloSpec :=
  let made := newObjects h (quicExtensions globals modern transport alpn)
  let psk := newObject made.1 (.preSharedKey none)
  (psk.1,
    { tlsVersMin := 0x0304
      tlsVersMax := 0x0304
      getSessionID := none
      cipherSuites := [0x1301, 0x1302, 0x1303]
      compressionMethods := [0]
      extensions := shuffle made.2 ++ [psk.2] })

/-! ## Its extensions -/

/-- An entry that makes a valid extension. -/
def Entry.Fine (h : Heap) : Entry → Prop
  | .object e => e.Emitted ∧ ∀ a ∈ reach (blockAt h) e, a < h.length
  | .withBlock b e => (∀ s, (e s).Emitted ∧ (e s).slices = [s]) ∧ ∀ s ∈ b.slices, s = none
  | .pointer p => Valid h p

variable {h : Heap} {e : Extension}

theorem Entry.Fine.append {entry : Entry} (hfine : entry.Fine h) (cells : List Cell) :
    entry.Fine (h ++ cells) := by
  cases entry with
  | object e =>
    refine ⟨hfine.1, ?_⟩
    have hsame : ∀ a ∈ reach (blockAt h) e, blockAt (h ++ cells) a = blockAt h a := by
      intro a ha
      exact blockAt_congr (getElem?_append_left (hfine.2 a ha))
    intro a ha
    rw [reach_congr hsame] at ha
    rw [length_append]
    exact Nat.lt_of_lt_of_le (hfine.2 a ha) (Nat.le_add_right _ _)
  | withBlock b e => exact hfine
  | pointer p => exact Valid.append hfine cells

theorem newObject_valid (hfine : (Entry.object e).Fine h) :
    Valid (newObject h e).1 (newObject h e).2 := by
  have hat : extensionAt (newObject h e).1 h.length = e := by
    simp [newObject, extensionAt]
  have hfine' := hfine.append [.extension e]
  constructor
  · show (extensionAt (newObject h e).1 h.length).Emitted
    rw [hat]
    exact hfine.1
  · intro a ha
    have hlength : h.length < (newObject h e).1.length := by
      simp [newObject]
    rw [show (newObject h e).2 = h.length from rfl, footprint, hat] at ha
    rcases mem_cons.mp ha with rfl | ha
    · exact hlength
    · exact hfine'.2 a ha

theorem newWithBlock_valid {b : Block} {e : Slice → Extension}
    (hfine : (Entry.withBlock b e).Fine h) :
    Valid (newWithBlock h b e).1 (newWithBlock h b e).2 := by
  constructor
  · have hat : extensionAt (newWithBlock h b e).1 (newWithBlock h b e).2 = e (some h.length) := by
      simp [newWithBlock, extensionAt]
    rw [hat]
    exact (hfine.1 _).1
  · intro a ha
    have hfootprint := footprint_newWithBlock (h := h) hfine.2 fun s => (hfine.1 s).2
    have hlength : (newWithBlock h b e).1.length = h.length + 2 := by
      simp [newWithBlock]
    rw [hfootprint] at ha
    simp only [mem_cons, not_mem_nil, or_false] at ha
    omega

theorem newObjects_appends (entries : List Entry) (h : Heap) :
    ∃ cells, (newObjects h entries).1 = h ++ cells := by
  induction entries generalizing h with
  | nil => exact ⟨[], (append_nil h).symm⟩
  | cons entry entries ih =>
    cases entry with
    | object e =>
      obtain ⟨cells, hcells⟩ := ih (newObject h e).1
      exact ⟨[.extension e] ++ cells, by rw [newObjects, hcells, newObject, append_assoc]⟩
    | withBlock b e =>
      obtain ⟨cells, hcells⟩ := ih (newWithBlock h b e).1
      refine ⟨[.block b, .extension (e (some h.length))] ++ cells, ?_⟩
      rw [newObjects, hcells, newWithBlock, append_assoc]
    | pointer p => exact ih h

theorem newObjects_valid (entries : List Entry) (h : Heap)
    (hfine : ∀ entry ∈ entries, entry.Fine h) :
    ∀ p ∈ (newObjects h entries).2, Valid (newObjects h entries).1 p := by
  induction entries generalizing h with
  | nil =>
    intro p hp
    cases hp
  | cons entry entries ih =>
    have hentry := hfine entry mem_cons_self
    have hentries : ∀ e ∈ entries, e.Fine h := fun e he => hfine e (mem_cons_of_mem _ he)
    intro p hp
    cases entry with
    | object e =>
      rcases mem_cons.mp hp with rfl | hp
      · obtain ⟨cells, hcells⟩ := newObjects_appends entries (newObject h e).1
        rw [newObjects, hcells]
        exact (newObject_valid hentry).append cells
      · exact ih _ (fun e' he' => (hentries e' he').append _) p hp
    | withBlock b e =>
      rcases mem_cons.mp hp with rfl | hp
      · obtain ⟨cells, hcells⟩ := newObjects_appends entries (newWithBlock h b e).1
        rw [newObjects, hcells]
        exact (newWithBlock_valid hentry).append cells
      · exact ih _ (fun e' he' => (hentries e' he').append _) p hp
    | pointer q =>
      rcases mem_cons.mp hp with rfl | hp
      · obtain ⟨cells, hcells⟩ := newObjects_appends entries h
        rw [newObjects, hcells]
        exact Valid.append hentry cells
      · exact ih h hentries p hp

/-- A slice of strings or numbers that the caller has. -/
def Slice.Plain (h : Heap) (s : Slice) : Prop :=
  ∀ p, s = some p → p < h.length ∧ ∀ b, blockAt h p = some b → b.slices = []

theorem reach_plain {s : Slice} (hs : Slice.Plain h s) (he : e.slices = [s]) :
    ∀ a ∈ reach (blockAt h) e, a < h.length := by
  intro a ha
  cases s with
  | none => simp [reach, he] at ha
  | some p =>
    obtain ⟨hp, hnested⟩ := hs p rfl
    have hreach : reach (blockAt h) e = [p] := by
      cases hb : blockAt h p with
      | none => simp [reach, he, hb]
      | some b => simp [reach, he, hb, hnested b hb]
    rw [hreach, mem_singleton] at ha
    rw [ha]
    exact hp

theorem fine_words (h : Heap) {kind : WordList} (hkind : kind ≠ .signatureAlgorithmsCert)
    (list : List UInt16) : (Entry.withBlock (.words list) (.words kind)).Fine h := by
  refine ⟨fun s => ⟨hkind, rfl⟩, ?_⟩
  simp [Block.slices]

theorem fine_shares (h : Heap) (groups : List UInt16) :
    (Entry.withBlock (.shares (chromeQUICKeyShares groups)) .keyShare).Fine h := by
  refine ⟨fun s => ⟨trivial, rfl⟩, ?_⟩
  intro s hs
  obtain ⟨share, hshare, rfl⟩ := mem_map.mp hs
  obtain ⟨_, _, rfl⟩ := mem_map.mp hshare
  rfl

theorem fine_bare (h : Heap) (hemitted : e.Emitted) (he : reach (blockAt h) e = []) :
    (Entry.object e).Fine h := by
  refine ⟨hemitted, ?_⟩
  rw [he]
  simp

/-- What a spec is made with, besides the objects it makes. -/
structure Surroundings (h : Heap) (globals : Globals) (alpn : Slice) : Prop where
  algorithms : Slice.Plain h globals.boringSSLDefaultSignatureAlgorithms
  alpn : Slice.Plain h alpn
  ca34 : Valid h globals.chromeQUICCA34Extension
  e12e0 : Valid h globals.chromeQUIC12E0Extension

theorem quicExtensions_fine {globals : Globals} {alpn : Slice} (hmem : Surroundings h globals alpn)
    (modern : Bool) (transport : QUICTransport) :
    ∀ entry ∈ quicExtensions globals modern transport alpn, entry.Fine h := by
  intro entry hentry
  rcases mem_append.mp hentry with hbase | hrest
  · simp only [mem_cons, not_mem_nil, or_false] at hbase
    rcases hbase with rfl | rfl | rfl | rfl | rfl | rfl | rfl | rfl | rfl | rfl
    · exact fine_words h (by decide) _
    · exact fine_bare h trivial rfl
    · exact fine_words h (by decide) _
    · exact ⟨fun s => ⟨rfl, rfl⟩, by simp [Block.slices]⟩
    · exact fine_bare h trivial rfl
    · exact ⟨by simp [Extension.Emitted], reach_plain hmem.algorithms rfl⟩
    · exact ⟨by simp [Extension.Emitted], reach_plain hmem.alpn rfl⟩
    · exact fine_shares h _
    · exact fine_words h (by decide) _
    · exact ⟨by simp [Extension.Emitted], reach_plain hmem.alpn rfl⟩
  · cases transport with
    | webTransport => simp at hrest
    | http3 =>
      simp only [if_true, mem_cons, not_mem_nil, or_false] at hrest
      rcases hrest with rfl | rfl | rfl
      · exact fine_bare h trivial rfl
      · exact hmem.ca34
      · exact hmem.e12e0

/-- **The spec of a configuration is valid**, in whatever order its extensions are. -/
theorem quicClientHelloSpec_valid {globals : Globals} {alpn : Slice}
    (hmem : Surroundings h globals alpn) (modern : Bool) (transport : QUICTransport)
    {shuffle : List Nat → List Nat} (hshuffle : ∀ l, (shuffle l).Perm l) :
    ∀ p ∈ (quicClientHelloSpec globals modern transport alpn shuffle h).2.extensions,
      Valid (quicClientHelloSpec globals modern transport alpn shuffle h).1 p := by
  intro p hp
  rcases mem_append.mp hp with hp | hp
  · have hmade := (hshuffle _).mem_iff.mp hp
    exact (newObjects_valid _ h (quicExtensions_fine hmem modern transport) p hmade).append _
  · rw [mem_singleton.mp hp]
    exact newObject_valid (fine_bare _ trivial rfl)

end HeadlessClient.QuicTLS
