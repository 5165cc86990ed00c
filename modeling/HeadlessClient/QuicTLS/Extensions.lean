import HeadlessClient.Base.Bytes
import HeadlessClient.Base.Footprint
import Mathlib.Data.List.Basic

/-!
# QuicTLS — ClientHello specs in memory

The extensions of a uTLS `ClientHelloSpec` are OBJECTS: a spec is a list of
pointers, an object holds slices, and a slice is a pointer to a block. Copying a
spec therefore has to copy objects and blocks, or two specs share them.

This module has the memory, what an extension contains (`content`) and reaches
(`footprint`), and the functions of `crypto_setup.go` on a spec:
`copyExtension`, `setSNIServerName` and the write of `SetTransportParameters`.
-/

namespace HeadlessClient.QuicTLS

open Base List

/-! ## Memory -/

/-- `nil`, or a block. Every slice here is a whole block. -/
abbrev Slice := Option Nat

/-- The extensions that are a list of 16-bit numbers. -/
inductive WordList where
  | supportedCurves | supportedVersions | signatureAlgorithms | signatureAlgorithmsCert
  | compressCert
deriving DecidableEq, Repr

/-- The extensions that are a list of bytes. -/
inductive ByteList where
  | supportedPoints | pskKeyExchangeModes | cookie
deriving DecidableEq, Repr

/-- The extensions that are a list of strings. -/
inductive StringList where
  | alpn | applicationSettings | applicationSettingsNew
deriving DecidableEq, Repr

/-- The extensions without fields. -/
inductive Bare where
  | statusRequest | statusRequestV2 | sct | extendedMasterSecret
deriving DecidableEq, Repr

/-- What uTLS puts into a `pre_shared_key` extension for a session. -/
structure Psk where
  identities : List Bytes
  binders : List Bytes
deriving DecidableEq, Repr

/-- The extension objects of uTLS that `copyExtension` tells apart. -/
inductive Extension where
  | keyShare (keyShares : Slice)
  | sni (serverName : Bytes)
  | words (kind : WordList) (list : Slice)
  | bytes (kind : ByteList) (list : Slice)
  | strings (kind : StringList) (list : Slice)
  | quicTransportParameters (parameters : Bytes)
  | grease (value : UInt16) (body : Slice)
  /-- `getPaddingLen` is a function; only its identity matters. -/
  | padding (getPaddingLen : Nat) (willPad : Bool) (paddingLen : Nat)
  | bare (kind : Bare)
  | renegotiationInfo (renegotiation : Nat)
  /-- Its random content is made when it is first written, and then kept. -/
  | greaseECH (state : Option Bytes)
  | generic (id : UInt16) (data : Slice)
  | fakeRecordSizeLimit (limit : UInt16)
  | preSharedKey (state : Option Psk)
  | fakePreSharedKey (identities binders : Slice)
  | other
deriving DecidableEq, Repr

/-- The arrays behind slices. A key share is a group and its data. -/
inductive Block where
  | words (list : List UInt16)
  | bytes (data : Bytes)
  | strings (list : List Bytes)
  | shares (list : List (UInt16 × Slice))
  | identities (list : List (Slice × Nat))
  | lists (list : List Slice)
deriving DecidableEq, Repr

inductive Cell where
  | extension (e : Extension)
  | block (b : Block)
deriving DecidableEq, Repr

abbrev Heap := List Cell

/-- `utls.ClientHelloSpec`. Its two lists are values here: nothing is written to a spec
but through the pointers to its extensions, and a copy has the same. -/
structure ClientHelloSpec where
  tlsVersMin : UInt16
  tlsVersMax : UInt16
  /-- A function; only its identity matters. -/
  getSessionID : Option Nat
  cipherSuites : List UInt16
  compressionMethods : Bytes
  extensions : List Nat
deriving DecidableEq, Repr

def extensionAt (h : Heap) (p : Nat) : Extension :=
  match h[p]? with
  | some (.extension e) => e
  | _ => .other

def blockAt (h : Heap) (p : Nat) : Option Block :=
  match h[p]? with
  | some (.block b) => some b
  | _ => none

/-! ## What an extension contains and reaches -/

/-- An extension with the content of its slices. -/
inductive Content where
  | keyShare (shares : List (UInt16 × Bytes))
  | sni (serverName : Bytes)
  | words (kind : WordList) (list : List UInt16)
  | bytes (kind : ByteList) (list : Bytes)
  | strings (kind : StringList) (list : List Bytes)
  | quicTransportParameters (parameters : Bytes)
  | grease (value : UInt16) (body : Bytes)
  | padding (getPaddingLen : Nat) (willPad : Bool) (paddingLen : Nat)
  | bare (kind : Bare)
  | renegotiationInfo (renegotiation : Nat)
  | greaseECH (state : Option Bytes)
  | generic (id : UInt16) (data : Bytes)
  | fakeRecordSizeLimit (limit : UInt16)
  | preSharedKey (state : Option Psk)
  | fakePreSharedKey (identities : List (Bytes × Nat)) (binders : List Bytes)
  | other
deriving DecidableEq, Repr

section
variable (blocks : Nat → Option Block)

def readWords (s : Slice) : List UInt16 :=
  match s.bind blocks with
  | some (.words list) => list
  | _ => []

def readBytes (s : Slice) : Bytes :=
  match s.bind blocks with
  | some (.bytes data) => data
  | _ => []

def readStrings (s : Slice) : List Bytes :=
  match s.bind blocks with
  | some (.strings list) => list
  | _ => []

def readShares (s : Slice) : List (UInt16 × Slice) :=
  match s.bind blocks with
  | some (.shares list) => list
  | _ => []

def readIdentities (s : Slice) : List (Slice × Nat) :=
  match s.bind blocks with
  | some (.identities list) => list
  | _ => []

def readLists (s : Slice) : List Slice :=
  match s.bind blocks with
  | some (.lists list) => list
  | _ => []

def contentOf : Extension → Content
  | .keyShare keyShares =>
    .keyShare ((readShares blocks keyShares).map fun share => (share.1, readBytes blocks share.2))
  | .sni serverName => .sni serverName
  | .words kind list => .words kind (readWords blocks list)
  | .bytes kind list => .bytes kind (readBytes blocks list)
  | .strings kind list => .strings kind (readStrings blocks list)
  | .quicTransportParameters parameters => .quicTransportParameters parameters
  | .grease value body => .grease value (readBytes blocks body)
  | .padding getPaddingLen willPad paddingLen => .padding getPaddingLen willPad paddingLen
  | .bare kind => .bare kind
  | .renegotiationInfo renegotiation => .renegotiationInfo renegotiation
  | .greaseECH state => .greaseECH state
  | .generic id data => .generic id (readBytes blocks data)
  | .fakeRecordSizeLimit limit => .fakeRecordSizeLimit limit
  | .preSharedKey state => .preSharedKey state
  | .fakePreSharedKey identities binders =>
    .fakePreSharedKey
      ((readIdentities blocks identities).map fun identity =>
        (readBytes blocks identity.1, identity.2))
      ((readLists blocks binders).map (readBytes blocks))
  | .other => .other

def Extension.slices : Extension → List Slice
  | .keyShare list | .words _ list | .bytes _ list | .strings _ list | .grease _ list
  | .generic _ list => [list]
  | .fakePreSharedKey identities binders => [identities, binders]
  | _ => []

def Block.slices : Block → List Slice
  | .shares list => list.map Prod.snd
  | .identities list => list.map Prod.fst
  | .lists list => list
  | _ => []

/-- The blocks reached from an object: those of its slices, and those of their
slices. -/
def reach (e : Extension) : List Nat :=
  (e.slices.filterMap id).flatMap fun p =>
    p :: ((blocks p).elim [] Block.slices).filterMap id

end

def content (h : Heap) (p : Nat) : Content := contentOf (blockAt h) (extensionAt h p)

def footprint (h : Heap) (p : Nat) : List Nat := p :: reach (blockAt h) (extensionAt h p)

/-! ## Content and footprint depend on the footprint -/

section
variable {blocks blocks' : Nat → Option Block} {e : Extension}

theorem mem_reach {p : Nat} (hp : some p ∈ e.slices) : p ∈ reach blocks e := by
  apply mem_flatMap.mpr
  exact ⟨p, mem_filterMap.mpr ⟨some p, hp, rfl⟩, mem_cons_self⟩

theorem mem_reach_nested {p q : Nat} {b : Block} (hp : some p ∈ e.slices) (hb : blocks p = some b)
    (hq : some q ∈ b.slices) : q ∈ reach blocks e := by
  apply mem_flatMap.mpr
  refine ⟨p, mem_filterMap.mpr ⟨some p, hp, rfl⟩, ?_⟩
  apply mem_cons_of_mem
  rw [hb]
  exact mem_filterMap.mpr ⟨some q, hq, rfl⟩

theorem reach_congr (h : ∀ p ∈ reach blocks e, blocks' p = blocks p) :
    reach blocks' e = reach blocks e := by
  apply flatMap_congr
  intro p hp
  obtain ⟨s, hs, rfl⟩ := mem_filterMap.mp hp
  rw [h p (mem_reach hs)]

variable {s : Slice}

theorem slice_congr (h : ∀ p ∈ reach blocks e, blocks' p = blocks p) (hs : s ∈ e.slices) :
    s.bind blocks' = s.bind blocks := by
  cases s with
  | none => rfl
  | some p => exact h p (mem_reach hs)

theorem nested_congr (h : ∀ p ∈ reach blocks e, blocks' p = blocks p) {t : Slice} {b : Block}
    (hs : s ∈ e.slices) (hb : s.bind blocks = some b) (ht : t ∈ b.slices) :
    readBytes blocks' t = readBytes blocks t := by
  cases s with
  | none => cases hb
  | some p =>
    cases t with
    | none => rfl
    | some q =>
      have hq := h q (mem_reach_nested hs hb ht)
      simp only [readBytes, Option.bind_some, hq]

theorem mem_readShares {share : UInt16 × Slice} (h : share ∈ readShares blocks s) :
    ∃ b, s.bind blocks = some b ∧ share.2 ∈ b.slices := by
  rw [readShares] at h
  split at h
  · next list hb => exact ⟨_, hb, mem_map_of_mem h⟩
  · cases h

theorem mem_readIdentities {identity : Slice × Nat} (h : identity ∈ readIdentities blocks s) :
    ∃ b, s.bind blocks = some b ∧ identity.1 ∈ b.slices := by
  rw [readIdentities] at h
  split at h
  · next list hb => exact ⟨_, hb, mem_map_of_mem h⟩
  · cases h

theorem mem_readLists {t : Slice} (h : t ∈ readLists blocks s) :
    ∃ b, s.bind blocks = some b ∧ t ∈ b.slices := by
  rw [readLists] at h
  split at h
  · next list hb => exact ⟨_, hb, h⟩
  · cases h

theorem contentOf_congr (h : ∀ p ∈ reach blocks e, blocks' p = blocks p) :
    contentOf blocks' e = contentOf blocks e := by
  cases e with
  | keyShare keyShares =>
    have hmem : keyShares ∈ (Extension.keyShare keyShares).slices := mem_singleton.mpr rfl
    simp only [contentOf, readShares, slice_congr h hmem, Content.keyShare.injEq]
    apply map_congr_left
    intro share hshare
    obtain ⟨b, hb, ht⟩ := mem_readShares hshare
    rw [nested_congr h hmem hb ht]
  | words kind list | bytes kind list | strings kind list | grease value body | generic id data =>
    simp only [contentOf, readWords, readBytes, readStrings, slice_congr h (mem_singleton.mpr rfl)]
  | fakePreSharedKey identities binders =>
    have hids : identities ∈ (Extension.fakePreSharedKey identities binders).slices :=
      mem_cons_self
    have hbinders : binders ∈ (Extension.fakePreSharedKey identities binders).slices :=
      mem_cons_of_mem _ (mem_singleton.mpr rfl)
    simp only [contentOf, readIdentities, readLists, slice_congr h hids, slice_congr h hbinders,
      Content.fakePreSharedKey.injEq]
    constructor
    · apply map_congr_left
      intro identity hidentity
      obtain ⟨b, hb, ht⟩ := mem_readIdentities hidentity
      rw [nested_congr h hids hb ht]
    · apply map_congr_left
      intro t hlist
      obtain ⟨b, hb, ht⟩ := mem_readLists hlist
      exact nested_congr h hbinders hb ht
  | _ => rfl

end

variable {h h' : Heap} {p : Nat}

theorem extensionAt_congr (hp : h'[p]? = h[p]?) : extensionAt h' p = extensionAt h p := by
  rw [extensionAt, hp, extensionAt]

theorem blockAt_congr (hp : h'[p]? = h[p]?) : blockAt h' p = blockAt h p := by
  rw [blockAt, hp, blockAt]

theorem footprint_congr (hsame : ∀ a ∈ footprint h p, h'[a]? = h[a]?) :
    footprint h' p = footprint h p := by
  rw [footprint, extensionAt_congr (hsame p mem_cons_self), footprint]
  rw [reach_congr fun a ha => blockAt_congr (hsame a (mem_cons_of_mem _ ha))]

theorem content_congr (hsame : ∀ a ∈ footprint h p, h'[a]? = h[a]?) :
    content h' p = content h p := by
  rw [content, extensionAt_congr (hsame p mem_cons_self), content]
  exact contentOf_congr fun a ha => blockAt_congr (hsame a (mem_cons_of_mem _ ha))

/-! ## Copies -/

/-- The kinds of extensions in the spec of a configuration. -/
def Extension.Emitted : Extension → Prop
  | .words kind _ => kind ≠ .signatureAlgorithmsCert
  | .bytes kind _ => kind = .pskKeyExchangeModes
  | .strings kind _ => kind ≠ .applicationSettings
  | .keyShare _ | .sni _ | .generic _ _ | .greaseECH _ | .preSharedKey _ => True
  | _ => False

/-- `&T{…}` without a slice. -/
def newObject (h : Heap) (e : Extension) : Heap × Nat := (h ++ [.extension e], h.length)

/-- `&T{…}` with a slice of its own: `make`, `copy` and the object. -/
def newWithBlock (h : Heap) (b : Block) (e : Slice → Extension) : Heap × Nat :=
  (h ++ [.block b, .extension (e (some h.length))], h.length + 1)

/-- Copies of the blocks of some slices, one behind the other. -/
def newFakePreSharedKey (h : Heap) (identities : List (Slice × Nat)) (binders : List Bytes) :
    Heap × Nat :=
  let copies := (List.range binders.length).map fun i => some (h.length + 1 + i)
  (h ++ [.block (.identities identities)] ++ binders.map (fun b => .block (.bytes b)) ++
      [.block (.lists copies),
        .extension (.fakePreSharedKey (some h.length) (some (h.length + 1 + binders.length)))],
    h.length + 2 + binders.length)

/-- `copyExtension`. Key shares lose their data and the `pre_shared_key` extension its
state; the GREASE extensions and the kinds it does not know are not copied. -/
def copyExtension (h : Heap) (p : Nat) : Heap × Nat :=
  let blocks := blockAt h
  match extensionAt h p with
  | .keyShare keyShares =>
    newWithBlock h (.shares ((readShares blocks keyShares).map fun share => (share.1, none)))
      .keyShare
  | .sni serverName => newObject h (.sni serverName)
  | .words kind list => newWithBlock h (.words (readWords blocks list)) (.words kind)
  | .bytes kind list => newWithBlock h (.bytes (readBytes blocks list)) (.bytes kind)
  | .strings kind list => newWithBlock h (.strings (readStrings blocks list)) (.strings kind)
  | .quicTransportParameters _ => newObject h (.quicTransportParameters [])
  | .grease _ _ => (h, p)
  | .padding getPaddingLen willPad paddingLen =>
    newObject h (.padding getPaddingLen willPad paddingLen)
  | .bare kind => newObject h (.bare kind)
  | .renegotiationInfo renegotiation => newObject h (.renegotiationInfo renegotiation)
  | .greaseECH _ => (h, p)
  | .generic id data => newWithBlock h (.bytes (readBytes blocks data)) (.generic id)
  | .fakeRecordSizeLimit limit => newObject h (.fakeRecordSizeLimit limit)
  | .preSharedKey _ => newObject h (.preSharedKey none)
  | .fakePreSharedKey identities binders =>
    newFakePreSharedKey h (readIdentities blocks identities)
      ((readLists blocks binders).map (readBytes blocks))
  | .other => (h, p)

def copyExtensions (h : Heap) : List Nat → Heap × List Nat
  | [] => (h, [])
  | p :: rest =>
    let copy := copyExtension h p
    let copies := copyExtensions copy.1 rest
    (copies.1, copy.2 :: copies.2)

def copyClientHelloSpec (h : Heap) (spec : ClientHelloSpec) : Heap × ClientHelloSpec :=
  let copies := copyExtensions h spec.extensions
  (copies.1, { spec with extensions := copies.2 })

section
variable {h : Heap} {p : Nat}

/-- A copy: an object behind the others, which reaches nothing of what there was. -/
structure IsCopy (h : Heap) (expected : Content) (copy : Heap × Nat) : Prop where
  appended : ∃ cells, copy.1 = h ++ cells
  fresh : ∀ a ∈ footprint copy.1 copy.2, h.length ≤ a ∧ a < copy.1.length
  content : content copy.1 copy.2 = expected

theorem newObject_isCopy {e : Extension} (he : e.slices = []) {expected : Content}
    (hcontent : ∀ blocks, contentOf blocks e = expected) : IsCopy h expected (newObject h e) := by
  have hat : extensionAt (h ++ [.extension e]) h.length = e := by
    simp [extensionAt]
  constructor
  · exact ⟨_, rfl⟩
  · intro a ha
    have hreach : reach (blockAt (h ++ [.extension e])) e = [] := by
      simp [reach, he]
    simp only [newObject, footprint, hat, hreach, mem_singleton] at ha
    subst ha
    simp [newObject]
  · simp only [newObject, content, hat, hcontent]

variable {e : Slice → Extension}

theorem footprint_newWithBlock {b : Block} (hb : ∀ s ∈ b.slices, s = none)
    (he : ∀ s, (e s).slices = [s]) :
    footprint (newWithBlock h b e).1 (newWithBlock h b e).2 = [h.length + 1, h.length] := by
  have hblock : blockAt (newWithBlock h b e).1 h.length = some b := by
    simp [newWithBlock, blockAt]
  have hat : extensionAt (newWithBlock h b e).1 (h.length + 1) = e (some h.length) := by
    simp [newWithBlock, extensionAt]
  have hreach : reach (blockAt (newWithBlock h b e).1) (e (some h.length)) = [h.length] := by
    simpa [reach, he, hblock] using hb
  show footprint (newWithBlock h b e).1 (h.length + 1) = _
  rw [footprint, hat, hreach]

theorem newWithBlock_isCopy {b : Block} (hb : ∀ s ∈ b.slices, s = none)
    (he : ∀ s, (e s).slices = [s]) {expected : Content}
    (hcontent : ∀ blocks p, blocks p = some b → contentOf blocks (e (some p)) = expected) :
    IsCopy h expected (newWithBlock h b e) := by
  constructor
  · exact ⟨_, rfl⟩
  · intro a ha
    have hlength : (newWithBlock h b e).1.length = h.length + 2 := by
      simp [newWithBlock]
    rw [footprint_newWithBlock hb he] at ha
    simp only [mem_cons, not_mem_nil, or_false] at ha
    omega
  · have hblock : blockAt (newWithBlock h b e).1 h.length = some b := by
      simp [newWithBlock, blockAt]
    have hat : extensionAt (newWithBlock h b e).1 (h.length + 1) = e (some h.length) := by
      simp [newWithBlock, extensionAt]
    show contentOf _ (extensionAt _ (h.length + 1)) = _
    rw [hat]
    exact hcontent _ _ hblock

/-- The content that a copy has: key shares without data, no session. -/
def Content.reset : Content → Content
  | .keyShare shares => .keyShare (shares.map fun share => (share.1, []))
  | .preSharedKey _ => .preSharedKey none
  | c => c

/-- The object is shared, not copied. -/
def Extension.isGreaseECH : Extension → Bool
  | .greaseECH _ => true
  | _ => false

/-- **An extension of an emitted kind is copied**, unless it is the GREASE for ECH. -/
theorem copyExtension_isCopy (hemitted : (extensionAt h p).Emitted)
    (hech : (extensionAt h p).isGreaseECH = false) :
    IsCopy h (content h p).reset (copyExtension h p) := by
  rw [copyExtension, content]
  cases he : extensionAt h p with
  | keyShare keyShares =>
    apply newWithBlock_isCopy
    · intro s hs
      obtain ⟨share, hshare, rfl⟩ := mem_map.mp hs
      obtain ⟨_, _, rfl⟩ := mem_map.mp hshare
      rfl
    · intro s
      rfl
    · intro blocks q hq
      simp [contentOf, readShares, readBytes, hq, Content.reset]
  | sni serverName => exact newObject_isCopy rfl fun _ => rfl
  | words kind list | bytes kind list | strings kind list | generic id data =>
    apply newWithBlock_isCopy (by simp [Block.slices]) fun s => rfl
    intro blocks q hq
    simp [contentOf, readWords, readBytes, readStrings, hq, Content.reset]
  | preSharedKey state => exact newObject_isCopy rfl fun _ => rfl
  | greaseECH state =>
    rw [he] at hech
    cases hech
  | _ => simp [he, Extension.Emitted] at hemitted

/-- The GREASE for ECH is shared. -/
theorem copyExtension_shared (hech : (extensionAt h p).isGreaseECH = true) :
    copyExtension h p = (h, p) := by
  rw [copyExtension]
  cases he : extensionAt h p with
  | greaseECH _ | grease _ _ | other => rfl
  | _ =>
    rw [he] at hech
    cases hech

end

/-! ## Writes -/

def updateExtension (f : Extension → Extension) (h : Heap) (p : Nat) : Heap :=
  match h[p]? with
  | some (.extension e) => h.set p (.extension (f e))
  | _ => h

/-- Writes to the objects of a spec, one after the other. -/
def updateExtensions (f : Extension → Extension) (extensions : List Nat) (h : Heap) : Heap :=
  extensions.foldl (updateExtension f) h

def withServerName (serverName : Bytes) : Extension → Extension
  | .sni _ => .sni serverName
  | e => e

def setSNIServerName (h : Heap) (extensions : List Nat) (serverName : Bytes) : Heap :=
  updateExtensions (withServerName serverName) extensions h

def quicTransportParametersExtensionID : UInt16 := 57

def withParameters (params : Slice) : Extension → Extension
  | .generic id data =>
    if id = quicTransportParametersExtensionID then .generic id params else .generic id data
  | e => e

/-- `SetTransportParameters` of the wrapper: the bytes are the ones that `Marshal` has
just returned. -/
def setTransportParameters (h : Heap) (extensions : List Nat) (params : Bytes) : Heap :=
  updateExtensions (withParameters (some h.length)) extensions (h ++ [.block (.bytes params)])

section
variable {f : Extension → Extension} {h : Heap}

def Cell.map (f : Extension → Extension) : Cell → Cell
  | .extension e => .extension (f e)
  | .block b => .block b

theorem getElem?_updateExtension (p a : Nat) :
    (updateExtension f h p)[a]? = if a = p then h[a]?.map (Cell.map f) else h[a]? := by
  by_cases ha : a = p
  · subst ha
    rw [if_pos rfl, updateExtension]
    cases hcell : h[a]? with
    | none => simp [hcell]
    | some cell =>
      have hlt : a < h.length := (List.getElem?_eq_some_iff.mp hcell).1
      cases cell with
      | extension e => simp [Cell.map, hlt]
      | block b => simp [hcell, Cell.map]
  · rw [if_neg ha, updateExtension]
    split
    · rw [getElem?_set_ne (Ne.symm ha)]
    · rfl

/-- A write that may as well be made twice is made to each object of the spec. -/
theorem getElem?_updateExtensions (hf : ∀ e, f (f e) = f e) (extensions : List Nat) (a : Nat) :
    (updateExtensions f extensions h)[a]?
      = if a ∈ extensions then h[a]?.map (Cell.map f) else h[a]? := by
  induction extensions generalizing h with
  | nil => rfl
  | cons p extensions ih =>
    have htwice : ∀ cell : Cell, (cell.map f).map f = cell.map f := by
      intro cell
      cases cell with
      | extension e => simp [Cell.map, hf]
      | block b => rfl
    show (updateExtensions f extensions (updateExtension f h p))[a]? = _
    rw [ih, getElem?_updateExtension]
    by_cases hap : a = p
    · subst hap
      rw [if_pos rfl, if_pos mem_cons_self]
      split
      · cases h[a]? with
        | none => rfl
        | some cell => simp [htwice]
      · rfl
    · simp [hap]

theorem length_updateExtensions (extensions : List Nat) :
    (updateExtensions f extensions h).length = h.length := by
  induction extensions generalizing h with
  | nil => rfl
  | cons p extensions ih =>
    show (updateExtensions f extensions (updateExtension f h p)).length = _
    rw [ih, updateExtension]
    split
    · exact length_set
    · rfl

theorem blockAt_updateExtensions (hf : ∀ e, f (f e) = f e) (extensions : List Nat) :
    blockAt (updateExtensions f extensions h) = blockAt h := by
  funext a
  rw [blockAt, getElem?_updateExtensions hf, blockAt]
  by_cases ha : a ∈ extensions
  · rw [if_pos ha]
    cases h[a]? with
    | none => rfl
    | some cell => cases cell <;> rfl
  · rw [if_neg ha]

theorem extensionAt_updateExtensions (hf : ∀ e, f (f e) = f e) (hother : f .other = .other)
    (extensions : List Nat) (a : Nat) :
    extensionAt (updateExtensions f extensions h) a
      = if a ∈ extensions then f (extensionAt h a) else extensionAt h a := by
  rw [extensionAt, getElem?_updateExtensions hf, extensionAt]
  by_cases ha : a ∈ extensions
  · rw [if_pos ha, if_pos ha]
    cases h[a]? with
    | none => exact hother.symm
    | some cell =>
      cases cell with
      | extension e => rfl
      | block b => exact hother.symm
  · rw [if_neg ha, if_neg ha]

end

theorem withServerName_twice (serverName : Bytes) (e : Extension) :
    withServerName serverName (withServerName serverName e) = withServerName serverName e := by
  cases e <;> rfl

theorem withParameters_twice (params : Slice) (e : Extension) :
    withParameters params (withParameters params e) = withParameters params e := by
  cases e with
  | generic id data =>
    by_cases hid : id = quicTransportParametersExtensionID
    · simp [withParameters, hid]
    · simp [withParameters, hid]
  | _ => rfl

/-! ## Valid extensions -/

/-- An extension of a kind that is emitted, without dangling pointers. -/
structure Valid (h : Heap) (p : Nat) : Prop where
  emitted : (extensionAt h p).Emitted
  allocated : ∀ a ∈ footprint h p, a < h.length

theorem Valid.append (hp : Valid h p) (cells : List Cell) : Valid (h ++ cells) p := by
  have hsame : ∀ a ∈ footprint h p, (h ++ cells)[a]? = h[a]? := by
    intro a ha
    exact getElem?_append_left (hp.allocated a ha)
  constructor
  · rw [extensionAt_congr (hsame p mem_cons_self)]
    exact hp.emitted
  · intro a ha
    rw [footprint_congr hsame] at ha
    rw [length_append]
    exact Nat.lt_of_lt_of_le (hp.allocated a ha) (Nat.le_add_right _ _)

end HeadlessClient.QuicTLS
