import HeadlessClient.QuicTLS.Extensions
import Mathlib.Data.List.Forall2
import Mathlib.Logic.Relation

/-!
# QuicTLS — connections from one spec

`NewCryptoSetupClient` with a cached spec: the spec is copied, the server name is
put into the copy, uTLS applies the copy, and the transport parameters are set.
Many calls run at the same time, on one memory. A STEP is one extension copied, or
one of the other statements, of any of the calls; a run is any order of steps.

uTLS is described by what it may do to the extensions it was given (`UtlsWrites`):
it writes to what they reach and to memory of its own, it fills in what a connection
has of its own (`Fills`), and it leaves the rest as it is.
-/

namespace HeadlessClient.QuicTLS

open Base List

/-! ## What a connection has of its own -/

/-- `isGREASEUint16` of uTLS. -/
def isGREASEUint16 (v : UInt16) : Bool := v >>> 8 == v &&& 0xff && v &&& 0xf == 0xa

/-- The same value, or another GREASE value in the place of one. -/
def Regreased (v w : UInt16) : Prop :=
  w = v ∨ isGREASEUint16 v = true ∧ isGREASEUint16 w = true

/-- The lists that may hold GREASE values. -/
def WordList.regreased : WordList → Bool
  | .supportedCurves | .supportedVersions => true
  | _ => false

/-- A handshake: its server name and transport parameters, the public keys it may make
for a group, and the sessions it may offer. -/
structure Handshake where
  serverName : Bytes
  parameters : Bytes
  Key : UInt16 → Bytes → Prop
  Session : Psk → Prop

variable (handshake : Handshake)

/-! ## uTLS -/

/-- What uTLS does to a key share: it makes a key where there is none. -/
inductive FillsShare : UInt16 × Bytes → UInt16 × Bytes → Prop
  | same (share) : FillsShare share share
  | key {group data key} : isGREASEUint16 group = false → data.length ≤ 1 →
      handshake.Key group key → FillsShare (group, data) (group, key)
  | grease {group group' data} : isGREASEUint16 group = true → isGREASEUint16 group' = true →
      FillsShare (group, data) (group', data)

/-- What uTLS does to an extension. It fills in a server name if there is none, keys,
GREASE values, the session it resumes, and the random content of a GREASE for ECH,
once. -/
inductive Fills : Content → Content → Prop
  | same (c) : Fills c c
  | sni : Fills (.sni []) (.sni handshake.serverName)
  | words {kind list list'} : kind.regreased = true → List.Forall₂ Regreased list list' →
      Fills (.words kind list) (.words kind list')
  | keyShare {shares shares'} : List.Forall₂ (FillsShare handshake) shares shares' →
      Fills (.keyShare shares) (.keyShare shares')
  | greaseECH (bytes) : Fills (.greaseECH none) (.greaseECH (some bytes))
  | preSharedKey (state) {psk} : handshake.Session psk →
      Fills (.preSharedKey state) (.preSharedKey (some psk))

/-- Anything uTLS may do with the extensions of a spec. -/
structure UtlsWrites (extensions : List Nat) (h h' : Heap) : Prop where
  writes : Writes (extensions.flatMap (footprint h)) h h'
  reaches : ∀ p ∈ extensions, ∀ a ∈ footprint h' p,
    a ∈ footprint h p ∨ h.length ≤ a ∧ a < h'.length
  fills : ∀ p ∈ extensions, Fills handshake (content h p) (content h' p)

def Content.shares : Content → List (UInt16 × Bytes)
  | .keyShare shares => shares
  | _ => []

/-- `ApplyPreset` has returned without an error: there is a key in every share. -/
def Generated (h : Heap) (extensions : List Nat) : Prop :=
  ∀ p ∈ extensions, ∀ share ∈ (content h p).shares, isGREASEUint16 share.1 = false → share.2 ≠ []

/-! ## Connections -/

/-- Where a call of `NewCryptoSetupClient` is. -/
inductive Stage where
  | copying | named | applied | ready
deriving DecidableEq, Repr

structure Hello where
  tlsVersMin : UInt16
  tlsVersMax : UInt16
  cipherSuites : List UInt16
  compressionMethods : Bytes
  extensions : List Content

structure Setup where
  handshake : Handshake
  spec : ClientHelloSpec
  stage : Stage
  hello : Option Hello

structure State where
  heap : Heap
  setups : List Setup

def State.put (s : State) (i : Nat) (h : Heap) (c : Setup) : State := ⟨h, s.setups.set i c⟩

def Setup.withExtensions (c : Setup) (extensions : List Nat) : Setup :=
  { c with spec := { c.spec with extensions := extensions } }

/-- The ClientHello of a spec with its cipher suites, among which uTLS replaces GREASE
values. -/
def helloOf (h : Heap) (spec : ClientHelloSpec) (cipherSuites : List UInt16) : Hello where
  tlsVersMin := spec.tlsVersMin
  tlsVersMax := spec.tlsVersMax
  cipherSuites := cipherSuites
  compressionMethods := spec.compressionMethods
  extensions := spec.extensions.map (content h)

/-- One step of one connection. If `ApplyPreset` fails, there is no further step: the
connection fails, or another preset takes the place of the spec. -/
inductive Step (cached : ClientHelloSpec) : State → State → Prop
  | dial (s : State) (handshake : Handshake) :
      Step cached s
        ⟨s.heap, s.setups ++ [⟨handshake, { cached with extensions := [] }, .copying, none⟩]⟩
  | copyNext {s : State} {i p : Nat} {c : Setup} (hc : s.setups[i]? = some c)
      (hstage : c.stage = .copying)
      (hp : cached.extensions[c.spec.extensions.length]? = some p) :
      Step cached s
        (s.put i (copyExtension s.heap p).1
          (c.withExtensions (c.spec.extensions ++ [(copyExtension s.heap p).2])))
  | setName {s : State} {i : Nat} {c : Setup} (hc : s.setups[i]? = some c)
      (hstage : c.stage = .copying)
      (hlength : c.spec.extensions.length = cached.extensions.length) :
      Step cached s
        (s.put i (setSNIServerName s.heap c.spec.extensions c.handshake.serverName)
          { c with stage := .named })
  | utls {s : State} {i : Nat} {c : Setup} {h : Heap} (hc : s.setups[i]? = some c)
      (hstage : c.stage ≠ .copying)
      (hw : UtlsWrites c.handshake c.spec.extensions s.heap h) :
      Step cached s (s.put i h c)
  | applyPreset {s : State} {i : Nat} {c : Setup} (hc : s.setups[i]? = some c)
      (hstage : c.stage = .named) (hkeys : Generated s.heap c.spec.extensions) :
      Step cached s (s.put i s.heap { c with stage := .applied })
  | setParameters {s : State} {i : Nat} {c : Setup} (hc : s.setups[i]? = some c)
      (hstage : c.stage = .applied) :
      Step cached s
        (s.put i (setTransportParameters s.heap c.spec.extensions c.handshake.parameters)
          { c with stage := .ready })
  /-- The content of a GREASE for ECH is made at the latest when it is written. -/
  | send {s : State} {i : Nat} {c : Setup} {suites : List UInt16} (hc : s.setups[i]? = some c)
      (hstage : c.stage = .ready) (hsuites : List.Forall₂ Regreased c.spec.cipherSuites suites)
      (hech : ∀ p ∈ c.spec.extensions, content s.heap p ≠ .greaseECH none) :
      Step cached s (s.put i s.heap { c with hello := some (helloOf s.heap c.spec suites) })

/-- Any number of steps of any connections. -/
def Run (cached : ClientHelloSpec) : State → State → Prop := Relation.ReflTransGen (Step cached)

/-! ## A call alone -/

section
variable {cached : ClientHelloSpec} {s : State} {i : Nat} {c : Setup}

theorem State.put_self (hc : s.setups[i]? = some c) : s.put i s.heap c = s := by
  obtain ⟨hlt, rfl⟩ := List.getElem?_eq_some_iff.mp hc
  rw [State.put, set_getElem_self]

theorem State.getElem?_put (hc : s.setups[i]? = some c) (h : Heap) (c' : Setup) :
    (s.put i h c').setups[i]? = some c' :=
  List.getElem?_set_self (List.getElem?_eq_some_iff.mp hc).1

theorem State.put_put (h h' : Heap) (c c' : Setup) : (s.put i h c).put i h' c' = s.put i h' c' := by
  rw [State.put, State.put, State.put, set_set]

theorem run_copyExtensions {rest : List Nat} (hc : s.setups[i]? = some c)
    (hstage : c.stage = .copying) (hrest : cached.extensions.drop c.spec.extensions.length = rest) :
    Run cached s
      (s.put i (copyExtensions s.heap rest).1
        (c.withExtensions (c.spec.extensions ++ (copyExtensions s.heap rest).2))) := by
  induction rest generalizing s c with
  | nil =>
    have hsame : c.withExtensions (c.spec.extensions ++ []) = c := by
      rw [append_nil]
      rfl
    show Run cached s (s.put i s.heap (c.withExtensions (c.spec.extensions ++ [])))
    rw [hsame, State.put_self hc]
    exact Relation.ReflTransGen.refl
  | cons p rest ih =>
    have hp : cached.extensions[c.spec.extensions.length]? = some p := by
      rw [← head?_drop, hrest]
      rfl
    have hstep := Step.copyNext hc hstage hp
    have hnext := ih (c := c.withExtensions (c.spec.extensions ++ [(copyExtension s.heap p).2]))
      (State.getElem?_put hc (copyExtension s.heap p).1 _) hstage (by
        rw [Setup.withExtensions, length_append, ← drop_drop, hrest]
        rfl)
    rw [State.put_put] at hnext
    have hall : c.spec.extensions ++ [(copyExtension s.heap p).2]
        ++ (copyExtensions (copyExtension s.heap p).1 rest).2
        = c.spec.extensions ++ (copyExtensions s.heap (p :: rest)).2 := by
      rw [append_assoc]
      rfl
    rw [← hall]
    exact Relation.ReflTransGen.head hstep hnext

/-- **Without other steps in between, the steps of copying are the call** of
`copyClientHelloSpec`. -/
theorem run_copyClientHelloSpec (hc : s.setups[i]? = some c) (hstage : c.stage = .copying)
    (hspec : c.spec = { cached with extensions := [] }) :
    Run cached s
      (s.put i (copyClientHelloSpec s.heap cached).1
        { c with spec := (copyClientHelloSpec s.heap cached).2 }) := by
  have hnil : c.spec.extensions = [] := by
    rw [hspec]
  have hrest : cached.extensions.drop c.spec.extensions.length = cached.extensions := by
    rw [hnil]
    rfl
  have hrun := run_copyExtensions hc hstage hrest
  rw [hnil, nil_append, Setup.withExtensions, hspec] at hrun
  exact hrun

end

/-! ## What a ClientHello carries -/

/-- The same numbers, unless there is GREASE among them: that may differ. -/
def SameButGREASE (list list' : List UInt16) : Prop :=
  list' = list ∨
    (∃ v ∈ list, isGREASEUint16 v = true) ∧ List.Forall₂ Regreased list list'

/-- A key share of the connection's own for a share of the cached spec. -/
inductive CarriesShare : UInt16 × Bytes → UInt16 × Bytes → Prop
  | key {group data key} : isGREASEUint16 group = false → handshake.Key group key →
      CarriesShare (group, data) (group, key)
  | grease {group group' data} : isGREASEUint16 group = true → isGREASEUint16 group' = true →
      CarriesShare (group, data) (group', [])

/-- An extension of a ClientHello for an extension of the cached spec. -/
inductive Carries : Content → Content → Prop
  | sni (name) : Carries (.sni name) (.sni handshake.serverName)
  | parameters (data) :
      Carries (.generic quicTransportParametersExtensionID data)
        (.generic quicTransportParametersExtensionID handshake.parameters)
  | generic {id} (data) : id ≠ quicTransportParametersExtensionID →
      Carries (.generic id data) (.generic id data)
  | keyShare {shares shares'} : List.Forall₂ (CarriesShare handshake) shares shares' →
      Carries (.keyShare shares) (.keyShare shares')
  | preSharedKey (state) {state'} : (∀ psk ∈ state', handshake.Session psk) →
      Carries (.preSharedKey state) (.preSharedKey state')
  | greaseECH (bytes) : Carries (.greaseECH (some bytes)) (.greaseECH (some bytes))
  | words {kind list list'} : SameButGREASE list list' → (kind.regreased = false → list' = list) →
      Carries (.words kind list) (.words kind list')
  | bytes (kind list) : Carries (.bytes kind list) (.bytes kind list)
  | strings (kind list) : Carries (.strings kind list) (.strings kind list)

/-- The ClientHello of a connection: what is the connection's own is its own, and the
rest, the order of the extensions with it, is that of the cached spec. -/
structure CarriesSpec (cached : ClientHelloSpec) (h : Heap) (hello : Hello) : Prop where
  versions : hello.tlsVersMin = cached.tlsVersMin ∧ hello.tlsVersMax = cached.tlsVersMax
  cipherSuites : SameButGREASE cached.cipherSuites hello.cipherSuites
  compressionMethods : hello.compressionMethods = cached.compressionMethods
  extensions :
    List.Forall₂ (Carries handshake) (cached.extensions.map (content h)) hello.extensions

/-- The same content, or random content for a GREASE for ECH that had none. -/
def Kept (c d : Content) : Prop :=
  d = c ∨ c = .greaseECH none ∧ ∃ bytes, d = .greaseECH (some bytes)

/-! ## The way to a ClientHello -/

variable {handshake}

theorem forall₂_comp {α β γ : Type} {R : α → β → Prop} {S : β → γ → Prop} {T : α → γ → Prop}
    {as : List α} {bs : List β} {cs : List γ} (h : List.Forall₂ R as bs)
    (h' : List.Forall₂ S bs cs) (hcomp : ∀ a b c, R a b → S b c → T a c) :
    List.Forall₂ T as cs := by
  induction h generalizing cs with
  | nil =>
    cases h'
    exact .nil
  | cons hab _ ih =>
    cases h' with
    | cons hbc hrest => exact .cons (hcomp _ _ _ hab hbc) (ih hrest)

theorem Regreased.trans {u v w : UInt16} (h : Regreased u v) (h' : Regreased v w) :
    Regreased u w := by
  rcases h with rfl | ⟨hu, hv⟩
  · exact h'
  · rcases h' with rfl | ⟨-, hw⟩
    · exact .inr ⟨hu, hv⟩
    · exact .inr ⟨hu, hw⟩

theorem regreased_refl (list : List UInt16) : List.Forall₂ Regreased list list :=
  forall₂_same.mpr fun _ _ => .inl rfl

theorem sameButGREASE_of_regreased {list list' : List UInt16}
    (h : List.Forall₂ Regreased list list') : SameButGREASE list list' := by
  by_cases hgrease : ∃ v ∈ list, isGREASEUint16 v = true
  · exact .inr ⟨hgrease, h⟩
  · left
    induction h with
    | nil => rfl
    | @cons v w list list' hv _ ih =>
      have hrest : list' = list := ih fun ⟨u, hu, hu'⟩ =>
        hgrease ⟨u, mem_cons_of_mem _ hu, hu'⟩
      rcases hv with rfl | ⟨hv, -⟩
      · rw [hrest]
      · exact absurd ⟨v, mem_cons_self, hv⟩ hgrease

def Stage.isNamed : Stage → Bool
  | .copying => false
  | _ => true

def Stage.isGenerated : Stage → Bool
  | .applied | .ready => true
  | _ => false

def Stage.hasParameters : Stage → Bool
  | .ready => true
  | _ => false

variable (handshake) (stage : Stage)

/-- `CarriesShare`, where the key may not have been made yet. -/
inductive ShareProgress : UInt16 × Bytes → UInt16 × Bytes → Prop
  | key {group data key} : isGREASEUint16 group = false → handshake.Key group key →
      ShareProgress (group, data) (group, key)
  | missing {group data} : isGREASEUint16 group = false → stage.isGenerated = false →
      ShareProgress (group, data) (group, [])
  | grease {group group' data} : isGREASEUint16 group = true → isGREASEUint16 group' = true →
      ShareProgress (group, data) (group', [])

/-- The content of a copied extension at some stage, for the one of the cached spec. -/
inductive Progress : Content → Content → Prop
  | sni {name name'} :
      name' = (if stage.isNamed then handshake.serverName else name) →
      Progress (.sni name) (.sni name')
  | generic {id data data'} :
      data' = (if stage.hasParameters ∧ id = quicTransportParametersExtensionID
        then handshake.parameters else data) →
      Progress (.generic id data) (.generic id data')
  | keyShare {shares shares'} : List.Forall₂ (ShareProgress handshake stage) shares shares' →
      Progress (.keyShare shares) (.keyShare shares')
  | preSharedKey (state) {state'} : (∀ psk ∈ state', handshake.Session psk) →
      Progress (.preSharedKey state) (.preSharedKey state')
  | greaseECH (state) : Progress (.greaseECH state) (.greaseECH state)
  | words {kind list list'} : List.Forall₂ Regreased list list' →
      (kind.regreased = false → list' = list) → Progress (.words kind list) (.words kind list')
  | bytes (kind list) : Progress (.bytes kind list) (.bytes kind list)
  | strings (kind list) : Progress (.strings kind list) (.strings kind list)

variable {handshake stage} {blocks : Nat → Option Block} {e : Extension} {c d : Content}
  {shares shares' : List (UInt16 × Bytes)}

/-- Where it starts: at a copy. -/
theorem progress_reset (hemitted : e.Emitted) :
    Progress handshake .copying (contentOf blocks e) (contentOf blocks e).reset := by
  cases e with
  | keyShare keyShares =>
    apply Progress.keyShare
    rw [forall₂_map_right_iff]
    apply forall₂_same.mpr
    rintro ⟨group, data⟩ _
    cases hgrease : isGREASEUint16 group with
    | true => exact .grease hgrease hgrease
    | false => exact .missing hgrease rfl
  | sni serverName => exact .sni rfl
  | words kind list => exact .words (regreased_refl _) fun _ => rfl
  | bytes kind list => exact .bytes _ _
  | strings kind list => exact .strings _ _
  | generic id data => exact .generic rfl
  | greaseECH state => exact .greaseECH state
  | preSharedKey state => exact .preSharedKey state fun psk hpsk => by cases hpsk
  | _ => cases hemitted

theorem ShareProgress.fill {s t u : UInt16 × Bytes} (h : ShareProgress handshake stage s t)
    (hfill : FillsShare handshake t u) : ShareProgress handshake stage s u := by
  cases h with
  | key hgroup hkey =>
    cases hfill with
    | same => exact .key hgroup hkey
    | key _ _ hkey' => exact .key hgroup hkey'
    | grease hgrease _ =>
      rw [hgroup] at hgrease
      cases hgrease
  | missing hgroup hstage =>
    cases hfill with
    | same => exact .missing hgroup hstage
    | key _ _ hkey => exact .key hgroup hkey
    | grease hgrease _ =>
      rw [hgroup] at hgrease
      cases hgrease
  | grease hgroup hgroup' =>
    cases hfill with
    | same => exact .grease hgroup hgroup'
    | key hnot _ _ =>
      rw [hgroup'] at hnot
      cases hnot
    | grease _ hgroup'' => exact .grease hgroup hgroup''

/-- What uTLS fills in is the connection's own. The GREASE for ECH is not: it is shared. -/
theorem Progress.fill {d' : Content} (h : Progress handshake stage c d)
    (hstage : stage.isNamed = true) (hech : ∀ state, d ≠ .greaseECH state)
    (hfill : Fills handshake d d') : Progress handshake stage c d' := by
  cases hfill with
  | same => exact h
  | sni =>
    cases h with
    | sni _ =>
      apply Progress.sni
      rw [if_pos hstage]
  | words hkind hlist =>
    cases h with
    | words hlist' hsame =>
      apply Progress.words
      · exact forall₂_comp hlist' hlist fun _ _ _ h h' => h.trans h'
      · intro hnot
        rw [hkind] at hnot
        cases hnot
  | keyShare hshares =>
    cases h with
    | keyShare hshares' =>
      exact .keyShare (forall₂_comp hshares' hshares fun _ _ _ h h' => h.fill h')
  | greaseECH bytes => exact absurd rfl (hech none)
  | preSharedKey state hpsk =>
    cases h with
    | preSharedKey state' _ =>
      apply Progress.preSharedKey
      intro psk hmem
      cases hmem
      exact hpsk

theorem ShareProgress.applyPreset (h : List.Forall₂ (ShareProgress handshake .named) shares shares')
    (hkeys : ∀ share ∈ shares', isGREASEUint16 share.1 = false → share.2 ≠ []) :
    List.Forall₂ (ShareProgress handshake .applied) shares shares' := by
  induction h with
  | nil => exact .nil
  | cons hshare _ ih =>
    apply List.Forall₂.cons
    · cases hshare with
      | key hgroup hkey => exact .key hgroup hkey
      | missing hgroup _ => exact absurd rfl (hkeys _ mem_cons_self hgroup)
      | grease hgroup hgroup' => exact .grease hgroup hgroup'
    · exact ih fun share hmem => hkeys share (mem_cons_of_mem _ hmem)

theorem ShareProgress.restage {stage' : Stage} (hstage : stage'.isGenerated = stage.isGenerated)
    (h : List.Forall₂ (ShareProgress handshake stage) shares shares') :
    List.Forall₂ (ShareProgress handshake stage') shares shares' := by
  apply h.imp
  intro share share' hshare
  cases hshare with
  | key hgroup hkey => exact .key hgroup hkey
  | missing hgroup hmissing =>
    rw [← hstage] at hmissing
    exact .missing hgroup hmissing
  | grease hgroup hgroup' => exact .grease hgroup hgroup'

/-- To go on to another stage only three kinds of extensions have to be looked at. -/
theorem Progress.restage {stage' : Stage} (h : Progress handshake stage c d)
    (hsni : stage'.isNamed = stage.isNamed ∨ ∀ name, d ≠ .sni name)
    (hgeneric : stage'.hasParameters = stage.hasParameters ∨ ∀ id data, d ≠ .generic id data)
    (hshares : ∀ shares shares', d = .keyShare shares' →
      List.Forall₂ (ShareProgress handshake stage) shares shares' →
      List.Forall₂ (ShareProgress handshake stage') shares shares') :
    Progress handshake stage' c d := by
  cases h with
  | sni hname =>
    rcases hsni with hsame | hnot
    · rw [← hsame] at hname
      exact .sni hname
    · exact absurd rfl (hnot _)
  | generic hdata =>
    rcases hgeneric with hsame | hnot
    · rw [← hsame] at hdata
      exact .generic hdata
    · exact absurd rfl (hnot _ _)
  | keyShare h => exact .keyShare (hshares _ _ rfl h)
  | preSharedKey state hstate => exact .preSharedKey state hstate
  | greaseECH state => exact .greaseECH state
  | words hlist hsame => exact .words hlist hsame
  | bytes kind list => exact .bytes kind list
  | strings kind list => exact .strings kind list

theorem Progress.applyPreset (h : Progress handshake .named c d)
    (hkeys : ∀ share ∈ d.shares, isGREASEUint16 share.1 = false → share.2 ≠ []) :
    Progress handshake .applied c d := by
  refine h.restage (.inl rfl) (.inl rfl) ?_
  rintro shares shares' rfl hshares
  exact ShareProgress.applyPreset hshares hkeys

theorem progress_withServerName (h : Progress handshake .copying c (contentOf blocks e)) :
    Progress handshake .named c (contentOf blocks (withServerName handshake.serverName e)) := by
  cases e with
  | sni name =>
    cases h with
    | sni _ => exact .sni rfl
  | _ =>
    refine Progress.restage h (.inr ?_) (.inl rfl) fun _ _ _ => ShareProgress.restage (by rfl)
    intro name hname
    cases hname

theorem progress_withParameters {p : Nat} (h : Progress handshake .applied c (contentOf blocks e))
    (hp : blocks p = some (.bytes handshake.parameters)) :
    Progress handshake .ready c (contentOf blocks (withParameters (some p) e)) := by
  cases e with
  | generic id data =>
    cases h with
    | generic hdata =>
      by_cases hid : id = quicTransportParametersExtensionID
      · simp only [withParameters, if_pos hid, contentOf]
        apply Progress.generic
        rw [if_pos ⟨rfl, hid⟩]
        simp [readBytes, hp]
      · simp only [withParameters, if_neg hid, contentOf]
        apply Progress.generic
        rw [hdata, if_neg fun h => hid h.2, if_neg fun h => hid h.2]
  | _ =>
    refine Progress.restage h (.inl rfl) (.inr ?_) fun _ _ _ => ShareProgress.restage (by rfl)
    intro id data hgeneric
    cases hgeneric

/-- Where it ends: at the ClientHello. -/
theorem Progress.carries (h : Progress handshake .ready c d) (hech : d ≠ .greaseECH none) :
    Carries handshake c d := by
  cases h with
  | sni hname =>
    rw [hname]
    exact .sni _
  | generic hdata =>
    rw [hdata]
    split
    · next hid =>
        rw [hid.2]
        exact .parameters _
    · next hid => exact .generic _ fun h => hid ⟨rfl, h⟩
  | keyShare hshares =>
    apply Carries.keyShare
    apply hshares.imp
    intro share share' hshare
    cases hshare with
    | key hgroup hkey => exact .key hgroup hkey
    | missing _ hstage => cases hstage
    | grease hgroup hgroup' => exact .grease hgroup hgroup'
  | preSharedKey state hstate => exact .preSharedKey state hstate
  | greaseECH state =>
    cases state with
    | none => exact absurd rfl hech
    | some bytes => exact .greaseECH bytes
  | words hlist hsame => exact .words (sameButGREASE_of_regreased hlist) hsame
  | bytes kind list => exact .bytes kind list
  | strings kind list => exact .strings kind list

end HeadlessClient.QuicTLS
