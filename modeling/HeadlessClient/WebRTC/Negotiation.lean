import HeadlessClient.WebRTC.MediaEngine
import Mathlib.Data.List.Induction

/-!
# WebRTC — header extension IDs across negotiation

Two tables hold extension IDs: the picker's memory of what was offered, and the
negotiated table. They stay consistent as long as no remote description
CONTRADICTS the picker's memory (`Compatible`), and only a description does
that: `Takes` says what one can do to the engine, `EngineInv` is the invariant
over whole runs, `Consistent` what it gives for a returned list.

Once both kinds are negotiated the picker is not consulted any more, so from
then on nothing is asked of a description.
-/

namespace HeadlessClient.WebRTC

open Base List

/-! ## The picker's loops -/

/-- No two pairs share a URI or an ID. -/
def OneToOne (T : URI → Nat → Prop) : Prop := ∀ {u i v j}, T u i → T v j → (u = v ↔ i = j)

namespace Picker

variable {p : Picker} {u : URI} {i : Nat}

theorem Agrees.reserve {v : URI} {j : Nat} (h : p.Agrees u i) (hv : v = u ↔ j = i) :
    (p.reserve v j).Agrees u i := by
  intro w k hw
  rcases reserve_cases hw with hw | ⟨rfl, rfl, -⟩
  · exact h w k hw
  · exact hv

theorem Agrees.reserve_self (h : p.Agrees u i) : (p.reserve u i).idsByURI u = some i := by
  rw [reserve_idsByURI]
  cases hu : p.idsByURI u with
  | none => rw [if_pos ⟨rfl, rfl⟩]
  | some j =>
    rw [if_neg (by simp)]
    rw [(h u j hu).mp rfl]

theorem reserve_mono {v : URI} {j : Nat} (h : p.idsByURI u = some i) :
    (p.reserve v j).idsByURI u = some i := by
  rw [reserve_idsByURI, if_neg, h]
  rintro ⟨rfl, hnone⟩
  rw [h] at hnone
  cases hnone

theorem Coherent.agrees (h : p.Coherent) (hu : p.idsByURI u = some i) : p.Agrees u i := by
  intro v j hv
  constructor
  · rintro rfl
    rw [hu] at hv
    exact (Option.some.inj hv).symm
  · rintro rfl
    exact h.inj hv hu

end Picker

def MediaSection.pairs (media : MediaSection) (u : URI) (i : Nat) : Prop :=
  media.media ≠ .unknown ∧ some (u, i) ∈ media.extmap

namespace MediaEngine

open Picker

theorem reserveAll_spec {T : URI → Nat → Prop} (hT : OneToOne T)
    (l : List (Nat × HeaderExtension)) (hl : ∀ i e, (i, e) ∈ l → T e.uri i) :
    ∀ p : Picker, p.Coherent → (∀ u i, T u i → p.Agrees u i) →
      (reserveAll l p).Coherent ∧ (∀ u i, T u i → (reserveAll l p).Agrees u i) ∧
      (∀ u i, p.idsByURI u = some i → (reserveAll l p).idsByURI u = some i) ∧
      ∀ i e, (i, e) ∈ l → (reserveAll l p).idsByURI e.uri = some i := by
  induction l with
  | nil => intro p hp ha; exact ⟨hp, ha, fun _ _ h => h, fun _ _ h => (nomatch h)⟩
  | cons x l ih =>
    intro p hp ha
    obtain ⟨i, e⟩ := x
    have hie := hl i e mem_cons_self
    have hagrees := ha e.uri i hie
    obtain ⟨hcoh, hag, hmono, hmem⟩ := ih (fun j f hf => hl j f (mem_cons_of_mem _ hf))
      (p.reserve e.uri i) (hp.reserve hagrees) fun u j hu => (ha u j hu).reserve (hT hie hu)
    refine ⟨hcoh, hag, fun u j hu => hmono u j (reserve_mono hu), fun j f hf => ?_⟩
    rcases mem_cons.mp hf with heq | hf
    · cases heq
      exact hmono _ _ hagrees.reserve_self
    · exact hmem j f hf

/-- What the suggesting loop returns. -/
structure Suggested (p : Picker) (exts : List HeaderExtension)
    (out : List HeaderExtensionParameter × Picker) : Prop where
  coherent : out.2.Coherent
  grown : ∀ u i, p.idsByURI u = some i → out.2.idsByURI u = some i
  stored : ∀ x ∈ out.1, out.2.idsByURI x.uri = some x.id
  uris : (out.1.map (·.uri)).Sublist (exts.map (·.uri))

theorem suggestAll_spec (typ : RTPCodecType) (directions : List RTPTransceiverDirection)
    (exts : List HeaderExtension) : ∀ p : Picker, p.Coherent →
      Suggested p exts (suggestAll typ directions exts p) := by
  induction exts with
  | nil =>
    intro p hp
    exact ⟨hp, fun _ _ h => h, fun x hx => (nomatch hx), .slnil⟩
  | cons ext exts ih =>
    intro p hp
    rw [suggestAll]
    by_cases happ : applies ext typ directions = true
    · rw [if_pos happ]
      dsimp only
      rcases suggest_cases p ext.uri (preferredID ext.uri (typ = .video)) with
        ⟨i, hi, hsug⟩ | ⟨i, hnone, hgrants, hsug⟩ | ⟨hnone, -, hsug⟩
      · -- the memory already has the URI
        rw [hsug]
        obtain ⟨hcoh, hgrown, hstored, huris⟩ := ih p hp
        split_ifs with h0
        · exact ⟨hcoh, hgrown, hstored, huris.cons _⟩
        · refine ⟨hcoh, hgrown, fun x hx => ?_, huris.cons_cons _⟩
          rcases mem_cons.mp hx with rfl | hx
          · exact hgrown _ _ hi
          · exact hstored x hx
      · -- a fresh ID
        rw [hsug, if_neg hgrants.ne_zero]
        have hag := hp.agrees_fresh hnone hgrants.fresh
        obtain ⟨hcoh, hgrown, hstored, huris⟩ :=
          ih (p.reserve ext.uri i) (hp.reserve hag)
        refine ⟨hcoh, fun u j hu => hgrown u j (reserve_mono hu), fun x hx => ?_,
          huris.cons_cons _⟩
        rcases mem_cons.mp hx with rfl | hx
        · exact hgrown _ _ hag.reserve_self
        · exact hstored x hx
      · rw [hsug, if_pos rfl]
        obtain ⟨hcoh, hgrown, hstored, huris⟩ := ih p hp
        exact ⟨hcoh, hgrown, hstored, huris.cons _⟩
    · rw [if_neg happ]
      obtain ⟨hcoh, hgrown, hstored, huris⟩ := ih p hp
      exact ⟨hcoh, hgrown, hstored, huris.cons _⟩

/-! ## What a remote description does -/

def Registered (m : MediaEngine) (uri : URI) : Prop := ∃ e ∈ m.headerExtensions, e.uri = uri

/-- `m'` is `m` with kinds noted as negotiated and with pairs from `S`, of
registered extensions, taken into the negotiated table. -/
structure Takes (S : URI → Nat → Prop) (m m' : MediaEngine) : Prop where
  extensions : m'.headerExtensions = m.headerExtensions
  picker : m'.headerExtensionIDs = m.headerExtensionIDs
  audio : m.negotiatedAudio = true → m'.negotiatedAudio = true
  video : m.negotiatedVideo = true → m'.negotiatedVideo = true
  entries : ∀ i e, m'.negotiated.lookup i = some e →
    (∃ e₀, m.negotiated.lookup i = some e₀ ∧ e₀.uri = e.uri) ∨ (S e.uri i ∧ m.Registered e.uri)

theorem Takes.refl (S : URI → Nat → Prop) (m : MediaEngine) : Takes S m m :=
  ⟨rfl, rfl, id, id, fun _ e h => .inl ⟨e, h, rfl⟩⟩

variable {S : URI → Nat → Prop}

theorem Takes.trans {m₁ m₂ m₃ : MediaEngine} (h : Takes S m₁ m₂) (h' : Takes S m₂ m₃) :
    Takes S m₁ m₃ where
  extensions := h'.extensions.trans h.extensions
  picker := h'.picker.trans h.picker
  audio := h'.audio ∘ h.audio
  video := h'.video ∘ h.video
  entries := by
    intro i e hi
    rcases h'.entries i e hi with ⟨e₀, h₀, hu⟩ | ⟨hS, hreg⟩
    · rcases h.entries i e₀ h₀ with ⟨e₁, h₁, hu'⟩ | hnew
      · exact .inl ⟨e₁, h₁, hu'.trans hu⟩
      · exact .inr (hu ▸ hnew)
    · refine .inr ⟨hS, ?_⟩
      rw [Registered, ← h.extensions]
      exact hreg

theorem Takes.mono {S' : URI → Nat → Prop} {m m' : MediaEngine} (h : Takes S m m')
    (hS : ∀ u i, S u i → S' u i) : Takes S' m m' :=
  ⟨h.extensions, h.picker, h.audio, h.video,
    fun i e hi => (h.entries i e hi).imp id fun hn => ⟨hS _ _ hn.1, hn.2⟩⟩

theorem enable_entries {id : Nat} {extension : URI} {typ : RTPCodecType}
    {negotiated : GoMap Nat HeaderExtension} {ext e : HeaderExtension} {i : Nat}
    (h : (enable id extension typ negotiated ext).lookup i = some e) :
    (∃ e₀, negotiated.lookup i = some e₀ ∧ e₀.uri = e.uri) ∨
      (e.uri = extension ∧ i = id ∧ ext.uri = extension) := by
  unfold enable at h
  by_cases hext : ext.uri = extension
  · rw [if_pos hext] at h
    by_cases hi : i = id
    · subst hi
      rw [AList.lookup_insert] at h
      -- the flags are set on the entry that is there, or on a new one
      have huri : e.uri = ((negotiated.lookup i).getD
          ⟨extension, false, false, ext.allowedDirections⟩).uri := by
        rw [← Option.some.inj h]
        split_ifs <;> rfl
      cases hl : negotiated.lookup i with
      | none => rw [hl] at huri; exact .inr ⟨huri, rfl, hext⟩
      | some e₀ => rw [hl] at huri; exact .inl ⟨e₀, rfl, huri.symm⟩
    · rw [AList.lookup_insert_ne hi] at h
      exact .inl ⟨e, h, rfl⟩
  · rw [if_neg hext] at h
    exact .inl ⟨e, h, rfl⟩

theorem foldl_enable_entries {id : Nat} {extension : URI} {typ : RTPCodecType}
    (exts : List HeaderExtension) : ∀ {negotiated : GoMap Nat HeaderExtension}
      {e : HeaderExtension} {i : Nat},
      (exts.foldl (enable id extension typ) negotiated).lookup i = some e →
      (∃ e₀, negotiated.lookup i = some e₀ ∧ e₀.uri = e.uri) ∨
        (e.uri = extension ∧ i = id ∧ ∃ ext ∈ exts, ext.uri = extension) := by
  induction exts with
  | nil => intro negotiated e i h; exact .inl ⟨e, h, rfl⟩
  | cons ext exts ih =>
    intro negotiated e i h
    rcases ih h with ⟨e₀, h₀, hu⟩ | ⟨hu, hi, x, hx, hxu⟩
    · rcases enable_entries h₀ with ⟨e₁, h₁, hu'⟩ | ⟨hu', hi, hext⟩
      · exact .inl ⟨e₁, h₁, hu'.trans hu⟩
      · exact .inr ⟨hu ▸ hu', hi, ext, mem_cons_self, hext⟩
    · exact .inr ⟨hu, hi, x, mem_cons_of_mem _ hx, hxu⟩

theorem takes_updateHeaderExtension (m : MediaEngine) (id : Nat) (extension : URI)
    (typ : RTPCodecType) :
    Takes (fun u i => u = extension ∧ i = id) m (m.updateHeaderExtension id extension typ) := by
  unfold updateHeaderExtension
  cases hneg : m.negotiatedHeaderExtensions with
  | none => exact .refl _ _
  | some negotiated =>
    refine ⟨rfl, rfl, fun h => h, fun h => h, fun i e hi => ?_⟩
    have hm : m.negotiated = negotiated := by rw [MediaEngine.negotiated, hneg]; rfl
    rw [hm]
    rcases foldl_enable_entries m.headerExtensions hi with hold | ⟨hu, hi, ext, hext, hxu⟩
    · exact .inl hold
    · exact .inr ⟨⟨hu, hi⟩, ext, hext, hxu.trans hu.symm⟩

theorem rtpExtensions_entries {extmap : List (Option (URI × Nat))} {map : GoMap URI Nat}
    (h : rtpExtensionsFromMediaDescription extmap = some map) {u : URI} {i : Nat}
    (hu : map.lookup u = some i) : some (u, i) ∈ extmap := by
  -- from the end: the last attribute is the one that may have set the entry
  unfold rtpExtensionsFromMediaDescription at h
  induction extmap using List.reverseRecOn generalizing map with
  | nil => cases h; cases hu
  | append_singleton extmap attr ih =>
    rw [foldl_append, foldl_cons, foldl_nil] at h
    obtain ⟨before, hbefore, h⟩ := Option.bind_eq_some_iff.mp h
    obtain ⟨⟨v, j⟩, rfl, h⟩ := Option.bind_eq_some_iff.mp h
    cases h
    by_cases hv : u = v
    · subst hv
      rw [AList.lookup_insert] at hu
      cases hu
      exact mem_append_right _ (mem_singleton.mpr rfl)
    · rw [AList.lookup_insert_ne hv] at hu
      exact mem_append_left _ (ih hbefore hu)

theorem takes_updateHeaderExtensionFromMediaSection {m m' : MediaEngine} {media : MediaSection}
    {order : MapOrder} (h : m.updateHeaderExtensionFromMediaSection media order = .ok m') :
    Takes media.pairs m m' := by
  unfold updateHeaderExtensionFromMediaSection at h
  split_ifs at h with hk
  · cases h
    exact .refl _ _
  · cases hext : rtpExtensionsFromMediaDescription media.extmap with
    | none => rw [hext] at h; cases h
    | some map =>
      rw [hext] at h
      cases h
      have hpairs : ∀ u i, (u, i) ∈ map.range order → media.pairs u i := fun u i hu =>
        ⟨hk, rtpExtensions_entries hext (GoMap.mem_range.mp hu)⟩
      -- one update after the other
      generalize map.range order = l at hpairs
      clear hext
      induction l generalizing m with
      | nil => exact .refl _ _
      | cons x l ih =>
        obtain ⟨u, i⟩ := x
        refine Takes.trans ((takes_updateHeaderExtension m i u media.media).mono ?_)
          (ih fun v j hv => hpairs v j (mem_cons_of_mem _ hv))
        rintro v j ⟨rfl, rfl⟩
        exact hpairs v j mem_cons_self

theorem takes_updateFromCodecs (m : MediaEngine) (media : MediaSection) :
    Takes media.pairs m (m.updateFromCodecs media).1 := by
  unfold updateFromCodecs
  cases media.codecs with
  | failed => exact .refl _ _
  | noMatch => exact .refl _ _
  | matched =>
    dsimp only
    cases h : m.updateHeaderExtensionFromMediaSection media media.secondOrder with
    | error e => exact .refl _ _
    | ok m' => exact takes_updateHeaderExtensionFromMediaSection h

theorem takes_updateFromMediaSection (m : MediaEngine) (media : MediaSection) :
    Takes media.pairs m (m.updateFromMediaSection media).1 := by
  unfold updateFromMediaSection
  by_cases ha : m.negotiatedAudio = false ∧ media.media = .audio
  · rw [if_pos ha]
    have hnoted : Takes media.pairs m { m with negotiatedAudio := true } :=
      ⟨rfl, rfl, fun _ => rfl, id, fun _ e h => .inl ⟨e, h, rfl⟩⟩
    exact hnoted.trans (takes_updateFromCodecs _ media)
  · rw [if_neg ha]
    split_ifs with hv
    · have hnoted : Takes media.pairs m { m with negotiatedVideo := true } :=
        ⟨rfl, rfl, id, fun _ => rfl, fun _ e h => .inl ⟨e, h, rfl⟩⟩
      exact hnoted.trans (takes_updateFromCodecs _ media)
    · cases h : m.updateHeaderExtensionFromMediaSection media media.firstOrder with
      | error e => exact .refl _ _
      | ok m' =>
        have htakes := takes_updateHeaderExtensionFromMediaSection h
        dsimp only
        split_ifs with hmulti
        · exact htakes
        · exact htakes.trans (takes_updateFromCodecs m' media)

/-- **What a remote description can do**: take pairs it announces. -/
theorem takes_updateFromRemoteDescription (sections : List MediaSection) : ∀ m : MediaEngine,
    Takes (fun u i => ∃ media ∈ sections, media.pairs u i) m
      (m.updateFromRemoteDescription sections).1 := by
  induction sections with
  | nil => intro m; exact .refl _ _
  | cons media sections ih =>
    intro m
    have hfirst : Takes (fun u i => ∃ s ∈ media :: sections, s.pairs u i) m
        (m.updateFromMediaSection media).1 :=
      (takes_updateFromMediaSection m media).mono fun u i h => ⟨media, mem_cons_self, h⟩
    rw [updateFromRemoteDescription]
    generalize m.updateFromMediaSection media = out at hfirst
    obtain ⟨m', err⟩ := out
    cases err with
    | some e => exact hfirst
    | none =>
      exact hfirst.trans ((ih m').mono fun u i ⟨s, hs, h⟩ =>
        ⟨s, mem_cons_of_mem _ hs, h⟩)

end MediaEngine

/-! ## The invariant -/

/-- One fixed one-to-one assignment of IDs to URIs. -/
structure Assignment where
  idOf : URI → Option Nat
  inj : ∀ {u v i}, idOf u = some i → idOf v = some i → u = v
  range : ∀ {u i}, idOf u = some i → minimumID ≤ i ∧ i ≤ oneByteMaximumID

namespace MediaEngine

open Picker

/-- Both kinds are negotiated: the picker is not consulted any more. -/
def settled (m : MediaEngine) : Prop := m.negotiatedAudio = true ∧ m.negotiatedVideo = true

def pair (m : MediaEngine) (u : URI) (i : Nat) : Prop :=
  ∃ e, m.negotiated.lookup i = some e ∧ e.uri = u

/-- The two tables between the calls of a run. -/
structure EngineInv (σ : Assignment) (m : MediaEngine) : Prop where
  distinct : (m.headerExtensions.map (·.uri)).Nodup
  assigned : ∀ u i, m.pair u i → σ.idOf u = some i
  coherent : ¬m.settled → m.headerExtensionIDs.Coherent
  agrees : ¬m.settled → ∀ u i, m.pair u i → m.headerExtensionIDs.Agrees u i

/-- A remote description that does not contradict the IDs already handed out. -/
def Compatible (m : MediaEngine) (sections : List MediaSection) : Prop :=
  m.settled ∨ ∀ media ∈ sections, ∀ u i, media.pairs u i → m.Registered u →
    m.headerExtensionIDs.Agrees u i

variable {σ : Assignment} {m : MediaEngine} {uri : URI} {l : List HeaderExtension}

theorem EngineInv.oneToOne (h : EngineInv σ m) : OneToOne m.pair := by
  intro u i v j hu hv
  have hi := h.assigned u i hu
  have hj := h.assigned v j hv
  constructor
  · rintro rfl
    exact Option.some.inj (hi.symm.trans hj)
  · rintro rfl
    exact σ.inj hi hj

theorem engineInv_new (σ : Assignment) (multi : Bool) : EngineInv σ (new multi) where
  distinct := nodup_nil
  assigned := by rintro u i ⟨e, h, -⟩; cases h
  coherent _ := coherent_new
  agrees := by rintro - u i ⟨e, h, -⟩; cases h

/-! ### Registration -/

theorem extensionIndex_some : ∀ {l : List HeaderExtension} {i : Nat},
    extensionIndex uri l = some i → (l[i]?).map (·.uri) = some uri := by
  intro l
  induction l with
  | nil => intro i h; cases h
  | cons e es ih =>
    intro i h
    rw [extensionIndex] at h
    cases hes : extensionIndex uri es with
    | some j =>
      rw [hes] at h
      cases h
      exact ih hes
    | none =>
      rw [hes] at h
      dsimp only at h
      by_cases he : e.uri = uri
      · rw [if_pos he] at h
        cases h
        exact congrArg some he
      · rw [if_neg he] at h
        cases h

theorem extensionIndex_none (h : extensionIndex uri l = none) : uri ∉ l.map (·.uri) := by
  induction l with
  | nil => exact not_mem_nil
  | cons e es ih =>
    rw [extensionIndex] at h
    cases hes : extensionIndex uri es with
    | some j => rw [hes] at h; cases h
    | none =>
      rw [hes] at h
      dsimp only at h
      by_cases he : e.uri = uri
      · rw [if_pos he] at h; cases h
      · rw [map_cons, mem_cons]
        rintro (rfl | hmem)
        · exact he rfl
        · exact ih hes hmem

theorem map_uri_modify {typ : RTPCodecType} {dirs : List RTPTransceiverDirection} {i : Nat}
    (h : (l[i]?).map (·.uri) = some uri) :
    (l.modify i (registered uri typ dirs)).map (·.uri) = l.map (·.uri) := by
  refine ext_getElem? fun j => ?_
  rw [getElem?_map, getElem?_map, getElem?_modify]
  by_cases hij : i = j
  · subst hij
    cases hl : l[i]? with
    | none => simp
    | some e =>
      rw [hl] at h
      simpa [registered] using h.symm
  · simp [hij]

theorem registerHeaderExtension_fields (m : MediaEngine) (uri : URI) (typ : RTPCodecType)
    (dirs : List RTPTransceiverDirection) :
    let m' := (m.registerHeaderExtension uri typ dirs).1
    m'.negotiated = m.negotiated ∧ m'.headerExtensionIDs = m.headerExtensionIDs ∧
      m'.negotiatedAudio = m.negotiatedAudio ∧ m'.negotiatedVideo = m.negotiatedVideo := by
  intro m'
  simp only [m', registerHeaderExtension]
  split_ifs <;> exact ⟨rfl, rfl, rfl, rfl⟩

theorem registerHeaderExtension_distinct (h : (m.headerExtensions.map (·.uri)).Nodup) (uri : URI)
    (typ : RTPCodecType) (dirs : List RTPTransceiverDirection) :
    ((m.registerHeaderExtension uri typ dirs).1.headerExtensions.map (·.uri)).Nodup := by
  unfold registerHeaderExtension
  dsimp only
  generalize (if dirs.length = 0 then _ else dirs : List RTPTransceiverDirection) = dirs
  split_ifs with hdir
  · exact h
  · cases hidx : extensionIndex uri m.headerExtensions with
    | some i =>
      show ((m.headerExtensions.modify i (registered uri typ dirs)).map (·.uri)).Nodup
      rw [map_uri_modify (extensionIndex_some hidx)]
      exact h
    | none =>
      show ((m.headerExtensions ++ [registered uri typ dirs _]).map (·.uri)).Nodup
      rw [map_append]
      refine nodup_append.mpr ⟨h, nodup_singleton _, ?_⟩
      rintro u hu v hv rfl
      obtain rfl : u = uri := mem_singleton.mp hv
      exact extensionIndex_none hidx hu

theorem EngineInv.register (h : EngineInv σ m) (uri : URI) (typ : RTPCodecType)
    (dirs : List RTPTransceiverDirection) :
    EngineInv σ (m.registerHeaderExtension uri typ dirs).1 := by
  obtain ⟨hneg, hids, ha, hv⟩ := registerHeaderExtension_fields m uri typ dirs
  have hdistinct := registerHeaderExtension_distinct h.distinct uri typ dirs
  generalize (m.registerHeaderExtension uri typ dirs).1 = m' at hneg hids ha hv hdistinct
  have hpair : m'.pair = m.pair := by unfold pair; rw [hneg]
  have hsettled : m'.settled ↔ m.settled := by rw [settled, settled, ha, hv]
  exact
    { distinct := hdistinct
      assigned := by rw [hpair]; exact h.assigned
      coherent := by rw [hids, hsettled]; exact h.coherent
      agrees := by rw [hids, hpair, hsettled]; exact h.agrees }

/-! ### Remote descriptions -/

theorem EngineInv.takes {m' : MediaEngine} (h : EngineInv σ m) {S : URI → Nat → Prop}
    (ht : Takes S m m') (hS : ∀ u i, S u i → σ.idOf u = some i)
    (hc : m.settled ∨ ∀ u i, S u i → m.Registered u → m.headerExtensionIDs.Agrees u i) :
    EngineInv σ m' := by
  have hpair : ∀ u i, m'.pair u i → m.pair u i ∨ (S u i ∧ m.Registered u) := by
    rintro u i ⟨e, he, rfl⟩
    rcases ht.entries i e he with ⟨e₀, h₀, hu⟩ | hnew
    · exact .inl ⟨e₀, h₀, hu⟩
    · exact .inr hnew
  have hsettled : m.settled → m'.settled := fun hs => ⟨ht.audio hs.1, ht.video hs.2⟩
  refine
    { distinct := by rw [ht.extensions]; exact h.distinct
      assigned := fun u i hu => ?_
      coherent := fun hs => by rw [ht.picker]; exact h.coherent (hs ∘ hsettled)
      agrees := fun hs u i hu => ?_ }
  · rcases hpair u i hu with hold | ⟨hnew, -⟩
    · exact h.assigned u i hold
    · exact hS u i hnew
  · rw [ht.picker]
    rcases hpair u i hu with hold | ⟨hnew, hreg⟩
    · exact h.agrees (hs ∘ hsettled) u i hold
    · rcases hc with hc | hc
      · exact absurd (hsettled hc) hs
      · exact hc u i hnew hreg

/-! ### Returned lists -/

/-- A returned list against the negotiated table: distinct IDs, distinct URIs,
and each pair has the URI of a negotiated pair exactly when it has its ID. -/
structure Consistent (m : MediaEngine) (l : List HeaderExtensionParameter) : Prop where
  ids : (l.map (·.id)).Nodup
  uris : (l.map (·.uri)).Nodup
  negotiated : ∀ x ∈ l, ∀ i e, m.negotiated.lookup i = some e → (e.uri = x.uri ↔ i = x.id)

theorem Consistent.perm {l l' : List HeaderExtensionParameter} (h : Consistent m l)
    (hp : l'.Perm l) :
    Consistent m l' where
  ids := (hp.map _).nodup_iff.mpr h.ids
  uris := (hp.map _).nodup_iff.mpr h.uris
  negotiated x hx := h.negotiated x (hp.mem_iff.mp hx)

theorem EngineInv.consistent_negotiated (h : EngineInv σ m) (order : MapOrder)
    (p : Nat × HeaderExtension → Bool) :
    Consistent m (((m.negotiated.range order).filter p).map fun x => ⟨x.1, x.2.uri⟩) := by
  have hmem : ∀ x ∈ ((m.negotiated.range order).filter p).map
      (fun x => (⟨x.1, x.2.uri⟩ : HeaderExtensionParameter)), m.pair x.uri x.id := by
    intro x hx
    obtain ⟨⟨i, e⟩, he, rfl⟩ := mem_map.mp hx
    exact ⟨e, GoMap.mem_range.mp (mem_filter.mp he).1, rfl⟩
  have hids : ((((m.negotiated.range order).filter p).map
      fun x => (⟨x.1, x.2.uri⟩ : HeaderExtensionParameter)).map (·.id)).Nodup := by
    rw [map_map]
    exact (GoMap.nodup_keys_range m.negotiated order).sublist (filter_sublist.map _)
  refine ⟨hids, ?_, ?_⟩
  · refine List.Nodup.map_on ?_ hids.of_map
    intro x hx y hy hxy
    obtain ⟨i, u⟩ := x
    obtain ⟨j, v⟩ := y
    have hij := (h.oneToOne (hmem _ hx) (hmem _ hy)).mp hxy
    dsimp only at hij hxy
    rw [hij, hxy]
  · intro x hx i e he
    exact h.oneToOne ⟨e, he, rfl⟩ (hmem x hx)

theorem Suggested.consistent (h : EngineInv σ m) {p : Picker}
    (hp : ∀ u i, m.pair u i → p.idsByURI u = some i) {out : List HeaderExtensionParameter × Picker}
    (hs : Suggested p m.headerExtensions out) : Consistent m out.1 := by
  have huris : (out.1.map (·.uri)).Nodup := h.distinct.sublist hs.uris
  refine ⟨List.Nodup.map_on ?_ huris.of_map, huris, ?_⟩
  · intro x hx y hy hxy
    obtain ⟨i, u⟩ := x
    obtain ⟨j, v⟩ := y
    dsimp only at hxy
    subst hxy
    have huv : u = v := hs.coherent.inj (hs.stored _ hx) (hs.stored _ hy)
    rw [huv]
  · intro x hx i e he
    have hpair := hs.grown _ _ (hp e.uri i ⟨e, he, rfl⟩)
    exact ((hs.coherent.agrees (hs.stored x hx)) _ _ hpair)

theorem suggestAll_unknown (dirs : List RTPTransceiverDirection) (exts : List HeaderExtension)
    (p : Picker) : suggestAll .unknown dirs exts p = ([], p) := by
  induction exts with
  | nil => rfl
  | cons e exts ih =>
    rw [suggestAll, if_neg (by simp [applies]), ih]

/-- **One call**: the list is consistent and the invariant is kept. -/
theorem EngineInv.parameters (h : EngineInv σ m) (typ : RTPCodecType)
    (dirs : List RTPTransceiverDirection) (order : MapOrder) :
    Consistent m (m.getRTPParametersByKind typ dirs order).1 ∧
      EngineInv σ (m.getRTPParametersByKind typ dirs order).2 := by
  unfold getRTPParametersByKind
  split_ifs with hkind
  · exact ⟨(h.consistent_negotiated order _).perm (perm_insertionSort _ _), h⟩
  · dsimp only
    by_cases hsettled : m.settled
    · -- both kinds are negotiated, so this is neither of them
      have htyp : typ = .unknown := by
        cases typ with
        | unknown => rfl
        | audio => exact absurd (by simp [negotiatedKind, hsettled.1]) hkind
        | video => exact absurd (by simp [negotiatedKind, hsettled.2]) hkind
      subst htyp
      rw [suggestAll_unknown]
      refine ⟨⟨nodup_nil, nodup_nil, fun x hx => (nomatch hx)⟩, ?_⟩
      exact ⟨h.distinct, h.assigned, fun hs => absurd hsettled hs, fun hs => absurd hsettled hs⟩
    · obtain ⟨hcoh, -, -, hmem⟩ := reserveAll_spec h.oneToOne (m.negotiated.range order)
        (fun i e he => ⟨e, GoMap.mem_range.mp he, rfl⟩) m.headerExtensionIDs
        (h.coherent hsettled) (h.agrees hsettled)
      have hreserved : ∀ u i, m.pair u i →
          (reserveAll (m.negotiated.range order) m.headerExtensionIDs).idsByURI u = some i := by
        rintro u i ⟨e, he, rfl⟩
        exact hmem i e (GoMap.mem_range.mpr he)
      have hs := suggestAll_spec typ dirs m.headerExtensions _ hcoh
      refine ⟨(hs.consistent h hreserved).perm (perm_insertionSort _ _), ?_⟩
      exact
        { distinct := h.distinct
          assigned := h.assigned
          coherent := fun _ => hs.coherent
          agrees := fun _ u i hu => hs.coherent.agrees (hs.grown _ _ (hreserved u i hu)) }

/-! ## Whole runs -/

/-- The engines some run reaches: registrations, remote descriptions that use
the assignment `σ` and meet `ok`, and calls of `getRTPParametersByKind`. -/
inductive Reaches (σ : Assignment) (ok : MediaEngine → List MediaSection → Prop) :
    MediaEngine → Prop
  | new (multi : Bool) : Reaches σ ok (new multi)
  | register {m : MediaEngine} (h : Reaches σ ok m) (uri : URI) (typ : RTPCodecType)
      (dirs : List RTPTransceiverDirection) :
      Reaches σ ok (m.registerHeaderExtension uri typ dirs).1
  | remote {m : MediaEngine} (h : Reaches σ ok m) (sections : List MediaSection)
      (uses : ∀ media ∈ sections, ∀ u i, some (u, i) ∈ media.extmap → σ.idOf u = some i)
      (meets : ok m sections) : Reaches σ ok (m.updateFromRemoteDescription sections).1
  | parameters {m : MediaEngine} (h : Reaches σ ok m) (typ : RTPCodecType)
      (dirs : List RTPTransceiverDirection) (order : MapOrder) :
      Reaches σ ok (m.getRTPParametersByKind typ dirs order).2

theorem Reaches.inv (h : Reaches σ Compatible m) : EngineInv σ m := by
  induction h with
  | new multi => exact engineInv_new σ multi
  | register _ uri typ dirs ih => exact ih.register uri typ dirs
  | remote _ sections uses meets ih =>
    refine ih.takes (takes_updateFromRemoteDescription sections _) ?_ (meets.imp id ?_)
    · rintro u i ⟨media, hmedia, -, hu⟩
      exact uses media hmedia u i hu
    · rintro hall u i ⟨media, hmedia, hu⟩
      exact hall media hmedia u i hu
  | parameters _ typ dirs order ih => exact (ih.parameters typ dirs order).2

/-- **Header extension IDs stay consistent** in every run whose remote
descriptions do not contradict the IDs already handed out. -/
theorem header_extension_ids_consistent (σ : Assignment) {m : MediaEngine}
    (h : Reaches σ Compatible m) (typ : RTPCodecType) (dirs : List RTPTransceiverDirection)
    (order : MapOrder) : Consistent m (m.getRTPParametersByKind typ dirs order).1 :=
  (h.inv.parameters typ dirs order).1

/-! ### A description that contradicts the memory -/

/-- The audio level under ID 1 and the transmission offset under ID 2. -/
def audioFirst : Assignment where
  idOf u := if u = ssrcAudioLevel then some 1 else if u = toffset then some 2 else none
  inj := by
    intro u v i hu hv
    split_ifs at hu hv with h₁ h₂ h₃ h₄ h₅ h₆ <;> cases hu <;> cases hv
    · rw [h₁, h₂]
    · rw [h₄, h₆]
  range := by
    intro u i hu
    split_ifs at hu <;> cases hu <;> decide

def audioLevelSection : MediaSection :=
  ⟨.audio, [some (ssrcAudioLevel, 1)], .matched, .stored, .stored⟩

/-- An engine with one audio and one video extension. -/
def twoExtensions : MediaEngine :=
  (((new false).registerHeaderExtension toffset .video []).1.registerHeaderExtension
    ssrcAudioLevel .audio []).1

/-- A video offer, then a remote audio description. -/
def afterGlare : MediaEngine :=
  ((twoExtensions.getRTPParametersByKind .video [.sendonly] .stored).2.updateFromRemoteDescription
    [audioLevelSection]).1

theorem audioLevelSection_uses : ∀ media ∈ [audioLevelSection], ∀ u i,
    some (u, i) ∈ media.extmap → audioFirst.idOf u = some i := by
  intro media hmedia u i hu
  rw [mem_singleton.mp hmedia] at hu
  obtain ⟨rfl, rfl⟩ : u = ssrcAudioLevel ∧ i = 1 := by simpa [audioLevelSection] using hu
  rfl

theorem twoExtensions_reached (ok : MediaEngine → List MediaSection → Prop) :
    Reaches audioFirst ok twoExtensions :=
  .register (.register (.new false) toffset .video []) ssrcAudioLevel .audio []

/-- Without the video offer before it, the same description is compatible. -/
theorem header_extension_ids_consistent_audio_first :
    Consistent (twoExtensions.updateFromRemoteDescription [audioLevelSection]).1
      ((twoExtensions.updateFromRemoteDescription [audioLevelSection]).1.getRTPParametersByKind
        .video [.sendonly] .stored).1 := by
  refine header_extension_ids_consistent audioFirst ?_ .video [.sendonly] .stored
  refine .remote (twoExtensions_reached _) _ audioLevelSection_uses (.inr ?_)
  -- nothing has been handed out yet
  intro media _ u i _ _ v j hv
  cases hv

/-- **A description that gives an ID the picker has handed out to another URI is
accepted**: the next video list has the offset under ID 1, which is negotiated
for the audio level. -/
theorem header_extension_id_negotiated_for_another_uri :
    Reaches audioFirst (fun _ _ => True) afterGlare ∧
      (afterGlare.getRTPParametersByKind .video [.sendonly] .stored).1 = [⟨1, toffset⟩] ∧
      (afterGlare.negotiated.lookup 1).map (·.uri) = some ssrcAudioLevel ∧
      ¬Consistent afterGlare (afterGlare.getRTPParametersByKind .video [.sendonly] .stored).1 := by
  have hlist : (afterGlare.getRTPParametersByKind .video [.sendonly] .stored).1
      = [⟨1, toffset⟩] := by rfl
  have hneg : afterGlare.negotiated.lookup 1
      = some ⟨ssrcAudioLevel, true, false, [.recvonly, .sendonly]⟩ := by rfl
  refine ⟨.remote (.parameters (twoExtensions_reached _) _ _ _) _ audioLevelSection_uses trivial,
    hlist, by rw [hneg]; rfl, ?_⟩
  intro h
  rw [hlist] at h
  have huri := (h.negotiated _ (mem_singleton.mpr rfl) 1 _ hneg).mpr rfl
  exact absurd huri (by decide)

end MediaEngine

end HeadlessClient.WebRTC
