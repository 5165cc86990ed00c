import HeadlessClient.Base.Bytes

/-!
# WebRTC — RTP header extension IDs

`internal/rtpext`: Chrome's tables of header extensions and the `Picker`, which
hands out one-byte extension IDs and remembers them. Its two maps are only ever
read by key, so they are functions here; a nil map reads as the empty one.

`Coherent` is what the memory is for: no ID belongs to two URIs. `Suggest`
always keeps it; `Reserve` keeps it for a pair the memory does not CONTRADICT
(`Agrees`). `Reserve` does not check that, and neither overwrites nor reports a
contradiction. `suggest_runs` is about a picker that is only asked.
-/

namespace HeadlessClient.WebRTC

open Base List

/-- A header extension URI, as bytes: Go compares strings bytewise. -/
abbrev URI := Bytes

/-! ## Chrome's tables -/

def minimumID : Nat := 1
def oneByteMaximumID : Nat := 14

structure CanonicalExtension where
  uri : URI
  preferredID : Nat
  offered : Bool

def toffset : URI := ascii "urn:ietf:params:rtp-hdrext:toffset"
def absSendTime : URI := ascii "http://www.webrtc.org/experiments/rtp-hdrext/abs-send-time"
def transportWideCC : URI :=
  ascii "http://www.ietf.org/id/draft-holmer-rmcat-transport-wide-cc-extensions-01"
def sdesMid : URI := ascii "urn:ietf:params:rtp-hdrext:sdes:mid"
def absCaptureTime : URI := ascii "http://www.webrtc.org/experiments/rtp-hdrext/abs-capture-time"
def ssrcAudioLevel : URI := ascii "urn:ietf:params:rtp-hdrext:ssrc-audio-level"

def videoCanonicalExtensions : List CanonicalExtension :=
  [⟨toffset, 1, true⟩, ⟨absSendTime, 2, true⟩, ⟨ascii "urn:3gpp:video-orientation", 3, true⟩,
   ⟨transportWideCC, 4, true⟩,
   ⟨ascii "http://www.webrtc.org/experiments/rtp-hdrext/playout-delay", 5, true⟩,
   ⟨ascii "http://www.webrtc.org/experiments/rtp-hdrext/video-content-type", 6, true⟩,
   ⟨ascii "http://www.webrtc.org/experiments/rtp-hdrext/video-timing", 7, true⟩,
   ⟨ascii "http://www.webrtc.org/experiments/rtp-hdrext/color-space", 8, true⟩, ⟨sdesMid, 9, true⟩,
   ⟨ascii "urn:ietf:params:rtp-hdrext:sdes:rtp-stream-id", 10, true⟩,
   ⟨ascii "urn:ietf:params:rtp-hdrext:sdes:repaired-rtp-stream-id", 11, true⟩,
   ⟨ascii "http://www.webrtc.org/experiments/rtp-hdrext/corruption-detection", 12, false⟩,
   ⟨absCaptureTime, 13, false⟩,
   ⟨ascii "http://www.webrtc.org/experiments/rtp-hdrext/generic-frame-descriptor-00", 13, false⟩,
   ⟨ascii "https://aomediacodec.github.io/av1-rtp-spec/#dependency-descriptor-rtp-header-extension",
     13, true⟩,
   ⟨ascii "http://www.webrtc.org/experiments/rtp-hdrext/video-layers-allocation00", 13, true⟩]

def audioCanonicalExtensions : List CanonicalExtension :=
  [⟨ssrcAudioLevel, 1, true⟩, ⟨absSendTime, 2, true⟩, ⟨transportWideCC, 3, true⟩,
   ⟨sdesMid, 4, true⟩, ⟨absCaptureTime, 5, false⟩]

def canonicalExtensionsFor (video : Bool) : List CanonicalExtension :=
  if video then videoCanonicalExtensions else audioCanonicalExtensions

/-- `PreferredID`: `0` for a URI the table does not have. -/
def preferredID (uri : URI) (video : Bool) : Nat :=
  match (canonicalExtensionsFor video).find? (·.uri = uri) with
  | some extension => extension.preferredID
  | none => 0

/-- `CanonicalPosition`; `none` is `unknownCanonicalPos`. -/
def canonicalPosition (uri : URI) (video : Bool) : Option Nat :=
  (canonicalExtensionsFor video).findIdx? (·.uri = uri)

/-! ## The picker -/

structure Picker where
  idsByURI : URI → Option Nat
  identifierSeen : Nat → Bool

namespace Picker

/-- The zero value. -/
def new : Picker := ⟨fun _ => none, fun _ => false⟩

/-- `Reserve` and `reserveLocked`. An ID the URI already has is kept. -/
def reserve (p : Picker) (uri : URI) (identifier : Nat) : Picker where
  idsByURI u := if u = uri ∧ p.idsByURI uri = none then some identifier else p.idsByURI u
  identifierSeen i := if i = identifier then true else p.identifierSeen i

/-- The loop from `oneByteMaximumID` down to `minimumID`; `0` if every ID is seen. -/
def lastFree (seen : Nat → Bool) : Nat → Nat
  | 0 => 0
  | i + 1 => if seen (i + 1) = false then i + 1 else lastFree seen i

/-- The caller's ID is one that can be handed out and nobody has it. -/
def Grantable (p : Picker) (preferredID : Int) : Prop :=
  minimumID ≤ preferredID ∧ preferredID ≤ oneByteMaximumID ∧
    p.identifierSeen preferredID.toNat = false

instance (p : Picker) (preferredID : Int) : Decidable (p.Grantable preferredID) :=
  inferInstanceAs (Decidable (_ ∧ _ ∧ _))

/-- `Suggest`. An ID that is handed out is not negative. -/
def suggest (p : Picker) (uri : URI) (preferredID : Int) : Nat × Picker :=
  match p.idsByURI uri with
  | some identifier => (identifier, p)
  | none =>
    if p.Grantable preferredID then
      (preferredID.toNat, p.reserve uri preferredID.toNat)
    else
      let identifier := lastFree p.identifierSeen oneByteMaximumID
      if identifier = 0 then (0, p) else (identifier, p.reserve uri identifier)

/-! ## What the memory guarantees -/

/-- No ID belongs to two URIs, and an ID that was handed out counts as seen. -/
structure Coherent (p : Picker) : Prop where
  inj : ∀ {u v i}, p.idsByURI u = some i → p.idsByURI v = some i → u = v
  seen : ∀ {u i}, p.idsByURI u = some i → p.identifierSeen i = true

/-- The memory does not contradict `uri` having the ID `identifier`. -/
def Agrees (p : Picker) (uri : URI) (identifier : Nat) : Prop :=
  ∀ u i, p.idsByURI u = some i → (u = uri ↔ i = identifier)

theorem coherent_new : new.Coherent where
  inj hu _ := by cases hu
  seen hu := by cases hu

theorem reserve_idsByURI (p : Picker) (uri : URI) (identifier : Nat) (u : URI) :
    (p.reserve uri identifier).idsByURI u =
      if u = uri ∧ p.idsByURI uri = none then some identifier else p.idsByURI u := rfl

variable {p : Picker} {uri : URI} {identifier i : Nat} {preferred : Int}
  {history : List (URI × Nat)}

theorem reserve_cases {u : URI} (h : (p.reserve uri identifier).idsByURI u = some i) :
    p.idsByURI u = some i ∨ (u = uri ∧ i = identifier ∧ p.idsByURI uri = none) := by
  rw [reserve_idsByURI] at h
  split_ifs at h with hnew
  · exact .inr ⟨hnew.1, (Option.some.inj h).symm, hnew.2⟩
  · exact .inl h

theorem reserve_seen (h : p.identifierSeen i = true) :
    (p.reserve uri identifier).identifierSeen i = true := by
  show (if i = identifier then true else p.identifierSeen i) = true
  by_cases hi : i = identifier
  · rw [if_pos hi]
  · rw [if_neg hi, h]

theorem reserve_seen_self (p : Picker) (uri : URI) (identifier : Nat) :
    (p.reserve uri identifier).identifierSeen identifier = true :=
  if_pos rfl

theorem Coherent.reserve (h : p.Coherent) (ha : p.Agrees uri identifier) :
    (p.reserve uri identifier).Coherent where
  inj := by
    intro u v i hu hv
    rcases reserve_cases hu with hu' | ⟨hu', hi, -⟩
    · rcases reserve_cases hv with hv' | ⟨hv', hi, -⟩
      · exact h.inj hu' hv'
      · rw [hv']
        exact (ha _ _ hu').mpr hi
    · rcases reserve_cases hv with hv' | ⟨hv', -, -⟩
      · rw [hu']
        exact ((ha _ _ hv').mpr hi).symm
      · rw [hu', hv']
  seen := by
    intro u i hu
    rcases reserve_cases hu with hu | ⟨-, rfl, -⟩
    · exact reserve_seen (h.seen hu)
    · exact reserve_seen_self p uri _

theorem lastFree_spec (seen : Nat → Bool) (n : Nat) (h : lastFree seen n ≠ 0) :
    lastFree seen n ≤ n ∧ seen (lastFree seen n) = false := by
  induction n with
  | zero => exact absurd rfl h
  | succ n ih =>
    rw [lastFree] at h ⊢
    by_cases hfree : seen (n + 1) = false
    · rw [if_pos hfree]
      exact ⟨Nat.le_refl _, hfree⟩
    · rw [if_neg hfree] at h ⊢
      obtain ⟨hle, hseen⟩ := ih h
      exact ⟨Nat.le_succ_of_le hle, hseen⟩

theorem le_lastFree {seen : Nat → Bool} {n : Nat} (hi : i ≤ n) (hfree : seen i = false) :
    i ≤ lastFree seen n := by
  induction n with
  | zero => exact hi
  | succ n ih =>
    rw [lastFree]
    split_ifs with hlast
    · exact hi
    · have hne : i ≠ n + 1 := by
        rintro rfl
        exact hlast hfree
      exact ih (by omega)

/-- `i` is what a URI without an ID is given: the caller's ID if it can be
granted, and else the highest free one. -/
structure Grants (p : Picker) (preferred : Int) (i : Nat) : Prop where
  ne_zero : i ≠ 0
  le : i ≤ oneByteMaximumID
  fresh : p.identifierSeen i = false
  granted : p.Grantable preferred → (i : Int) = preferred
  highest : ¬p.Grantable preferred → ∀ j ≤ oneByteMaximumID, p.identifierSeen j = false → j ≤ i

theorem Grantable.grants (h : p.Grantable preferred) : p.Grants preferred preferred.toNat := by
  have hmin : ((1 : Nat) : Int) ≤ preferred := h.1
  have hmax : preferred ≤ ((14 : Nat) : Int) := h.2.1
  refine ⟨by omega, ?_, h.2.2, fun _ => by omega, fun hnot => absurd h hnot⟩
  show preferred.toNat ≤ 14
  omega

theorem grants_lastFree (hnot : ¬p.Grantable preferred)
    (hfree : lastFree p.identifierSeen oneByteMaximumID ≠ 0) :
    p.Grants preferred (lastFree p.identifierSeen oneByteMaximumID) := by
  obtain ⟨hle, hfresh⟩ := lastFree_spec _ _ hfree
  exact ⟨hfree, hle, hfresh, fun h => absurd h hnot, fun _ j hj hjfree => le_lastFree hj hjfree⟩

/-- **What a suggestion does**: it repeats the ID the URI has, grants one that
was not seen before, or gives up with `0` because every ID was seen. -/
theorem suggest_cases (p : Picker) (uri : URI) (preferred : Int) :
    (∃ i, p.idsByURI uri = some i ∧ p.suggest uri preferred = (i, p)) ∨
    (∃ i, p.idsByURI uri = none ∧ p.Grants preferred i ∧
      p.suggest uri preferred = (i, p.reserve uri i)) ∨
    (p.idsByURI uri = none ∧
      (∀ i, minimumID ≤ i → i ≤ oneByteMaximumID → p.identifierSeen i = true) ∧
      p.suggest uri preferred = (0, p)) := by
  unfold suggest
  cases hu : p.idsByURI uri with
  | some i => exact .inl ⟨i, rfl, rfl⟩
  | none =>
    right
    dsimp only
    by_cases hpref : p.Grantable preferred
    · rw [if_pos hpref]
      exact .inl ⟨_, rfl, hpref.grants, rfl⟩
    · rw [if_neg hpref]
      split_ifs with hfree
      · refine .inr ⟨rfl, fun i hmin hmax => ?_, rfl⟩
        cases hseen : p.identifierSeen i with
        | true => rfl
        | false =>
          have hle := le_lastFree hmax hseen
          unfold minimumID at hmin
          omega
      · exact .inl ⟨_, rfl, grants_lastFree hpref hfree, rfl⟩

theorem Coherent.agrees_fresh (h : p.Coherent) (hnone : p.idsByURI uri = none)
    (hfresh : p.identifierSeen i = false) : p.Agrees uri i := by
  intro u j hu
  constructor
  · rintro rfl
    rw [hnone] at hu
    cases hu
  · rintro rfl
    rw [h.seen hu] at hfresh
    cases hfresh

/-! ## Runs of suggestions

What callers see of a picker is the list of its answers. `Answers` says when an
answer is right, given the answers before it; the picker's two maps are not
mentioned. -/

/-- The answers to a sequence of `Suggest` calls, each with the URI it is for. -/
def answers (p : Picker) : List (URI × Int) → List (URI × Nat)
  | [] => []
  | (uri, preferredID) :: calls =>
    let (identifier, p) := p.suggest uri preferredID
    (uri, identifier) :: p.answers calls

@[simp] theorem answers_nil (p : Picker) : p.answers [] = [] := rfl

@[simp] theorem answers_cons (p : Picker) (uri : URI) (preferred : Int) (calls : List (URI × Int)) :
    p.answers ((uri, preferred) :: calls) =
      (uri, (p.suggest uri preferred).1) :: (p.suggest uri preferred).2.answers calls := rfl

def Given (history : List (URI × Nat)) (uri : URI) (identifier : Nat) : Prop :=
  identifier ≠ 0 ∧ (uri, identifier) ∈ history

def Used (history : List (URI × Nat)) (identifier : Nat) : Prop :=
  ∃ uri, Given history uri identifier

def InRange (identifier : Int) : Prop := minimumID ≤ identifier ∧ identifier ≤ oneByteMaximumID

/-- `identifier` is the right answer to `Suggest(uri, preferredID)` after `history`. -/
structure Answers (history : List (URI × Nat)) (uri : URI) (preferredID : Int) (identifier : Nat) :
    Prop where
  repeats : ∀ i, Given history uri i → identifier = i
  grants : (∀ i, ¬Given history uri i) → InRange preferredID → ¬Used history preferredID.toNat →
    (identifier : Int) = preferredID
  highest : (∀ i, ¬Given history uri i) → ¬(InRange preferredID ∧ ¬Used history preferredID.toNat) →
    ∀ i : Nat, InRange i → ¬Used history i →
      InRange identifier ∧ ¬Used history identifier ∧ i ≤ identifier
  exhausted : identifier = 0 ↔ (∀ i, ¬Given history uri i) ∧ ∀ i : Nat, InRange i → Used history i

/-- The picker's maps hold what its answers have been. -/
structure Records (history : List (URI × Nat)) (p : Picker) : Prop where
  given : ∀ u i, p.idsByURI u = some i ↔ Given history u i
  used : ∀ i, p.identifierSeen i = true ↔ Used history i
  one_to_one : ∀ u v i, Given history u i → Given history v i → u = v
  in_range : ∀ u i, Given history u i → InRange i

section Step

variable {history : List (URI × Nat)} {p : Picker} (h : Records history p)
include h

theorem Records.none_iff {u : URI} : p.idsByURI u = none ↔ ∀ i, ¬Given history u i := by
  constructor
  · intro hnone i hgiven
    rw [(h.given u i).mpr hgiven] at hnone
    cases hnone
  · intro hnot
    cases hu : p.idsByURI u with
    | none => rfl
    | some i => exact absurd ((h.given u i).mp hu) (hnot i)

theorem Records.unseen_iff : p.identifierSeen i = false ↔ ¬Used history i := by
  rw [← h.used i, Bool.not_eq_true]

theorem Records.grantable_iff :
    p.Grantable preferred ↔ InRange preferred ∧ ¬Used history preferred.toNat := by
  rw [Grantable, InRange, h.unseen_iff, and_assoc]

/-- **One call is answered rightly.** -/
theorem Records.answers (uri : URI) (preferred : Int) :
    Answers history uri preferred (p.suggest uri preferred).1 := by
  rcases p.suggest_cases uri preferred with ⟨i, hi, hsug⟩ | ⟨i, hnone, hgrants, hsug⟩ |
    ⟨hnone, hall, hsug⟩
  · -- the URI has the ID `i`
    have hgiven := (h.given uri i).mp hi
    rw [hsug]
    refine ⟨fun j hj => ?_, fun hnot => absurd hgiven (hnot i), fun hnot => absurd hgiven (hnot i),
      fun h0 => absurd h0 hgiven.1, fun hnot => absurd hgiven (hnot.1 i)⟩
    have hj' := (h.given uri j).mpr hj
    rw [hi] at hj'
    exact Option.some.inj hj'
  · have hnot := h.none_iff.mp hnone
    have hunused := h.unseen_iff.mp hgrants.fresh
    have hrange : InRange i := by
      have hpos := hgrants.ne_zero
      have hle := hgrants.le
      exact ⟨by unfold minimumID; omega, by omega⟩
    rw [hsug]
    refine ⟨fun j hj => absurd hj (hnot j), fun _ hin hfree => ?_, fun _ hdenied j hj hjfree => ?_,
      fun h0 => absurd h0 hgrants.ne_zero, fun hex => absurd (hex.2 i hrange) hunused⟩
    · exact hgrants.granted (h.grantable_iff.mpr ⟨hin, hfree⟩)
    · refine ⟨hrange, hunused, hgrants.highest (fun hg => hdenied (h.grantable_iff.mp hg)) j ?_
        (h.unseen_iff.mpr hjfree)⟩
      exact Int.ofNat_le.mp hj.2
  · have hnot := h.none_iff.mp hnone
    have hused : ∀ i : Nat, InRange i → Used history i := fun i hi =>
      (h.used i).mp (hall i (Int.ofNat_le.mp hi.1) (Int.ofNat_le.mp hi.2))
    rw [hsug]
    refine ⟨fun j hj => absurd hj (hnot j), fun _ hin hfree => ?_,
      fun _ _ j hj hjfree => absurd (hused j hj) hjfree, fun _ => ⟨hnot, hused⟩, fun _ => rfl⟩
    -- a preferred ID in range has been seen
    have hin' : InRange preferred.toNat := by
      unfold InRange minimumID at hin ⊢
      omega
    exact absurd (hused _ hin') hfree

end Step

theorem given_append {u : URI} :
    Given (history ++ [(uri, identifier)]) u i ↔
      Given history u i ∨ (i ≠ 0 ∧ u = uri ∧ i = identifier) := by
  unfold Given
  rw [mem_append, mem_singleton, Prod.mk.injEq, and_or_left]

theorem Records.repeat (h : Records history p)
    (hold : identifier ≠ 0 → Given history uri identifier) :
    Records (history ++ [(uri, identifier)]) p := by
  have hsame : ∀ u i, Given (history ++ [(uri, identifier)]) u i ↔ Given history u i := by
    intro u i
    rw [given_append]
    constructor
    · rintro (hgiven | ⟨hne, rfl, rfl⟩)
      · exact hgiven
      · exact hold hne
    · exact .inl
  refine ⟨fun u i => (h.given u i).trans (hsame u i).symm, fun i => (h.used i).trans ?_, ?_, ?_⟩
  · exact exists_congr fun u => (hsame u i).symm
  · intro u v i hu hv
    exact h.one_to_one u v i ((hsame u i).mp hu) ((hsame v i).mp hv)
  · intro u i hu
    exact h.in_range u i ((hsame u i).mp hu)

theorem Records.grant (h : Records history p) (hnone : p.idsByURI uri = none)
    (hgrants : p.Grants preferred i) : Records (history ++ [(uri, i)]) (p.reserve uri i) := by
  have hunused := h.unseen_iff.mp hgrants.fresh
  have hnot := h.none_iff.mp hnone
  refine ⟨fun u j => ?_, fun j => ?_, ?_, ?_⟩
  · rw [reserve_idsByURI, given_append]
    by_cases hu : u = uri
    · subst hu
      rw [if_pos ⟨rfl, hnone⟩, Option.some.injEq]
      constructor
      · rintro rfl
        exact .inr ⟨hgrants.ne_zero, rfl, rfl⟩
      · rintro (hgiven | ⟨-, -, rfl⟩)
        · exact absurd hgiven (hnot j)
        · rfl
    · rw [if_neg fun hand => hu hand.1, h.given]
      constructor
      · exact .inl
      · rintro (hgiven | ⟨-, heq, -⟩)
        · exact hgiven
        · exact absurd heq hu
  · constructor
    · intro hseen
      change (if j = i then true else p.identifierSeen j) = true at hseen
      by_cases hj : j = i
      · exact ⟨uri, given_append.mpr (.inr ⟨hj ▸ hgrants.ne_zero, rfl, hj⟩)⟩
      · rw [if_neg hj] at hseen
        obtain ⟨u, hu⟩ := (h.used j).mp hseen
        exact ⟨u, given_append.mpr (.inl hu)⟩
    · rintro ⟨u, hu⟩
      rcases given_append.mp hu with hold | ⟨-, -, rfl⟩
      · exact reserve_seen ((h.used j).mpr ⟨u, hold⟩)
      · exact reserve_seen_self p uri j
  · intro u v j hu hv
    rcases given_append.mp hu with hu | ⟨-, rfl, hj⟩
    · rcases given_append.mp hv with hv | ⟨-, -, hj⟩
      · exact h.one_to_one u v j hu hv
      · exact absurd ⟨u, hj ▸ hu⟩ hunused
    · rcases given_append.mp hv with hv | ⟨-, rfl, -⟩
      · exact absurd ⟨v, hj ▸ hv⟩ hunused
      · rfl
  · intro u j hu
    rcases given_append.mp hu with hold | ⟨hne, -, rfl⟩
    · exact h.in_range u j hold
    · have hle := hgrants.le
      exact ⟨by unfold minimumID; omega, by omega⟩

/-- **One call keeps the maps right.** -/
theorem Records.suggest (h : Records history p) (uri : URI) (preferred : Int) :
    Records (history ++ [(uri, (p.suggest uri preferred).1)]) (p.suggest uri preferred).2 := by
  rcases p.suggest_cases uri preferred with ⟨i, hi, hsug⟩ | ⟨i, hnone, hgrants, hsug⟩ |
    ⟨hnone, -, hsug⟩
  · rw [hsug]
    exact h.repeat fun _ => (h.given uri i).mp hi
  · rw [hsug]
    exact h.grant hnone hgrants
  · rw [hsug]
    exact h.repeat fun hne => absurd rfl hne

theorem records_new : Records [] new where
  given _ _ := ⟨fun h => (nomatch h), fun h => (nomatch h.2)⟩
  used _ := ⟨fun h => (nomatch h), fun ⟨_, h⟩ => (nomatch h.2)⟩
  one_to_one _ _ _ h := nomatch h.2
  in_range _ _ h := nomatch h.2

theorem Records.run (h : Records history p) (calls : List (URI × Int)) :
    (∃ p', Records (history ++ p.answers calls) p') ∧
      ∀ before uri preferred after, calls = before ++ (uri, preferred) :: after →
        ∃ identifier later, p.answers calls = p.answers before ++ (uri, identifier) :: later ∧
          Answers (history ++ p.answers before) uri preferred identifier := by
  induction calls generalizing history p with
  | nil =>
    refine ⟨⟨p, by simpa using h⟩, fun before uri preferred after heq => ?_⟩
    exact absurd heq.symm (append_ne_nil_of_right_ne_nil _ (cons_ne_nil _ _))
  | cons call calls ih =>
    obtain ⟨uri, preferred⟩ := call
    obtain ⟨⟨p', hp'⟩, hcalls⟩ := ih (h.suggest uri preferred)
    refine ⟨⟨p', by simpa using hp'⟩, ?_⟩
    intro before uri' preferred' after heq
    cases before with
    | nil =>
      cases heq
      exact ⟨_, _, answers_cons p uri preferred calls, by simpa using h.answers uri preferred⟩
    | cons first before =>
      obtain ⟨hfirst, hrest⟩ := List.cons.inj heq
      subst hfirst
      obtain ⟨identifier, later, hlater, hright⟩ := hcalls before uri' preferred' after hrest
      refine ⟨identifier, later, ?_, by simpa using hright⟩
      rw [answers_cons, answers_cons, hlater, cons_append]

/-- **A picker that is only asked.** In every sequence of `Suggest` calls on a
fresh picker each call is answered rightly; no two URIs are given one ID, and no
ID is outside `1..14`. -/
theorem suggest_runs (calls : List (URI × Int)) :
    (∀ before uri preferred after, calls = before ++ (uri, preferred) :: after →
      ∃ identifier later, new.answers calls = new.answers before ++ (uri, identifier) :: later ∧
        Answers (new.answers before) uri preferred identifier) ∧
    (∀ u v i, Given (new.answers calls) u i → Given (new.answers calls) v i → u = v) ∧
    ∀ u i, Given (new.answers calls) u i → InRange i := by
  obtain ⟨⟨p, hp⟩, hcalls⟩ := records_new.run calls
  rw [nil_append] at hp
  refine ⟨fun before uri preferred after heq => ?_, hp.one_to_one, hp.in_range⟩
  obtain ⟨identifier, later, hlater, hright⟩ := hcalls before uri preferred after heq
  exact ⟨identifier, later, hlater, by simpa using hright⟩

/-- Two URIs that prefer one ID, then the first of them again. -/
theorem suggest_runs_shared_preference :
    new.answers [(absSendTime, 13), (sdesMid, 13), (absSendTime, 2)] =
        [(absSendTime, 13), (sdesMid, 14), (absSendTime, 13)] ∧
      ∀ u v i, Given (new.answers [(absSendTime, 13), (sdesMid, 13), (absSendTime, 2)]) u i →
        Given (new.answers [(absSendTime, 13), (sdesMid, 13), (absSendTime, 2)]) v i → u = v :=
  ⟨by decide +kernel, (suggest_runs _).2.1⟩

end Picker

end HeadlessClient.WebRTC
