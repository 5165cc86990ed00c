import HeadlessClient.Base.GoMap
import HeadlessClient.WebRTC.Picker
import Mathlib.Data.List.Sort

/-!
# WebRTC — header extensions of the media engine

`webrtc/mediaengine.go`, the header-extension half: registration, negotiation
from a remote description, and the list an offer or answer is written from.

The codec half is not here: whether the codecs of a media section are read,
match, and can be stored decides only WHETHER its header extensions are taken
over, so a section carries that outcome (`CodecOutcome`) and the theorems hold
for every one.
-/

namespace HeadlessClient.WebRTC

open Base

inductive RTPCodecType where
  | unknown
  | audio
  | video
deriving DecidableEq, Repr

inductive RTPTransceiverDirection where
  | unknown
  | sendrecv
  | sendonly
  | recvonly
  | inactive
deriving DecidableEq, Repr

inductive MediaError where
  /-- `ErrRegisterHeaderExtensionInvalidDirection`. -/
  | registerHeaderExtensionInvalidDirection
  /-- An `extmap` attribute that does not parse. -/
  | extMap
  /-- An error of the codec negotiation. -/
  | codecs
deriving DecidableEq, Repr

/-- `mediaEngineHeaderExtension`. -/
structure HeaderExtension where
  uri : URI
  isAudio : Bool
  isVideo : Bool
  allowedDirections : List RTPTransceiverDirection
deriving DecidableEq, Repr

structure MediaEngine where
  negotiatedVideo : Bool
  negotiatedAudio : Bool
  negotiateMultiCodecs : Bool
  headerExtensions : List HeaderExtension
  /-- `none` is the nil map. -/
  negotiatedHeaderExtensions : Option (GoMap Nat HeaderExtension)
  headerExtensionIDs : Picker

/-- `RTPHeaderExtensionParameter`. -/
structure HeaderExtensionParameter where
  id : Nat
  uri : URI
deriving DecidableEq, Repr

/-! ## Media sections -/

/-- What became of the codecs of a media section. -/
inductive CodecOutcome where
  /-- They do not parse, or matching or storing them fails. -/
  | failed
  | noMatch
  | matched
deriving DecidableEq, Repr

/-- A media section of a remote description. `media` is the kind its media name
stands for, `extmap` its `extmap` attributes in order (`none` where `Unmarshal`
fails), and the two orders are those of its `range` loops. -/
structure MediaSection where
  media : RTPCodecType
  extmap : List (Option (URI × Nat))
  codecs : CodecOutcome
  firstOrder : MapOrder
  secondOrder : MapOrder

/-- `rtpExtensionsFromMediaDescription`; the last attribute for a URI wins. -/
def rtpExtensionsFromMediaDescription (extmap : List (Option (URI × Nat))) :
    Option (GoMap URI Nat) :=
  extmap.foldl (fun out attr => do
    let map ← out
    let (uri, value) ← attr
    some (map.insert uri value)) (some ∅)

/-! ## Registration -/

/-- The last registered extension with this URI. -/
def extensionIndex (uri : URI) : List HeaderExtension → Option Nat
  | [] => none
  | e :: es =>
    match extensionIndex uri es with
    | some i => some (i + 1)
    | none => if e.uri = uri then some 0 else none

namespace MediaEngine

def new (negotiateMultiCodecs : Bool) : MediaEngine :=
  ⟨false, false, negotiateMultiCodecs, [], none, .new⟩

/-- The negotiated table; a nil map has no entries. -/
def negotiated (m : MediaEngine) : GoMap Nat HeaderExtension :=
  m.negotiatedHeaderExtensions.getD ∅

/-- What a registration writes into its slot. -/
def registered (uri : URI) (typ : RTPCodecType) (allowedDirections : List RTPTransceiverDirection)
    (e : HeaderExtension) : HeaderExtension where
  uri := uri
  isAudio := if typ = .audio then true else e.isAudio
  isVideo := if typ = .video then true else e.isVideo
  allowedDirections := allowedDirections

def registerHeaderExtension (m : MediaEngine) (uri : URI) (typ : RTPCodecType)
    (allowedDirections : List RTPTransceiverDirection) : MediaEngine × Option MediaError :=
  let m := { m with negotiatedHeaderExtensions := some m.negotiated }
  let allowedDirections :=
    if allowedDirections.length = 0 then [.recvonly, .sendonly] else allowedDirections
  if allowedDirections.any fun d => d ≠ .recvonly && d ≠ .sendonly then
    (m, some .registerHeaderExtensionInvalidDirection)
  else
    let update := registered uri typ allowedDirections
    let headerExtensions :=
      match extensionIndex uri m.headerExtensions with
      | some i => m.headerExtensions.modify i update
      | none => m.headerExtensions ++ [update ⟨[], false, false, []⟩]
    ({ m with headerExtensions := headerExtensions }, none)

/-! ## Remote descriptions -/

/-- One local extension in the loop of `updateHeaderExtension`. -/
def enable (id : Nat) (extension : URI) (typ : RTPCodecType)
    (negotiated : GoMap Nat HeaderExtension) (localExtension : HeaderExtension) :
    GoMap Nat HeaderExtension :=
  if localExtension.uri = extension then
    let h := (negotiated.lookup id).getD ⟨extension, false, false, localExtension.allowedDirections⟩
    let h :=
      if localExtension.isAudio ∧ typ = .audio then { h with isAudio := true }
      else if localExtension.isVideo ∧ typ = .video then { h with isVideo := true }
      else h
    negotiated.insert id h
  else negotiated

def updateHeaderExtension (m : MediaEngine) (id : Nat) (extension : URI) (typ : RTPCodecType) :
    MediaEngine :=
  match m.negotiatedHeaderExtensions with
  | none => m
  | some negotiated =>
    { m with
      negotiatedHeaderExtensions :=
        some (m.headerExtensions.foldl (enable id extension typ) negotiated) }

def updateHeaderExtensionFromMediaSection (m : MediaEngine) (media : MediaSection)
    (order : MapOrder) : Except MediaError MediaEngine :=
  if media.media = .unknown then .ok m
  else
    match rtpExtensionsFromMediaDescription media.extmap with
    | none => .error .extMap
    | some extensions =>
      .ok ((extensions.range order).foldl
        (fun m (extension, id) => m.updateHeaderExtension id extension media.media) m)

/-- The rest of a section once its kind is noted: the codecs, then the header
extensions if the codecs matched. -/
def updateFromCodecs (m : MediaEngine) (media : MediaSection) : MediaEngine × Option MediaError :=
  match media.codecs with
  | .failed => (m, some .codecs)
  | .noMatch => (m, none)
  | .matched =>
    match m.updateHeaderExtensionFromMediaSection media media.secondOrder with
    | .error e => (m, some e)
    | .ok m => (m, none)

/-- One round of the loop over the media sections. -/
def updateFromMediaSection (m : MediaEngine) (media : MediaSection) :
    MediaEngine × Option MediaError :=
  if m.negotiatedAudio = false ∧ media.media = .audio then
    updateFromCodecs { m with negotiatedAudio := true } media
  else if m.negotiatedVideo = false ∧ media.media = .video then
    updateFromCodecs { m with negotiatedVideo := true } media
  else
    match m.updateHeaderExtensionFromMediaSection media media.firstOrder with
    | .error e => (m, some e)
    | .ok m =>
      if m.negotiateMultiCodecs = false ∨ media.media = .unknown then (m, none)
      else updateFromCodecs m media

/-- `updateFromRemoteDescription`. What was changed before an error stays changed. -/
def updateFromRemoteDescription (m : MediaEngine) :
    List MediaSection → MediaEngine × Option MediaError
  | [] => (m, none)
  | media :: sections =>
    match m.updateFromMediaSection media with
    | (m, some e) => (m, some e)
    | (m, none) => m.updateFromRemoteDescription sections

/-! ## The list for an offer or an answer -/

def haveRTPTransceiverDirectionIntersection (haystack needle : List RTPTransceiverDirection) :
    Bool :=
  needle.any fun n => haystack.contains n

/-- The extension is for this kind and one of these directions. -/
def applies (e : HeaderExtension) (typ : RTPCodecType)
    (directions : List RTPTransceiverDirection) : Bool :=
  haveRTPTransceiverDirectionIntersection e.allowedDirections directions &&
    (e.isAudio && typ = .audio || e.isVideo && typ = .video)

/-- The comparison of `sortHeaderExtensionsByCanonicalOrder`. -/
def canonicalLess (video : Bool) (first second : HeaderExtensionParameter) : Bool :=
  match canonicalPosition first.uri video, canonicalPosition second.uri video with
  | none, none => first.uri < second.uri
  | none, some _ => false
  | some _, none => true
  | some i, some j => i < j

/-- `sort.SliceStable` with that comparison. -/
def sortHeaderExtensionsByCanonicalOrder (l : List HeaderExtensionParameter) (video : Bool) :
    List HeaderExtensionParameter :=
  l.insertionSort fun a b => canonicalLess video b a = false

/-- The loop that asks the picker for an ID for every extension that applies. -/
def suggestAll (typ : RTPCodecType) (directions : List RTPTransceiverDirection) :
    List HeaderExtension → Picker → List HeaderExtensionParameter × Picker
  | [], p => ([], p)
  | ext :: exts, p =>
    if applies ext typ directions then
      let (id, p) := p.suggest ext.uri (preferredID ext.uri (typ = .video))
      let (rest, p) := suggestAll typ directions exts p
      if id = 0 then (rest, p) else (⟨id, ext.uri⟩ :: rest, p)
    else suggestAll typ directions exts p

/-- The loop that tells the picker what is negotiated. -/
def reserveAll (negotiated : List (Nat × HeaderExtension)) (p : Picker) : Picker :=
  negotiated.foldl (fun p (id, e) => p.reserve e.uri id) p

def negotiatedKind (m : MediaEngine) (typ : RTPCodecType) : Bool :=
  m.negotiatedVideo && typ = .video || m.negotiatedAudio && typ = .audio

/-- `getRTPParametersByKind`, its header extensions. -/
def getRTPParametersByKind (m : MediaEngine) (typ : RTPCodecType)
    (directions : List RTPTransceiverDirection) (order : MapOrder) :
    List HeaderExtensionParameter × MediaEngine :=
  if m.negotiatedKind typ then
    let chosen := (m.negotiated.range order).filter fun (_, e) => applies e typ directions
    let headerExtensions := chosen.map fun (id, e) => ⟨id, e.uri⟩
    (sortHeaderExtensionsByCanonicalOrder headerExtensions (typ = .video), m)
  else
    let reserved := reserveAll (m.negotiated.range order) m.headerExtensionIDs
    let (headerExtensions, ids) := suggestAll typ directions m.headerExtensions reserved
    (sortHeaderExtensionsByCanonicalOrder headerExtensions (typ = .video),
      { m with headerExtensionIDs := ids })

end MediaEngine

end HeadlessClient.WebRTC
