import HeadlessClient.Base.Draws
import HeadlessClient.Quic.Frame

/-!
# Quic — chaos protection of the client Initial

`quic/chaos_protector.go` and the payload serializer that calls it
(`appendPacketPayload` in `quic/packet_packer.go`), statement by statement:

1. the CRYPTO frames are COPIED into fresh cells (`copyFrame`), the range they
   cover is measured on the way;
2. a drawn number of times, a drawn entry is split in place and the cut-off
   part appended (`splitOnce`, `splitLoop`);
3. PING frames are added (`addPings`);
4. the padding left is spread between the entries (`spreadLoop`) and the whole
   list is shuffled.

`remainingPadding` is an `Int`: it could go negative, and that it does not is a
theorem, not a type.
-/

namespace HeadlessClient.Quic

open Base

def minAddedCryptoFrames : Nat := 2
def maxAddedCryptoFrames : Nat := 10
def minAddedPingFrames : Nat := 2
def maxAddedPingFrames : Nat := 10

/-- `chaosEntry`: a frame, or (`frame == nil`) a run of padding bytes. -/
structure ChaosEntry where
  frame : Option FrameRef
  paddingLen : Int

namespace ChaosEntry

def ofFrame (r : FrameRef) : ChaosEntry := ⟨some r, 0⟩

def padding (n : Int) : ChaosEntry := ⟨none, n⟩

end ChaosEntry

def minCryptoFrameSize (offset dataLength : Nat) : Except Panic Int := do
  let o ← Varint.len offset
  let l ← Varint.len dataLength
  .ok (1 + o + l)

/-! ## Copying the frames -/

structure CopyState where
  store : Store
  entries : List ChaosEntry
  hasCryptoFrame : Bool
  lowestOffset : Nat
  highestEnd : Nat

/-- One iteration of the first loop. -/
def copyFrame (s : CopyState) : FrameRef → CopyState
  | .crypto a =>
    let cryptoFrame := s.store.getD a ⟨0, []⟩
    let finish := cryptoFrame.offset + cryptoFrame.data.length
    let (copied, store) := s.store.alloc ⟨cryptoFrame.offset, cryptoFrame.data⟩
    { store := store
      entries := s.entries ++ [.ofFrame copied]
      hasCryptoFrame := true
      lowestOffset :=
        if s.hasCryptoFrame then min s.lowestOffset cryptoFrame.offset else cryptoFrame.offset
      highestEnd := if s.hasCryptoFrame then max s.highestEnd finish else finish }
  | f => { s with entries := s.entries ++ [.ofFrame f] }

def copyFrames (store : Store) (frames : List FrameRef) : CopyState :=
  frames.foldl copyFrame ⟨store, [], false, 0, 0⟩

/-! ## Splitting -/

structure SplitState where
  store : Store
  entries : List ChaosEntry
  remainingPadding : Int
  random : Rand

/-- One iteration of the splitting loop; `none` is `break`. -/
def splitOnce (maxSplitOverhead : Int) (s : SplitState) : Except Panic (Option SplitState) :=
  if s.remainingPadding < maxSplitOverhead then .ok none
  else
    let (i, random) := s.random.uint64N s.entries.length
    match s.entries[i]? with
    | none => .error .indexOutOfRange
    | some ⟨some (.crypto a), _⟩ =>
      let frameToSplit := s.store.getD a ⟨0, []⟩
      if frameToSplit.data.length ≤ 1 then .ok (some { s with random := random })
      else do
        let oldOverhead ← minCryptoFrameSize frameToSplit.offset frameToSplit.data.length
        let (k, random) := random.uint64N (frameToSplit.data.length - 1)
        let keptDataLength := 1 + k
        let newOffset := frameToSplit.offset + keptDataLength
        let newData := frameToSplit.data.drop keptDataLength
        let kept : CryptoFrame := ⟨frameToSplit.offset, frameToSplit.data.take keptDataLength⟩
        let (newFrame, store) := Store.alloc (s.store.set a kept) ⟨newOffset, newData⟩
        let newOverhead ← minCryptoFrameSize newOffset newData.length
        let keptOverhead ← minCryptoFrameSize frameToSplit.offset keptDataLength
        .ok (some
          { store := store
            entries := s.entries ++ [.ofFrame newFrame]
            remainingPadding := s.remainingPadding - newOverhead - keptOverhead + oldOverhead
            random := random })
    -- not a CRYPTO frame: `continue`
    | some _ => .ok (some { s with random := random })

/-- `for range n` around `splitOnce`. -/
def splitLoop (maxSplitOverhead : Int) : Nat → SplitState → Except Panic SplitState
  | 0, s => .ok s
  | n + 1, s => do
      match ← splitOnce maxSplitOverhead s with
      | none => .ok s
      | some s' => splitLoop maxSplitOverhead n s'

/-! ## PINGs and padding -/

/-- How many PING frames are added, for a drawn `k`. -/
def numPingFrames (k : Nat) (remainingPadding : Int) : Nat :=
  let n := minAddedPingFrames + k
  if (n : Int) > remainingPadding then toUint64 remainingPadding else n

def addPings (s : SplitState) : SplitState :=
  if s.remainingPadding > 0 then
    let (k, random) := s.random.uint64N (maxAddedPingFrames + 1 - minAddedPingFrames)
    let n := numPingFrames k s.remainingPadding
    { s with
      entries := s.entries ++ List.replicate n (.ofFrame .ping)
      remainingPadding := s.remainingPadding - n
      random := random }
  else s

/-- The loop that puts a drawn run of padding before each entry. -/
def spreadLoop : List ChaosEntry → Int → Rand → List ChaosEntry × Int × Rand
  | [], remainingPadding, random => ([], remainingPadding, random)
  | entry :: entries, remainingPadding, random =>
    let (slot, random) := random.uint64N (toUint64 remainingPadding + 1)
    if slot > 0 then
      let (spread, remaining, random) := spreadLoop entries (remainingPadding - slot) random
      (.padding slot :: entry :: spread, remaining, random)
    else
      let (spread, remaining, random) := spreadLoop entries remainingPadding random
      (entry :: spread, remaining, random)

/-- The rest of the padding goes to the end. -/
def spreadRest (spread : List ChaosEntry) (remainingPadding : Int) : List ChaosEntry :=
  if remainingPadding > 0 then spread ++ [.padding remainingPadding] else spread

/-! ## The whole of `chaosProtect` -/

structure ChaosResult where
  /-- `none` is the result `nil, false`. -/
  entries : Option (List ChaosEntry)
  store : Store
  random : Rand

/-- The end of `chaosProtect`, from the splitting loop on. -/
def scatter (split : SplitState) : ChaosResult :=
  let pinged := addPings split
  let (spread, remaining, random) :=
    spreadLoop pinged.entries pinged.remainingPadding pinged.random
  let (shuffled, random) := random.shuffle (spreadRest spread remaining)
  ⟨some shuffled, pinged.store, random⟩

/-- `chaosProtect`, on the store its frame pointers point into. -/
def chaosProtect (store : Store) (frames : List FrameRef) (paddingLen : Int) (random : Rand) :
    Except Panic ChaosResult :=
  if paddingLen ≤ 0 ∨ frames.length = 0 then .ok ⟨none, store, random⟩
  else
    let copied := copyFrames store frames
    if copied.hasCryptoFrame = false then .ok ⟨none, copied.store, random⟩
    else do
      let maxSplitOverhead ←
        minCryptoFrameSize copied.highestEnd (copied.highestEnd - copied.lowestOffset)
      let (k, random) := random.uint64N (maxAddedCryptoFrames + 1 - minAddedCryptoFrames)
      let split ← splitLoop maxSplitOverhead (minAddedCryptoFrames + k)
        ⟨copied.store, copied.entries, paddingLen, random⟩
      .ok (scatter split)

/-! ## Serializing a payload -/

/-- The ways `appendPacketPayload` fails. -/
inductive PackError where
  | panicked (p : Panic)
  /-- The frame's own `Append` returned an error. -/
  | frameAppend
  /-- "PacketPacker BUG: chaos payload size inconsistent". -/
  | chaosPayloadSize (expected got : Int)
  /-- "PacketPacker BUG: payload size inconsistent". -/
  | payloadSize (expected got : Int)
deriving DecidableEq, Repr

/-- A panic inside a callee, seen by the packer. -/
def liftPanic {α : Type} : Except Panic α → Except PackError α
  | .ok a => .ok a
  | .error p => .error (.panicked p)

/-- `frame.Append(raw, v)`: the bytes appended. -/
def Frame.append : Frame → Except PackError Bytes
  | .crypto f => liftPanic f.append
  | .ping => .ok [frameTypePing]
  | .other f =>
    match f.encoding with
    | some b => .ok b
    | none => .error .frameAppend

def appendFrames (store : Store) : List FrameRef → Except PackError Bytes
  | [] => .ok []
  | f :: fs => do
      let b ← (store.load f).append
      let bs ← appendFrames store fs
      .ok (b ++ bs)

def appendEntries (store : Store) : List ChaosEntry → Except PackError Bytes
  | [] => .ok []
  | ⟨none, n⟩ :: es => do
      let bs ← appendEntries store es
      .ok (List.replicate n.toNat 0 ++ bs)
  | ⟨some f, _⟩ :: es => do
      let b ← (store.load f).append
      let bs ← appendEntries store es
      .ok (b ++ bs)

structure Payload where
  streamFrames : List OpaqueFrame
  frames : List FrameRef
  ack : Option AckFrame
  length : Int

def appendAck : Option AckFrame → Except PackError Bytes
  | none => .ok []
  | some ack => liftPanic ack.append

def appendStreamFrames (fs : List OpaqueFrame) : Except PackError Bytes :=
  appendFrames [] (fs.map .other)

/-- `len(raw) - payloadOffset` is the length of what has been appended. -/
def chaosPayload (pl : Payload) (paddingLen : Int) (ack body : Bytes) :
    Except PackError Bytes :=
  let total : Int := (ack ++ body).length
  if total ≠ pl.length + paddingLen then
    .error (.chaosPayloadSize (pl.length + paddingLen) total)
  else .ok (ack ++ body)

/-- The path without chaos protection: shuffled frames, stream frames, padding. -/
def plainPayload (store : Store) (pl : Payload) (paddingLen : Int) (ack : Bytes) (random : Rand) :
    Except PackError Bytes := do
  let frames := if pl.frames.length > 1 then (random.shuffle pl.frames).1 else pl.frames
  let control ← appendFrames store frames
  let streams ← appendStreamFrames pl.streamFrames
  let padding := if paddingLen > 0 then List.replicate paddingLen.toNat 0 else []
  let payload := ack ++ control ++ streams ++ padding
  let payloadSize : Int := payload.length - paddingLen
  if payloadSize ≠ pl.length then .error (.payloadSize pl.length payloadSize)
  else .ok payload

/-- `appendPacketPayload`: the bytes appended to `raw`. -/
def appendPacketPayload (store : Store) (pl : Payload) (paddingLen : Int) (chaos : Bool)
    (random : Rand) : Except PackError Bytes := do
  let ack ← appendAck pl.ack
  if chaos ∧ pl.streamFrames.length = 0 then
    let result ← liftPanic (chaosProtect store pl.frames paddingLen random)
    match result.entries with
    | some entries => do
        let body ← appendEntries result.store entries
        chaosPayload pl paddingLen ack body
    | none => plainPayload result.store pl paddingLen ack result.random
  else plainPayload store pl paddingLen ack random

end HeadlessClient.Quic
