import HeadlessClient.Capture.QuicInitial
import HeadlessClient.Http1.Request

/-!
# Capture — the assembler

`Assembler` of the capture tool (`stand/internal/wire/assemble.go`): one object
that collects TCP payloads, DTLS fragments and QUIC CRYPTO chunks until a hello
is complete. Its three maps are independent of one another.

An error that the source drops (`if err != nil { return nil, nil }`) is dropped
by `dropError`, which lets a panic through: a panic is not an `error` value.
-/

namespace HeadlessClient.Capture

open Base Wire
open Http1 (decimal)

def maxFlowBuffer : Nat := 1 <<< 16

structure TCPFlow where
  body : Bytes
  done : Bool
deriving DecidableEq, Repr

structure DTLSAssembly where
  body : Bytes
  filled : List Bool
deriving DecidableEq, Repr

structure QUICStream where
  chunks : List QUICCryptoChunk
  done : Bool
deriving DecidableEq, Repr

structure Assembler where
  tcpFlows : GoMap Bytes TCPFlow
  dtlsFrags : GoMap Bytes DTLSAssembly
  quicStreams : GoMap Bytes QUICStream

/-- `NewAssembler`. -/
def Assembler.new : Assembler := ⟨∅, ∅, ∅⟩

/-- `if err != nil { return nil, nil }`. -/
def dropError {α : Type} : Except WireError α → Except WireError (Option α)
  | .ok a => .ok (some a)
  | .error (.panic e) => .error (.panic e)
  | .error _ => .ok none

namespace Assembler

/-! ## TCP -/

/-- `AssembleTCP` for a flow that is in the map. -/
def feedFlow (a : Assembler) (flowKey : Bytes) (flow : TCPFlow) (payload : Bytes) :
    Except WireError (Option Hello × Assembler) :=
  if flow.done then .ok (none, a)
  else
    let body := flow.body ++ payload
    if body.length > maxFlowBuffer then
      .ok (none, { a with tcpFlows := a.tcpFlows.insert flowKey ⟨body, true⟩ })
    else do
      let hello ← dropError (parseHello body)
      .ok (hello, { a with tcpFlows := a.tcpFlows.insert flowKey ⟨body, hello.isSome⟩ })

/-- `AssembleTCP`; its error is always `nil`. A flow starts with a handshake
record, and the first byte is looked at without a check that there is one. -/
def assembleTCP (a : Assembler) (flowKey payload : Bytes) :
    Except WireError (Option Hello × Assembler) :=
  match a.tcpFlows.lookup flowKey with
  | some flow => a.feedFlow flowKey flow payload
  | none => do
      let first ← index .panic payload 0
      if first ≠ contentTypeHandshake then .ok (none, a)
      else a.feedFlow flowKey ⟨[], false⟩ payload

/-! ## DTLS -/

/-- `fmt.Sprintf("%s#%d#%d", flowKey, fragment.MessageSeq, fragment.Length)`. -/
def fragmentKey (flowKey : Bytes) (messageSeq : UInt16) (length : Nat) : Bytes :=
  flowKey ++ ascii "#" ++ decimal messageSeq.toNat ++ ascii "#" ++ decimal length

/-- `for i := fragment.Offset; i < fragment.Offset+fragment.FragmentLen; i++`. -/
def markFilled : (i n : Nat) → List Bool → Except WireError (List Bool)
  | _, 0, filled => .ok filled
  | i, n + 1, filled => do
      let _ ← index .panic filled i
      markFilled (i + 1) n (filled.set i true)

def addFragment (pending : DTLSAssembly) (fragment : DTLSFragment) :
    Except WireError DTLSAssembly := do
  let _ ← sliceFrom .panic pending.body fragment.offset
  let filled ← markFilled fragment.offset fragment.fragmentLen pending.filled
  .ok { body := copyAt pending.body fragment.offset fragment.body, filled }

/-- A message of which nothing has arrived. -/
def emptyAssembly (length : Nat) : DTLSAssembly :=
  ⟨List.replicate length 0, List.replicate length false⟩

/-- `AssembleDTLS` for a fragment of a hello. -/
def addToPending (a : Assembler) (key : Bytes) (fragment : DTLSFragment) :
    Except WireError (Option Hello) × Assembler :=
  let pending := (a.dtlsFrags.lookup key).getD (emptyAssembly fragment.length)
  match addFragment pending fragment with
  | .error e => (.error e, a)
  | .ok pending =>
    if pending.filled.all id then
      (some <$> parseHello (fragment.reassemble pending.body),
        { a with dtlsFrags := a.dtlsFrags.erase key })
    else (.ok none, { a with dtlsFrags := a.dtlsFrags.insert key pending })

def assembleDTLS (a : Assembler) (flowKey payload : Bytes) :
    Except WireError (Option Hello) × Assembler :=
  match parseDTLSFragment payload with
  | .error e => (.error e, a)
  | .ok fragment =>
    if !fragment.isHello || fragment.length > maxFlowBuffer then (.ok none, a)
    else a.addToPending (fragmentKey flowKey fragment.messageSeq fragment.length) fragment

/-! ## QUIC -/

def cryptoRecord (handshake : Bytes) : Except WireError Bytes := do
  ensure (handshake.length ≤ 1 <<< 16 - 1) .truncated
  .ok ([contentTypeHandshake, 0x03, 0x01] ++ putUint 2 handshake.length ++ handshake)

/-- The hello at the start of a CRYPTO stream, once all of it is there. -/
def helloOfStream (handshake : Bytes) : Except WireError (Option Hello) :=
  if handshake.length < 4 then .ok none
  else do
    let high ← index .panic handshake 1
    let middle ← index .panic handshake 2
    let low ← index .panic handshake 3
    let total := 4 + getUint [high, middle, low]
    if handshake.length < total then .ok none
    else do
      let message ← slice .panic handshake 0 total
      dropError (do
        let record ← cryptoRecord message
        parseHello record)

/-- `AssembleQUIC` for a packet with CRYPTO chunks. -/
def addToStream (a : Assembler) (key : Bytes) (initial : QUICInitial) :
    Except WireError (Option (QUICInitial × Hello) × Assembler) :=
  let stream := (a.quicStreams.lookup key).getD ⟨[], false⟩
  if stream.done then .ok (none, a)
  else do
    let chunks := stream.chunks ++ initial.crypto
    match ← helloOfStream (assembleCrypto chunks) with
    | none => .ok (none, { a with quicStreams := a.quicStreams.insert key ⟨chunks, false⟩ })
    | some hello =>
      .ok (some ({ initial with crypto := chunks }, hello),
        { a with quicStreams := a.quicStreams.insert key ⟨[], true⟩ })

def assembleQUIC (c : Primitives) (a : Assembler) (payload : Bytes) :
    Except WireError (Option (QUICInitial × Hello) × Assembler) := do
  match ← dropError (parseQUICInitial c payload) with
  | none => .ok (none, a)
  | some initial =>
    if initial.crypto = [] then .ok (none, a)
    else a.addToStream (hexEncode initial.destConnID) initial

/-! ## Runs -/

inductive Call where
  | tcp (flowKey payload : Bytes)
  | dtls (flowKey payload : Bytes)
  | quic (payload : Bytes)

def afterCall (c : Primitives) (a : Assembler) : Call → Assembler
  | .tcp flowKey payload => (a.assembleTCP flowKey payload).toOption.elim a Prod.snd
  | .dtls flowKey payload => (a.assembleDTLS flowKey payload).2
  | .quic payload => (a.assembleQUIC c payload).toOption.elim a Prod.snd

def after (c : Primitives) (a : Assembler) (calls : List Call) : Assembler :=
  calls.foldl (afterCall c) a

/-! ### A protocol's calls keep to its map -/

section Frames

variable (a : Assembler) {flowKey payload : Bytes} {hello : Option Hello} {a' : Assembler}
  {found : Option (QUICInitial × Hello)}

theorem feedFlow_cases {flow : TCPFlow} (h : a.feedFlow flowKey flow payload = .ok (hello, a')) :
    (flow.done = true ∧ hello = none ∧ a' = a) ∨
      (flow.done = false ∧ ∃ flow', (hello.isSome = true → flow'.done = true) ∧
        a' = { a with tcpFlows := a.tcpFlows.insert flowKey flow' }) := by
  unfold feedFlow at h
  split_ifs at h with hdone
  · cases h
    exact .inl ⟨hdone, rfl, rfl⟩
  · dsimp only at h
    apply Or.inr
    apply And.intro (eq_false_of_ne_true hdone)
    split_ifs at h with hsize
    · cases h
      exact ⟨_, fun _ => rfl, rfl⟩
    · obtain ⟨hello', -, h⟩ := bind_eq_ok.mp h
      cases h
      exact ⟨_, id, rfl⟩

theorem assembleTCP_cases (h : a.assembleTCP flowKey payload = .ok (hello, a')) :
    (hello = none ∧ a' = a) ∨
      ((∀ flow, a.tcpFlows.lookup flowKey = some flow → flow.done = false) ∧
        ∃ flow', (hello.isSome = true → flow'.done = true) ∧
          a' = { a with tcpFlows := a.tcpFlows.insert flowKey flow' }) := by
  unfold assembleTCP at h
  cases hflow : a.tcpFlows.lookup flowKey with
  | some flow =>
    rw [hflow] at h
    rcases a.feedFlow_cases h with ⟨-, hnone, hsame⟩ | ⟨hopen, hstored⟩
    · exact .inl ⟨hnone, hsame⟩
    · apply Or.inr
      apply And.intro _ hstored
      intro flow' heq
      cases heq
      exact hopen
  | none =>
    rw [hflow] at h
    obtain ⟨first, -, h⟩ := bind_eq_ok.mp h
    split_ifs at h with hfirst
    · cases h
      exact .inl ⟨rfl, rfl⟩
    · rcases a.feedFlow_cases h with ⟨-, hnone, hsame⟩ | ⟨-, hstored⟩
      · exact .inl ⟨hnone, hsame⟩
      · apply Or.inr
        apply And.intro _ hstored
        intro flow' heq
        cases heq

theorem assembleTCP_frame (h : a.assembleTCP flowKey payload = .ok (hello, a')) :
    a'.dtlsFrags = a.dtlsFrags ∧ a'.quicStreams = a.quicStreams := by
  rcases a.assembleTCP_cases h with ⟨-, rfl⟩ | ⟨-, flow', -, rfl⟩
  · exact ⟨rfl, rfl⟩
  · exact ⟨rfl, rfl⟩

theorem assembleDTLS_frame (flowKey payload : Bytes) :
    (a.assembleDTLS flowKey payload).2.tcpFlows = a.tcpFlows ∧
      (a.assembleDTLS flowKey payload).2.quicStreams = a.quicStreams := by
  unfold assembleDTLS
  cases parseDTLSFragment payload with
  | error e => exact ⟨rfl, rfl⟩
  | ok fragment =>
    dsimp only
    split
    · exact ⟨rfl, rfl⟩
    · unfold addToPending
      dsimp only
      cases addFragment _ fragment with
      | error e => exact ⟨rfl, rfl⟩
      | ok pending =>
        dsimp only
        split
        · exact ⟨rfl, rfl⟩
        · exact ⟨rfl, rfl⟩

theorem addToStream_cases {key : Bytes} {initial : QUICInitial}
    (h : a.addToStream key initial = .ok (found, a')) :
    (found = none ∧ a' = a) ∨
      ((∀ stream, a.quicStreams.lookup key = some stream → stream.done = false) ∧
        ∃ stream', (found.isSome = true → stream'.done = true) ∧
          a' = { a with quicStreams := a.quicStreams.insert key stream' }) := by
  unfold addToStream at h
  dsimp only at h
  split_ifs at h with hdone
  · cases h
    exact .inl ⟨rfl, rfl⟩
  · have hopen : ∀ stream, a.quicStreams.lookup key = some stream → stream.done = false := by
      intro stream hstream
      rw [hstream] at hdone
      exact eq_false_of_ne_true hdone
    obtain ⟨hello, -, h⟩ := bind_eq_ok.mp h
    cases hello with
    | none =>
      cases h
      exact .inr ⟨hopen, _, fun hsome => (Bool.false_ne_true hsome).elim, rfl⟩
    | some hello =>
      cases h
      exact .inr ⟨hopen, _, fun _ => rfl, rfl⟩

theorem addToStream_frame {key : Bytes} {initial : QUICInitial}
    (h : a.addToStream key initial = .ok (found, a')) :
    a'.tcpFlows = a.tcpFlows ∧ a'.dtlsFrags = a.dtlsFrags := by
  rcases a.addToStream_cases h with ⟨-, rfl⟩ | ⟨-, stream', -, rfl⟩
  · exact ⟨rfl, rfl⟩
  · exact ⟨rfl, rfl⟩

theorem assembleQUIC_frame {c : Primitives} (h : a.assembleQUIC c payload = .ok (found, a')) :
    a'.tcpFlows = a.tcpFlows ∧ a'.dtlsFrags = a.dtlsFrags := by
  obtain ⟨initial, -, h⟩ := bind_eq_ok.mp h
  cases initial with
  | none =>
    cases h
    exact ⟨rfl, rfl⟩
  | some initial =>
    dsimp only at h
    split at h
    · cases h
      exact ⟨rfl, rfl⟩
    · exact a.addToStream_frame h

theorem dtlsFrags_afterCall (c : Primitives) {call : Call}
    (h : ∀ flowKey payload, call ≠ .dtls flowKey payload) :
    (a.afterCall c call).dtlsFrags = a.dtlsFrags := by
  cases call with
  | dtls flowKey payload => exact absurd rfl (h flowKey payload)
  | tcp flowKey payload =>
    rw [afterCall]
    cases hcall : a.assembleTCP flowKey payload with
    | error e => rfl
    | ok x => exact (a.assembleTCP_frame hcall).1
  | quic payload =>
    rw [afterCall]
    cases hcall : a.assembleQUIC c payload with
    | error e => rfl
    | ok x => exact (a.assembleQUIC_frame hcall).2

theorem quicStreams_afterCall (c : Primitives) {call : Call} (h : ∀ payload, call ≠ .quic payload) :
    (a.afterCall c call).quicStreams = a.quicStreams := by
  cases call with
  | quic payload => exact absurd rfl (h payload)
  | dtls flowKey payload => exact (a.assembleDTLS_frame flowKey payload).2
  | tcp flowKey payload =>
    rw [afterCall]
    cases hcall : a.assembleTCP flowKey payload with
    | error e => rfl
    | ok x => exact (a.assembleTCP_frame hcall).2

end Frames

end Assembler

end HeadlessClient.Capture
