import HeadlessClient.Capture.AssembleDTLS
import HeadlessClient.Capture.Streams

/-!
# Wirediff — reading a capture

The packet loop of `readCapture` (`stand/cmd/wirediff/read.go`). Each packet goes
to the hello assembler, and each TCP segment also to the stream reassembler: two
readers of the same bytes, one in the order of ARRIVAL and one by sequence number.

A packet is what `gopacket` has decoded: the texts of its flow, of the reverse
flow and of its destination, and the transport payload. The order verdicts of
`main.go` are computed over the groups of the observations.
-/

namespace HeadlessClient.Wirediff

open Base Capture List

def dtlsHandshakeContentType : UInt8 := 22

def quicLongHeaderBit : UInt8 := 0x80

/-! ## Packets -/

inductive Packet where
  | tcp (flowKey reverse target : Bytes) (syn : Bool) (sequence : UInt32) (payload : Bytes)
  | udp (flowKey target payload : Bytes)
  /-- No network layer, no transport layer, or another transport. -/
  | other

/-- `tcpFlow` of `sessions.go`. -/
structure FlowInfo where
  reverse : Bytes
  target : Bytes
deriving DecidableEq, Repr

inductive TransportName where
  | tls
  | dtls
  | quic
deriving DecidableEq, Repr

structure Observation where
  hello : Hello
  target : Bytes
  transport : TransportName
deriving DecidableEq, Repr

structure Reading where
  assembler : Assembler
  streams : Streams
  tcpFlows : GoMap Bytes FlowInfo
  observations : List Observation
  udpDatagrams : Nat

def Reading.new : Reading := ⟨.new, .new, ∅, [], 0⟩

/-! ## The loop -/

namespace Reading

def observe (s : Reading) (hello : Option Hello) (target : Bytes) (transport : TransportName) :
    Reading :=
  match hello with
  | none => s
  | some hello =>
    let target := if hello.serverName ≠ [] then hello.serverName else target
    { s with observations := s.observations ++ [⟨hello, target, transport⟩] }

/-- A TCP segment on its way to the streams. -/
def addSegment (s : Reading) (flowKey reverse target : Bytes) (syn : Bool) (sequence : UInt32)
    (payload : Bytes) : Reading :=
  let tcpFlows :=
    if (s.tcpFlows.lookup flowKey).isSome then s.tcpFlows
    else s.tcpFlows.insert flowKey ⟨reverse, target⟩
  let streams := if syn then s.streams.syn flowKey sequence else s.streams
  let streams := if payload ≠ [] then streams.add flowKey sequence payload else streams
  { s with tcpFlows, streams }

/-- What the loop does with an error of `AssembleDTLS`: nothing, unless it is a
panic. -/
def skipError : Except WireError (Option Hello) → Except WireError (Option Hello)
  | .ok hello => .ok hello
  | .error (.panic e) => .error (.panic e)
  | .error _ => .ok none

/-- The assembler's part of the loop: the hello it returns, and the assembler. -/
def assemble (c : Primitives) (a : Assembler) :
    Packet → Except WireError (Option Hello × Assembler)
  | .tcp flowKey _ _ _ _ payload =>
    if payload = [] then .ok (none, a) else a.assembleTCP flowKey payload
  | .udp flowKey _ payload =>
    if payload = [] then .ok (none, a)
    else do
      let first ← index .panic payload 0
      if first = dtlsHandshakeContentType then do
        let hello ← skipError (a.assembleDTLS flowKey payload).1
        .ok (hello, (a.assembleDTLS flowKey payload).2)
      else if first &&& quicLongHeaderBit = 0 then .ok (none, a)
      else do
        let (found, a) ← a.assembleQUIC c payload
        .ok (found.map Prod.snd, a)
  | .other => .ok (none, a)

/-- A packet's observation is filed under its target and transport. -/
def file (s : Reading) (hello : Option Hello) : Packet → Reading
  | .tcp flowKey reverse target syn sequence payload =>
    (s.addSegment flowKey reverse target syn sequence payload).observe hello target .tls
  | .udp _ target payload =>
    let s := if payload = [] then s else { s with udpDatagrams := s.udpDatagrams + 1 }
    if payload.head? = some dtlsHandshakeContentType then s.observe hello target .dtls
    else s.observe hello target .quic
  | .other => s

def read (c : Primitives) (s : Reading) (packet : Packet) : Except WireError Reading := do
  let (hello, assembler) ← assemble c s.assembler packet
  .ok ({ s with assembler }.file hello packet)

end Reading

/-! ### The loop reaches the end of the capture -/

section Returns

variable {a : Assembler}

theorem dropError_returns {α : Type} {x : Except WireError α} (h : Safe .panic x) :
    Returns (dropError x) := by
  cases x with
  | ok y => exact .ok _
  | error e =>
    cases e with
    | panic e => exact absurd rfl (h e)
    | _ => exact .ok _

theorem skipError_returns {x : Except WireError (Option Hello)} (h : Safe .panic x) :
    Returns (Reading.skipError x) := by
  cases x with
  | ok y => exact .ok _
  | error e =>
    cases e with
    | panic e => exact absurd rfl (h e)
    | _ => exact .ok _

theorem assembleTCP_returns (a : Assembler) (flowKey : Bytes) {payload : Bytes}
    (hpayload : payload ≠ []) : Returns (a.assembleTCP flowKey payload) := by
  have hfeed : ∀ flow, Returns (a.feedFlow flowKey flow payload) := by
    intro flow
    unfold Assembler.feedFlow
    split
    · exact .ok _
    · dsimp only
      split
      · exact .ok _
      · exact (dropError_returns (parseHello_safe _)).bind fun _ => .ok _
  unfold Assembler.assembleTCP
  split
  · exact hfeed _
  · rw [index_eq (length_pos_iff.mpr hpayload), ok_bind]
    split
    · exact .ok _
    · exact hfeed _

theorem helloOfStream_returns (handshake : Bytes) :
    Returns (Assembler.helloOfStream handshake) := by
  unfold Assembler.helloOfStream
  split
  · exact .ok _
  · rw [index_eq (show 1 < handshake.length by omega), ok_bind,
      index_eq (show 2 < handshake.length by omega), ok_bind,
      index_eq (show 3 < handshake.length by omega), ok_bind]
    dsimp only
    split
    · exact .ok _
    · rw [slice_eq (Nat.zero_le _) (by omega), ok_bind]
      apply dropError_returns
      apply Safe.bind
      · apply (ensure_safe _ (by simp)).bind
        intro _ _
        exact .ok _
      · intro record _
        exact parseHello_safe record

theorem assembleQUIC_returns (c : Primitives) (a : Assembler) (payload : Bytes) :
    Returns (a.assembleQUIC c payload) := by
  apply (dropError_returns (parseQUICInitial_safe c payload)).bind
  intro initial
  cases initial with
  | none => exact .ok _
  | some initial =>
    dsimp only
    split
    · exact .ok _
    · unfold Assembler.addToStream
      dsimp only
      split
      · exact .ok _
      · apply (helloOfStream_returns _).bind
        intro hello
        cases hello with
        | none => exact .ok _
        | some hello => exact .ok _

theorem assemble_returns (c : Primitives) (h : a.Sized) (packet : Packet) :
    Returns (Reading.assemble c a packet) := by
  cases packet with
  | other => exact .ok _
  | tcp flowKey reverse target syn sequence payload =>
    rw [Reading.assemble]
    split
    · exact .ok _
    · exact assembleTCP_returns a flowKey ‹_›
  | udp flowKey target payload =>
    rw [Reading.assemble]
    split
    · exact .ok _
    · rw [index_eq (length_pos_iff.mpr ‹_›), ok_bind]
      split
      · apply (skipError_returns (h.assembleDTLS flowKey payload).1).bind
        intro hello
        exact .ok _
      · split
        · exact .ok _
        · apply (assembleQUIC_returns c a payload).bind
          intro x
          exact .ok _

end Returns

/-! ## Groups and verdicts -/

/-- A group of `groupHellos`: the hellos of one transport and target. -/
structure Group where
  transport : TransportName
  target : Bytes
  hellos : List Hello

/-- `strings.Contains`. -/
def contains (text pattern : Bytes) : Bool := text.tails.any fun tail => pattern.isPrefixOf tail

/-- The observations that `groupHellos` does not skip. -/
def selected (observations : List Observation) (sni : Bytes) (clientOnly : Bool) :
    List Observation :=
  observations.filter fun o =>
    !(clientOnly && o.hello.kind != .tlsClient && o.hello.kind != .dtlsClient) &&
      !(sni != [] && !contains o.target sni)

/-- One round of `groupHellos`; the key is the transport and the target. -/
def addToGroups (groups : List Group) (o : Observation) : List Group :=
  if groups.any fun g => g.transport = o.transport && g.target = o.target then
    groups.map fun g =>
      if g.transport = o.transport && g.target = o.target then
        { g with hellos := g.hellos ++ [o.hello] }
      else g
  else groups ++ [⟨o.transport, o.target, [o.hello]⟩]

/-- `groupHellos`, its map as the list of its values. -/
def groupHellos (observations : List Observation) (sni : Bytes) (clientOnly : Bool) : List Group :=
  (selected observations sni clientOnly).foldl addToGroups []

/-! ### What is in the groups -/

def Observation.key (o : Observation) : TransportName × Bytes := (o.transport, o.target)

/-- The group of a key: all that was seen of it, as it was captured. -/
def groupOf (seen : List Observation) (key : TransportName × Bytes) : Group :=
  ⟨key.1, key.2, (seen.filter (·.key = key)).map Observation.hello⟩

theorem groupOf_append (seen : List Observation) (o : Observation) (key : TransportName × Bytes) :
    groupOf (seen ++ [o]) key =
      { groupOf seen key with
        hellos := (groupOf seen key).hellos ++ if o.key = key then [o.hello] else [] } := by
  unfold groupOf
  rw [filter_append, map_append, filter_singleton]
  by_cases h : o.key = key <;> simp [h]

/-- **One observation** goes to the group of its key. -/
theorem addToGroups_groupOf {seen : List Observation} {keys : List (TransportName × Bytes)}
    (hkeys : ∀ key, key ∈ keys ↔ ∃ o ∈ seen, o.key = key) (o : Observation) :
    addToGroups (keys.map (groupOf seen)) o =
      (if o.key ∈ keys then keys else keys ++ [o.key]).map (groupOf (seen ++ [o])) := by
  have hsame : ∀ key : TransportName × Bytes,
      ((groupOf seen key).transport = o.transport && (groupOf seen key).target = o.target) =
        decide (o.key = key) := by
    intro key
    rw [Bool.eq_iff_iff, Bool.and_eq_true, decide_eq_true_iff, decide_eq_true_iff,
      decide_eq_true_iff, eq_comm (a := o.key)]
    exact (@Prod.ext_iff _ _ key o.key).symm
  have hknown : ((keys.map (groupOf seen)).any fun g =>
      g.transport = o.transport && g.target = o.target) = decide (o.key ∈ keys) := by
    rw [any_map, Bool.eq_iff_iff, any_eq_true]
    simp [hsame]
  unfold addToGroups
  rw [hknown]
  by_cases hmem : o.key ∈ keys
  · rw [decide_eq_true hmem, if_pos rfl, if_pos hmem, map_map]
    refine map_congr_left fun key _ => ?_
    rw [groupOf_append, Function.comp, hsame]
    by_cases h : o.key = key <;> simp [h]
  · rw [decide_eq_false hmem, if_neg Bool.false_ne_true, if_neg hmem, map_append]
    congr 1
    · refine map_congr_left fun key hkey => ?_
      have hne : o.key ≠ key := fun h => hmem (h ▸ hkey)
      rw [groupOf_append, if_neg hne, append_nil]
    · have hnone : seen.filter (·.key = o.key) = [] :=
        filter_eq_nil_iff.mpr fun o' ho' h => hmem ((hkeys _).mpr ⟨o', ho', of_decide_eq_true h⟩)
      rw [map_singleton, groupOf_append, groupOf, hnone, if_pos rfl]
      rfl

/-- **Grouping files every hello once.** There is one group for each transport and
target that a selected observation has, and it holds their hellos in the order of
the capture. -/
theorem groupHellos_spec (observations : List Observation) (sni : Bytes) (clientOnly : Bool) :
    ∃ keys : List (TransportName × Bytes), keys.Nodup ∧
      (∀ key, key ∈ keys ↔ ∃ o ∈ selected observations sni clientOnly, o.key = key) ∧
      groupHellos observations sni clientOnly =
        keys.map (groupOf (selected observations sni clientOnly)) := by
  unfold groupHellos
  induction selected observations sni clientOnly using reverseRecOn with
  | nil => exact ⟨[], nodup_nil, by simp, rfl⟩
  | append_singleton seen o ih =>
    obtain ⟨keys, hnodup, hkeys, hgroups⟩ := ih
    rw [foldl_append, hgroups, foldl_cons, foldl_nil, addToGroups_groupOf hkeys]
    refine ⟨_, ?_, fun key => ?_, rfl⟩
    · split_ifs with hmem
      · exact hnodup
      · exact concat_eq_append ▸ hnodup.concat hmem
    · split_ifs with hmem
      · obtain ⟨o', ho', hkey⟩ := (hkeys _).mp hmem
        grind
      · grind

inductive Verdict where
  | unknown
  | shuffled
  | stable
deriving DecidableEq, Repr

def distinctValues (hellos : List Hello) (key : Hello → Bytes) : List Bytes :=
  hellos.foldl (fun values hello =>
    if values.contains (key hello) then values else values ++ [key hello]) []

def orderVerdict (hellos : List Hello) (key : Hello → Bytes) : Verdict :=
  if hellos.length < 2 then .unknown
  else if (distinctValues hellos key).length > 1 then .shuffled
  else .stable

end HeadlessClient.Wirediff
