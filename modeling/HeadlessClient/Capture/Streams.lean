import HeadlessClient.Base.Bytes
import HeadlessClient.Base.GoMap
import HeadlessClient.Base.Interleave
import HeadlessClient.Base.Runtime
import HeadlessClient.Base.Sweep
import Mathlib.Data.List.Sort

/-!
# Capture — TCP streams

`Streams` of the capture tool (`stand/internal/wire/stream.go`): segments are
kept in a map by their offset from the first sequence number, the longest one
for each offset, and `Stream` sweeps over the map in the order of the offsets.

Sequence numbers are `uint32` and wrap; an offset is the difference of two of
them, so it does not. There is a budget of 2²⁰ bytes: a segment that starts
behind it, or comes after it is used up, is dropped. What is returned is ALWAYS
a prefix of the stream, and the longest covered one as long as the budget is not
used up (`stream_exact`).
-/

namespace HeadlessClient.Capture

open Base List

def maxStreamBytes : Nat := 1 <<< 20

structure TCPStream where
  base : UInt32
  hasBase : Bool
  stored : Nat
  segments : GoMap UInt32 Bytes

/-- `&tcpStream{segments: map[uint32][]byte{}}`. -/
def TCPStream.new : TCPStream := ⟨0, false, 0, ∅⟩

structure Streams where
  streams : GoMap Bytes TCPStream
  order : List Bytes

/-! ## The code -/

namespace TCPStream

/-- The first call for a flow sets the base. -/
def start (stream : TCPStream) (base : UInt32) : TCPStream :=
  if !stream.hasBase then { stream with base, hasBase := true } else stream

/-- `Add` for a stream that has a base. An offset without a segment has the empty
one, so an empty payload is not stored. -/
def store (stream : TCPStream) (sequence : UInt32) (payload : Bytes) : TCPStream :=
  let offset := sequence - stream.base
  if offset.toNat ≥ maxStreamBytes ∨ stream.stored ≥ maxStreamBytes then stream
  else if ((stream.segments.lookup offset).getD []).length ≥ payload.length then stream
  else { stream with
    segments := stream.segments.insert offset payload
    stored := stream.stored + payload.length }

/-- The loop of `Stream` over the sorted offsets. -/
def sweep (segments : GoMap UInt32 Bytes) :
    List UInt32 → Bytes → UInt32 → Except RuntimeError Bytes
  | [], body, _ => .ok body
  | offset :: offsets, body, position =>
    let segment := (segments.lookup offset).getD []
    let fin := offset + UInt32.ofNat segment.length
    if offset > position then .ok body
    else if fin ≤ position then sweep segments offsets body position
    else do
      let tail ← sliceFrom id segment (position - offset).toNat
      sweep segments offsets (body ++ tail) fin

def offsets (stream : TCPStream) (order : MapOrder) : List UInt32 :=
  ((stream.segments.range order).map Prod.fst).insertionSort fun a b => a ≤ b

end TCPStream

namespace Streams

/-- `NewStreams`. -/
def new : Streams := ⟨∅, []⟩

/-- `stream`: a flow that is seen for the first time is entered. -/
def lookupStream (a : Streams) (flowKey : Bytes) : TCPStream × Streams :=
  match a.streams.lookup flowKey with
  | some stream => (stream, a)
  | none =>
    (.new, { streams := a.streams.insert flowKey .new, order := a.order ++ [flowKey] })

/-- The stream of the flow is looked up and changed. -/
def update (a : Streams) (flowKey : Bytes) (f : TCPStream → TCPStream) : Streams :=
  let (stream, a) := a.lookupStream flowKey
  { a with streams := a.streams.insert flowKey (f stream) }

def syn (a : Streams) (flowKey : Bytes) (sequence : UInt32) : Streams :=
  a.update flowKey fun stream => stream.start (sequence + 1)

def add (a : Streams) (flowKey : Bytes) (sequence : UInt32) (payload : Bytes) : Streams :=
  a.update flowKey fun stream => (stream.start sequence).store sequence payload

/-- `Stream`; `nil` is the empty list. -/
def stream (a : Streams) (order : MapOrder) (flowKey : Bytes) : Except RuntimeError Bytes :=
  match a.streams.lookup flowKey with
  | none => .ok []
  | some stream => TCPStream.sweep stream.segments (stream.offsets order) [] 0

/-! ## Runs -/

inductive Call where
  | syn (flowKey : Bytes) (sequence : UInt32)
  | add (flowKey : Bytes) (sequence : UInt32) (payload : Bytes)

def afterCall (a : Streams) : Call → Streams
  | .syn flowKey sequence => a.syn flowKey sequence
  | .add flowKey sequence payload => a.add flowKey sequence payload

def after (a : Streams) (calls : List Call) : Streams := calls.foldl afterCall a

end Streams

/-! ## The sweep -/

namespace TCPStream

def chunkAt (segments : GoMap UInt32 Bytes) (offset : UInt32) : Chunk UInt8 :=
  ⟨offset.toNat, (segments.lookup offset).getD []⟩

/-- **The loop on machine numbers is the sweep on numbers**, and appends what the
stream has: within a stream shorter than 2³² no end wraps around. -/
theorem sweep_eq {bytes : Bytes} (hlen : bytes.length < 2 ^ 32) (segments : GoMap UInt32 Bytes)
    (offsets : List UInt32) :
    (∀ o ∈ offsets, ∃ p : Part bytes, p.chunk = chunkAt segments o) →
      ∀ position : UInt32, position.toNat ≤ bytes.length →
        sweep segments offsets (bytes.take position.toNat) position =
          .ok (bytes.take (sweepEnd (offsets.map (chunkAt segments)) position.toNat)) := by
  induction offsets with
  | nil =>
    intro _ position _
    rfl
  | cons o offsets ih =>
    intro hparts position hposition
    obtain ⟨p, hp⟩ := hparts o mem_cons_self
    have ih := ih fun o' ho' => hparts o' (mem_cons_of_mem _ ho')
    have hoffset : o.toNat = p.offset := congrArg Chunk.offset hp.symm
    have hsegment : (segments.lookup o).getD [] = p.chunk.data := congrArg Chunk.data hp.symm
    have hinside := p.inside
    have hfin : (o + UInt32.ofNat p.chunk.data.length).toNat = p.offset + p.length := by
      rw [UInt32.toNat_add, UInt32.toNat_ofNat', p.length_chunk, hoffset]
      omega
    rw [sweep, map_cons, sweepEnd, ← hp, hsegment]
    by_cases hgap : o > position
    · have hgap' : p.chunk.offset > position.toNat := by
        change position.toNat < p.offset
        rw [← hoffset]
        exact hgap
      rw [if_pos hgap, if_pos hgap']
    · have hle : p.offset ≤ position.toNat := by
        rw [← hoffset]
        exact Nat.not_lt.mp hgap
      have hle' : ¬ p.chunk.offset > position.toNat := Nat.not_lt.mpr hle
      rw [if_neg hgap, if_neg hle']
      have hiff : o + UInt32.ofNat p.chunk.data.length ≤ position ↔
          p.chunk.finish ≤ position.toNat := by
        rw [UInt32.le_iff_toNat_le, hfin, Chunk.finish, p.length_chunk]
        rfl
      by_cases hold : p.chunk.finish ≤ position.toNat
      · rw [if_pos (hiff.mpr hold), if_pos hold]
        exact ih position hposition
      · rw [if_neg (fun h => hold (hiff.mp h)), if_neg hold]
        have hfinish : p.chunk.finish = p.offset + p.length := by
          rw [Chunk.finish, p.length_chunk]
          rfl
        have hskip : (position - o).toNat = position.toNat - p.offset := by
          rw [UInt32.toNat_sub_of_le _ _ (UInt32.not_lt.mp hgap), hoffset]
        rw [hfinish] at hold ⊢
        rw [hskip, sliceFrom_eq (by rw [p.length_chunk]; omega), ok_bind]
        have hbody : bytes.take position.toNat ++ p.chunk.data.drop (position.toNat - p.offset) =
            bytes.take (o + UInt32.ofNat p.chunk.data.length).toNat := by
          rw [hfin]
          change bytes.take position.toNat ++ (((bytes.drop p.offset).take p.length).drop _) = _
          rw [drop_take, drop_drop, Nat.add_sub_cancel' hle, ← take_add]
          congr 1
          omega
        rw [hbody, ← hfin]
        exact ih _ (by rw [hfin]; exact hinside)

/-! ## What is kept -/

/-- What the parts add up to. -/
def totalLength {bytes : Bytes} (parts : List (Part bytes)) : Nat :=
  (parts.map fun p => p.length).sum

theorem totalLength_append {bytes : Bytes} (parts : List (Part bytes)) (p : Part bytes) :
    totalLength (parts ++ [p]) = totalLength parts + p.length := by
  simp [totalLength]

variable {bytes : Bytes}

/-- The stream, after the parts have been added. Only if the budget lasts has
each part left its mark. -/
structure Kept (base : UInt32) (parts : List (Part bytes)) (stream : TCPStream) : Prop where
  base_eq : stream.base = base
  hasBase : stream.hasBase = true
  stored_le : stream.stored ≤ totalLength parts
  sound : ∀ o segment, stream.segments.lookup o = some segment →
    ∃ p ∈ parts, p.offset = o.toNat ∧ p.chunk.data = segment
  complete : totalLength parts < maxStreamBytes → ∀ p ∈ parts, p.offset < maxStreamBytes →
    0 < p.length → ∃ segment, stream.segments.lookup (UInt32.ofNat p.offset) = some segment ∧
      p.length ≤ segment.length

variable {base : UInt32} {stream : TCPStream} {parts : List (Part bytes)}

theorem kept_start (base : UInt32) :
    Kept base ([] : List (Part bytes)) (TCPStream.new.start base) where
  base_eq := rfl
  hasBase := rfl
  stored_le := Nat.le_refl _
  sound _ _ h := nomatch h
  complete _ _ h := nomatch h

theorem Kept.start_eq (h : Kept base parts stream) (other : UInt32) :
    stream.start other = stream := by
  rw [start, h.hasBase]
  rfl

theorem toNat_offset (hlen : bytes.length < 2 ^ 32) (p : Part bytes) :
    (UInt32.ofNat p.offset).toNat = p.offset := by
  have hinside := p.inside
  rw [UInt32.toNat_ofNat']
  omega

theorem Kept.store (hlen : bytes.length < 2 ^ 32) (h : Kept base parts stream) (p : Part bytes) :
    Kept base (parts ++ [p]) (stream.store (base + UInt32.ofNat p.offset) p.chunk.data) := by
  obtain ⟨o, ho⟩ : ∃ o, o = UInt32.ofNat p.offset := ⟨_, rfl⟩
  have hoffset : base + UInt32.ofNat p.offset - stream.base = o := by
    rw [h.base_eq, ho, UInt32.add_comm, UInt32.add_sub_cancel]
  have htoNat : o.toNat = p.offset := by rw [ho]; exact toNat_offset hlen p
  have htotal := totalLength_append parts p
  have hstored := h.stored_le
  -- without a new segment, it remains to see why `p` needs none
  have hunchanged : (totalLength (parts ++ [p]) < maxStreamBytes → p.offset < maxStreamBytes →
      0 < p.length → ∃ segment, stream.segments.lookup o = some segment ∧
        p.length ≤ segment.length) → Kept base (parts ++ [p]) stream := by
    intro hp
    refine ⟨h.base_eq, h.hasBase, by omega, ?_, ?_⟩
    · intro o' segment hlookup
      obtain ⟨q, hq, heq⟩ := h.sound o' segment hlookup
      exact ⟨q, mem_append_left _ hq, heq⟩
    · intro hbudget q hq hqoffset hqlength
      rcases mem_append.mp hq with hq | hq
      · exact h.complete (by omega) q hq hqoffset hqlength
      · obtain rfl := mem_singleton.mp hq
        rw [← ho]
        exact hp hbudget hqoffset hqlength
  unfold TCPStream.store
  rw [hoffset]
  dsimp only
  by_cases hfull : o.toNat ≥ maxStreamBytes ∨ stream.stored ≥ maxStreamBytes
  · rw [if_pos hfull]
    apply hunchanged
    intro hbudget hp _
    omega
  · rw [if_neg hfull]
    split_ifs with hlonger
    · apply hunchanged
      intro _ _ hpos
      rw [p.length_chunk] at hlonger
      cases hlookup : stream.segments.lookup o with
      | none =>
        rw [hlookup] at hlonger
        exact absurd hlonger (Nat.not_le.mpr hpos)
      | some segment =>
        rw [hlookup] at hlonger
        exact ⟨segment, rfl, hlonger⟩
    · rw [p.length_chunk] at hlonger
      refine ⟨h.base_eq, h.hasBase, ?_, ?_, ?_⟩
      · change stream.stored + p.chunk.data.length ≤ _
        rw [p.length_chunk]
        omega
      · intro o' segment hlookup
        change (stream.segments.insert o p.chunk.data).lookup o' = _ at hlookup
        by_cases hsame : o' = o
        · subst hsame
          rw [AList.lookup_insert] at hlookup
          exact ⟨p, by simp, htoNat.symm, Option.some.inj hlookup⟩
        · rw [AList.lookup_insert_ne hsame] at hlookup
          obtain ⟨q, hq, heq⟩ := h.sound o' segment hlookup
          exact ⟨q, mem_append_left _ hq, heq⟩
      · intro hbudget q hq hqoffset hqlength
        change ∃ segment, (stream.segments.insert o p.chunk.data).lookup _ = _ ∧ _
        have hq' : q ∈ parts → ∃ segment, stream.segments.lookup (UInt32.ofNat q.offset) =
            some segment ∧ q.length ≤ segment.length :=
          fun hq => h.complete (by omega) q hq hqoffset hqlength
        by_cases hsame : UInt32.ofNat q.offset = o
        · refine ⟨p.chunk.data, by rw [hsame, AList.lookup_insert], ?_⟩
          rw [p.length_chunk]
          rcases mem_append.mp hq with hq | hq
          · -- the segment it replaces was at least as long as `q`
            obtain ⟨segment, hlookup, hle⟩ := hq' hq
            rw [hsame] at hlookup
            rw [hlookup] at hlonger
            change ¬ segment.length ≥ p.length at hlonger
            omega
          · obtain rfl := mem_singleton.mp hq
            exact Nat.le_refl _
        · rcases mem_append.mp hq with hq | hq
          · rw [AList.lookup_insert_ne hsame]
            exact hq' hq
          · obtain rfl := mem_singleton.mp hq
            exact absurd ho.symm hsame

/-! ## What is returned -/

theorem mem_offsets {order : MapOrder} {o : UInt32} :
    o ∈ stream.offsets order ↔ ∃ segment, stream.segments.lookup o = some segment := by
  rw [offsets, (perm_insertionSort _ _).mem_iff, mem_map]
  constructor
  · rintro ⟨⟨o', segment⟩, hmem, rfl⟩
    exact ⟨segment, GoMap.mem_range.mp hmem⟩
  · rintro ⟨segment, hlookup⟩
    exact ⟨(o, segment), GoMap.mem_range.mpr hlookup, rfl⟩

/-- The segments in the order of the sweep. -/
def sortedChunks (stream : TCPStream) (order : MapOrder) : List (Chunk UInt8) :=
  (stream.offsets order).map (chunkAt stream.segments)

theorem sortedChunks_sorted (stream : TCPStream) (order : MapOrder) :
    (stream.sortedChunks order).Pairwise fun c d => c.offset ≤ d.offset := by
  rw [sortedChunks, pairwise_map]
  exact (pairwise_insertionSort _ _).imp fun h => UInt32.le_iff_toNat_le.mp h

theorem covered_sortedChunks {order : MapOrder} {i : Nat} :
    covered (stream.sortedChunks order) i = true ↔
      ∃ o segment, stream.segments.lookup o = some segment ∧
        o.toNat ≤ i ∧ i < o.toNat + segment.length := by
  rw [covered_iff]
  constructor
  · rintro ⟨c, hc, hin⟩
    obtain ⟨o, ho, rfl⟩ := mem_map.mp hc
    obtain ⟨segment, hlookup⟩ := mem_offsets.mp ho
    have hin := Chunk.carries_iff.mp hin
    simp only [chunkAt, hlookup, Option.getD_some] at hin
    exact ⟨o, segment, hlookup, hin⟩
  · rintro ⟨o, segment, hlookup, hin⟩
    refine ⟨chunkAt stream.segments o, mem_map_of_mem (mem_offsets.mpr ⟨segment, hlookup⟩), ?_⟩
    rw [Chunk.carries_iff]
    simp only [chunkAt, hlookup, Option.getD_some]
    exact hin

/-- **The result, for any kept stream**: what the segments cover from the start. -/
theorem Kept.sweep_eq (hlen : bytes.length < 2 ^ 32) (h : Kept base parts stream)
    (order : MapOrder) :
    sweep stream.segments (stream.offsets order) [] 0 =
      .ok (bytes.take (sweepEnd (stream.sortedChunks order) 0)) := by
  refine TCPStream.sweep_eq hlen stream.segments (stream.offsets order) ?_ 0 (Nat.zero_le _)
  intro o ho
  obtain ⟨segment, hlookup⟩ := mem_offsets.mp ho
  obtain ⟨p, -, hoffset, hdata⟩ := h.sound o segment hlookup
  refine ⟨p, ?_⟩
  rw [chunkAt, hlookup, ← hoffset, Option.getD_some, ← hdata]
  rfl

/-- **Within the budget** the segments cover the same prefix as all the parts. -/
theorem Kept.firstGap (hlen : bytes.length < 2 ^ 32) (h : Kept base parts stream)
    (hbudget : totalLength parts < maxStreamBytes) (order : MapOrder) :
    FirstGap (covered (parts.map fun p => p.chunk)) (sweepEnd (stream.sortedChunks order) 0) := by
  have hsub : ∀ i, covered (stream.sortedChunks order) i = true →
      covered (parts.map fun p => p.chunk) i = true := by
    intro i hcov
    obtain ⟨o, segment, hlookup, hin⟩ := covered_sortedChunks.mp hcov
    obtain ⟨p, hp, hoffset, rfl⟩ := h.sound o segment hlookup
    rw [covered_iff]
    refine ⟨p.chunk, mem_map_of_mem hp, ?_⟩
    rw [Chunk.carries_iff]
    change p.offset ≤ i ∧ i < p.offset + _
    rw [hoffset]
    exact hin
  have hsup : ∀ i < maxStreamBytes, covered (parts.map fun p => p.chunk) i = true →
      covered (stream.sortedChunks order) i = true := by
    intro i hi hcov
    obtain ⟨c, hc, hin⟩ := covered_iff.mp hcov
    obtain ⟨p, hp, rfl⟩ := mem_map.mp hc
    obtain ⟨hlow, hhigh⟩ := Chunk.carries_iff.mp hin
    rw [p.length_chunk] at hhigh
    change p.offset ≤ i at hlow
    change i < p.offset + p.length at hhigh
    obtain ⟨segment, hlookup, hle⟩ := h.complete hbudget p hp (by omega) (by omega)
    refine covered_sortedChunks.mpr ⟨_, segment, hlookup, ?_⟩
    rw [toNat_offset hlen]
    omega
  have hsorted := sweepEnd_firstGap (stream.sortedChunks_sorted order)
  -- the parts reach no further than they are long together
  have hend : covered (parts.map fun p => p.chunk) bytes.length = false := by
    refine covered_eq_false ?_
    intro c hc
    obtain ⟨p, -, rfl⟩ := mem_map.mp hc
    exact p.finish_chunk
  obtain ⟨n, hgap⟩ := exists_firstGap hend
  have hshort : n < maxStreamBytes := by
    have hsum := hgap.le_sum
    have htotal : ((parts.map fun p => p.chunk).map fun c => c.data.length).sum =
        totalLength parts := by
      rw [map_map, totalLength]
      congr 1
      exact map_congr_left fun p _ => p.length_chunk
    omega
  have hsame : FirstGap (covered (stream.sortedChunks order)) n := by
    refine ⟨fun i hi => hsup i (by omega) (hgap.before i hi), ?_⟩
    rw [← Bool.not_eq_true]
    intro hcov
    have := hsub n hcov
    rw [hgap.gap] at this
    cases this
  rw [hsorted.unique hsame]
  exact hgap

end TCPStream

/-! ## Whole runs -/

namespace Streams

variable {bytes flowKey : Bytes}

theorem lookup_update_self (a : Streams) (flowKey : Bytes) (f : TCPStream → TCPStream) :
    (a.update flowKey f).streams.lookup flowKey =
      some (f ((a.streams.lookup flowKey).getD .new)) := by
  rw [update, lookupStream]
  cases a.streams.lookup flowKey with
  | none => exact AList.lookup_insert _
  | some stream => exact AList.lookup_insert _

theorem lookup_update_ne (a : Streams) {flowKey' : Bytes} (hne : flowKey ≠ flowKey')
    (f : TCPStream → TCPStream) :
    (a.update flowKey' f).streams.lookup flowKey = a.streams.lookup flowKey := by
  rw [update, lookupStream]
  cases a.streams.lookup flowKey' with
  | none => exact (AList.lookup_insert_ne hne).trans (AList.lookup_insert_ne hne)
  | some stream => exact AList.lookup_insert_ne hne

/-- The call that adds a part of the stream, whose first byte has the number
behind `isn`. -/
def addPart (flowKey : Bytes) (isn : UInt32) (p : Part bytes) : Call :=
  .add flowKey (isn + 1 + UInt32.ofNat p.offset) p.chunk.data

/-- Calls that add nothing to the flow: those for other flows, and every SYN. -/
def Apart (flowKey : Bytes) : Call → Prop
  | .syn .. => True
  | .add flowKey' .. => flowKey' ≠ flowKey

def Holds (a : Streams) (flowKey : Bytes) (base : UInt32) (parts : List (Part bytes)) : Prop :=
  ∃ stream, a.streams.lookup flowKey = some stream ∧ stream.Kept base parts

variable {base : UInt32} {a : Streams} {parts : List (Part bytes)}

theorem Holds.update (h : a.Holds flowKey base parts) {parts' : List (Part bytes)}
    {f : TCPStream → TCPStream}
    (hf : ∀ stream : TCPStream, stream.Kept base parts → (f stream).Kept base parts') :
    (a.update flowKey f).Holds flowKey base parts' := by
  obtain ⟨stream, hlookup, hkept⟩ := h
  refine ⟨f stream, ?_, hf stream hkept⟩
  rw [lookup_update_self, hlookup]
  rfl

theorem Holds.update_ne (h : a.Holds flowKey base parts) {flowKey' : Bytes}
    (hne : flowKey' ≠ flowKey) (f : TCPStream → TCPStream) :
    (a.update flowKey' f).Holds flowKey base parts := by
  obtain ⟨stream, hlookup, hkept⟩ := h
  exact ⟨stream, by rw [lookup_update_ne _ hne.symm, hlookup], hkept⟩

theorem Holds.apart (h : a.Holds flowKey base parts) {call : Call} (hapart : Apart flowKey call) :
    (a.afterCall call).Holds flowKey base parts := by
  cases call with
  | add flowKey' sequence payload => exact h.update_ne hapart _
  | syn flowKey' sequence =>
    by_cases hsame : flowKey' = flowKey
    · subst hsame
      refine h.update (f := fun stream => stream.start (sequence + 1)) ?_
      intro stream hkept
      rw [hkept.start_eq]
      exact hkept
    · exact h.update_ne hsame _

theorem Holds.addPart (hlen : bytes.length < 2 ^ 32) {isn : UInt32}
    (h : a.Holds flowKey (isn + 1) parts) (p : Part bytes) :
    (a.afterCall (addPart flowKey isn p)).Holds flowKey (isn + 1) (parts ++ [p]) := by
  refine h.update (f := fun stream => (stream.start _).store _ p.chunk.data) ?_
  intro stream hkept
  rw [hkept.start_eq]
  exact hkept.store hlen p

def afterSYN (a : Streams) (flowKey : Bytes) (isn : UInt32)
    (events : List (Event (Part bytes) (Apart flowKey))) : Streams :=
  (a.syn flowKey isn).after (events.map (Event.call (Streams.addPart flowKey isn)))

/-- **The run so far**: what has arrived is kept. -/
theorem holds_afterSYN (hlen : bytes.length < 2 ^ 32) (hnew : a.streams.lookup flowKey = none)
    (isn : UInt32) (events : List (Event (Part bytes) (Apart flowKey))) :
    (a.afterSYN flowKey isn events).Holds flowKey (isn + 1) (arrived events) := by
  refine foldl_events (fun (a : Streams) parts => a.Holds flowKey (isn + 1) parts) (fun _ => True)
    (fun _ _ _ => trivial) ?_ ?_ ?_ events trivial
  · intro a parts p h _
    exact h.addPart hlen p
  · intro a parts call h hapart
    exact h.apart hapart
  · refine ⟨_, lookup_update_self _ _ _, ?_⟩
    rw [hnew]
    exact TCPStream.kept_start _

theorem Holds.stream_eq (hlen : bytes.length < 2 ^ 32) (h : a.Holds flowKey base parts)
    (order : MapOrder) :
    ∃ n, a.stream order flowKey = .ok (bytes.take n) ∧
      (TCPStream.totalLength parts < maxStreamBytes →
        FirstGap (covered (parts.map fun p => p.chunk)) n) := by
  obtain ⟨stream, hlookup, hkept⟩ := h
  refine ⟨_, ?_, fun hbudget => hkept.firstGap hlen hbudget order⟩
  rw [Streams.stream, hlookup]
  exact hkept.sweep_eq hlen order

/-- **Stream reassembly is exact.** Behind a SYN, with segments cut from one
stream, in any order, between calls for other flows: the result is a prefix of
the stream, and if the payloads are shorter than 2²⁰ bytes together, it is the
longest one they cover — the same for every order of arrival. -/
theorem stream_exact (hlen : bytes.length < 2 ^ 32) (hnew : a.streams.lookup flowKey = none)
    (isn : UInt32) (events : List (Event (Part bytes) (Apart flowKey))) (order : MapOrder) :
    (∃ n, (a.afterSYN flowKey isn events).stream order flowKey = .ok (bytes.take n)) ∧
    (((arrived events).map fun p => p.length).sum < 2 ^ 20 →
      (∃ n, FirstGap (covered ((arrived events).map fun p => p.chunk)) n ∧
        (a.afterSYN flowKey isn events).stream order flowKey = .ok (bytes.take n)) ∧
      ∀ (events' : List (Event (Part bytes) (Apart flowKey))) (order' : MapOrder),
        (arrived events').Perm (arrived events) →
          (a.afterSYN flowKey isn events').stream order' flowKey =
            (a.afterSYN flowKey isn events).stream order flowKey) := by
  have hresult := fun events order => (holds_afterSYN hlen hnew isn events).stream_eq hlen order
  obtain ⟨n, hstream, hgap⟩ := hresult events order
  refine ⟨⟨n, hstream⟩, ?_⟩
  intro hbudget
  refine ⟨⟨n, hgap hbudget, hstream⟩, ?_⟩
  intro events' order' hperm
  obtain ⟨n', hstream', hgap'⟩ := hresult events' order'
  have hbudget' : TCPStream.totalLength (arrived events') < maxStreamBytes := by
    rw [TCPStream.totalLength, (hperm.map _).sum_eq]
    exact hbudget
  have hcovered : covered ((arrived events').map fun p => p.chunk) =
      covered ((arrived events).map fun p => p.chunk) :=
    covered_congr fun c => (hperm.map _).mem_iff
  have hgap' := hgap' hbudget'
  rw [hcovered] at hgap'
  rw [hstream, hstream', hgap'.unique (hgap hbudget)]

/-! ### Segments around the end of the sequence numbers -/

/-- Two segments that overlap, the later one first; the numbers wrap between
their ends. -/
def wrappedEvents : List (Event (Part (ascii "helloworld")) (Apart (ascii "flow"))) :=
  [.item ⟨3, 7, by decide⟩,
    .other (.add (ascii "other") 7 [1]) (show ascii "other" ≠ ascii "flow" by decide),
    .item ⟨0, 5, by decide⟩]

theorem stream_wrapped :
    (Streams.new.afterSYN (ascii "flow") 0xfffffffa wrappedEvents).stream .stored (ascii "flow") =
      .ok (ascii "helloworld") := by
  have hexact := @stream_exact (ascii "helloworld") (ascii "flow") .new (by decide) rfl
    0xfffffffa wrappedEvents .stored
  obtain ⟨⟨n, hgap, hstream⟩, -⟩ := hexact.2 (by decide)
  have hten : FirstGap (covered ((arrived wrappedEvents).map fun p => p.chunk)) 10 :=
    ⟨by decide +kernel, by decide +kernel⟩
  rw [hgap.unique hten] at hstream
  exact hstream

end Streams

end HeadlessClient.Capture
