import HeadlessClient.Capture.AssembleDTLS
import HeadlessClient.DTLS.Records

/-!
# DTLS — a hello that is sent and captured

The records that `prepareHandshakeRecords` makes of a hello, before there are keys,
against `AssembleDTLS` of the capture tool: in whatever order they arrive, the last one
gives the hello.
-/

namespace HeadlessClient.DTLS.Records

open Base Wire Capture List

/-- The hello as the sender has it. -/
def helloHandshake (m : HelloMessage) : Handshake :=
  ⟨⟨m.messageType, .ofNat m.body.length, m.messageSeq, 0, 0⟩, .ok m.body⟩

def recordHeader (epoch seq : Nat) : DTLSHeader :=
  ⟨versionDTLS12, putUint 2 epoch ++ putUint 6 seq, isDTLSVersion_dtls12, by simp⟩

/-- The pieces follow each other, from byte `i` to the end of the body. -/
def Tiles (m : HelloMessage) : Nat → List (Piece m) → Prop
  | i, [] => m.body.length ≤ i
  | i, p :: ps => p.offset = i ∧ 0 < p.length ∧ Tiles m (i + p.length) ps

variable {m : HelloMessage} {epoch i : Nat} {track : Bool} {ps : List (Piece m)}

theorem Tiles.covers (h : Tiles m i ps) {j : Nat} (hi : i ≤ j) (hj : j < m.body.length) :
    ∃ p ∈ ps, p.offset ≤ j ∧ j < p.offset + p.length := by
  induction ps generalizing i with
  | nil => exact absurd h (by simp only [Tiles]; omega)
  | cons p ps ih =>
    obtain ⟨rfl, -, hrest⟩ := h
    by_cases hlt : j < p.offset + p.length
    · exact ⟨p, mem_cons_self, hi, hlt⟩
    · obtain ⟨q, hq, hin⟩ := ih hrest (Nat.not_lt.mp hlt)
      exact ⟨q, mem_cons_of_mem _ hq, hin⟩

/-- No piece has the first byte of another. -/
theorem Tiles.apart (h : Tiles m i ps) : (∀ p ∈ ps, i ≤ p.offset ∧ 0 < p.length) ∧
    ps.Pairwise fun p q => p.offset + p.length ≤ q.offset ∨ q.offset + q.length ≤ p.offset := by
  induction ps generalizing i with
  | nil => exact ⟨nofun, .nil⟩
  | cons p ps ih =>
    obtain ⟨rfl, hpos, hrest⟩ := h
    obtain ⟨hall, hpairs⟩ := ih hrest
    refine ⟨forall_mem_cons.mpr ⟨⟨Nat.le_refl _, hpos⟩, fun q hq => ⟨?_, (hall q hq).2⟩⟩,
      hpairs.cons fun q hq => .inl (hall q hq).1⟩
    exact Nat.le_of_add_right_le (hall q hq).1

theorem splitBytes_pos (bytes : Bytes) (splitLen : { n : Nat // 0 < n }) (i : Nat) :
    ∀ piece ∈ splitBytes bytes splitLen i, 0 < piece.length := by
  fun_induction splitBytes bytes splitLen i with
  | case1 i hi ih =>
    refine forall_mem_cons.mpr ⟨?_, ih⟩
    have := splitLen.2
    rw [length_drop, length_take]
    omega
  | case2 => simp

theorem marshal_append_data {offset length : Nat} (h : offset + length ≤ m.body.length) :
    Header.marshal { (helloHandshake m).header with
        fragmentOffset := .ofNat offset, fragmentLength := .ofNat length } ++
      (m.body.drop offset).take length = m.putFragment offset length := by
  have hnat : ∀ n ≤ m.body.length, (UInt32.ofNat n).toNat = n := fun n hn =>
    UInt32.toNat_ofNat_of_lt' (by have := m.length_lt; rw [UInt32.size]; omega)
  rw [Header.marshal, helloHandshake, hnat _ (Nat.le_refl _), hnat offset (by omega),
    hnat length (by omega)]
  simp [HelloMessage.putFragment, putUint]

/-- The record of a fragment is the one that the capture tool calls a piece. -/
theorem prepareFragment_piece {c : Conn} (p : Part m.body) (hsize : p.length + 12 ≤ 2 ^ 14)
    (hepoch : epoch ≤ 0xffff) (hseq : c.localSequenceNumber epoch < 2 ^ 48) :
    ∃ record, c.prepareFragment ⟨epoch, .plaintext, none, track⟩ (m.putFragment p.offset p.length) =
        .ok (record, c.sent epoch) ∧
      record.raw = Piece.record ⟨p, recordHeader epoch (c.localSequenceNumber epoch)⟩ := by
  have hlength : (m.putFragment p.offset p.length).length = p.length + 12 := by
    have := p.inside
    simp [HelloMessage.putFragment]
    omega
  have halloc : c.allocateLocalSequenceNumber epoch =
      .ok (c.localSequenceNumber epoch, c.sent epoch) := by
    rw [Conn.allocateLocalSequenceNumber, if_neg (by omega), if_neg (by omega)]
    rfl
  have hraw : (c.sent epoch).encodeRecord epoch (c.localSequenceNumber epoch) 22
      (m.putFragment p.offset p.length) .plaintext =
      .ok (Piece.record ⟨p, recordHeader epoch (c.localSequenceNumber epoch)⟩) := by
    rw [Conn.encodeRecord, if_neg (by omega), if_neg (by omega), marshalRecord,
      if_neg (by omega), if_neg (by omega), UInt16.toNat_ofNat_of_lt' (Nat.lt_succ_of_le hepoch)]
    simp [Piece.record, HelloMessage.fragmentRecord, Framing.header, DTLSHeader.framing,
      recordHeader, Framing.version, Framing.numbers, vec, contentTypeHandshake, versionDTLS12,
      putUint]
  have hread : Header.unmarshal (m.putFragment p.offset p.length) = .ok _ :=
    if_neg (by rw [headerLength]; omega)
  rw [Conn.prepareFragment, halloc, ok_bind]
  simp only [hraw, hread, ok_bind]
  cases track with
  | false => exact ⟨_, rfl, rfl⟩
  | true => exact ⟨_, rfl, rfl⟩

theorem prepareFragments_tiles (hepoch : epoch ≤ 0xffff) (pieces : List Bytes) :
    ∀ (offset : Nat) (c : Conn), m.body.drop offset = pieces.flatten → offset ≤ m.body.length →
      (∀ piece ∈ pieces, 0 < piece.length ∧ piece.length + 12 ≤ 2 ^ 14) →
      c.localSequenceNumber epoch + m.body.length ≤ 2 ^ 48 + offset →
      ∃ records c' ps, Conn.prepareFragments ⟨epoch, .plaintext, none, track⟩ c
          (fragmentsFrom (helloHandshake m).header offset pieces) = .ok (records, c') ∧
        records.map (·.raw) = ps.map Piece.record ∧ Tiles m offset ps := by
  induction pieces with
  | nil =>
    intro offset c hdrop _ _ _
    exact ⟨[], c, [], rfl, rfl, drop_eq_nil_iff.mp hdrop⟩
  | cons piece pieces ih =>
    intro offset c hdrop hoffset hsizes hseq
    obtain ⟨⟨hpos, hsize⟩, hsizes⟩ := forall_mem_cons.mp hsizes
    rw [flatten_cons] at hdrop
    have hinside : offset + piece.length ≤ m.body.length := by
      have := congrArg List.length hdrop
      rw [length_drop, length_append] at this
      omega
    have hpiece : (m.body.drop offset).take piece.length = piece := by rw [hdrop, take_left]
    obtain ⟨record, hrecord, hraw⟩ := @prepareFragment_piece m epoch track c
      ⟨offset, piece.length, hinside⟩ hsize hepoch (by omega)
    have hnext : (c.sent epoch).localSequenceNumber epoch = c.localSequenceNumber epoch + 1 :=
      Function.update_self ..
    obtain ⟨records, c', ps, hrecords, hraws, htiles⟩ := ih (offset + piece.length) (c.sent epoch)
      (by rw [← drop_drop, hdrop, drop_left]) hinside hsizes (by omega)
    refine ⟨record :: records, c', ⟨⟨offset, piece.length, hinside⟩, _⟩ :: ps, ?_,
      congrArg₂ cons hraw hraws, rfl, hpos, htiles⟩
    have hfragment := marshal_append_data hinside
    rw [hpiece] at hfragment
    rw [fragmentsFrom, Conn.prepareFragments]
    simp only [selectHandshakeFragment, ok_bind, if_true, hfragment, hrecord, hrecords]
    rfl

theorem prepareHandshakeRecords_tiles (c : Conn) (hepoch : epoch ≤ 0xffff)
    (hseq : c.localSequenceNumber epoch + m.body.length ≤ 2 ^ 48)
    (hmtu : c.maximumTransmissionUnit ≤ 2 ^ 14 + 13) :
    ∃ records c' ps, c.prepareHandshakeRecords ⟨epoch, .plaintext, none, track⟩ (helloHandshake m) =
        .ok (records, c') ∧
      records.map (·.raw) = ps.map Piece.record ∧ Tiles m 0 ps := by
  have hmax : (c.maxHandshakeFragmentLength 13 : Nat) + 12 ≤ 2 ^ 14 := by
    rw [Conn.maxHandshakeFragmentLength]
    split_ifs <;> simp only [headerLength] <;> omega
  obtain ⟨hflatten, hfilled, -⟩ := splitBytes_spec m.body (c.maxHandshakeFragmentLength 13) 0
  have hpos := splitBytes_pos m.body (c.maxHandshakeFragmentLength 13) 0
  have hoverhead : c.handshakeRecordOverhead epoch .plaintext = .ok 13 := if_pos (.inl (by decide))
  have hfragments : c.fragmentHandshake (helloHandshake m) 13 = .ok (fragmentsFrom _ 0 _) :=
    congrArg (fun pieces => Except.ok (fragmentsFrom _ 0 pieces)) (if_neg fun hnil => ?_)
  · obtain ⟨records, c', ps, hrecords, hraws, htiles⟩ := prepareFragments_tiles hepoch _ 0 c
      hflatten.symm (Nat.zero_le _)
      (fun piece hp => ⟨hpos piece hp, by have := hfilled _ (mem_map_of_mem hp); omega⟩) hseq
    refine ⟨records, c', ps, ?_, hraws, htiles⟩
    rw [Conn.prepareHandshakeRecords, hoverhead, ok_bind, hfragments, ok_bind, hrecords]
  · rw [hnil] at hflatten
    exact absurd (congrArg List.length hflatten.symm) (Nat.ne_of_gt m.nonempty)

/-- Without the piece `p` its first byte is missing. -/
theorem Tiles.not_covered {p : Piece m} {before rest : List (Piece m)} (h : Tiles m i ps)
    (hperm : (before ++ p :: rest).Perm ps) : ¬ m.Covered before := by
  intro hcovered
  obtain ⟨hall, hapart⟩ := h.apart
  have hpos := (hall p (hperm.subset (by simp))).2
  obtain ⟨q, hq, hfrom, hto⟩ := hcovered p.offset (by have := p.inside; omega)
  have hpair := (hperm.pairwise_iff fun h => h.symm).mpr hapart
  rcases (pairwise_append.mp hpair).2.2 q hq p mem_cons_self with hle | hle <;> omega

open Assembler in
/-- **The capture tool reads what the client sends**: in whatever order the records of a
hello arrive, and whatever arrives in between, the last one gives it and no other does. -/
theorem hello_records_captured (m : HelloMessage) (c : Conn) {epoch : Nat} (track : Bool)
    (hepoch : epoch ≤ 0xffff) (hseq : c.localSequenceNumber epoch + m.body.length ≤ 2 ^ 48)
    (hmtu : c.maximumTransmissionUnit ≤ 2 ^ 14 + 13) :
    ∃ records c' pieces,
      c.prepareHandshakeRecords ⟨epoch, .plaintext, none, track⟩ (helloHandshake m) =
        .ok (records, c') ∧
      records.map (·.raw) = pieces.map (Piece.record (m := m)) ∧
      ∀ (keys : Primitives) (a : Assembler) (flowKey : Bytes),
        a.dtlsFrags.lookup (keyOf flowKey m) = none →
        ∀ (events : List (Event (Piece m) (Apart flowKey m))) (p : Piece m) rest,
          (arrived events ++ p :: rest).Perm pieces →
          ((a.after keys (events.map (Event.call (pieceCall flowKey)))).assembleDTLS
              flowKey p.record).1 =
            if rest = [] then some <$> parseHello (m.record .plain) else .ok none := by
  obtain ⟨records, c', pieces, hrecords, hraws, htiles⟩ :=
    @prepareHandshakeRecords_tiles m epoch track c hepoch hseq hmtu
  refine ⟨records, c', pieces, hrecords, hraws, ?_⟩
  intro keys a flowKey hfresh events p rest hperm
  have hcollected := (collected_fresh hfresh).after keys events (htiles.not_covered hperm)
  cases rest with
  | nil =>
    refine (hcollected.complete fun j hj => ?_).1
    obtain ⟨q, hq, hin⟩ := htiles.covers (Nat.zero_le j) hj
    exact ⟨q, hperm.symm.subset hq, hin⟩
  | cons q rest =>
    refine (hcollected.incomplete (@Tiles.not_covered _ _ _ q _ rest htiles ?_)).1
    rwa [append_assoc]

open Assembler in
/-- A hello in two records, which arrive in the opposite order. -/
theorem hello_records_captured_swapped :
    ∃ first second c', sampleConn.prepareHandshakeRecords ⟨0, .plaintext, none, true⟩
        (helloHandshake dtlsClientHello) = .ok ([first, second], c') ∧
      (Assembler.new.assembleDTLS [] second.raw).1 = .ok none ∧
      ((Assembler.new.after plainPrimitives [.dtls [] second.raw]).assembleDTLS [] first.raw).1 =
        some <$> parseHello (dtlsClientHello.record .plain) := by
  obtain ⟨records, c', pieces, hok, hraws, hcaptured⟩ := hello_records_captured dtlsClientHello
    sampleConn true (Nat.zero_le _) (by decide) (by decide)
  have hcount : (sampleConn.prepareHandshakeRecords ⟨0, .plaintext, none, true⟩
      (helloHandshake dtlsClientHello)).toOption.map (·.1.length) = some 2 := by
    decide +kernel
  rw [hok] at hcount
  obtain ⟨first, second, rfl⟩ := length_eq_two.mp (Option.some.inj hcount)
  have htwo : pieces.length = 2 := by simpa using (congrArg List.length hraws).symm
  obtain ⟨p, q, rfl⟩ := length_eq_two.mp htwo
  obtain ⟨hfirst, hsecond⟩ : first.raw = p.record ∧ second.raw = q.record := by simpa using hraws
  have hrun := hcaptured plainPrimitives .new [] rfl
  refine ⟨first, second, c', hok, ?_⟩
  rw [hfirst, hsecond]
  exact ⟨hrun [] q [p] (.swap ..), hrun [.item q] p [] (.swap ..)⟩

end HeadlessClient.DTLS.Records
