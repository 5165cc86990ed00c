import HeadlessClient.Capture.Hello

/-!
# Capture — parsing never panics

The list parsers inside the extensions RETURN on every body (`Returns`), and the
parsers of the fields never leave the record (`Steady`). So `ParseHello` and
`ParseDTLSFragment` report an error or return, on any bytes whatsoever.
-/

namespace HeadlessClient.Capture

open Base Wire

/-! ## The lists inside the extensions -/

section Lists

variable (body : Bytes)

theorem uint16List_returns : Returns (uint16List body) := by
  refine .runLoop (fun s => .dite (fun h => ?_) fun _ => .ok _) _
  rw [slice_eq (by omega) (by omega), ok_bind]
  exact .ok _

theorem parseALPN_returns : Returns (parseALPN body) := by
  refine .ite (fun _ => .ok _) fun _ => ?_
  refine .runLoop (fun s => .dite (fun h => ?_) fun _ => .ok _) _
  rw [index_eq h, ok_bind]
  refine .ite (fun _ => .ok _) fun hfits => ?_
  rw [slice_eq (by omega) (by omega), ok_bind]
  exact .ok _

theorem parseKeyShare_returns : Returns (parseKeyShare body) := by
  refine Returns.bind (.runLoop (fun s => ?_) _) fun _ => .ok _
  refine .dite (fun h => ?_) fun _ => .ok _
  rw [slice_eq (by omega) (by omega), ok_bind, slice_eq (by omega) (by omega), ok_bind]
  exact .ite (fun _ => .ok _) fun _ => .ok _

theorem parseServerName_returns : Returns (parseServerName body) := by
  refine .runLoop (fun pos => .dite (fun h => ?_) fun _ => .ok _) _
  rw [index_eq (by omega), ok_bind, slice_eq (by omega) (by omega), ok_bind]
  refine .ite (fun _ => .ok _) fun hfits => ?_
  refine .ite (fun _ => ?_) fun _ => .ok _
  rw [slice_eq (by omega) (by omega), ok_bind]
  exact .ok _

theorem parseQUICTransportParams_returns : Returns (parseQUICTransportParams body) := by
  refine .runLoop (fun s => .ite (fun _ => .ok _) fun _ => ?_) _
  split
  · exact .ok _
  · exact .ok _

theorem uint16Tail_returns (n : Nat) (old : List UInt16) : Returns (uint16Tail n body old) := by
  refine .ite (fun h => ?_) fun _ => .ok _
  rw [sliceFrom_eq h, ok_bind]
  exact uint16List_returns _

theorem srtpProfiles_returns (old : List UInt16) : Returns (srtpProfiles body old) := by
  refine .ite (fun h => ?_) fun _ => .ok _
  rw [slice_eq (by omega) (by omega), ok_bind]
  refine .ite (fun hlen => ?_) fun _ => .ok _
  rw [slice_eq (by omega) (by omega), ok_bind]
  exact uint16List_returns _

theorem pointFormats_returns (hello : Hello) : Returns (if 1 ≤ body.length then (do
      let formats ← sliceFrom .panic body 1
      .ok { hello with pointFormats := formats })
    else .ok hello : Except WireError Hello) := by
  refine .ite (fun h => ?_) fun _ => .ok _
  rw [sliceFrom_eq h, ok_bind]
  exact .ok _

theorem applyKnownExtension_returns (hello : Hello) (extensionType : UInt16) :
    Returns (applyKnownExtension hello extensionType body) :=
  .ite (fun _ => (uint16Tail_returns _ _ _).bind fun _ => .ok _) fun _ =>
  .ite (fun _ => (uint16Tail_returns _ _ _).bind fun _ => .ok _) fun _ =>
  .ite (fun _ => pointFormats_returns _ _) fun _ =>
  .ite (fun _ => (srtpProfiles_returns _ _).bind fun _ => .ok _) fun _ =>
  .ite (fun _ => (parseALPN_returns _).bind fun _ => .ok _) fun _ =>
  .ite (fun _ => (parseQUICTransportParams_returns _).bind fun _ => .ok _) fun _ =>
  .ite (fun _ => (parseServerName_returns _).bind fun _ => .ok _) fun _ =>
  .ite (fun _ => (uint16Tail_returns _ _ _).bind fun _ => .ok _) fun _ =>
  .ite (fun _ => (parseKeyShare_returns _).bind fun _ => .ok _) fun _ =>
  .ok _

end Lists

/-! ## The fields -/

theorem moved_readExtension (offset : Nat) :
    Moved id (readExtension offset) (readExtension offset) :=
  Moved.u16.andThen fun _ => Moved.u16.andThen fun _ => (Moved.bytes _).andThen fun _ =>
    Moved.pure id _

theorem extensions_safe (fin : Nat) {s : Hello × ByteReader} (h : s.2.pos ≤ s.2.buf.length) :
    Safe .panic (runLoop _ (extensionRound fin) s) := by
  refine runLoop_induct (fun s : Hello × ByteReader => s.2.pos ≤ s.2.buf.length)
    (Safe WireError.panic)
    ?_ h
  intro s hs
  have hsteady := (moved_readExtension s.2.pos).steady
  have hsafe := (hsteady s.2 hs).1
  by_cases hlt : s.2.pos < fin
  · cases hread : readExtension s.2.pos s.2 with
    | error e =>
      rw [extensionRound_error hlt hread]
      rw [hread] at hsafe
      exact fun x hx => hsafe x (by rw [Except.error.inj hx])
    | ok x =>
      obtain ⟨⟨extension, body⟩, reader⟩ := x
      obtain ⟨hello, hello_eq⟩ : Returns (addExtension s.1 extension body) :=
        applyKnownExtension_returns _ _ _
      rw [extensionRound_next hlt hread, hello_eq, ok_bind]
      exact hsteady.inside hs hread
  · rw [extensionRound_done (Nat.not_lt.mp hlt)]
    exact .ok _

/-! ### The whole record -/

theorem parseExtensions_safe (hello : Hello) {r : ByteReader} (h : r.pos ≤ r.buf.length) :
    Safe .panic (parseExtensions hello r) := by
  unfold parseExtensions
  split
  · exact .ok _
  · refine (steady_u16 r h).1.bind fun x hx => ?_
    dsimp only
    split
    · exact fun _ h => nomatch h
    · exact extensions_safe _ (steady_u16.inside h hx)

theorem moved_readMessageSeq (isDTLS : Bool) (messageLen : Nat) :
    Moved id (readMessageSeq isDTLS messageLen) (readMessageSeq isDTLS messageLen) := by
  cases isDTLS with
  | true =>
    exact Moved.u16.andThen fun _ => Moved.u24.andThen fun _ => Moved.u24.andThen fun _ =>
      (Moved.check (by simp) _).andThen fun _ => Moved.pure id _
  | false => exact Moved.pure id _

theorem moved_readHandshakeHeader (isDTLS : Bool) :
    Moved id (readHandshakeHeader isDTLS) (readHandshakeHeader isDTLS) :=
  Moved.u8.andThen fun _ => (Moved.check (by simp) _).andThen fun _ => Moved.u24.andThen fun _ =>
    (moved_readMessageSeq _ _).andThen fun _ => Moved.pure id _

theorem moved_readCookie (isDTLS isClient : Bool) :
    Moved id (readCookie isDTLS isClient) (readCookie isDTLS isClient) := by
  unfold readCookie
  split
  · exact Moved.u8.andThen fun _ => (Moved.skip _).andThen fun _ => Moved.pure id _
  · exact Moved.pure id _

theorem moved_readSuites (isClient : Bool) :
    Moved id (readSuites isClient) (readSuites isClient) := by
  cases isClient with
  | true =>
    exact Moved.u16.andThen fun _ => (Moved.bytes _).andThen fun _ =>
      (Moved.lift (uint16List_returns _).safe).andThen fun _ => Moved.u8.andThen fun _ =>
        (Moved.bytes _).andThen fun _ => Moved.pure id _
  | false => exact Moved.u16.andThen fun _ => Moved.u8.andThen fun _ => Moved.pure id _

theorem steady_parseHelloFields (hello : Hello) (isDTLS isClient : Bool) :
    Steady (parseHelloFields hello isDTLS isClient) :=
  steady_u16.bind fun _ => (steady_bytes _).bind fun _ => steady_u8.bind fun _ =>
    (steady_skip _).bind fun _ => (moved_readCookie _ _).steady.bind fun _ =>
      (moved_readSuites _).steady.bind fun _ => Steady.pure _

theorem ensure_safe (ok : Bool) {e : WireError} (he : ∀ x, e ≠ .panic x) :
    Safe .panic (ensure ok e) := by
  cases ok with
  | true => exact .ok ()
  | false => exact fun x h => he x (Except.error.inj h)

theorem ensure_eq_ok {ok : Bool} {e : WireError} {u : Unit} (h : ensure ok e = .ok u) :
    ok = true := by
  cases ok with
  | true => rfl
  | false => cases h

theorem readHello_safe (record : Bytes) (version : UInt16) (isDTLS : Bool) {r : ByteReader}
    (h : r.pos ≤ r.buf.length) : Safe .panic (readHello record version isDTLS r) := by
  have hheader := (moved_readHandshakeHeader isDTLS).steady
  refine (hheader r h).1.bind fun x hx => ?_
  obtain ⟨⟨messageType, messageSeq⟩, r₁⟩ := x
  have hfields := steady_parseHelloFields
    { kind := helloKind isDTLS messageType, recordVersion := version, messageSeq, raw := record }
    isDTLS (messageType = handshakeClientHello)
  have hr₁ := hheader.inside h hx
  exact (hfields r₁ hr₁).1.bind fun y hy => parseExtensions_safe _ (hfields.inside hr₁ hy)

/-- **Parsing a hello never panics**, whatever the bytes. -/
theorem parseHello_safe (record : Bytes) : Safe .panic (parseHello record) := by
  refine (ensure_safe _ (by simp)).bind fun _ hlen => ?_
  have hlen : 5 ≤ record.length := of_decide_eq_true (ensure_eq_ok hlen)
  rw [index_eq (show 0 < record.length by omega), ok_bind]
  refine (ensure_safe _ (by simp)).bind fun _ _ => ?_
  rw [slice_eq (by omega) (by omega), ok_bind]
  refine (ensure_safe _ (by simp)).bind fun _ hheader => ?_
  have hheader := of_decide_eq_true (ensure_eq_ok hheader)
  refine (readHello_safe _ _ _ ?_).bind fun _ _ => .ok _
  exact Nat.le_of_succ_le hheader

theorem steady_readFragment : Steady readFragment :=
  steady_u8.bind fun _ => steady_u24.bind fun _ => steady_u16.bind fun _ =>
    steady_u24.bind fun _ => steady_u24.bind fun _ => (steady_bytes _).bind fun _ =>
      (Steady.check (by simp) _).bind fun _ => Steady.pure _

theorem parseDTLSFragment_safe (record : Bytes) : Safe .panic (parseDTLSFragment record) := by
  refine (ensure_safe _ (by simp)).bind fun _ hlen => ?_
  have hlen : 13 + 12 ≤ record.length := of_decide_eq_true (ensure_eq_ok hlen)
  rw [index_eq (show 0 < record.length by omega), ok_bind]
  refine (ensure_safe _ (by simp)).bind fun _ _ => ?_
  rw [slice_eq (by omega) (by omega), ok_bind]
  refine (ensure_safe _ (by simp)).bind fun _ _ => ?_
  refine Safe.bind (steady_readFragment _ ?_).1 fun _ _ => .ok _
  exact Nat.le_trans (show dtlsRecordHeaderLen ≤ 13 + 12 by decide) hlen

end HeadlessClient.Capture
