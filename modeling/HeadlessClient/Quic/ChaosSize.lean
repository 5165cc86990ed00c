import HeadlessClient.Quic.ChaosSplit

/-!
# Quic — chaos protection keeps the packet size

The rest of `chaosProtect` after the splitting loop — PINGs, spread padding,
shuffle — and the whole function: `chaosProtect_spec` says what it returns, and
the size of the Initial packet follows from it. The stream contents are the
business of `ChaosStream`, from the same specification.
-/

namespace HeadlessClient.Quic

open Base List

/-- The zero bytes a list of entries is serialized with. -/
def paddingSize (es : List ChaosEntry) : Nat := ((paddings es).map Int.toNat).sum

theorem paddingSize_append (xs ys : List ChaosEntry) :
    paddingSize (xs ++ ys) = paddingSize xs + paddingSize ys := by
  simp [paddingSize]

theorem paddingSize_perm {xs ys : List ChaosEntry} (h : xs.Perm ys) :
    paddingSize xs = paddingSize ys :=
  ((h.filterMap _).map _).sum_nat

/-! ## PINGs -/

variable {remaining paddingLen : Int} {es spread entries : List ChaosEntry} {store : Store}

theorem numPingFrames_le {k : Nat} (h : 0 ≤ remaining) :
    (numPingFrames k remaining : Int) ≤ remaining := by
  unfold numPingFrames
  dsimp only
  split_ifs with hk
  · exact toUint64_le h
  · omega

/-- **Adding PINGs** appends PING frames, paid from the padding. -/
theorem addPings_spec (s : SplitState) (h : 0 ≤ s.remainingPadding) :
    ∃ m : Nat, (addPings s).store = s.store ∧
      (addPings s).entries = s.entries ++ List.replicate m (.ofFrame .ping) ∧
      (addPings s).remainingPadding + m = s.remainingPadding ∧
      0 ≤ (addPings s).remainingPadding := by
  unfold addPings
  split_ifs with hpos
  · have hle := numPingFrames_le (k := (s.random.uint64N
      (maxAddedPingFrames + 1 - minAddedPingFrames)).1) h
    exact ⟨_, rfl, rfl, Int.sub_add_cancel _ _, by dsimp only; omega⟩
  · exact ⟨0, rfl, (append_nil _).symm, Int.add_zero _, h⟩

theorem values_replicate_ping (store : Store) (m : Nat) :
    values store (List.replicate m (.ofFrame .ping)) = List.replicate m .ping := by
  induction m with
  | zero => rfl
  | succ m ih => exact congrArg (Frame.ping :: ·) ih

theorem paddings_replicate_ping (m : Nat) :
    paddings (List.replicate m (.ofFrame .ping)) = [] := by
  induction m with
  | zero => rfl
  | succ m ih => exact ih

theorem totalSize_replicate_ping (m : Nat) : totalSize (List.replicate m .ping) = m := by
  simp [totalSize, Frame.size]

/-! ## Spreading the padding -/

/-- What spreading `remaining` bytes over `es` leaves: the frames as they were, a
rest that is not negative, and runs of padding that make up the difference. -/
structure SpreadSpec (es : List ChaosEntry) (remaining : Int) (spread : List ChaosEntry)
    (rest : Int) : Prop where
  frames : ∀ store, values store spread = values store es
  budget : 0 ≤ rest
  size : (paddingSize spread : Int) + rest = paddingSize es + remaining
  positive : ∀ p ∈ paddings spread, p ∈ paddings es ∨ 0 < p

theorem SpreadSpec.cons {es spread : List ChaosEntry} {remaining rest : Int}
    (h : SpreadSpec es remaining spread rest) (e : ChaosEntry) :
    SpreadSpec (e :: es) remaining (e :: spread) rest where
  frames store := by
    show values store ([e] ++ spread) = values store ([e] ++ es)
    rw [values_append, values_append, h.frames]
  budget := h.budget
  size := by
    show (paddingSize ([e] ++ spread) : Int) + rest = paddingSize ([e] ++ es) + remaining
    have := h.size
    rw [paddingSize_append, paddingSize_append]
    omega
  positive := by
    show ∀ p ∈ paddings ([e] ++ spread), p ∈ paddings ([e] ++ es) ∨ 0 < p
    intro p hp
    rw [paddings_append, mem_append] at hp ⊢
    rcases hp with hp | hp
    · exact .inl (.inl hp)
    · exact (h.positive p hp).imp .inr id

theorem SpreadSpec.pad {rest : Int} {n : Nat} (h : SpreadSpec es (remaining - n) spread rest)
    (hn : 0 < n) :
    SpreadSpec es remaining (.padding n :: spread) rest where
  frames store := by rw [values_cons_padding, h.frames]
  budget := h.budget
  size := by
    show (paddingSize ([.padding n] ++ spread) : Int) + rest = paddingSize es + remaining
    have hone : paddingSize [.padding (n : Int)] = n := by simp [paddingSize, paddings,
      ChaosEntry.padding?, ChaosEntry.padding]
    have := h.size
    rw [paddingSize_append, hone]
    omega
  positive := by
    show ∀ p ∈ (n : Int) :: paddings spread, p ∈ paddings es ∨ 0 < p
    intro p hp
    rcases mem_cons.mp hp with rfl | hp
    · exact .inr (by omega)
    · exact h.positive p hp

/-- **The spreading loop**, from any padding that is not negative. -/
theorem spreadLoop_spec (es : List ChaosEntry) : ∀ (remaining : Int) (random : Rand),
    0 ≤ remaining →
    SpreadSpec es remaining (spreadLoop es remaining random).1
      (spreadLoop es remaining random).2.1 := by
  induction es with
  | nil =>
    intro remaining random h
    exact ⟨fun _ => rfl, h, rfl, fun p hp => .inl hp⟩
  | cons e es ih =>
    intro remaining random h
    have hslot := random.uint64N_lt (n := toUint64 remaining + 1) (Nat.succ_pos _)
    have hle := toUint64_le h
    rw [spreadLoop]
    dsimp only
    split_ifs with hpos
    · exact ((ih _ _ (by omega)).cons e).pad hpos
    · exact (ih _ _ h).cons e

theorem spreadRest_spec {rest : Int} (h : SpreadSpec es remaining spread rest) :
    SpreadSpec es remaining (spreadRest spread rest) 0 := by
  unfold spreadRest
  split_ifs with hpos
  · have hone : (paddingSize [.padding rest] : Int) = rest := by
      simp only [paddingSize, paddings, ChaosEntry.padding?, ChaosEntry.padding,
        filterMap_cons, filterMap_nil, map_cons, map_nil, sum_cons, sum_nil]
      omega
    refine ⟨fun store => ?_, Int.le_refl _, ?_, ?_⟩
    · rw [values_append, h.frames]; exact append_nil _
    · have := h.size
      rw [paddingSize_append]
      omega
    · intro p hp
      rw [paddings_append, mem_append] at hp
      rcases hp with hp | hp
      · exact h.positive p hp
      · exact .inr (by rw [mem_singleton.mp hp]; exact hpos)
  · have := h.size
    have := h.budget
    exact ⟨h.frames, Int.le_refl _, by omega, h.positive⟩

/-! ## The whole function -/

/-- What `chaosProtect` returns for the frames `input` of the caller's `store`. -/
structure Protected (store : Store) (input : List Frame) (paddingLen : Int) (store' : Store)
    (entries : List ChaosEntry) : Prop where
  /-- The caller's frames are as they were. -/
  caller : ∃ t, store' = store ++ t
  /-- The entries hold splits of the input and added PINGs. -/
  frames : ∃ split m, SplitsToMany input split ∧
    (values store' entries).Perm (split ++ List.replicate m .ping)
  ends : ∀ f, Frame.crypto f ∈ values store' entries → f.finish < 2 ^ 62
  positive : ∀ p ∈ paddings entries, 0 < p
  size : (totalSize (values store' entries) : Int) + paddingSize entries
    = totalSize input + paddingLen

theorem SplitInv.protected {input : List Frame} {lo hi : Nat} {s : SplitState}
    (h : SplitInv store input lo hi (totalSize input + paddingLen) s) (hhi : hi < 2 ^ 62)
    (hspread : SpreadSpec (addPings s).entries (addPings s).remainingPadding spread 0)
    (hperm : entries.Perm spread) :
    Protected store input paddingLen (addPings s).store entries := by
  obtain ⟨m, hstore, hentries, hpaid, -⟩ := addPings_spec s h.budget
  have hvalues : (values (addPings s).store entries).Perm
      (values s.store s.entries ++ List.replicate m .ping) := by
    refine (hperm.filterMap _).trans ?_
    show (values _ spread).Perm _
    rw [hspread.frames, hstore, hentries, values_append, values_replicate_ping]
  have hunpadded : paddings (addPings s).entries = [] := by
    rw [hentries, paddings_append, h.unpadded, paddings_replicate_ping]; rfl
  refine ⟨by rw [hstore]; exact h.caller, ⟨_, m, h.splits, hvalues⟩, ?_, ?_, ?_⟩
  · intro f hf
    have hf' := hvalues.mem_iff.mp hf
    rcases mem_append.mp hf' with hf' | hf'
    · exact Nat.lt_of_le_of_lt (h.within f hf').2 hhi
    · exact absurd (eq_of_mem_replicate hf') (by simp)
  · intro p hp
    have hp' := (hperm.filterMap ChaosEntry.padding?).mem_iff.mp hp
    rcases hspread.positive p hp' with hin | hpos
    · rw [hunpadded] at hin
      exact absurd hin not_mem_nil
    · exact hpos
  · have hpad : paddingSize (addPings s).entries = 0 := by simp [paddingSize, hunpadded]
    have hsize := h.size
    have hspreadSize := hspread.size
    rw [hpad] at hspreadSize
    rw [totalSize_perm hvalues, paddingSize_perm hperm, totalSize_append, totalSize_replicate_ping]
    omega

/-- The overhead the loop guards with, as a number. -/
def maxSplitOverhead (copied : CopyState) : Int :=
  1 + Varint.size copied.highestEnd + Varint.size (copied.highestEnd - copied.lowestOffset)

section

variable {store : Store} {frames : List FrameRef} {paddingLen : Int}
  (hvalid : ∀ r ∈ frames, store.Valid r)
  (hcrypto : ∃ f, Frame.crypto f ∈ frames.map store.load)
  (hend : ∀ f, Frame.crypto f ∈ frames.map store.load → f.finish < 2 ^ 62)
include hvalid hcrypto hend

theorem copyFrames_highestEnd_lt : (copyFrames store frames).highestEnd < 2 ^ 62 := by
  have hcopied := copyFrames_inv store frames hvalid
  obtain ⟨f, hf, hfin⟩ := hcopied.attained (hcopied.seen.mpr hcrypto)
  rw [← hfin]
  exact hend f hf

/-- **`chaosProtect` returns**, for every outcome of the draws, and what it
returns is `Protected`. -/
theorem chaosProtect_spec (hp : 0 < paddingLen) (random : Rand) :
    ∃ entries store' random', chaosProtect store frames paddingLen random
        = .ok ⟨some entries, store', random'⟩ ∧
      Protected store (frames.map store.load) paddingLen store' entries := by
  have hcopied := copyFrames_inv store frames hvalid
  have hseen : (copyFrames store frames).hasCryptoFrame = true := hcopied.seen.mpr hcrypto
  have hhi := copyFrames_highestEnd_lt hvalid hcrypto hend
  have hne : ¬(paddingLen ≤ 0 ∨ frames.length = 0) := by
    rintro (h | h)
    · omega
    · obtain ⟨f, hf⟩ := hcrypto
      rw [length_eq_zero_iff.mp h] at hf
      exact absurd hf not_mem_nil
  have hoverhead : minCryptoFrameSize (copyFrames store frames).highestEnd
      ((copyFrames store frames).highestEnd - (copyFrames store frames).lowestOffset)
      = .ok (maxSplitOverhead (copyFrames store frames)) :=
    minCryptoFrameSize_eq hhi (by omega)
  set draw := random.uint64N (maxAddedCryptoFrames + 1 - minAddedCryptoFrames)
  obtain ⟨s, hloop, hs⟩ := splitLoop_inv hhi
    (show maxSplitOverhead (copyFrames store frames) = _ from rfl)
    (minAddedCryptoFrames + draw.1) _ (SplitInv.init hcopied hseen hp draw.2)
  have hrun : chaosProtect store frames paddingLen random = .ok (scatter s) := by
    rw [chaosProtect, if_neg hne]
    dsimp only
    rw [hseen, if_neg (by decide), hoverhead, ok_bind, hloop, ok_bind]
  obtain ⟨m, -, -, -, hbudget⟩ := addPings_spec s hs.budget
  have hspread := spreadRest_spec
    (spreadLoop_spec (addPings s).entries _ (addPings s).random hbudget)
  exact ⟨_, _, _, hrun, hs.protected hhi hspread (Rand.shuffle_perm _ _)⟩

end

/-! ## Serialized sizes -/

theorem of_liftPanic {α : Type} {x : Except Panic α} {a : α} (h : liftPanic x = .ok a) :
    x = .ok a := by
  cases x with
  | error e => cases h
  | ok a' =>
    cases h
    rfl

def Frame.Serializes (f : Frame) : Prop := ∃ b, f.append = .ok b

theorem Frame.append_size {f : Frame} {b : Bytes} (h : f.append = .ok b) : b.length = f.size := by
  cases f with
  | ping => cases h; rfl
  | crypto f => exact CryptoFrame.append_size (of_liftPanic h)
  | other f =>
    rw [Frame.append] at h
    cases hf : f.encoding with
    | none => rw [hf] at h; cases h
    | some b' =>
      rw [hf] at h
      cases h
      exact f.consistent _ hf

theorem Frame.serializes_crypto {f : CryptoFrame} (h : f.finish < 2 ^ 62) :
    (Frame.crypto f).Serializes := by
  obtain ⟨b, hb⟩ := CryptoFrame.append_ok h
  exact ⟨b, by rw [Frame.append, hb]; rfl⟩

theorem appendFrames_ok {frames : List FrameRef} :
    ∀ {b : Bytes}, appendFrames store frames = .ok b →
      b.length = totalSize (frames.map store.load) ∧
        ∀ f ∈ frames.map store.load, f.Serializes := by
  induction frames with
  | nil => intro b h; cases h; exact ⟨rfl, by simp⟩
  | cons r frames ih =>
    intro b h
    obtain ⟨x, hx, h⟩ := bind_eq_ok.mp h
    obtain ⟨xs, hxs, h⟩ := bind_eq_ok.mp h
    cases h
    obtain ⟨hlen, hser⟩ := ih hxs
    rw [map_cons]
    refine ⟨by rw [length_append, totalSize_cons, Frame.append_size hx, hlen], ?_⟩
    intro f hf
    rcases mem_cons.mp hf with rfl | hf
    · exact ⟨x, hx⟩
    · exact hser f hf

theorem appendFrames_of_serializes {frames : List FrameRef}
    (h : ∀ f ∈ frames.map store.load, f.Serializes) : ∃ b, appendFrames store frames = .ok b := by
  induction frames with
  | nil => exact ⟨[], rfl⟩
  | cons r frames ih =>
    rw [map_cons] at h
    obtain ⟨x, hx⟩ := h _ mem_cons_self
    obtain ⟨xs, hxs⟩ := ih fun f hf => h f (mem_cons_of_mem _ hf)
    exact ⟨_, by rw [appendFrames, hx, ok_bind, hxs, ok_bind]⟩

theorem appendEntries_size :
    ∀ {b : Bytes}, appendEntries store es = .ok b →
      b.length = totalSize (values store es) + paddingSize es := by
  induction es with
  | nil => intro b h; cases h; rfl
  | cons e es ih =>
    intro b h
    obtain ⟨fr, n⟩ := e
    cases fr with
    | none =>
      obtain ⟨xs, hxs, h⟩ := bind_eq_ok.mp h
      cases h
      have hpad : paddingSize (⟨none, n⟩ :: es) = n.toNat + paddingSize es := by
        simp [paddingSize, paddings, ChaosEntry.padding?]
      rw [length_append, length_replicate, ih hxs, hpad,
        show values store (⟨none, n⟩ :: es) = values store es from rfl]
      omega
    | some r =>
      obtain ⟨x, hx, h⟩ := bind_eq_ok.mp h
      obtain ⟨xs, hxs, h⟩ := bind_eq_ok.mp h
      cases h
      rw [length_append, Frame.append_size hx, ih hxs,
        show values store (⟨some r, n⟩ :: es) = store.load r :: values store es from rfl,
        show paddingSize (⟨some r, n⟩ :: es) = paddingSize es from rfl, totalSize_cons]
      omega

theorem appendEntries_ok (h : ∀ f ∈ values store es, f.Serializes) :
    ∃ b, appendEntries store es = .ok b := by
  induction es with
  | nil => exact ⟨[], rfl⟩
  | cons e es ih =>
    obtain ⟨fr, n⟩ := e
    cases fr with
    | none =>
      obtain ⟨xs, hxs⟩ := ih h
      exact ⟨_, by rw [appendEntries, hxs, ok_bind]⟩
    | some r =>
      have hcons : values store (⟨some r, n⟩ :: es) = store.load r :: values store es := rfl
      rw [hcons] at h
      obtain ⟨x, hx⟩ := h _ mem_cons_self
      obtain ⟨xs, hxs⟩ := ih fun f hf => h f (mem_cons_of_mem _ hf)
      exact ⟨_, by rw [appendEntries, hx, ok_bind, hxs, ok_bind]⟩

theorem Protected.serializes {store' : Store} {input : List Frame}
    (h : Protected store input paddingLen store' entries) (hser : ∀ f ∈ input, f.Serializes) :
    ∀ f ∈ values store' entries, f.Serializes := by
  intro f hf
  obtain ⟨split, m, hsplit, hperm⟩ := h.frames
  cases hc : f.crypto? with
  | some g =>
    obtain rfl := Frame.crypto?_eq_some.mp hc
    exact Frame.serializes_crypto (h.ends g hf)
  | none =>
    rcases mem_append.mp (hperm.mem_iff.mp hf) with hf | hf
    · -- not a CRYPTO frame, so it was there before the splits
      have hother : f ∈ others split := mem_filter.mpr ⟨hf, by simp [hc]⟩
      have hinput := hsplit.others_perm.mem_iff.mp hother
      exact hser f (mem_filter.mp hinput).1
    · rw [eq_of_mem_replicate hf]
      exact ⟨_, rfl⟩

/-! ## The packer -/

def ackLength : Option AckFrame → Except Panic Nat
  | none => .ok 0
  | some ack => ack.length

/-- `pl.length` is what `maybeGetCryptoPacket` adds up: the `Length` of the ACK
and of every frame. -/
def Payload.Composed (store : Store) (pl : Payload) : Prop :=
  ∃ n, ackLength pl.ack = .ok n ∧
    pl.length = n + totalSize (pl.frames.map store.load) + (pl.streamFrames.map (·.length)).sum

theorem appendAck_length {ack : Option AckFrame} {b : Bytes} (h : appendAck ack = .ok b) :
    ackLength ack = .ok b.length := by
  cases ack with
  | none => cases h; rfl
  | some f => exact AckFrame.append_length (of_liftPanic h)

/-- Not the chaos payload size error. -/
def NoChaosSizeError {α : Type} (x : Except PackError α) : Prop :=
  ∀ expected got, x ≠ .error (.chaosPayloadSize expected got)

section

variable {α β : Type}

theorem NoChaosSizeError.ok (a : α) : NoChaosSizeError (.ok a) := by
  intro expected got h
  cases h

theorem NoChaosSizeError.bind {x : Except PackError α} {f : α → Except PackError β}
    (hx : NoChaosSizeError x) (hf : ∀ a, x = .ok a → NoChaosSizeError (f a)) :
    NoChaosSizeError (x >>= f) := by
  cases x with
  | ok a => exact hf a rfl
  | error e =>
    intro expected got h
    rw [error_bind] at h
    cases h
    exact hx expected got rfl

theorem NoChaosSizeError.liftPanic (x : Except Panic α) : NoChaosSizeError (liftPanic x) := by
  cases x with
  | ok a => exact .ok a
  | error p => intro expected got h; cases h

end

theorem Frame.append_noChaosSizeError (f : Frame) : NoChaosSizeError f.append := by
  cases f with
  | crypto f => exact .liftPanic _
  | ping => exact .ok _
  | other f =>
    rw [Frame.append]
    cases f.encoding with
    | some b => exact .ok b
    | none => intro expected got h; cases h

theorem appendFrames_noChaosSizeError (store : Store) (frames : List FrameRef) :
    NoChaosSizeError (appendFrames store frames) := by
  induction frames with
  | nil => exact .ok _
  | cons r frames ih =>
    exact (Frame.append_noChaosSizeError _).bind fun _ _ => ih.bind fun _ _ => .ok _

theorem appendEntries_noChaosSizeError (store : Store) (es : List ChaosEntry) :
    NoChaosSizeError (appendEntries store es) := by
  induction es with
  | nil => exact .ok _
  | cons e es ih =>
    obtain ⟨fr, n⟩ := e
    cases fr with
    | none => exact ih.bind fun _ _ => .ok _
    | some r =>
      exact (Frame.append_noChaosSizeError _).bind fun _ _ => ih.bind fun _ _ => .ok _

theorem plainPayload_noChaosSizeError (store : Store) (pl : Payload) (paddingLen : Int)
    (ack : Bytes) (random : Rand) :
    NoChaosSizeError (plainPayload store pl paddingLen ack random) := by
  refine (appendFrames_noChaosSizeError _ _).bind fun control _ => ?_
  refine (appendFrames_noChaosSizeError _ _).bind fun streams _ => ?_
  dsimp only
  split_ifs
  · intro expected got h; cases h
  · exact .ok _
  · intro expected got h; cases h
  · exact .ok _

theorem Protected.chaosPayload_ok {store' : Store} {pl : Payload} {ack body : Bytes}
    (h : Protected store (pl.frames.map store.load) paddingLen store' entries)
    (hpl : pl.Composed store) (hstream : pl.streamFrames = []) (hack : appendAck pl.ack = .ok ack)
    (hbody : appendEntries store' entries = .ok body) :
    chaosPayload pl paddingLen ack body = .ok (ack ++ body) := by
  obtain ⟨n, hn, hlen⟩ := hpl
  rw [appendAck_length hack] at hn
  cases hn
  have hsize := h.size
  have hbodySize := appendEntries_size hbody
  rw [hstream, map_nil, sum_nil] at hlen
  rw [chaosPayload, if_neg]
  rw [length_append]
  omega

/-- `remainingPadding` is not negative after any number `n` of rounds of the
splitting loop, after the PINGs, and after any number `m` of rounds of the
spreading loop. -/
def RemainingNeverNegative (store : Store) (frames : List FrameRef) (paddingLen : Int)
    (random : Rand) : Prop :=
  let copied := copyFrames store frames
  let draw := random.uint64N (maxAddedCryptoFrames + 1 - minAddedCryptoFrames)
  ∃ overhead,
    minCryptoFrameSize copied.highestEnd (copied.highestEnd - copied.lowestOffset)
      = .ok overhead ∧
    ∀ n m, ∃ s, splitLoop overhead n ⟨copied.store, copied.entries, paddingLen, draw.2⟩ = .ok s ∧
      0 ≤ s.remainingPadding ∧ 0 ≤ (addPings s).remainingPadding ∧
      0 ≤ (spreadLoop ((addPings s).entries.take m) (addPings s).remainingPadding
        (addPings s).random).2.1

section

variable {store : Store} {frames : List FrameRef} {paddingLen : Int}
  (hvalid : ∀ r ∈ frames, store.Valid r)
  (hcrypto : ∃ f, Frame.crypto f ∈ frames.map store.load)
  (hend : ∀ f, Frame.crypto f ∈ frames.map store.load → f.finish < 2 ^ 62)
  (hp : 0 < paddingLen)
include hvalid hcrypto hend hp

theorem remaining_never_negative (random : Rand) :
    RemainingNeverNegative store frames paddingLen random := by
  have hcopied := copyFrames_inv store frames hvalid
  have hseen : (copyFrames store frames).hasCryptoFrame = true := hcopied.seen.mpr hcrypto
  have hhi := copyFrames_highestEnd_lt hvalid hcrypto hend
  refine ⟨maxSplitOverhead (copyFrames store frames), minCryptoFrameSize_eq hhi (by omega), ?_⟩
  intro n m
  obtain ⟨s, hloop, hs⟩ := splitLoop_inv hhi rfl n _ (SplitInv.init hcopied hseen hp _)
  obtain ⟨k, -, -, -, hbudget⟩ := addPings_spec s hs.budget
  exact ⟨s, hloop, hs.budget, hbudget, (spreadLoop_spec _ _ _ hbudget).budget⟩

theorem appendPacketPayload_noChaosSizeError {pl : Payload} (hframes : pl.frames = frames)
    (hpl : pl.Composed store) (chaos : Bool) (random : Rand) :
    NoChaosSizeError (appendPacketPayload store pl paddingLen chaos random) := by
  subst hframes
  have hack : NoChaosSizeError (appendAck pl.ack) := by
    cases pl.ack with
    | none => exact .ok _
    | some ack => exact .liftPanic _
  refine hack.bind fun ack hack => ?_
  split_ifs with hc
  · obtain ⟨entries, store', random', hrun, hprot⟩ :=
      chaosProtect_spec hvalid hcrypto hend hp random
    rw [hrun, liftPanic, ok_bind]
    refine (appendEntries_noChaosSizeError _ _).bind fun body hbody => ?_
    rw [hprot.chaosPayload_ok hpl (length_eq_zero_iff.mp hc.2) hack hbody]
    exact .ok _
  · exact plainPayload_noChaosSizeError _ _ _ _ _

/-- **Chaos protection keeps the Initial packet size.** -/
theorem chaosProtect_keeps_size (random : Rand) :
    RemainingNeverNegative store frames paddingLen random ∧
    (∃ entries store' random', chaosProtect store frames paddingLen random
        = .ok ⟨some entries, store', random'⟩ ∧
      (totalSize (values store' entries) : Int) + paddingSize entries
        = totalSize (frames.map store.load) + paddingLen ∧
      ∀ input, appendFrames store frames = .ok input →
        ∃ body, appendEntries store' entries = .ok body ∧
          (body.length : Int) = input.length + paddingLen) ∧
    ∀ pl : Payload, pl.frames = frames → pl.Composed store → ∀ chaos expected got,
      appendPacketPayload store pl paddingLen chaos random
        ≠ .error (.chaosPayloadSize expected got) := by
  refine ⟨remaining_never_negative hvalid hcrypto hend hp random, ?_, ?_⟩
  · obtain ⟨entries, store', random', hrun, hprot⟩ :=
      chaosProtect_spec hvalid hcrypto hend hp random
    refine ⟨entries, store', random', hrun, hprot.size, ?_⟩
    intro input hinput
    obtain ⟨hlen, hser⟩ := appendFrames_ok hinput
    obtain ⟨body, hbody⟩ := appendEntries_ok (hprot.serializes hser)
    have hsize := hprot.size
    have hbodySize := appendEntries_size hbody
    exact ⟨body, hbody, by omega⟩
  · intro pl hframes hpl chaos
    exact appendPacketPayload_noChaosSizeError hvalid hcrypto hend hp hframes hpl chaos random

end

/-- A three-byte CRYPTO frame and twenty bytes of padding. -/
theorem chaosProtect_keeps_size_three_bytes :
    ∃ entries store' random', chaosProtect [⟨0, [1, 2, 3]⟩] [.crypto 0] 20 ⟨[5, 0, 1]⟩
        = .ok ⟨some entries, store', random'⟩ ∧
      (totalSize (values store' entries) : Int) + paddingSize entries = 26 := by
  obtain ⟨-, ⟨entries, store', random', hrun, hsize, -⟩, -⟩ :=
    @chaosProtect_keeps_size [⟨0, [1, 2, 3]⟩] [.crypto 0] 20
      (by simp [Store.Valid]) ⟨_, mem_singleton.mpr rfl⟩
      (by
        intro f hf
        obtain rfl : f = ⟨0, [1, 2, 3]⟩ := by
          injection mem_singleton.mp hf
        decide)
      (by decide) ⟨[5, 0, 1]⟩
  exact ⟨entries, store', random', hrun, hsize⟩

/-- **The bound on the END of a frame is needed**: one byte at the last offset
QUIC can encode ends past it, and measuring that end panics. -/
theorem chaosProtect_panics_past_the_last_offset :
    chaosProtect [⟨2 ^ 62 - 1, [0]⟩] [.crypto 0] 100 ⟨[]⟩ = .error (.varintLength (2 ^ 62)) := by
  rfl

end HeadlessClient.Quic
