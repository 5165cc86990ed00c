import HeadlessClient.Capture.Reader
import HeadlessClient.Wire.Vector

/-!
# Capture — parsers

Code that reads through a `*byteReader` is a `Parser`: a program over the
reader's position that stops at the first error. What a parser does on an
encoding is said by `Exact p bs a`:

* on bytes that START with `bs` it returns `a` and stands behind `bs`;
* on bytes that END within `bs` it reports `ErrTruncated`.

`Exact` composes (`Exact.bind`), so a parser is described in the order it reads,
with its failures on every proper prefix.
-/

namespace HeadlessClient.Capture

open Base Wire List

abbrev Parser (α : Type) := StateT ByteReader (Except WireError) α

variable {α β : Type}

namespace Parser

/-- `return …, err`. -/
def fail (e : WireError) : Parser α := fun _ => .error e

/-- `if !ok { return err }`. -/
def check (ok : Bool) (e : WireError) : Parser Unit := if ok then pure () else fail e

def u8 : Parser UInt8 := ByteReader.u8

def u16 : Parser UInt16 := fun r =>
  if r.remaining < 2 then .error .truncated
  else do
    let value ← slice .panic r.buf r.pos (r.pos + 2)
    .ok (UInt16.ofNat (getUint value), { r with pos := r.pos + 2 })

def u24 : Parser Nat := fun r =>
  if r.remaining < 3 then .error .truncated
  else do
    let high ← index .panic r.buf r.pos
    let middle ← index .panic r.buf (r.pos + 1)
    let low ← index .panic r.buf (r.pos + 2)
    .ok (getUint [high, middle, low], { r with pos := r.pos + 3 })

def bytes (n : Nat) : Parser Bytes := ByteReader.bytes n

/-- `skip`: the bytes are dropped. -/
def skip (n : Nat) : Parser Unit := do
  let _ ← bytes n
  pure ()

end Parser

/-! ## Reading in range -/

variable {r r' : ByteReader} {bs : Bytes} {p : Parser α} {q : α → Parser β} {a : α} {b : β}

theorem slice_rest {n : Nat} (h : n ≤ r.remaining) (hpos : r.pos ≤ r.buf.length) :
    slice WireError.panic r.buf r.pos (r.pos + n) = .ok (r.rest.take n) := by
  unfold ByteReader.remaining at h
  rw [slice_eq (Nat.le_add_right _ _) (by omega), ByteReader.rest, take_drop, Nat.add_comm]

/-- `u8` as the source has it, with the index it takes: never out of range. -/
theorem u8_eq_indexed (r : ByteReader) : r.u8 =
    if r.remaining < 1 then .error .truncated
    else (do
      let value ← index .panic r.buf r.pos
      .ok (value, { r with pos := r.pos + 1 })) := by
  unfold ByteReader.u8
  by_cases h : r.remaining < 1
  · rw [if_pos h, if_pos h]
  · have hlt : r.pos < r.buf.length := by
      unfold ByteReader.remaining at h
      omega
    rw [if_neg h, if_neg h, index_eq hlt, ok_bind, getD_eq_getElem _ _ hlt]

/-! ## Exact parsers -/

/-- The reader `n` bytes further on. -/
def ByteReader.advance (r : ByteReader) (n : Nat) : ByteReader := { r with pos := r.pos + n }

theorem ByteReader.advance_advance (r : ByteReader) (m n : Nat) :
    (r.advance m).advance n = r.advance (m + n) := by
  simp [ByteReader.advance, Nat.add_assoc]

theorem ByteReader.rest_advance {t : Bytes} (h : r.rest = bs ++ t) :
    (r.advance bs.length).rest = t := by
  have hdrop : r.buf.drop (r.pos + bs.length) = r.rest.drop bs.length := by
    rw [ByteReader.rest, drop_drop]
  rw [ByteReader.rest, ByteReader.advance, hdrop, h, drop_left]

structure Exact (p : Parser α) (bs : Bytes) (a : α) : Prop where
  takes : ∀ (r : ByteReader) (t : Bytes), r.rest = bs ++ t → p r = .ok (a, r.advance bs.length)
  short : ∀ (r : ByteReader) (missing : Bytes), r.rest ++ missing = bs → missing ≠ [] →
    p r = .error .truncated

namespace Exact

theorem pure (a : α) : Exact (Pure.pure a) [] a where
  takes _ _ _ := rfl
  short _ _ h hne := absurd (append_eq_nil_iff.mp h).2 hne

/-- **Reading one thing and then another.** -/
theorem bind {cs : Bytes} (hp : Exact p bs a) (hq : Exact (q a) cs b) :
    Exact (p >>= q) (bs ++ cs) b where
  takes := by
    intro r t hr
    rw [append_assoc] at hr
    have hrest := ByteReader.rest_advance hr
    have hrun : (p >>= q) r = q a (r.advance bs.length) := by
      change (p r >>= fun x => q x.1 x.2) = _
      rw [hp.takes r _ hr, ok_bind]
    rw [hrun, hq.takes _ t hrest, ByteReader.advance_advance, length_append]
  short := by
    intro r missing hr hne
    change (p r >>= fun x => q x.1 x.2) = _
    rcases append_eq_append_iff.mp hr with ⟨more, hbs, hmissing⟩ | ⟨more, hrest, hcs⟩
    · by_cases hmore : more = []
      · -- exactly `bs` is there: the second parser has nothing to read
        subst hmore
        rw [append_nil] at hbs
        rw [nil_append] at hmissing
        have hrest : r.rest = bs ++ [] := by rw [append_nil, hbs]
        rw [hp.takes r [] hrest, ok_bind]
        exact hq.short _ missing (by rw [ByteReader.rest_advance hrest]; exact hmissing) hne
      · rw [hp.short r more hbs.symm hmore, error_bind]
    · rw [hp.takes r more hrest, ok_bind]
      exact hq.short _ missing (by rw [ByteReader.rest_advance hrest]; exact hcs.symm) hne

theorem check {ok : Bool} (h : ok = true) (e : WireError) {q : Parser α} (hq : Exact q bs a) :
    Exact (Parser.check ok e >>= fun _ => q) bs a := by
  have hpass : Exact (Parser.check ok e) [] () := by
    rw [h]
    exact pure ()
  exact hpass.bind hq

theorem andThen (h : Exact p bs a) (hq : Exact (q a) [] b) : Exact (p >>= q) bs b := by
  have := h.bind hq
  rwa [append_nil] at this

end Exact

/-! ### The primitives -/

/-- A primitive reads `n` bytes, or reports that they are not there. -/
def Primitive (tooBig : Prop) [Decidable tooBig] (n : Nat) (value : Bytes → α) (p : Parser α) :
    Prop :=
  ∀ r : ByteReader, p r =
    if tooBig ∨ r.remaining < n then .error .truncated
    else .ok (value (r.rest.take n), r.advance n)

theorem remaining_of_rest {t : Bytes} (h : r.rest = bs ++ t) :
    r.remaining = bs.length + t.length := by
  rw [ByteReader.remaining_eq, h, length_append]

namespace Primitive

variable {tooBig : Prop} [Decidable tooBig] {n : Nat} {value : Bytes → α}

theorem ok (hp : Primitive tooBig n value p) (h : p r = .ok (a, r')) :
    n ≤ r.remaining ∧ a = value (r.rest.take n) ∧ r' = r.advance n := by
  rw [hp r] at h
  obtain ⟨hshort, h⟩ := guard_eq_ok.mp h
  cases h
  exact ⟨by omega, rfl, rfl⟩

theorem remaining (hp : Primitive tooBig n value p) (h : p r = .ok (a, r')) :
    r'.remaining + n = r.remaining := by
  obtain ⟨hle, -, rfl⟩ := hp.ok h
  unfold ByteReader.remaining ByteReader.advance at *
  dsimp only
  omega

theorem exact (hp : Primitive tooBig n value p) (hfits : ¬ tooBig) (hn : bs.length = n)
    (ha : value bs = a) : Exact p bs a where
  takes := by
    intro r t hr
    have hrem := remaining_of_rest hr
    rw [hp r, if_neg (not_or.mpr ⟨hfits, by omega⟩), hr, take_left' hn, ha, hn]
  short := by
    intro r missing hr hne
    have hpos := length_pos_iff.mpr hne
    have hlen := congrArg List.length hr
    rw [length_append, ← ByteReader.remaining_eq] at hlen
    rw [hp r, if_pos (.inr (by omega))]

end Primitive

theorem primitive_u8 : Primitive False 1 (fun bs => UInt8.ofNat (getUint bs)) Parser.u8 := by
  intro r
  change r.u8 = _
  simp only [u8_eq_indexed, false_or]
  split_ifs with h
  · rfl
  · have hlt : r.pos < r.buf.length := by
      unfold ByteReader.remaining at h
      omega
    rw [index_eq hlt, ByteReader.rest, drop_eq_getElem_cons hlt, take_succ_cons, take_zero]
    simp [getUint, ByteReader.advance]

theorem primitive_u16 : Primitive False 2 (fun bs => UInt16.ofNat (getUint bs)) Parser.u16 := by
  intro r
  simp only [Parser.u16, false_or]
  split_ifs with h
  · rfl
  · have hpos : r.pos ≤ r.buf.length := by
      unfold ByteReader.remaining at h
      omega
    rw [slice_rest (by omega) hpos]
    rfl

theorem primitive_u24 : Primitive False 3 getUint Parser.u24 := by
  intro r
  simp only [Parser.u24, false_or]
  split_ifs with h
  · rfl
  · have hlen : r.pos + 2 < r.buf.length := by
      unfold ByteReader.remaining at h
      omega
    rw [index_eq (by omega), index_eq (by omega), index_eq hlen, ByteReader.rest,
      drop_eq_getElem_cons (by omega), drop_eq_getElem_cons (by omega), drop_eq_getElem_cons hlen]
    rfl

theorem primitive_bytes (n : Nat) :
    Primitive (maxReasonableHelloLength < n) n id (Parser.bytes n) := fun _ => rfl

theorem check_ok {ok : Bool} {e : WireError} {u : Unit} (h : Parser.check ok e r = .ok (u, r')) :
    ok = true ∧ r' = r := by
  cases ok with
  | false => cases h
  | true =>
    cases h
    exact ⟨rfl, rfl⟩

theorem bytes_ok {n : Nat} (h : Parser.bytes n r = .ok (bs, r')) :
    bs = r.rest.take n ∧ bs.length = n ∧ r' = r.advance n := by
  obtain ⟨hle, hbs, hr'⟩ := (primitive_bytes n).ok h
  rw [ByteReader.remaining_eq] at hle
  exact ⟨hbs, hbs ▸ length_take_of_le hle, hr'⟩

theorem exact_u8 (b : UInt8) : Exact Parser.u8 [b] b :=
  primitive_u8.exact id rfl (by simp [getUint])

theorem exact_u16 (x : UInt16) : Exact Parser.u16 (putUint 2 x.toNat) x :=
  primitive_u16.exact id (length_putUint ..)
    (by rw [getUint_putUint x.toNat_lt, UInt16.ofNat_toNat])

theorem exact_u24 {n : Nat} (hn : n < 256 ^ 3) : Exact Parser.u24 (putUint 3 n) n :=
  primitive_u24.exact id (length_putUint ..) (getUint_putUint hn)

theorem exact_bytes (h : bs.length ≤ maxReasonableHelloLength) :
    Exact (Parser.bytes bs.length) bs bs :=
  (primitive_bytes _).exact (Nat.not_lt.mpr h) rfl rfl

theorem Exact.reads (h : Exact p bs a) : Reads p bs a :=
  fun r t hr => ⟨_, h.takes r t hr, ByteReader.rest_advance hr⟩

theorem ByteReader.u8_cons {b : UInt8} {t : Bytes} (h : r.rest = b :: t) :
    ∃ r', r.u8 = .ok (b, r') ∧ r'.rest = t :=
  (exact_u8 b).reads r t h

theorem ByteReader.reads_bytes (h : bs.length ≤ maxReasonableHelloLength) :
    Reads (bytes bs.length) bs bs :=
  (exact_bytes h).reads

theorem u8_remaining {b : UInt8} (h : r.u8 = .ok (b, r')) :
    r'.remaining + 1 = r.remaining :=
  primitive_u8.remaining h

theorem advances_bytes (n : Nat) : Advances (ByteReader.bytes n) := by
  intro r a r' h
  have := (primitive_bytes n).remaining h
  omega

theorem exact_skip (h : bs.length ≤ maxReasonableHelloLength) :
    Exact (Parser.skip bs.length) bs () :=
  (exact_bytes h).andThen (Exact.pure ())

theorem toNat_ofNat_length8 (h : bs.length < 256) : (UInt8.ofNat bs.length).toNat = bs.length := by
  rw [UInt8.toNat_ofNat']
  exact Nat.mod_eq_of_lt h

theorem toNat_ofNat_length16 (h : bs.length < 256 ^ 2) :
    (UInt16.ofNat bs.length).toNat = bs.length := by
  rw [UInt16.toNat_ofNat']
  exact Nat.mod_eq_of_lt h

theorem Exact.vec8 {cs : Bytes} {q : UInt8 → Parser β}
    (hq : Exact (q (UInt8.ofNat bs.length)) (bs ++ cs) b) :
    Exact (Parser.u8 >>= q) (vec 1 bs ++ cs) b := by
  have hput : vec 1 bs ++ cs = [UInt8.ofNat bs.length] ++ (bs ++ cs) := by
    simp [vec, putUint]
  rw [hput]
  exact (exact_u8 _).bind hq

theorem Exact.vec16 {cs : Bytes} (h : bs.length < 256 ^ 2) {q : UInt16 → Parser β}
    (hq : Exact (q (UInt16.ofNat bs.length)) (bs ++ cs) b) :
    Exact (Parser.u16 >>= q) (vec 2 bs ++ cs) b := by
  rw [vec, append_assoc]
  have hlen := exact_u16 (UInt16.ofNat bs.length)
  rw [toNat_ofNat_length16 h] at hlen
  exact hlen.bind hq

/-! ## Safe parsers -/

/-- The parser never panics, and moves forward within its buffer. -/
def Steady (p : Parser α) : Prop := ∀ r : ByteReader, r.pos ≤ r.buf.length →
  Safe .panic (p r) ∧ ∀ a r', p r = .ok (a, r') →
    r'.buf = r.buf ∧ r.pos ≤ r'.pos ∧ r'.pos ≤ r.buf.length

namespace Steady

theorem pure (a : α) : Steady (Pure.pure a : Parser α) := by
  intro r hr
  refine ⟨Safe.ok _, ?_⟩
  intro b r' h
  cases h
  exact ⟨rfl, Nat.le_refl _, hr⟩

theorem inside (hp : Steady p) (hr : r.pos ≤ r.buf.length) (h : p r = .ok (a, r')) :
    r'.pos ≤ r'.buf.length := by
  obtain ⟨hbuf, -, hle⟩ := (hp r hr).2 a r' h
  rw [hbuf]
  exact hle

theorem bind (hp : Steady p) (hq : ∀ a, Steady (q a)) : Steady (p >>= q) := by
  intro r hr
  obtain ⟨hsafe, hmoves⟩ := hp r hr
  constructor
  · exact Safe.bind hsafe fun x hx => (hq x.1 x.2 (hp.inside hr hx)).1
  · intro b r' h
    obtain ⟨a, r₁, h₁, h₂⟩ := step_ok h
    obtain ⟨hbuf, hle, -⟩ := hmoves a r₁ h₁
    obtain ⟨hbuf', hle', hend⟩ := (hq a r₁ (hp.inside hr h₁)).2 b r' h₂
    rw [hbuf] at hend
    exact ⟨hbuf'.trans hbuf, hle.trans hle', hend⟩

theorem fail {e : WireError} (he : ∀ x, e ≠ .panic x) : Steady (Parser.fail e : Parser α) := by
  intro r _
  refine ⟨?_, ?_⟩
  · intro x h
    exact he x (Except.error.inj h)
  · intro a r' h
    cases h

theorem check {e : WireError} (he : ∀ x, e ≠ .panic x) (ok : Bool) :
    Steady (Parser.check ok e) := by
  cases ok with
  | true => exact pure ()
  | false => exact fail he

end Steady

theorem Primitive.steady {tooBig : Prop} [Decidable tooBig] {n : Nat} {value : Bytes → α}
    (hp : Primitive tooBig n value p) : Steady p := by
  intro r hr
  rw [hp r]
  split_ifs with hshort
  · exact ⟨fun _ h => (nomatch h), fun _ _ h => nomatch h⟩
  · refine ⟨Safe.ok _, ?_⟩
    intro b r' h
    cases h
    unfold ByteReader.remaining at hshort
    simp only [ByteReader.advance]
    exact ⟨trivial, Nat.le_add_right _ _, by omega⟩

theorem steady_u8 : Steady Parser.u8 := primitive_u8.steady

theorem steady_bytes (n : Nat) : Steady (Parser.bytes n) := (primitive_bytes n).steady

theorem steady_u16 : Steady Parser.u16 := primitive_u16.steady

theorem steady_u24 : Steady Parser.u24 := primitive_u24.steady

theorem steady_skip (n : Nat) : Steady (Parser.skip n) :=
  (steady_bytes n).bind fun _ => Steady.pure ()

theorem steady_lift {x : Except WireError α} (h : Safe .panic x) :
    Steady (StateT.lift x : Parser α) := by
  intro r hr
  refine ⟨h.bind fun _ _ => .ok _, ?_⟩
  intro a r' heq
  obtain ⟨a', -, heq⟩ := bind_eq_ok.mp heq
  cases heq
  exact ⟨rfl, Nat.le_refl _, hr⟩

/-! ## Parsers only look ahead -/

/-- The same position in another buffer. -/
def ByteReader.moveTo (r : ByteReader) (buf : Bytes) : ByteReader := { r with buf }

/-- The other buffer has the same bytes from the position on. -/
structure ByteReader.Agrees (r : ByteReader) (buf : Bytes) : Prop where
  inside : r.pos ≤ r.buf.length
  length : buf.length = r.buf.length
  rest : (r.moveTo buf).rest = r.rest

theorem ByteReader.Agrees.later {buf : Bytes} (h : r.Agrees buf)
    (hbuf : r'.buf = r.buf) (hle : r.pos ≤ r'.pos) (hend : r'.pos ≤ r.buf.length) :
    r'.Agrees buf where
  inside := by rw [hbuf]; exact hend
  length := by rw [hbuf]; exact h.length
  rest := by
    have hrest : buf.drop r.pos = r.buf.drop r.pos := h.rest
    change buf.drop r'.pos = r'.buf.drop r'.pos
    rw [hbuf, ← Nat.add_sub_cancel' hle, ← drop_drop, hrest, drop_drop]

/-- `p'` does in the other buffer what `p` does, with its value changed by `f`:
what has been read already does not matter. -/
structure Moved {α' : Type} (f : α → α') (p : Parser α) (p' : Parser α') : Prop where
  steady : Steady p
  run : ∀ {r : ByteReader} {buf : Bytes}, r.Agrees buf →
    p' (r.moveTo buf) = (p r).map fun x => (f x.1, x.2.moveTo buf)

namespace Moved

variable {α' β' : Type}

theorem pure (f : α → α') (a : α) : Moved f (Pure.pure a) (Pure.pure (f a)) where
  steady := Steady.pure a
  run _ := rfl

theorem bind {f : α → α'} {g : β → β'} {p' : Parser α'} {q' : α' → Parser β'}
    (hp : Moved f p p') (hq : ∀ a, Moved g (q a) (q' (f a))) :
    Moved g (p >>= q) (p' >>= q') where
  steady := hp.steady.bind fun a => (hq a).steady
  run := by
    intro r buf h
    change (p' (r.moveTo buf) >>= fun x => q' x.1 x.2) =
      Except.map _ (p r >>= fun x => q x.1 x.2)
    rw [hp.run h]
    cases hread : p r with
    | error e => rfl
    | ok x =>
      obtain ⟨hbuf, hle, hend⟩ := (hp.steady r h.inside).2 x.1 x.2 hread
      exact (hq x.1).run (h.later hbuf hle hend)

theorem andThen {g : β → β'} {q' : α → Parser β'} (hp : Moved id p p)
    (hq : ∀ a, Moved g (q a) (q' a)) : Moved g (p >>= q) (p >>= q') :=
  hp.bind hq

theorem lift {x : Except WireError α} (h : Safe .panic x) :
    Moved id (StateT.lift x : Parser α) (StateT.lift x) where
  steady := steady_lift h
  run := by
    intro r buf _
    cases x with
    | error e => rfl
    | ok a => rfl

theorem check {e : WireError} (he : ∀ x, e ≠ .panic x) (ok : Bool) :
    Moved id (Parser.check ok e) (Parser.check ok e) where
  steady := Steady.check he ok
  run := by
    intro r buf _
    cases ok with
    | true => rfl
    | false => rfl

theorem of_primitive {tooBig : Prop} [Decidable tooBig] {n : Nat} {value : Bytes → α}
    (hp : Primitive tooBig n value p) : Moved id p p where
  steady := hp.steady
  run := by
    intro r buf h
    rw [hp, hp, ByteReader.remaining_eq, ByteReader.remaining_eq, h.rest]
    split_ifs with hshort
    · rfl
    · rfl

theorem bytes (n : Nat) : Moved id (Parser.bytes n) (Parser.bytes n) :=
  of_primitive (primitive_bytes n)

theorem skip (n : Nat) : Moved id (Parser.skip n) (Parser.skip n) :=
  (bytes n).andThen fun _ => pure id ()

theorem u8 : Moved id Parser.u8 Parser.u8 := of_primitive primitive_u8

theorem u16 : Moved id Parser.u16 Parser.u16 := of_primitive primitive_u16

theorem u24 : Moved id Parser.u24 Parser.u24 := of_primitive primitive_u24

end Moved

end HeadlessClient.Capture
