import HeadlessClient.Base.Bytes

/-!
# Quic — variable-length integers

`quic/quicvarint`: the number of bytes a value takes, the bytes themselves, and
reading them back (`read_append`).
Values above `2^62 - 1` make the Go functions PANIC with a
`varintLengthError`; the model returns that panic as an error, so that a caller
which reaches it is visibly wrong.
-/

namespace HeadlessClient.Quic

open Base

/-- The run-time panics of the modelled code. -/
inductive Panic where
  /-- `panic(&varintLengthError{Num: num})`. -/
  | varintLength (num : Nat)
  /-- A slice index past the end. -/
  | indexOutOfRange
deriving DecidableEq, Repr

namespace Varint

def maxVarInt1 : Nat := 63
def maxVarInt2 : Nat := 16383
def maxVarInt4 : Nat := 1073741823
def maxVarInt8 : Nat := 4611686018427387903

/-- `quicvarint.Len`. -/
def len (i : Nat) : Except Panic Nat :=
  if i ≤ maxVarInt1 then .ok 1
  else if i ≤ maxVarInt2 then .ok 2
  else if i ≤ maxVarInt4 then .ok 4
  else if i ≤ maxVarInt8 then .ok 8
  else .error (.varintLength i)

/-- `quicvarint.Append`: the bytes it appends. -/
def append (i : Nat) : Except Panic Bytes :=
  if i ≤ maxVarInt1 then .ok [i.toUInt8]
  else if i ≤ maxVarInt2 then .ok [(i >>> 8).toUInt8 ||| 0x40, i.toUInt8]
  else if i ≤ maxVarInt4 then
    .ok [(i >>> 24).toUInt8 ||| 0x80, (i >>> 16).toUInt8, (i >>> 8).toUInt8, i.toUInt8]
  else if i ≤ maxVarInt8 then
    .ok [(i >>> 56).toUInt8 ||| 0xc0, (i >>> 48).toUInt8, (i >>> 40).toUInt8,
      (i >>> 32).toUInt8, (i >>> 24).toUInt8, (i >>> 16).toUInt8, (i >>> 8).toUInt8, i.toUInt8]
  else .error (.varintLength i)

/-- The encoded size of a value that has one (`0` above `2^62 - 1`). -/
def size (i : Nat) : Nat :=
  if i ≤ maxVarInt1 then 1
  else if i ≤ maxVarInt2 then 2
  else if i ≤ maxVarInt4 then 4
  else if i ≤ maxVarInt8 then 8
  else 0

variable {i : Nat} {b : Bytes}

theorem len_eq (h : i < 2 ^ 62) : len i = .ok (size i) := by
  have hmax : i ≤ maxVarInt8 := by unfold maxVarInt8; omega
  unfold len size
  rw [if_pos hmax, if_pos hmax]
  split_ifs <;> rfl

theorem size_mono {j : Nat} (hij : i ≤ j) (hj : j < 2 ^ 62) : size i ≤ size j := by
  unfold size maxVarInt1 maxVarInt2 maxVarInt4 maxVarInt8
  split_ifs <;> omega

theorem append_ok (h : i < 2 ^ 62) : ∃ b, append i = .ok b := by
  have hmax : i ≤ maxVarInt8 := by unfold maxVarInt8; omega
  unfold append
  rw [if_pos hmax]
  split_ifs <;> exact ⟨_, rfl⟩

/-- `Append` writes as many bytes as `Len` announces. -/
theorem append_length (h : append i = .ok b) : len i = .ok b.length := by
  unfold append at h
  unfold len
  split_ifs at h ⊢ <;> cases h <;> rfl

theorem append_size (h : append i = .ok b) : b.length = size i := by
  unfold append at h
  unfold size
  split_ifs at h ⊢ <;> cases h <;> rfl

/-! ## Reading -/

/-- The input ends: `io.EOF`. -/
inductive ReadError where
  | eof
deriving DecidableEq, Repr

def readByte : Bytes → Except ReadError (UInt8 × Bytes)
  | [] => .error .eof
  | b :: r => .ok (b, r)

/-- `quicvarint.Read`: the value, and the bytes that are left. -/
def read (r : Bytes) : Except ReadError (Nat × Bytes) := do
  let (firstByte, r) ← readByte r
  let l := 1 <<< ((firstByte &&& 0xc0) >>> 6).toNat
  let b1 := (firstByte &&& (0xff - 0xc0)).toNat
  if l = 1 then .ok (b1, r)
  else do
    let (b2, r) ← readByte r
    if l = 2 then .ok (b2.toNat + b1 <<< 8, r)
    else do
      let (b3, r) ← readByte r
      let (b4, r) ← readByte r
      if l = 4 then .ok (b4.toNat + b3.toNat <<< 8 + b2.toNat <<< 16 + b1 <<< 24, r)
      else do
        let (b5, r) ← readByte r
        let (b6, r) ← readByte r
        let (b7, r) ← readByte r
        let (b8, r) ← readByte r
        .ok (b8.toNat + b7.toNat <<< 8 + b6.toNat <<< 16 + b5.toNat <<< 24 + b4.toNat <<< 32 +
          b3.toNat <<< 40 + b2.toNat <<< 48 + b1 <<< 56, r)

/-- No step of a computation leaves more than `n` bytes. -/
def Leaves {α : Type} (n : Nat) (x : Except ReadError (α × Bytes)) : Prop :=
  ∀ a r, x = .ok (a, r) → r.length ≤ n

theorem Leaves.ok {α : Type} {n : Nat} {r : Bytes} (a : α) (h : r.length ≤ n) :
    Leaves n (.ok (a, r)) := by
  rintro a' r' ⟨⟩
  exact h

theorem Leaves.readByte {α : Type} {n : Nat} {r : Bytes} (h : r.length ≤ n)
    {k : UInt8 × Bytes → Except ReadError (α × Bytes)}
    (hk : ∀ b r, r.length ≤ n → Leaves n (k (b, r))) : Leaves n (Varint.readByte r >>= k) := by
  cases r with
  | nil => exact fun _ _ h => nomatch h
  | cons b r =>
    rw [List.length_cons] at h
    exact hk b r (by omega)

theorem read_shorter {rest : Bytes} (h : read b = .ok (i, rest)) : rest.length < b.length := by
  cases b with
  | nil => cases h
  | cons first b =>
    suffices hleaves : Leaves b.length (read (first :: b)) from
      Nat.lt_succ_of_le (hleaves i rest h)
    unfold read
    show Leaves b.length (ite _ _ _)
    split
    · exact .ok _ (Nat.le_refl _)
    · refine .readByte (Nat.le_refl _) fun b2 r h2 => ?_
      dsimp only
      split
      · exact .ok _ h2
      · refine .readByte h2 fun b3 r h3 => .readByte h3 fun b4 r h4 => ?_
        dsimp only
        split
        · exact .ok _ h4
        · exact .readByte h4 fun b5 r h5 => .readByte h5 fun b6 r h6 =>
            .readByte h6 fun b7 r h7 => .readByte h7 fun b8 r h8 => .ok _ h8

theorem read_first : ∀ tag < 4, ∀ n < 64,
    let first : UInt8 := n.toUInt8 ||| (64 * tag).toUInt8
    1 <<< ((first &&& 0xc0) >>> 6).toNat = 2 ^ tag ∧ (first &&& (0xff - 0xc0)).toNat = n := by
  decide

theorem read_mark (tag n l : Nat) (mark : UInt8) (htag : tag < 4) (hn : n < 64)
    (hmark : (64 * tag).toUInt8 = mark) (hl : 2 ^ tag = l) :
    1 <<< (((n.toUInt8 ||| mark) &&& 0xc0) >>> 6).toNat = l ∧
      ((n.toUInt8 ||| mark) &&& (0xff - 0xc0)).toNat = n := by
  subst hmark hl
  exact read_first tag htag n hn

/-- **What `Append` writes, `Read` reads back.** -/
theorem read_append (h : append i = .ok b) (rest : Bytes) : read (b ++ rest) = .ok (i, rest) := by
  unfold append at h
  simp only [maxVarInt1, maxVarInt2, maxVarInt4, maxVarInt8, Nat.shiftRight_eq_div_pow] at h
  -- one case per length; the bytes behind the first one are the low digits of the value
  split_ifs at h with h1 h2 h4 h8 <;> cases h
  · obtain ⟨htag, hvalue⟩ := read_mark 0 i 1 0 (by decide) (by omega) rfl rfl
    rw [UInt8.or_zero] at htag hvalue
    show ite _ _ _ = _
    rw [if_pos htag, hvalue]
    rfl
  · obtain ⟨htag, hvalue⟩ := read_mark 1 (i / 2 ^ 8) 2 0x40 (by decide) (by omega) rfl rfl
    show ite _ _ (ite _ _ _) = _
    rw [if_neg (by rw [htag]; decide), if_pos htag, hvalue]
    simp only [Nat.toUInt8_eq, UInt8.toNat_ofNat', Nat.shiftLeft_eq]
    congr 2
    omega
  · obtain ⟨htag, hvalue⟩ := read_mark 2 (i / 2 ^ 24) 4 0x80 (by decide) (by omega) rfl rfl
    show ite _ _ (ite _ _ (ite _ _ _)) = _
    rw [if_neg (by rw [htag]; decide), if_neg (by rw [htag]; decide), if_pos htag, hvalue]
    simp only [Nat.toUInt8_eq, UInt8.toNat_ofNat', Nat.shiftLeft_eq]
    congr 2
    omega
  · obtain ⟨htag, hvalue⟩ := read_mark 3 (i / 2 ^ 56) 8 0xc0 (by decide) (by omega) rfl rfl
    show ite _ _ (ite _ _ (ite _ _ (Except.ok _))) = _
    rw [if_neg (by rw [htag]; decide), if_neg (by rw [htag]; decide),
      if_neg (by rw [htag]; decide), hvalue]
    simp only [Nat.toUInt8_eq, UInt8.toNat_ofNat', Nat.shiftLeft_eq]
    congr 2
    omega

end Varint

end HeadlessClient.Quic
