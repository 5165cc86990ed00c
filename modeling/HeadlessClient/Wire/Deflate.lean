import HeadlessClient.Wire.Vector

/-!
# Wire — DEFLATE

Decoding DEFLATE data (RFC 1951): stored blocks, and blocks of canonical prefix
codes for literals and for copies of what has been decoded.

The data ends ITSELF: the last block says that it is the last, and what follows
is not looked at. So decoding does not change when bytes are appended
(`inflate_append`), which is what lets a container put a checksum behind it.
-/

namespace HeadlessClient.Wire

open Base List

namespace Deflate

/-! ## Bits -/

/-- The bits of a byte, the least significant one first. -/
def bitsOfByte (b : UInt8) : List Bool := (List.range 8).map b.toNat.testBit

def bitsOf (bytes : Bytes) : List Bool := bytes.flatMap bitsOfByte

/-- A value off the front of the bits, and the rest; or an error. -/
abbrev Decoder := StateT (List Bool) Option

def bit : Decoder Bool
  | [] => none
  | b :: rest => some (b, rest)

/-- A number of so many bits, the least significant one first. -/
def number : Nat → Decoder Nat
  | 0 => pure 0
  | n + 1 => do
      let b ← bit
      let high ← number n
      pure (b.toNat + 2 * high)

/-- Skips to the next byte: there are whole bytes at the end. -/
def align : Decoder Unit := fun bits => some ((), bits.drop (bits.length % 8))

def byteString : Nat → Decoder Bytes
  | 0 => pure []
  | n + 1 => do
      let b ← number 8
      let rest ← byteString n
      pure (UInt8.ofNat b :: rest)

/-! ## Prefix codes -/

/-- The symbols with codes of `n` bits, in the order of the codes. A code is given
by the length of each symbol's code, zero for a symbol that is not used. -/
def symbolsOfLength (lengths : List Nat) (n : Nat) : List Nat :=
  (List.range lengths.length).filter fun symbol => lengths[symbol]? == some n

/-- Decoding from codes of `n` bits on. The codes of `n` bits start with `first`,
and `code` is what has been read. -/
def symbolFrom (lengths : List Nat) : (more n first code : Nat) → Decoder Nat
  | 0, _, _, _ => failure
  | more + 1, n, first, code => do
      let b ← bit
      let code := 2 * code + b.toNat
      let symbols := symbolsOfLength lengths n
      if code < first + symbols.length then
        StateT.lift symbols[code - first]?
      else symbolFrom lengths more (n + 1) (2 * (first + symbols.length)) code

/-- A code has at most fifteen bits. -/
def symbol (lengths : List Nat) : Decoder Nat := symbolFrom lengths 15 1 0 0

/-- The code uses up all bit strings. There may also be no code, or a single one
of one bit. -/
def wellFormed (lengths : List Nat) : Bool :=
  let used := lengths.filter (0 < ·)
  used.isEmpty || used == [1] || (used.map fun n => 2 ^ (15 - n)).sum == 2 ^ 15

def fixedLiterals : List Nat :=
  List.replicate 144 8 ++ List.replicate 112 9 ++ List.replicate 24 7 ++ List.replicate 8 8

def fixedDistances : List Nat := List.replicate 30 5

/-! ## Copies -/

/-- The smallest length of each symbol from 257 on, and the extra bits. -/
def lengthTable : List (Nat × Nat) :=
  [(3, 0), (4, 0), (5, 0), (6, 0), (7, 0), (8, 0), (9, 0), (10, 0), (11, 1), (13, 1), (15, 1),
    (17, 1), (19, 2), (23, 2), (27, 2), (31, 2), (35, 3), (43, 3), (51, 3), (59, 3), (67, 4),
    (83, 4), (99, 4), (115, 4), (131, 5), (163, 5), (195, 5), (227, 5), (258, 0)]

def distanceTable : List (Nat × Nat) :=
  [(1, 0), (2, 0), (3, 0), (4, 0), (5, 1), (7, 1), (9, 2), (13, 2), (17, 3), (25, 3), (33, 4),
    (49, 4), (65, 5), (97, 5), (129, 6), (193, 6), (257, 7), (385, 7), (513, 8), (769, 8),
    (1025, 9), (1537, 9), (2049, 10), (3073, 10), (4097, 11), (6145, 11), (8193, 12),
    (12289, 12), (16385, 13), (24577, 13)]

/-- An entry of a table with its extra bits. -/
def tableValue (table : List (Nat × Nat)) (index : Nat) : Decoder Nat := do
  let (base, extra) ← StateT.lift table[index]?
  let more ← number extra
  pure (base + more)

/-- `length` bytes from `distance` back, which may run into themselves. -/
def copyBack (distance : Nat) : (length : Nat) → Bytes → Bytes
  | 0, out => out
  | length + 1, out => copyBack distance length (out ++ [out.getD (out.length - distance) 0])

/-- The symbols of a block, up to the one that ends it. -/
def codes (literals distances : List Nat) : (fuel : Nat) → Bytes → Decoder Bytes
  | 0, _ => failure
  | fuel + 1, out => do
      let s ← symbol literals
      if s < 256 then codes literals distances fuel (out ++ [UInt8.ofNat s])
      else if s = 256 then pure out
      else do
        let length ← tableValue lengthTable (s - 257)
        let d ← symbol distances
        let distance ← tableValue distanceTable d
        if distance ≤ out.length then codes literals distances fuel (copyBack distance length out)
        else failure

/-! ## Blocks -/

/-- A length, its complement, and so many bytes. -/
def storedBlock (out : Bytes) : Decoder Bytes := do
  align
  let length ← number 16
  let complement ← number 16
  if complement = 65535 - length then do
    let bytes ← byteString length
    pure (out ++ bytes)
  else failure

/-- Code lengths, run-length encoded: a length, or repetitions. -/
def codeLengths (code : List Nat) (count : Nat) : (fuel : Nat) → List Nat → Decoder (List Nat)
  | 0, _ => failure
  | fuel + 1, lengths =>
    if lengths.length = count then pure lengths
    else if count < lengths.length then failure
    else do
      let s ← symbol code
      if s < 16 then codeLengths code count fuel (lengths ++ [s])
      else if s = 16 then do
        let last ← StateT.lift lengths.getLast?
        let n ← number 2
        codeLengths code count fuel (lengths ++ List.replicate (n + 3) last)
      else if s = 17 then do
        let n ← number 3
        codeLengths code count fuel (lengths ++ List.replicate (n + 3) 0)
      else do
        let n ← number 7
        codeLengths code count fuel (lengths ++ List.replicate (n + 11) 0)

def codeOrder : List Nat := [16, 17, 18, 0, 8, 7, 9, 6, 10, 5, 11, 4, 12, 3, 13, 2, 14, 1, 15]

/-- The lengths of the code for code lengths, three bits each, in `codeOrder`. -/
def codeLengthCode : List Nat → Decoder (List (Nat × Nat))
  | [] => pure []
  | s :: order => do
      let n ← number 3
      let rest ← codeLengthCode order
      pure ((s, n) :: rest)

/-- The two codes of a block that brings its own. -/
def dynamicCodes : Decoder (List Nat × List Nat) := do
  let literals ← number 5
  let distances ← number 5
  let count ← number 4
  if 286 < literals + 257 ∨ 30 < distances + 1 then failure
  else do
    let given ← codeLengthCode (codeOrder.take (count + 4))
    let code := (List.range 19).map fun s => (given.lookup s).getD 0
    if wellFormed code then do
      let total := literals + 257 + (distances + 1)
      let lengths ← codeLengths code total (total + 1) []
      let literalLengths := lengths.take (literals + 257)
      let distanceLengths := lengths.drop (literals + 257)
      if wellFormed literalLengths && wellFormed distanceLengths then
        pure (literalLengths, distanceLengths)
      else failure
    else failure

/-- A block of one of the three kinds, behind what has been decoded. -/
def block (limit kind : Nat) (out : Bytes) : Decoder Bytes :=
  if kind = 0 then storedBlock out
  else if kind = 1 then codes fixedLiterals fixedDistances limit out
  else if kind = 2 then do
    let (literals, distances) ← dynamicCodes
    codes literals distances limit out
  else failure

/-- Block after block. There are at most as many blocks, and at most as many
symbols in a block, as there are bits. -/
def blocks (limit : Nat) : (fuel : Nat) → Bytes → Decoder Bytes
  | 0, _ => failure
  | fuel + 1, out => do
      let final ← bit
      let kind ← number 2
      let out ← block limit kind out
      if final then pure out else blocks limit fuel out

/-! ## Decoding what has more behind it

`Extends d e` says that `e` does on longer input what `d` does, and leaves the
bytes that were appended. A decoder that runs out of fuel fails, so that the
relation also covers more fuel. -/

variable {α β : Type}

def Extends (d e : Decoder α) : Prop :=
  ∀ bits a rest, d bits = some (a, rest) →
    ∀ more : List Bool, 8 ∣ more.length → e (bits ++ more) = some (a, rest ++ more)

theorem extends_failure (e : Decoder α) : Extends failure e := by
  intro bits a rest h
  cases h

theorem extends_pure (a : α) : Extends (pure a) (pure a) := by
  intro bits b rest h more _
  cases h
  rfl

theorem extends_lift (x : Option α) : Extends (StateT.lift x) (StateT.lift x) := by
  cases x with
  | none => exact extends_failure _
  | some a => exact extends_pure a

theorem Extends.bind {d e : Decoder α} {f g : α → Decoder β} (hd : Extends d e)
    (hf : ∀ a, Extends (f a) (g a)) : Extends (d >>= f) (e >>= g) := by
  intro bits b rest h more hmore
  obtain ⟨⟨a, left⟩, hleft, hrest⟩ := Option.bind_eq_some_iff.mp h
  have hlonger := hd bits a left hleft more hmore
  have hnext := hf a left b rest hrest more hmore
  exact Option.bind_eq_some_iff.mpr ⟨(a, left ++ more), hlonger, hnext⟩

theorem Extends.ite {c : Prop} [Decidable c] {d e d' e' : Decoder α} (h : Extends d e)
    (h' : Extends d' e') : Extends (if c then d else d') (if c then e else e') := by
  by_cases hc : c
  · simp only [if_pos hc]
    exact h
  · simp only [if_neg hc]
    exact h'

theorem extends_bit : Extends bit bit := by
  intro bits b rest h more _
  cases bits with
  | nil => cases h
  | cons b' bits =>
    cases h
    rfl

theorem extends_number (n : Nat) : Extends (number n) (number n) := by
  induction n with
  | zero => exact extends_pure 0
  | succ n ih => exact extends_bit.bind fun _ => ih.bind fun _ => extends_pure _

/-- Here whole bytes matter: the bits to skip are counted from the end. -/
theorem extends_align : Extends align align := by
  intro bits u rest h more hmore
  cases h
  have hlength : (bits ++ more).length % 8 = bits.length % 8 := by
    rw [length_append]
    omega
  have hskip : bits.length % 8 ≤ bits.length := Nat.mod_le _ _
  rw [align, hlength, drop_append_of_le_length hskip]

theorem extends_byteString (n : Nat) : Extends (byteString n) (byteString n) := by
  induction n with
  | zero => exact extends_pure []
  | succ n ih => exact (extends_number 8).bind fun _ => ih.bind fun _ => extends_pure _

theorem extends_symbolFrom (lengths : List Nat) (more n first code : Nat) :
    Extends (symbolFrom lengths more n first code) (symbolFrom lengths more n first code) := by
  induction more generalizing n first code with
  | zero => exact extends_failure _
  | succ more ih => exact extends_bit.bind fun _ => (extends_lift _).ite (ih _ _ _)

theorem extends_symbol (lengths : List Nat) : Extends (symbol lengths) (symbol lengths) :=
  extends_symbolFrom lengths 15 1 0 0

theorem extends_tableValue (table : List (Nat × Nat)) (index : Nat) :
    Extends (tableValue table index) (tableValue table index) :=
  (extends_lift _).bind fun _ => (extends_number _).bind fun _ => extends_pure _

theorem extends_codes (literals distances : List Nat) {fuel fuel' : Nat} (h : fuel ≤ fuel')
    (out : Bytes) :
    Extends (codes literals distances fuel out) (codes literals distances fuel' out) := by
  induction fuel generalizing fuel' out with
  | zero => exact extends_failure _
  | succ fuel ih =>
    obtain ⟨k, rfl⟩ := Nat.exists_eq_add_of_le' h
    have hk : fuel ≤ k + fuel := by omega
    apply (extends_symbol literals).bind
    intro s
    apply (ih hk _).ite
    apply (extends_pure out).ite
    -- a copy: its length and its distance
    apply (extends_tableValue lengthTable _).bind
    intro length
    apply (extends_symbol distances).bind
    intro d
    apply (extends_tableValue distanceTable d).bind
    intro distance
    exact (ih hk _).ite (extends_failure _)

theorem extends_storedBlock (out : Bytes) : Extends (storedBlock out) (storedBlock out) := by
  apply extends_align.bind
  intro _
  apply (extends_number 16).bind
  intro length
  apply (extends_number 16).bind
  intro complement
  apply Extends.ite _ (extends_failure _)
  exact (extends_byteString length).bind fun _ => extends_pure _

theorem extends_codeLengths (code : List Nat) (count fuel : Nat) (lengths : List Nat) :
    Extends (codeLengths code count fuel lengths) (codeLengths code count fuel lengths) := by
  induction fuel generalizing lengths with
  | zero => exact extends_failure _
  | succ fuel ih =>
    apply (extends_pure lengths).ite
    apply (extends_failure _).ite
    apply (extends_symbol code).bind
    intro s
    apply (ih _).ite
    apply Extends.ite
    · exact (extends_lift _).bind fun _ => (extends_number 2).bind fun _ => ih _
    · apply Extends.ite
      · exact (extends_number 3).bind fun _ => ih _
      · exact (extends_number 7).bind fun _ => ih _

theorem extends_codeLengthCode (order : List Nat) :
    Extends (codeLengthCode order) (codeLengthCode order) := by
  induction order with
  | nil => exact extends_pure []
  | cons s order ih => exact (extends_number 3).bind fun _ => ih.bind fun _ => extends_pure _

theorem extends_dynamicCodes : Extends dynamicCodes dynamicCodes := by
  apply (extends_number 5).bind
  intro literals
  apply (extends_number 5).bind
  intro distances
  apply (extends_number 4).bind
  intro count
  apply (extends_failure _).ite
  apply (extends_codeLengthCode _).bind
  intro given
  apply Extends.ite _ (extends_failure _)
  apply (extends_codeLengths _ _ _ _).bind
  intro lengths
  exact (extends_pure _).ite (extends_failure _)

theorem extends_block {limit limit' : Nat} (hlimit : limit ≤ limit') (kind : Nat) (out : Bytes) :
    Extends (block limit kind out) (block limit' kind out) := by
  apply (extends_storedBlock out).ite
  apply (extends_codes fixedLiterals fixedDistances hlimit out).ite
  apply Extends.ite _ (extends_failure _)
  apply extends_dynamicCodes.bind
  intro code
  exact extends_codes code.1 code.2 hlimit out

theorem extends_blocks {limit limit' fuel fuel' : Nat} (hlimit : limit ≤ limit')
    (h : fuel ≤ fuel') (out : Bytes) :
    Extends (blocks limit fuel out) (blocks limit' fuel' out) := by
  induction fuel generalizing fuel' out with
  | zero => exact extends_failure _
  | succ fuel ih =>
    obtain ⟨k, rfl⟩ := Nat.exists_eq_add_of_le' h
    have hk : fuel ≤ k + fuel := by omega
    apply extends_bit.bind
    intro final
    apply (extends_number 2).bind
    intro kind
    apply (extends_block hlimit kind out).bind
    intro out
    exact (extends_pure out).ite (ih hk out)

@[simp] theorem length_bitsOf (bytes : Bytes) : (bitsOf bytes).length = 8 * bytes.length := by
  induction bytes with
  | nil => rfl
  | cons b bytes ih =>
    have hbyte : (bitsOfByte b).length = 8 := by simp [bitsOfByte]
    have hbits : bitsOf (b :: bytes) = bitsOfByte b ++ bitsOf bytes := rfl
    rw [hbits, length_append, hbyte, ih, length_cons]
    omega

theorem bitsOf_append (bytes more : Bytes) :
    bitsOf (bytes ++ more) = bitsOf bytes ++ bitsOf more := flatMap_append

end Deflate

open Deflate in
/-- The content of DEFLATE data, and the bytes behind it. -/
def inflate (bytes : Bytes) : Option (Bytes × Bytes) := do
  let limit := 8 * bytes.length + 1
  let (content, rest) ← blocks limit limit [] (bitsOf bytes)
  some (content, bytes.drop (bytes.length - rest.length / 8))

open Deflate in
/-- **DEFLATE data ends itself**: bytes behind it do not change its content. -/
theorem inflate_append {bytes content rest : Bytes} (h : inflate bytes = some (content, rest))
    (more : Bytes) : inflate (bytes ++ more) = some (content, rest ++ more) := by
  obtain ⟨⟨out, bits⟩, hout, hrest⟩ := Option.bind_eq_some_iff.mp h
  cases hrest
  have hlimit : 8 * bytes.length + 1 ≤ 8 * (bytes ++ more).length + 1 := by
    rw [length_append]
    omega
  have hmore : 8 ∣ (bitsOf more).length := by
    rw [length_bitsOf]
    exact Nat.dvd_mul_right 8 _
  have hlonger :=
    extends_blocks hlimit hlimit [] (bitsOf bytes) content bits hout (bitsOf more) hmore
  rw [← bitsOf_append] at hlonger
  -- the bytes that are left are counted from the end, too
  have hleft : (bytes ++ more).length - (bits ++ bitsOf more).length / 8
      = bytes.length - bits.length / 8 := by
    rw [length_append, length_append, length_bitsOf]
    omega
  have hdrop : (bytes ++ more).drop (bytes.length - bits.length / 8)
      = bytes.drop (bytes.length - bits.length / 8) ++ more :=
    drop_append_of_le_length (Nat.sub_le _ _)
  simp only [inflate, hlonger, hleft, hdrop, bind, Option.bind]

end HeadlessClient.Wire
