import HeadlessClient.Capture.HelloFormat
import Mathlib.Data.List.Induction

/-!
# Capture — STUN messages

`ParseSTUN` of `stand/internal/wire/stun.go`, and the layout it reads: a header
of twenty bytes, then attributes whose values are padded to four bytes.

The loop compares the position with the end of the message BEFORE it adds the
padding, so the position may leave the message, but then no byte is read there.
-/

namespace HeadlessClient.Capture

open Base Wire List

def stunHeaderLen : Nat := 20
def stunMagicCookie : Nat := 0x2112a442

def stunAttrUsername : UInt16 := 0x0006
def stunAttrSoftware : UInt16 := 0x8022

inductive STUNError where
  /-- `ErrNotSTUN`. -/
  | notSTUN
  | panic (e : RuntimeError)
deriving DecidableEq, Repr

structure STUNMessage where
  type : UInt16
  username : Bytes := []
  software : Bytes := []
  attributes : List UInt16 := []
deriving DecidableEq, Repr

/-- What a round does with an attribute. -/
def STUNMessage.add (message : STUNMessage) (attrType : UInt16) (value : Bytes) : STUNMessage :=
  let message := { message with attributes := message.attributes ++ [attrType] }
  if attrType = stunAttrUsername then { message with username := value }
  else if attrType = stunAttrSoftware then { message with software := value }
  else message

/-- The bytes up to the next multiple of four. -/
def stunPad (attrLen : Nat) : Nat := if attrLen % 4 ≠ 0 then 4 - attrLen % 4 else 0

/-- A round of the loop over the attributes, from a position. -/
def stunRound (payload : Bytes) (fin : Nat) (s : Nat × STUNMessage) :
    Except STUNError (Round (fun s : Nat × STUNMessage => fin - s.1) STUNMessage s) :=
  if h : s.1 + 4 ≤ fin then do
    let attrType ← slice .panic payload s.1 (s.1 + 2)
    let attrLen ← slice .panic payload (s.1 + 2) (s.1 + 4)
    let pos := s.1 + 4
    if pos + getUint attrLen > fin then .ok (.done s.2)
    else do
      let value ← slice .panic payload pos (pos + getUint attrLen)
      .ok (.next (pos + getUint attrLen + stunPad (getUint attrLen),
        s.2.add (uint16 attrType) value)
        (by dsimp only; omega))
  else .ok (.done s.2)

def parseSTUN (payload : Bytes) : Except STUNError STUNMessage :=
  if payload.length < stunHeaderLen then .error .notSTUN
  else do
    let first ← index .panic payload 0
    if first &&& 0xc0 ≠ 0 then .error .notSTUN
    else do
      let cookie ← slice .panic payload 4 8
      if getUint cookie ≠ stunMagicCookie then .error .notSTUN
      else do
        let bodyLen ← slice .panic payload 2 4
        if stunHeaderLen + getUint bodyLen > payload.length then .error .notSTUN
        else do
          let type ← slice .panic payload 0 2
          runLoop _ (stunRound payload (stunHeaderLen + getUint bodyLen))
            (stunHeaderLen, { type := uint16 type })

/-! ## No byte outside the payload -/

theorem stunRound_returns {payload : Bytes} {fin : Nat} (hfin : fin ≤ payload.length)
    (s : Nat × STUNMessage) : Returns (stunRound payload fin s) := by
  refine .dite (fun h => ?_) fun _ => .ok _
  rw [slice_eq (by omega) (by omega), ok_bind, slice_eq (by omega) (by omega), ok_bind]
  refine .ite (fun _ => .ok _) fun hfits => ?_
  rw [slice_eq (by omega) (by omega), ok_bind]
  exact .ok _

/-- On every payload: a message, or `ErrNotSTUN`. -/
theorem parseSTUN_outcome (payload : Bytes) :
    parseSTUN payload = .error .notSTUN ∨ Returns (parseSTUN payload) := by
  unfold parseSTUN
  by_cases hshort : payload.length < stunHeaderLen
  · rw [if_pos hshort]
    exact .inl rfl
  · have hlen : 20 ≤ payload.length := Nat.not_lt.mp hshort
    rw [if_neg hshort, index_eq (by omega), ok_bind]
    split_ifs with hbits
    · exact .inl rfl
    · rw [slice_eq (by omega) (by omega), ok_bind]
      split_ifs with hcookie
      · exact .inl rfl
      · rw [slice_eq (by omega) (by omega), ok_bind]
        split_ifs with hbody
        · exact .inl rfl
        · rw [slice_eq (by omega) (by omega), ok_bind]
          exact .inr (.runLoop (stunRound_returns (Nat.not_lt.mp hbody)) _)

theorem parseSTUN_safe (payload : Bytes) : Safe .panic (parseSTUN payload) := by
  rcases parseSTUN_outcome payload with herror | hreturns
  · rw [herror]
    exact fun e he => nomatch he
  · exact hreturns.safe

/-! ## The layout -/

structure STUNAttribute where
  type : UInt16
  value : Bytes
  padding : Bytes
  padded : padding.length = stunPad value.length

def STUNAttribute.put (a : STUNAttribute) : Bytes :=
  putUint 2 a.type.toNat ++ (putUint 2 a.value.length ++ (a.value ++ a.padding))

theorem STUNAttribute.length_put (a : STUNAttribute) :
    a.put.length = 4 + a.value.length + stunPad a.value.length := by
  simp only [put, length_append, length_putUint, a.padded]
  omega

/-- A message as it is sent. The two top bits of its type are zero. -/
structure STUNPacket where
  type : UInt16
  transactionID : Bytes
  attributes : List STUNAttribute
  type_bits : type &&& 0xc000 = 0
  id_length : transactionID.length = 12
  fits : (attributes.flatMap STUNAttribute.put).length < 256 ^ 2

namespace STUNPacket

def body (p : STUNPacket) : Bytes := p.attributes.flatMap STUNAttribute.put

def header (p : STUNPacket) : Bytes :=
  putUint 2 p.type.toNat ++
    (putUint 2 p.body.length ++ (putUint 4 stunMagicCookie ++ p.transactionID))

def encode (p : STUNPacket) : Bytes := p.header ++ p.body

/-- The value of the last attribute of this type, empty if there is none. -/
def lastValue (attributes : List STUNAttribute) (attrType : UInt16) : Bytes :=
  match attributes.reverse.find? (fun a => a.type = attrType) with
  | some a => a.value
  | none => []

def message (p : STUNPacket) : STUNMessage where
  type := p.type
  username := lastValue p.attributes stunAttrUsername
  software := lastValue p.attributes stunAttrSoftware
  attributes := p.attributes.map fun a => a.type

theorem length_header (p : STUNPacket) : p.header.length = stunHeaderLen := by
  simp only [header, length_append, length_putUint, p.id_length]
  rfl

theorem lastValue_append (attributes : List STUNAttribute) (a : STUNAttribute) (attrType : UInt16) :
    lastValue (attributes ++ [a]) attrType =
      if a.type = attrType then a.value else lastValue attributes attrType := by
  unfold lastValue
  rw [reverse_append, reverse_singleton, singleton_append, find?_cons]
  by_cases h : a.type = attrType
  · rw [decide_eq_true h, if_pos h]
  · rw [decide_eq_false h, if_neg h]

theorem foldl_add (type : UInt16) (attributes : List STUNAttribute) :
    attributes.foldl (fun (m : STUNMessage) a => m.add a.type a.value) { type } =
      { type, username := lastValue attributes stunAttrUsername,
        software := lastValue attributes stunAttrSoftware,
        attributes := attributes.map fun a => a.type } := by
  -- from the end: the last attribute is the one that overwrites
  induction attributes using List.reverseRecOn with
  | nil => rfl
  | append_singleton attributes a ih =>
    rw [foldl_append, ih, foldl_cons, foldl_nil, lastValue_append, lastValue_append, map_append]
    unfold STUNMessage.add
    by_cases husername : a.type = stunAttrUsername
    · have hother : ¬a.type = stunAttrSoftware := by
        rw [husername]
        decide
      rw [if_pos husername, if_pos husername, if_neg hother]
      rfl
    · rw [if_neg husername, if_neg husername]
      split_ifs with hsoftware
      · rfl
      · rfl

/-! ## Reading a packet -/

theorem stunRound_attribute {payload before after : Bytes} {fin : Nat} {a : STUNAttribute}
    (hpayload : payload = before ++ (a.put ++ after)) (hfits : a.value.length < 256 ^ 2)
    (hfin : before.length + a.put.length ≤ fin) (m : STUNMessage) :
    ∃ smaller, stunRound payload fin (before.length, m) =
      .ok (.next (before.length + a.put.length, m.add a.type a.value) smaller) := by
  have hlen := a.length_put
  have htype : payload = before ++ (putUint 2 a.type.toNat ++
      (putUint 2 a.value.length ++ (a.value ++ (a.padding ++ after)))) := by
    simp [hpayload, STUNAttribute.put]
  have hlength : payload = (before ++ putUint 2 a.type.toNat) ++
      (putUint 2 a.value.length ++ (a.value ++ (a.padding ++ after))) := by
    simp [htype]
  have hvalue : payload = (before ++ putUint 2 a.type.toNat ++ putUint 2 a.value.length) ++
      (a.value ++ (a.padding ++ after)) := by
    simp [htype]
  unfold stunRound
  rw [dif_pos (by dsimp only; omega), slice_at htype rfl (by simp), ok_bind,
    slice_at hlength (by simp) (by simp), ok_bind]
  simp only [getUint_putUint hfits]
  have hpos : before.length + 4 + a.value.length + stunPad a.value.length =
      before.length + a.put.length := by omega
  rw [if_neg (by omega), slice_at hvalue (by simp) (by simp), ok_bind]
  simp only [uint16_putUint, hpos]
  exact ⟨by omega, trivial⟩

theorem value_fits (p : STUNPacket) {a : STUNAttribute} (ha : a ∈ p.attributes) :
    a.value.length < 256 ^ 2 := by
  have hle : a.put.length ≤ p.body.length :=
    (sublist_flatten_of_mem (mem_map_of_mem ha)).length_le
  have hlen := a.length_put
  have hfits : p.body.length < 256 ^ 2 := p.fits
  omega

theorem runLoop_attributes (p : STUNPacket) (trailing : Bytes) :
    runLoop _ (stunRound (p.encode ++ trailing) (stunHeaderLen + p.body.length))
      (stunHeaderLen, { type := p.type }) = .ok p.message := by
  let state (seen : List STUNAttribute) : Nat × STUNMessage :=
    ((p.header ++ seen.flatMap STUNAttribute.put).length,
      seen.foldl (fun (m : STUNMessage) a => m.add a.type a.value) { type := p.type })
  have hfirst : state [] = (stunHeaderLen, { type := p.type }) := by simp [state, p.length_header]
  rw [← hfirst]
  refine runLoop_items state p.attributes (fun seen a rest hattributes => ?_) ?_
  · have hbody :
        p.body = seen.flatMap STUNAttribute.put ++ (a.put ++ rest.flatMap STUNAttribute.put) := by
      rw [body, hattributes, flatMap_append, flatMap_cons]
    have hpayload : p.encode ++ trailing = (p.header ++ seen.flatMap STUNAttribute.put) ++
        (a.put ++ (rest.flatMap STUNAttribute.put ++ trailing)) := by
      simp [encode, hbody]
    have hfin : (p.header ++ seen.flatMap STUNAttribute.put).length + a.put.length ≤
        stunHeaderLen + p.body.length := by
      rw [hbody, length_append, length_append, length_append, p.length_header]
      omega
    have hnow : state (seen ++ [a]) =
        ((p.header ++ seen.flatMap STUNAttribute.put).length + a.put.length,
          (state seen).2.add a.type a.value) := by
      simp [state, Nat.add_assoc]
    rw [hnow]
    exact stunRound_attribute hpayload (p.value_fits (by rw [hattributes]; simp)) hfin _
  · have hend : state p.attributes = (stunHeaderLen + p.body.length, p.message) := by
      simp only [state, length_append, p.length_header, foldl_add]
      rfl
    rw [hend]
    exact dif_neg (by dsimp only; omega)

theorem type_lt (p : STUNPacket) : p.type.toNat < 2 ^ 14 := by
  have hbits := congrArg UInt16.toNat p.type_bits
  rw [UInt16.toNat_and] at hbits
  refine Nat.lt_pow_two_of_testBit _ fun i hi => ?_
  by_cases hhigh : 16 ≤ i
  · exact Nat.testBit_lt_two_pow
      (Nat.lt_of_lt_of_le p.type.toNat_lt (Nat.pow_le_pow_right (by decide) hhigh))
  · -- bit 14 or 15, which the mask keeps
    have hbit := congrArg (Nat.testBit · i) hbits
    simp only [Nat.testBit_and] at hbit
    have hcases : i = 14 ∨ i = 15 := by omega
    rcases hcases with rfl | rfl
    · rwa [show Nat.testBit (0xc000 : UInt16).toNat 14 = true from rfl, Bool.and_true] at hbit
    · rwa [show Nat.testBit (0xc000 : UInt16).toNat 15 = true from rfl, Bool.and_true] at hbit

theorem and_topBits : ∀ n < 64, UInt8.ofNat n &&& 0xc0 = 0 := by decide

/-- **Reading undoes writing.** -/
theorem parseSTUN_encode (p : STUNPacket) (trailing : Bytes) :
    parseSTUN (p.encode ++ trailing) = .ok p.message := by
  have hheader := p.length_header
  have hlen : (p.encode ++ trailing).length = stunHeaderLen + p.body.length + trailing.length := by
    rw [encode, length_append, length_append, hheader]
  have hfits : p.body.length < 256 ^ 2 := p.fits
  have hfirst : index STUNError.panic (p.encode ++ trailing) 0 =
      .ok (UInt8.ofNat (p.type.toNat / 256)) := rfl
  have hbits : UInt8.ofNat (p.type.toNat / 256) &&& 0xc0 = 0 :=
    and_topBits _ (by have := p.type_lt; omega)
  -- the four fields of the header, one behind the other
  have htype : p.encode ++ trailing = [] ++ (putUint 2 p.type.toNat ++ (putUint 2 p.body.length ++
      (putUint 4 stunMagicCookie ++ (p.transactionID ++ (p.body ++ trailing))))) := by
    simp [encode, header]
  have hlength : p.encode ++ trailing = putUint 2 p.type.toNat ++ (putUint 2 p.body.length ++
      (putUint 4 stunMagicCookie ++ (p.transactionID ++ (p.body ++ trailing)))) := htype
  have hcookie : p.encode ++ trailing = (putUint 2 p.type.toNat ++ putUint 2 p.body.length) ++
      (putUint 4 stunMagicCookie ++ (p.transactionID ++ (p.body ++ trailing))) := by
    simp [hlength]
  have htypeBytes : slice STUNError.panic (p.encode ++ trailing) 0 2 =
      .ok (putUint 2 p.type.toNat) := slice_at htype rfl (by simp)
  unfold parseSTUN
  rw [if_neg (by rw [hlen]; omega), hfirst, ok_bind, if_neg (by rw [hbits]; simp),
    slice_at hcookie (by simp) (by simp), ok_bind, getUint_putUint (by decide), if_neg (by simp),
    slice_at hlength (by simp) (by simp), ok_bind, getUint_putUint hfits, if_neg (by omega),
    htypeBytes, ok_bind, uint16_putUint]
  exact p.runLoop_attributes trailing

end STUNPacket

/-- **STUN messages are read as they were written, and no payload is read
outside its bounds.** -/
theorem parseSTUN_inverts :
    (∀ (p : STUNPacket) (trailing : Bytes), parseSTUN (p.encode ++ trailing) = .ok p.message) ∧
      ∀ payload : Bytes, Safe .panic (parseSTUN payload) :=
  ⟨STUNPacket.parseSTUN_encode, parseSTUN_safe⟩

end HeadlessClient.Capture
