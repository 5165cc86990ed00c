import HeadlessClient.Wire.Message

/-!
# Wire — letter case

Names of headers, schemes and hosts are compared without regard to the case of
their ASCII letters. `lower` is the map of `Wire.Message`; two texts are RECASED
if it takes them to one text.
-/

namespace HeadlessClient.Wire

open Base List

def lowerByte (c : UInt8) : UInt8 := if 65 ≤ c && c ≤ 90 then c + 32 else c

/-- The texts differ in the case of ASCII letters only. -/
def Recased (text text' : Bytes) : Prop := lower text = lower text'

instance (text text' : Bytes) : Decidable (Recased text text') :=
  inferInstanceAs (Decidable (lower text = lower text'))

def isLetter (c : UInt8) : Bool := 65 ≤ c && c ≤ 90 || 97 ≤ c && c ≤ 122

/-! ## Bytes -/

theorem lower_eq_map (text : Bytes) : lower text = text.map lowerByte := rfl

theorem lowerByte_of_not_letter : ∀ c : UInt8, isLetter c = false → lowerByte c = c :=
  forall_byte (by decide +kernel)

theorem isLetter_lowerByte : ∀ c : UInt8, isLetter (lowerByte c) = isLetter c :=
  forall_byte (by decide +kernel)

theorem lowerByte_eq_iff {c d : UInt8} (hd : isLetter d = false) : lowerByte c = d ↔ c = d := by
  constructor
  · intro h
    rw [← h, isLetter_lowerByte] at hd
    rw [← h, lowerByte_of_not_letter c hd]
  · intro h
    rw [h, lowerByte_of_not_letter d hd]

/-! ## Texts -/

@[simp] theorem lower_nil : lower [] = [] := rfl

@[simp] theorem lower_cons (c : UInt8) (text : Bytes) :
    lower (c :: text) = lowerByte c :: lower text := rfl

theorem ascii_of_lower {text : Bytes} (h : ∀ c ∈ lower text, c < 0x80) : ∀ c ∈ text, c < 0x80 := by
  intro c hc
  have hbyte : ∀ c : UInt8, lowerByte c < 0x80 → c < 0x80 := forall_byte (by decide +kernel)
  exact hbyte c (h _ (mem_map_of_mem hc))

theorem lower_eq_self {text : Bytes} (h : ∀ c ∈ text, lowerByte c = c) : lower text = text := by
  rw [lower_eq_map, map_congr_left h, map_id']

theorem lowerByte_lowerByte : ∀ c : UInt8, lowerByte (lowerByte c) = lowerByte c :=
  forall_byte (by decide +kernel)

theorem lower_lower (text : Bytes) : lower (lower text) = lower text := by
  apply lower_eq_self
  intro c hc
  obtain ⟨d, -, rfl⟩ := mem_map.mp hc
  exact lowerByte_lowerByte d

namespace Recased

variable {text text' : Bytes}

theorem head? (h : Recased text text') {d : UInt8} (hd : isLetter d = false) :
    text.head? = some d ↔ text'.head? = some d := by
  cases text with
  | nil =>
    cases text' with
    | nil => exact Iff.rfl
    | cons c' rest' => cases h
  | cons c rest =>
    cases text' with
    | nil => cases h
    | cons c' rest' =>
      have hc : lowerByte c = lowerByte c' := (List.cons.inj h).1
      simp only [head?_cons, Option.some.injEq]
      rw [← lowerByte_eq_iff hd, hc, lowerByte_eq_iff hd]

theorem reverse (h : Recased text text') : Recased text.reverse text'.reverse := by
  show text.reverse.map lowerByte = text'.reverse.map lowerByte
  rw [map_reverse, map_reverse]
  exact congrArg List.reverse h

theorem drop (h : Recased text text') (n : Nat) : Recased (text.drop n) (text'.drop n) := by
  show (text.drop n).map lowerByte = (text'.drop n).map lowerByte
  rw [map_drop, map_drop]
  exact congrArg (List.drop n) h

theorem dropLast (h : Recased text text') : Recased text.dropLast text'.dropLast := by
  show text.dropLast.map lowerByte = text'.dropLast.map lowerByte
  rw [map_dropLast, map_dropLast]
  exact congrArg List.dropLast h

theorem getLast? (h : Recased text text') {d : UInt8} (hd : isLetter d = false) :
    text.getLast? = some d ↔ text'.getLast? = some d := by
  rw [← head?_reverse, ← head?_reverse]
  exact h.reverse.head? hd

end Recased

end HeadlessClient.Wire
