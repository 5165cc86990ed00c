import HeadlessClient.Base.Except

/-!
# Base — run-time panics

What the Go run time stops a program for. Code that indexes or slices says so
with `index` and `slice`, which return the panic as an error of the caller's own
error type (`panic` injects it); `Safe` is the absence of panics, and a block is
safe if its statements are (`Safe.bind`).
-/

namespace HeadlessClient.Base

open List

inductive RuntimeError where
  | indexOutOfRange
  | sliceOutOfRange
  /-- Assignment to an entry in a nil map. -/
  | nilMapWrite
  | nilDereference
deriving DecidableEq, Repr

variable {ε α β : Type}

/-- `xs[i]`. -/
def index (panic : RuntimeError → ε) (xs : List α) (i : Nat) : Except ε α :=
  match xs[i]? with
  | some x => .ok x
  | none => .error (panic .indexOutOfRange)

/-- `xs[lo:hi]`. -/
def slice (panic : RuntimeError → ε) (xs : List α) (lo hi : Nat) : Except ε (List α) :=
  if lo ≤ hi ∧ hi ≤ xs.length then .ok ((xs.take hi).drop lo)
  else .error (panic .sliceOutOfRange)

/-- `xs[lo:]`. -/
def sliceFrom (panic : RuntimeError → ε) (xs : List α) (lo : Nat) : Except ε (List α) :=
  slice panic xs lo xs.length

section Rules

variable {panic : RuntimeError → ε} {xs : List α} {lo : Nat} {x : Except ε α} {f : α → Except ε β}
  {c : Prop}

theorem index_eq {i : Nat} (h : i < xs.length) : index panic xs i = .ok xs[i] := by
  rw [index, getElem?_eq_getElem h]

theorem slice_eq {hi : Nat} (hlo : lo ≤ hi) (hhi : hi ≤ xs.length) :
    slice panic xs lo hi = .ok ((xs.take hi).drop lo) :=
  if_pos ⟨hlo, hhi⟩

theorem sliceFrom_eq (h : lo ≤ xs.length) : sliceFrom panic xs lo = .ok (xs.drop lo) := by
  rw [sliceFrom, slice_eq h (Nat.le_refl _), take_length]

theorem index_at {before after : List α} {x : α} {i : Nat} (h : xs = before ++ x :: after)
    (hi : i = before.length) : index panic xs i = .ok x := by
  rw [index, h, hi, getElem?_append_right (Nat.le_refl _), Nat.sub_self, getElem?_cons_zero]

theorem slice_at {before middle after : List α} {hi : Nat} (h : xs = before ++ (middle ++ after))
    (hlo : lo = before.length) (hhi : hi = before.length + middle.length) :
    slice panic xs lo hi = .ok middle := by
  have hle : hi ≤ xs.length := by
    rw [h, hhi, length_append, length_append]
    omega
  rw [slice_eq (by omega) hle, h, hlo, hhi, ← append_assoc, ← length_append,
    take_left, drop_left]

def Safe (panic : RuntimeError → ε) (x : Except ε α) : Prop := ∀ e, x ≠ .error (panic e)

theorem Safe.ok (a : α) : Safe panic (.ok a : Except ε α) := fun _ h => nomatch h

/-- **A block is safe if each statement is**, given that the ones before it
have returned. -/
theorem Safe.bind (hx : Safe panic x) (hf : ∀ a, x = .ok a → Safe panic (f a)) :
    Safe panic (x >>= f) := by
  intro e
  cases hval : x with
  | error e' =>
    intro heq
    have hpanic : e' = panic e := by simpa using heq
    exact hx e (by rw [hval, hpanic])
  | ok a => exact hf a hval e

theorem Safe.map (h : Safe panic x) (f : α → β) : Safe panic (f <$> x) := by
  intro e
  cases hval : x with
  | error e' =>
    intro heq
    exact h e (by rw [hval, Except.error.inj heq])
  | ok a => exact fun heq => nomatch heq

def Returns (x : Except ε α) : Prop := ∃ a, x = .ok a

theorem Returns.ok (a : α) : Returns (.ok a : Except ε α) := ⟨a, rfl⟩

theorem Returns.bind (hx : Returns x) (hf : ∀ a, Returns (f a)) : Returns (x >>= f) := by
  obtain ⟨a, rfl⟩ := hx
  exact hf a

theorem Returns.ite [Decidable c] {y : Except ε α} (hx : c → Returns x) (hy : ¬c → Returns y) :
    Returns (if c then x else y) := by
  split_ifs with h
  · exact hx h
  · exact hy h

theorem Returns.dite [Decidable c] {x : c → Except ε α} {y : ¬c → Except ε α}
    (hx : ∀ h, Returns (x h)) (hy : ∀ h, Returns (y h)) : Returns (dite c x y) := by
  by_cases h : c
  · rw [dif_pos h]
    exact hx h
  · rw [dif_neg h]
    exact hy h

theorem Returns.safe (h : Returns x) : Safe panic x := by
  obtain ⟨a, rfl⟩ := h
  exact Safe.ok a

/-- The value, if the computation returns one, satisfies `P`. -/
def Ensures (P : α → Prop) (x : Except ε α) : Prop := ∀ a, x = .ok a → P a

theorem Ensures.ok {P : α → Prop} {a : α} (h : P a) : Ensures P (.ok a : Except ε α) := by
  intro a' heq
  cases heq
  exact h

theorem Ensures.bind {P : β → Prop} (h : ∀ a, Ensures P (f a)) : Ensures P (x >>= f) := by
  intro b heq
  obtain ⟨a, -, heq⟩ := bind_eq_ok.mp heq
  exact h a b heq

theorem Ensures.ite {P : α → Prop} [Decidable c] {y : Except ε α} (hx : c → Ensures P x)
    (hy : Ensures P y) : Ensures P (if c then x else y) := by
  split_ifs with h
  · exact hx h
  · exact hy

end Rules

end HeadlessClient.Base
