import Mathlib.Tactic.Common

/-!
# Base — sequencing in `Except`

Fallible Go code is a `do` block in `Except`. `bind_eq_ok` peels one statement
off a successful run; the simp lemmas run a block forward.
-/

namespace HeadlessClient.Base

variable {ε α β : Type}

@[simp] theorem ok_bind (a : α) (f : α → Except ε β) : (Except.ok a >>= f) = f a := rfl

@[simp] theorem error_bind (e : ε) (f : α → Except ε β) :
    (Except.error e >>= f) = .error e := rfl

variable {x : Except ε α}

/-- A block succeeds iff its first statement does and the rest succeeds on the
value it returned. -/
theorem bind_eq_ok {f : α → Except ε β} {b : β} :
    (x >>= f) = .ok b ↔ ∃ a, x = .ok a ∧ f a = .ok b := by
  cases x with
  | error e => simp
  | ok a => simp

/-- Where the statement returns a value and a state. -/
theorem step_ok {σ : Type} {x : Except ε (α × σ)} {f : α × σ → Except ε β} {b : β}
    (h : (x >>= f) = .ok b) : ∃ a s, x = .ok (a, s) ∧ f (a, s) = .ok b := by
  obtain ⟨⟨a, s⟩, hx, hf⟩ := bind_eq_ok.mp h
  exact ⟨a, s, hx, hf⟩

theorem map_eq_ok {f : α → β} {b : β} : (f <$> x) = .ok b ↔ ∃ a, x = .ok a ∧ f a = b := by
  cases x with
  | error e => simp [Functor.map, Except.map]
  | ok a => simp [Functor.map, Except.map]

/-- A statement behind `if c { return err }` runs to a value iff the guard is
false and the statement does. -/
theorem guard_eq_ok {c : Prop} [Decidable c] {e : ε} {a : α} :
    (if c then .error e else x) = .ok a ↔ ¬c ∧ x = .ok a := by
  by_cases h : c <;> simp [h]

theorem check_bind_eq_ok {x : Except ε Unit} {y : Except ε α} {a : α} :
    (x >>= fun _ => y) = .ok a ↔ x = .ok () ∧ y = .ok a := by
  cases x with
  | error e => simp
  | ok u => simp

/-- A check that is skipped under `c`. -/
theorem skip_eq_ok {c : Prop} [Decidable c] {x : Except ε Unit} :
    (if c then .ok () else x) = .ok () ↔ (¬c → x = .ok ()) := by
  by_cases h : c <;> simp [h]

end HeadlessClient.Base
