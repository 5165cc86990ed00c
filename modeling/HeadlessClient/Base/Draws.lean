import Mathlib.Data.List.Perm.Basic
import Mathlib.Tactic.Common

/-!
# Base — random draws

A `*rand.Rand` is the list of outcomes it is going to hand out. A draw below
`n` reduces the next outcome modulo `n`, so ranging over all lists is ranging
over ALL outcomes of the draws and over nothing else (`uint64N_lt`). An
exhausted list answers `0`.

`shuffle` is the Fisher–Yates loop of `math/rand/v2`'s `Shuffle`, which
`chaosProtect` also spells out by hand.
-/

namespace HeadlessClient.Base

/-- A random source, as the outcomes it will hand out. -/
structure Rand where
  outcomes : List Nat
deriving DecidableEq, Repr

namespace Rand

/-- `random.Uint64N(n)` and `random.IntN(n)`: a value below `n`. -/
def uint64N (r : Rand) (n : Nat) : Nat × Rand :=
  match r.outcomes with
  | [] => (0, r)
  | d :: ds => (d % n, ⟨ds⟩)

theorem uint64N_lt (r : Rand) {n : Nat} (h : 0 < n) : (r.uint64N n).1 < n := by
  unfold uint64N
  split
  · exact h
  · exact Nat.mod_lt _ h

variable {α : Type}

/-- The loop `for i := n; i > 0; i--` of the shuffle. -/
def shuffleFrom (r : Rand) : Nat → List α → List α × Rand
  | 0, l => (l, r)
  | i + 1, l =>
    let (j, r') := r.uint64N (i + 2)
    shuffleFrom r' i (l.swap (i + 1) j)

/-- `random.Shuffle(len(l), swap)`. -/
def shuffle (r : Rand) (l : List α) : List α × Rand :=
  r.shuffleFrom (l.length - 1) l

theorem shuffleFrom_perm (r : Rand) (i : Nat) (l : List α) :
    (r.shuffleFrom i l).1.Perm l := by
  induction i generalizing r l with
  | zero => exact .refl l
  | succ i ih => exact (ih _ _).trans (l.swap_perm (i + 1) _)

/-- **The shuffle only permutes**, whatever the draws. -/
theorem shuffle_perm (r : Rand) (l : List α) : (r.shuffle l).1.Perm l :=
  r.shuffleFrom_perm _ l

end Rand

end HeadlessClient.Base
