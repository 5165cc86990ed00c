import Mathlib.Data.List.FinRange
import Mathlib.Data.List.Nodup
import Mathlib.Logic.Equiv.Defs
import Mathlib.Tactic.Common

/-!
# Base — seeded generators

`rand.New(rand.NewSource(seed))` answers every call by a fixed function of the
seed and of the calls before it. A `Generator` is ANY such function: `Shuffle`
answers with a permutation of the positions and `Intn(n)` with a number below
`n`, and nothing else is assumed.

A permutation of a list is read through its positions (`permute`). The relative
order of some of the items survives exactly when the permutation is increasing
on their positions (`filter_permute_eq_iff`).
-/

namespace HeadlessClient.Base

open List

/-! ## Permuting a list -/

variable {α β : Type}

/-- The list whose `i`-th item is the `σ i`-th of `xs`. -/
def permute (xs : List α) (σ : Equiv.Perm (Fin xs.length)) : List α :=
  (List.finRange xs.length).map fun i => xs.get (σ i)

@[simp] theorem length_permute (xs : List α) (σ : Equiv.Perm (Fin xs.length)) :
    (permute xs σ).length = xs.length := by
  simp [permute]

theorem permute_perm (xs : List α) (σ : Equiv.Perm (Fin xs.length)) :
    (permute xs σ).Perm xs := by
  have hget := σ.map_finRange_perm.map xs.get
  rw [map_map, map_get_finRange] at hget
  exact hget

theorem mem_dropLast_permute {f : α → β} {xs : List α} {σ : Equiv.Perm (Fin xs.length)} {y : β} :
    y ∈ ((permute xs σ).map f).dropLast ↔
      ∃ i : Fin xs.length, i.val + 1 < xs.length ∧ f (xs.get (σ i)) = y := by
  simp only [mem_iff_getElem, length_dropLast, length_map, length_permute, getElem_dropLast]
  constructor
  · rintro ⟨i, hi, rfl⟩
    exact ⟨⟨i, by omega⟩, show i + 1 < xs.length by omega, by simp [permute]⟩
  · rintro ⟨i, hlt, rfl⟩
    exact ⟨i.val, by omega, by simp [permute]⟩

/-- A list in increasing order is the only such arrangement of its items. -/
theorem eq_of_perm_of_increasing {n : Nat} {l₁ l₂ : List (Fin n)} (h : l₁.Perm l₂)
    (h₁ : l₁.Pairwise (· < ·)) (h₂ : l₂.Pairwise (· < ·)) : l₁ = l₂ :=
  h.eq_of_pairwise (fun _ _ _ _ hab hba => absurd hba (lt_asymm hab)) h₁ h₂

/-- **The items with `p` keep their order iff the permutation is increasing on
their positions.** Items are told apart by `f`. -/
theorem filter_permute_eq_iff {f : α → β} {xs : List α} (hnodup : (xs.map f).Nodup)
    (σ : Equiv.Perm (Fin xs.length)) (p : α → Bool) :
    ((permute xs σ).filter p).map f = (xs.filter p).map f ↔
      ∀ i j, i < j → p (xs.get (σ i)) → p (xs.get (σ j)) → σ i < σ j := by
  -- both sides are lists of positions, read through `f ∘ xs.get`
  have hinj : Function.Injective (f ∘ xs.get) := by
    intro i j hij
    have hget : (⟨i, by simp⟩ : Fin (xs.map f).length) = ⟨j, by simp⟩ :=
      nodup_iff_injective_get.mp hnodup (by simpa using hij)
    exact Fin.ext (by simpa using hget)
  have hleft : ((permute xs σ).filter p).map f =
      (((List.finRange xs.length).filter fun i => p (xs.get (σ i))).map σ).map (f ∘ xs.get) := by
    rw [permute, filter_map, map_map, map_map]
    rfl
  have hright : (xs.filter p).map f =
      ((List.finRange xs.length).filter fun i => p (xs.get i)).map (f ∘ xs.get) := by
    conv_lhs => rw [← map_get_finRange xs]
    rw [filter_map, map_map]
    rfl
  have hsorted : (((List.finRange xs.length).filter fun i => p (xs.get (σ i))).map σ).Pairwise
      (· < ·) ↔ ∀ i j, i < j → p (xs.get (σ i)) → p (xs.get (σ j)) → σ i < σ j := by
    rw [pairwise_map, pairwise_filter, ← ofFn_id, pairwise_ofFn]
    simp only [id]
  have hincreasing : ((List.finRange xs.length).filter fun i => p (xs.get i)).Pairwise (· < ·) := by
    have hall : (List.finRange xs.length).Pairwise (· < ·) := by
      rw [← ofFn_id, pairwise_ofFn]
      simp only [id, imp_self, implies_true]
    exact hall.filter _
  rw [hleft, hright, (map_injective_iff.mpr hinj).eq_iff, ← hsorted]
  constructor
  · intro heq
    rw [heq]
    exact hincreasing
  · intro hpair
    refine eq_of_perm_of_increasing ?_ hpair hincreasing
    have hperm := σ.map_finRange_perm.filter fun i => p (xs.get i)
    rwa [filter_map] at hperm

/-! ## Generators -/

inductive RandCall where
  | shuffle (n : Nat)
  | intn (n : Nat)
deriving DecidableEq, Repr

/-- `rand.New(rand.NewSource(seed))` after the calls `calls`. -/
structure Source where
  seed : Int64
  calls : List RandCall := []

/-- What every seeded source answers to every call. -/
structure Generator where
  permutation : Source → (n : Nat) → Equiv.Perm (Fin n)
  intn : Source → Nat → Nat
  intn_lt : ∀ source n, 0 < n → intn source n < n

namespace Generator

/-- `source.Shuffle(len(xs), swap)`. -/
def shuffle (g : Generator) (source : Source) (xs : List α) : List α × Source :=
  (permute xs (g.permutation source xs.length),
    { source with calls := source.calls ++ [.shuffle xs.length] })

/-- `source.Intn(n)`. -/
def draw (g : Generator) (source : Source) (n : Nat) : Nat × Source :=
  (g.intn source n, { source with calls := source.calls ++ [.intn n] })

end Generator

end HeadlessClient.Base
