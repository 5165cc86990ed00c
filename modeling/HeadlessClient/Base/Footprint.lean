import Mathlib.Tactic.Common

/-!
# Base — memory that is not shared

Memory is a list of cells, and new cells are put at its end. An object reaches
some of them, its CELLS; which ones depends on the content of these cells only
(`Footprint`). Objects are `Separate` if no cell is reached from two of them.

A step of a program on one object writes to its cells and allocates others. Then
the objects are separate as before (`Separate.write`), and nothing the other
objects reach has changed (`Separate.kept`).
-/

namespace HeadlessClient.Base

variable {α κ ι : Type}

/-! ## Writes -/

/-- `after` is `before` with other content at some addresses, and more cells. -/
structure Writes (area : List Nat) (before after : List α) : Prop where
  length_le : before.length ≤ after.length
  kept : ∀ a < before.length, a ∉ area → after[a]? = before[a]?

namespace Writes

theorem refl (area : List Nat) (memory : List α) : Writes area memory memory :=
  ⟨Nat.le_refl _, fun _ _ _ => rfl⟩

theorem append (area : List Nat) (memory cells : List α) :
    Writes area memory (memory ++ cells) where
  length_le := by simp
  kept a ha _ := List.getElem?_append_left ha

end Writes

/-! ## Objects -/

/-- The cells that an object reaches. -/
structure Footprint (α κ : Type) where
  cells : List α → κ → List Nat
  congr : ∀ {before after : List α} {x : κ},
    (∀ a ∈ cells before x, after[a]? = before[a]?) → cells after x = cells before x

variable {F : Footprint α κ} {start : Nat} {before after : List α} {object object' : ι → Option κ}

/-- Each object has cells of its own, all from `start` on. -/
structure Separate (F : Footprint α κ) (start : Nat) (memory : List α) (object : ι → Option κ) :
    Prop where
  inside : ∀ i x, object i = some x → ∀ a ∈ F.cells memory x, start ≤ a ∧ a < memory.length
  apart : ∀ i j x y, object i = some x → object j = some y → i ≠ j →
    ∀ a ∈ F.cells memory x, a ∉ F.cells memory y

namespace Separate

variable {area own : List Nat} {i j : ι} {x' y : κ}

/-- What is done to the cells of one object, or below `start`, is not seen from
another. -/
theorem kept (h : Separate F start before object)
    (hown : ∀ a ∈ own, ∃ x, object i = some x ∧ a ∈ F.cells before x)
    (hw : Writes area before after) (harea : ∀ a ∈ area, a ∈ own ∨ a < start)
    (hy : object j = some y) (hij : i ≠ j) : ∀ a ∈ F.cells before y, after[a]? = before[a]? := by
  intro a ha
  obtain ⟨hstart, hlength⟩ := h.inside j y hy a ha
  apply hw.kept a hlength
  intro hmem
  rcases harea a hmem with hself | hlow
  · obtain ⟨x, hx, hax⟩ := hown a hself
    exact h.apart i j x y hx hy hij a hax ha
  · omega

/-- **A step on one object**, which may be a new one: it may come to reach new cells,
and may also write below `start`. -/
theorem write (h : Separate F start before object) (hstart : start ≤ before.length)
    (hown : ∀ a ∈ own, ∃ x, object i = some x ∧ a ∈ F.cells before x)
    (hx' : object' i = some x') (hothers : ∀ j, j ≠ i → object' j = object j)
    (hw : Writes area before after) (harea : ∀ a ∈ area, a ∈ own ∨ a < start)
    (hcells : ∀ a ∈ F.cells after x', a ∈ own ∨ before.length ≤ a ∧ a < after.length) :
    Separate F start after object' := by
  -- the cells of the others are the ones they had
  have hsame : ∀ j y, j ≠ i → object' j = some y →
      object j = some y ∧ F.cells after y = F.cells before y := by
    intro j y hj hy
    rw [hothers j hj] at hy
    exact ⟨hy, F.congr (h.kept hown hw harea hy (Ne.symm hj))⟩
  have hself : ∀ y, object' i = some y → y = x' := by
    intro y hy
    rw [hx'] at hy
    exact (Option.some.inj hy).symm
  have hnew : ∀ j y, j ≠ i → object' j = some y → ∀ a ∈ F.cells after x', a ∉ F.cells after y := by
    intro j y hj hy a ha
    obtain ⟨hold, hy'⟩ := hsame j y hj hy
    rw [hy']
    rcases hcells a ha with ha' | ⟨hfresh, -⟩
    · obtain ⟨x, hx, hax⟩ := hown a ha'
      exact h.apart i j x y hx hold (Ne.symm hj) a hax
    · intro hmem
      have hlt := (h.inside j y hold a hmem).2
      omega
  constructor
  · intro j y hy a ha
    by_cases hj : j = i
    · subst hj
      rw [hself y hy] at ha
      rcases hcells a ha with ha' | ⟨hfresh, hlt⟩
      · obtain ⟨x, hx, hax⟩ := hown a ha'
        have hold := h.inside j x hx a hax
        exact ⟨hold.1, Nat.lt_of_lt_of_le hold.2 hw.length_le⟩
      · exact ⟨Nat.le_trans hstart hfresh, hlt⟩
    · obtain ⟨hold, hy'⟩ := hsame j y hj hy
      rw [hy'] at ha
      have hinside := h.inside j y hold a ha
      exact ⟨hinside.1, Nat.lt_of_lt_of_le hinside.2 hw.length_le⟩
  · intro j k y z hy hz hjk a ha
    by_cases hj : j = i
    · subst hj
      rw [hself y hy] at ha
      exact hnew k z (Ne.symm hjk) hz a ha
    · by_cases hk : k = i
      · subst hk
        rw [hself z hz]
        intro hmem
        exact hnew j y hj hy a hmem ha
      · obtain ⟨hold, hy'⟩ := hsame j y hj hy
        obtain ⟨hold', hz'⟩ := hsame k z hk hz
        rw [hy'] at ha
        rw [hz']
        exact h.apart j k y z hold hold' hjk a ha

end Separate

end HeadlessClient.Base
