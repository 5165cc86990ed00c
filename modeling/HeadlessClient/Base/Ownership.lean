/-!
# Base — ownership

Resources that must never be in two places at once. `Placed At get Meets` says
that resource `c` is in at most one place, exists there, and is in the condition
that the place asks for. A step of a concurrent program moves resources between
places or creates one; the two rules below are what has to be shown for it.
-/

namespace HeadlessClient.Base

variable {ι π ρ : Type} {At At' : ι → π → Prop} {get get' : ι → Option ρ} {Meets : π → ρ → Prop}

structure Placed (At : ι → π → Prop) (get : ι → Option ρ) (Meets : π → ρ → Prop) : Prop where
  unique : ∀ c p q, At c p → At c q → p = q
  meets : ∀ c p, At c p → ∃ r, get c = some r ∧ Meets p r

namespace Placed

/-- **Moving.** Whatever is at `p'` now was at one place before, and that place
and the resource determine `p'`. -/
theorem relocate (h : Placed At get Meets) (f : ι → π → π)
    (hmove : ∀ c p', At' c p' → ∃ p, At c p ∧ p' = f c p ∧
      ∀ r, get c = some r → Meets p r → ∃ r', get' c = some r' ∧ Meets p' r') :
    Placed At' get' Meets where
  unique c p q hp hq := by
    obtain ⟨p₀, hp₀, rfl, -⟩ := hmove c p hp
    obtain ⟨q₀, hq₀, rfl, -⟩ := hmove c q hq
    rw [h.unique c p₀ q₀ hp₀ hq₀]
  meets c p hp := by
    obtain ⟨p₀, hp₀, -, hkeep⟩ := hmove c p hp
    obtain ⟨r, hget, hmeets⟩ := h.meets c p₀ hp₀
    exact hkeep r hget hmeets

theorem frame (h : Placed At get Meets)
    (hmove : ∀ c p, At' c p → At c p ∧ get' c = get c) : Placed At' get' Meets :=
  h.relocate (fun _ p => p) fun c p hp =>
    ⟨p, (hmove c p hp).1, rfl, fun r hr hmeets => ⟨r, (hmove c p hp).2.trans hr, hmeets⟩⟩

/-- **Creating.** A resource that did not exist appears at one place. -/
theorem create (h : Placed At get Meets) (c₀ : ι) (p₀ : π) (r₀ : ρ) (hfresh : get c₀ = none)
    (hget : get' c₀ = some r₀) (hmeets : Meets p₀ r₀)
    (hmove : ∀ c p, At' c p → (At c p ∧ get' c = get c) ∨ (c = c₀ ∧ p = p₀)) :
    Placed At' get' Meets := by
  have hnot : ∀ p, ¬At c₀ p := by
    intro p hp
    obtain ⟨r, hr, -⟩ := h.meets c₀ p hp
    rw [hfresh] at hr
    cases hr
  constructor
  · intro c p q hp hq
    rcases hmove c p hp with ⟨hp, -⟩ | ⟨rfl, rfl⟩
    · rcases hmove c q hq with ⟨hq, -⟩ | ⟨rfl, rfl⟩
      · exact h.unique c p q hp hq
      · exact absurd hp (hnot p)
    · rcases hmove c q hq with ⟨hq, -⟩ | ⟨-, rfl⟩
      · exact absurd hq (hnot q)
      · rfl
  · intro c p hp
    rcases hmove c p hp with ⟨hp, hsame⟩ | ⟨rfl, rfl⟩
    · rw [hsame]
      exact h.meets c p hp
    · exact ⟨r₀, hget, hmeets⟩

end Placed

end HeadlessClient.Base
