import HeadlessClient.Base.Overlay
import Mathlib.Algebra.Order.BigOperators.Group.Finset
import Mathlib.Algebra.Ring.Nat
import Mathlib.Order.Interval.Finset.Nat

/-!
# Base — sweeping over sorted chunks

Reassembly without a buffer: visit the chunks in the order of their offsets and
go on as long as the next one starts within what has been reached.
`sweepEnd_firstGap`: this stops at the first position that no chunk covers.
-/

namespace HeadlessClient.Base

open List

variable {α : Type}

/-- How far the chunks reach from `position` on without a gap. -/
def sweepEnd : List (Chunk α) → Nat → Nat
  | [], position => position
  | c :: chunks, position =>
    if c.offset > position then position
    else if c.finish ≤ position then sweepEnd chunks position
    else sweepEnd chunks c.finish

theorem FirstGap.congr {cov cov' : Nat → Bool} {n : Nat} (h : FirstGap cov n)
    (he : ∀ i, cov' i = cov i) : FirstGap cov' n := by
  obtain rfl : cov' = cov := funext he
  exact h

/-- The sweep stops at the first gap behind `position`. -/
theorem sweepEnd_firstGap_from (chunks : List (Chunk α)) :
    chunks.Pairwise (fun c d => c.offset ≤ d.offset) → ∀ position,
      FirstGap (fun i => decide (i < position) || covered chunks i) (sweepEnd chunks position) := by
  induction chunks with
  | nil =>
    intro _ position
    constructor
    · intro i hi
      rw [sweepEnd] at hi
      simp [hi]
    · simp [sweepEnd, covered]
  | cons c chunks ih =>
    intro hsorted position
    obtain ⟨hfirst, hsorted⟩ := pairwise_cons.mp hsorted
    rw [sweepEnd]
    by_cases hgap : c.offset > position
    · -- all the others start behind the gap, too
      rw [if_pos hgap]
      refine ⟨fun i hi => by simp [hi], ?_⟩
      rw [decide_eq_false (Nat.lt_irrefl _), Bool.false_or, ← Bool.not_eq_true, covered_iff]
      rintro ⟨d, hd, hcarries⟩
      have hin := Chunk.carries_iff.mp hcarries
      rcases mem_cons.mp hd with rfl | hd
      · omega
      · have := hfirst d hd
        omega
    · rw [if_neg hgap]
      split_ifs with hold
      · refine (ih hsorted position).congr fun i => ?_
        unfold Chunk.finish at hold
        rw [Bool.eq_iff_iff]
        simp only [covered, any_cons, Bool.or_eq_true, decide_eq_true_iff, Chunk.carries_iff]
        constructor
        · rintro (h | h | h)
          · exact .inl h
          · exact .inl (by omega)
          · exact .inr h
        · rintro (h | h)
          · exact .inl h
          · exact .inr (.inr h)
      · refine (ih hsorted c.finish).congr fun i => ?_
        unfold Chunk.finish at hold ⊢
        rw [Bool.eq_iff_iff]
        simp only [covered, any_cons, Bool.or_eq_true, decide_eq_true_iff, Chunk.carries_iff]
        constructor
        · rintro (h | h | h)
          · exact .inl (by omega)
          · exact .inl h.2
          · exact .inr h
        · rintro (h | h)
          · by_cases hlow : i < position
            · exact .inl hlow
            · exact .inr (.inl (by omega))
          · exact .inr (.inr h)

/-- **The sweep finds the first gap.** -/
theorem sweepEnd_firstGap {chunks : List (Chunk α)}
    (hsorted : chunks.Pairwise fun c d => c.offset ≤ d.offset) :
    FirstGap (covered chunks) (sweepEnd chunks 0) :=
  (sweepEnd_firstGap_from chunks hsorted 0).congr fun i => by simp

/-! ## Few bytes do not reach far -/

theorem card_covered_le (chunks : List (Chunk α)) (n : Nat) :
    ((Finset.range n).filter fun i => covered chunks i = true).card ≤
      (chunks.map fun c => c.data.length).sum := by
  induction chunks with
  | nil => simp [covered]
  | cons c chunks ih =>
    have hsub : ((Finset.range n).filter fun i => covered (c :: chunks) i = true) ⊆
        Finset.Ico c.offset c.finish ∪
          ((Finset.range n).filter fun i => covered chunks i = true) := by
      intro i hi
      obtain ⟨hi, hcov⟩ := Finset.mem_filter.mp hi
      rw [covered, any_cons, Bool.or_eq_true, Chunk.carries_iff] at hcov
      rw [Finset.mem_union, Finset.mem_Ico, Finset.mem_filter]
      exact hcov.imp_right fun h => ⟨hi, h⟩
    have hcard := (Finset.card_le_card hsub).trans (Finset.card_union_le _ _)
    rw [Nat.card_Ico, Chunk.finish, Nat.add_sub_cancel_left] at hcard
    rw [map_cons, sum_cons]
    omega

theorem FirstGap.le_sum {chunks : List (Chunk α)} {n : Nat} (h : FirstGap (covered chunks) n) :
    n ≤ (chunks.map fun c => c.data.length).sum := by
  have hall : ((Finset.range n).filter fun i => covered chunks i = true) = Finset.range n := by
    refine Finset.filter_true_of_mem fun i hi => h.before i (Finset.mem_range.mp hi)
  have hcard := card_covered_le chunks n
  rwa [hall, Finset.card_range] at hcard

end HeadlessClient.Base
