import Mathlib.Data.List.Sort
import Mathlib.Order.Lattice

/-!
# Base — stable sorting by a rank

`stableSort rank` orders a list by a rank and leaves the elements of one rank as
they were. Both facts together determine the result (`eq_of_sorted`), which is how
every law here is proved: sorting what is sorted changes nothing, and a list that
was sorted may grow and be sorted again.
-/

namespace HeadlessClient.Base

open List

variable {α β κ : Type} [LinearOrder κ] {rank : α → κ} {l l' : List α}

/-- `slices.SortStableFunc` with a comparison of ranks. -/
def stableSort (rank : α → κ) (l : List α) : List α := l.insertionSort fun a b => rank a ≤ rank b

/-- The elements of one rank, in their order. -/
def ofRank (rank : α → κ) (r : κ) (l : List α) : List α := l.filter fun a => rank a = r

/-- Ranks never go down. -/
def SortedBy (rank : α → κ) (l : List α) : Prop := l.Pairwise fun a b => rank a ≤ rank b

theorem stableSort_perm (rank : α → κ) (l : List α) : (stableSort rank l).Perm l :=
  perm_insertionSort _ l

theorem mem_ofRank {a : α} {r : κ} : a ∈ ofRank rank r l ↔ a ∈ l ∧ rank a = r := by
  rw [ofRank, mem_filter, decide_eq_true_eq]

theorem mem_of_ofRank (h : ∀ r, ofRank rank r l = ofRank rank r l') {a : α} (ha : a ∈ l) :
    a ∈ l' := by
  have hrank : a ∈ ofRank rank (rank a) l := mem_ofRank.mpr ⟨ha, rfl⟩
  rw [h] at hrank
  exact (mem_ofRank.mp hrank).1

theorem ofRank_append (r : κ) (l l' : List α) :
    ofRank rank r (l ++ l') = ofRank rank r l ++ ofRank rank r l' := filter_append _ _

instance total_rank (rank : α → κ) : Std.Total fun a b : α => rank a ≤ rank b :=
  ⟨fun a b => le_total (rank a) (rank b)⟩

instance isTrans_rank (rank : α → κ) : IsTrans α fun a b => rank a ≤ rank b :=
  ⟨fun _ _ _ => le_trans⟩

theorem sortedBy_stableSort (rank : α → κ) (l : List α) : SortedBy rank (stableSort rank l) :=
  pairwise_insertionSort _ l

/-- **Stability.** -/
theorem ofRank_stableSort (rank : α → κ) (r : κ) (l : List α) :
    ofRank rank r (stableSort rank l) = ofRank rank r l := by
  -- elements of one rank are sorted as they stand, so they survive as a sublist
  have hsame : (ofRank rank r l).Pairwise fun a b => rank a ≤ rank b := by
    refine pairwise_of_forall_mem_list fun a ha b hb => ?_
    rw [(mem_ofRank.mp ha).2, (mem_ofRank.mp hb).2]
  have hsub : (ofRank rank r l).Sublist (stableSort rank l) :=
    sublist_insertionSort hsame filter_sublist
  have hsub' : (ofRank rank r l).Sublist (ofRank rank r (stableSort rank l)) := by
    have := hsub.filter fun a => decide (rank a = r)
    rwa [ofRank, filter_filter, filter_congr fun a _ => Bool.and_self _] at this
  exact (hsub'.eq_of_length ((stableSort_perm rank l).filter _).length_eq.symm).symm

/-- **A sorted list is determined by its ranks**: two sorted lists with the same
elements of every rank, in the same order, are equal. -/
theorem eq_of_sorted (hl : SortedBy rank l) (hl' : SortedBy rank l')
    (h : ∀ r, ofRank rank r l = ofRank rank r l') : l = l' := by
  induction l generalizing l' with
  | nil =>
    cases l' with
    | nil => rfl
    | cons b l' =>
      have hb := mem_of_ofRank (fun r => (h r).symm) (mem_cons_self (a := b) (l := l'))
      exact absurd hb not_mem_nil
  | cons a l ih =>
    cases l' with
    | nil => exact absurd (mem_of_ofRank h mem_cons_self) not_mem_nil
    | cons b l' =>
      obtain ⟨hfirst, hrest⟩ := pairwise_cons.mp hl
      obtain ⟨hfirst', hrest'⟩ := pairwise_cons.mp hl'
      -- both heads have the least rank
      have hle : rank a ≤ rank b := by
        rcases mem_cons.mp (mem_of_ofRank (fun r => (h r).symm) mem_cons_self) with rfl | hb
        · exact le_refl _
        · exact hfirst b hb
      have hge : rank b ≤ rank a := by
        rcases mem_cons.mp (mem_of_ofRank h mem_cons_self) with rfl | ha
        · exact le_refl _
        · exact hfirst' a ha
      have hrank : rank a = rank b := le_antisymm hle hge
      have hheads := h (rank a)
      rw [ofRank, ofRank, filter_cons_of_pos (by simp),
        filter_cons_of_pos (by simp [hrank]), List.cons.injEq] at hheads
      obtain ⟨rfl, -⟩ := hheads
      have htail : ∀ r, ofRank rank r l = ofRank rank r l' := by
        intro r
        have hr := h r
        by_cases heq : rank a = r
        · rw [ofRank, ofRank, filter_cons_of_pos (by simpa using heq),
            filter_cons_of_pos (by simpa using heq)] at hr
          exact (List.cons.inj hr).2
        · rw [ofRank, ofRank, filter_cons_of_neg (by simpa using heq),
            filter_cons_of_neg (by simpa using heq)] at hr
          exact hr
      rw [ih hrest hrest' htail]

/-- The stable sort is the only sorted list that keeps every rank as it was. -/
theorem stableSort_unique (hl : SortedBy rank l') (h : ∀ r, ofRank rank r l' = ofRank rank r l) :
    stableSort rank l = l' :=
  eq_of_sorted (sortedBy_stableSort rank l) hl fun r => by rw [ofRank_stableSort, h]

/-- Lists with the same elements of every rank are sorted alike. -/
theorem stableSort_congr (h : ∀ r, ofRank rank r l = ofRank rank r l') :
    stableSort rank l = stableSort rank l' :=
  stableSort_unique (sortedBy_stableSort rank l') fun r => by rw [ofRank_stableSort, h]

theorem stableSort_idem (rank : α → κ) (l : List α) :
    stableSort rank (stableSort rank l) = stableSort rank l :=
  stableSort_congr fun r => ofRank_stableSort rank r l

/-- **What was sorted may grow.** -/
theorem stableSort_append (rank : α → κ) (l l' : List α) :
    stableSort rank (stableSort rank l ++ l') = stableSort rank (l ++ l') :=
  stableSort_congr fun r => by rw [ofRank_append, ofRank_append, ofRank_stableSort]

theorem map_stableSort {rank' : β → κ} {f : α → β} (hf : ∀ a ∈ l, rank' (f a) = rank a) :
    (stableSort rank l).map f = stableSort rank' (l.map f) := by
  refine map_insertionSort _ _ f l fun a ha b hb => ?_
  rw [hf a ha, hf b hb]

theorem split_of_sorted (hl : SortedBy rank l) {p : α → Bool}
    (hp : ∀ a b, rank a ≤ rank b → p b = true → p a = true) :
    l = l.filter p ++ l.filter fun a => !p a := by
  induction l with
  | nil => rfl
  | cons a l ih =>
    obtain ⟨hfirst, hl⟩ := pairwise_cons.mp hl
    by_cases ha : p a = true
    · rw [filter_cons_of_pos ha, filter_cons_of_neg (by simp [ha]), cons_append,
        ← ih hl]
    · have hrest : l.filter p = [] :=
        filter_eq_nil_iff.mpr fun b hb hpb => ha (hp a b (hfirst b hb) hpb)
      have hkeep : l.filter (fun a => !p a) = l := by
        have := ih hl
        rw [hrest, nil_append] at this
        exact this.symm
      rw [filter_cons_of_neg ha, hrest, filter_cons_of_pos (by simp [ha]), hkeep,
        nil_append]

/-- The elements of a rank stand together. -/
theorem block_of_sorted (hl : SortedBy rank l) (r : κ) :
    ∃ before after, l = before ++ ofRank rank r l ++ after ∧ (∀ a ∈ before, rank a < r) ∧
      ∀ a ∈ after, r < rank a := by
  have hlow := split_of_sorted hl (p := fun a => rank a < r)
    fun a b hle hb => decide_eq_true (hle.trans_lt (of_decide_eq_true hb))
  have hrest : SortedBy rank (l.filter fun a => !decide (rank a < r)) :=
    hl.sublist filter_sublist
  have hhigh := split_of_sorted hrest (p := fun a => rank a ≤ r)
    fun a b hle hb => decide_eq_true (hle.trans (of_decide_eq_true hb))
  have hblock : (l.filter fun a => !decide (rank a < r)).filter (fun a => rank a ≤ r) =
      ofRank rank r l := by
    rw [filter_filter, ofRank]
    refine filter_congr fun a _ => ?_
    rw [← decide_not, ← Bool.decide_and, decide_eq_decide, not_lt]
    exact le_antisymm_iff.symm
  rw [hblock] at hhigh
  refine ⟨_, _, by rw [append_assoc, ← hhigh]; exact hlow, ?_, ?_⟩
  · exact fun a ha => of_decide_eq_true (mem_filter.mp ha).2
  · intro a ha
    have := (mem_filter.mp ha).2
    simpa using this

end HeadlessClient.Base
