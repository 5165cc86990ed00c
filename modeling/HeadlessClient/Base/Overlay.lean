import Mathlib.Data.List.GetD
import Mathlib.Data.List.TakeWhile
import Mathlib.Data.Nat.Find
import Mathlib.Tactic.Common

/-!
# Base — laying out chunks of a stream

A chunk is a piece of a stream at an offset. Reassembly copies chunks into a
buffer, remembers what it filled, and returns the run that is filled from the
start. `assembled_eq` gives the result in closed form: for chunks that were all
cut from ONE stream, order, overlap and duplication do not matter — only which
positions are covered and where the last chunk ends.
-/

namespace HeadlessClient.Base

open List

variable {α : Type}

structure Chunk (α : Type) where
  offset : Nat
  data : List α
deriving DecidableEq, Repr

/-- One past the chunk's last position. -/
def Chunk.finish (c : Chunk α) : Nat := c.offset + c.data.length

def Chunk.CutFrom (g : Nat → α) (c : Chunk α) : Prop :=
  ∀ j (h : j < c.data.length), c.data[j] = g (c.offset + j)

def Chunk.carries (c : Chunk α) (i : Nat) : Bool := c.offset ≤ i && i < c.finish

def covered (chunks : List (Chunk α)) (i : Nat) : Bool := chunks.any fun c => c.carries i

/-- One past the last position any chunk reaches. -/
def lastFinish (chunks : List (Chunk α)) : Nat :=
  chunks.foldl (fun fin c => max fin c.finish) 0

/-- `copy(dst[offset:], src)`. -/
def copyAt (dst : List α) (offset : Nat) (src : List α) : List α :=
  dst.take offset ++ src.take (dst.length - offset) ++ dst.drop (offset + src.length)

/-- Copy every chunk into the buffer and mark what it filled. -/
def layOut (chunks : List (Chunk α)) (buffer : List α × List Bool) : List α × List Bool :=
  chunks.foldl (fun (stream, filled) c =>
    (copyAt stream c.offset c.data, copyAt filled c.offset (List.replicate c.data.length true)))
    buffer

def filledRun (buffer : List α × List Bool) : List α :=
  buffer.1.take (buffer.2.takeWhile id).length

/-! ## The last position -/

theorem foldl_max_le_iff (chunks : List (Chunk α)) : ∀ m n : Nat,
    chunks.foldl (fun fin c => max fin c.finish) m ≤ n ↔
      m ≤ n ∧ ∀ c ∈ chunks, c.finish ≤ n := by
  induction chunks with
  | nil => intro m n; simp
  | cons c chunks ih =>
    intro m n
    rw [foldl_cons, ih, Nat.max_le, forall_mem_cons, and_assoc]

variable {chunks : List (Chunk α)} {n m : Nat} {c : Chunk α} {g : Nat → α} {cov : Nat → Bool}
  {buffer : List α × List Bool}

/-- `lastFinish` is the least upper bound of the chunks' ends. -/
theorem lastFinish_le_iff :
    lastFinish chunks ≤ n ↔ ∀ c ∈ chunks, c.finish ≤ n := by
  rw [lastFinish, foldl_max_le_iff]
  exact and_iff_right (Nat.zero_le n)

theorem finish_le_lastFinish (h : c ∈ chunks) : c.finish ≤ lastFinish chunks :=
  lastFinish_le_iff.mp (Nat.le_refl _) c h

theorem Chunk.carries_iff {i : Nat} :
    c.carries i = true ↔ c.offset ≤ i ∧ i < c.offset + c.data.length := by
  rw [Chunk.carries, Bool.and_eq_true, decide_eq_true_iff, decide_eq_true_iff]
  rfl

theorem covered_iff {i : Nat} : covered chunks i = true ↔ ∃ c ∈ chunks, c.carries i = true := by
  simp [covered]

theorem covered_congr {xs ys : List (Chunk α)} (h : ∀ c, c ∈ xs ↔ c ∈ ys) :
    covered xs = covered ys := by
  funext i
  rw [Bool.eq_iff_iff, covered_iff, covered_iff]
  exact exists_congr fun c => and_congr_left' (h c)

/-! ## One copy -/

theorem length_copyAt {dst src : List α} {offset : Nat} (h : offset + src.length ≤ dst.length) :
    (copyAt dst offset src).length = dst.length := by
  simp only [copyAt, length_append, length_take, length_drop]
  omega

theorem getElem?_copyAt {dst src : List α} {offset : Nat}
    (h : offset + src.length ≤ dst.length) (i : Nat) :
    (copyAt dst offset src)[i]? =
      if offset ≤ i ∧ i < offset + src.length then src[i - offset]? else dst[i]? := by
  have hsrc : src.take (dst.length - offset) = src := take_of_length_le (by omega)
  have htake : (dst.take offset).length = offset := by rw [length_take]; omega
  rw [copyAt, hsrc, append_assoc]
  by_cases hlo : i < offset
  · rw [getElem?_append_left (by omega), getElem?_take_of_lt hlo, if_neg (by omega)]
  · rw [getElem?_append_right (by omega), htake]
    by_cases hhi : i < offset + src.length
    · rw [if_pos ⟨by omega, hhi⟩, getElem?_append_left (by omega)]
    · rw [if_neg (by omega), getElem?_append_right (by omega), getElem?_drop]
      congr 1
      omega

/-! ## The whole layout -/

/-- A buffer of length `n` in which exactly the positions `cov` are filled, with
what the stream `g` has there. -/
structure Laid (g : Nat → α) (n : Nat) (cov : Nat → Bool) (buffer : List α × List Bool) :
    Prop where
  length : buffer.1.length = n
  marked : buffer.2 = (List.range n).map cov
  filled : ∀ i < n, cov i = true → buffer.1[i]? = some (g i)

theorem Laid.copy {stream : List α} {filled : List Bool} (h : Laid g n cov (stream, filled))
    (hc : c.CutFrom g) (hfin : c.finish ≤ n) :
    Laid g n (fun i => cov i || c.carries i)
      (copyAt stream c.offset c.data,
        copyAt filled c.offset (List.replicate c.data.length true)) := by
  have hlen : stream.length = n := h.length
  have hmark : filled = (List.range n).map cov := h.marked
  have hfilled : filled.length = n := by rw [hmark, length_map, length_range]
  unfold Chunk.finish at hfin
  have hstream : c.offset + c.data.length ≤ stream.length := by omega
  have hrep : c.offset + (List.replicate c.data.length true).length ≤ filled.length := by
    rw [length_replicate]; omega
  refine ⟨(length_copyAt hstream).trans hlen, ext_getElem? fun i => ?_, fun i hi hcov => ?_⟩
  · show (copyAt filled c.offset _)[i]? = _
    rw [getElem?_copyAt hrep, length_replicate, hmark, getElem?_map, getElem?_map]
    by_cases hin : c.carries i = true
    · have hin' := Chunk.carries_iff.mp hin
      rw [if_pos hin', getElem?_replicate, if_pos (by omega), getElem?_range (by omega)]
      simp [hin]
    · rw [if_neg (fun h' => hin (Chunk.carries_iff.mpr h'))]
      simp only [Bool.not_eq_true] at hin
      cases h' : (List.range n)[i]? with
      | none => rfl
      | some j =>
        obtain ⟨hlt, rfl⟩ := List.getElem?_eq_some_iff.mp h'
        simp [hin]
  · show (copyAt stream c.offset c.data)[i]? = _
    rw [getElem?_copyAt hstream]
    by_cases hin : c.carries i = true
    · have hin' := Chunk.carries_iff.mp hin
      have hj : i - c.offset < c.data.length := by omega
      rw [if_pos hin', getElem?_eq_getElem hj, hc _ hj]
      congr 2
      omega
    · rw [if_neg (fun h' => hin (Chunk.carries_iff.mpr h'))]
      refine h.filled i hi ?_
      rcases Bool.or_eq_true_iff.mp hcov with h' | h'
      · exact h'
      · exact absurd h' hin

theorem Laid.congr {cov' : Nat → Bool} (h : Laid g n cov buffer) (he : ∀ i, cov i = cov' i) :
    Laid g n cov' buffer := by
  obtain rfl : cov = cov' := funext he
  exact h

/-- **Laying out chunks of one stream** fills exactly what they cover. -/
theorem layOut_laid (chunks : List (Chunk α)) :
    ∀ {cov : Nat → Bool} {buffer : List α × List Bool}, Laid g n cov buffer →
      (∀ c ∈ chunks, c.CutFrom g ∧ c.finish ≤ n) →
      Laid g n (fun i => cov i || covered chunks i) (layOut chunks buffer) := by
  induction chunks with
  | nil => intro cov buffer h _; exact h.congr fun i => by simp [covered]
  | cons c chunks ih =>
    intro cov buffer h hall
    obtain ⟨hcut, hfin⟩ := hall c mem_cons_self
    have := ih (h.copy hcut hfin) fun d hd => hall d (mem_cons_of_mem _ hd)
    exact this.congr fun i => by simp [covered, Bool.or_assoc]

/-! ## The result in closed form -/

/-- The stream up to the first position that is not covered. -/
def coveredRun (g : Nat → α) (n : Nat) (cov : Nat → Bool) : List α :=
  ((List.range n).takeWhile cov).map g

theorem Laid.filledRun_eq (h : Laid g n cov buffer) : filledRun buffer = coveredRun g n cov := by
  obtain ⟨hlen, hmark, hfill⟩ := h
  have hrun : (buffer.2.takeWhile id).length = ((List.range n).takeWhile cov).length := by
    rw [hmark, takeWhile_map, length_map]; rfl
  have hpre := takeWhile_prefix cov (l := List.range n)
  have hle := hpre.length_le
  rw [length_range] at hle
  refine ext_getElem? fun i => ?_
  rw [filledRun, coveredRun, hrun, getElem?_map, getElem?_take]
  by_cases hi : i < ((List.range n).takeWhile cov).length
  · have hget : ((List.range n).takeWhile cov)[i] = i := by
      rw [hpre.getElem hi, getElem_range]
    have hcov : cov i = true := by
      have := mem_takeWhile_imp (getElem_mem hi)
      rwa [hget] at this
    rw [if_pos hi, hfill i (by omega) hcov, getElem?_eq_getElem hi, hget]
    rfl
  · rw [if_neg hi, getElem?_eq_none (by omega)]
    rfl

theorem Laid.all_marked_iff (h : Laid g n cov buffer) :
    buffer.2.all id = true ↔ ∀ i < n, cov i = true := by
  rw [h.marked, all_map, all_eq_true]
  simp

theorem Laid.eq_map (h : Laid g n cov buffer) (hall : ∀ i < n, cov i = true) :
    buffer.1 = (List.range n).map g := by
  refine ext_getElem? fun i => ?_
  by_cases hi : i < n
  · rw [h.filled i hi (hall i hi), getElem?_map, getElem?_range hi]
    rfl
  · rw [getElem?_eq_none (by rw [h.length]; omega),
      getElem?_eq_none (by rw [length_map, length_range]; omega)]

/-- **Reassembly in closed form**, from an empty buffer as long as the chunks
reach. -/
theorem assembled_eq (h : ∀ c ∈ chunks, c.CutFrom g) (zero : α) :
    filledRun (layOut chunks (List.replicate (lastFinish chunks) zero,
        List.replicate (lastFinish chunks) false))
      = coveredRun g (lastFinish chunks) (covered chunks) := by
  have hempty : Laid g (lastFinish chunks) (fun _ => false)
      (List.replicate (lastFinish chunks) zero, List.replicate (lastFinish chunks) false) :=
    ⟨length_replicate, by rw [map_const', length_range], fun _ _ hf => absurd hf (by decide)⟩
  have hlaid := layOut_laid chunks hempty fun c hc => ⟨h c hc, finish_le_lastFinish hc⟩
  exact (hlaid.congr fun i => Bool.false_or _).filledRun_eq

/-! ## The longest covered prefix -/

/-- `n` is the first position that is not covered. -/
structure FirstGap (cov : Nat → Bool) (n : Nat) : Prop where
  before : ∀ i < n, cov i = true
  gap : cov n = false

theorem FirstGap.le (h : FirstGap cov n) (hm : cov m = false) : n ≤ m := by
  by_contra hlt
  rw [h.before m (Nat.lt_of_not_le hlt)] at hm
  cases hm

theorem FirstGap.unique (h : FirstGap cov n) (h' : FirstGap cov m) : n = m :=
  Nat.le_antisymm (h.le h'.gap) (h'.le h.gap)

theorem FirstGap.all_iff (h : FirstGap cov n) : (∀ i < m, cov i = true) ↔ m ≤ n := by
  constructor
  · intro hall
    by_contra hlt
    have hgap := h.gap
    rw [hall n (Nat.lt_of_not_le hlt)] at hgap
    cases hgap
  · intro hle i hi
    exact h.before i (Nat.lt_of_lt_of_le hi hle)

theorem exists_firstGap (h : cov m = false) : ∃ n, FirstGap cov n := by
  have hexists : ∃ n, cov n = false := ⟨m, h⟩
  refine ⟨Nat.find hexists, ?_, Nat.find_spec hexists⟩
  intro i hi
  simpa using Nat.find_min hexists hi

theorem covered_eq_false (h : ∀ c ∈ chunks, c.finish ≤ n) : covered chunks n = false := by
  rw [← Bool.not_eq_true]
  intro hcov
  obtain ⟨c, hc, hin⟩ := covered_iff.mp hcov
  have hfin := h c hc
  have hlt := (Chunk.carries_iff.mp hin).2
  unfold Chunk.finish at hfin
  omega

theorem coveredRun_eq (h : FirstGap cov n) (hle : n ≤ m) :
    coveredRun g m cov = (List.range n).map g := by
  have hsplit : List.range m = List.range n ++ List.range' n (m - n) := by
    have happend : List.range' 0 n ++ List.range' (0 + n) (m - n) = List.range' 0 (n + (m - n)) :=
      List.range'_append_1
    rw [Nat.zero_add, Nat.add_sub_cancel' hle] at happend
    rw [range_eq_range', range_eq_range', happend]
  have hrest : (List.range' n (m - n)).takeWhile cov = [] := by
    cases m - n with
    | zero => rfl
    | succ k => rw [List.range'_succ, takeWhile_cons, h.gap]; rfl
  rw [coveredRun, hsplit, takeWhile_append_of_pos, hrest, append_nil]
  intro i hi
  exact h.before i (mem_range.mp hi)

theorem map_getD_range {l : List α} (zero : α) (h : n ≤ l.length) :
    (List.range n).map (fun i => l.getD i zero) = l.take n := by
  refine ext_getElem? fun i => ?_
  rw [getElem?_map]
  by_cases hi : i < n
  · rw [getElem?_range hi, getElem?_take_of_lt hi, getElem?_eq_getElem (by omega),
      Option.map_some, getD_eq_getElem _ _ (by omega)]
  · rw [getElem?_eq_none (by rw [length_range]; omega),
      getElem?_eq_none (by rw [length_take]; omega)]
    rfl

/-! ## Parts of a list -/

structure Part (l : List α) where
  offset : Nat
  length : Nat
  inside : offset + length ≤ l.length

namespace Part

variable {l : List α}

/-- What the part carries. -/
def chunk (p : Part l) : Chunk α := ⟨p.offset, (l.drop p.offset).take p.length⟩

theorem length_chunk (p : Part l) : p.chunk.data.length = p.length := by
  have hinside := p.inside
  rw [chunk, length_take, length_drop]
  omega

theorem finish_chunk (p : Part l) : p.chunk.finish ≤ l.length := by
  rw [Chunk.finish, p.length_chunk]
  exact p.inside

theorem cutFrom_chunk (p : Part l) (zero : α) : p.chunk.CutFrom fun i => l.getD i zero := by
  intro j hj
  have hinside := p.inside
  rw [p.length_chunk] at hj
  simp only [chunk, getElem_take, getElem_drop]
  rw [getD_eq_getElem _ _ (by omega)]

end Part

/-! ## Rearranging and cutting chunks -/

/-- What reassembly depends on: the stream, the last end, the positions covered. -/
structure Carries (g : Nat → α) (n : Nat) (cov : Nat → Bool) (chunks : List (Chunk α)) :
    Prop where
  cut : ∀ c ∈ chunks, c.CutFrom g
  fin : lastFinish chunks = n
  cov : ∀ i, covered chunks i = cov i

theorem lastFinish_cons (c : Chunk α) (chunks : List (Chunk α)) :
    lastFinish (c :: chunks) = max c.finish (lastFinish chunks) := by
  refine Nat.le_antisymm (lastFinish_le_iff.mpr ?_) (Nat.max_le.mpr ⟨?_, ?_⟩)
  · intro d hd
    rcases mem_cons.mp hd with rfl | hd
    · exact Nat.le_max_left _ _
    · exact (finish_le_lastFinish hd).trans (Nat.le_max_right _ _)
  · exact finish_le_lastFinish mem_cons_self
  · exact lastFinish_le_iff.mpr fun d hd => finish_le_lastFinish (mem_cons_of_mem _ hd)

theorem Carries.perm {xs ys : List (Chunk α)} (h : Carries g n cov xs) (hp : ys.Perm xs) :
    Carries g n cov ys where
  cut c hc := h.cut c (hp.mem_iff.mp hc)
  fin := by
    rw [← h.fin]
    refine Nat.le_antisymm (lastFinish_le_iff.mpr fun c hc => ?_)
      (lastFinish_le_iff.mpr fun c hc => ?_)
    · exact finish_le_lastFinish (hp.mem_iff.mp hc)
    · exact finish_le_lastFinish (hp.mem_iff.mpr hc)
  cov i := by rw [← h.cov i]; exact hp.any_eq

def Chunk.keep (c : Chunk α) (k : Nat) : Chunk α := ⟨c.offset, c.data.take k⟩

def Chunk.cut (c : Chunk α) (k : Nat) : Chunk α := ⟨c.offset + k, c.data.drop k⟩

/-- **Cutting a chunk in two changes nothing.** -/
theorem Carries.split {rest : List (Chunk α)} (h : Carries g n cov (c :: rest)) {k : Nat}
    (hk : k ≤ c.data.length) : Carries g n cov (c.keep k :: c.cut k :: rest) := by
  have hkeep : (c.keep k).data.length = k := by simp [Chunk.keep, hk]
  have hcut : (c.cut k).data.length = c.data.length - k := by simp [Chunk.cut]
  have hwhole := h.cut c mem_cons_self
  refine ⟨?_, ?_, ?_⟩
  · intro d hd
    rw [mem_cons, mem_cons] at hd
    rcases hd with rfl | rfl | hd
    · intro j hj
      exact getElem_take.trans (hwhole j (by omega))
    · intro j hj
      have := hwhole (k + j) (by omega)
      rw [← Nat.add_assoc] at this
      exact getElem_drop.trans this
    · exact h.cut d (mem_cons_of_mem _ hd)
  · have hfin := h.fin
    rw [lastFinish_cons] at hfin
    rw [lastFinish_cons, lastFinish_cons, ← hfin]
    simp only [Chunk.finish, hkeep, hcut]
    simp only [Chunk.keep, Chunk.cut]
    omega
  · intro i
    rw [← h.cov i]
    have hcarries : ((c.keep k).carries i || (c.cut k).carries i) = c.carries i := by
      rw [Bool.eq_iff_iff, Bool.or_eq_true, Chunk.carries_iff, Chunk.carries_iff,
        Chunk.carries_iff, hkeep, hcut]
      simp only [Chunk.keep, Chunk.cut]
      omega
    simp only [covered, any_cons, ← Bool.or_assoc, hcarries]

end HeadlessClient.Base
