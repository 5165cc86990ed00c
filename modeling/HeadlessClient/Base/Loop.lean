import HeadlessClient.Base.Runtime

/-!
# Base — loops with a decreasing measure

`runLoop` runs a `for` loop of the source: a round looks at the state and either
returns or goes on with a state that is SMALLER, which is part of the round's
type (`Round`). So a loop always ends, and it is evaluated by structural
recursion on the size of its first state.

`runLoop_items` is the rule for a loop that takes one item a round.
-/

namespace HeadlessClient.Base

variable {ε σ ρ α : Type}

/-- What a round decides in the state `s`. -/
inductive Round (size : σ → Nat) (ρ : Type) (s : σ) where
  | next (s' : σ) (smaller : size s' < size s)
  | done (result : ρ)

/-- At most `fuel` rounds, which are enough. -/
def runWithin (size : σ → Nat) (body : (s : σ) → Except ε (Round size ρ s)) :
    (fuel : Nat) → (s : σ) → size s < fuel → Except ε ρ
  | 0, _, h => absurd h (Nat.not_lt_zero _)
  | fuel + 1, s, h =>
    match body s with
    | .error e => .error e
    | .ok (.done result) => .ok result
    | .ok (.next s' smaller) =>
      runWithin size body fuel s' (Nat.lt_of_lt_of_le smaller (Nat.le_of_lt_succ h))

def runLoop (size : σ → Nat) (body : (s : σ) → Except ε (Round size ρ s)) (s : σ) : Except ε ρ :=
  runWithin size body (size s + 1) s (Nat.lt_succ_self _)

section Rules

variable {size : σ → Nat} {body : (s : σ) → Except ε (Round size ρ s)}

theorem runWithin_congr (fuel : Nat) : ∀ (fuel' : Nat) (s : σ) (h : size s < fuel)
    (h' : size s < fuel'), runWithin size body fuel s h = runWithin size body fuel' s h' := by
  induction fuel with
  | zero => intro fuel' s h; exact absurd h (Nat.not_lt_zero _)
  | succ fuel ih =>
    intro fuel' s h h'
    cases fuel' with
    | zero => exact absurd h' (Nat.not_lt_zero _)
    | succ fuel' =>
      rw [runWithin, runWithin]
      cases body s with
      | error e => rfl
      | ok round =>
        cases round with
        | done result => rfl
        | next s' smaller => exact ih fuel' s' _ _

variable {s : σ}

theorem runLoop_error {e : ε} (h : body s = .error e) : runLoop size body s = .error e := by
  rw [runLoop, runWithin, h]

theorem runLoop_done {result : ρ} (h : body s = .ok (.done result)) :
    runLoop size body s = .ok result := by
  rw [runLoop, runWithin, h]

theorem runLoop_next {s' : σ} {smaller : size s' < size s} (h : body s = .ok (.next s' smaller)) :
    runLoop size body s = runLoop size body s' := by
  rw [runLoop, runWithin, h]
  exact runWithin_congr _ _ _ _ _

/-- **One item a round**: `state seen` is where the loop stands behind the items
`seen`. -/
theorem runLoop_items (state : List α → σ) (items : List α) {result : ρ}
    (hnext : ∀ seen a rest, items = seen ++ a :: rest →
      ∃ smaller, body (state seen) = .ok (.next (state (seen ++ [a])) smaller))
    (hdone : body (state items) = .ok (.done result)) :
    runLoop size body (state []) = .ok result := by
  suffices hfrom : ∀ rest seen, items = seen ++ rest →
      runLoop size body (state seen) = .ok result from hfrom items [] rfl
  intro rest
  induction rest with
  | nil =>
    intro seen h
    rw [List.append_nil] at h
    rw [← h]
    exact runLoop_done hdone
  | cons a rest ih =>
    intro seen h
    obtain ⟨_, hround⟩ := hnext seen a rest h
    rw [runLoop_next hround]
    exact ih (seen ++ [a]) (by rw [h, List.append_assoc]; rfl)

/-- **Induction over the rounds.** -/
theorem runLoop_rec {motive : σ → Except ε ρ → Prop} (hround : ∀ s,
      match body s with
      | .error e => motive s (.error e)
      | .ok (.done result) => motive s (.ok result)
      | .ok (.next s' _) => motive s' (runLoop size body s') → motive s (runLoop size body s')) :
    motive s (runLoop size body s) := by
  obtain ⟨n, hn⟩ : ∃ n, n = size s := ⟨_, rfl⟩
  induction n using Nat.strongRecOn generalizing s with
  | _ n ih =>
    have hs := hround s
    cases hbody : body s with
    | error e =>
      rw [hbody] at hs
      rw [runLoop_error hbody]
      exact hs
    | ok round =>
      rw [hbody] at hs
      cases round with
      | done result =>
        rw [runLoop_done hbody]
        exact hs
      | next s' smaller =>
        rw [runLoop_next hbody]
        exact hs (ih (size s') (by omega) rfl)

/-- **A property of every state carries over to the result.** -/
theorem runLoop_induct (Inv : σ → Prop) (Post : Except ε ρ → Prop) (hround : ∀ s, Inv s →
      match body s with
      | .error e => Post (.error e)
      | .ok (.done result) => Post (.ok result)
      | .ok (.next s' _) => Inv s') (h : Inv s) : Post (runLoop size body s) := by
  refine runLoop_rec (motive := fun s out => Inv s → Post out) (fun s => ?_) h
  have hs := hround s
  split <;> simp_all

/-- **Two loops in step**: `f` takes the states of the one to states of the other. -/
theorem runLoop_map {σ' ρ' : Type} {size' : σ' → Nat}
    {body' : (s : σ') → Except ε (Round size' ρ' s)} (f : σ → σ') (g : ρ → ρ') (Inv : σ → Prop)
    (hround : ∀ s, Inv s →
      match body s with
      | .error e => body' (f s) = .error e
      | .ok (.done result) => body' (f s) = .ok (.done (g result))
      | .ok (.next s₁ _) => Inv s₁ ∧ ∃ smaller, body' (f s) = .ok (.next (f s₁) smaller))
    (h : Inv s) : runLoop size' body' (f s) = (runLoop size body s).map g := by
  refine runLoop_rec (motive := fun s out => Inv s → runLoop size' body' (f s) = out.map g)
    (fun s => ?_) h
  have hs := hround s
  split <;> rename_i hbody <;> rw [hbody] at hs
  · exact fun h => runLoop_error (hs h)
  · exact fun h => runLoop_done (hs h)
  · intro ih h
    obtain ⟨hinv, _, hnext⟩ := hs h
    rw [runLoop_next hnext, ih hinv]

theorem Returns.runLoop (h : ∀ s, Returns (body s)) (s : σ) : Returns (runLoop size body s) := by
  refine runLoop_induct (fun _ => True) Returns ?_ trivial
  intro s _
  obtain ⟨round, hround⟩ := h s
  rw [hround]
  cases round with
  | done result => exact .ok result
  | next s' smaller => exact trivial

end Rules

end HeadlessClient.Base
