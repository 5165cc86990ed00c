import Mathlib.Data.List.Induction
import Mathlib.Tactic.Common

/-!
# Base — following one sequence through a run

A state machine takes calls one after another. Some of them are the ITEMS of a
sequence one wants to follow; the others are known to be `Apart` from it.
`foldl_events` is the rule for such runs: a property of the state and of the
items that have arrived is kept up by every item and not disturbed by the rest.
-/

namespace HeadlessClient.Base

variable {Call Item σ : Type}

/-- An item of the sequence, or a call apart from it. -/
inductive Event (Item : Type) (Apart : Call → Prop) where
  | item (i : Item)
  | other (call : Call) (apart : Apart call)

variable {Apart : Call → Prop}

def Event.call (toCall : Item → Call) : Event Item Apart → Call
  | .item i => toCall i
  | .other call _ => call

def Event.item? : Event Item Apart → Option Item
  | .item i => some i
  | .other .. => none

def arrived (events : List (Event Item Apart)) : List Item := events.filterMap Event.item?

variable {Item' : Type}

def Event.map (f : Item → Item') : Event Item Apart → Event Item' Apart
  | .item i => .item (f i)
  | .other call apart => .other call apart

theorem arrived_map (f : Item → Item') (events : List (Event Item Apart)) :
    arrived (events.map (Event.map f)) = (arrived events).map f := by
  rw [arrived, arrived, List.filterMap_map, List.map_filterMap]
  exact congrArg (events.filterMap ·) (funext fun e => by cases e <;> rfl)

theorem Event.calls_map (f : Item → Item') (toCall : Item' → Call)
    (events : List (Event Item Apart)) :
    (events.map (Event.map f)).map (Event.call toCall) =
      events.map (Event.call fun i => toCall (f i)) := by
  rw [List.map_map]
  exact List.map_congr_left fun e _ => by cases e <;> rfl

/-- **A property of the run so far**, as long as the sequence is `Open`. -/
theorem foldl_events {step : σ → Call → σ} {toCall : Item → Call} (Inv : σ → List Item → Prop)
    (Open : List Item → Prop) (hopen : ∀ xs i, Open (xs ++ [i]) → Open xs)
    (hitem : ∀ s xs i, Inv s xs → Open (xs ++ [i]) → Inv (step s (toCall i)) (xs ++ [i]))
    (hother : ∀ s xs call, Inv s xs → Apart call → Inv (step s call) xs)
    {s : σ} (h : Inv s []) (events : List (Event Item Apart)) (hevents : Open (arrived events)) :
    Inv ((events.map (Event.call toCall)).foldl step s) (arrived events) := by
  induction events using List.reverseRecOn with
  | nil => exact h
  | append_singleton events event ih =>
    have harrived : arrived (events ++ [event]) = arrived events ++ arrived [event] :=
      List.filterMap_append
    rw [harrived] at hevents ⊢
    rw [List.map_append, List.foldl_append]
    cases event with
    | item i => exact hitem _ _ i (ih (hopen _ i hevents)) hevents
    | other call apart =>
      rw [show arrived [Event.other call apart] = ([] : List Item) from rfl,
        List.append_nil] at hevents ⊢
      exact hother _ _ call (ih hevents) apart

end HeadlessClient.Base
