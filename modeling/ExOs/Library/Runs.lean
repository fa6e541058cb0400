import Mathlib.Tactic.Common

/-!
# Runs of a transition system

The states reached from the initial ones by admitted steps, and the one rule
by which an invariant of the steps becomes an invariant of the runs.
-/

namespace ExOs.Library

inductive Reached {State Event : Type}
    (initial : State → Prop) (step : State → Event → State → Prop) :
    State → Prop where
  | start {state : State} : initial state → Reached initial step state
  | next {pre after : State} {event : Event} :
      Reached initial step pre →
      step pre event after →
      Reached initial step after

variable {State Event : Type} {initial : State → Prop} {state : State}
  {next : State → Event → State}

theorem Reached.invariant {step : State → Event → State → Prop} (property : State → Prop)
    (atStart : ∀ state, initial state → property state)
    (preserved : ∀ pre event after, property pre → step pre event after → property after)
    (reached : Reached initial step state) :
    property state := by
  induction reached with
  | start fst => exact atStart _ fst
  | next _ taken ih =>
    exact preserved _ _ _ ih taken

/-- Each event of a list is admitted in the state it finds. -/
def Admitted {State Event : Type} (next : State → Event → State)
    (admits : State → Event → Prop) : State → List Event → Prop
  | _, [] => True
  | state, event :: events => admits state event ∧ Admitted next admits (next state event) events

theorem Reached.foldl {admits : State → Event → Prop}
    (reached : Reached initial (fun s e s' => admits s e ∧ s' = next s e) state)
    (events : List Event) (admitted : Admitted next admits state events) :
    Reached initial (fun s e s' => admits s e ∧ s' = next s e) (events.foldl next state) := by
  induction events generalizing state with
  | nil => exact reached
  | cons event events ih =>
    exact ih (reached.next ⟨admitted.1, rfl⟩) admitted.2

theorem Reached.foldlAll
    (reached : Reached initial (fun s e s' => s' = next s e) state) (events : List Event) :
    Reached initial (fun s e s' => s' = next s e) (events.foldl next state) := by
  induction events generalizing state with
  | nil => exact reached
  | cons event events ih => exact ih (reached.next rfl)

end ExOs.Library
