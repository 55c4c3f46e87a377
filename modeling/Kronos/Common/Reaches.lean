import Mathlib.Logic.Basic

/-!
# Runs of a step function

A system is a partial step function on states. A run is a sequence of steps
that are all admitted by a condition on the state before the step.
-/

set_option autoImplicit false

variable {State Action : Type}

/-- The second state can be reached from the first one by admitted steps. -/
inductive Reaches (step : State → Action → Option State) (admits : State → Action → Prop)
    (start : State) : State → Prop
  | refl : Reaches step admits start start
  | tail {state next : State} (action : Action) (reached : Reaches step admits start state)
      (admitted : admits state action) (stepped : step state action = some next) :
      Reaches step admits start next

namespace Reaches

variable {step : State → Action → Option State} {admits : State → Action → Prop}
  {start middle final : State}

theorem trans (first : Reaches step admits start middle) (second : Reaches step admits middle final) :
    Reaches step admits start final := by
  induction second with
  | refl => exact first
  | tail action _ admitted stepped ih => exact .tail action ih admitted stepped

theorem mono {weaker : State → Action → Prop} (reached : Reaches step admits start final)
    (implied : ∀ state action, admits state action → weaker state action) :
    Reaches step weaker start final := by
  induction reached with
  | refl => exact .refl
  | tail action _ admitted stepped ih => exact .tail action ih (implied _ _ admitted) stepped

/-- What holds at the start and is kept by every admitted step holds all along. -/
theorem invariant (reached : Reaches step admits start final) (inv : State → Prop)
    (holds : inv start)
    (kept : ∀ state action next, inv state → admits state action →
      step state action = some next → inv next) : inv final := by
  induction reached with
  | refl => exact holds
  | tail action _ admitted stepped ih => exact kept _ action _ ih admitted stepped

end Reaches

/-- The state after a list of steps, all of them admitted. -/
def runAll (step : State → Action → Option State) (admits : State → Action → Prop)
    [∀ state action, Decidable (admits state action)] (state : State) :
    List Action → Option State
  | [] => some state
  | action :: rest =>
      if admits state action then
        match step state action with
        | none => none
        | some next => runAll step admits next rest
      else none

theorem reaches_of_runAll {step : State → Action → Option State} {admits : State → Action → Prop}
    [∀ state action, Decidable (admits state action)] {start final : State}
    {actions : List Action} (ran : runAll step admits start actions = some final) :
    Reaches step admits start final := by
  induction actions generalizing start with
  | nil =>
      cases ran
      exact .refl
  | cons action rest ih =>
      rw [runAll] at ran
      split at ran
      · next admitted =>
          split at ran
          · cases ran
          · next stepped => exact (Reaches.tail action .refl admitted stepped).trans (ih ran)
      · cases ran

/-- Steps that are also admitted for what they are, whatever the state. -/
theorem reaches_of_runAll_of_forall {step : State → Action → Option State}
    {admits : State → Action → Prop} [∀ state action, Decidable (admits state action)]
    {property : Action → Prop} {start final : State} {actions : List Action}
    (ran : runAll step admits start actions = some final)
    (all : ∀ action ∈ actions, property action) :
    Reaches step (fun state action => admits state action ∧ property action) start final := by
  induction actions generalizing start with
  | nil =>
      cases ran
      exact .refl
  | cons action rest ih =>
      obtain ⟨first, others⟩ := List.forall_mem_cons.mp all
      rw [runAll] at ran
      split at ran
      · next admitted =>
          split at ran
          · cases ran
          · next stepped =>
              exact (Reaches.tail action .refl ⟨admitted, first⟩ stepped).trans (ih ran others)
      · cases ran
