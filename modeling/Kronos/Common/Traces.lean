import Kronos.Common.Reaches
import Mathlib.Data.List.Basic

/-!
# Traces

A run together with the steps that were taken. What a run says about single
steps, those of one thread among others, is said over its trace.
-/

set_option autoImplicit false

structure Taken (State Action : Type) where
  before : State
  action : Action
  after : State

variable {State Action : Type}

/-- The steps of a run from the first state to the last one, in order. -/
inductive Traces (step : State → Action → Option State) (start : State) :
    List (Taken State Action) → State → Prop
  | refl : Traces step start [] start
  | tail {trace : List (Taken State Action)} {state next : State} (action : Action)
      (traced : Traces step start trace state) (stepped : step state action = some next) :
      Traces step start (trace ++ [⟨state, action, next⟩]) next

namespace Traces

variable {step : State → Action → Option State} {start final : State}
  {trace : List (Taken State Action)}

/-- What holds of a start and is kept by every step holds of every run and its trace. -/
theorem invariant (traced : Traces step start trace final)
    (inv : List (Taken State Action) → State → Prop) (holds : inv [] start)
    (kept : ∀ trace state action next, inv trace state → step state action = some next →
      inv (trace ++ [⟨state, action, next⟩]) next) : inv trace final := by
  induction traced with
  | refl => exact holds
  | tail action _ stepped ih => exact kept _ _ action _ ih stepped

theorem of_split (traced : Traces step start trace final) {earlier later : List (Taken State Action)}
    {taken : Taken State Action} (is : trace = earlier ++ taken :: later) :
    step taken.before taken.action = some taken.after ∧
      Traces step taken.after later final := by
  induction traced generalizing later with
  | refl => simp at is
  | tail action _ stepped ih =>
      rcases List.eq_nil_or_concat' later with rfl | ⟨front, last, rfl⟩
      · obtain ⟨_, same⟩ := List.append_inj' is rfl
        cases same
        exact ⟨stepped, .refl⟩
      · rw [← List.cons_append, ← List.append_assoc] at is
        obtain ⟨shorter, same⟩ := List.append_inj' is rfl
        cases same
        obtain ⟨first, rest⟩ := ih shorter
        exact ⟨first, .tail action rest stepped⟩

/-- A trace with one of its steps in front. -/
theorem cut (traced : Traces step start trace final) {index : Nat} (within : index < trace.length) :
    Traces step start (trace.take index ++ trace.get ⟨index, within⟩ :: trace.drop (index + 1))
      final := by
  have whole : trace.take index ++ trace.get ⟨index, within⟩ :: trace.drop (index + 1) = trace := by
    rw [List.get_eq_getElem, List.getElem_cons_drop, List.take_append_drop]
  rw [whole]
  exact traced

end Traces

/-- The trace and the last state of a list of steps. -/
def traceAll (step : State → Action → Option State) (state : State) :
    List Action → Option (List (Taken State Action) × State)
  | [] => some ([], state)
  | action :: rest =>
      match step state action with
      | none => none
      | some next => (traceAll step next rest).map fun (trace, final) =>
          (⟨state, action, next⟩ :: trace, final)

theorem Traces.cons {step : State → Action → Option State} {start next final : State}
    {trace : List (Taken State Action)} {action : Action} (stepped : step start action = some next)
    (traced : Traces step next trace final) :
    Traces step start (⟨start, action, next⟩ :: trace) final := by
  induction traced with
  | refl => exact .tail action .refl stepped
  | tail later _ steppedLater ih => exact .tail later ih steppedLater

theorem traces_of_traceAll {step : State → Action → Option State} {start final : State}
    {actions : List Action} {trace : List (Taken State Action)}
    (ran : traceAll step start actions = some (trace, final)) : Traces step start trace final := by
  induction actions generalizing start trace with
  | nil =>
      cases ran
      exact .refl
  | cons action rest ih =>
      rw [traceAll] at ran
      split at ran
      · cases ran
      · next stepped =>
          obtain ⟨⟨later, last⟩, ranRest, same⟩ := Option.map_eq_some_iff.mp ran
          cases same
          exact .cons stepped (ih ranRest)

theorem actions_of_traceAll {step : State → Action → Option State} {start final : State}
    {actions : List Action} {trace : List (Taken State Action)}
    (ran : traceAll step start actions = some (trace, final)) : trace.map (·.action) = actions := by
  induction actions generalizing start trace with
  | nil =>
      cases ran
      rfl
  | cons action rest ih =>
      rw [traceAll] at ran
      split at ran
      · cases ran
      · obtain ⟨⟨later, last⟩, ranRest, same⟩ := Option.map_eq_some_iff.mp ran
        cases same
        rw [List.map_cons, ih ranRest]
