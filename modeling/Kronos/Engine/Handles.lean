import Kronos.Engine.SingleCarrier

/-!
# Handles

A submit or restore call owns the record it made. Records are made one after
another, so no record has two owners; what a handle refers to is the registered
record as long as every submission finds its id free.
-/

set_option autoImplicit false

namespace Kronos.Engine

open Threads

variable {Task : Type}

/-- The record a call has made, from its registration to the returned handle. -/
def Stage.made? : Stage → Option RecordRef
  | .advanceJobId restored _ => restored
  | .advanceSequence restored _ => restored
  | .push _ ref => some ref
  | .raced _ ref => some ref
  | .returnedHandle _ ref => some ref
  | _ => none

def Call.owns (ref : RecordRef) (call : Call Task) : Nat :=
  if call.stage.made? = some ref then 1 else 0

/-- Every record has at most one owner, and what is not made yet has none. -/
def OwnedOnce (engine : State Task) : Prop :=
  ∀ ref, total (Call.owns ref) engine.calls ≤ 1 ∧
    (engine.registry.heap.length ≤ ref → total (Call.owns ref) engine.calls = 0)

theorem Stage.Early.made?_eq {stage : Stage} (early : stage.Early) : stage.made? = none := by
  cases stage <;> first | rfl | cases early

/-- A call keeps the record it made, or makes the next one. -/
theorem made?_of_transition {env : Environment} {done : Bool} {request : Request Task}
    {shared next : Shared Task} {stage moved : Stage}
    (move : CallTransition env done request shared stage next moved) :
    (moved.made? = stage.made? ∨ moved.made? = none) ∧
        shared.registry.heap.length ≤ next.registry.heap.length ∨
      (stage.made? = none ∧ moved.made? = some shared.registry.heap.length ∧
        next.registry.heap.length = shared.registry.heap.length + 1) := by
  cases move with
  | registerSubmission is room =>
      right
      simp [Stage.made?, Registry.make]
  | registerRestore is fresh =>
      right
      simp [Stage.made?, Registry.make]
  | raced read => exact .inl ⟨.inl rfl, by simp⟩
  | cancel read => exact .inl ⟨.inl rfl, by simp⟩
  | cancelPending => exact .inl ⟨.inl rfl, by simp⟩
  | reject what early => exact .inl ⟨.inr rfl, le_rfl⟩
  | _ => exact .inl ⟨.inl rfl, le_rfl⟩

theorem OwnedOnce.step [ITask Task] {engine next : State Task} {action : Action Task}
    (owned : OwnedOnce engine) (stepped : engine.step action = some next) : OwnedOnce next := by
  cases transition_of_step stepped with
  | invoke request =>
      intro ref
      have same : total (Call.owns ref) (engine.calls ++ [⟨request, .entered⟩]) =
          total (Call.owns ref) engine.calls := by
        simp [Call.owns, Stage.made?]
      change total (Call.owns ref) (engine.calls ++ [⟨request, .entered⟩]) ≤ 1 ∧ (_ →
        total (Call.owns ref) (engine.calls ++ [⟨request, .entered⟩]) = 0)
      rw [same]
      exact owned ref
  | @worker index env worker moved shared found move =>
      have length : shared.registry.heap.length = engine.shared.registry.heap.length := by
        cases move <;> simp
      intro ref
      refine ⟨(owned ref).1, fun beyond => (owned ref).2 ?_⟩
      rw [State.registry, ← length]
      exact beyond
  | @call index env call stage shared found move =>
      intro ref
      have counted := total_set (Call.owns ref) found { call with stage }
      obtain ⟨once, unmade⟩ := owned ref
      have weighs : call.owns ref ≤ total (Call.owns ref) engine.calls :=
        weight_le_total (List.mem_of_getElem? found)
      change total (Call.owns ref) (engine.calls.set index { call with stage }) ≤ 1 ∧
        (shared.registry.heap.length ≤ ref →
          total (Call.owns ref) (engine.calls.set index { call with stage }) = 0)
      change engine.shared.registry.heap.length ≤ ref → _ = 0 at unmade
      rcases made?_of_transition move with ⟨kept, grows⟩ | ⟨none, made, length⟩
      · have fewer : Call.owns ref { call with stage } ≤ call.owns ref := by
          rcases kept with same | none
          · simp [Call.owns, same]
          · simp [Call.owns, none]
        refine ⟨by omega, fun beyond => ?_⟩
        have before := unmade (by omega)
        omega
      · have first : call.owns ref = 0 := by simp [Call.owns, none]
        by_cases new : ref = engine.shared.registry.heap.length
        · have one : Call.owns ref { call with stage } = 1 := by simp [Call.owns, made, new]
          have before := unmade (Nat.le_of_eq new.symm)
          refine ⟨by omega, fun beyond => ?_⟩
          rw [length, new] at beyond
          omega
        · have other : Call.owns ref { call with stage } = 0 := by
            simp [Call.owns, made, Ne.symm new]
          refine ⟨by omega, fun beyond => ?_⟩
          have before := unmade (by omega)
          omega

theorem OwnedOnce.of_reaches [ITask Task] {start engine : State Task} (started : Starts start)
    {admits : State Task → Action Task → Prop}
    (reached : Reaches State.step admits start engine) : OwnedOnce engine := by
  refine reached.invariant OwnedOnce ?_ fun _ _ _ owned _ stepped => owned.step stepped
  obtain ⟨config, queue, requested, detected, journal, made, rfl⟩ := started
  intro ref
  simp [State.make]

/-- The call has returned a handle of the given id on the given record. -/
def Returned (engine : State Task) (index : Nat) (id : JobId) (ref : RecordRef) : Prop :=
  (engine.calls[index]?).map Call.stage = some (.returnedHandle id ref)

/-- What is asked of the handles: different calls return different ids, and a
handle's record is the registered one. -/
def HandlesOk (engine : State Task) : Prop :=
  (∀ first second id left right, first ≠ second → Returned engine first id left →
    ¬ Returned engine second id right) ∧
  ∀ index id ref, Returned engine index id ref → engine.registry.find id = some ref

/-- As long as every submission finds its id free, handles are distinct and
refer to registered records. A submission that finds its id taken gets a record
that is not registered. -/
theorem handles_ok_of_ids_free [ITask Task] (start engine : State Task) (started : Starts start)
    (reached : Reaches State.step IdsDistinct start engine) :
    HandlesOk engine ∧
      ∀ index env next request draft entry ref, engine.step (.call index env) = some next →
        engine.calls[index]? = some ⟨request, .registerSubmission draft⟩ →
        next.calls[index]? = some ⟨request, .push entry ref⟩ →
        (next.registry.find draft.id = some ref ↔ engine.registry.find draft.id = none) := by
  have sound := Sound.of_reaches started reached
  have owned := OwnedOnce.of_reaches started reached
  have registered : ∀ index id ref, Returned engine index id ref →
      engine.registry.find id = some ref := by
    intro index id ref returned
    obtain ⟨call, found, stage⟩ := Option.map_eq_some_iff.mp returned
    have refers := sound.calls call (List.mem_of_getElem? found)
    rw [Call.Refers, stage] at refers
    exact refers
  refine ⟨⟨?_, registered⟩, ?_⟩
  · intro first second id left right different returned again
    have same : left = right := by
      have leftFound := registered first id left returned
      rw [registered second id right again] at leftFound
      exact (Option.some.inj leftFound).symm
    subst same
    obtain ⟨firstCall, foundFirst, firstStage⟩ := Option.map_eq_some_iff.mp returned
    obtain ⟨secondCall, foundSecond, secondStage⟩ := Option.map_eq_some_iff.mp again
    have both := @add_le_total _ (Call.owns left) _ _ _ _ _ different foundFirst foundSecond
    have bound := (owned left).1
    simp only [Call.owns, firstStage, secondStage, Stage.made?, if_true] at both
    change 1 + 1 ≤ total (Call.owns left) engine.calls at both
    omega
  · intro index env next request draft entry ref stepped found pushed
    cases transition_of_step stepped with
    | @call _ _ call stage shared foundCall move =>
        rw [found] at foundCall
        cases foundCall
        have bound : index < engine.calls.length := (List.getElem?_eq_some_iff.mp found).1
        simp only [List.getElem?_set_self bound, Option.some.injEq, Call.mk.injEq] at pushed
        obtain ⟨-, rfl⟩ := pushed
        cases move with
        | registerSubmission is room =>
            change (Registry.emplace _ draft.id engine.registry.heap.length).find draft.id =
              some engine.registry.heap.length ↔ _
            constructor
            · intro stored
              cases taken : engine.registry.find draft.id with
              | none => rfl
              | some old =>
                  have unchanged : ∀ record, ((engine.registry.make record).emplace draft.id
                      engine.registry.heap.length).find draft.id = some old := by
                    intro record
                    simp [Registry.emplace, taken]
                  obtain ⟨record, read, _⟩ := sound.registry.stored taken
                  have below := (List.getElem?_eq_some_iff.mp read).1
                  change ((engine.registry.make _).emplace draft.id _).find draft.id = _ at stored
                  rw [unchanged, Option.some.injEq] at stored
                  exact absurd stored (Nat.ne_of_lt below)
            · intro free
              exact (Registry.find_register _ _ free _).trans (if_pos rfl)

/-! ## A submission and a restore that collide -/

/-- Every step is admitted. -/
def AnyStep (_ : State Task) (_ : Action Task) : Prop := True

instance (engine : State Task) : DecidablePred (AnyStep engine) := fun _ => isTrue trivial

def restoredSubmission : JobSubmissionRecord :=
  ⟨1, 0, text "step-3", 0, 3, ⟨text "step", text "3,0"⟩⟩

/-- A restore registers its job and has not advanced the counter when a
submission draws the same id. Both then run to their end. -/
def collidingActions : List (Action BuiltinTask) :=
  .invoke (.restore (some sampleTask) restoredSubmission) :: List.replicate 3 (.call 0 {}) ++
    .invoke (.submit (some sampleTask) sampleOptions) :: List.replicate 6 (.call 1 {}) ++
    List.replicate 3 (.call 0 {})

private theorem colliding_ran :
    (runAll State.step AnyStep sampleStart collidingActions).isSome = true := by
  decide +kernel

def collidedState : State BuiltinTask := Option.get _ colliding_ran

/-- Two handles of one id, one of them on a record that nobody can find. -/
theorem colliding_handles :
    Reaches State.step AnyStep sampleStart collidedState ∧
      Returned collidedState 0 1 0 ∧ Returned collidedState 1 1 1 ∧
      collidedState.registry.find 1 = some 0 ∧ ¬ HandlesOk collidedState := by
  have restored : Returned collidedState 0 1 0 := by
    unfold Returned
    decide +kernel
  have submitted : Returned collidedState 1 1 1 := by
    unfold Returned
    decide +kernel
  refine ⟨reaches_of_runAll (Option.some_get colliding_ran).symm, restored, submitted,
    by decide +kernel, ?_⟩
  intro ok
  exact ok.1 0 1 1 0 1 (by decide) restored submitted

/-- The same calls one after the other. -/
def orderedActions : List (Action BuiltinTask) :=
  .invoke (.restore (some sampleTask) restoredSubmission) :: List.replicate 8 (.call 0 {}) ++
    .invoke (.submit (some sampleTask) sampleOptions) :: List.replicate 6 (.call 1 {})

private theorem ordered_ran :
    (runAll State.step IdsDistinct sampleStart orderedActions).isSome = true := by
  decide +kernel

theorem ordered_handles :
    ∃ engine, Reaches State.step IdsDistinct sampleStart engine ∧ HandlesOk engine :=
  ⟨Option.get _ ordered_ran, reaches_of_runAll (Option.some_get ordered_ran).symm,
    (handles_ok_of_ids_free sampleStart (Option.get _ ordered_ran) sampleStart_starts
      (reaches_of_runAll (Option.some_get ordered_ran).symm)).1⟩

end Kronos.Engine
