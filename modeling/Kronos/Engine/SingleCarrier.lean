import Kronos.Engine.CarriersProperties
import Kronos.TaskFactory

/-!
# Single carrier

In every run that keeps registered ids distinct, a live job has exactly one
carrier and no job has two. The carriers are the entries of the task queue, the
workers, the submit and restore calls that have not pushed their job, and the
shutdown call that has drained a pending entry and not yet reached the registry.
-/

set_option autoImplicit false

namespace Kronos.Engine

open Threads

variable {Task : Type}

/-- The engines that a constructor call yields. -/
def Starts (engine : State Task) : Prop :=
  ∃ config queue requested detected journal, TaskQueue.make config = .ok queue ∧
    engine = State.make queue requested detected journal

theorem Starts.sound {engine : State Task} (started : Starts engine) : Sound engine := by
  obtain ⟨config, queue, requested, detected, journal, made, rfl⟩ := started
  have empty : queue.entries = [] := by
    unfold TaskQueue.make at made
    split at made
    · next scheduler made' =>
        cases made
        exact entries_makeScheduler made'
    · cases made
  refine ⟨⟨?_, ?_⟩, ?_, ?_, ?_⟩
  · intro id ref found
    cases found
  · intro record member
    cases member
  · intro worker member
    rw [List.eq_of_mem_replicate member]
    trivial
  · intro call member
    cases member
  · intro id
    have idle : ∀ weight : Worker → Nat, weight .waiting = 0 → ∀ count,
        total weight (List.replicate count .waiting) = 0 := by
      intro weight none count
      rw [total_eq_zero_iff]
      intro worker member
      rw [List.eq_of_mem_replicate member, none]
    have held := idle (Worker.carries id) rfl (resolvedWorkerCount requested detected)
    have executing := idle (Worker.executes id) rfl (resolvedWorkerCount requested detected)
    refine ⟨?_, executing⟩
    simp [State.carriers, State.queued, State.held, State.unpushed, State.drained, State.make,
      empty, held]

theorem Sound.step [ITask Task] {engine next : State Task} {action : Action Task}
    (sound : Sound engine) (distinct : IdsDistinct engine action)
    (stepped : engine.step action = some next) : Sound next := by
  cases transition_of_step stepped with
  | invoke request =>
      refine sound.of_same rfl rfl sound.workers ?_ ?_ fun id => rfl
      · intro call member
        rcases List.mem_append.mp member with old | added
        · exact sound.calls call old
        · rw [List.mem_singleton.mp added]
          trivial
      · intro id
        simp [State.carriers, State.queued, State.held, State.unpushed, State.drained,
          Call.carries, Call.drained]
  | worker found move => exact sound.workerStep found move
  | @call index env call stage shared found move =>
      exact sound.callStep found (distinct call found) move

theorem Sound.of_reaches [ITask Task] {start engine : State Task} (started : Starts start)
    (reached : Reaches State.step IdsDistinct start engine) : Sound engine :=
  reached.invariant Sound started.sound fun _ _ _ sound distinct stepped => sound.step distinct stepped

/-- Every live job has exactly one carrier, a running job is carried by a
worker, no job has two carriers, and no two workers run slices of one task. -/
theorem live_job_carried_once [ITask Task] (start engine : State Task) (started : Starts start)
    (reached : Reaches State.step IdsDistinct start engine) :
    (∀ id record, engine.registry.recordOf id = some record →
      (isTerminal record.snapshot.state = false →
        engine.queued id + engine.held id + engine.unpushed id + engine.drained id = 1) ∧
      (record.snapshot.state = .running → engine.held id = 1)) ∧
    (∀ id, engine.queued id + engine.held id + engine.unpushed id + engine.drained id ≤ 1) ∧
    ∀ (first second : Nat) (dispatch other : Dispatch) (ref : RecordRef), first ≠ second →
      engine.workers[first]? = some (.slicing dispatch ref) →
      engine.workers[second]? ≠ some (.slicing other ref) := by
  have sound := Sound.of_reaches started reached
  have once : ∀ id, engine.carriers id ≤ 1 := by
    intro id
    have carried := sound.carried id
    cases known : engine.stateOf id with
    | none =>
        rw [known] at carried
        exact le_of_eq_of_le carried.1 (Nat.zero_le 1)
    | some state =>
        rw [known] at carried
        exact carried.1
  refine ⟨?_, once, ?_⟩
  · intro id record known
    have carried := sound.carried id
    rw [State.stateOf, known] at carried
    refine ⟨carried.2.1, ?_⟩
    intro running
    rw [Option.map_some, running, carriedOnce_running, State.carriers] at carried
    have executing : engine.executing id ≤ engine.held id := executing_le_held _ _
    omega
  · intro first second dispatch other ref different left right
    have leftRefers := sound.workers _ (List.mem_of_getElem? left)
    have rightRefers := sound.workers _ (List.mem_of_getElem? right)
    have sameId : other.entry.id = dispatch.entry.id :=
      sound.registry.id_unique leftRefers rightRefers
    have both := @add_le_total _ (Worker.carries dispatch.entry.id) _ _ _ _ _ different left right
    have bound := once dispatch.entry.id
    simp only [Worker.carries, sameId, if_true] at both
    simp only [State.carriers, State.held] at bound
    omega

/-! ## A run with a cancelling shutdown -/

/-- One worker, first in first out, no journal. -/
def sampleStart : State BuiltinTask := State.make ⟨.fifo [], {}, false⟩ 1 0 none

theorem sampleStart_starts : Starts sampleStart := ⟨{}, _, 1, 0, none, rfl, rfl⟩

def sampleOptions : SubmissionOptions :=
  { name := text "step-3", estimatedWorkUnits := 3, durableSpec := some ⟨text "step", text "3,0"⟩ }

def sampleTask : BuiltinTask := .step { totalSteps := 3, delayPerStep := 0 }

/-- A job is submitted, and a cancelling shutdown has drained its entry. -/
def drainedActions : List (Action BuiltinTask) :=
  .invoke (.submit (some sampleTask) sampleOptions) :: List.replicate 6 (.call 0 {}) ++
    .invoke (.shutdown .cancelPending) :: List.replicate 3 (.call 1 {})

private theorem drained_ran :
    (runAll State.step IdsDistinct sampleStart drainedActions).isSome = true := by
  decide +kernel

def drainedState : State BuiltinTask := Option.get _ drained_ran

theorem drainedState_reached : Reaches State.step IdsDistinct sampleStart drainedState :=
  reaches_of_runAll (Option.some_get drained_ran).symm

/-- The drained job is ready, and neither the queue nor a worker nor a submit
call carries it. -/
theorem drained_job_held_by_shutdown :
    Reaches State.step IdsDistinct sampleStart drainedState ∧
      drainedState.stateOf 1 = some .ready ∧ drainedState.queued 1 = 0 ∧
      drainedState.held 1 = 0 ∧ drainedState.unpushed 1 = 0 := by
  refine ⟨drainedState_reached, ?_⟩
  decide +kernel

theorem drained_job_carried_once :
    drainedState.queued 1 + drainedState.held 1 + drainedState.unpushed 1 +
      drainedState.drained 1 ≤ 1 :=
  (live_job_carried_once sampleStart drainedState sampleStart_starts drainedState_reached).2.1 1

end Kronos.Engine
