import Kronos.Common.Rest
import Kronos.Ending
import Kronos.Engine.RegistryProperties
import Kronos.Engine.SingleCarrier
import Kronos.Engine.Stages
import Kronos.OrderedQueue

/-!
# What is left to do

Every step of a thread lowers what the engine has left to do, as long as no
further calls are made and the tasks are ones that end. The costs are chosen so
that an entry pays for its way through a worker, and a turn of a task for
another such way.
-/

set_option autoImplicit false

namespace Kronos.Engine

open Threads

variable {Task : Type}

/-! ## The tasks of records keep their state in the sections -/

section Tasks

variable {env : Environment}

@[simp] theorem task_failWithoutJournalLocked (record : JobRecord Task) (message : Bytes) :
    (failWithoutJournalLocked env record message).task = record.task := by
  unfold failWithoutJournalLocked
  split <;> rfl

@[simp] theorem task_persistTransitionLocked (locked : Locked Task) (state : JobState)
    (message : Bytes) :
    (persistTransitionLocked env locked state message).2.record.task = locked.record.task := by
  unfold persistTransitionLocked
  split
  · rfl
  · split
    · rfl
    · exact task_failWithoutJournalLocked _ _

@[simp] theorem task_finishLocked (locked : Locked Task) (state : JobState) (message : Bytes) :
    (finishLocked env locked state message).record.task = locked.record.task := by
  unfold finishLocked
  split
  · rfl
  · have kept := @task_persistTransitionLocked _ env locked state message
    split
    · next persisted => rw [persisted] at kept; exact kept
    · next persisted => rw [persisted] at kept; exact kept

@[simp] theorem task_dispatchLocked (locked : Locked Task) :
    (dispatchLocked env locked).2.record.task = locked.record.task := by
  unfold dispatchLocked
  split
  · rfl
  · have kept := @task_persistTransitionLocked _ env locked .running []
    split
    · next persisted => rw [persisted] at kept; exact kept
    · next persisted => rw [persisted] at kept; exact kept

/-- Only a slice that yielded is requeued. -/
theorem recordSliceLocked_kept (result : SliceResult) (locked : Locked Task) :
    (recordSliceLocked env result locked).2.record.task = locked.record.task ∧
      ((recordSliceLocked env result locked).1 = true → result.status = .yielded) := by
  unfold recordSliceLocked
  cases result.status with
  | yielded =>
      refine ⟨?_, fun _ => rfl⟩
      simp only
      split
      · exact task_finishLocked _ _ _
      · have kept := @task_persistTransitionLocked _ env
          ⟨locked.record.consume result.workUnitsConsumed, locked.journal⟩ .ready result.message
        split
        · next persisted => rw [persisted] at kept; exact kept
        · next persisted => rw [persisted] at kept; exact kept
  | completed => exact ⟨task_finishLocked _ _ _, by intro requeued; cases requeued⟩
  | failed => exact ⟨task_finishLocked _ _ _, by intro requeued; cases requeued⟩
  | cancelled => exact ⟨task_finishLocked _ _ _, by intro requeued; cases requeued⟩

@[simp] theorem task_cancelLocked (locked : Locked Task) :
    (cancelLocked env locked).2.record.task = locked.record.task := by
  unfold cancelLocked
  split
  · rfl
  · simp only
    split
    · exact task_finishLocked _ _ _
    · rfl

@[simp] theorem task_shutdownLocked (locked : Locked Task) :
    (shutdownLocked env locked).record.task = locked.record.task := by
  unfold shutdownLocked
  split
  · rfl
  · exact task_finishLocked _ _ _

/-- A section leaves every record its task. -/
theorem tasks_store {registry : Registry Task} {ref : RecordRef} {locked left : Locked Task}
    (read : registry.locked ref = some locked) (kept : left.record.task = locked.record.task) :
    (registry.store ref left).heap.map (·.task) = registry.heap.map (·.task) := by
  obtain ⟨readRecord, _⟩ := Registry.locked_eq_some read
  rw [Registry.heap_store, List.map_set, kept]
  apply List.ext_getElem?
  intro index
  rw [List.getElem?_set]
  split
  · next here =>
      subst here
      obtain ⟨bound, is⟩ := List.getElem?_eq_some_iff.mp readRecord
      simp [bound, ← is]
  · rfl

theorem tasks_cancelPendingLocked (registry : Registry Task) (pending : List SchedulerEntry) :
    (cancelPendingLocked env registry pending).heap.map (·.task) = registry.heap.map (·.task) := by
  unfold cancelPendingLocked
  induction pending generalizing registry with
  | nil => rfl
  | cons entry rest ih =>
      rw [List.foldl_cons, ih]
      unfold cancelEntryLocked
      split
      · rfl
      · split
        · rfl
        · next read => exact tasks_store read (task_shutdownLocked _)

end Tasks

/-! ## Costs -/

/-- A worker that has an entry in hand owes the rest of its way. A slice that yielded
has paid for the way back. -/
def Worker.cost : Worker → Nat
  | .exited => 0
  | .waiting => 1
  | .dispatched _ => 7
  | .resolved _ _ => 6
  | .slicing _ _ => 5
  | .sliced _ _ result => if result.status = .yielded then 12 else 4
  | .requeueing _ => 11

/-- The steps up to the end, where a counter is advanced at once, and an entry to push. -/
def Stage.cost : Stage → Nat
  | .entered => 20
  | .drawId => 14
  | .drawSequence _ => 13
  | .journalSubmission _ => 12
  | .registerSubmission _ => 11
  | .journalRestore _ => 16
  | .registerRestore _ => 15
  | .advanceJobId _ none => 14
  | .advanceJobId _ (some _) => 13
  | .advanceSequence _ none => 12
  | .advanceSequence _ (some _) => 11
  | .push _ _ => 10
  | .raced _ _ => 1
  | .cancelFound _ => 1
  | .swapScheduler => 1
  | .stopAccepting => 4
  | .close => 3
  | .cancelPending _ => 2
  | .join => 1
  | .returnedHandle _ _ => 0
  | .returnedBool _ => 0
  | .returned => 0
  | .threw _ => 0

/-- The task of the call is not in a record yet. -/
def Stage.unregistered : Stage → Bool
  | .entered => true
  | .drawId => true
  | .drawSequence _ => true
  | .journalSubmission _ => true
  | .registerSubmission _ => true
  | .journalRestore _ => true
  | .registerRestore _ => true
  | _ => false

def Request.task? : Request Task → Option Task
  | .submit task _ => task
  | .restore task _ => task
  | _ => none

/-- The counter that the call compares with has changed since it was read. -/
def Call.stale (shared : Shared Task) (call : Call Task) : Nat :=
  match call.stage with
  | .advanceJobId _ (some current) => if current = shared.nextJobId then 0 else 1
  | .advanceSequence _ (some current) => if current = shared.nextSequence then 0 else 1
  | _ => 0

section Cost

variable [ITask Task] [EndingTask Task]

def taskCost (task : Task) : Nat := 8 * EndingTask.toGo task

def Call.cost (call : Call Task) : Nat :=
  call.stage.cost +
    if call.stage.unregistered then total taskCost call.request.task?.toList else 0

def Shared.cost (shared : Shared Task) : Nat :=
  total taskCost (shared.registry.heap.map (·.task)) + 7 * shared.queue.entries.length

namespace State

def cost (engine : State Task) : Nat :=
  engine.shared.cost + total Worker.cost engine.workers + total Call.cost engine.calls

def stale (engine : State Task) : Nat := total (Call.stale engine.shared) engine.calls

end State

/-! ## What keeps the costs falling -/

/-- The worker will give its slice a budget. -/
def Worker.Budgeted : Worker → Prop
  | .dispatched dispatch => dispatch.budget ≠ 0
  | .resolved dispatch _ => dispatch.budget ≠ 0
  | .slicing dispatch _ => dispatch.budget ≠ 0
  | _ => True

def Request.Ends (request : Request Task) : Prop := ∀ task ∈ request.task?, EndingTask.Ends task

/-- Every call made is one whose task ends. -/
def Action.Ends : Action Task → Prop
  | .invoke request => request.Ends
  | _ => True

structure WorkEnds (engine : State Task) : Prop where
  budget : engine.shared.queue.scheduler.sliceBudget ≠ 0
  workers : ∀ worker ∈ engine.workers, worker.Budgeted
  records : ∀ task ∈ engine.shared.registry.heap.map (·.task), EndingTask.Ends task
  calls : ∀ call ∈ engine.calls, call.request.Ends

theorem makeScheduler_budget {config : SchedulerConfig} {scheduler : Scheduler}
    (made : makeScheduler config = .ok scheduler) : scheduler.sliceBudget ≠ 0 := by
  rcases makeScheduler_spec config with ⟨_, _, rejected⟩ | ⟨valid, other, made', _, _, budget⟩
  · rw [made] at rejected
    cases rejected
  · rw [made] at made'
    cases made'
    rw [budget, budgetOf]
    split
    · next kind => exact valid kind
    · decide

theorem setScheduler_budget {queue next : TaskQueue} {config : SchedulerConfig}
    (changed : queue.setScheduler config = .ok next) : next.scheduler.sliceBudget ≠ 0 := by
  unfold TaskQueue.setScheduler at changed
  split at changed
  · cases changed
  · next replacement made =>
      split at changed
      · cases changed
      · cases changed
        rw [(foldl_push_kept _ _).2]
        exact makeScheduler_budget made

section Steps

variable {engine : State Task} {env : Environment} {shared : Shared Task} {index : Nat}

theorem total_taskCost_slice {heap : List (JobRecord Task)} {ref : RecordRef}
    {record : JobRecord Task} (read : heap[ref]? = some record) (task : Task) :
    total taskCost ((heap.set ref { record with task }).map (·.task)) + taskCost record.task =
      total taskCost (heap.map (·.task)) + taskCost task := by
  rw [List.map_set]
  exact total_set taskCost (by rw [List.getElem?_map, read]; rfl) task

theorem cost_worker {worker moved : Worker} (ends : WorkEnds engine)
    (budgeted : worker.Budgeted)
    (move : WorkerTransition env engine.shared worker shared moved) :
    shared.cost + moved.cost < engine.shared.cost + worker.cost := by
  cases move with
  | exit popped => simp [Worker.cost]
  | pop popped =>
      have length := (TaskQueue.pop_eq_dispatch popped).2.length_eq
      rw [List.length_cons] at length
      simp only [Shared.cost, Worker.cost, length]
      omega
  | miss missing => simp [Worker.cost]
  | resolve found => simp [Worker.cost]
  | dispatch read =>
      simp only [Shared.cost, tasks_store read (task_dispatchLocked _)]
      split <;> simp [Worker.cost]
  | @slice dispatch ref record outcome task read observed ran =>
      have sliced := total_taskCost_slice read task
      obtain ⟨_, lower, strictly⟩ := EndingTask.slice record.task ⟨env.cancellation, dispatch.budget⟩
        (ends.records _ (List.mem_map.mpr ⟨record, List.mem_of_getElem? read, rfl⟩)) budgeted
      rw [ran] at lower strictly
      dsimp only at lower strictly
      simp only [taskCost] at sliced
      simp only [Shared.cost, Worker.cost]
      split
      · next yields =>
          have strictly := strictly yields
          omega
      · omega
  | @record dispatch ref result locked read =>
      obtain ⟨kept, yields⟩ := @recordSliceLocked_kept _ env result locked
      simp only [Shared.cost, tasks_store read kept]
      split
      · next requeued => simp [Worker.cost, yields requeued]
      · simp only [Worker.cost]
        split <;> omega
  | requeue =>
      simp only [Shared.cost, Worker.cost, TaskQueue.entries_requeue, List.length_append,
        List.length_singleton]
      omega

omit [ITask Task] [EndingTask Task] in
/-- Without a spurious failure the exchange fails only when the counter has changed. -/
theorem advanceCounter_again {counter desired after again : UInt64} {current : Option UInt64}
    (advanced : advanceCounter false counter desired current = (after, some again)) :
    after = counter ∧ again = counter ∧ current ≠ some counter := by
  cases current with
  | none =>
      simp only [advanceCounter, Prod.mk.injEq] at advanced
      obtain ⟨rfl, retried⟩ := advanced
      split at retried
      · cases retried
        exact ⟨rfl, rfl, by simp⟩
      · cases retried
  | some current =>
      simp only [advanceCounter, and_true] at advanced
      split at advanced
      · cases advanced
      · next changed =>
          simp only [Prod.mk.injEq] at advanced
          obtain ⟨rfl, retried⟩ := advanced
          split at retried
          · cases retried
            exact ⟨rfl, rfl, by simpa using Ne.symm changed⟩
          · cases retried

/-- A step that makes no record and pushes no entry. -/
theorem cost_stage {request : Request Task} {stage moved : Stage}
    (same : shared.cost = engine.shared.cost) (lower : moved.cost < stage.cost)
    (unregistered : moved.unregistered = true → stage.unregistered = true) :
    shared.cost + Call.cost ⟨request, moved⟩ < engine.shared.cost + Call.cost ⟨request, stage⟩ := by
  rw [same]
  apply Nat.add_lt_add_left
  simp only [Call.cost]
  split
  · next held =>
      rw [if_pos (unregistered held)]
      exact Nat.add_lt_add_right lower _
  · exact Nat.lt_of_lt_of_le lower (Nat.le_add_right _ _)

omit [ITask Task] [EndingTask Task] in
theorem Stage.Early.cost_pos {stage : Stage} (early : stage.Early) : 0 < stage.cost := by
  cases stage <;> first | exact early.elim | exact Nat.succ_pos _

/-- A step of a call lowers the cost, or it reads a counter again that had changed. -/
theorem cost_call {done : Bool} {request : Request Task} {stage moved : Stage}
    (steady : env.spurious = false)
    (move : CallTransition env done request engine.shared stage shared moved) :
    shared.cost + Call.cost ⟨request, moved⟩ < engine.shared.cost + Call.cost ⟨request, stage⟩ ∨
      shared = engine.shared ∧ Call.cost ⟨request, moved⟩ = Call.cost ⟨request, stage⟩ ∧
        Call.stale shared ⟨request, moved⟩ < Call.stale shared ⟨request, stage⟩ := by
  cases move with
  | reject what early => exact .inl (cost_stage rfl early.cost_pos (by simp [Stage.unregistered]))
  | @registerSubmission draft task options is room =>
      left
      subst is
      simp only [Call.cost, Stage.cost, Stage.unregistered, Shared.cost, Registry.heap_emplace,
        Registry.make, Request.task?, List.map_append, total_append]
      simp [submittedRecord]
      omega
  | @registerRestore submittedAt task submission is fresh =>
      left
      subst is
      simp only [Call.cost, Stage.cost, Stage.unregistered, Shared.cost, Registry.heap_emplace,
        Registry.make, Request.task?, List.map_append, total_append]
      simp [restoredRecord]
      omega
  | @advanceJobIdAgain submission restored current counter again recovered advanced =>
      rw [steady] at advanced
      obtain ⟨rfl, rfl, changed⟩ := advanceCounter_again advanced
      cases current with
      | none => exact .inl (cost_stage rfl (by simp [Stage.cost]) (by simp [Stage.unregistered]))
      | some current =>
          have other : current ≠ _ := fun same => changed (congrArg some same)
          exact .inr ⟨rfl, rfl, by simp [Call.stale, other]⟩
  | @advanceSequenceAgain submission restored current counter again recovered advanced =>
      rw [steady] at advanced
      obtain ⟨rfl, rfl, changed⟩ := advanceCounter_again advanced
      cases current with
      | none => exact .inl (cost_stage rfl (by simp [Stage.cost]) (by simp [Stage.unregistered]))
      | some current =>
          have other : current ≠ _ := fun same => changed (congrArg some same)
          exact .inr ⟨rfl, rfl, by simp [Call.stale, other]⟩
  | @advanceJobId submission restored current counter recovered advanced =>
      exact .inl (cost_stage rfl (by cases current <;> simp [Stage.cost])
        (by simp [Stage.unregistered]))
  | @advanceSequenceRestored submission ref current counter recovered advanced =>
      exact .inl (cost_stage rfl (by cases current <;> simp [Stage.cost])
        (by simp [Stage.unregistered]))
  | @advanceSequenceReserved submission current counter recovered advanced =>
      exact .inl (cost_stage rfl (by cases current <;> simp [Stage.cost])
        (by simp [Stage.unregistered]))
  | push accepted =>
      left
      have length := congrArg List.length (TaskQueue.pushExternal_eq_some accepted).2.2
      rw [List.length_append, List.length_singleton] at length
      simp only [Call.cost, Stage.cost, Stage.unregistered, Shared.cost, length]
      simp
      omega
  | raced read =>
      have same := tasks_store read (@task_finishLocked _ env _ .cancelled (racedMessage request))
      exact .inl (cost_stage (by simp only [Shared.cost, same]) (by simp [Stage.cost])
        (by simp [Stage.unregistered]))
  | cancel read =>
      have same := tasks_store read (@task_cancelLocked _ env _)
      exact .inl (cost_stage (by simp only [Shared.cost, same]) (by simp [Stage.cost])
        (by simp [Stage.unregistered]))
  | swapScheduler is swapped =>
      have length := (TaskQueue.setScheduler_eq_ok swapped).2.2.length_eq
      exact .inl (cost_stage (by simp only [Shared.cost, length]) (by simp [Stage.cost])
        (by simp [Stage.unregistered]))
  | closeCancel is =>
      left
      have length := (TaskQueue.closeAndDrainPending_perm engine.shared.queue true).length_eq
      rw [List.length_append] at length
      simp only [Call.cost, Stage.cost, Stage.unregistered, Shared.cost]
      simp
      omega
  | cancelPending =>
      exact .inl (cost_stage (by simp only [Shared.cost, tasks_cancelPendingLocked])
        (by simp [Stage.cost]) (by simp [Stage.unregistered]))
  | _ => exact .inl (cost_stage rfl (by simp [Stage.cost]) (by simp [Stage.unregistered]))

theorem Starts.workEnds (started : Starts engine) : WorkEnds engine := by
  obtain ⟨config, queue, requested, detected, journal, made, rfl⟩ := started
  have budget : queue.scheduler.sliceBudget ≠ 0 := by
    unfold TaskQueue.make at made
    split at made
    · next scheduler made' =>
        cases made
        exact makeScheduler_budget made'
    · cases made
  refine ⟨budget, ?_, ?_, ?_⟩
  · intro worker member
    rw [List.eq_of_mem_replicate member]
    trivial
  · intro task member
    cases member
  · intro call member
    cases member

theorem WorkEnds.worker {worker moved : Worker} (ends : WorkEnds engine)
    (found : engine.workers[index]? = some worker)
    (move : WorkerTransition env engine.shared worker shared moved) :
    WorkEnds { engine with shared, workers := engine.workers.set index moved } := by
  have budgeted := ends.workers worker (List.mem_of_getElem? found)
  have same : ∀ {queue : TaskQueue} {moved : Worker} {shared : Shared Task},
      shared.queue = queue → queue.scheduler.sliceBudget ≠ 0 → moved.Budgeted →
      (∀ task ∈ shared.registry.heap.map (·.task), EndingTask.Ends task) →
      WorkEnds { engine with shared, workers := engine.workers.set index moved } := by
    intro queue moved shared is budget movedBudgeted records
    exact ⟨by rw [is]; exact budget, forall_mem_set ends.workers movedBudgeted, records, ends.calls⟩
  cases move with
  | exit popped => exact same rfl ends.budget trivial ends.records
  | @pop dispatch rest popped =>
      unfold TaskQueue.pop at popped
      split at popped
      · next entry left taken =>
          cases popped
          have kept := (Scheduler.kept_of_pop taken).2
          have budget : left.sliceBudget ≠ 0 := by
            rw [kept]
            exact ends.budget
          exact same rfl budget budget ends.records
      · split at popped <;> cases popped
  | miss missing => exact same rfl ends.budget trivial ends.records
  | resolve found => exact same rfl ends.budget budgeted ends.records
  | @dispatch dispatch ref locked read =>
      have moves : Worker.Budgeted
          (if (dispatchLocked env locked).1 then .slicing dispatch ref else .waiting) := by
        split
        · exact budgeted
        · trivial
      exact same rfl ends.budget moves
        (by rw [tasks_store read (task_dispatchLocked _)]; exact ends.records)
  | @slice dispatch ref record outcome task read observed ran =>
      refine same rfl ends.budget trivial ?_
      have ended := (EndingTask.slice record.task ⟨env.cancellation, dispatch.budget⟩
        (ends.records _ (List.mem_map.mpr ⟨record, List.mem_of_getElem? read, rfl⟩)) budgeted).1
      rw [ran] at ended
      rw [List.map_set]
      exact forall_mem_set ends.records ended
  | @record dispatch ref result locked read =>
      have moves : Worker.Budgeted (if (recordSliceLocked env result locked).1
          then .requeueing locked.record.entry else .waiting) := by
        split <;> trivial
      exact same rfl ends.budget moves
        (by rw [tasks_store read (recordSliceLocked_kept _ _).1]; exact ends.records)
  | requeue =>
      refine same rfl ?_ trivial ends.records
      rw [TaskQueue.requeue, Scheduler.sliceBudget_push]
      exact ends.budget

theorem ends_register {registry : Registry Task} {record : JobRecord Task} (id : JobId)
    (ref : RecordRef) (all : ∀ task ∈ registry.heap.map (·.task), EndingTask.Ends task)
    (ended : EndingTask.Ends record.task) :
    ∀ task ∈ ((registry.make record).emplace id ref).heap.map (·.task), EndingTask.Ends task := by
  rw [Registry.heap_emplace, Registry.make, List.map_append]
  exact forall_mem_concat all ended

theorem WorkEnds.call {call : Call Task} {stage : Stage} (ends : WorkEnds engine)
    (found : engine.calls[index]? = some call)
    (move : CallTransition env engine.done call.request engine.shared call.stage shared stage) :
    WorkEnds { engine with shared, calls := engine.calls.set index { call with stage } } := by
  obtain ⟨request, current⟩ := call
  have ended : request.Ends := ends.calls _ (List.mem_of_getElem? found)
  have records : ∀ task ∈ shared.registry.heap.map (·.task), EndingTask.Ends task := by
    cases move with
    | registerSubmission is room =>
        obtain rfl : request = _ := is
        exact ends_register _ _ ends.records (ended _ rfl)
    | registerRestore is fresh =>
        obtain rfl : request = _ := is
        exact ends_register _ _ ends.records (ended _ rfl)
    | raced read =>
        rw [tasks_store read (task_finishLocked _ _ _)]
        exact ends.records
    | cancel read =>
        rw [tasks_store read (task_cancelLocked _)]
        exact ends.records
    | cancelPending =>
        rw [tasks_cancelPendingLocked]
        exact ends.records
    | _ => exact ends.records
  have budget : shared.queue.scheduler.sliceBudget ≠ 0 := by
    cases move with
    | push accepted =>
        unfold TaskQueue.pushExternal at accepted
        split at accepted
        · cases accepted
        · cases accepted
          rw [Scheduler.sliceBudget_push]
          exact ends.budget
    | swapScheduler is swapped => exact setScheduler_budget swapped
    | closeDrain is => exact ends.budget
    | closeCancel is =>
        simp only [TaskQueue.closeAndDrainPending, if_true, Scheduler.sliceBudget_drained]
        exact ends.budget
    | _ => exact ends.budget
  exact ⟨budget, ends.workers, records, forall_mem_set ends.calls ended⟩

theorem WorkEnds.step {next : State Task} {action : Action Task} (ends : WorkEnds engine)
    (asked : action.Ends) (stepped : engine.step action = some next) : WorkEnds next := by
  cases transition_of_step stepped with
  | invoke request =>
      exact ⟨ends.budget, ends.workers, ends.records, forall_mem_concat ends.calls asked⟩
  | worker found move => exact ends.worker found move
  | call found move => exact ends.call found move

/-- A step of a thread in which no exchange fails without a reason. -/
def Action.Quiet : Action Task → Prop
  | .invoke _ => False
  | .worker _ _ => True
  | .call _ env => env.spurious = false

theorem Action.Quiet.ends {action : Action Task} (quiet : action.Quiet) : action.Ends := by
  cases action with
  | invoke request => exact quiet.elim
  | worker index env => trivial
  | call index env => trivial

theorem cost_step {next : State Task} {action : Action Task} (ends : WorkEnds engine)
    (quiet : action.Quiet) (stepped : engine.step action = some next) :
    next.cost < engine.cost ∨ next.cost = engine.cost ∧ next.stale < engine.stale := by
  cases transition_of_step stepped with
  | invoke request => exact quiet.elim
  | @worker index env worker moved shared found move =>
      have lower := cost_worker ends (ends.workers worker (List.mem_of_getElem? found)) move
      have workers := total_set Worker.cost found moved
      simp only [State.cost]
      omega
  | @call index env call stage shared found move =>
      obtain ⟨request, current⟩ := call
      have calls := total_set Call.cost found ⟨request, stage⟩
      rcases cost_call quiet move with lower | ⟨rfl, same, fresher⟩
      · dsimp only at lower
        simp only [State.cost]
        omega
      · have stale := total_set (Call.stale engine.shared) found ⟨request, stage⟩
        dsimp only at same fresher
        simp only [State.cost, State.stale]
        omega

end Steps

end Cost

end Kronos.Engine
