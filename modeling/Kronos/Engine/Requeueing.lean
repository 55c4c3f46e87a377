import Kronos.Common.Handout
import Kronos.Common.Traces
import Kronos.Engine.SingleCarrier
import Kronos.OrderedQueue

/-!
# The place of a yielded job

A yielded job is requeued with the sequence of its submission. First in first out
and round robin put it behind all that is pending. By priority and by estimate it
keeps its old place among its equals: it goes behind those that were submitted
before it, and it overtakes those that were submitted after it.
-/

set_option autoImplicit false

namespace Kronos

/-- The policy does not tell the entries apart but by their sequences. -/
def EqualRank (kind : SchedulerKind) (left right : SchedulerEntry) : Prop :=
  match kind with
  | .fifo | .roundRobin => True
  | .priority => left.priority = right.priority
  | .shortestJobFirst => left.estimatedWorkUnits = right.estimatedWorkUnits

/-- Which entry a strategy of the kind pops, and what it leaves. -/
def popsOf (kind : SchedulerKind) : Handout.Policy SchedulerEntry := fun pending entry left =>
  ∃ scheduler rest : Scheduler, scheduler.kind = kind ∧ scheduler.entries = pending ∧
    scheduler.pop = some (entry, rest) ∧ rest.entries = left

theorem popsOf_perm {kind : SchedulerKind} (pending : List SchedulerEntry) (entry : SchedulerEntry)
    (left : List SchedulerEntry) (pops : popsOf kind pending entry left) :
    pending.Perm (entry :: left) := by
  obtain ⟨scheduler, rest, _, rfl, popped, rfl⟩ := pops
  exact Scheduler.pop_perm popped

theorem popsOf_first {kind : SchedulerKind} (queues : kind = .fifo ∨ kind = .roundRobin)
    (pending : List SchedulerEntry) (entry : SchedulerEntry) (left : List SchedulerEntry)
    (pops : popsOf kind pending entry left) : pending = entry :: left := by
  obtain ⟨scheduler, rest, is, rfl, popped, rfl⟩ := pops
  rw [← is] at queues
  cases Scheduler.pops_of_pop popped with
  | fifo => rfl
  | priority => rcases queues with other | other <;> cases other
  | sjf => rcases queues with other | other <;> cases other
  | roundRobin => rfl

/-- With a ranking an entry waits for its equals with smaller sequences. -/
theorem popsOf_waits {kind : SchedulerKind} {entry other : SchedulerEntry}
    (ranks : ¬ (kind = .fifo ∨ kind = .roundRobin)) (equal : EqualRank kind entry other)
    (earlier : other.submissionSequence < entry.submissionSequence)
    (pending left : List SchedulerEntry) (pops : popsOf kind pending entry left) :
    other ∉ pending := by
  obtain ⟨scheduler, rest, is, rfl, popped, rfl⟩ := pops
  have before := UInt64.lt_iff_toNat_lt.mp earlier
  subst is
  intro member
  cases Scheduler.pops_of_pop popped with
  | fifo => exact ranks (.inl rfl)
  | priority found =>
      have same : entry.priority = other.priority := equal
      refine top_max (popPriorityQueue_eq_some found).1 other member
        (priorityCompare_iff.mpr (.inr ⟨?_, before⟩))
      rw [same]
  | sjf found =>
      have same : entry.estimatedWorkUnits = other.estimatedWorkUnits := equal
      refine top_max (popPriorityQueue_eq_some found).1 other member
        (sjfCompare_iff.mpr (.inr ⟨?_, before⟩))
      rw [same]
  | roundRobin => exact ranks (.inr rfl)

namespace Engine

variable {Task : Type}

/-! ## What a step does to the queue -/

def State.pending (engine : State Task) : List SchedulerEntry := engine.shared.queue.entries

/-- The policy of the active strategy. -/
def State.policy (engine : State Task) : SchedulerKind := engine.shared.queue.scheduler.kind

def Worker.popped : Worker → List SchedulerEntry
  | .dispatched dispatch => [dispatch.entry]
  | _ => []

def Worker.requeues : Worker → List SchedulerEntry
  | .requeueing entry => [entry]
  | _ => []

def Stage.pushed : Stage → Stage → List SchedulerEntry
  | .push entry _, .returnedHandle _ _ => [entry]
  | _, _ => []

def Stage.replaced : Stage → Stage → Bool
  | .swapScheduler, .returned => true
  | _, _ => false

/-- The entry that a step has popped. -/
def popped (taken : Taken (State Task) (Action Task)) : List SchedulerEntry :=
  match taken.action with
  | .worker index _ => taken.after.workers[index]?.toList.flatMap Worker.popped
  | _ => []

/-- The entry of a yielded job that a step has requeued. -/
def requeued (taken : Taken (State Task) (Action Task)) : List SchedulerEntry :=
  match taken.action with
  | .worker index _ => taken.before.workers[index]?.toList.flatMap Worker.requeues
  | _ => []

/-- The entry that a step has put into the queue. -/
def inserted (taken : Taken (State Task) (Action Task)) : List SchedulerEntry :=
  match taken.action with
  | .invoke _ => []
  | .worker _ _ => requeued taken
  | .call index _ =>
      match taken.before.calls[index]?, taken.after.calls[index]? with
      | some before, some after => before.stage.pushed after.stage
      | _, _ => []

/-- A step has replaced the scheduler. -/
def replaced (taken : Taken (State Task) (Action Task)) : Bool :=
  match taken.action with
  | .call index _ =>
      match taken.before.calls[index]?, taken.after.calls[index]? with
      | some before, some after => before.stage.replaced after.stage
      | _, _ => false
  | _ => false

variable {engine : State Task} {shared : Shared Task} {index : Nat} {env : Environment}

theorem popped_worker {worker : Worker} (found : engine.workers[index]? = some worker)
    (moved : Worker) :
    popped ⟨engine, .worker index env,
      { engine with shared, workers := engine.workers.set index moved }⟩ = moved.popped := by
  have within : index < engine.workers.length := (List.getElem?_eq_some_iff.mp found).1
  simp [popped, List.getElem?_set_self within]

theorem inserted_worker {worker : Worker} (found : engine.workers[index]? = some worker)
    (after : State Task) :
    inserted ⟨engine, .worker index env, after⟩ = worker.requeues := by
  simp [inserted, requeued, found]

theorem inserted_call {call : Call Task} (found : engine.calls[index]? = some call)
    (moved : Stage) :
    inserted ⟨engine, .call index env,
        { engine with shared, calls := engine.calls.set index { call with stage := moved } }⟩ =
      call.stage.pushed moved := by
  have within : index < engine.calls.length := (List.getElem?_eq_some_iff.mp found).1
  simp [inserted, found, List.getElem?_set_self within]

theorem replaced_call {call : Call Task} (found : engine.calls[index]? = some call)
    (moved : Stage) :
    replaced ⟨engine, .call index env,
        { engine with shared, calls := engine.calls.set index { call with stage := moved } }⟩ =
      call.stage.replaced moved := by
  have within : index < engine.calls.length := (List.getElem?_eq_some_iff.mp found).1
  simp [replaced, found, List.getElem?_set_self within]

/-- What a thread does to the queue: the moves of the policy, unless it is replaced. -/
def Serves (before after : TaskQueue) (more out : List SchedulerEntry) : Prop :=
  Handout.Moves (popsOf before.scheduler.kind) before.entries more out after.entries ∧
    after.scheduler.kind = before.scheduler.kind

theorem Serves.same (queue : TaskQueue) : Serves queue queue [] [] := ⟨.keep, rfl⟩

theorem Serves.insert (queue : TaskQueue) (entry : SchedulerEntry) (closed : Bool) :
    Serves queue ⟨queue.scheduler.push entry, queue.config, closed⟩ [entry] [] := by
  refine ⟨?_, Scheduler.kind_push _ _⟩
  rw [TaskQueue.entries, TaskQueue.entries, Scheduler.entries_push]
  exact .insert entry

theorem serves_worker [ITask Task] {next : Shared Task} {worker moved : Worker}
    (transition : WorkerTransition env shared worker next moved) :
    Serves shared.queue next.queue worker.requeues moved.popped := by
  cases transition with
  | exit => exact .same _
  | @pop dispatch rest found =>
      unfold TaskQueue.pop at found
      split at found
      · next taken =>
          cases found
          exact ⟨.take ⟨_, _, rfl, rfl, taken, rfl⟩, (Scheduler.kept_of_pop taken).1⟩
      · split at found <;> cases found
  | miss => exact .same _
  | resolve => exact .same _
  | dispatch =>
      split
      · exact .same _
      · exact .same _
  | slice => exact .same _
  | record =>
      split
      · exact .same _
      · exact .same _
  | @requeue entry => exact .insert shared.queue entry shared.queue.closed

theorem serves_call {done : Bool} {request : Request Task} {next : Shared Task}
    {stage moved : Stage} (transition : CallTransition env done request shared stage next moved)
    (unreplaced : stage.replaced moved = false) :
    Serves shared.queue next.queue (stage.pushed moved) [] := by
  cases transition with
  | reject what early => cases stage <;> exact .same _
  | @push entry ref queue accepted =>
      unfold TaskQueue.pushExternal at accepted
      split at accepted
      · cases accepted
      · cases accepted
        exact .insert shared.queue entry shared.queue.closed
  | swapScheduler => cases unreplaced
  | closeDrain => exact ⟨.keep, rfl⟩
  | closeCancel =>
      refine ⟨?_, Scheduler.kind_drained _⟩
      have empty : (shared.queue.closeAndDrainPending true).2.entries = [] :=
        Scheduler.entries_drained _
      rw [empty]
      exact .clear
  | _ => exact .same _

theorem serves_step [ITask Task] {next : State Task} {action : Action Task}
    (stepped : engine.step action = some next) (unreplaced : replaced ⟨engine, action, next⟩ = false) :
    Serves engine.shared.queue next.shared.queue (inserted ⟨engine, action, next⟩)
      (popped ⟨engine, action, next⟩) := by
  cases transition_of_step stepped with
  | invoke request => exact .same _
  | @worker index env worker shared moved found transition =>
      rw [inserted_worker found, popped_worker found]
      exact serves_worker transition
  | @call index env call shared moved found transition =>
      rw [replaced_call found] at unreplaced
      rw [inserted_call found]
      exact serves_call transition unreplaced

/-! ## Runs behind a requeue -/

/-- As long as the scheduler is not replaced, the queue is served by one policy. -/
theorem runs_of_traces [ITask Task] {start final : State Task}
    {later : List (Taken (State Task) (Action Task))} (traced : Traces State.step start later final)
    (unreplaced : ∀ taken ∈ later, replaced taken = false) :
    Handout.Runs (popsOf start.policy) start.pending (later.flatMap inserted)
        (later.flatMap popped) final.pending ∧ final.policy = start.policy := by
  induction traced with
  | refl => exact ⟨.refl, rfl⟩
  | tail action _ stepped ih =>
      rw [List.forall_mem_append, List.forall_mem_singleton] at unreplaced
      obtain ⟨runs, policy⟩ := ih unreplaced.1
      obtain ⟨move, kept⟩ := serves_step stepped unreplaced.2
      rw [List.flatMap_append, List.flatMap_append, List.flatMap_singleton, List.flatMap_singleton]
      rw [← State.policy, policy] at move
      exact ⟨.tail runs move, kept.trans policy⟩

theorem pending_requeued [ITask Task] {taken : Taken (State Task) (Action Task)}
    (stepped : taken.before.step taken.action = some taken.after) {entry : SchedulerEntry}
    (is : entry ∈ requeued taken) :
    taken.after.pending = taken.before.pending ++ [entry] ∧
      taken.after.policy = taken.before.policy := by
  obtain ⟨before, action, after⟩ := taken
  change before.step action = some after at stepped
  cases transition_of_step stepped with
  | invoke request => cases is
  | call found move => cases is
  | @worker index env worker moved shared found move =>
      simp only [requeued, found, Option.toList_some, List.flatMap_singleton] at is
      cases move with
      | requeue =>
          rw [Worker.requeues, List.mem_singleton] at is
          rw [is]
          exact ⟨TaskQueue.entries_requeue _ _, Scheduler.kind_push _ _⟩
      | _ => cases is

/-- The requeued entry goes behind the pending ones that it is equal to in rank: none of
these is popped after it. -/
def GoesToBack (requeue : Taken (State Task) (Action Task))
    (later : List (Taken (State Task) (Action Task))) : Prop :=
  ∀ entry ∈ requeued requeue, ∀ other ∈ requeue.before.pending,
    EqualRank requeue.before.policy entry other →
    Handout.HandsFirst requeue.before.pending entry other (later.flatMap inserted)
      (later.flatMap popped)

/-- The policy does not rank, or the entries of equal rank have smaller sequences. -/
def FollowsEquals (requeue : Taken (State Task) (Action Task)) : Prop :=
  requeue.before.policy = .fifo ∨ requeue.before.policy = .roundRobin ∨
    ∀ entry ∈ requeued requeue, ∀ other ∈ requeue.before.pending, other ≠ entry →
      EqualRank requeue.before.policy entry other →
      other.submissionSequence < entry.submissionSequence

/-- In every run, a job that yields when its equals have smaller sequences goes behind them. -/
theorem yielded_behind_equals [ITask Task] (start final : State Task)
    (earlier later : List (Taken (State Task) (Action Task)))
    (requeue : Taken (State Task) (Action Task))
    (traced : Traces State.step start (earlier ++ requeue :: later) final)
    (unreplaced : ∀ taken ∈ later, replaced taken = false) (follows : FollowsEquals requeue) :
    GoesToBack requeue later := by
  obtain ⟨stepped, rest⟩ := traced.of_split rfl
  obtain ⟨runs, _⟩ := runs_of_traces rest unreplaced
  intro entry is other member equal
  obtain ⟨pending, policy⟩ := pending_requeued stepped is
  rw [pending, policy] at runs
  by_cases queues : requeue.before.policy = .fifo ∨ requeue.before.policy = .roundRobin
  · exact runs.handsFirst_of_serves (popsOf_first queues)
  · by_cases same : other = entry
    · rw [same]
      intro again
      omega
    · have sequences := (follows.resolve_left fun fifo => queues (.inl fifo)).resolve_left
        fun roundRobin => queues (.inr roundRobin)
      exact runs.handsFirst_of_waits popsOf_perm
        (popsOf_waits queues equal (sequences entry is other member same equal)) same

/-! ## Two runs in which a job yields -/

/-- One worker and a quantum of one unit. -/
def yieldingStart : State BuiltinTask :=
  State.make ⟨.roundRobin [] 1, ⟨.roundRobin, 1⟩, false⟩ 1 0 none

theorem yieldingStart_starts : Starts yieldingStart := ⟨⟨.roundRobin, 1⟩, _, 1, 0, none, rfl, rfl⟩

/-- Of two jobs with one priority, the first one has run a slice. -/
def slicedActions : List (Action BuiltinTask) :=
  .invoke (.submit (some sampleTask) sampleOptions) :: List.replicate 6 (.call 0 {}) ++
    .invoke (.submit (some sampleTask) sampleOptions) :: List.replicate 6 (.call 1 {}) ++
    List.replicate 4 (.worker 0 {})

/-- It is requeued, and the worker pops again. -/
def waitingActions : List (Action BuiltinTask) := slicedActions ++ List.replicate 3 (.worker 0 {})

/-- The strategy is changed before the job is requeued. -/
def overtakingActions : List (Action BuiltinTask) :=
  slicedActions ++ .invoke (.setScheduler ⟨.priority, 1⟩) :: List.replicate 2 (.call 2 {}) ++
    List.replicate 3 (.worker 0 {})

private theorem waiting_ran : (traceAll State.step yieldingStart waitingActions).isSome = true := by
  decide +kernel

private theorem overtaking_ran :
    (traceAll State.step yieldingStart overtakingActions).isSome = true := by
  decide +kernel

def waitingRun : List (Taken (State BuiltinTask) (Action BuiltinTask)) × State BuiltinTask :=
  Option.get _ waiting_ran

def overtakingRun : List (Taken (State BuiltinTask) (Action BuiltinTask)) × State BuiltinTask :=
  Option.get _ overtaking_ran

private theorem waiting_within : 19 < waitingRun.1.length := by
  decide +kernel

private theorem overtaking_within : 22 < overtakingRun.1.length := by
  decide +kernel

/-- The steps that requeue the first job. -/
def waitingRequeue : Taken (State BuiltinTask) (Action BuiltinTask) :=
  waitingRun.1.get ⟨19, waiting_within⟩

def overtakingRequeue : Taken (State BuiltinTask) (Action BuiltinTask) :=
  overtakingRun.1.get ⟨22, overtaking_within⟩

/-- By round robin the second job is popped first. -/
theorem yielded_job_waits :
    GoesToBack waitingRequeue (waitingRun.1.drop 20) ∧
      requeued waitingRequeue = [⟨1, 0, 3, 0⟩] ∧
      waitingRequeue.before.pending = [⟨2, 0, 3, 1⟩] ∧
      (waitingRun.1.drop 20).flatMap popped = [⟨2, 0, 3, 1⟩] := by
  have traced : Traces State.step yieldingStart waitingRun.1 waitingRun.2 :=
    traces_of_traceAll (Option.some_get waiting_ran).symm
  have unreplaced : ∀ taken ∈ waitingRun.1.drop 20, replaced taken = false := by
    decide +kernel
  have policy : waitingRequeue.before.policy = .roundRobin := by
    decide +kernel
  refine ⟨yielded_behind_equals yieldingStart _ _ _ _ (traced.cut waiting_within) unreplaced
    (.inr (.inl policy)), ?_⟩
  decide +kernel

/-- By priority the first job is popped again while the second one is pending. -/
theorem yielded_job_overtakes :
    Starts yieldingStart ∧
      Traces State.step yieldingStart
        (overtakingRun.1.take 22 ++ overtakingRequeue :: overtakingRun.1.drop 23) overtakingRun.2 ∧
      (∀ taken ∈ overtakingRun.1.drop 23, replaced taken = false) ∧
      ¬ GoesToBack overtakingRequeue (overtakingRun.1.drop 23) := by
  have traced : Traces State.step yieldingStart overtakingRun.1 overtakingRun.2 :=
    traces_of_traceAll (Option.some_get overtaking_ran).symm
  have entry : requeued overtakingRequeue = [⟨1, 0, 3, 0⟩] := by
    decide +kernel
  have pending : overtakingRequeue.before.pending = [⟨2, 0, 3, 1⟩] := by
    decide +kernel
  have policy : overtakingRequeue.before.policy = .priority := by
    decide +kernel
  have none : (overtakingRun.1.drop 23).flatMap inserted = [] := by
    decide +kernel
  have again : (overtakingRun.1.drop 23).flatMap popped = [⟨1, 0, 3, 0⟩] := by
    decide +kernel
  refine ⟨yieldingStart_starts, traced.cut overtaking_within, by decide +kernel, ?_⟩
  intro back
  have first := back ⟨1, 0, 3, 0⟩ (by rw [entry]; exact List.mem_singleton.mpr rfl) ⟨2, 0, 3, 1⟩
    (by rw [pending]; exact List.mem_singleton.mpr rfl) (by rw [policy]; rfl)
  rw [Handout.HandsFirst, pending, none, again] at first
  exact absurd (first (by decide)) (by decide)

end Engine

end Kronos
