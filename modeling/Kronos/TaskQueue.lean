import Kronos.Scheduler

/-!
# The task queue

`TaskQueue`: the active strategy, its configuration and the closed flag. Each
operation is one critical section of the queue mutex.
-/

set_option autoImplicit false

namespace Kronos

structure Dispatch where
  entry : SchedulerEntry
  budget : WorkUnits
  deriving DecidableEq

structure TaskQueue where
  scheduler : Scheduler
  config : SchedulerConfig
  closed : Bool := false
  deriving DecidableEq

namespace TaskQueue

def make (config : SchedulerConfig) : Except String TaskQueue :=
  match makeScheduler config with
  | .ok scheduler => .ok ⟨scheduler, config, false⟩
  | .error error => .error error

def entries (queue : TaskQueue) : List SchedulerEntry := queue.scheduler.entries

/-- No queue when the entry is refused. -/
def pushExternal (queue : TaskQueue) (entry : SchedulerEntry) : Option TaskQueue :=
  if queue.closed then none else some { queue with scheduler := queue.scheduler.push entry }

/-- A yielded job is taken back by a closed queue too. -/
def requeue (queue : TaskQueue) (entry : SchedulerEntry) : TaskQueue :=
  { queue with scheduler := queue.scheduler.push entry }

/-- What a worker that waits on the queue can do. -/
inductive Pop where
  | blocked
  | finished
  | dispatch (dispatch : Dispatch) (rest : TaskQueue)

/-- The wait ends once the queue is closed or has an entry. -/
def pop (queue : TaskQueue) : Pop :=
  match queue.scheduler.pop with
  | some (entry, rest) =>
      .dispatch ⟨entry, rest.sliceBudget⟩ { queue with scheduler := rest }
  | none => if queue.closed then .finished else .blocked

def setScheduler (queue : TaskQueue) (config : SchedulerConfig) : Except String TaskQueue :=
  match makeScheduler config with
  | .error error => .error error
  | .ok replacement =>
      if queue.closed then .error "cannot change scheduler after shutdown"
      else
        .ok { queue with
          scheduler := queue.scheduler.drain.foldl (fun scheduler entry => scheduler.push entry)
            replacement
          config := config }

def closeAndDrainPending (queue : TaskQueue) (drainPending : Bool) :
    List SchedulerEntry × TaskQueue :=
  if drainPending then
    (queue.scheduler.drain, { queue with scheduler := queue.scheduler.drained, closed := true })
  else ([], { queue with closed := true })

theorem pushExternal_eq_some {queue next : TaskQueue} {entry : SchedulerEntry}
    (accepted : queue.pushExternal entry = some next) :
    queue.closed = false ∧ next.closed = false ∧ next.entries = queue.entries ++ [entry] := by
  unfold pushExternal at accepted
  split at accepted
  · cases accepted
  · next opened =>
      cases accepted
      simp only [Bool.not_eq_true] at opened
      exact ⟨opened, opened, Scheduler.entries_push _ _⟩

theorem pushExternal_eq_none {queue : TaskQueue} {entry : SchedulerEntry}
    (refused : queue.pushExternal entry = none) : queue.closed = true := by
  unfold pushExternal at refused
  split at refused
  · assumption
  · cases refused

@[simp] theorem closed_requeue (queue : TaskQueue) (entry : SchedulerEntry) :
    (queue.requeue entry).closed = queue.closed := rfl

@[simp] theorem entries_requeue (queue : TaskQueue) (entry : SchedulerEntry) :
    (queue.requeue entry).entries = queue.entries ++ [entry] :=
  Scheduler.entries_push _ _

theorem pop_eq_dispatch {queue rest : TaskQueue} {dispatch : Dispatch}
    (popped : queue.pop = .dispatch dispatch rest) :
    rest.closed = queue.closed ∧ queue.entries.Perm (dispatch.entry :: rest.entries) := by
  unfold pop at popped
  split at popped
  · next found =>
      cases popped
      exact ⟨rfl, Scheduler.pop_perm found⟩
  · split at popped <;> cases popped

theorem pop_eq_finished {queue : TaskQueue} (popped : queue.pop = .finished) :
    queue.closed = true ∧ queue.entries = [] := by
  unfold pop at popped
  split at popped
  · cases popped
  · next empty =>
      split at popped
      · next closed => exact ⟨closed, Scheduler.pop_eq_none empty⟩
      · cases popped

theorem setScheduler_eq_ok {queue next : TaskQueue} {config : SchedulerConfig}
    (changed : queue.setScheduler config = .ok next) :
    queue.closed = false ∧ next.closed = false ∧ next.entries.Perm queue.entries := by
  unfold setScheduler at changed
  split at changed
  · cases changed
  · next made =>
      split at changed
      · cases changed
      · next opened =>
          cases changed
          simp only [Bool.not_eq_true] at opened
          refine ⟨opened, opened, ?_⟩
          simp only [entries, Scheduler.entries_foldl_push, entries_makeScheduler made,
            List.nil_append]
          exact Scheduler.drain_perm _

@[simp] theorem closed_closeAndDrainPending (queue : TaskQueue) (drainPending : Bool) :
    (queue.closeAndDrainPending drainPending).2.closed = true := by
  cases drainPending <;> rfl

/-- Closing hands out the drained entries and keeps the others. -/
theorem closeAndDrainPending_perm (queue : TaskQueue) (drainPending : Bool) :
    queue.entries.Perm ((queue.closeAndDrainPending drainPending).1 ++
      (queue.closeAndDrainPending drainPending).2.entries) := by
  cases drainPending with
  | false => exact List.Perm.refl _
  | true =>
      simp only [closeAndDrainPending, if_true, entries, Scheduler.entries_drained,
        List.append_nil]
      exact (Scheduler.drain_perm _).symm

end TaskQueue

end Kronos
