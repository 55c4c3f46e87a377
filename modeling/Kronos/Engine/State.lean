import Kronos.Engine.Record
import Kronos.TaskQueue

/-!
# The engine

The state of a `TaskEngine`: what its threads share, where each worker stands
in `worker_loop` and where each call stands in its body. A step of a thread is
one critical section or one operation on an atomic.
-/

set_option autoImplicit false

namespace Kronos.Engine

/-- A `std::shared_ptr<JobRecord>`: the index of the record among all made. -/
abbrev RecordRef := Nat

structure Registry (Task : Type) where
  heap : List (JobRecord Task) := []
  records : List (JobId × RecordRef) := []
  journal : Journal := none
  deriving DecidableEq

namespace Registry

variable {Task : Type}

def find (registry : Registry Task) (id : JobId) : Option RecordRef := registry.records.lookup id

/-- The registry mutex is taken and a record is looked at. -/
def locked (registry : Registry Task) (ref : RecordRef) : Option (Locked Task) :=
  registry.heap[ref]?.map fun record => ⟨record, registry.journal⟩

def store (registry : Registry Task) (ref : RecordRef) (locked : Locked Task) : Registry Task :=
  { registry with heap := registry.heap.set ref locked.record, journal := locked.journal }

/-- A new record with `std::make_shared`; the next index refers to it. -/
def make (registry : Registry Task) (record : JobRecord Task) : Registry Task :=
  { registry with heap := registry.heap ++ [record] }

/-- `records_.emplace`: an id that is taken keeps its record. -/
def emplace (registry : Registry Task) (id : JobId) (ref : RecordRef) : Registry Task :=
  match registry.find id with
  | none => { registry with records := registry.records ++ [(id, ref)] }
  | some _ => registry

/-- The size from which on `records_.emplace` throws. It stands for the `max_size()` of the
map, which is at most this, the largest `std::size_t`; that memory runs out before is not
modelled. -/
def limit : Nat := 2 ^ 64 - 1

end Registry

/-- Where a worker stands in `worker_loop`. -/
inductive Worker where
  /-- at `queue_.pop` -/
  | waiting
  /-- at `find_record` -/
  | dispatched (dispatch : Dispatch)
  /-- at the section in front of the slice -/
  | resolved (dispatch : Dispatch) (ref : RecordRef)
  /-- in `run_slice` -/
  | slicing (dispatch : Dispatch) (ref : RecordRef)
  /-- at the section behind the slice -/
  | sliced (dispatch : Dispatch) (ref : RecordRef) (result : SliceResult)
  /-- at `queue_.requeue` -/
  | requeueing (entry : SchedulerEntry)
  | exited
  deriving DecidableEq

/-- A call of the engine's interface with its arguments; a null task is `none`. -/
inductive Request (Task : Type) where
  | submit (task : Option Task) (options : SubmissionOptions)
  | restore (task : Option Task) (submission : JobSubmissionRecord)
  | reserveRecoveredIdentity (submission : JobSubmissionRecord)
  | cancel (id : JobId)
  | setScheduler (config : SchedulerConfig)
  | shutdown (mode : ShutdownMode)
  deriving DecidableEq

/-- The identity a submission has drawn. -/
structure Draft where
  id : JobId
  sequence : UInt64
  submittedAt : TimePoint
  deriving DecidableEq

/-- Where a call stands. Stages are named after what comes next. -/
inductive Stage where
  | entered
  | drawId
  | drawSequence (id : JobId)
  | journalSubmission (draft : Draft)
  | registerSubmission (draft : Draft)
  | journalRestore (submittedAt : TimePoint)
  | registerRestore (submittedAt : TimePoint)
  /-- in `advance_counter(next_job_id_, ..)`, with the record of a restored job and `current` -/
  | advanceJobId (restored : Option RecordRef) (current : Option UInt64)
  | advanceSequence (restored : Option RecordRef) (current : Option UInt64)
  | push (entry : SchedulerEntry) (ref : RecordRef)
  /-- the queue was closed already -/
  | raced (entry : SchedulerEntry) (ref : RecordRef)
  | cancelFound (ref : RecordRef)
  | swapScheduler
  | stopAccepting
  | close
  | cancelPending (pending : List SchedulerEntry)
  | join
  | returnedHandle (id : JobId) (ref : RecordRef)
  | returnedBool (answer : Bool)
  | returned
  | threw (what : Bytes)
  deriving DecidableEq

structure Call (Task : Type) where
  request : Request Task
  stage : Stage := .entered
  deriving DecidableEq

/-- What the threads share. -/
structure Shared (Task : Type) where
  registry : Registry Task
  queue : TaskQueue
  nextJobId : UInt64 := 1
  nextSequence : UInt64 := 0
  accepting : Bool := true
  /-- `shutdown_mutex_` is taken -/
  shutdownHeld : Bool := false
  /-- `workers_` is empty -/
  joined : Bool := false
  /-- The results of all slices that were run, by record. No code reads them. -/
  slices : List (RecordRef × SliceResult) := []
  deriving DecidableEq

structure State (Task : Type) where
  shared : Shared Task
  workers : List Worker
  calls : List (Call Task) := []
  deriving DecidableEq

def resolvedWorkerCount (requested detected : Nat) : Nat :=
  if requested ≠ 0 then requested else if detected = 0 then 1 else detected

/-- A new engine on a queue and a journal. -/
def State.make {Task : Type} (queue : TaskQueue) (requested detected : Nat) (journal : Journal) :
    State Task where
  shared := { registry := { journal }, queue }
  workers := List.replicate (resolvedWorkerCount requested detected) .waiting

end Kronos.Engine
