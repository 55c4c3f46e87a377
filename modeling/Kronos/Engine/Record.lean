import Kronos.JournalProperties
import Kronos.Scheduler
import Kronos.Task

/-!
# Job records

`JobRecord` and what the critical sections of the registry mutex do to one
record. A section also meets the journal, whose appends may throw, and the
clock; both are inputs.
-/

set_option autoImplicit false

namespace Kronos.Engine

/-- The answers the surroundings give to one step of a thread. -/
structure Environment where
  /-- The `what()` of the exception that an append for a job throws, if it throws. -/
  appendError : JobId → Option Bytes := fun _ => none
  /-- `Clock::now()` as read for a job. -/
  now : JobId → TimePoint := fun _ => 1
  /-- What the polls of a slice observe. -/
  cancellation : StopToken := {}
  /-- `compare_exchange_weak` fails without a reason. -/
  spurious : Bool := false

/-- The records appended so far, or no journal at all. -/
abbrev Journal := Option (List JournalRecord)

def Journal.add (journal : Journal) (record : JournalRecord) : Journal :=
  journal.map (· ++ [record])

structure JobRecord (Task : Type) where
  snapshot : JobSnapshot
  entry : SchedulerEntry
  task : Task
  stopRequested : Bool := false
  /-- The values given to `promise.set_value`, in order. -/
  promise : List JobResult := []
  resultPublished : Bool := false
  deriving DecidableEq

/-- What a section of the registry mutex works on. -/
structure Locked (Task : Type) where
  record : JobRecord Task
  journal : Journal
  deriving DecidableEq

namespace JobRecord

variable {Task : Type}

/-- The common end of `finish_locked` and `fail_without_journal_locked`. -/
def publish (record : JobRecord Task) (state : JobState) (message : Bytes) (now : TimePoint) :
    JobRecord Task :=
  { record with
    snapshot := { record.snapshot with state, message, finishedAt := now }
    resultPublished := true
    promise := record.promise ++
      [⟨record.snapshot.id, state, message, record.snapshot.workUnitsConsumed⟩] }

def consume (record : JobRecord Task) (units : WorkUnits) : JobRecord Task :=
  { record with
    snapshot := { record.snapshot with
      workUnitsConsumed := record.snapshot.workUnitsConsumed + units } }

def requestStop (record : JobRecord Task) : JobRecord Task :=
  { record with stopRequested := true }

def start (record : JobRecord Task) (now : TimePoint) : JobRecord Task :=
  { record with
    snapshot := { record.snapshot with
      state := .running
      startedAt := if record.snapshot.startedAt = 0 then now else record.snapshot.startedAt } }

def backToReady (record : JobRecord Task) (message : Bytes) : JobRecord Task :=
  { record with snapshot := { record.snapshot with state := .ready, message } }

/-- The transition that announces a state for the record. -/
def transition (record : JobRecord Task) (state : JobState) (message : Bytes) :
    JobTransitionRecord :=
  ⟨record.snapshot.id, state, record.snapshot.workUnitsConsumed, message⟩

end JobRecord

section Sections

variable {Task : Type} (env : Environment)

def failWithoutJournalLocked (record : JobRecord Task) (message : Bytes) : JobRecord Task :=
  if record.resultPublished then record
  else record.publish .failed message (env.now record.snapshot.id)

/-- Whether the transition may be made. A throwing append fails the job instead. -/
def persistTransitionLocked (locked : Locked Task) (state : JobState) (message : Bytes) :
    Bool × Locked Task :=
  match locked.journal with
  | none => (true, locked)
  | some _ =>
      match env.appendError locked.record.snapshot.id with
      | none =>
          (true, { locked with
            journal := locked.journal.add (.transition (locked.record.transition state message)) })
      | some what =>
          (false, { locked with
            record := failWithoutJournalLocked env locked.record
              (text "write-ahead log failure: " ++ what) })

def finishLocked (locked : Locked Task) (state : JobState) (message : Bytes) : Locked Task :=
  if locked.record.resultPublished then locked
  else
    match persistTransitionLocked env locked state message with
    | (false, failed) => failed
    | (true, persisted) =>
        { persisted with
          record := persisted.record.publish state message (env.now persisted.record.snapshot.id) }

/-- The section in front of a slice; `true` when the slice is to be run. -/
def dispatchLocked (locked : Locked Task) : Bool × Locked Task :=
  if locked.record.snapshot.state ≠ .ready then (false, locked)
  else
    match persistTransitionLocked env locked .running [] with
    | (false, failed) => (false, failed)
    | (true, persisted) =>
        (true, { persisted with
          record := persisted.record.start (env.now persisted.record.snapshot.id) })

/-- The section behind a slice; `true` when the job is to be requeued. -/
def recordSliceLocked (result : SliceResult) (locked : Locked Task) : Bool × Locked Task :=
  let consumed : Locked Task :=
    { locked with record := locked.record.consume result.workUnitsConsumed }
  match result.status with
  | .yielded =>
      if consumed.record.stopRequested then
        (false, finishLocked env consumed .cancelled
          (if result.message = [] then text "cancellation requested" else result.message))
      else
        match persistTransitionLocked env consumed .ready result.message with
        | (false, failed) => (false, failed)
        | (true, persisted) =>
            (true, { persisted with record := persisted.record.backToReady result.message })
  | .completed => (false, finishLocked env consumed .completed result.message)
  | .failed => (false, finishLocked env consumed .failed result.message)
  | .cancelled => (false, finishLocked env consumed .cancelled result.message)

/-- The second section of `cancel`, with its answer. -/
def cancelLocked (locked : Locked Task) : Bool × Locked Task :=
  if isTerminal locked.record.snapshot.state then (false, locked)
  else
    let stopped : Locked Task := { locked with record := locked.record.requestStop }
    if stopped.record.snapshot.state = .ready ∨ stopped.record.snapshot.state = .new then
      (true, finishLocked env stopped .cancelled (text "cancelled before execution"))
    else (true, stopped)

/-- The body of the loop over the drained entries in `shutdown`. -/
def shutdownLocked (locked : Locked Task) : Locked Task :=
  if isTerminal locked.record.snapshot.state then locked
  else
    finishLocked env { locked with record := locked.record.requestStop } .cancelled
      (text "cancelled during engine shutdown")

end Sections

end Kronos.Engine
