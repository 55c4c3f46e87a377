import Mathlib.Data.List.Basic

/-!
# Kronos value types

The value types shared by the engine, the scheduler, the journal and the
daemon. A `std::string` is a list of bytes: names, payloads and messages may
hold every byte value.
-/

set_option autoImplicit false

namespace Kronos

section Members

variable {α : Type} {p : α → Prop} [DecidablePred p]

-- A condition on the members of a list or an option is decided by trying these,
-- also where the type is finite: it has 2 ^ 64 ids, and a list has few.

instance (priority := 2000) decidableForallMem (values : List α) : Decidable (∀ x ∈ values, p x) :=
  List.decidableBAll p values

instance (priority := 2000) decidableExistsMem (values : List α) : Decidable (∃ x ∈ values, p x) :=
  List.decidableBEx p values

instance (priority := 2000) decidableForallSome (value : Option α) : Decidable (∀ x ∈ value, p x) :=
  Option.decidableForallMem value

end Members

/-- The contents of a `std::string`. -/
abbrev Bytes := List UInt8

/-- The bytes of a text literal of the source. -/
def text (literal : String) : Bytes := literal.toUTF8.data.toList

abbrev JobId := UInt64
abbrev WorkUnits := UInt64

/-- `std::numeric_limits<WorkUnits>::max()`. -/
def unlimitedWork : WorkUnits := 0xFFFFFFFFFFFFFFFF

/-- A reading of `std::chrono::steady_clock`; a default constructed one is `0`. -/
abbrev TimePoint := Int

inductive JobState where
  | new
  | ready
  | running
  | completed
  | failed
  | cancelled
  deriving DecidableEq, Repr

def isTerminal (state : JobState) : Bool :=
  state == .completed || state == .failed || state == .cancelled

/-- `to_string(JobState)`. -/
def JobState.toText : JobState → Bytes
  | .new => text "NEW"
  | .ready => text "READY"
  | .running => text "RUNNING"
  | .completed => text "COMPLETED"
  | .failed => text "FAILED"
  | .cancelled => text "CANCELLED"

@[simp] theorem isTerminal_new : isTerminal .new = false := rfl
@[simp] theorem isTerminal_ready : isTerminal .ready = false := rfl
@[simp] theorem isTerminal_running : isTerminal .running = false := rfl
@[simp] theorem isTerminal_completed : isTerminal .completed = true := rfl
@[simp] theorem isTerminal_failed : isTerminal .failed = true := rfl
@[simp] theorem isTerminal_cancelled : isTerminal .cancelled = true := rfl

inductive SliceStatus where
  | yielded
  | completed
  | failed
  | cancelled
  deriving DecidableEq, Repr

inductive SchedulerKind where
  | fifo
  | priority
  | shortestJobFirst
  | roundRobin
  deriving DecidableEq, Repr

inductive ShutdownMode where
  | drain
  | cancelPending
  deriving DecidableEq, Repr

structure SchedulerConfig where
  kind : SchedulerKind := .fifo
  quantum : WorkUnits := 100
  deriving DecidableEq, Repr

/-- How a submitted task can be reconstructed after a process crash. -/
structure DurableTaskSpec where
  type : Bytes
  payload : Bytes
  deriving DecidableEq, Repr

structure SubmissionOptions where
  name : Bytes := text "task"
  priority : Int32 := 0
  estimatedWorkUnits : WorkUnits := 1
  durableSpec : Option DurableTaskSpec := none
  deriving DecidableEq

structure SliceResult where
  status : SliceStatus := .completed
  workUnitsConsumed : WorkUnits := 0
  message : Bytes := []
  deriving DecidableEq, Repr

namespace SliceResult

def yielded (consumed : WorkUnits) : SliceResult := ⟨.yielded, consumed, []⟩
def completed (output : Bytes) (consumed : WorkUnits) : SliceResult := ⟨.completed, consumed, output⟩
def failed (error : Bytes) (consumed : WorkUnits) : SliceResult := ⟨.failed, consumed, error⟩
def cancelled (reason : Bytes) (consumed : WorkUnits) : SliceResult := ⟨.cancelled, consumed, reason⟩

end SliceResult

structure JobResult where
  id : JobId
  state : JobState
  message : Bytes
  workUnitsConsumed : WorkUnits
  deriving DecidableEq, Repr

structure JobSnapshot where
  id : JobId
  name : Bytes
  state : JobState
  priority : Int32
  estimatedWorkUnits : WorkUnits
  workUnitsConsumed : WorkUnits := 0
  submissionSequence : UInt64
  submittedAt : TimePoint
  startedAt : TimePoint := 0
  finishedAt : TimePoint := 0
  message : Bytes := []
  deriving DecidableEq

/-- The result a job publishes is a projection of its snapshot. -/
def JobSnapshot.result (snapshot : JobSnapshot) : JobResult :=
  ⟨snapshot.id, snapshot.state, snapshot.message, snapshot.workUnitsConsumed⟩

end Kronos
