import Kronos.Types

/-!
# Tasks

The interface a worker runs. A slice may poll its stop token any number of
times; what the polls answer is an input of the slice.
-/

set_option autoImplicit false

namespace Kronos

/-- What one slice sees of a stop request: the first poll that observes it. A
request once made stays, so every later poll observes it too. -/
structure StopToken where
  seenFrom : Option Nat := none
  deriving DecidableEq

def StopToken.stopRequested (token : StopToken) (poll : Nat) : Bool :=
  token.seenFrom.any (· ≤ poll)

@[simp] theorem StopToken.stopRequested_none (poll : Nat) :
    StopToken.stopRequested ⟨none⟩ poll = false := rfl

structure TaskContext where
  cancellation : StopToken
  maxWorkUnits : WorkUnits := unlimitedWork
  deriving DecidableEq

/-- How `run_slice` ends. A thrown `std::exception` carries its `what()`. -/
inductive SliceOutcome where
  | returned (result : SliceResult)
  | threw (what : Option Bytes)
  deriving DecidableEq

/-- The result the worker records for an outcome. -/
def SliceOutcome.result : SliceOutcome → SliceResult
  | .returned result => result
  | .threw (some what) => .failed what 0
  | .threw none => .failed (text "task threw an unknown exception") 0

class ITask (Task : Type) where
  runSlice : Task → TaskContext → SliceOutcome × Task

end Kronos
