import Kronos.FromChars
import Kronos.Task

/-!
# Built-in tasks

`PrimeCountTask` and `StepTask`. The loops of a slice carry a bound on their
turns: the budget for the task loops and the tested value for the divisor loop.
-/

set_option autoImplicit false

namespace Kronos

/-- The divisor loop of `is_prime`. -/
def hasNoDivisorFrom : Nat → UInt64 → UInt64 → Bool
  | 0, _, _ => true
  | turns + 1, value, divisor =>
      if divisor ≤ value / divisor then
        if value % divisor = 0 then false else hasNoDivisorFrom turns value (divisor + 1)
      else true

def isPrime (value : UInt64) : Bool :=
  if value < 2 then false else hasNoDivisorFrom value.toNat value 2

def effectiveBudget (requested remaining : WorkUnits) : WorkUnits :=
  if requested = unlimitedWork then remaining
  else if remaining < requested then remaining else requested

structure PrimeCountTask where
  upperBound : UInt64
  candidate : UInt64 := 2
  primeCount : UInt64 := 0
  deriving DecidableEq

namespace PrimeCountTask

def completedMessage (task : PrimeCountTask) : Bytes :=
  text "primes found: " ++ uint64Text task.primeCount

/-- `++prime_count_` for a prime, then `++candidate_`. -/
def testCandidate (task : PrimeCountTask) : PrimeCountTask :=
  { task with
    candidate := task.candidate + 1
    primeCount := if isPrime task.candidate then task.primeCount + 1 else task.primeCount }

/-- The loop of a slice; `false` when a poll observes a stop request. -/
def sliceLoop (cancellation : StopToken) (budget : WorkUnits) :
    Nat → Nat → WorkUnits → PrimeCountTask → Bool × WorkUnits × PrimeCountTask
  | 0, _, consumed, task => (true, consumed, task)
  | turns + 1, poll, consumed, task =>
      if consumed < budget ∧ task.candidate ≤ task.upperBound then
        if cancellation.stopRequested poll then (false, consumed, task)
        else sliceLoop cancellation budget turns (poll + 1) (consumed + 1) task.testCandidate
      else (true, consumed, task)

def runSlice (task : PrimeCountTask) (context : TaskContext) : SliceResult × PrimeCountTask :=
  if context.cancellation.stopRequested 0 then
    (.cancelled (text "prime-count task cancelled") 0, task)
  else if task.candidate > task.upperBound then (.completed task.completedMessage 0, task)
  else
    let remaining := task.upperBound - task.candidate + 1
    let budget := effectiveBudget context.maxWorkUnits remaining
    match sliceLoop context.cancellation budget budget.toNat 1 0 task with
    | (false, consumed, task) =>
        (.cancelled (text "prime-count task cancelled") consumed, task)
    | (true, consumed, task) =>
        if task.candidate > task.upperBound then
          (.completed task.completedMessage consumed, task)
        else (.yielded consumed, task)

end PrimeCountTask

structure StepTask where
  totalSteps : WorkUnits
  delayPerStep : Int64
  completedSteps : WorkUnits := 0
  deriving DecidableEq

namespace StepTask

def completedMessage (task : StepTask) : Bytes :=
  text "steps completed: " ++ uint64Text task.completedSteps

/-- The loop of a slice. The wait before each poll only takes time. -/
def sliceLoop (cancellation : StopToken) (budget : WorkUnits) :
    Nat → Nat → WorkUnits → StepTask → Bool × WorkUnits × StepTask
  | 0, _, consumed, task => (true, consumed, task)
  | turns + 1, poll, consumed, task =>
      if consumed < budget ∧ task.completedSteps < task.totalSteps then
        if cancellation.stopRequested poll then (false, consumed, task)
        else
          sliceLoop cancellation budget turns (poll + 1) (consumed + 1)
            { task with completedSteps := task.completedSteps + 1 }
      else (true, consumed, task)

def runSlice (task : StepTask) (context : TaskContext) : SliceResult × StepTask :=
  if context.cancellation.stopRequested 0 then
    (.cancelled (text "step task cancelled") 0, task)
  else if task.completedSteps ≥ task.totalSteps then (.completed task.completedMessage 0, task)
  else
    let remaining := task.totalSteps - task.completedSteps
    let budget := effectiveBudget context.maxWorkUnits remaining
    match sliceLoop context.cancellation budget budget.toNat 1 0 task with
    | (false, consumed, task) => (.cancelled (text "step task cancelled") consumed, task)
    | (true, consumed, task) =>
        if task.completedSteps = task.totalSteps then
          (.completed task.completedMessage consumed, task)
        else (.yielded consumed, task)

end StepTask

/-- The tasks the factory makes. -/
inductive BuiltinTask where
  | prime (task : PrimeCountTask)
  | step (task : StepTask)
  deriving DecidableEq

def BuiltinTask.runSlice (context : TaskContext) : BuiltinTask → SliceResult × BuiltinTask
  | .prime task => ((task.runSlice context).1, .prime (task.runSlice context).2)
  | .step task => ((task.runSlice context).1, .step (task.runSlice context).2)

instance : ITask BuiltinTask where
  runSlice task context := (.returned (task.runSlice context).1, (task.runSlice context).2)

end Kronos
