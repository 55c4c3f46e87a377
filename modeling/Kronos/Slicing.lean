import Kronos.Common.Halting
import Kronos.TaskFactory
import Mathlib.Data.UInt

/-!
# Slices of one computation

The slices of a built-in task are pieces of one computation: whatever budgets
they are given, the task goes through the same states, and it completes in the
same state with the same message and the same work.
-/

set_option autoImplicit false

namespace Kronos

open Turns

/-- Tasks whose slices only cut one computation into pieces, as long as no stop
request is observed. A turn of the computation is one work unit. -/
class SlicedTask (Task : Type) [ITask Task] where
  advance : Task → Task
  finished : Task → Bool
  message : Task → Bytes
  slice : ∀ (task : Task) (budget : WorkUnits), ∃ (count : Nat) (result : SliceResult) (left : Task),
    ITask.runSlice task ⟨⟨none⟩, budget⟩ = (.returned result, left) ∧
      Runs advance finished task count left ∧
      result.workUnitsConsumed = UInt64.ofNat count ∧
      (result.status = .yielded ∨
        (result.status = .completed ∧ finished left = true ∧ result.message = message left))

theorem toNat_unlimitedWork : unlimitedWork.toNat = 2 ^ 64 - 1 := by decide

theorem toNat_lt_of_ne_unlimitedWork {value : UInt64} (other : value ≠ unlimitedWork) :
    value.toNat < 2 ^ 64 - 1 := by
  have bound := value.toNat_lt
  have apart : value.toNat ≠ unlimitedWork.toNat := fun same => other (UInt64.toNat_inj.mp same)
  rw [toNat_unlimitedWork] at apart
  omega

theorem toNat_effectiveBudget (requested remaining : WorkUnits) :
    (effectiveBudget requested remaining).toNat = min requested.toNat remaining.toNat := by
  unfold effectiveBudget
  split
  · next unlimited =>
      have bound := remaining.toNat_lt
      rw [unlimited, toNat_unlimitedWork]
      omega
  · split
    · next less =>
        have small := UInt64.lt_iff_toNat_lt.mp less
        omega
    · next least =>
        have large := UInt64.not_lt.mp least
        rw [UInt64.le_iff_toNat_le] at large
        omega

theorem toNat_add_one {value bound : UInt64} (below : value < bound) :
    (value + 1).toNat = value.toNat + 1 := by
  have small := UInt64.lt_iff_toNat_lt.mp below
  have limit := bound.toNat_lt
  rw [UInt64.toNat_add, UInt64.toNat_one, Nat.mod_eq_of_lt (by omega)]

namespace PrimeCountTask

def finished (task : PrimeCountTask) : Bool := decide (task.upperBound < task.candidate)

/-- Without a stop request the loop uses up a budget that there are candidates for. -/
theorem sliceLoop_runs (budget : WorkUnits) (turns poll : Nat) (consumed : WorkUnits)
    (task : PrimeCountTask) (covers : consumed.toNat + turns = budget.toNat)
    (room : task.candidate.toNat + turns ≤ task.upperBound.toNat + 1) :
    ∃ left, sliceLoop ⟨none⟩ budget turns poll consumed task = (true, budget, left) ∧
      Runs testCandidate finished task turns left := by
  induction turns generalizing poll consumed task with
  | zero =>
      rw [Nat.add_zero, UInt64.toNat_inj] at covers
      exact ⟨task, by simp [sliceLoop, covers], .refl task⟩
  | succ turns ih =>
      have consumes : consumed < budget := UInt64.lt_iff_toNat_lt.mpr (by omega)
      have inside : task.candidate ≤ task.upperBound := UInt64.le_iff_toNat_le.mpr (by omega)
      have next : task.testCandidate.candidate.toNat ≤ task.candidate.toNat + 1 := by
        rw [testCandidate, UInt64.toNat_add]
        exact Nat.mod_le _ _
      obtain ⟨left, ran, runs⟩ := ih (poll + 1) (consumed + 1) task.testCandidate
        (by rw [toNat_add_one consumes]; omega)
        (by change task.testCandidate.candidate.toNat + turns ≤ task.upperBound.toNat + 1; omega)
      refine ⟨left, ?_, .turn ?_ runs⟩
      · rw [sliceLoop, if_pos ⟨consumes, inside⟩, StopToken.stopRequested_none, ran]
        rfl
      · simpa [finished] using inside

/-- How many candidates a slice may still test. -/
def remaining (task : PrimeCountTask) : WorkUnits := task.upperBound - task.candidate + 1

theorem candidate_add_remaining {task : PrimeCountTask} (inside : task.candidate ≤ task.upperBound) :
    task.candidate.toNat + task.remaining.toNat ≤ task.upperBound.toNat + 1 := by
  have order := UInt64.le_iff_toNat_le.mp inside
  have small : task.remaining.toNat ≤ (task.upperBound - task.candidate).toNat + 1 := by
    rw [remaining, UInt64.toNat_add]
    exact Nat.mod_le _ _
  rw [UInt64.toNat_sub_of_le _ _ inside] at small
  omega

theorem runSlice_runs (task : PrimeCountTask) (budget : WorkUnits) :
    ∃ count left, Runs testCandidate finished task count left ∧ count ≤ budget.toNat ∧
      ((task.runSlice ⟨⟨none⟩, budget⟩ = (.yielded (UInt64.ofNat count), left) ∧
          count = min budget.toNat task.remaining.toNat ∧ finished task = false) ∨
        (task.runSlice ⟨⟨none⟩, budget⟩ =
            (.completed left.completedMessage (UInt64.ofNat count), left) ∧
          finished left = true)) := by
  unfold runSlice
  simp only [StopToken.stopRequested_none, Bool.false_eq_true, if_false]
  split
  · next beyond =>
      exact ⟨0, task, .refl task, Nat.zero_le _, .inr ⟨rfl, by simpa [finished] using beyond⟩⟩
  · next inside =>
      have inside := UInt64.not_lt.mp inside
      have budgetIs := toNat_effectiveBudget budget task.remaining
      have room := candidate_add_remaining inside
      obtain ⟨left, ran, runs⟩ := sliceLoop_runs (effectiveBudget budget task.remaining)
        (effectiveBudget budget task.remaining).toNat 1 0 task (by simp) (by omega)
      unfold remaining at ran
      rw [ran]
      refine ⟨_, left, runs, by omega, ?_⟩
      rw [UInt64.ofNat_toNat]
      by_cases beyond : left.upperBound < left.candidate
      · exact .inr ⟨if_pos beyond, by simpa [finished] using beyond⟩
      · exact .inl ⟨if_neg beyond, budgetIs, by simpa [finished] using inside⟩

end PrimeCountTask

namespace StepTask

def finished (task : StepTask) : Bool := decide (task.totalSteps ≤ task.completedSteps)

/-- `++completed_steps_` -/
def completeStep (task : StepTask) : StepTask :=
  { task with completedSteps := task.completedSteps + 1 }

/-- Without a stop request the loop uses up a budget that there are steps for. -/
theorem sliceLoop_runs (budget : WorkUnits) (turns poll : Nat) (consumed : WorkUnits)
    (task : StepTask) (covers : consumed.toNat + turns = budget.toNat)
    (room : task.completedSteps.toNat + turns ≤ task.totalSteps.toNat) :
    ∃ left, sliceLoop ⟨none⟩ budget turns poll consumed task = (true, budget, left) ∧
      Runs completeStep finished task turns left := by
  induction turns generalizing poll consumed task with
  | zero =>
      rw [Nat.add_zero, UInt64.toNat_inj] at covers
      exact ⟨task, by simp [sliceLoop, covers], .refl task⟩
  | succ turns ih =>
      have consumes : consumed < budget := UInt64.lt_iff_toNat_lt.mpr (by omega)
      have inside : task.completedSteps < task.totalSteps := UInt64.lt_iff_toNat_lt.mpr (by omega)
      have next : task.completeStep.completedSteps.toNat = task.completedSteps.toNat + 1 :=
        toNat_add_one inside
      obtain ⟨left, ran, runs⟩ := ih (poll + 1) (consumed + 1) task.completeStep
        (by rw [toNat_add_one consumes]; omega)
        (by change task.completeStep.completedSteps.toNat + turns ≤ task.totalSteps.toNat; omega)
      refine ⟨left, ?_, .turn ?_ runs⟩
      · rw [sliceLoop, if_pos ⟨consumes, inside⟩, StopToken.stopRequested_none]
        exact ran
      · simpa [finished] using inside

def remaining (task : StepTask) : WorkUnits := task.totalSteps - task.completedSteps

theorem runSlice_runs (task : StepTask) (budget : WorkUnits) :
    ∃ count left, Runs completeStep finished task count left ∧ count ≤ budget.toNat ∧
      ((task.runSlice ⟨⟨none⟩, budget⟩ = (.yielded (UInt64.ofNat count), left) ∧
          count = min budget.toNat task.remaining.toNat ∧ finished task = false) ∨
        (task.runSlice ⟨⟨none⟩, budget⟩ =
            (.completed left.completedMessage (UInt64.ofNat count), left) ∧
          finished left = true)) := by
  unfold runSlice
  simp only [StopToken.stopRequested_none, Bool.false_eq_true, if_false]
  split
  · next done =>
      exact ⟨0, task, .refl task, Nat.zero_le _, .inr ⟨rfl, by simpa [finished] using done⟩⟩
  · next undone =>
      have undone := UInt64.not_le.mp undone
      have budgetIs := toNat_effectiveBudget budget task.remaining
      have room := UInt64.toNat_sub_of_le _ _ (UInt64.le_of_lt undone)
      have order := UInt64.lt_iff_toNat_lt.mp undone
      rw [← remaining] at room
      obtain ⟨left, ran, runs⟩ := sliceLoop_runs (effectiveBudget budget task.remaining)
        (effectiveBudget budget task.remaining).toNat 1 0 task (by simp) (by omega)
      unfold remaining at ran
      rw [ran]
      refine ⟨_, left, runs, by omega, ?_⟩
      rw [UInt64.ofNat_toNat]
      by_cases done : left.completedSteps = left.totalSteps
      · exact .inr ⟨if_pos done, by simp [finished, done]⟩
      · exact .inl ⟨if_neg done, budgetIs, by simpa [finished] using undone⟩

end StepTask

namespace BuiltinTask

def advance : BuiltinTask → BuiltinTask
  | .prime task => .prime task.testCandidate
  | .step task => .step task.completeStep

def finished : BuiltinTask → Bool
  | .prime task => task.finished
  | .step task => task.finished

def completedMessage : BuiltinTask → Bytes
  | .prime task => task.completedMessage
  | .step task => task.completedMessage

/-- The `remaining` of a slice. -/
def remaining : BuiltinTask → WorkUnits
  | .prime task => task.remaining
  | .step task => task.remaining

/-- A slice without a stop request: it takes as many turns as it may, and completes
when the task is finished then. -/
theorem runSlice_runs (task : BuiltinTask) (budget : WorkUnits) :
    ∃ count left, Runs advance finished task count left ∧ count ≤ budget.toNat ∧
      ((task.runSlice ⟨⟨none⟩, budget⟩ = (.yielded (UInt64.ofNat count), left) ∧
          count = min budget.toNat task.remaining.toNat ∧ finished task = false) ∨
        (task.runSlice ⟨⟨none⟩, budget⟩ =
            (.completed left.completedMessage (UInt64.ofNat count), left) ∧
          finished left = true)) := by
  cases task with
  | prime task =>
      obtain ⟨count, left, runs, within, ran⟩ := task.runSlice_runs budget
      refine ⟨count, .prime left, runs.map BuiltinTask.prime (fun _ => rfl) fun _ => rfl, within, ?_⟩
      rcases ran with ⟨yields, exact, unfinished⟩ | ⟨completes, ended⟩
      · exact .inl ⟨by rw [runSlice, yields], exact, unfinished⟩
      · exact .inr ⟨by rw [runSlice, completes]; rfl, ended⟩
  | step task =>
      obtain ⟨count, left, runs, within, ran⟩ := task.runSlice_runs budget
      refine ⟨count, .step left, runs.map BuiltinTask.step (fun _ => rfl) fun _ => rfl, within, ?_⟩
      rcases ran with ⟨yields, exact, unfinished⟩ | ⟨completes, ended⟩
      · exact .inl ⟨by rw [runSlice, yields], exact, unfinished⟩
      · exact .inr ⟨by rw [runSlice, completes]; rfl, ended⟩

end BuiltinTask

instance : SlicedTask BuiltinTask where
  advance := BuiltinTask.advance
  finished := BuiltinTask.finished
  message := BuiltinTask.completedMessage
  slice := by
    intro task budget
    obtain ⟨count, left, runs, _, ran⟩ := task.runSlice_runs budget
    rcases ran with ⟨yields, _⟩ | ⟨completes, ended⟩
    · exact ⟨count, .yielded (UInt64.ofNat count), left, by simp [ITask.runSlice, yields], runs, rfl,
        .inl rfl⟩
    · exact ⟨count, .completed left.completedMessage (UInt64.ofNat count), left,
        by simp [ITask.runSlice, completes], runs, rfl, .inr ⟨rfl, ended, rfl⟩⟩

end Kronos
