import Kronos.SliceResults

/-!
# Tasks that end

A task ends if every slice that yields leaves less of it to do. The built-in
tasks do, whatever their slices observe of a stop request, except a prime count
up to the largest value.
-/

set_option autoImplicit false

namespace Kronos

/-- Tasks with a bound on the turns that are left. A slice that has a budget and
yields lowers the bound. -/
class EndingTask (Task : Type) [ITask Task] where
  Ends : Task → Prop
  toGo : Task → Nat
  slice : ∀ (task : Task) (context : TaskContext), Ends task → context.maxWorkUnits ≠ 0 →
    Ends (ITask.runSlice task context).2 ∧
      toGo (ITask.runSlice task context).2 ≤ toGo task ∧
      ((ITask.runSlice task context).1.result.status = .yielded →
        toGo (ITask.runSlice task context).2 < toGo task)

/-- A slice with something to do and a budget makes a first turn. -/
theorem effectiveBudget_pos {requested remaining : WorkUnits} (asked : requested ≠ 0)
    (left : remaining ≠ 0) :
    0 < (effectiveBudget requested remaining).toNat ∧ 0 < effectiveBudget requested remaining := by
  have given : effectiveBudget requested remaining ≠ 0 := by
    unfold effectiveBudget
    split
    · exact left
    · split
      · exact left
      · exact asked
  have positive := UInt64.pos_iff_ne_zero.mpr given
  exact ⟨UInt64.lt_iff_toNat_lt.mp positive, positive⟩

theorem BuiltinTask.Bounded.remaining_ne_zero {task : BuiltinTask} (bounded : Bounded task)
    (unfinished : finished task = false) : task.remaining ≠ 0 := by
  intro exhausted
  have left := bounded.remaining_pos unfinished
  rw [exhausted] at left
  cases left

namespace PrimeCountTask

/-- The candidates that are not tested yet. -/
def toGo (task : PrimeCountTask) : Nat := task.upperBound.toNat + 1 - task.candidate.toNat

theorem toGo_testCandidate {task : PrimeCountTask} (bounded : task.upperBound ≠ unlimitedWork)
    (inside : task.candidate ≤ task.upperBound) : task.testCandidate.toGo < task.toGo := by
  have small := toNat_lt_of_ne_unlimitedWork bounded
  have order := UInt64.le_iff_toNat_le.mp inside
  have next : (task.candidate + 1).toNat = task.candidate.toNat + 1 := by
    rw [UInt64.toNat_add, UInt64.toNat_one, Nat.mod_eq_of_lt (by omega)]
  simp only [toGo, testCandidate, next]
  omega

/-- The loop lowers the bound unless the first poll stops it. -/
theorem toGo_sliceLoop (cancellation : StopToken) (budget : WorkUnits) (turns poll : Nat)
    (consumed : WorkUnits) (task : PrimeCountTask) (bounded : task.upperBound ≠ unlimitedWork) :
    (sliceLoop cancellation budget turns poll consumed task).2.2.upperBound = task.upperBound ∧
      (sliceLoop cancellation budget turns poll consumed task).2.2.toGo ≤ task.toGo ∧
      (0 < turns → consumed < budget → task.candidate ≤ task.upperBound →
        (sliceLoop cancellation budget turns poll consumed task).1 = true →
        (sliceLoop cancellation budget turns poll consumed task).2.2.toGo < task.toGo) := by
  induction turns generalizing poll consumed task with
  | zero => exact ⟨rfl, Nat.le_refl _, fun some => absurd some (Nat.lt_irrefl 0)⟩
  | succ turns ih =>
      rw [sliceLoop]
      split
      · next goesOn =>
          split
          · refine ⟨rfl, Nat.le_refl _, ?_⟩
            intro _ _ _ finished
            cases finished
          · obtain ⟨same, less, _⟩ := ih (poll + 1) (consumed + 1) task.testCandidate bounded
            have lower := toGo_testCandidate bounded goesOn.2
            exact ⟨same, by omega, fun _ _ _ _ => by omega⟩
      · next stops =>
          refine ⟨rfl, Nat.le_refl _, ?_⟩
          intro _ consumes inside
          exact absurd ⟨consumes, inside⟩ stops

theorem toGo_runSlice (task : PrimeCountTask) (context : TaskContext)
    (bounded : task.upperBound ≠ unlimitedWork) (budget : context.maxWorkUnits ≠ 0) :
    (task.runSlice context).2.upperBound ≠ unlimitedWork ∧
      (task.runSlice context).2.toGo ≤ task.toGo ∧
      ((task.runSlice context).1.status = .yielded → (task.runSlice context).2.toGo < task.toGo) := by
  unfold runSlice
  split
  · exact ⟨bounded, Nat.le_refl _, by intro yields; cases yields⟩
  · split
    · exact ⟨bounded, Nat.le_refl _, by intro yields; cases yields⟩
    · next inside =>
        have inside := UInt64.not_lt.mp inside
        have left := @BuiltinTask.Bounded.remaining_ne_zero (.prime task) bounded
          (by simpa [BuiltinTask.finished, finished] using inside)
        obtain ⟨turns, first⟩ := effectiveBudget_pos budget left
        obtain ⟨same, lower, strictly⟩ := toGo_sliceLoop context.cancellation
          (effectiveBudget context.maxWorkUnits task.remaining)
          (effectiveBudget context.maxWorkUnits task.remaining).toNat 1 0 task bounded
        have strictly := strictly turns first inside
        unfold remaining at same lower strictly
        simp only
        split
        · next consumed stopped ran =>
            rw [ran] at same lower
            exact ⟨by rw [same]; exact bounded, lower, by intro yields; cases yields⟩
        · next consumed ended ran =>
            rw [ran] at same lower strictly
            have kept : ended.upperBound ≠ unlimitedWork := by
              rw [same]
              exact bounded
            split
            · exact ⟨kept, lower, by intro yields; cases yields⟩
            · exact ⟨kept, lower, fun _ => strictly rfl⟩

end PrimeCountTask

namespace StepTask

/-- The steps that are not made yet. -/
def toGo (task : StepTask) : Nat := task.totalSteps.toNat - task.completedSteps.toNat

theorem toGo_completeStep {task : StepTask} (inside : task.completedSteps < task.totalSteps) :
    task.completeStep.toGo < task.toGo := by
  have order := UInt64.lt_iff_toNat_lt.mp inside
  have next : (task.completedSteps + 1).toNat = task.completedSteps.toNat + 1 := toNat_add_one inside
  simp only [toGo, completeStep, next]
  omega

theorem toGo_sliceLoop (cancellation : StopToken) (budget : WorkUnits) (turns poll : Nat)
    (consumed : WorkUnits) (task : StepTask) :
    (sliceLoop cancellation budget turns poll consumed task).2.2.toGo ≤ task.toGo ∧
      (0 < turns → consumed < budget → task.completedSteps < task.totalSteps →
        (sliceLoop cancellation budget turns poll consumed task).1 = true →
        (sliceLoop cancellation budget turns poll consumed task).2.2.toGo < task.toGo) := by
  induction turns generalizing poll consumed task with
  | zero => exact ⟨Nat.le_refl _, fun some => absurd some (Nat.lt_irrefl 0)⟩
  | succ turns ih =>
      rw [sliceLoop]
      split
      · next goesOn =>
          split
          · refine ⟨Nat.le_refl _, ?_⟩
            intro _ _ _ finished
            cases finished
          · obtain ⟨less, _⟩ := ih (poll + 1) (consumed + 1) task.completeStep
            have lower := toGo_completeStep goesOn.2
            change (sliceLoop cancellation budget turns (poll + 1) (consumed + 1)
              task.completeStep).2.2.toGo ≤ _ ∧ _
            exact ⟨by omega, fun _ _ _ _ => Nat.lt_of_le_of_lt less lower⟩
      · next stops =>
          refine ⟨Nat.le_refl _, ?_⟩
          intro _ consumes inside
          exact absurd ⟨consumes, inside⟩ stops

theorem toGo_runSlice (task : StepTask) (context : TaskContext) (budget : context.maxWorkUnits ≠ 0) :
    (task.runSlice context).2.toGo ≤ task.toGo ∧
      ((task.runSlice context).1.status = .yielded → (task.runSlice context).2.toGo < task.toGo) := by
  unfold runSlice
  split
  · exact ⟨Nat.le_refl _, by intro yields; cases yields⟩
  · split
    · exact ⟨Nat.le_refl _, by intro yields; cases yields⟩
    · next undone =>
        have inside := UInt64.not_le.mp undone
        have left := @BuiltinTask.Bounded.remaining_ne_zero (.step task) trivial
          (by simpa [BuiltinTask.finished, finished] using inside)
        obtain ⟨turns, first⟩ := effectiveBudget_pos budget left
        obtain ⟨lower, strictly⟩ := toGo_sliceLoop context.cancellation
          (effectiveBudget context.maxWorkUnits task.remaining)
          (effectiveBudget context.maxWorkUnits task.remaining).toNat 1 0 task
        have strictly := strictly turns first inside
        unfold remaining at lower strictly
        simp only
        split
        · next consumed stopped ran =>
            rw [ran] at lower
            exact ⟨lower, by intro yields; cases yields⟩
        · next consumed ended ran =>
            rw [ran] at lower strictly
            split
            · exact ⟨lower, by intro yields; cases yields⟩
            · exact ⟨lower, fun _ => strictly rfl⟩

end StepTask

namespace BuiltinTask

def toGo : BuiltinTask → Nat
  | .prime task => task.toGo
  | .step task => task.toGo

end BuiltinTask

instance : EndingTask BuiltinTask where
  Ends := BuiltinTask.Bounded
  toGo := BuiltinTask.toGo
  slice := by
    intro task context ends budget
    cases task with
    | prime task => exact task.toGo_runSlice context ends budget
    | step task => exact ⟨trivial, task.toGo_runSlice context budget⟩

end Kronos
