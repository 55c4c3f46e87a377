import Kronos.Slicing
import Mathlib.NumberTheory.PrimeCounting

/-!
# What the built-in tasks compute

The slices of a built-in task add up to one computation, so its result is that
of the computation: the primes up to the bound are counted, the steps are made.
The candidate of the prime count wraps around at the largest bound there is, and
only there does a task not come to an end.
-/

set_option autoImplicit false

namespace Kronos

open Turns

/-! ## Primes -/

theorem hasNoDivisorFrom_iff (turns : Nat) (value : UInt64) {divisor : UInt64} (two : 2 ≤ divisor.toNat)
    (enough : value.toNat < divisor.toNat + turns) :
    hasNoDivisorFrom turns value divisor = true ↔
      ∀ factor, divisor.toNat ≤ factor → factor * factor ≤ value.toNat → ¬ factor ∣ value.toNat := by
  induction turns generalizing divisor with
  | zero =>
      simp only [hasNoDivisorFrom, true_iff]
      intro factor large square
      have bound := Nat.mul_le_mul_right factor (Nat.le_trans two large)
      omega
  | succ turns ih =>
      have loops : divisor ≤ value / divisor ↔ divisor.toNat * divisor.toNat ≤ value.toNat := by
        rw [UInt64.le_iff_toNat_le, UInt64.toNat_div, Nat.le_div_iff_mul_le (by omega)]
      have divides : value % divisor = 0 ↔ divisor.toNat ∣ value.toNat := by
        rw [← UInt64.toNat_inj, UInt64.toNat_mod, UInt64.toNat_zero, Nat.dvd_iff_mod_eq_zero]
      rw [hasNoDivisorFrom]
      simp only [loops, divides]
      split
      · next small =>
          split
          · next found =>
              simp only [Bool.false_eq_true, false_iff]
              exact fun none => none _ (Nat.le_refl _) small found
          · next clean =>
              have double := Nat.mul_le_mul_right divisor.toNat two
              have next : (divisor + 1).toNat = divisor.toNat + 1 :=
                toNat_add_one (UInt64.lt_iff_toNat_lt.mpr (by omega : _ < value.toNat))
              rw [ih (by omega) (by omega), next]
              constructor
              · intro none factor large
                rcases Nat.eq_or_lt_of_le large with rfl | larger
                · exact fun _ => clean
                · exact none factor larger
              · exact fun none factor larger => none factor (by omega)
      · next beyond =>
          simp only [true_iff]
          intro factor large square
          exact absurd (Nat.le_trans (Nat.mul_le_mul large large) square) beyond

theorem isPrime_iff (value : UInt64) : isPrime value = true ↔ value.toNat.Prime := by
  rw [Nat.prime_def_le_sqrt, isPrime]
  split
  · next small =>
      have below : value.toNat < 2 := UInt64.lt_iff_toNat_lt.mp small
      simp only [Bool.false_eq_true, false_iff, not_and]
      omega
  · next large =>
      have two : 2 ≤ value.toNat := UInt64.le_iff_toNat_le.mp (UInt64.not_lt.mp large)
      have all := hasNoDivisorFrom_iff value.toNat value (Nat.le_refl (2 : UInt64).toNat)
        (Nat.lt_add_of_pos_left (by decide))
      rw [all]
      simp only [two, true_and, Nat.le_sqrt]
      exact Iff.rfl

namespace PrimeCountTask

/-- The task after so many candidates. The last one is the largest value there is. -/
theorem iterate_testCandidate (upperBound : UInt64) {count : Nat} (small : 2 + count ≤ 2 ^ 64) :
    testCandidate^[count] { upperBound } =
      { upperBound
        candidate := UInt64.ofNat (2 + count)
        primeCount := UInt64.ofNat (Nat.primeCounting' (2 + count)) } := by
  induction count with
  | zero =>
      have none : Nat.primeCounting' 2 = 0 := Nat.primeCounting'_eq_zero_iff.mpr (Nat.le_refl 2)
      rw [Function.iterate_zero_apply, Nat.add_zero, none]
      rfl
  | succ count ih =>
      have candidate : (UInt64.ofNat (2 + count)).toNat = 2 + count :=
        UInt64.toNat_ofNat_of_lt' (by change _ < 2 ^ 64; omega)
      have counted : Nat.primeCounting' (2 + count + 1) =
          Nat.primeCounting' (2 + count) + if (2 + count).Prime then 1 else 0 :=
        Nat.count_succ _ _
      have prime := isPrime_iff (UInt64.ofNat (2 + count))
      rw [candidate] at prime
      rw [Function.iterate_succ_apply', ih (by omega), testCandidate, ← Nat.add_assoc, counted]
      generalize 2 + count = number at prime
      by_cases is : number.Prime
      · simp only [prime.mpr is, is, if_true, UInt64.ofNat_add]
        rfl
      · have not : isPrime (UInt64.ofNat number) = false := by
          rw [← Bool.not_eq_true, prime]
          exact is
        simp only [not, is, Bool.false_eq_true, if_false, Nat.add_zero, UInt64.ofNat_add]
        rfl

theorem finished_iterate {upperBound : UInt64} {count : Nat} (small : 2 + count < 2 ^ 64) :
    finished (testCandidate^[count] { upperBound }) = true ↔ upperBound.toNat < 2 + count := by
  rw [iterate_testCandidate upperBound (Nat.le_of_lt small), finished, decide_eq_true_iff,
    UInt64.lt_iff_toNat_lt, UInt64.toNat_ofNat_of_lt' (by change _ < 2 ^ 64; exact small)]

/-- Up to any bound but the largest value, all primes are counted. -/
theorem runs_count (upperBound : UInt64) (small : upperBound.toNat < 2 ^ 64 - 1) :
    ∃ left, Runs testCandidate finished { upperBound } (upperBound.toNat - 1) left ∧
      finished left = true ∧
      left.primeCount = UInt64.ofNat (Nat.primeCounting upperBound.toNat) := by
  refine ⟨_, ⟨rfl, fun earlier early => ?_⟩, ?_, ?_⟩
  · rw [← Bool.not_eq_true, finished_iterate (by omega)]
    omega
  · rw [finished_iterate (by omega)]
    omega
  · rw [iterate_testCandidate upperBound (by omega)]
    rcases Nat.eq_zero_or_pos upperBound.toNat with zero | positive
    · have none : ∀ few ≤ 2, Nat.primeCounting' few = 0 :=
        fun few small => Nat.primeCounting'_eq_zero_iff.mpr small
      rw [zero, Nat.primeCounting]
      change UInt64.ofNat (Nat.primeCounting' 2) = _
      rw [none 2 (by decide), none (0 + 1) (by decide)]
    · have last : 2 + (upperBound.toNat - 1) = upperBound.toNat + 1 := by omega
      rw [last]
      rfl

theorem iterate_upperBound (task : PrimeCountTask) (count : Nat) :
    (testCandidate^[count] task).upperBound = task.upperBound := by
  induction count with
  | zero => rfl
  | succ count ih => rw [Function.iterate_succ_apply', testCandidate, ih]

theorem finished_largest {task : PrimeCountTask} (largest : task.upperBound = unlimitedWork) :
    finished task = false := by
  have bound := task.candidate.toNat_lt
  rw [finished, decide_eq_false_iff_not, UInt64.lt_iff_toNat_lt, largest, toNat_unlimitedWork]
  omega

end PrimeCountTask

namespace StepTask

theorem iterate_completeStep (totalSteps : WorkUnits) (delayPerStep : Int64) (count : Nat) :
    completeStep^[count] { totalSteps, delayPerStep } =
      { totalSteps, delayPerStep, completedSteps := UInt64.ofNat count } := by
  induction count with
  | zero => rfl
  | succ count ih =>
      rw [Function.iterate_succ_apply', ih, completeStep, UInt64.ofNat_add]
      rfl

/-- All steps are made, whatever their number. -/
theorem runs_steps (totalSteps : WorkUnits) (delayPerStep : Int64) :
    Runs completeStep finished { totalSteps, delayPerStep } totalSteps.toNat
        { totalSteps, delayPerStep, completedSteps := totalSteps } ∧
      finished { totalSteps, delayPerStep, completedSteps := totalSteps } = true := by
  refine ⟨⟨?_, fun earlier early => ?_⟩, by simp [finished]⟩
  · rw [iterate_completeStep, UInt64.ofNat_toNat]
  · have bound := totalSteps.toNat_lt
    rw [iterate_completeStep, finished, decide_eq_false_iff_not, UInt64.le_iff_toNat_le,
      UInt64.toNat_ofNat_of_lt' (by change _ < 2 ^ 64; omega)]
    exact Nat.not_le.mpr early

end StepTask

/-! ## Sequences of slices -/

/-- Calls of `run_slice` with these budgets and no stop request: their results, and
the task after them. -/
def BuiltinTask.runSlices (task : BuiltinTask) : List WorkUnits → List SliceResult × BuiltinTask
  | [] => ([], task)
  | budget :: budgets =>
      let first := task.runSlice ⟨⟨none⟩, budget⟩
      let later := first.2.runSlices budgets
      (first.1 :: later.1, later.2)

/-- The work of some slices, as a number. -/
def consumed (results : List SliceResult) : Nat :=
  (results.map fun result => result.workUnitsConsumed.toNat).sum

@[simp] theorem consumed_nil : consumed [] = 0 := rfl

@[simp] theorem consumed_cons (result : SliceResult) (results : List SliceResult) :
    consumed (result :: results) = result.workUnitsConsumed.toNat + consumed results := by
  simp [consumed]

namespace BuiltinTask

theorem runSlice_spec (task : BuiltinTask) (budget : WorkUnits) :
    ∃ result left, task.runSlice ⟨⟨none⟩, budget⟩ = (result, left) ∧
      Runs advance finished task result.workUnitsConsumed.toNat left ∧
      result.workUnitsConsumed ≤ budget ∧
      (result.status = .yielded ∧ finished task = false ∧
          result.workUnitsConsumed.toNat = min budget.toNat task.remaining.toNat ∨
        result.status = .completed ∧ finished left = true ∧
          result.message = left.completedMessage) := by
  obtain ⟨count, left, runs, within, ran⟩ := task.runSlice_runs budget
  have bound := budget.toNat_lt
  have number : (UInt64.ofNat count).toNat = count :=
    UInt64.toNat_ofNat_of_lt' (by change _ < 2 ^ 64; omega)
  have work : UInt64.ofNat count ≤ budget := by
    rw [UInt64.le_iff_toNat_le, number]
    exact within
  rcases ran with ⟨yields, most, unfinished⟩ | ⟨completes, ended⟩
  · refine ⟨_, left, yields, ?_, work, .inl ⟨rfl, unfinished, ?_⟩⟩
    · rw [SliceResult.yielded, number]
      exact runs
    · rw [SliceResult.yielded, number]
      exact most
  · refine ⟨_, left, completes, ?_, work, .inr ⟨rfl, ended, rfl⟩⟩
    rw [SliceResult.completed, number]
    exact runs

theorem runSlice_finished {task : BuiltinTask} (ended : finished task = true) (budget : WorkUnits) :
    task.runSlice ⟨⟨none⟩, budget⟩ = (.completed task.completedMessage 0, task) := by
  obtain ⟨count, left, runs, _, ⟨_, _, unfinished⟩ | ⟨completes, _⟩⟩ := task.runSlice_runs budget
  · rw [ended] at unfinished
    cases unfinished
  · cases count with
    | zero =>
        have same : left = task := runs.eq
        rw [completes, same]
        rfl
    | succ count =>
        have unfinished : finished task = false := runs.unfinished 0 (Nat.succ_pos count)
        rw [ended] at unfinished
        cases unfinished

theorem runSlices_finished {task : BuiltinTask} (ended : finished task = true)
    (budgets : List WorkUnits) :
    ∀ result ∈ (task.runSlices budgets).1, result = .completed task.completedMessage 0 := by
  induction budgets with
  | nil => exact List.forall_mem_nil _
  | cons budget budgets ih =>
      rw [runSlices, runSlice_finished ended budget, List.forall_mem_cons]
      exact ⟨rfl, ih⟩

theorem runSlices_runs (task : BuiltinTask) (budgets : List WorkUnits) :
    Runs advance finished task (consumed (task.runSlices budgets).1) (task.runSlices budgets).2 := by
  induction budgets generalizing task with
  | nil => exact .refl task
  | cons budget budgets ih =>
      obtain ⟨result, left, ran, runs, _⟩ := task.runSlice_spec budget
      rw [runSlices, ran, consumed_cons]
      exact runs.trans (ih left)

theorem runSlices_within (task : BuiltinTask) (budgets : List WorkUnits) :
    List.Forall₂ (fun budget result => result.workUnitsConsumed ≤ budget) budgets
      (task.runSlices budgets).1 := by
  induction budgets generalizing task with
  | nil => exact .nil
  | cons budget budgets ih =>
      obtain ⟨result, left, ran, _, within, _⟩ := task.runSlice_spec budget
      rw [runSlices, ran]
      exact .cons within (ih left)

theorem iterate_prime (task : PrimeCountTask) (count : Nat) :
    advance^[count] (.prime task) = .prime (PrimeCountTask.testCandidate^[count] task) :=
  ((show Function.Semiconj prime PrimeCountTask.testCandidate advance from
    fun _ => rfl).iterate_right count task).symm

/-- Where a slice completes, the slices up to it have made the whole computation,
and the later ones repeat its message. -/
theorem runSlices_completed {task : BuiltinTask} {budgets : List WorkUnits} {index : Nat}
    {result : SliceResult} (found : (task.runSlices budgets).1[index]? = some result)
    (completed : result.status = .completed) :
    ∃ left, Runs advance finished task (consumed ((task.runSlices budgets).1.take (index + 1))) left ∧
      finished left = true ∧ result.message = left.completedMessage ∧
      ∀ later ∈ (task.runSlices budgets).1.drop (index + 1),
        later = .completed result.message 0 := by
  induction budgets generalizing task index with
  | nil => cases found
  | cons budget budgets ih =>
      obtain ⟨first, left, ran, runs, _, status⟩ := task.runSlice_spec budget
      rw [runSlices, ran] at found ⊢
      cases index with
      | zero =>
          cases found
          obtain ⟨yielded, _⟩ | ⟨_, ended, message⟩ := status
          · rw [completed] at yielded
            cases yielded
          · refine ⟨left, ?_, ended, message, ?_⟩
            · simpa using runs
            · rw [message]
              exact runSlices_finished ended budgets
      | succ index =>
          obtain ⟨last, more, ended, message, later⟩ := ih found
          refine ⟨last, ?_, ended, message, later⟩
          rw [List.take_succ_cons, consumed_cons]
          exact runs.trans more

end BuiltinTask

theorem PrimeCountTask.runSlices_message {upperBound : UInt64} {budgets : List WorkUnits}
    {index : Nat} {result : SliceResult}
    (found : (BuiltinTask.runSlices (.prime { upperBound }) budgets).1[index]? = some result)
    (completed : result.status = .completed) :
    result.message =
        text "primes found: " ++ Decimal.ofNat (Nat.primeCounting upperBound.toNat) ∧
      consumed ((BuiltinTask.runSlices (.prime { upperBound }) budgets).1.take (index + 1)) =
        upperBound.toNat - 1 ∧
      ∀ later ∈ (BuiltinTask.runSlices (.prime { upperBound }) budgets).1.drop (index + 1),
        later = .completed result.message 0 := by
  obtain ⟨left, runs, ended, message, later⟩ := BuiltinTask.runSlices_completed found completed
  by_cases largest : upperBound = unlimitedWork
  · -- the candidate never passes the bound
    have unfinished : BuiltinTask.finished left = false := by
      rw [runs.eq, BuiltinTask.iterate_prime]
      exact finished_largest ((iterate_upperBound _ _).trans largest)
    rw [ended] at unfinished
    cases unfinished
  · have small := toNat_lt_of_ne_unlimitedWork largest
    obtain ⟨final, whole, finalEnded, count⟩ := runs_count upperBound small
    have lifted : Runs BuiltinTask.advance BuiltinTask.finished (.prime { upperBound })
        (upperBound.toNat - 1) (.prime final) :=
      whole.map BuiltinTask.prime (fun _ => rfl) fun _ => rfl
    obtain ⟨same, rfl⟩ := runs.finished_unique ended lifted finalEnded
    refine ⟨?_, same, later⟩
    have fits : Nat.primeCounting upperBound.toNat < 2 ^ 64 := by
      have most : Nat.primeCounting upperBound.toNat ≤ upperBound.toNat + 1 :=
        Nat.count_le _
      omega
    rw [message, BuiltinTask.completedMessage, completedMessage, count, uint64Text,
      UInt64.toNat_ofNat_of_lt' fits]

theorem StepTask.runSlices_message {totalSteps : WorkUnits} {delayPerStep : Int64}
    {budgets : List WorkUnits} {index : Nat} {result : SliceResult}
    (found : (BuiltinTask.runSlices (.step { totalSteps, delayPerStep }) budgets).1[index]? =
      some result)
    (completed : result.status = .completed) :
    result.message = text "steps completed: " ++ Decimal.ofNat totalSteps.toNat ∧
      consumed ((BuiltinTask.runSlices (.step { totalSteps, delayPerStep }) budgets).1.take
        (index + 1)) = totalSteps.toNat ∧
      ∀ later ∈ (BuiltinTask.runSlices (.step { totalSteps, delayPerStep }) budgets).1.drop
        (index + 1), later = .completed result.message 0 := by
  obtain ⟨left, runs, ended, message, later⟩ := BuiltinTask.runSlices_completed found completed
  obtain ⟨whole, finalEnded⟩ := runs_steps totalSteps delayPerStep
  have lifted : Runs BuiltinTask.advance BuiltinTask.finished (.step { totalSteps, delayPerStep })
      totalSteps.toNat _ := whole.map BuiltinTask.step (fun _ => rfl) fun _ => rfl
  obtain ⟨same, rfl⟩ := runs.finished_unique ended lifted finalEnded
  refine ⟨?_, same, later⟩
  rw [message, BuiltinTask.completedMessage, completedMessage, uint64Text]

/-- Slicing does not change what the built-in tasks compute. -/
theorem slices_compute_results (budgets : List WorkUnits) :
    (∀ (task : BuiltinTask),
      List.Forall₂ (fun budget result => result.workUnitsConsumed ≤ budget) budgets
        (task.runSlices budgets).1) ∧
    (∀ (upperBound : UInt64) (index : Nat) (result : SliceResult),
      (BuiltinTask.runSlices (.prime { upperBound }) budgets).1[index]? = some result →
      result.status = .completed →
      result.message =
          text "primes found: " ++ Decimal.ofNat (Nat.primeCounting upperBound.toNat) ∧
        consumed ((BuiltinTask.runSlices (.prime { upperBound }) budgets).1.take (index + 1)) =
          upperBound.toNat - 1 ∧
        ∀ later ∈ (BuiltinTask.runSlices (.prime { upperBound }) budgets).1.drop (index + 1),
          later = .completed result.message 0) ∧
    ∀ (totalSteps : WorkUnits) (delayPerStep : Int64) (index : Nat) (result : SliceResult),
      (BuiltinTask.runSlices (.step { totalSteps, delayPerStep }) budgets).1[index]? =
        some result →
      result.status = .completed →
      result.message = text "steps completed: " ++ Decimal.ofNat totalSteps.toNat ∧
        consumed ((BuiltinTask.runSlices (.step { totalSteps, delayPerStep }) budgets).1.take
          (index + 1)) = totalSteps.toNat ∧
        ∀ later ∈ (BuiltinTask.runSlices (.step { totalSteps, delayPerStep }) budgets).1.drop
          (index + 1), later = .completed result.message 0 := by
  refine ⟨fun task => task.runSlices_within budgets, ?_, ?_⟩
  · intro upperBound index result
    exact PrimeCountTask.runSlices_message
  · intro totalSteps delayPerStep index result
    exact StepTask.runSlices_message

example : (BuiltinTask.runSlices (.prime { upperBound := 10 }) [4, 4, 4, 4]).1 =
    [.yielded 4, .yielded 4, .completed (text "primes found: 4") 1,
      .completed (text "primes found: 4") 0] := by
  decide +kernel

/-! ## Progress -/

namespace BuiltinTask

/-- The prime count does not go up to the largest value. -/
def Bounded : BuiltinTask → Prop
  | .prime task => task.upperBound ≠ unlimitedWork
  | .step _ => True

theorem Bounded.runs {task left : BuiltinTask} {count : Nat} (bounded : Bounded task)
    (runs : Runs advance finished task count left) : Bounded left := by
  rw [runs.eq]
  clear runs
  induction count with
  | zero => exact bounded
  | succ count ih =>
      rw [Function.iterate_succ_apply']
      cases state : advance^[count] task with
      | prime state =>
          rw [state] at ih
          exact ih
      | step state => trivial

/-- The number of turns left does not wrap around. -/
theorem Bounded.remaining_pos {task : BuiltinTask} (bounded : Bounded task)
    (unfinished : finished task = false) : 0 < task.remaining.toNat := by
  cases task with
  | prime task =>
      have inside : task.candidate ≤ task.upperBound := by
        simpa [finished, PrimeCountTask.finished] using unfinished
      have small := toNat_lt_of_ne_unlimitedWork bounded
      rw [remaining, PrimeCountTask.remaining, UInt64.toNat_add, UInt64.toNat_sub_of_le _ _ inside,
        UInt64.toNat_one, Nat.mod_eq_of_lt (by omega)]
      omega
  | step task =>
      have undone : task.completedSteps < task.totalSteps := by
        simpa [finished, StepTask.finished] using unfinished
      have order := UInt64.lt_iff_toNat_lt.mp undone
      rw [remaining, StepTask.remaining, UInt64.toNat_sub_of_le _ _ (UInt64.le_of_lt undone)]
      omega

theorem Bounded.runSlice_progress {task : BuiltinTask} (bounded : Bounded task)
    {budget : WorkUnits} (positive : 0 < budget) :
    (task.runSlice ⟨⟨none⟩, budget⟩).1.status = .completed ∨
      (task.runSlice ⟨⟨none⟩, budget⟩).1.status = .yielded ∧
        0 < (task.runSlice ⟨⟨none⟩, budget⟩).1.workUnitsConsumed := by
  obtain ⟨result, left, ran, _, _, ⟨yields, unfinished, work⟩ | ⟨completes, _⟩⟩ :=
    task.runSlice_spec budget
  · rw [ran]
    refine .inr ⟨yields, UInt64.lt_iff_toNat_lt.mpr ?_⟩
    have given := UInt64.lt_iff_toNat_lt.mp positive
    have turns := bounded.remaining_pos unfinished
    change 0 < result.workUnitsConsumed.toNat
    rw [work]
    exact Nat.lt_min.mpr ⟨given, turns⟩
  · rw [ran]
    exact .inl completes

/-- Without a completion every slice does some work. -/
theorem Bounded.length_le_consumed {task : BuiltinTask} (bounded : Bounded task)
    {budgets : List WorkUnits} (positive : ∀ budget ∈ budgets, 0 < budget) :
    (∃ result ∈ (task.runSlices budgets).1, result.status = .completed) ∨
      budgets.length ≤ consumed (task.runSlices budgets).1 := by
  induction budgets generalizing task with
  | nil => exact .inr (Nat.zero_le _)
  | cons budget budgets ih =>
      rw [List.forall_mem_cons] at positive
      obtain ⟨result, left, ran, runs, _⟩ := task.runSlice_spec budget
      have progress := bounded.runSlice_progress positive.1
      rw [ran] at progress
      rw [runSlices, ran]
      rcases progress with completes | ⟨_, work⟩
      · exact .inl ⟨result, List.mem_cons_self, completes⟩
      · rcases ih (bounded.runs runs) positive.2 with ⟨other, member, completes⟩ | more
        · exact .inl ⟨other, List.mem_cons_of_mem _ member, completes⟩
        · have some : 0 < result.workUnitsConsumed.toNat := UInt64.lt_iff_toNat_lt.mp work
          refine .inr ?_
          change _ ≤ consumed (result :: (left.runSlices budgets).1)
          rw [consumed_cons, List.length_cons]
          omega

end BuiltinTask

/-- What is asked of a task made by the factory, when all slices have a budget: each
one completes or does some work, together they do not exceed the estimate, and one of
any more slices than that completes. -/
structure MakesProgress (created : CreatedTask) : Prop where
  advances : ∀ (budgets : List WorkUnits) (budget : WorkUnits), (∀ given ∈ budgets, 0 < given) →
    0 < budget →
    let result := ((created.task.runSlices budgets).2.runSlice ⟨⟨none⟩, budget⟩).1
    result.status = .completed ∨ result.status = .yielded ∧ 0 < result.workUnitsConsumed
  estimated : ∀ budgets : List WorkUnits, (∀ given ∈ budgets, 0 < given) →
    consumed (created.task.runSlices budgets).1 ≤ created.options.estimatedWorkUnits.toNat
  completes : ∀ budgets : List WorkUnits, (∀ given ∈ budgets, 0 < given) →
    created.options.estimatedWorkUnits.toNat < budgets.length →
    ∃ result ∈ (created.task.runSlices budgets).1, result.status = .completed

/-- A bounded task whose computation is no longer than its estimate. -/
theorem MakesProgress.of_runs {created : CreatedTask} {total : Nat} {final : BuiltinTask}
    (bounded : created.task.Bounded)
    (whole : Runs BuiltinTask.advance BuiltinTask.finished created.task total final)
    (ended : final.finished = true)
    (enough : total ≤ created.options.estimatedWorkUnits.toNat) : MakesProgress created := by
  have estimated : ∀ budgets : List WorkUnits,
      consumed (created.task.runSlices budgets).1 ≤ created.options.estimatedWorkUnits.toNat :=
    fun budgets => Nat.le_trans ((created.task.runSlices_runs budgets).le_of_finished whole ended)
      enough
  refine ⟨fun budgets budget _ positive => ?_, fun budgets _ => estimated budgets,
    fun budgets positive longer => ?_⟩
  · exact (bounded.runs (created.task.runSlices_runs budgets)).runSlice_progress positive
  · have work := estimated budgets
    exact (bounded.length_le_consumed positive).resolve_right (by omega)

namespace PrimeCountTask

/-- The candidate wraps around behind the largest bound. -/
theorem runSlices_largest :
    (BuiltinTask.runSlices (.prime { upperBound := unlimitedWork }) [unlimitedWork]).2 =
      .prime
        { upperBound := unlimitedWork
          candidate := 0
          primeCount := UInt64.ofNat (Nat.primeCounting' (2 ^ 64)) } := by
  obtain ⟨result, left, ran, runs, _, ⟨_, _, work⟩ | ⟨_, ended, _⟩⟩ :=
    BuiltinTask.runSlice_spec (.prime { upperBound := unlimitedWork }) unlimitedWork
  · rw [BuiltinTask.runSlices, ran]
    have turns : result.workUnitsConsumed.toNat = 2 ^ 64 - 2 := by
      rw [work]
      decide
    rw [turns] at runs
    change left = _
    rw [runs.eq, BuiltinTask.iterate_prime, iterate_testCandidate _ (by decide)]
    rfl
  · rw [runs.eq, BuiltinTask.iterate_prime] at ended
    have unfinished := finished_largest (iterate_upperBound { upperBound := unlimitedWork }
      result.workUnitsConsumed.toNat)
    rw [BuiltinTask.finished, unfinished] at ended
    cases ended

theorem runSlice_wrapped {task : PrimeCountTask} (largest : task.upperBound = unlimitedWork)
    (wrapped : task.candidate = 0) (budget : WorkUnits) :
    task.runSlice ⟨⟨none⟩, budget⟩ = (.yielded 0, task) := by
  have within : ¬ task.candidate > task.upperBound := by
    rw [wrapped, largest]
    decide
  have remaining : task.upperBound - task.candidate + 1 = 0 := by
    rw [wrapped, largest]
    decide
  have budgetIs : effectiveBudget budget 0 = 0 := by
    rw [← UInt64.toNat_inj, toNat_effectiveBudget, UInt64.toNat_zero, Nat.min_zero]
  simp only [runSlice, StopToken.stopRequested_none, within, remaining, budgetIs,
    UInt64.toNat_zero, sliceLoop]
  simp

end PrimeCountTask

theorem not_makesProgress_largest {created : CreatedTask}
    (largest : created.task = .prime { upperBound := unlimitedWork }) :
    ¬ MakesProgress created := by
  intro progress
  have next := progress.advances [unlimitedWork] 1 (by decide) (by decide)
  rw [largest, PrimeCountTask.runSlices_largest, BuiltinTask.runSlice,
    PrimeCountTask.runSlice_wrapped rfl rfl] at next
  rcases next with completed | ⟨_, work⟩
  · cases completed
  · exact absurd work (by decide)

/-- The tasks of the factory make progress, but for the prime count up to the
largest value. -/
theorem makesProgress_iff (type : Bytes) (arguments : List Bytes) (priority : Int32)
    (created : CreatedTask)
    (made : TaskFactory.createForSubmission type arguments priority = .ok created) :
    MakesProgress created ↔
      ¬ (type = text "prime" ∧ arguments.map fromCharsUInt64 = [some unlimitedWork]) := by
  rcases TaskFactory.createForSubmission_ok_iff.mp made with
    ⟨_, rfl, rfl, made⟩ | ⟨_, _, rfl, rfl, made⟩
  · obtain ⟨upperBound, parsed, nonzero, rfl⟩ := TaskFactory.makePrime_ok_iff.mp made
    rw [List.map_singleton, parsed]
    constructor
    · rintro progress ⟨-, same⟩
      cases same
      exact not_makesProgress_largest rfl progress
    · intro smaller
      have bounded : upperBound ≠ unlimitedWork := fun same => smaller ⟨rfl, by rw [same]⟩
      obtain ⟨left, whole, ended, _⟩ :=
        PrimeCountTask.runs_count upperBound (toNat_lt_of_ne_unlimitedWork bounded)
      have estimate := TaskFactory.estimate_primeCreated nonzero priority
      exact .of_runs bounded (whole.map BuiltinTask.prime (fun _ => rfl) fun _ => rfl) ended
        (by omega)
  · obtain ⟨steps, delay, _, _, _, _, rfl⟩ := TaskFactory.makeStep_ok_iff.mp made
    obtain ⟨whole, ended⟩ := StepTask.runs_steps steps delay.toInt64
    have apart : text "step" ≠ text "prime" := by decide
    refine iff_of_true ?_ fun same => apart same.1
    exact .of_runs trivial (whole.map BuiltinTask.step (fun _ => rfl) fun _ => rfl) ended
      (Nat.le_refl _)

theorem makesProgress_prime_hundred :
    MakesProgress (TaskFactory.primeCreated 100 7) :=
  (makesProgress_iff (text "prime") [text "100"] 7 _ (by decide +kernel)).mpr (by decide +kernel)

/-- The prime count up to the largest value is accepted, and does not come to an end. -/
theorem largest_prime_stuck :
    TaskFactory.createForSubmission (text "prime") [text "18446744073709551615"] 0 =
        .ok (TaskFactory.primeCreated unlimitedWork 0) ∧
      ¬ MakesProgress (TaskFactory.primeCreated unlimitedWork 0) :=
  ⟨by decide +kernel, not_makesProgress_largest rfl⟩

end Kronos
