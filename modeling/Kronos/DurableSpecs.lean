import Kronos.TaskFactory
import Kronos.Engine.Step
import Kronos.Wal.AppendProperties

/-!
# Durable specifications

The specification that the factory declares for a task is what the task is made
from again after a restart. It spells the numbers of the submission in one way,
whatever way the submission spelt them.
-/

set_option autoImplicit false

namespace Kronos.TaskFactory

theorem comma_not_mem_of_read {field : Bytes} {number : UInt64}
    (read : fromCharsUInt64 field = some number) : comma ∉ field := by
  intro member
  have digits := (fromCharsUInt64_eq_some read).2.1
  have digit := List.all_eq_true.mp digits comma member
  exact absurd digit (by decide)

theorem comma_not_mem_uint64Text (number : UInt64) : comma ∉ uint64Text number :=
  comma_not_mem_of_read (fromCharsUInt64_uint64Text number)

theorem splitPayload_prime (upperBound : UInt64) :
    splitPayload (uint64Text upperBound) = [uint64Text upperBound] :=
  List.splitOn_eq_singleton (comma_not_mem_uint64Text upperBound)

theorem splitPayload_step (steps delay : UInt64) :
    splitPayload (uint64Text steps ++ comma :: uint64Text delay) =
      [uint64Text steps, uint64Text delay] := by
  rw [splitPayload, List.splitOn_append_cons_self_of_not_mem (comma_not_mem_uint64Text steps),
    List.splitOn_eq_singleton (comma_not_mem_uint64Text delay)]

theorem makePrime_printed {upperBound : UInt64} (nonzero : upperBound ≠ 0) (priority : Int32) :
    makePrime (uint64Text upperBound) priority = .ok (primeCreated upperBound priority) :=
  makePrime_ok_iff.mpr ⟨upperBound, fromCharsUInt64_uint64Text upperBound, nonzero, rfl⟩

theorem makeStep_printed {steps delay : UInt64} (nonzero : steps ≠ 0)
    (small : delay ≤ millisecondsMax) (priority : Int32) :
    makeStep (uint64Text steps) (uint64Text delay) priority =
      .ok (stepCreated steps delay priority) :=
  makeStep_ok_iff.mpr ⟨steps, delay, fromCharsUInt64_uint64Text steps, nonzero,
    fromCharsUInt64_uint64Text delay, small, rfl⟩

/-- What a durable specification is to the task it was declared for: the task is
restored from it, its fields submitted again declare it again, and neither the engine
nor the log rejects it. -/
structure Reconstructs (created : CreatedTask) (spec : DurableTaskSpec) : Prop where
  declared : created.options.durableSpec = some spec
  restored : restore spec = .ok created.task
  canonical : ∀ priority, ∃ again,
    createForSubmission spec.type (splitPayload spec.payload) priority = .ok again ∧
      again.options.durableSpec = some spec ∧ again.options.name = created.options.name ∧
      again.options.estimatedWorkUnits = created.options.estimatedWorkUnits
  estimate_ne_zero : created.options.estimatedWorkUnits ≠ 0
  type_ne_nil : spec.type ≠ []

theorem reconstructs_prime {upperBound : UInt64} (nonzero : upperBound ≠ 0) (priority : Int32) :
    Reconstructs (primeCreated upperBound priority) ⟨text "prime", uint64Text upperBound⟩ where
  declared := rfl
  restored := by
    rw [restore, if_pos rfl, makePrime_printed nonzero]
    rfl
  canonical := by
    intro again
    refine ⟨primeCreated upperBound again, ?_, rfl, rfl, rfl⟩
    rw [splitPayload_prime, createForSubmission, if_pos rfl]
    exact makePrime_printed nonzero again
  estimate_ne_zero := primeCreated_estimate_ne_zero nonzero priority
  type_ne_nil := show text "prime" ≠ [] by decide

theorem reconstructs_step {steps delay : UInt64} (nonzero : steps ≠ 0)
    (small : delay ≤ millisecondsMax) (priority : Int32) :
    Reconstructs (stepCreated steps delay priority)
      ⟨text "step", uint64Text steps ++ comma :: uint64Text delay⟩ where
  declared := rfl
  restored := by
    have apart : text "step" ≠ text "prime" := by decide
    rw [restore, if_neg apart, if_pos rfl, splitPayload_step]
    change (makeStep _ _ 0).map CreatedTask.task = _
    rw [makeStep_printed nonzero small]
    rfl
  canonical := by
    intro again
    have apart : text "step" ≠ text "prime" := by decide
    refine ⟨stepCreated steps delay again, ?_, rfl, rfl, rfl⟩
    rw [splitPayload_step, createForSubmission, if_neg apart, if_pos rfl]
    exact makeStep_printed nonzero small again
  estimate_ne_zero := nonzero
  type_ne_nil := show text "step" ≠ [] by decide

theorem exists_reconstructs {type : Bytes} {arguments : List Bytes} {priority : Int32}
    {created : CreatedTask} (made : createForSubmission type arguments priority = .ok created) :
    ∃ spec, Reconstructs created spec := by
  rcases createForSubmission_ok_iff.mp made with ⟨_, _, _, made⟩ | ⟨_, _, _, _, made⟩
  · obtain ⟨upperBound, _, nonzero, rfl⟩ := makePrime_ok_iff.mp made
    exact ⟨_, reconstructs_prime nonzero priority⟩
  · obtain ⟨steps, delay, _, nonzero, _, small, rfl⟩ := makeStep_ok_iff.mp made
    exact ⟨_, reconstructs_step nonzero small priority⟩

/-! ## Submitting a created task -/

/-- The engine gets to its counters. -/
theorem Reconstructs.beginSubmit_eq {Task : Type} {created : CreatedTask} {spec : DurableTaskSpec}
    (reconstructs : Reconstructs created spec) {shared : Engine.Shared Task}
    (accepting : shared.accepting = true) (task : Task) :
    Engine.beginSubmit shared (some task) created.options = .drawId := by
  simp [Engine.beginSubmit, reconstructs.estimate_ne_zero, accepting]

/-- The engine hands the submission to its log. -/
theorem Reconstructs.journalSubmission_eq {Task : Type} {created : CreatedTask}
    {spec : DurableTaskSpec} (reconstructs : Reconstructs created spec)
    (env : Engine.Environment) (shared : Engine.Shared Task) {draft : Engine.Draft}
    (appends : env.appendError draft.id = none) :
    (Engine.journalSubmission env shared created.options draft).2 = .registerSubmission draft := by
  unfold Engine.journalSubmission
  cases shared.registry.journal with
  | none => rfl
  | some journal => simp [reconstructs.declared, reconstructs.type_ne_nil, appends]

/-- The log gets to its write. -/
theorem Reconstructs.accepted {created : CreatedTask} {spec : DurableTaskSpec}
    (reconstructs : Reconstructs created spec) {draft : Engine.Draft} (drawn : draft.id ≠ 0) :
    Wal.Accepted (.submission (Engine.submissionRecord created.options spec draft)) :=
  ⟨drawn, reconstructs.estimate_ne_zero, reconstructs.type_ne_nil⟩

/-! ## What is restored -/

private theorem exists_of_map {made : Except Bytes CreatedTask} {task : BuiltinTask}
    (restored : made.map CreatedTask.task = .ok task) :
    ∃ created, made = .ok created ∧ created.task = task := by
  cases made with
  | error what => cases restored
  | ok created =>
      cases restored
      exact ⟨created, rfl, rfl⟩

/-- What is restored, by the numbers that are read. -/
theorem restore_ok_iff {spec : DurableTaskSpec} {task : BuiltinTask} :
    restore spec = .ok task ↔
      (spec.type = text "prime" ∧
          ∃ created, makePrime spec.payload 0 = .ok created ∧ created.task = task) ∨
        ∃ stepsText delayText, spec.type = text "step" ∧
          splitPayload spec.payload = [stepsText, delayText] ∧
          ∃ created, makeStep stepsText delayText 0 = .ok created ∧ created.task = task := by
  have apart : text "step" ≠ text "prime" := by decide
  constructor
  · intro restored
    unfold restore at restored
    split at restored
    · next isPrime =>
        exact .inl ⟨isPrime, exists_of_map restored⟩
    · split at restored
      · next isStep =>
          split at restored
          · next fields => exact .inr ⟨_, _, isStep, fields, exists_of_map restored⟩
          · cases restored
      · cases restored
  · rintro (⟨isPrime, created, made, rfl⟩ | ⟨stepsText, delayText, isStep, fields, created, made, rfl⟩)
    · rw [restore, if_pos isPrime, made]
      rfl
    · rw [restore, isStep, if_neg apart, if_pos rfl, fields]
      change (makeStep _ _ 0).map CreatedTask.task = _
      rw [made]
      rfl

theorem eq_of_splitPayload {payload field : Bytes} (only : splitPayload payload = [field]) :
    payload = field := by
  have joined : [comma].intercalate (payload.splitOn comma) = payload :=
    List.intercalate_splitOn comma
  rw [← splitPayload, only] at joined
  simpa using joined.symm

/-- What can be restored is what can be submitted, with the fields as arguments. -/
theorem restores_iff (spec : DurableTaskSpec) (priority : Int32) :
    (∃ task, restore spec = .ok task) ↔
      ∃ created, createForSubmission spec.type (splitPayload spec.payload) priority =
        .ok created := by
  constructor
  · rintro ⟨task, restored⟩
    rcases restore_ok_iff.mp restored with
      ⟨isPrime, _, made, _⟩ | ⟨_, _, isStep, fields, _, made, _⟩
    · obtain ⟨upperBound, read, nonzero, _⟩ := makePrime_ok_iff.mp made
      have single := List.splitOn_eq_singleton (comma_not_mem_of_read read)
      exact ⟨_, createForSubmission_ok_iff.mpr
        (.inl ⟨_, isPrime, single, makePrime_ok_iff.mpr ⟨_, read, nonzero, rfl⟩⟩)⟩
    · obtain ⟨steps, delay, read, nonzero, readDelay, small, _⟩ := makeStep_ok_iff.mp made
      exact ⟨_, createForSubmission_ok_iff.mpr (.inr ⟨_, _, isStep, fields,
        makeStep_ok_iff.mpr ⟨_, _, read, nonzero, readDelay, small, rfl⟩⟩)⟩
  · rintro ⟨created, submitted⟩
    rcases createForSubmission_ok_iff.mp submitted with
      ⟨_, isPrime, single, made⟩ | ⟨_, _, isStep, fields, made⟩
    · obtain ⟨upperBound, read, nonzero, _⟩ := makePrime_ok_iff.mp made
      rw [← eq_of_splitPayload single] at read
      exact ⟨_, restore_ok_iff.mpr
        (.inl ⟨isPrime, _, makePrime_ok_iff.mpr ⟨_, read, nonzero, rfl⟩, rfl⟩)⟩
    · obtain ⟨steps, delay, read, nonzero, readDelay, small, _⟩ := makeStep_ok_iff.mp made
      exact ⟨_, restore_ok_iff.mpr (.inr ⟨_, _, isStep, fields, _,
        makeStep_ok_iff.mpr ⟨_, _, read, nonzero, readDelay, small, rfl⟩, rfl⟩)⟩

/-- Durable specifications reconstruct the tasks they are declared for. -/
theorem durable_spec_reconstructs :
    (∀ (type : Bytes) (arguments : List Bytes) (priority : Int32) (created : CreatedTask),
      createForSubmission type arguments priority = .ok created →
      ∃ spec, Reconstructs created spec ∧
        (∀ shared : Engine.Shared BuiltinTask, shared.accepting = true →
          Engine.beginSubmit shared (some created.task) created.options = .drawId) ∧
        (∀ (env : Engine.Environment) (shared : Engine.Shared BuiltinTask) (draft : Engine.Draft),
          env.appendError draft.id = none →
          (Engine.journalSubmission env shared created.options draft).2 =
            .registerSubmission draft) ∧
        ∀ (draft : Engine.Draft) (timestamp : Int64) (answers : Wal.AppendAnswers) (file : Bytes),
          draft.id ≠ 0 →
          let call : Wal.AppendCall :=
            ⟨timestamp, .submission (Engine.submissionRecord created.options spec draft), answers⟩
          call.perform file = Wal.append answers call.line file) ∧
    ∀ (spec : DurableTaskSpec) (priority : Int32),
      spec.type = text "prime" ∨ spec.type = text "step" →
      ((∃ task, restore spec = .ok task) ↔
        ∃ created, createForSubmission spec.type (splitPayload spec.payload) priority =
          .ok created) := by
  refine ⟨?_, fun spec priority _ => restores_iff spec priority⟩
  intro type arguments priority created made
  obtain ⟨spec, reconstructs⟩ := exists_reconstructs made
  refine ⟨spec, reconstructs, ?_, ?_, ?_⟩
  · intro shared accepting
    exact reconstructs.beginSubmit_eq accepting created.task
  · intro env shared draft appends
    exact reconstructs.journalSubmission_eq env shared appends
  · intro draft timestamp answers file drawn
    exact (Wal.perform_eq _ file).1 (reconstructs.accepted drawn)

example : (createForSubmission (text "step") [text "007", text "00"] 3).map
      (fun created => (created.options.durableSpec, created.options.estimatedWorkUnits)) =
    .ok (some ⟨text "step", text "7,0"⟩, 7) := by
  decide +kernel

end Kronos.TaskFactory
