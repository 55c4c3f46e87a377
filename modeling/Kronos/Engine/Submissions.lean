import Kronos.Engine.Growth
import Kronos.Engine.Stages

/-!
# Submissions and their records

What a submission has journaled stays in the journal, so that a handle that was
returned can be traced back to the submission of its job. The journal holds at
least as many submissions of an id as there are calls that were given the id.
-/

set_option autoImplicit false

namespace Kronos.Engine

open Threads

variable {Task : Type}

/-- The id under which a submission in this stage has been journaled. -/
def Stage.given? : Stage → Option JobId
  | .registerSubmission draft => some draft.id
  | .push entry _ => some entry.id
  | .raced entry _ => some entry.id
  | .returnedHandle id _ => some id
  | _ => none

def Call.given? (call : Call Task) : Option JobId :=
  if call.request.submits then call.stage.given? else none

def Call.gives (id : JobId) (call : Call Task) : Nat := if call.given? = some id then 1 else 0

/-- The submission of a job with the given handle is in the log. -/
def Held (heap : List (JobRecord Task)) (log : List JournalRecord) (options : SubmissionOptions)
    (id : JobId) (ref : RecordRef) : Prop :=
  ∃ record spec, heap[ref]? = some record ∧ options.durableSpec = some spec ∧
    ⟨id, record.snapshot.submissionSequence, submittedName options, options.priority,
      options.estimatedWorkUnits, spec⟩ ∈ submissions log

/-- What the log holds of the job of a submission. -/
def Call.Recorded (heap : List (JobRecord Task)) (log : List JournalRecord) (call : Call Task) :
    Prop :=
  ∀ task options, call.request = .submit task options →
    match call.stage with
    | .registerSubmission draft =>
        ∃ spec, options.durableSpec = some spec ∧
          submissionRecord options spec draft ∈ submissions log
    | .push entry ref => Held heap log options entry.id ref
    | .raced entry ref => Held heap log options entry.id ref
    | .returnedHandle id ref => Held heap log options id ref
    | _ => True

theorem Held.mono {heap later : List (JobRecord Task)} {log extended : List JournalRecord}
    {options : SubmissionOptions} {id : JobId} {ref : RecordRef} {env : Environment}
    {units : RecordRef → WorkUnits} (held : Held heap log options id ref)
    (evolves : HeapEvolves env units heap later)
    (grows : ∀ submission ∈ submissions log, submission ∈ submissions extended) :
    Held later extended options id ref := by
  obtain ⟨record, spec, read, durable, submitted⟩ := held
  obtain ⟨after, readAfter, evolved⟩ := evolves ref record read
  refine ⟨after, spec, readAfter, durable, grows _ ?_⟩
  rwa [evolved.sameIdentity.sequence]

theorem Call.Recorded.mono {heap later : List (JobRecord Task)} {log extended : List JournalRecord}
    {call : Call Task} {env : Environment} {units : RecordRef → WorkUnits}
    (recorded : call.Recorded heap log) (evolves : HeapEvolves env units heap later)
    (grows : ∀ submission ∈ submissions log, submission ∈ submissions extended) :
    call.Recorded later extended := by
  obtain ⟨request, stage⟩ := call
  intro task options is
  have before := recorded task options is
  cases stage with
  | registerSubmission draft =>
      obtain ⟨spec, durable, submitted⟩ := before
      exact ⟨spec, durable, grows _ submitted⟩
  | push entry ref => exact Held.mono before evolves grows
  | raced entry ref => exact Held.mono before evolves grows
  | returnedHandle id ref => exact Held.mono before evolves grows
  | _ => trivial

section Steps

variable {engine : State Task} {log added : List JournalRecord}

theorem recorded_move {env : Environment} {done : Bool} {shared : Shared Task}
    {request : Request Task} {stage moved : Stage}
    (recorded : Call.Recorded engine.registry.heap log (⟨request, stage⟩ : Call Task))
    (journaled : engine.registry.journal = some log)
    (move : CallTransition env done request engine.shared stage shared moved)
    (said : shared.registry.journal = some (log ++ added)) (sound : Sound engine) :
    Call.Recorded shared.registry.heap (log ++ added) (⟨request, moved⟩ : Call Task) := by
  have evolves := heapEvolves_call sound move
  have grows : ∀ submission ∈ submissions log, submission ∈ submissions (log ++ added) := by
    intro submission member
    rw [submissions_append]
    exact List.mem_append_left _ member
  intro task options is
  cases move with
  | unjournaledSubmission unjournaled =>
      rw [show engine.shared.registry.journal = some log from journaled] at unjournaled
      cases unjournaled
  | @journalSubmission draft other options' spec written same hadLog durable typed appended =>
      rw [show engine.shared.registry.journal = some log from journaled] at hadLog
      cases hadLog
      change request = .submit task options at is
      rw [same] at is
      cases is
      refine ⟨spec, durable, ?_⟩
      rw [← Option.some.inj said, submissions_append]
      exact List.mem_append_right _ (by simp)
  | @registerSubmission draft made options' same room =>
      obtain ⟨spec, durable, submitted⟩ := recorded task options is
      change request = .submit task options at is
      rw [same] at is
      cases is
      refine ⟨submittedRecord made options draft, spec, ?_, durable, grows _ submitted⟩
      change (Registry.emplace _ _ _).heap[_]? = _
      rw [Registry.heap_emplace]
      exact List.getElem?_concat_length
  | advanceSequenceRestored recovered advanced =>
      change request = .submit task options at is
      rw [is] at recovered
      cases recovered
  | push accepted => exact Held.mono (recorded task options is) evolves grows
  | refuse refused => exact Held.mono (recorded task options is) evolves grows
  | raced read => exact Held.mono (recorded task options is) evolves grows
  | _ => trivial

theorem recorded_step [ITask Task] {next : State Task} {action : Action Task}
    (sound : Sound engine) (journaled : engine.registry.journal = some log)
    (recorded : ∀ call ∈ engine.calls, call.Recorded engine.registry.heap log)
    (stepped : engine.step action = some next)
    (said : next.registry.journal = some (log ++ added)) :
    ∀ call ∈ next.calls, call.Recorded next.registry.heap (log ++ added) := by
  obtain ⟨units, evolves⟩ := heapEvolves_step sound stepped
  have grows : ∀ submission ∈ submissions log, submission ∈ submissions (log ++ added) := by
    intro submission member
    rw [submissions_append]
    exact List.mem_append_left _ member
  have kept : ∀ call ∈ engine.calls, call.Recorded next.registry.heap (log ++ added) :=
    fun call member => (recorded call member).mono evolves grows
  cases transition_of_step stepped with
  | invoke request =>
      refine forall_mem_concat kept ?_
      intro task options is
      trivial
  | worker found move => exact kept
  | @call index env call stage shared found move =>
      refine forall_mem_set kept ?_
      exact recorded_move (recorded call (List.mem_of_getElem? found)) journaled move said sound

/-- A call is given an id by journaling its submission. -/
theorem gives_move {env : Environment} {done : Bool} {shared : Shared Task} {index : Nat}
    {request : Request Task} {stage moved : Stage}
    (found : engine.calls[index]? = some ⟨request, stage⟩)
    (journaled : engine.registry.journal = some log)
    (move : CallTransition env done request engine.shared stage shared moved)
    (said : shared.registry.journal = some (log ++ added)) (id : JobId) :
    total (Call.gives id) (engine.calls.set index ⟨request, moved⟩) +
        (submittedIds log).count id ≤
      total (Call.gives id) engine.calls + (submittedIds (log ++ added)).count id := by
  have counted := total_set (Call.gives id) found ⟨request, moved⟩
  have longer : (submittedIds log).count id ≤ (submittedIds (log ++ added)).count id := by
    rw [submittedIds_append, List.count_append]
    omega
  have fewer : moved.given? = none ∨ moved.given? = stage.given? →
      total (Call.gives id) (engine.calls.set index ⟨request, moved⟩) ≤
        total (Call.gives id) engine.calls := by
    intro kept
    have bound : Call.gives id (⟨request, moved⟩ : Call Task) ≤ Call.gives id ⟨request, stage⟩ := by
      rcases kept with none | same
      · simp [Call.gives, Call.given?, none]
      · simp [Call.gives, Call.given?, same]
    omega
  have quiet : moved.given? = none ∨ moved.given? = stage.given? →
      total (Call.gives id) (engine.calls.set index ⟨request, moved⟩) +
          (submittedIds log).count id ≤
        total (Call.gives id) engine.calls + (submittedIds (log ++ added)).count id :=
    fun kept => Nat.add_le_add (fewer kept) longer
  cases move with
  | unjournaledSubmission unjournaled =>
      rw [show engine.shared.registry.journal = some log from journaled] at unjournaled
      cases unjournaled
  | @journalSubmission draft other options' spec written same hadLog durable typed appended =>
      rw [show engine.shared.registry.journal = some log from journaled] at hadLog
      cases hadLog
      rw [← Option.some.inj said, submittedIds_append, List.count_append]
      have none : Call.gives id (⟨request, .journalSubmission draft⟩ : Call Task) = 0 := by
        simp [Call.gives, Call.given?, Stage.given?]
      have one : Call.gives id (⟨request, .registerSubmission draft⟩ : Call Task) ≤
          [draft.id].count id := by
        by_cases is : draft.id = id
        · rw [is]
          simp only [List.count_singleton_self]
          unfold Call.gives
          split <;> omega
        · simp [Call.gives, Call.given?, Stage.given?, is]
      change _ ≤ _ + (_ + [draft.id].count id)
      omega
  | @advanceSequenceRestored submission ref current counter recovered advanced =>
      have unsubmitted : request.submits = false := by
        cases request with
        | submit task options => cases recovered
        | _ => rfl
      have zero : Call.gives id (⟨request, .push (recoveredEntry submission) ref⟩ : Call Task) = 0 := by
        simp [Call.gives, Call.given?, unsubmitted]
      omega
  | registerSubmission is room => exact quiet (.inr rfl)
  | push accepted => exact quiet (.inr rfl)
  | refuse refused => exact quiet (.inr rfl)
  | raced read => exact quiet (.inr rfl)
  | _ => exact quiet (.inl rfl)

theorem gives_step [ITask Task] {next : State Task} {action : Action Task}
    (journaled : engine.registry.journal = some log) (stepped : engine.step action = some next)
    (said : next.registry.journal = some (log ++ added)) (id : JobId) :
    total (Call.gives id) next.calls + (submittedIds log).count id ≤
      total (Call.gives id) engine.calls + (submittedIds (log ++ added)).count id := by
  have longer : (submittedIds log).count id ≤ (submittedIds (log ++ added)).count id := by
    rw [submittedIds_append, List.count_append]
    omega
  cases transition_of_step stepped with
  | invoke request =>
      have none : Call.gives id (⟨request, .entered⟩ : Call Task) = 0 := by
        simp [Call.gives, Call.given?, Stage.given?]
      simp only [total_append, total_cons, total_nil, none]
      omega
  | worker found move => exact Nat.add_le_add_left longer _
  | call found move => exact gives_move found journaled move said id

end Steps

end Kronos.Engine
