import Kronos.Engine.Step

/-!
# The transitions of the engine

The steps once more as relations with one constructor for each way a step can
go. Invariants are proved by cases on these relations.
-/

set_option autoImplicit false

namespace Kronos.Engine

variable {Task : Type}

inductive WorkerTransition [ITask Task] (env : Environment) :
    Shared Task → Worker → Shared Task → Worker → Prop
  | exit {shared : Shared Task} (popped : shared.queue.pop = .finished) :
      WorkerTransition env shared .waiting shared .exited
  | pop {shared : Shared Task} {dispatch : Dispatch} {rest : TaskQueue}
      (popped : shared.queue.pop = .dispatch dispatch rest) :
      WorkerTransition env shared .waiting { shared with queue := rest } (.dispatched dispatch)
  | miss {shared : Shared Task} {dispatch : Dispatch}
      (missing : shared.registry.find dispatch.entry.id = none) :
      WorkerTransition env shared (.dispatched dispatch) shared .waiting
  | resolve {shared : Shared Task} {dispatch : Dispatch} {ref : RecordRef}
      (found : shared.registry.find dispatch.entry.id = some ref) :
      WorkerTransition env shared (.dispatched dispatch) shared (.resolved dispatch ref)
  | dispatch {shared : Shared Task} {dispatch : Dispatch} {ref : RecordRef} {locked : Locked Task}
      (read : shared.registry.locked ref = some locked) :
      WorkerTransition env shared (.resolved dispatch ref)
        { shared with registry := shared.registry.store ref (dispatchLocked env locked).2 }
        (if (dispatchLocked env locked).1 then .slicing dispatch ref else .waiting)
  | slice {shared : Shared Task} {dispatch : Dispatch} {ref : RecordRef} {record : JobRecord Task}
      {outcome : SliceOutcome} {task : Task}
      (read : shared.registry.heap[ref]? = some record)
      (observed : env.cancellation.seenFrom.isSome → record.stopRequested = true)
      (ran : ITask.runSlice record.task ⟨env.cancellation, dispatch.budget⟩ = (outcome, task)) :
      WorkerTransition env shared (.slicing dispatch ref)
        { shared with
          registry := { shared.registry with
            heap := shared.registry.heap.set ref { record with task } }
          slices := shared.slices ++ [(ref, outcome.result)] }
        (.sliced dispatch ref outcome.result)
  | record {shared : Shared Task} {dispatch : Dispatch} {ref : RecordRef} {result : SliceResult}
      {locked : Locked Task} (read : shared.registry.locked ref = some locked) :
      WorkerTransition env shared (.sliced dispatch ref result)
        { shared with
          registry := shared.registry.store ref (recordSliceLocked env result locked).2 }
        (if (recordSliceLocked env result locked).1 then .requeueing locked.record.entry
          else .waiting)
  | requeue {shared : Shared Task} {entry : SchedulerEntry} :
      WorkerTransition env shared (.requeueing entry)
        { shared with queue := shared.queue.requeue entry } .waiting

theorem workerTransition_of_step [ITask Task] {env : Environment} {shared next : Shared Task}
    {worker moved : Worker} (stepped : workerStep env shared worker = some (next, moved)) :
    WorkerTransition env shared worker next moved := by
  cases worker with
  | waiting =>
      simp only [workerStep] at stepped
      split at stepped
      · cases stepped
      · next popped => cases stepped; exact .exit popped
      · next popped => cases stepped; exact .pop popped
  | dispatched dispatch =>
      simp only [workerStep] at stepped
      split at stepped
      · next missing => cases stepped; exact .miss missing
      · next found => cases stepped; exact .resolve found
  | resolved dispatch ref =>
      simp only [workerStep] at stepped
      split at stepped
      · cases stepped
      · next read => cases stepped; exact .dispatch read
  | slicing dispatch ref =>
      simp only [workerStep] at stepped
      split at stepped
      · cases stepped
      · next read =>
          split at stepped
          · cases stepped
          · next observed =>
              cases stepped
              refine .slice read ?_ rfl
              intro seen
              by_contra unstopped
              exact observed ⟨seen, by simpa using unstopped⟩
  | sliced dispatch ref result =>
      simp only [workerStep] at stepped
      split at stepped
      · cases stepped
      · next read => cases stepped; exact .record read
  | requeueing entry =>
      cases stepped
      exact .requeue
  | exited => cases stepped

/-- Stages in which a call may still throw. -/
def Stage.Early : Stage → Prop
  | .entered | .journalSubmission _ | .registerSubmission _ | .journalRestore _
  | .registerRestore _ | .swapScheduler => True
  | _ => False

inductive CallTransition (env : Environment) (done : Bool) (request : Request Task) :
    Shared Task → Stage → Shared Task → Stage → Prop
  | reject {shared : Shared Task} {stage : Stage} (what : Bytes) (early : stage.Early) :
      CallTransition env done request shared stage shared (.threw what)
  | beginSubmit {shared : Shared Task} {task : Task} {options : SubmissionOptions}
      (is : request = .submit (some task) options) (accepting : shared.accepting = true) :
      CallTransition env done request shared .entered shared .drawId
  | drawId {shared : Shared Task} :
      CallTransition env done request shared .drawId
        { shared with nextJobId := shared.nextJobId + 1 } (.drawSequence shared.nextJobId)
  | drawSequence {shared : Shared Task} {id : JobId} :
      CallTransition env done request shared (.drawSequence id)
        { shared with nextSequence := shared.nextSequence + 1 }
        (.journalSubmission ⟨id, shared.nextSequence, env.now id⟩)
  | unjournaledSubmission {shared : Shared Task} {draft : Draft}
      (unjournaled : shared.registry.journal = none) :
      CallTransition env done request shared (.journalSubmission draft) shared
        (.registerSubmission draft)
  | journalSubmission {shared : Shared Task} {draft : Draft} {task : Option Task}
      {options : SubmissionOptions} {spec : DurableTaskSpec} {log : List JournalRecord}
      (is : request = .submit task options) (journaled : shared.registry.journal = some log)
      (durable : options.durableSpec = some spec) (typed : spec.type ≠ [])
      (appended : env.appendError draft.id = none) :
      CallTransition env done request shared (.journalSubmission draft)
        { shared with
          registry := { shared.registry with
            journal := some (log ++ [.submission (submissionRecord options spec draft)]) } }
        (.registerSubmission draft)
  | registerSubmission {shared : Shared Task} {draft : Draft} {task : Task}
      {options : SubmissionOptions} (is : request = .submit (some task) options)
      (room : shared.registry.records.length < Registry.limit) :
      CallTransition env done request shared (.registerSubmission draft)
        { shared with
          registry := (shared.registry.make (submittedRecord task options draft)).emplace
            draft.id shared.registry.heap.length }
        (.push (submittedEntry options draft) shared.registry.heap.length)
  | beginRestore {shared : Shared Task} {task : Task} {submission : JobSubmissionRecord}
      (is : request = .restore (some task) submission) (accepting : shared.accepting = true)
      (valid : submission.id ≠ 0 ∧ submission.estimatedWorkUnits ≠ 0 ∧ submission.task.type ≠ []) :
      CallTransition env done request shared .entered shared
        (.journalRestore (env.now submission.id))
  | unjournaledRestore {shared : Shared Task} {submittedAt : TimePoint}
      (unjournaled : shared.registry.journal = none) :
      CallTransition env done request shared (.journalRestore submittedAt) shared
        (.registerRestore submittedAt)
  | journalRestore {shared : Shared Task} {submittedAt : TimePoint} {task : Option Task}
      {submission : JobSubmissionRecord} {log : List JournalRecord}
      (is : request = .restore task submission) (journaled : shared.registry.journal = some log)
      (appended : env.appendError submission.id = none) :
      CallTransition env done request shared (.journalRestore submittedAt)
        { shared with
          registry := { shared.registry with
            journal := some (log ++ [.transition ⟨submission.id, .ready, 0, recoveredMessage⟩]) } }
        (.registerRestore submittedAt)
  | registerRestore {shared : Shared Task} {submittedAt : TimePoint} {task : Task}
      {submission : JobSubmissionRecord} (is : request = .restore (some task) submission)
      (fresh : shared.registry.find submission.id = none) :
      CallTransition env done request shared (.registerRestore submittedAt)
        { shared with
          registry := (shared.registry.make (restoredRecord task submission submittedAt)).emplace
            submission.id shared.registry.heap.length }
        (.advanceJobId (some shared.registry.heap.length) none)
  | beginReserve {shared : Shared Task} {submission : JobSubmissionRecord}
      (is : request = .reserveRecoveredIdentity submission) (nonzero : submission.id ≠ 0) :
      CallTransition env done request shared .entered shared (.advanceJobId none none)
  | advanceJobIdAgain {shared : Shared Task} {submission : JobSubmissionRecord}
      {restored : Option RecordRef} {current : Option UInt64} {counter again : UInt64}
      (recovered : request.recovered? = some submission)
      (advanced : advanceCounter env.spurious shared.nextJobId (submission.id + 1) current =
        (counter, some again)) :
      CallTransition env done request shared (.advanceJobId restored current)
        { shared with nextJobId := counter } (.advanceJobId restored (some again))
  | advanceJobId {shared : Shared Task} {submission : JobSubmissionRecord}
      {restored : Option RecordRef} {current : Option UInt64} {counter : UInt64}
      (recovered : request.recovered? = some submission)
      (advanced : advanceCounter env.spurious shared.nextJobId (submission.id + 1) current =
        (counter, none)) :
      CallTransition env done request shared (.advanceJobId restored current)
        { shared with nextJobId := counter } (.advanceSequence restored none)
  | advanceSequenceAgain {shared : Shared Task} {submission : JobSubmissionRecord}
      {restored : Option RecordRef} {current : Option UInt64} {counter again : UInt64}
      (recovered : request.recovered? = some submission)
      (advanced : advanceCounter env.spurious shared.nextSequence
        (submission.submissionSequence + 1) current = (counter, some again)) :
      CallTransition env done request shared (.advanceSequence restored current)
        { shared with nextSequence := counter } (.advanceSequence restored (some again))
  | advanceSequenceRestored {shared : Shared Task} {submission : JobSubmissionRecord}
      {ref : RecordRef} {current : Option UInt64} {counter : UInt64}
      (recovered : request.recovered? = some submission)
      (advanced : advanceCounter env.spurious shared.nextSequence
        (submission.submissionSequence + 1) current = (counter, none)) :
      CallTransition env done request shared (.advanceSequence (some ref) current)
        { shared with nextSequence := counter } (.push (recoveredEntry submission) ref)
  | advanceSequenceReserved {shared : Shared Task} {submission : JobSubmissionRecord}
      {current : Option UInt64} {counter : UInt64}
      (recovered : request.recovered? = some submission)
      (advanced : advanceCounter env.spurious shared.nextSequence
        (submission.submissionSequence + 1) current = (counter, none)) :
      CallTransition env done request shared (.advanceSequence none current)
        { shared with nextSequence := counter } .returned
  | push {shared : Shared Task} {entry : SchedulerEntry} {ref : RecordRef} {queue : TaskQueue}
      (accepted : shared.queue.pushExternal entry = some queue) :
      CallTransition env done request shared (.push entry ref) { shared with queue }
        (.returnedHandle entry.id ref)
  | refuse {shared : Shared Task} {entry : SchedulerEntry} {ref : RecordRef}
      (refused : shared.queue.pushExternal entry = none) :
      CallTransition env done request shared (.push entry ref) shared (.raced entry ref)
  | raced {shared : Shared Task} {entry : SchedulerEntry} {ref : RecordRef} {locked : Locked Task}
      (read : shared.registry.locked ref = some locked) :
      CallTransition env done request shared (.raced entry ref)
        { shared with
          registry := shared.registry.store ref
            (finishLocked env locked .cancelled (racedMessage request)) }
        (.returnedHandle entry.id ref)
  | cancelMissing {shared : Shared Task} {id : JobId} (is : request = .cancel id)
      (missing : shared.registry.find id = none) :
      CallTransition env done request shared .entered shared (.returnedBool false)
  | cancelFound {shared : Shared Task} {id : JobId} {ref : RecordRef} (is : request = .cancel id)
      (found : shared.registry.find id = some ref) :
      CallTransition env done request shared .entered shared (.cancelFound ref)
  | cancel {shared : Shared Task} {ref : RecordRef} {locked : Locked Task}
      (read : shared.registry.locked ref = some locked) :
      CallTransition env done request shared (.cancelFound ref)
        { shared with registry := shared.registry.store ref (cancelLocked env locked).2 }
        (.returnedBool (cancelLocked env locked).1)
  | beginSetScheduler {shared : Shared Task} {config : SchedulerConfig}
      (is : request = .setScheduler config) :
      CallTransition env done request shared .entered shared .swapScheduler
  | swapScheduler {shared : Shared Task} {config : SchedulerConfig} {queue : TaskQueue}
      (is : request = .setScheduler config)
      (swapped : shared.queue.setScheduler config = .ok queue) :
      CallTransition env done request shared .swapScheduler { shared with queue } .returned
  | shutdownAgain {shared : Shared Task} {mode : ShutdownMode} (is : request = .shutdown mode)
      (free : shared.shutdownHeld = false) (joined : shared.joined = true) :
      CallTransition env done request shared .entered shared .returned
  | beginShutdown {shared : Shared Task} {mode : ShutdownMode} (is : request = .shutdown mode)
      (free : shared.shutdownHeld = false) (first : shared.joined = false) :
      CallTransition env done request shared .entered { shared with shutdownHeld := true }
        .stopAccepting
  | stopAccepting {shared : Shared Task} :
      CallTransition env done request shared .stopAccepting { shared with accepting := false }
        .close
  | closeDrain {shared : Shared Task} (is : request = .shutdown .drain) :
      CallTransition env done request shared .close
        { shared with queue := (shared.queue.closeAndDrainPending false).2 } .join
  | closeCancel {shared : Shared Task} (is : request = .shutdown .cancelPending) :
      CallTransition env done request shared .close
        { shared with queue := (shared.queue.closeAndDrainPending true).2 }
        (.cancelPending (shared.queue.closeAndDrainPending true).1)
  | cancelPending {shared : Shared Task} {pending : List SchedulerEntry} :
      CallTransition env done request shared (.cancelPending pending)
        { shared with registry := cancelPendingLocked env shared.registry pending } .join
  | join {shared : Shared Task} (finished : done = true) :
      CallTransition env done request shared .join
        { shared with joined := true, shutdownHeld := false } .returned

section Inversion

variable {env : Environment} {done : Bool} {request : Request Task} {shared next : Shared Task}
  {moved : Stage}

attribute [local simp] callStep

private theorem transition_of_entered
    (stepped : callStep env shared done request .entered = some (next, moved)) :
    CallTransition env done request shared .entered next moved := by
  cases request with
  | submit task options =>
      cases stepped
      unfold beginSubmit
      split
      · exact .reject _ trivial
      · next some =>
          split
          · exact .reject _ trivial
          · split
            · exact .reject _ trivial
            · next accepting =>
                obtain ⟨task, rfl⟩ := Option.ne_none_iff_exists'.mp (by simpa using some)
                exact .beginSubmit rfl (by simpa using accepting)
  | restore task submission =>
      cases stepped
      unfold beginRestore
      split
      · exact .reject _ trivial
      · next some =>
          split
          · exact .reject _ trivial
          · next valid =>
              split
              · exact .reject _ trivial
              · next accepting =>
                  obtain ⟨task, rfl⟩ := Option.ne_none_iff_exists'.mp (by simpa using some)
                  rw [not_or, not_or] at valid
                  exact .beginRestore rfl (by simpa using accepting) valid
  | reserveRecoveredIdentity submission =>
      cases stepped
      split
      · exact .reject _ trivial
      · next nonzero => exact .beginReserve rfl nonzero
  | cancel id =>
      simp only [callStep] at stepped
      split at stepped
      · next missing => cases stepped; exact .cancelMissing rfl missing
      · next found => cases stepped; exact .cancelFound rfl found
  | setScheduler config =>
      cases stepped
      split
      · exact .reject _ trivial
      · exact .beginSetScheduler rfl
  | shutdown mode =>
      simp only [callStep] at stepped
      split at stepped
      · cases stepped
      · next free =>
          split at stepped
          · next joined => cases stepped; exact .shutdownAgain rfl (by simpa using free) joined
          · next first =>
              cases stepped
              exact .beginShutdown rfl (by simpa using free) (by simpa using first)

private theorem transition_of_journalSubmission {draft : Draft}
    (stepped : callStep env shared done request (.journalSubmission draft) = some (next, moved)) :
    CallTransition env done request shared (.journalSubmission draft) next moved := by
  cases request with
  | submit task options =>
      simp only [callStep, Option.some.injEq] at stepped
      unfold journalSubmission at stepped
      split at stepped
      · next unjournaled => cases stepped; exact .unjournaledSubmission unjournaled
      · next log journaled =>
          split at stepped
          · cases stepped; exact .reject _ trivial
          · next spec durable =>
              split at stepped
              · cases stepped; exact .reject _ trivial
              · next typed =>
                  split at stepped
                  · cases stepped; exact .reject _ trivial
                  · next appended =>
                      cases stepped
                      simp only [journaled, Journal.add, Option.map_some]
                      exact .journalSubmission rfl journaled durable typed appended
  | _ => cases stepped

private theorem transition_of_registerSubmission {draft : Draft}
    (stepped : callStep env shared done request (.registerSubmission draft) = some (next, moved)) :
    CallTransition env done request shared (.registerSubmission draft) next moved := by
  cases request with
  | submit task options =>
      cases task with
      | none => cases stepped
      | some task =>
          simp only [callStep, Option.some.injEq] at stepped
          unfold registerSubmission at stepped
          split at stepped
          · cases stepped; exact .reject _ trivial
          · next room => cases stepped; exact .registerSubmission rfl (Nat.lt_of_not_le room)
  | _ => cases stepped

private theorem transition_of_journalRestore {submittedAt : TimePoint}
    (stepped : callStep env shared done request (.journalRestore submittedAt) =
      some (next, moved)) :
    CallTransition env done request shared (.journalRestore submittedAt) next moved := by
  cases request with
  | restore task submission =>
      simp only [callStep, Option.some.injEq] at stepped
      unfold journalRestore at stepped
      split at stepped
      · next unjournaled => cases stepped; exact .unjournaledRestore unjournaled
      · next log journaled =>
          split at stepped
          · cases stepped; exact .reject _ trivial
          · next appended =>
              cases stepped
              simp only [journaled, Journal.add, Option.map_some]
              exact .journalRestore rfl journaled appended
  | _ => cases stepped

private theorem transition_of_registerRestore {submittedAt : TimePoint}
    (stepped : callStep env shared done request (.registerRestore submittedAt) =
      some (next, moved)) :
    CallTransition env done request shared (.registerRestore submittedAt) next moved := by
  cases request with
  | restore task submission =>
      cases task with
      | none => cases stepped
      | some task =>
          simp only [callStep, Option.some.injEq] at stepped
          unfold registerRestore at stepped
          split at stepped
          · cases stepped; exact .reject _ trivial
          · split at stepped
            · cases stepped; exact .reject _ trivial
            · next fresh => cases stepped; exact .registerRestore rfl (by simpa using fresh)
  | _ => cases stepped

private theorem transition_of_advance {restored : Option RecordRef} {current : Option UInt64}
    {stage : Stage}
    (is : stage = .advanceJobId restored current ∨ stage = .advanceSequence restored current)
    (stepped : callStep env shared done request stage = some (next, moved)) :
    CallTransition env done request shared stage next moved := by
  rcases is with rfl | rfl
  · simp only [callStep] at stepped
    split at stepped
    · cases stepped
    · next submission recovered =>
        cases stepped
        cases advanced : advanceCounter env.spurious shared.nextJobId (submission.id + 1) current with
        | mk counter again =>
            cases again with
            | some again => exact .advanceJobIdAgain recovered advanced
            | none => exact .advanceJobId recovered advanced
  · simp only [callStep] at stepped
    split at stepped
    · cases stepped
    · next submission recovered =>
        cases stepped
        cases advanced : advanceCounter env.spurious shared.nextSequence
            (submission.submissionSequence + 1) current with
        | mk counter again =>
            cases again with
            | some again => exact .advanceSequenceAgain recovered advanced
            | none =>
                cases restored with
                | some ref => exact .advanceSequenceRestored recovered advanced
                | none => exact .advanceSequenceReserved recovered advanced

private theorem transition_of_shutdown {stage : Stage}
    (is : stage = .close ∨ stage = .join)
    (stepped : callStep env shared done request stage = some (next, moved)) :
    CallTransition env done request shared stage next moved := by
  rcases is with rfl | rfl
  · cases request with
    | shutdown mode =>
        cases mode with
        | drain => cases stepped; exact .closeDrain rfl
        | cancelPending => cases stepped; exact .closeCancel rfl
    | _ => cases stepped
  · simp only [callStep] at stepped
    split at stepped
    · next finished => cases stepped; exact .join finished
    · cases stepped

theorem callTransition_of_step {stage : Stage}
    (stepped : callStep env shared done request stage = some (next, moved)) :
    CallTransition env done request shared stage next moved := by
  cases stage with
  | entered => exact transition_of_entered stepped
  | drawId => cases stepped; exact .drawId
  | drawSequence id => cases stepped; exact .drawSequence
  | journalSubmission draft => exact transition_of_journalSubmission stepped
  | registerSubmission draft => exact transition_of_registerSubmission stepped
  | journalRestore submittedAt => exact transition_of_journalRestore stepped
  | registerRestore submittedAt => exact transition_of_registerRestore stepped
  | advanceJobId restored current => exact transition_of_advance (.inl rfl) stepped
  | advanceSequence restored current => exact transition_of_advance (.inr rfl) stepped
  | push entry ref =>
      simp only [callStep] at stepped
      split at stepped
      · next accepted => cases stepped; exact .push accepted
      · next refused => cases stepped; exact .refuse refused
  | raced entry ref =>
      simp only [callStep] at stepped
      split at stepped
      · cases stepped
      · next read => cases stepped; exact .raced read
  | cancelFound ref =>
      simp only [callStep] at stepped
      split at stepped
      · cases stepped
      · next read => cases stepped; exact .cancel read
  | swapScheduler =>
      cases request with
      | setScheduler config =>
          simp only [callStep] at stepped
          split at stepped
          · cases stepped; exact .reject _ trivial
          · next swapped => cases stepped; exact .swapScheduler rfl swapped
      | _ => cases stepped
  | stopAccepting => cases stepped; exact .stopAccepting
  | close => exact transition_of_shutdown (.inl rfl) stepped
  | cancelPending pending => cases stepped; exact .cancelPending
  | join => exact transition_of_shutdown (.inr rfl) stepped
  | returnedHandle id ref => cases stepped
  | returnedBool answer => cases stepped
  | returned => cases stepped
  | threw what => cases stepped

end Inversion

/-- A step of the engine: a new call, or a move of one thread. -/
inductive Transition [ITask Task] (engine : State Task) : Action Task → State Task → Prop
  | invoke (request : Request Task) :
      Transition engine (.invoke request) { engine with calls := engine.calls ++ [{ request }] }
  | worker {index : Nat} {env : Environment} {worker moved : Worker} {shared : Shared Task}
      (found : engine.workers[index]? = some worker)
      (move : WorkerTransition env engine.shared worker shared moved) :
      Transition engine (.worker index env)
        { engine with shared, workers := engine.workers.set index moved }
  | call {index : Nat} {env : Environment} {call : Call Task} {stage : Stage}
      {shared : Shared Task} (found : engine.calls[index]? = some call)
      (move : CallTransition env engine.done call.request engine.shared call.stage shared stage) :
      Transition engine (.call index env)
        { engine with shared, calls := engine.calls.set index { call with stage } }

theorem transition_of_step [ITask Task] {engine next : State Task} {action : Action Task}
    (stepped : engine.step action = some next) : Transition engine action next := by
  cases action with
  | invoke request =>
      cases stepped
      exact .invoke request
  | worker index env =>
      simp only [State.step] at stepped
      split at stepped
      · cases stepped
      · next found =>
          split at stepped
          · cases stepped
          · next moved =>
              cases stepped
              exact .worker found (workerTransition_of_step moved)
  | call index env =>
      simp only [State.step] at stepped
      split at stepped
      · cases stepped
      · next found =>
          split at stepped
          · cases stepped
          · next moved =>
              cases stepped
              exact .call found (callTransition_of_step moved)

/-- The step of the call itself, for what the relation leaves out. -/
theorem callStep_of_step [ITask Task] {engine next : State Task} {index : Nat} {env : Environment}
    {call : Call Task} (found : engine.calls[index]? = some call)
    (stepped : engine.step (.call index env) = some next) :
    ∃ shared stage,
      callStep env engine.shared engine.done call.request call.stage = some (shared, stage) ∧
        next = { engine with shared, calls := engine.calls.set index { call with stage } } := by
  simp only [State.step, found] at stepped
  split at stepped
  · cases stepped
  · next ran =>
      cases stepped
      exact ⟨_, _, ran, rfl⟩

/-- A submission throws for one of these reasons. -/
theorem submission_threw {env : Environment} {done : Bool} {shared next : Shared Task} {stage : Stage}
    {task : Task} {options : SubmissionOptions} {what : Bytes}
    (threw : callStep env shared done (.submit (some task) options) stage =
      some (next, .threw what)) :
    (stage = .entered ∧ (options.estimatedWorkUnits = 0 ∨
        (shared.accepting = false ∧ what = text "task engine is not accepting submissions"))) ∨
      (∃ draft, stage = .journalSubmission draft ∧
        ((∀ spec, options.durableSpec = some spec → spec.type = []) ∨
          env.appendError draft.id ≠ none)) ∨
      ∃ draft, stage = .registerSubmission draft ∧
        Registry.limit ≤ shared.registry.records.length ∧ next = shared ∧
          what = text "std::bad_alloc" := by
  cases stage with
  | entered =>
      left
      refine ⟨rfl, ?_⟩
      simp only [callStep, Option.some.injEq, Prod.mk.injEq] at threw
      have rejected := threw.2
      unfold beginSubmit at rejected
      split at rejected
      · next null => cases null
      · split at rejected
        · next zero => exact .inl zero
        · split at rejected
          · next closed =>
              cases rejected
              exact .inr ⟨closed, rfl⟩
          · cases rejected
  | journalSubmission draft =>
      right
      left
      refine ⟨draft, rfl, ?_⟩
      simp only [callStep, Option.some.injEq] at threw
      unfold journalSubmission at threw
      split at threw
      · cases threw
      · split at threw
        · next missing => exact .inl fun spec durable => by rw [missing] at durable; cases durable
        · next durable =>
            split at threw
            · next untyped =>
                left
                intro spec same
                rw [durable] at same
                cases same
                exact untyped
            · split at threw
              · next failing => exact .inr (by simp [failing])
              · cases threw
  | registerSubmission draft =>
      right
      right
      refine ⟨draft, rfl, ?_⟩
      simp only [callStep, Option.some.injEq] at threw
      unfold registerSubmission at threw
      split at threw
      · next full =>
          cases threw
          exact ⟨full, rfl, rfl⟩
      · cases threw
  | push entry ref =>
      simp only [callStep] at threw
      split at threw <;> cases threw
  | raced entry ref =>
      simp only [callStep] at threw
      split at threw <;> cases threw
  | cancelFound ref =>
      simp only [callStep] at threw
      split at threw <;> cases threw
  | join =>
      simp only [callStep] at threw
      split at threw <;> cases threw
  | _ => cases threw

end Kronos.Engine
