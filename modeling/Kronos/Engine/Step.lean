import Kronos.Engine.State

/-!
# Steps of the engine

What one step of a worker and one step of a call do. A step that is not enabled
(a wait that goes on, a mutex held by another thread) is `none`.
-/

set_option autoImplicit false

namespace Kronos.Engine

variable {Task : Type}

def recoveredEntry (submission : JobSubmissionRecord) : SchedulerEntry :=
  ⟨submission.id, submission.priority, submission.estimatedWorkUnits,
    submission.submissionSequence⟩

/-- `initial.name` -/
def submittedName (options : SubmissionOptions) : Bytes :=
  if options.name = [] then text "task" else options.name

def submittedEntry (options : SubmissionOptions) (draft : Draft) : SchedulerEntry :=
  ⟨draft.id, options.priority, options.estimatedWorkUnits, draft.sequence⟩

/-- The record a submission makes. -/
def submittedRecord (task : Task) (options : SubmissionOptions) (draft : Draft) :
    JobRecord Task where
  snapshot :=
    { id := draft.id
      name := submittedName options
      state := .ready
      priority := options.priority
      estimatedWorkUnits := options.estimatedWorkUnits
      submissionSequence := draft.sequence
      submittedAt := draft.submittedAt }
  entry := submittedEntry options draft
  task

def recoveredMessage : Bytes := text "recovered after restart"

/-- The record a restore makes. -/
def restoredRecord (task : Task) (submission : JobSubmissionRecord) (submittedAt : TimePoint) :
    JobRecord Task where
  snapshot :=
    { id := submission.id
      name := submission.name
      state := .ready
      priority := submission.priority
      estimatedWorkUnits := submission.estimatedWorkUnits
      submissionSequence := submission.submissionSequence
      submittedAt
      message := recoveredMessage }
  entry := recoveredEntry submission
  task

/-- The journal record of a submission. -/
def submissionRecord (options : SubmissionOptions) (spec : DurableTaskSpec) (draft : Draft) :
    JobSubmissionRecord :=
  ⟨draft.id, draft.sequence, submittedName options, options.priority,
    options.estimatedWorkUnits, spec⟩

/-- One operation of `advance_counter` on the counter and the test of the loop
behind it. No value of `current` is left when the loop ends. -/
def advanceCounter (spurious : Bool) (counter desired : UInt64) :
    Option UInt64 → UInt64 × Option UInt64
  | none => (counter, if counter < desired then some counter else none)
  | some current =>
      if counter = current ∧ spurious = false then (desired, none)
      else (counter, if counter < desired then some counter else none)

section Worker

variable [ITask Task] (env : Environment) (shared : Shared Task)

def workerStep : Worker → Option (Shared Task × Worker)
  | .waiting =>
      match shared.queue.pop with
      | .blocked => none
      | .finished => some (shared, .exited)
      | .dispatch dispatch rest => some ({ shared with queue := rest }, .dispatched dispatch)
  | .dispatched dispatch =>
      match shared.registry.find dispatch.entry.id with
      | none => some (shared, .waiting)
      | some ref => some (shared, .resolved dispatch ref)
  | .resolved dispatch ref =>
      match shared.registry.locked ref with
      | none => none
      | some locked =>
          let (runs, left) := dispatchLocked env locked
          some ({ shared with registry := shared.registry.store ref left },
            if runs then .slicing dispatch ref else .waiting)
  | .slicing dispatch ref =>
      match shared.registry.heap[ref]? with
      | none => none
      | some record =>
          -- a poll cannot observe a request that was not made
          if env.cancellation.seenFrom.isSome ∧ record.stopRequested = false then none
          else
            let (outcome, task) := ITask.runSlice record.task ⟨env.cancellation, dispatch.budget⟩
            some
              ({ shared with
                  registry := { shared.registry with
                    heap := shared.registry.heap.set ref { record with task } }
                  slices := shared.slices ++ [(ref, outcome.result)] },
                .sliced dispatch ref outcome.result)
  | .sliced _ ref result =>
      match shared.registry.locked ref with
      | none => none
      | some locked =>
          let (requeue, left) := recordSliceLocked env result locked
          some ({ shared with registry := shared.registry.store ref left },
            if requeue then .requeueing locked.record.entry else .waiting)
  | .requeueing entry => some ({ shared with queue := shared.queue.requeue entry }, .waiting)
  | .exited => none

end Worker

section Call

variable (env : Environment) (shared : Shared Task)

/-- The checks in front of a submission and its load of `accepting_`. -/
def beginSubmit (task : Option Task) (options : SubmissionOptions) : Stage :=
  if task.isNone then .threw (text "cannot submit a null task")
  else if options.estimatedWorkUnits = 0 then
    .threw (text "estimated work units must be greater than zero")
  else if shared.accepting = false then
    .threw (text "task engine is not accepting submissions")
  else .drawId

/-- The append in front of a submission's registration. -/
def journalSubmission (options : SubmissionOptions) (draft : Draft) : Shared Task × Stage :=
  match shared.registry.journal with
  | none => (shared, .registerSubmission draft)
  | some _ =>
      match options.durableSpec with
      | none =>
          (shared, .threw (text "journaled submissions require a durable task specification"))
      | some spec =>
          if spec.type = [] then
            (shared, .threw (text "journaled submissions require a durable task specification"))
          else
            match env.appendError draft.id with
            | some what => (shared, .threw what)
            | none =>
                ({ shared with
                    registry := { shared.registry with
                      journal := shared.registry.journal.add
                        (.submission (submissionRecord options spec draft)) } },
                  .registerSubmission draft)

/-- A submission does not look at the result of `emplace`. -/
def registerSubmission (task : Task) (options : SubmissionOptions) (draft : Draft) :
    Shared Task × Stage :=
  if Registry.limit ≤ shared.registry.records.length then
    (shared, .threw (text "std::bad_alloc"))
  else
    let ref := shared.registry.heap.length
    ({ shared with
        registry := (shared.registry.make (submittedRecord task options draft)).emplace draft.id
          ref },
      .push (submittedEntry options draft) ref)

/-- The checks in front of a restore and its load of `accepting_`. -/
def beginRestore (task : Option Task) (submission : JobSubmissionRecord) : Stage :=
  if task.isNone then .threw (text "cannot restore a null task")
  else if submission.id = 0 ∨ submission.estimatedWorkUnits = 0 ∨ submission.task.type = [] then
    .threw (text "invalid recovered submission")
  else if shared.accepting = false then
    .threw (text "task engine is not accepting recovered jobs")
  else .journalRestore (env.now submission.id)

def journalRestore (submission : JobSubmissionRecord) (submittedAt : TimePoint) :
    Shared Task × Stage :=
  match shared.registry.journal with
  | none => (shared, .registerRestore submittedAt)
  | some _ =>
      match env.appendError submission.id with
      | some what => (shared, .threw what)
      | none =>
          ({ shared with
              registry := { shared.registry with
                journal := shared.registry.journal.add
                  (.transition ⟨submission.id, .ready, 0, recoveredMessage⟩) } },
            .registerRestore submittedAt)

def registerRestore (task : Task) (submission : JobSubmissionRecord) (submittedAt : TimePoint) :
    Shared Task × Stage :=
  if Registry.limit ≤ shared.registry.records.length then
    (shared, .threw (text "std::bad_alloc"))
  else if (shared.registry.find submission.id).isSome then
    (shared, .threw (text "recovered job ID already exists"))
  else
    let ref := shared.registry.heap.length
    ({ shared with
        registry := (shared.registry.make (restoredRecord task submission submittedAt)).emplace
          submission.id ref },
      .advanceJobId (some ref) none)

/-- The message of a job whose push was refused. -/
def racedMessage : Request Task → Bytes
  | .restore _ _ => text "recovery raced with engine shutdown"
  | _ => text "submission raced with engine shutdown"

def cancelEntryLocked (registry : Registry Task) (entry : SchedulerEntry) : Registry Task :=
  match registry.find entry.id with
  | none => registry
  | some ref =>
      match registry.locked ref with
      | none => registry
      | some locked => registry.store ref (shutdownLocked env locked)

/-- The loop over the drained entries, under the registry mutex. -/
def cancelPendingLocked (registry : Registry Task) (pending : List SchedulerEntry) :
    Registry Task :=
  pending.foldl (cancelEntryLocked env) registry

/-- The submission whose identity a call advances the counters to. -/
def Request.recovered? : Request Task → Option JobSubmissionRecord
  | .restore _ submission => some submission
  | .reserveRecoveredIdentity submission => some submission
  | _ => none

/-- A step of a call. The workers are joined once all of them are `done`. -/
def callStep (done : Bool) (request : Request Task) : Stage → Option (Shared Task × Stage)
  | .entered =>
      match request with
      | .submit task options => some (shared, beginSubmit shared task options)
      | .restore task submission => some (shared, beginRestore env shared task submission)
      | .reserveRecoveredIdentity submission =>
          some (shared,
            if submission.id = 0 then .threw (text "recovered job ID cannot be zero")
            else .advanceJobId none none)
      | .cancel id =>
          match shared.registry.find id with
          | none => some (shared, .returnedBool false)
          | some ref => some (shared, .cancelFound ref)
      | .setScheduler _ =>
          some (shared,
            if shared.accepting = false then
              .threw (text "cannot change scheduler after shutdown")
            else .swapScheduler)
      | .shutdown _ =>
          if shared.shutdownHeld then none
          else if shared.joined then some (shared, .returned)
          else some ({ shared with shutdownHeld := true }, .stopAccepting)
  | .drawId =>
      some ({ shared with nextJobId := shared.nextJobId + 1 }, .drawSequence shared.nextJobId)
  | .drawSequence id =>
      some ({ shared with nextSequence := shared.nextSequence + 1 },
        .journalSubmission ⟨id, shared.nextSequence, env.now id⟩)
  | .journalSubmission draft =>
      match request with
      | .submit _ options => some (journalSubmission env shared options draft)
      | _ => none
  | .registerSubmission draft =>
      match request with
      | .submit (some task) options => some (registerSubmission shared task options draft)
      | _ => none
  | .journalRestore submittedAt =>
      match request with
      | .restore _ submission => some (journalRestore env shared submission submittedAt)
      | _ => none
  | .registerRestore submittedAt =>
      match request with
      | .restore (some task) submission =>
          some (registerRestore shared task submission submittedAt)
      | _ => none
  | .advanceJobId restored current =>
      match request.recovered? with
      | none => none
      | some submission =>
          let (counter, next) :=
            advanceCounter env.spurious shared.nextJobId (submission.id + 1) current
          some ({ shared with nextJobId := counter },
            match next with
            | some current => .advanceJobId restored (some current)
            | none => .advanceSequence restored none)
  | .advanceSequence restored current =>
      match request.recovered? with
      | none => none
      | some submission =>
          let (counter, next) := advanceCounter env.spurious shared.nextSequence
            (submission.submissionSequence + 1) current
          some ({ shared with nextSequence := counter },
            match next, restored with
            | some current, _ => .advanceSequence restored (some current)
            | none, some ref => .push (recoveredEntry submission) ref
            | none, none => .returned)
  | .push entry ref =>
      match shared.queue.pushExternal entry with
      | some queue => some ({ shared with queue }, .returnedHandle entry.id ref)
      | none => some (shared, .raced entry ref)
  | .raced entry ref =>
      match shared.registry.locked ref with
      | none => none
      | some locked =>
          some ({ shared with
              registry := shared.registry.store ref
                (finishLocked env locked .cancelled (racedMessage request)) },
            .returnedHandle entry.id ref)
  | .cancelFound ref =>
      match shared.registry.locked ref with
      | none => none
      | some locked =>
          let (answer, left) := cancelLocked env locked
          some ({ shared with registry := shared.registry.store ref left }, .returnedBool answer)
  | .swapScheduler =>
      match request with
      | .setScheduler config =>
          match shared.queue.setScheduler config with
          | .error error => some (shared, .threw (text error))
          | .ok queue => some ({ shared with queue }, .returned)
      | _ => none
  | .stopAccepting => some ({ shared with accepting := false }, .close)
  | .close =>
      match request with
      | .shutdown mode =>
          let (pending, queue) := shared.queue.closeAndDrainPending (mode == .cancelPending)
          some ({ shared with queue },
            if mode = .cancelPending then .cancelPending pending else .join)
      | _ => none
  | .cancelPending pending =>
      some ({ shared with registry := cancelPendingLocked env shared.registry pending }, .join)
  | .join =>
      if done then some ({ shared with joined := true, shutdownHeld := false }, .returned)
      else none
  | .returnedHandle _ _ => none
  | .returnedBool _ => none
  | .returned => none
  | .threw _ => none

end Call

/-- A new call, or a step of one of the threads. -/
inductive Action (Task : Type) where
  | invoke (request : Request Task)
  | worker (index : Nat) (env : Environment)
  | call (index : Nat) (env : Environment)

namespace State

/-- All workers have left `worker_loop`. -/
def done (engine : State Task) : Bool := engine.workers.all (· == .exited)

def step [ITask Task] (engine : State Task) : Action Task → Option (State Task)
  | .invoke request => some { engine with calls := engine.calls ++ [{ request }] }
  | .worker index env =>
      match engine.workers[index]? with
      | none => none
      | some worker =>
          match workerStep env engine.shared worker with
          | none => none
          | some (shared, next) =>
              some { engine with shared, workers := engine.workers.set index next }
  | .call index env =>
      match engine.calls[index]? with
      | none => none
      | some call =>
          match callStep env engine.shared engine.done call.request call.stage with
          | none => none
          | some (shared, stage) =>
              some { engine with shared, calls := engine.calls.set index { call with stage } }

end State

end Kronos.Engine
