import Kronos.Engine.Closing

/-!
# Shutdown leaves nothing behind

Once a shutdown has returned, the queue is empty, the workers are gone, and
every registered job is finished, except for jobs that a submit or restore call
still has in hand. Such a call finds the queue closed and cancels its job.
-/

set_option autoImplicit false

namespace Kronos.Engine

open Threads

variable {Task : Type}

/-! ## Carriers pass jobs on -/

section Flow

variable {engine : State Task} {env : Environment} {shared : Shared Task}

/-- What a worker carries away it has from the queue, and what it puts back it has carried. -/
theorem flow_worker [ITask Task] {worker moved : Worker} (sound : Sound engine)
    (member : worker ∈ engine.workers)
    (move : WorkerTransition env engine.shared worker shared moved) (id : JobId) :
    moved.carries id + shared.queue.entries.countP (·.id = id) ≤
      worker.carries id + engine.queued id := by
  have refers := sound.workers worker member
  cases move with
  | pop popped =>
      have counted := countP_pop popped id
      simp only [Worker.carries, State.queued]
      omega
  | miss missing =>
      simp only [Worker.carries, State.queued]
      omega
  | @dispatch dispatch ref locked read =>
      split
      · exact le_rfl
      · simp only [Worker.carries, State.queued]
        omega
  | @record dispatch ref result locked read =>
      have lockedRead := (Registry.locked_eq_some read).1
      have ok := sound.registry.recordOk _ (List.mem_of_getElem? lockedRead)
      obtain ⟨stored, known, storedRead, sameId⟩ := sound.registry.recordOf_eq refers
      rw [show engine.registry.heap[ref]? = some locked.record from lockedRead] at storedRead
      cases storedRead
      have entryId : locked.record.entry.id = dispatch.entry.id := ok.entry.trans sameId
      split
      · simp only [Worker.carries, entryId, State.queued]
        exact le_rfl
      · simp only [Worker.carries, State.queued]
        omega
  | requeue =>
      simp only [Worker.carries, State.queued, TaskQueue.entries_requeue, List.countP_append,
        List.countP_cons, List.countP_nil, decide_eq_true_eq]
      omega
  | _ => exact le_rfl

/-- A registered job is not taken up by another call, and it enters the queue from its own. -/
theorem flow_call {done : Bool} {request : Request Task} {stage moved : Stage}
    (fresh : stage.registersFree engine.registry = true)
    (move : CallTransition env done request engine.shared stage shared moved) {id : JobId}
    (registered : engine.registry.find id ≠ none) :
    Call.carries id ⟨request, moved⟩ ≤ Call.carries id ⟨request, stage⟩ ∧
      Call.carries id ⟨request, moved⟩ + shared.queue.entries.countP (·.id = id) ≤
        Call.carries id ⟨request, stage⟩ + engine.queued id := by
  cases move with
  | reject what early =>
      rw [(early.carries_eq request id).1]
      exact ⟨le_rfl, le_rfl⟩
  | @registerSubmission draft task options is room =>
      have different : draft.id ≠ id := by
        rintro rfl
        exact registered (Stage.find_of_registersFree fresh room)
      have zero : Call.carries id (⟨request, .push (submittedEntry options draft)
          engine.shared.registry.heap.length⟩ : Call Task) = 0 := if_neg different
      rw [zero]
      exact ⟨Nat.zero_le _, Nat.add_le_add_right (Nat.zero_le _) _⟩
  | @registerRestore submittedAt task submission is free =>
      have different : submission.id ≠ id := by
        rintro rfl
        exact registered free
      have zero : Call.carries id (⟨request, .advanceJobId
          (some engine.shared.registry.heap.length) none⟩ : Call Task) = 0 := by
        refine (@carries_recovered _ request submission ?_ id).trans (if_neg different)
        rw [is]
        rfl
      rw [zero]
      exact ⟨Nat.zero_le _, Nat.add_le_add_right (Nat.zero_le _) _⟩
  | @advanceJobIdAgain submission restored current counter again recovered advanced =>
      cases restored <;> exact ⟨le_rfl, le_rfl⟩
  | @advanceJobId submission restored current counter recovered advanced =>
      cases restored <;> exact ⟨le_rfl, le_rfl⟩
  | @advanceSequenceAgain submission restored current counter again recovered advanced =>
      cases restored <;> exact ⟨le_rfl, le_rfl⟩
  | @advanceSequenceRestored submission ref current counter recovered advanced =>
      have same : Call.carries id ⟨request, .push (recoveredEntry submission) ref⟩ =
          Call.carries id ⟨request, .advanceSequence (some ref) current⟩ :=
        (carries_recovered recovered id).symm
      rw [same]
      exact ⟨le_rfl, le_rfl⟩
  | @push entry ref queue accepted =>
      simp only [Call.carries, State.queued, (TaskQueue.pushExternal_eq_some accepted).2.2,
        List.countP_append, List.countP_cons, List.countP_nil, decide_eq_true_eq]
      omega
  | raced read =>
      simp only [Call.carries, State.queued]
      omega
  | swapScheduler is swapped =>
      rw [(TaskQueue.setScheduler_eq_ok swapped).2.2.countP_eq]
      exact ⟨le_rfl, le_rfl⟩
  | closeCancel is =>
      have split := (engine.shared.queue.closeAndDrainPending_perm true).countP_eq
        fun entry => decide (entry.id = id)
      rw [List.countP_append] at split
      simp only [Call.carries, State.queued, split]
      omega
  | _ => exact ⟨le_rfl, le_rfl⟩

/-- The queue, the workers and the calls take up no registered job anew. -/
theorem active_step [ITask Task] {next : State Task} {action : Action Task} (sound : Sound engine)
    (distinct : IdsDistinct engine action) (stepped : engine.step action = some next) {id : JobId}
    (registered : engine.registry.find id ≠ none) :
    next.unpushed id ≤ engine.unpushed id ∧
      next.queued id + next.held id + next.unpushed id ≤
        engine.queued id + engine.held id + engine.unpushed id := by
  cases transition_of_step stepped with
  | invoke request =>
      have alike : State.unpushed { engine with calls := engine.calls ++ [{ request }] } id =
          engine.unpushed id := by
        simp [State.unpushed, Call.carries]
      rw [alike]
      exact ⟨le_rfl, le_rfl⟩
  | @worker index env worker moved shared found move =>
      have flow := flow_worker sound (List.mem_of_getElem? found) move id
      have moves := total_set (Worker.carries id) found moved
      refine ⟨le_rfl, ?_⟩
      change shared.queue.entries.countP (·.id = id) +
        total (Worker.carries id) (engine.workers.set index moved) + engine.unpushed id ≤ _
      simp only [State.held]
      omega
  | @call index env call stage shared found move =>
      have flow := flow_call (distinct call found) move registered
      have moves := total_set (Call.carries id) found { call with stage }
      change _ ≤ call.carries id ∧ _ ≤ call.carries id + _ at flow
      change total (Call.carries id) (engine.calls.set index { call with stage }) ≤
          total (Call.carries id) engine.calls ∧
        shared.queue.entries.countP (·.id = id) + engine.held id +
          total (Call.carries id) (engine.calls.set index { call with stage }) ≤
          engine.queued id + engine.held id + total (Call.carries id) engine.calls
      omega

end Flow

/-! ## Jobs that were not pushed -/

/-- The job has not been dispatched. -/
def Unstarted (record : JobRecord Task) : Prop :=
  record.snapshot.state = .ready ∨ record.snapshot.state = .cancelled ∨ FailedUnjournaled record

theorem Unstarted.evolves {env : Environment} {units : WorkUnits} {before after : JobRecord Task}
    (unstarted : Unstarted before) (ok : RecordOk before) (evolves : Evolves env units before after)
    (waits : after.snapshot.state ≠ .running) : Unstarted after := by
  rcases unstarted with ready | finished
  · rcases evolves.stateMove ok with move | ⟨_, failed, what, _, message⟩
    · rw [ready] at move
      cases same : after.snapshot.state with
      | ready => exact .inl same
      | cancelled => exact .inr (.inl same)
      | running => exact absurd same waits
      | _ =>
          rw [same] at move
          cases move
    · exact .inr (.inr ⟨failed, what, message⟩)
  · have terminal : isTerminal before.snapshot.state = true := by
      rcases finished with cancelled | ⟨failed, _⟩
      · rw [cancelled]
        rfl
      · rw [failed]
        rfl
    rw [evolves.eq_of_terminal terminal]
    exact .inr finished

section Late

variable {engine : State Task}

private theorem ready_of_register {registry : Registry Task} {id other : JobId}
    {record registered : JobRecord Task} (fresh : registry.find id = none)
    (ready : record.snapshot.state = .ready) (free : registry.find other = none)
    (known : ((registry.make record).emplace id registry.heap.length).recordOf other =
      some registered) : registered.snapshot.state = .ready := by
  rw [Registry.recordOf, Registry.find_register _ _ fresh, Registry.heap_emplace] at known
  split at known
  · simp only [Registry.make, Option.bind_some, List.getElem?_concat_length,
      Option.some.injEq] at known
    rw [← known]
    exact ready
  · rw [free] at known
    cases known

theorem ready_of_call {env : Environment} {done : Bool} {request : Request Task}
    {shared : Shared Task} {stage moved : Stage} (sound : Sound engine)
    (fresh : stage.registersFree engine.registry = true)
    (move : CallTransition env done request engine.shared stage shared moved) {id : JobId}
    (free : engine.registry.find id = none) {record : JobRecord Task}
    (known : shared.registry.recordOf id = some record) : record.snapshot.state = .ready := by
  have missing : ∀ {registry : Registry Task}, registry.find id = none →
      registry.recordOf id ≠ some record := by
    intro registry unknown taken
    rw [Registry.recordOf, unknown] at taken
    cases taken
  cases move with
  | @registerSubmission draft task options is room =>
      exact ready_of_register (Stage.find_of_registersFree fresh room) rfl free known
  | registerRestore is freeId => exact ready_of_register freeId rfl free known
  | @cancelPending pending =>
      exact absurd known (missing ((find_cancelPendingLocked sound.registry _ _ _).trans free))
  | _ => exact absurd known (missing free)

theorem ready_of_registered [ITask Task] {next : State Task} {action : Action Task}
    (sound : Sound engine) (distinct : IdsDistinct engine action)
    (stepped : engine.step action = some next) {id : JobId}
    (free : engine.registry.find id = none) {record : JobRecord Task}
    (known : next.registry.recordOf id = some record) : record.snapshot.state = .ready := by
  have missing : ∀ {registry : Registry Task}, registry.find id = none →
      registry.recordOf id ≠ some record := by
    intro registry unknown taken
    rw [Registry.recordOf, unknown] at taken
    cases taken
  cases transition_of_step stepped with
  | invoke request => exact absurd known (missing free)
  | worker found move => cases move <;> exact absurd known (missing free)
  | @call index env call stage shared found move =>
      exact ready_of_call sound (distinct call found) move free known

/-- A job that a call has not pushed was not dispatched. -/
def Waiting (engine : State Task) : Prop :=
  ∀ id record, engine.registry.recordOf id = some record → 0 < engine.unpushed id →
    Unstarted record

theorem Waiting.step [ITask Task] {next : State Task} {action : Action Task}
    (waiting : Waiting engine) (sound : Sound engine) (distinct : IdsDistinct engine action)
    (stepped : engine.step action = some next) : Waiting next := by
  intro id after known unpushed
  cases registered : engine.registry.find id with
  | none => exact .inl (ready_of_registered sound distinct stepped registered known)
  | some ref =>
      obtain ⟨before, knownBefore, read, _⟩ := sound.registry.recordOf_eq registered
      have taken : engine.registry.find id ≠ none := by simp [registered]
      have fewer := (active_step sound distinct stepped taken).1
      have unstarted := waiting id before knownBefore (by omega)
      obtain ⟨units, all⟩ := heapEvolves_step sound stepped
      obtain ⟨evolved, evolvedRead, evolves⟩ := all ref before read
      have knownAfter := known
      rw [Registry.recordOf, find_step sound stepped registered, Option.bind_some,
        evolvedRead] at knownAfter
      cases knownAfter
      refine unstarted.evolves (sound.registry.recordOf_ok knownBefore).1 evolves ?_
      intro running
      -- a running job is carried by a worker and by nobody else
      obtain ⟨call, member, carries⟩ := exists_of_total_pos unpushed
      have nextSound := sound.step distinct stepped
      obtain ⟨_, idle, _⟩ := nextSound.idle_of_call member
        (show 0 < call.carries id + call.drained id by omega)
      have carried := nextSound.carried id
      rw [State.stateOf, known, Option.map_some, running, carriedOnce_running] at carried
      omega

/-- How a job ends whose call found the queue closed. -/
def CancelledLate (record : JobRecord Task) : Prop :=
  record.snapshot.state = .cancelled ∨ FailedUnjournaled record

theorem CancelledLate.terminal {record : JobRecord Task} (cancelled : CancelledLate record) :
    isTerminal record.snapshot.state = true := by
  rcases cancelled with cancelled | ⟨failed, _⟩
  · rw [cancelled]
    rfl
  · rw [failed]
    rfl

theorem Unstarted.cancelledLate {record : JobRecord Task} (unstarted : Unstarted record)
    (terminal : isTerminal record.snapshot.state = true) : CancelledLate record := by
  rcases unstarted with ready | finished
  · rw [ready] at terminal
    cases terminal
  · exact finished

/-- The refused job is cancelled, or failed when that cannot be journaled. -/
theorem raced_cancelledLate {env : Environment} {request : Request Task} {entry : SchedulerEntry}
    {ref : RecordRef} {locked : Locked Task} (sound : Sound engine) (waiting : Waiting engine)
    (member : ⟨request, .raced entry ref⟩ ∈ engine.calls)
    (read : engine.registry.locked ref = some locked) :
    ∃ record, (engine.registry.store ref
        (finishLocked env locked .cancelled (racedMessage request))).recordOf entry.id =
          some record ∧ CancelledLate record := by
  have refers : engine.registry.find entry.id = some ref := sound.calls _ member
  have lockedRead := (Registry.locked_eq_some read).1
  have ok := sound.registry.recordOk _ (List.mem_of_getElem? lockedRead)
  have change := @change_finishLocked_raced _ env locked ok (racedMessage request)
  obtain ⟨nextOk, known, recordOf⟩ := sound.registry.change refers read change
  have terminal : isTerminal (finishLocked env locked .cancelled
      (racedMessage request)).record.snapshot.state = true :=
    isTerminal_finishLocked locked.journal _ ok.published rfl
  have weighs : Call.carries entry.id ⟨request, .raced entry ref⟩ ≤ engine.unpushed entry.id :=
    weight_le_total member
  simp only [Call.carries, if_true] at weighs
  have unstarted := waiting entry.id locked.record known (by omega)
  have finished : Unstarted (finishLocked env locked .cancelled (racedMessage request)).record := by
    refine unstarted.evolves ok (.change change) fun running => ?_
    rw [running] at terminal
    cases terminal
  exact ⟨_, by rw [recordOf, if_pos rfl], finished.cancelledLate terminal⟩

theorem closed_call {env : Environment} {done : Bool} {request : Request Task}
    {shared : Shared Task} {stage moved : Stage} (closed : engine.shared.queue.closed = true)
    (move : CallTransition env done request engine.shared stage shared moved) :
    shared.queue.closed = true := by
  cases move with
  | push accepted =>
      rw [(TaskQueue.pushExternal_eq_some accepted).1] at closed
      cases closed
  | swapScheduler is swapped =>
      rw [(TaskQueue.setScheduler_eq_ok swapped).1] at closed
      cases closed
  | closeDrain is => exact TaskQueue.closed_closeAndDrainPending _ _
  | closeCancel is => exact TaskQueue.closed_closeAndDrainPending _ _
  | _ => exact closed

theorem closed_step [ITask Task] {next : State Task} {action : Action Task}
    (closed : engine.shared.queue.closed = true) (stepped : engine.step action = some next) :
    next.shared.queue.closed = true := by
  cases transition_of_step stepped with
  | invoke request => exact closed
  | worker found move => exact (flags_worker move).1.trans closed
  | call found move => exact closed_call closed move

/-- A call that returns a handle after the queue was closed has cancelled its job. -/
theorem returned_late {env : Environment} {done : Bool} {request : Request Task}
    {shared : Shared Task} {stage : Stage} {id : JobId} {ref : RecordRef} (sound : Sound engine)
    (waiting : Waiting engine) (closed : engine.shared.queue.closed = true)
    (member : ⟨request, stage⟩ ∈ engine.calls)
    (move : CallTransition env done request engine.shared stage shared (.returnedHandle id ref)) :
    ∃ record, shared.registry.recordOf id = some record ∧ CancelledLate record := by
  cases move with
  | push accepted =>
      rw [(TaskQueue.pushExternal_eq_some accepted).1] at closed
      cases closed
  | raced read => exact raced_cancelledLate sound waiting member read

/-- A call that had not ended when the queue was closed, with what holds once it
has returned a handle. -/
structure LateCall (engine : State Task) (index : Nat) (request : Request Task) : Prop where
  closed : engine.shared.queue.closed = true
  ended : ∃ stage, engine.calls[index]? = some ⟨request, stage⟩ ∧
    ∀ id ref, stage = .returnedHandle id ref →
      ∃ record, engine.registry.recordOf id = some record ∧ CancelledLate record

theorem LateCall.step [ITask Task] {next : State Task} {action : Action Task} {index : Nat}
    {request : Request Task} (late : LateCall engine index request) (sound : Sound engine)
    (waiting : Waiting engine) (stepped : engine.step action = some next) :
    LateCall next index request := by
  obtain ⟨stage, found, ended⟩ := late.ended
  have bound : index < engine.calls.length := (List.getElem?_eq_some_iff.mp found).1
  have closed := closed_step late.closed stepped
  have others : next.calls[index]? = some ⟨request, stage⟩ → LateCall next index request := by
    intro same
    refine ⟨closed, stage, same, fun id ref returned => ?_⟩
    obtain ⟨record, known, cancelled⟩ := ended id ref returned
    exact ⟨record, recordOf_step_of_terminal sound stepped known cancelled.terminal, cancelled⟩
  cases transition_of_step stepped with
  | invoke added => exact others ((List.getElem?_append_left bound).trans found)
  | worker _ move => exact others found
  | @call other env call moved shared foundOther move =>
      by_cases same : other = index
      · subst same
        rw [found] at foundOther
        cases foundOther
        refine ⟨closed, moved, List.getElem?_set_self bound, ?_⟩
        rintro id ref rfl
        exact returned_late sound waiting late.closed (List.mem_of_getElem? found) move
      · exact others ((List.getElem?_set_ne same).trans found)

end Late

/-! ## What a cancelling shutdown finishes -/

/-- The shutdown at the given place has drained these entries. -/
structure Cancelling (engine : State Task) (index : Nat) (pending : List SchedulerEntry) : Prop where
  stage : engine.calls[index]? = some ⟨.shutdown .cancelPending, .cancelPending pending⟩ ∨
    (∃ stage, (stage = .join ∨ stage = .returned) ∧
      engine.calls[index]? = some ⟨.shutdown .cancelPending, stage⟩) ∧
      ∀ entry ∈ pending, ∃ record, engine.registry.recordOf entry.id = some record ∧
        isTerminal record.snapshot.state = true
  idle : ∀ entry ∈ pending, engine.registry.find entry.id ≠ none ∧
    engine.queued entry.id + engine.held entry.id + engine.unpushed entry.id = 0

section Cancelling

variable {engine : State Task} {index : Nat} {pending : List SchedulerEntry}

/-- The section on the drained entries finishes the live jobs among them and
leaves the other jobs alone. -/
theorem cancelPending_finishes (sound : Sound engine) (env : Environment)
    (member : ⟨.shutdown .cancelPending, .cancelPending pending⟩ ∈ engine.calls)
    {id : JobId} {before : JobRecord Task} (known : engine.registry.recordOf id = some before) :
    ∃ after, (cancelPendingLocked env engine.registry pending).recordOf id = some after ∧
      if (∃ entry ∈ pending, entry.id = id) ∧ isTerminal before.snapshot.state = false
      then CancelledLate after else after = before := by
  by_cases which : (∃ entry ∈ pending, entry.id = id) ∧ isTerminal before.snapshot.state = false
  · obtain ⟨⟨entry, listed, rfl⟩, live⟩ := which
    obtain ⟨ref, found, read⟩ := Option.bind_eq_some_iff.mp known
    obtain ⟨after, afterRead, evolves⟩ :=
      heapEvolves_cancelPendingLocked sound.registry pending ref before read
    have afterKnown : (cancelPendingLocked env engine.registry pending).recordOf entry.id =
        some after := by
      rw [Registry.recordOf, find_cancelPendingLocked sound.registry, found]
      exact afterRead
    have terminal := cancelPendingLocked_finished sound.registry env listed afterKnown
    -- the shutdown carries the job, so the job is not running
    have listedOnce : 0 < pending.countP (·.id = entry.id) :=
      List.countP_pos_iff.mpr ⟨entry, listed, by simp⟩
    obtain ⟨_, idle, _⟩ := sound.idle_of_call member
      (show 0 < Call.carries entry.id _ + Call.drained entry.id _ from Nat.add_pos_right _ listedOnce)
    have carried := sound.carried entry.id
    have ok := (sound.registry.recordOf_ok known).1
    have ready : before.snapshot.state = .ready := by
      cases state : before.snapshot.state with
      | ready => rfl
      | running =>
          rw [State.stateOf, known, Option.map_some, state, carriedOnce_running] at carried
          omega
      | new => exact absurd state ok.begun
      | _ =>
          rw [state] at live
          cases live
    refine ⟨after, afterKnown, ?_⟩
    rw [if_pos ⟨⟨entry, listed, rfl⟩, live⟩]
    refine Unstarted.cancelledLate (Unstarted.evolves (.inl ready) ok evolves ?_) terminal
    intro running
    rw [running] at terminal
    cases terminal
  · refine ⟨before, ?_, if_neg which ▸ rfl⟩
    refine cancelPendingLocked_untouched sound.registry env known ?_
    rw [not_and_or] at which
    refine which.imp (fun none entry listed same => none ⟨entry, listed, same⟩) ?_
    simp

theorem Cancelling.registered (cancelling : Cancelling engine index pending)
    (sound : Sound engine) {entry : SchedulerEntry} (listed : entry ∈ pending) :
    ∃ ref, engine.registry.find entry.id = some ref ∧
      ∃ record, engine.registry.recordOf entry.id = some record := by
  obtain ⟨ref, found⟩ := Option.ne_none_iff_exists'.mp (cancelling.idle entry listed).1
  obtain ⟨record, known, _⟩ := sound.registry.recordOf_eq found
  exact ⟨ref, found, record, known⟩

theorem Cancelling.own_call {env : Environment} {done : Bool} {shared : Shared Task}
    {stage moved : Stage} (cancelling : Cancelling engine index pending)
    (found : engine.calls[index]? = some ⟨.shutdown .cancelPending, stage⟩)
    (move : CallTransition env done (.shutdown .cancelPending) engine.shared stage shared moved) :
    (stage = .cancelPending pending ∧ moved = .join ∧
        shared.registry = cancelPendingLocked env engine.registry pending) ∨
      (stage = .join ∧ moved = .returned ∧ shared.registry = engine.registry ∧
        ∀ entry ∈ pending, ∃ record, engine.registry.recordOf entry.id = some record ∧
          isTerminal record.snapshot.state = true) := by
  rcases cancelling.stage with here | ⟨⟨current, which, here⟩, finished⟩
  · rw [found] at here
    cases here
    cases move with
    | reject what early => cases early
    | cancelPending => exact .inl ⟨rfl, rfl, rfl⟩
  · rw [found] at here
    cases here
    rcases which with rfl | rfl
    · cases move with
      | reject what early => cases early
      | join ended => exact .inr ⟨rfl, rfl, rfl, finished⟩
    · cases move with
      | reject what early => cases early

theorem Cancelling.step [ITask Task] {next : State Task} {action : Action Task}
    (cancelling : Cancelling engine index pending) (sound : Sound engine)
    (distinct : IdsDistinct engine action) (stepped : engine.step action = some next) :
    Cancelling next index pending := by
  have idle : ∀ entry ∈ pending, next.registry.find entry.id ≠ none ∧
      next.queued entry.id + next.held entry.id + next.unpushed entry.id = 0 := by
    intro entry listed
    obtain ⟨taken, none⟩ := cancelling.idle entry listed
    obtain ⟨ref, found, _⟩ := cancelling.registered sound listed
    have fewer := (active_step sound distinct stepped taken).2
    exact ⟨by simp [find_step sound stepped found], by omega⟩
  have others : next.calls[index]? = engine.calls[index]? → Cancelling next index pending := by
    intro same
    refine ⟨?_, idle⟩
    rw [same]
    refine cancelling.stage.imp_right fun ⟨where', finished⟩ => ⟨where', fun entry listed => ?_⟩
    obtain ⟨record, known, terminal⟩ := finished entry listed
    exact ⟨record, recordOf_step_of_terminal sound stepped known terminal, terminal⟩
  cases transition_of_step stepped with
  | invoke added =>
      refine others (List.getElem?_append_left ?_)
      rcases cancelling.stage with here | ⟨⟨_, _, here⟩, _⟩
      · exact (List.getElem?_eq_some_iff.mp here).1
      · exact (List.getElem?_eq_some_iff.mp here).1
  | worker _ move => exact others rfl
  | @call other env call moved shared found move =>
      by_cases same : other = index
      · subst same
        have bound : other < engine.calls.length := (List.getElem?_eq_some_iff.mp found).1
        have request : call.request = .shutdown .cancelPending := by
          rcases cancelling.stage with here | ⟨⟨_, _, here⟩, _⟩
          · rw [found] at here
            cases here
            rfl
          · rw [found] at here
            cases here
            rfl
        obtain ⟨_, stage⟩ := call
        obtain rfl := request
        rcases cancelling.own_call found move with
          ⟨rfl, rfl, registry⟩ | ⟨rfl, rfl, registry, finished⟩
        · refine ⟨.inr ⟨⟨.join, .inl rfl, List.getElem?_set_self bound⟩, fun entry listed => ?_⟩,
            idle⟩
          obtain ⟨ref, taken, record, known⟩ := cancelling.registered sound listed
          obtain ⟨after, afterKnown, _⟩ :=
            cancelPending_finishes sound env (List.mem_of_getElem? found) known
          refine ⟨after, ?_, cancelPendingLocked_finished sound.registry env listed afterKnown⟩
          change shared.registry.recordOf entry.id = some after
          rw [registry]
          exact afterKnown
        · refine ⟨.inr ⟨⟨.returned, .inr rfl, List.getElem?_set_self bound⟩, ?_⟩, idle⟩
          change ∀ entry ∈ pending, ∃ record, shared.registry.recordOf entry.id = some record ∧ _
          rw [registry]
          exact finished
      · exact others (List.getElem?_set_ne same)

end Cancelling

/-! ## Whole runs -/

/-- The queue is empty, no worker carries a job, and every registered job is
finished and published, unless a submit or restore call still has it in hand. -/
structure NothingLeft (engine : State Task) : Prop where
  queue : engine.shared.queue.entries = []
  workers : ∀ id, engine.held id = 0
  jobs : ∀ id record, engine.registry.recordOf id = some record →
    (isTerminal record.snapshot.state = true ∧ record.resultPublished = true) ∨
      0 < engine.unpushed id

/-- From here on a submit or restore call that has not ended can only throw or
return the handle of a job that is cancelled, or failed in the journal. -/
def LateCallsCancel [ITask Task] (engine : State Task) : Prop :=
  ∀ (index : Nat) (request : Request Task) (stage : Stage),
    engine.calls[index]? = some ⟨request, stage⟩ →
    request.makesJob = true → stage.ended = false →
    ∀ later, Reaches State.step IdsDistinct engine later →
      ∃ moved : Stage, later.calls[index]? = some ⟨request, moved⟩ ∧
        (moved.ended = true → (∃ what, moved = .threw what) ∨
          ∃ id ref record, moved = .returnedHandle id ref ∧
            later.registry.recordOf id = some record ∧ CancelledLate record)

/-- What a cancelling shutdown does from the state in which it closes the queue. -/
structure CancelsPending [ITask Task] (engine next : State Task) (index : Nat) : Prop where
  opened : engine.shared.queue.closed = false
  finishes : ∀ later, Reaches State.step IdsDistinct next later → ∀ env after,
    later.step (.call index env) = some after →
    ∀ id before, later.registry.recordOf id = some before →
      ∃ record, after.registry.recordOf id = some record ∧
        if 0 < engine.queued id ∧ isTerminal before.snapshot.state = false
        then CancelledLate record else record = before
  undispatched : ∀ later, Reaches State.step IdsDistinct next later →
    ∀ id, 0 < engine.queued id → later.held id = 0
  carried : ∀ later, Reaches State.step IdsDistinct next later → ∀ id, 0 < engine.held id →
    (∀ env after, later.step (.call index env) = some after →
      after.registry.recordOf id = later.registry.recordOf id) ∧
    (later.calls[index]? = some ⟨.shutdown .cancelPending, .returned⟩ →
      ∃ record, later.registry.recordOf id = some record ∧
        isTerminal record.snapshot.state = true ∧ record.resultPublished = true)

section Runs

variable {engine : State Task}

theorem Closing.nothingLeft (closing : Closing engine) (sound : Sound engine)
    (returned : ∃ call ∈ engine.calls, call.shutDown) : NothingLeft engine := by
  obtain ⟨call, member, shutDown⟩ := returned
  have joined := closing.returned call member shutDown
  obtain ⟨free, done⟩ := closing.joined joined
  obtain ⟨closed, empty⟩ := closing.drained done
  have held : ∀ id, engine.held id = 0 := by
    intro id
    rw [State.held, total_eq_zero_iff]
    intro worker working
    have exited := List.all_eq_true.mp done worker working
    rw [show worker = .exited by simpa using exited]
    rfl
  have drained : ∀ id, engine.drained id = 0 := by
    intro id
    have mutex := closing.mutex
    rw [free, if_neg (by simp)] at mutex
    rw [State.drained, total_eq_zero_iff]
    intro other otherMember
    have outside := total_eq_zero_iff.mp (Nat.eq_zero_of_add_eq_zero_left mutex) other otherMember
    obtain ⟨request, stage⟩ := other
    cases stage with
    | cancelPending pending => cases outside
    | _ => rfl
  refine ⟨empty, held, fun id record known => ?_⟩
  have ok := (sound.registry.recordOf_ok known).1
  have carried := sound.carried id
  rw [State.stateOf, known] at carried
  cases terminal : isTerminal record.snapshot.state with
  | true => exact .inl ⟨rfl, ok.published.trans terminal⟩
  | false =>
      right
      have once := carried.2.1 terminal
      have queued : engine.queued id = 0 := by simp [State.queued, empty]
      have noWorker := held id
      have noShutdown := drained id
      simp only [State.carriers] at once
      omega

/-- What holds in every state of a run with distinct ids. -/
structure Orderly (engine : State Task) : Prop where
  sound : Sound engine
  closing : Closing engine
  waiting : Waiting engine

theorem Orderly.of_reaches [ITask Task] {start : State Task} (orderly : Orderly start)
    (reached : Reaches State.step IdsDistinct start engine) : Orderly engine :=
  reached.invariant Orderly orderly fun _ _ _ before distinct stepped =>
    ⟨before.sound.step distinct stepped, before.closing.step stepped,
      before.waiting.step before.sound distinct stepped⟩

theorem Starts.orderly (started : Starts engine) : Orderly engine := by
  refine ⟨started.sound, started.closing, ?_⟩
  obtain ⟨config, queue, requested, detected, journal, made, rfl⟩ := started
  intro id record known
  cases known

theorem Orderly.lateCallsCancel [ITask Task] (orderly : Orderly engine)
    (closed : engine.shared.queue.closed = true) : LateCallsCancel engine := by
  intro index request stage found makes running later reached
  have late : Orderly later ∧ LateCall later index request := by
    refine reached.invariant (fun state => Orderly state ∧ LateCall state index request) ?_ ?_
    · refine ⟨orderly, closed, stage, found, ?_⟩
      rintro id ref rfl
      cases running
    · rintro state action next ⟨before, late⟩ distinct stepped
      exact ⟨before.of_reaches (.tail action .refl distinct stepped),
        late.step before.sound before.waiting stepped⟩
  obtain ⟨moved, foundLater, ended⟩ := late.2.ended
  refine ⟨moved, foundLater, ?_⟩
  have of : moved.Of request := late.1.closing.staged _ (List.mem_of_getElem? foundLater)
  intro isEnded
  cases moved with
  | threw what => exact .inl ⟨what, rfl⟩
  | returnedHandle id ref =>
      obtain ⟨record, known, cancelled⟩ := ended id ref rfl
      exact .inr ⟨id, ref, record, rfl, known, cancelled⟩
  | returned =>
      rw [show request.makesJob = false from of] at makes
      cases makes
  | returnedBool answer =>
      obtain ⟨id, rfl⟩ := of
      cases makes
  | _ => cases isEnded

theorem registry_drain {env : Environment} {done : Bool} {shared : Shared Task}
    {stage moved : Stage} (of : stage.Of (.shutdown .drain : Request Task))
    (move : CallTransition env done (.shutdown .drain) engine.shared stage shared moved) :
    shared.registry = engine.registry := by
  cases move with
  | registerSubmission is room => cases is
  | journalSubmission is journaled durable typed appended => cases is
  | registerRestore is fresh => cases is
  | journalRestore is journaled appended => cases is
  | raced read => cases of
  | cancel read =>
      obtain ⟨id, is⟩ := of
      cases is
  | cancelPending => cases of
  | _ => rfl

/-- A job keeps its record, and no call takes it up anew. -/
theorem Orderly.kept_of_reaches [ITask Task] {later : State Task} (orderly : Orderly engine)
    (reached : Reaches State.step IdsDistinct engine later) {id : JobId} {ref : RecordRef}
    (found : engine.registry.find id = some ref) :
    later.registry.find id = some ref ∧ later.unpushed id ≤ engine.unpushed id := by
  have kept : Orderly later ∧ later.registry.find id = some ref ∧
      later.unpushed id ≤ engine.unpushed id := by
    refine reached.invariant (fun state => Orderly state ∧ state.registry.find id = some ref ∧
      state.unpushed id ≤ engine.unpushed id) ⟨orderly, found, le_rfl⟩ ?_
    rintro state action next ⟨before, registered, fewer⟩ distinct stepped
    have taken : state.registry.find id ≠ none := by simp [registered]
    exact ⟨before.of_reaches (.tail action .refl distinct stepped),
      find_step before.sound stepped registered,
      (active_step before.sound distinct stepped taken).1.trans fewer⟩
  exact kept.2

theorem closing_distinct {index : Nat} {env : Environment}
    (found : engine.calls[index]? = some ⟨.shutdown .cancelPending, .close⟩) :
    IdsDistinct engine (.call index env) := by
  intro call member
  rw [Option.mem_def, found] at member
  cases member
  rfl

theorem Orderly.cancelling [ITask Task] {next : State Task} {index : Nat} {env : Environment}
    (orderly : Orderly engine)
    (found : engine.calls[index]? = some ⟨.shutdown .cancelPending, .close⟩)
    (stepped : engine.step (.call index env) = some next) :
    Cancelling next index (engine.shared.queue.closeAndDrainPending true).1 := by
  have nextSound := orderly.sound.step (closing_distinct found) stepped
  have moved : next.calls[index]? = some ⟨.shutdown .cancelPending,
      .cancelPending (engine.shared.queue.closeAndDrainPending true).1⟩ := by
    cases transition_of_step stepped with
    | @call _ _ call stage shared foundCall move =>
        rw [found] at foundCall
        cases foundCall
        have bound : index < engine.calls.length := (List.getElem?_eq_some_iff.mp found).1
        cases move with
        | reject what early => cases early
        | closeDrain is => cases is
        | closeCancel is => exact List.getElem?_set_self bound
  refine ⟨.inl moved, fun entry listed => ?_⟩
  have here := List.mem_of_getElem? moved
  have listedOnce : 0 < (engine.shared.queue.closeAndDrainPending true).1.countP
      (·.id = entry.id) := List.countP_pos_iff.mpr ⟨entry, listed, by simp⟩
  obtain ⟨once, _, record, known⟩ := nextSound.idle_of_call here
    (show 0 < Call.carries entry.id _ + Call.drained entry.id _ from Nat.add_pos_right _ listedOnce)
  have drained : (engine.shared.queue.closeAndDrainPending true).1.countP (·.id = entry.id) ≤
      next.drained entry.id := @weight_le_total _ (Call.drained entry.id) _ _ here
  obtain ⟨ref, registered, _⟩ := Option.bind_eq_some_iff.mp known
  refine ⟨by simp [registered], ?_⟩
  simp only [State.carriers] at once
  omega

/-- The entries that are in the queue are those that are drained. -/
theorem queued_pos_iff {id : JobId} :
    0 < engine.queued id ↔
      ∃ entry ∈ (engine.shared.queue.closeAndDrainPending true).1, entry.id = id := by
  have counted := (engine.shared.queue.closeAndDrainPending_perm true).countP_eq
    fun entry => decide (entry.id = id)
  have none : (engine.shared.queue.closeAndDrainPending true).2.entries = [] :=
    Scheduler.entries_drained _
  rw [none, List.append_nil] at counted
  rw [State.queued, counted, List.countP_pos_iff]
  simp

/-- The steps of a cancelling shutdown after it has closed the queue. -/
theorem Cancelling.finishes [ITask Task] {later after : State Task} {index : Nat}
    {env : Environment}
    (cancelling : Cancelling later index (engine.shared.queue.closeAndDrainPending true).1)
    (sound : Sound later) (stepped : later.step (.call index env) = some after) {id : JobId}
    {before : JobRecord Task} (known : later.registry.recordOf id = some before) :
    ∃ record, after.registry.recordOf id = some record ∧
      if 0 < engine.queued id ∧ isTerminal before.snapshot.state = false
      then CancelledLate record else record = before := by
  cases transition_of_step stepped with
  | @call _ _ call moved shared found move =>
      have request : call.request = .shutdown .cancelPending := by
        rcases cancelling.stage with here | ⟨⟨_, _, here⟩, _⟩
        · rw [found] at here
          cases here
          rfl
        · rw [found] at here
          cases here
          rfl
      obtain ⟨_, stage⟩ := call
      obtain rfl := request
      rcases cancelling.own_call found move with
        ⟨rfl, rfl, registry⟩ | ⟨rfl, rfl, registry, finished⟩
      · obtain ⟨record, recordKnown, result⟩ :=
          cancelPending_finishes sound env (List.mem_of_getElem? found) known
        rw [← registry] at recordKnown
        refine ⟨record, recordKnown, ?_⟩
        by_cases which : 0 < engine.queued id ∧ isTerminal before.snapshot.state = false
        · rw [if_pos which]
          rwa [if_pos ⟨queued_pos_iff.mp which.1, which.2⟩] at result
        · rw [if_neg which]
          rwa [if_neg fun other => which ⟨queued_pos_iff.mpr other.1, other.2⟩] at result
      · refine ⟨before, ?_, ?_⟩
        · change shared.registry.recordOf id = some before
          rw [registry]
          exact known
        · refine if_neg ?_ ▸ rfl
          rintro ⟨queued, live⟩
          obtain ⟨entry, listed, rfl⟩ := queued_pos_iff.mp queued
          obtain ⟨record, recordKnown, terminal⟩ := finished entry listed
          rw [known] at recordKnown
          cases recordKnown
          rw [live] at terminal
          cases terminal

theorem Orderly.cancelsPending [ITask Task] {next : State Task} {index : Nat} {env : Environment}
    (orderly : Orderly engine)
    (found : engine.calls[index]? = some ⟨.shutdown .cancelPending, .close⟩)
    (stepped : engine.step (.call index env) = some next) : CancelsPending engine next index := by
  have first : Reaches State.step IdsDistinct engine next :=
    .tail _ .refl (closing_distinct found) stepped
  have all : ∀ {later}, Reaches State.step IdsDistinct next later → Orderly later ∧
      Cancelling later index (engine.shared.queue.closeAndDrainPending true).1 := by
    intro later reached
    refine reached.invariant (fun state => Orderly state ∧ Cancelling state index _) ?_ ?_
    · exact ⟨orderly.of_reaches first, orderly.cancelling found stepped⟩
    · rintro state action after ⟨before, cancelling⟩ distinct stepped
      exact ⟨before.of_reaches (.tail action .refl distinct stepped),
        cancelling.step before.sound distinct stepped⟩
  refine ⟨?_, ?_, ?_, ?_⟩
  · exact (orderly.closing.held_of_opening (List.mem_of_getElem? found) Nat.one_pos).2.2.1
  · intro later reached env after stepped id before known
    exact (all reached).2.finishes (all reached).1.sound stepped known
  · intro later reached id queued
    obtain ⟨entry, listed, rfl⟩ := queued_pos_iff.mp queued
    have idle := ((all reached).2.idle entry listed).2
    omega
  · intro later reached id held
    have carried := orderly.sound.carried id
    obtain ⟨record, known, unqueued, unpushed⟩ : ∃ record,
        engine.registry.recordOf id = some record ∧ engine.queued id = 0 ∧
          engine.unpushed id = 0 := by
      cases known : engine.registry.recordOf id with
      | none =>
          rw [State.stateOf, known, Option.map_none, carriedOnce_none, State.carriers] at carried
          omega
      | some record =>
          rw [State.stateOf, known] at carried
          have once := carried.1
          simp only [State.carriers] at once
          exact ⟨record, rfl, by omega, by omega⟩
    obtain ⟨ref, registered, _⟩ := Option.bind_eq_some_iff.mp known
    obtain ⟨foundLater, fewer⟩ := orderly.kept_of_reaches (first.trans reached) registered
    obtain ⟨before, knownLater, _⟩ := (all reached).1.sound.registry.recordOf_eq foundLater
    refine ⟨?_, ?_⟩
    · intro env after stepped
      obtain ⟨after, knownAfter, same⟩ :=
        (all reached).2.finishes (all reached).1.sound stepped knownLater
      rw [if_neg (by omega)] at same
      rw [knownAfter, same, knownLater]
    · intro returned
      have nothing := (all reached).1.closing.nothingLeft (all reached).1.sound
        ⟨_, List.mem_of_getElem? returned, rfl, _, rfl⟩
      refine ⟨before, knownLater, ?_⟩
      rcases nothing.jobs id before knownLater with finished | waits
      · exact finished
      · omega

end Runs

/-- Shutdown leaves nothing behind. -/
theorem shutdown_leaves_nothing [ITask Task] (start engine : State Task) (started : Starts start)
    (reached : Reaches State.step IdsDistinct start engine) :
    ((∃ call ∈ engine.calls, call.shutDown) → NothingLeft engine ∧ LateCallsCancel engine) ∧
    (∀ index env stage next, engine.calls[index]? = some ⟨.shutdown .drain, stage⟩ →
      engine.step (.call index env) = some next → next.registry = engine.registry) ∧
    ∀ index env next, engine.calls[index]? = some ⟨.shutdown .cancelPending, .close⟩ →
      engine.step (.call index env) = some next → CancelsPending engine next index := by
  have orderly := started.orderly.of_reaches reached
  refine ⟨?_, ?_, fun index env next found stepped => orderly.cancelsPending found stepped⟩
  · intro returned
    have nothing := orderly.closing.nothingLeft orderly.sound returned
    obtain ⟨call, member, shutDown⟩ := returned
    have joined := orderly.closing.returned call member shutDown
    exact ⟨nothing, orderly.lateCallsCancel (orderly.closing.closed.mpr (.inl joined))⟩
  · intro index env stage next found stepped
    cases transition_of_step stepped with
    | @call _ _ call moved shared foundCall move =>
        rw [found] at foundCall
        cases foundCall
        exact registry_drain (orderly.closing.staged _ (List.mem_of_getElem? found)) move

/-! ## A push that is refused after the shutdown has returned -/

/-- A submission has registered its job and not pushed it when a shutdown runs
from its start to its end. Then the push is refused. -/
def refusedActions : List (Action BuiltinTask) :=
  .invoke (.submit (some sampleTask) sampleOptions) :: List.replicate 5 (.call 0 {}) ++
    .invoke (.shutdown .drain) :: List.replicate 3 (.call 1 {}) ++
    [.worker 0 {}, .call 1 {}, .call 0 {}]

private theorem refused_ran :
    (runAll State.step IdsDistinct sampleStart refusedActions).isSome = true := by
  decide +kernel

def refusedState : State BuiltinTask := Option.get _ refused_ran

theorem refusedState_reached : Reaches State.step IdsDistinct sampleStart refusedState :=
  reaches_of_runAll (Option.some_get refused_ran).symm

/-- The shutdown has returned, the submission has reached its push, and the job
is still ready. -/
theorem refused_job_ready :
    Reaches State.step IdsDistinct sampleStart refusedState ∧
      (∃ call ∈ refusedState.calls, call.shutDown) ∧
      refusedState.calls.map Call.stage = [.raced ⟨1, 0, 3, 0⟩ 0, .returned] ∧
      refusedState.stateOf 1 = some .ready := by
  refine ⟨refusedState_reached, ⟨⟨.shutdown .drain, .returned⟩, by decide +kernel, rfl, _, rfl⟩, ?_⟩
  decide +kernel

theorem refusedState_nothingLeft :
    refusedState.shared.queue.entries = [] ∧ LateCallsCancel refusedState := by
  obtain ⟨nothing, late⟩ := (shutdown_leaves_nothing sampleStart refusedState sampleStart_starts
    refusedState_reached).1 ⟨⟨.shutdown .drain, .returned⟩, by decide +kernel, rfl, _, rfl⟩
  exact ⟨nothing.queue, late⟩

end Kronos.Engine
