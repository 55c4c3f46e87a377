import Kronos.Engine.Publication

/-!
# Cancellation

A cancel that answers `true` is final: its job is finished already, or it is in
the slice that ran at that moment and is finished when the result of that slice
is recorded. The entries of the job that are left in the queue do not revive it.
-/

set_option autoImplicit false

namespace Kronos.Engine

open Threads

variable {Task : Type}

/-! ## What the sections leave of a stopped job -/

/-- The append of a transition of the job would throw. -/
def Registry.failing (registry : Registry Task) (env : Environment) (id : JobId) : Bool :=
  registry.journal.isSome && (env.appendError id).isSome

/-- How a stopped job ends after a slice with this status. -/
def endingOf : SliceStatus → JobState
  | .yielded => .cancelled
  | .completed => .completed
  | .failed => .failed
  | .cancelled => .cancelled

theorem isTerminal_endingOf (status : SliceStatus) : isTerminal (endingOf status) = true := by
  cases status <;> rfl

section Sections

variable {env : Environment} {locked : Locked Task}

/-- A live job ends in the state asked for, or it fails with the append. -/
theorem state_finishLocked (unpublished : locked.record.resultPublished = false)
    (state : JobState) (message : Bytes) :
    (finishLocked env locked state message).record.snapshot.state =
      if locked.journal.isSome && (env.appendError locked.record.snapshot.id).isSome then .failed
      else state := by
  obtain ⟨record, journal⟩ := locked
  cases journal with
  | none => simp_all [finishLocked, persistTransitionLocked, JobRecord.publish]
  | some log =>
      cases failing : env.appendError record.snapshot.id with
      | none => simp_all [finishLocked, persistTransitionLocked, JobRecord.publish]
      | some what =>
          simp_all [finishLocked, persistTransitionLocked, failWithoutJournalLocked,
            JobRecord.publish]

theorem state_cancelLocked_ready (ok : RecordOk locked.record)
    (ready : locked.record.snapshot.state = .ready) :
    (cancelLocked env locked).2.record.snapshot.state =
      if locked.journal.isSome && (env.appendError locked.record.snapshot.id).isSome then .failed
      else .cancelled := by
  have unpublished : locked.record.resultPublished = false := by
    rw [ok.published, ready]
    rfl
  have finished := @state_finishLocked _ env ⟨locked.record.requestStop, locked.journal⟩ unpublished
    .cancelled (text "cancelled before execution")
  simpa [cancelLocked, ready, JobRecord.requestStop] using finished

theorem state_recordSliceLocked_stopped (result : SliceResult) (ok : RecordOk locked.record)
    (running : locked.record.snapshot.state = .running)
    (stopped : locked.record.stopRequested = true) :
    (recordSliceLocked env result locked).2.record.snapshot.state =
      if locked.journal.isSome && (env.appendError locked.record.snapshot.id).isSome then .failed
      else endingOf result.status := by
  have unpublished : (locked.record.consume result.workUnitsConsumed).resultPublished = false := by
    have live := ok.published
    rwa [running] at live
  have finished := @state_finishLocked _ env
    ⟨locked.record.consume result.workUnitsConsumed, locked.journal⟩ unpublished
  have stillStopped : (locked.record.consume result.workUnitsConsumed).stopRequested = true := stopped
  unfold recordSliceLocked
  cases result.status with
  | yielded =>
      simp only [stillStopped, if_true]
      exact finished _ _
  | completed => exact finished _ _
  | failed => exact finished _ _
  | cancelled => exact finished _ _

/-- A cancel that answers `true` found a live job and requested its stop. -/
theorem cancelLocked_true (ok : RecordOk locked.record) (answered : (cancelLocked env locked).1 = true) :
    locked.record.snapshot.state = .ready ∨
      (locked.record.snapshot.state = .running ∧
        (cancelLocked env locked).2.record = locked.record.requestStop) := by
  unfold cancelLocked at answered ⊢
  split at answered
  · cases answered
  · next live =>
      cases state : locked.record.snapshot.state with
      | new => exact absurd state ok.begun
      | ready => exact .inl rfl
      | running =>
          right
          simp [JobRecord.requestStop, state]
      | _ => simp [state] at live

end Sections

/-- A job that runs with its stop requested keeps running so, or is finished. -/
theorem Evolves.stopped {env : Environment} {units : WorkUnits} {before after : JobRecord Task}
    (evolves : Evolves env units before after) (running : before.snapshot.state = .running)
    (stopped : before.stopRequested = true) :
    isTerminal after.snapshot.state = true ∨
      (after.snapshot.state = .running ∧ after.stopRequested = true) := by
  cases evolves with
  | ran task _ => exact .inr ⟨running, stopped⟩
  | change change =>
      cases change with
      | keep => exact .inr ⟨running, stopped⟩
      | requestStop _ => exact .inr ⟨running, rfl⟩
      | start now ready =>
          rw [running] at ready
          cases ready
      | yield units message _ unstopped =>
          rw [stopped] at unstopped
          cases unstopped
      | finish message now prepared terminal fromReady => exact .inl terminal
      | fail now prepared failing => exact .inl rfl

/-! ## The call and the slice -/

/-- A cancel call holds the record that is registered under its id. -/
def CancelsFound (engine : State Task) : Prop :=
  ∀ (id : JobId) (ref : RecordRef), ⟨.cancel id, .cancelFound ref⟩ ∈ engine.calls →
    engine.registry.find id = some ref

theorem CancelsFound.step [ITask Task] {engine next : State Task} {action : Action Task}
    (cancels : CancelsFound engine) (sound : Sound engine)
    (stepped : engine.step action = some next) : CancelsFound next := by
  intro id ref called
  refine find_step sound stepped ?_
  cases transition_of_step stepped with
  | invoke request =>
      rcases List.mem_append.mp called with old | added
      · exact cancels id ref old
      · cases List.mem_singleton.mp added
  | worker found move => exact cancels id ref called
  | @call index env call stage shared found move =>
      rcases List.mem_or_eq_of_mem_set called with old | moved
      · exact cancels id ref old
      · obtain ⟨request, stage⟩ := call
        cases moved
        cases move with
        | cancelFound is known =>
            cases is
            exact known

theorem CancelsFound.of_reaches [ITask Task] {start engine : State Task} (started : Starts start)
    (reached : Reaches State.step IdsDistinct start engine) : CancelsFound engine := by
  have both : Sound engine ∧ CancelsFound engine := by
    refine reached.invariant (fun state => Sound state ∧ CancelsFound state)
      ⟨started.sound, ?_⟩ fun _ _ _ holds distinct stepped =>
        ⟨holds.1.step distinct stepped, holds.2.step holds.1 stepped⟩
    obtain ⟨config, queue, requested, detected, journal, made, rfl⟩ := started
    intro id ref called
    cases called
  exact both.2

/-- A cancel call for the job answers `true`. -/
structure Cancels [ITask Task] (engine : State Task) (index : Nat) (env : Environment) (id : JobId)
    (next : State Task) : Prop where
  stepped : engine.step (.call index env) = some next
  answered : next.calls[index]? = some ⟨.cancel id, .returnedBool true⟩

/-- A cancel that answers `true` does so in its second section. -/
theorem Cancels.section [ITask Task] {engine next : State Task} {index : Nat} {env : Environment}
    {id : JobId} (cancels : Cancels engine index env id next) :
    ∃ ref locked, engine.calls[index]? = some ⟨.cancel id, .cancelFound ref⟩ ∧
      engine.registry.locked ref = some locked ∧ (cancelLocked env locked).1 = true ∧
        next.registry = engine.registry.store ref (cancelLocked env locked).2 ∧
          next.workers = engine.workers := by
  obtain ⟨stepped, answered⟩ := cancels
  cases transition_of_step stepped with
  | @call index env call stage shared found move =>
      have bound := (List.getElem?_eq_some_iff.mp found).1
      obtain ⟨request, before⟩ := call
      simp only [List.getElem?_set_self bound, Option.some.injEq, Call.mk.injEq] at answered
      obtain ⟨rfl, moved⟩ := answered
      cases move with
      | @cancel ref locked read =>
          simp only [Stage.returnedBool.injEq] at moved
          exact ⟨ref, locked, found, read, moved, rfl, rfl⟩
      | _ => cases moved

theorem Cancels.distinct [ITask Task] {engine next : State Task} {index : Nat} {env : Environment}
    {id : JobId} (cancels : Cancels engine index env id next) :
    IdsDistinct engine (.call index env) := by
  obtain ⟨ref, locked, called, _⟩ := cancels.section
  intro call member
  rw [called] at member
  cases member
  rfl

/-- A worker that was in a slice is in that slice still. -/
inductive Worker.StillIn : Worker → Worker → Prop
  | same (worker : Worker) : StillIn worker worker
  | ran (dispatch : Dispatch) (ref : RecordRef) (result : SliceResult) :
      StillIn (.slicing dispatch ref) (.sliced dispatch ref result)

/-- The job is finished, or in the slice in which a worker had it in the first
state, with its stop requested. -/
def Stopping (first : State Task) (id : JobId) (engine : State Task) : Prop :=
  ∃ record, engine.registry.recordOf id = some record ∧
    (isTerminal record.snapshot.state = true ∨
      (record.snapshot.state = .running ∧ record.stopRequested = true ∧
        ∃ (place : Nat) (slice still : Worker),
          first.workers[place]? = some slice ∧ slice.executes id = 1 ∧
            engine.workers[place]? = some still ∧ slice.StillIn still))

theorem recorded_stopped [ITask Task] {engine next : State Task} {place : Nat} {env : Environment}
    {dispatch : Dispatch} {ref : RecordRef} {result : SliceResult} (sound : Sound engine)
    (at_ : engine.workers[place]? = some (.sliced dispatch ref result)) {record : JobRecord Task}
    (known : engine.registry.recordOf dispatch.entry.id = some record)
    (stopped : record.stopRequested = true)
    (stepped : engine.step (.worker place env) = some next) :
    ∃ final, next.registry.recordOf dispatch.entry.id = some final ∧
      final.snapshot.state = if engine.registry.failing env dispatch.entry.id then .failed
        else endingOf result.status := by
  have member := List.mem_of_getElem? at_
  have refers : engine.registry.find dispatch.entry.id = some ref := sound.workers _ member
  cases transition_of_step stepped with
  | @worker index env worker moved shared found move =>
      rw [at_] at found
      cases found
      cases move with
      | @record dispatch ref result locked read =>
          have lockedRead := (Registry.locked_eq_some read).1
          have running := sound.running_at member
            (show 0 < Worker.executes dispatch.entry.id _ by simp [Worker.executes]) refers lockedRead
          have ok := sound.registry.recordOk _ (List.mem_of_getElem? lockedRead)
          obtain ⟨nextOk, knownLocked, recordOf⟩ := sound.registry.change refers read
            (@change_recordSliceLocked _ env locked result ok running)
          have same := (sound.registry.recordOf_ok knownLocked).2
          rw [known] at knownLocked
          cases knownLocked
          refine ⟨_, (recordOf _).trans (if_pos rfl), ?_⟩
          rw [state_recordSliceLocked_stopped result ok running stopped, same,
            (Registry.locked_eq_some read).2]
          rfl

theorem Worker.StillIn.step [ITask Task] {env : Environment} {shared next : Shared Task}
    {slice still moved : Worker} {id : JobId} (within : slice.StillIn still)
    (executes : slice.executes id = 1) (move : WorkerTransition env shared still next moved) :
    slice.StillIn moved ∨
      ∃ dispatch ref result, still = .sliced dispatch ref result ∧ dispatch.entry.id = id := by
  cases within with
  | same =>
      cases move with
      | @slice dispatch ref record outcome task read observed ran =>
          exact .inl (.ran dispatch ref outcome.result)
      | record read => exact .inr ⟨_, _, _, rfl, by simpa [Worker.executes] using executes⟩
      | _ => cases executes
  | ran dispatch ref result =>
      exact .inr ⟨dispatch, ref, result, rfl, by simpa [Worker.executes] using executes⟩

theorem Stopping.step [ITask Task] {first engine next : State Task} {id : JobId}
    {action : Action Task} (stopping : Stopping first id engine) (sound : Sound engine)
    (stepped : engine.step action = some next) : Stopping first id next := by
  obtain ⟨record, known, terminal | ⟨running, stopped, place, slice, still, was, executes, is,
    within⟩⟩ := stopping
  · exact ⟨record, recordOf_step_of_terminal sound stepped known terminal, .inl terminal⟩
  · obtain ⟨ref, found, read⟩ := Option.bind_eq_some_iff.mp known
    obtain ⟨units, all⟩ := heapEvolves_step sound stepped
    obtain ⟨evolved, evolvedRead, evolves⟩ := all ref record read
    have knownNext : next.registry.recordOf id = some evolved := by
      rw [Registry.recordOf, find_step sound stepped found, Option.bind_some, evolvedRead]
    refine ⟨evolved, knownNext, ?_⟩
    rcases evolves.stopped running stopped with terminal | ⟨stillRunning, stillStopped⟩
    · exact .inl terminal
    · refine .inr ⟨stillRunning, stillStopped, place, slice, ?_⟩
      cases transition_of_step stepped with
      | invoke request => exact ⟨still, was, executes, is, within⟩
      | call _ _ => exact ⟨still, was, executes, is, within⟩
      | @worker index env worker moved shared at_ move =>
          by_cases same : index = place
          · subst same
            rw [is] at at_
            cases at_
            rcases within.step executes move with stays | ⟨dispatch, target, result, rfl, rfl⟩
            · have bound := (List.getElem?_eq_some_iff.mp is).1
              exact ⟨moved, was, executes, List.getElem?_set_self bound, stays⟩
            · -- the result was recorded, and then the job does not run
              obtain ⟨final, knownFinal, ended⟩ := recorded_stopped sound is known stopped stepped
              rw [knownNext] at knownFinal
              cases knownFinal
              rw [stillRunning] at ended
              split at ended
              · cases ended
              · have terminal := isTerminal_endingOf result.status
                rw [← ended] at terminal
                cases terminal
          · exact ⟨still, was, executes, by rw [← is]; exact List.getElem?_set_ne same, within⟩

theorem Sound.exists_slice {engine : State Task} {id : JobId} {record : JobRecord Task} (sound : Sound engine)
    (known : engine.registry.recordOf id = some record)
    (running : record.snapshot.state = .running) :
    ∃ (place : Nat) (slice : Worker), engine.workers[place]? = some slice ∧ slice.executes id = 1 := by
  have carried := sound.carried id
  rw [State.stateOf, known, Option.map_some, running, carriedOnce_running] at carried
  have positive : 0 < total (Worker.executes id) engine.workers := by
    rw [← State.executing, carried.2]
    exact Nat.one_pos
  obtain ⟨slice, member, executes⟩ := exists_of_total_pos positive
  obtain ⟨place, found⟩ := List.getElem?_of_mem member
  have once := @weight_le_total _ (Worker.executes id) _ _ member
  rw [← State.executing, carried.2] at once
  exact ⟨place, slice, found, by omega⟩

/-! ## Runs -/

section Runs

variable [ITask Task] {start engine : State Task}

theorem Stopping.reaches {first later : State Task} {id : JobId} (stopping : Stopping first id engine)
    (sound : Sound engine) (reached : Reaches State.step IdsDistinct engine later) :
    Sound later ∧ Stopping first id later :=
  reached.invariant (fun state => Sound state ∧ Stopping first id state) ⟨sound, stopping⟩
    fun _ _ _ holds distinct stepped =>
      ⟨holds.1.step distinct stepped, holds.2.step holds.1 stepped⟩

/-- A call that has answered `true` did so in a step of the run. -/
theorem exists_cancels (reached : Reaches State.step IdsDistinct start engine)
    (fresh : start.calls = []) {id : JobId}
    (answered : ⟨.cancel id, .returnedBool true⟩ ∈ engine.calls) :
    ∃ before index env next, Reaches State.step IdsDistinct start before ∧
      Cancels before index env id next ∧ Reaches State.step IdsDistinct next engine := by
  induction reached with
  | refl =>
      rw [fresh] at answered
      cases answered
  | @tail state next action reached distinct stepped ih =>
      have earlier : ⟨.cancel id, .returnedBool true⟩ ∈ state.calls →
          ∃ before index env after, Reaches State.step IdsDistinct start before ∧
            Cancels before index env id after ∧ Reaches State.step IdsDistinct after next := by
        intro old
        obtain ⟨before, index, env, after, first, cancels, rest⟩ := ih old
        exact ⟨before, index, env, after, first, cancels, .tail action rest distinct stepped⟩
      cases transition_of_step stepped with
      | invoke request =>
          rcases List.mem_append.mp answered with old | added
          · exact earlier old
          · cases List.mem_singleton.mp added
      | worker found move => exact earlier answered
      | @call index env call stage shared found move =>
          rcases List.mem_or_eq_of_mem_set answered with old | moved
          · exact earlier old
          · have bound := (List.getElem?_eq_some_iff.mp found).1
            refine ⟨state, index, env, _, reached, ⟨stepped, ?_⟩, .refl⟩
            rw [moved]
            exact List.getElem?_set_self bound

theorem Cancels.effect {next : State Task} {index : Nat} {env : Environment} {id : JobId}
    (cancels : Cancels engine index env id next) (sound : Sound engine)
    (found : CancelsFound engine) :
    ∃ record cancelled, engine.registry.recordOf id = some record ∧
      next.registry.recordOf id = some cancelled ∧
      ((record.snapshot.state = .ready ∧ cancelled.snapshot.state =
          if engine.registry.failing env id then .failed else .cancelled) ∨
        (record.snapshot.state = .running ∧ cancelled = record.requestStop)) ∧
      Stopping engine id next := by
  obtain ⟨ref, locked, called, read, answered, stored, workers⟩ := cancels.section
  have registered := found id ref (List.mem_of_getElem? called)
  have lockedRead := (Registry.locked_eq_some read).1
  have ok := sound.registry.recordOk _ (List.mem_of_getElem? lockedRead)
  obtain ⟨nextOk, known, recordOf⟩ := sound.registry.change registered read
    (@change_cancelLocked _ env locked ok)
  have same := (sound.registry.recordOf_ok known).2
  have knownNext : next.registry.recordOf id = some (cancelLocked env locked).2.record := by
    rw [stored, recordOf, if_pos rfl]
  refine ⟨locked.record, _, known, knownNext, ?_⟩
  rcases cancelLocked_true ok answered with ready | ⟨running, stopped⟩
  · have ended := @state_cancelLocked_ready _ env locked ok ready
    rw [same, (Registry.locked_eq_some read).2] at ended
    refine ⟨.inl ⟨ready, ended⟩, _, knownNext, .inl ?_⟩
    rw [ended]
    split <;> rfl
  · obtain ⟨place, slice, at_, executes⟩ := sound.exists_slice known running
    refine ⟨.inr ⟨running, stopped⟩, _, knownNext, .inr ⟨?_, ?_, place, slice, slice, at_, executes,
      by rw [workers, at_], .same slice⟩⟩
    · rw [stopped]
      exact running
    · rw [stopped]
      rfl

end Runs

/-- Cancellation is final. No reachable state has a job that is ready with its
stop requested. A cancel that has answered `true` did so in one step of the run:
it finished a job that was ready, and from there on the job is finished or in the
slice it was running, never dispatched again, and finished by the result of that
slice. Where the append of the ending throws, the job has failed. -/
theorem cancellation_final [ITask Task] (start engine : State Task) (started : Starts start)
    (reached : Reaches State.step IdsDistinct start engine) :
    (∀ id record, engine.registry.recordOf id = some record → record.snapshot.state = .ready →
      record.stopRequested = false) ∧
    (∀ id, ⟨.cancel id, .returnedBool true⟩ ∈ engine.calls →
      ∃ before index env next, Reaches State.step IdsDistinct start before ∧
        Cancels before index env id next ∧ Reaches State.step IdsDistinct next engine) ∧
    ∀ index env id next, Cancels engine index env id next →
      (engine.stateOf id = some .ready → next.stateOf id =
        some (if engine.registry.failing env id then .failed else .cancelled)) ∧
      ∀ later, Reaches State.step IdsDistinct next later →
        Stopping engine id later ∧
        (∀ action after, later.step action = some after →
          ¬ (later.stateOf id = some .ready ∧ after.stateOf id = some .running)) ∧
        ∀ place dispatch ref result recording after,
          later.workers[place]? = some (.sliced dispatch ref result) → dispatch.entry.id = id →
          later.step (.worker place recording) = some after →
          after.stateOf id = some (if later.registry.failing recording id then .failed
            else endingOf result.status) := by
  have sound := Sound.of_reaches started reached
  have found := CancelsFound.of_reaches started reached
  refine ⟨?_, ?_, ?_⟩
  · intro id record known ready
    exact (sound.registry.recordOf_ok known).1.unstopped ready
  · intro id answered
    refine exists_cancels reached ?_ answered
    obtain ⟨config, queue, requested, detected, journal, made, rfl⟩ := started
    rfl
  · intro index env id next cancels
    obtain ⟨record, cancelled, known, knownNext, which, stopping⟩ := cancels.effect sound found
    have soundNext : Sound next := sound.step cancels.distinct cancels.stepped
    refine ⟨?_, ?_⟩
    · intro ready
      rw [State.stateOf, known, Option.map_some, Option.some.injEq] at ready
      rw [State.stateOf, knownNext, Option.map_some]
      rcases which with ⟨_, ended⟩ | ⟨running, _⟩
      · rw [ended]
      · rw [running] at ready
        cases ready
    · intro later reachedLater
      obtain ⟨soundLater, stoppingLater⟩ := stopping.reaches soundNext reachedLater
      refine ⟨stoppingLater, ?_, ?_⟩
      · rintro action after stepped ⟨ready, _⟩
        obtain ⟨now, knownNow, terminal | ⟨running, _⟩⟩ := stoppingLater
        · rw [State.stateOf, knownNow, Option.map_some, Option.some.injEq] at ready
          rw [ready] at terminal
          cases terminal
        · rw [State.stateOf, knownNow, Option.map_some, Option.some.injEq, running] at ready
          cases ready
      · rintro place dispatch ref result recording after at_ rfl stepped
        obtain ⟨now, knownNow, terminal | ⟨running, stopped, _⟩⟩ := stoppingLater
        · obtain ⟨executed, knownExecuted, running⟩ := soundLater.running_of_executes
            (List.mem_of_getElem? at_)
            (show 0 < Worker.executes dispatch.entry.id _ by simp [Worker.executes])
          rw [knownNow] at knownExecuted
          cases knownExecuted
          simp [running] at terminal
        · obtain ⟨final, knownFinal, ended⟩ := recorded_stopped soundLater at_ knownNow stopped stepped
          rw [State.stateOf, knownFinal, Option.map_some, ended]

/-! ## A journal that fails while the slice of a cancelled job is recorded -/

/-- One worker, slices of one unit, and a journal. -/
def slicedStart : State BuiltinTask :=
  State.make ⟨.roundRobin [] 1, ⟨.roundRobin, 1⟩, false⟩ 1 0 (some [])

theorem slicedStart_starts : Starts slicedStart := ⟨⟨.roundRobin, 1⟩, _, 1, 0, some [], rfl, rfl⟩

/-- The sample job runs, and a cancel has found its record. -/
def runningActions : List (Action BuiltinTask) :=
  .invoke (.submit (some sampleTask) sampleOptions) :: List.replicate 6 (.call 0 {}) ++
    List.replicate 3 (.worker 0 {}) ++ [.invoke (.cancel 1), .call 1 {}]

private theorem running_ran :
    (runAll State.step IdsDistinct slicedStart runningActions).isSome = true := by
  decide +kernel

def runningState : State BuiltinTask := Option.get _ running_ran

theorem runningState_reached : Reaches State.step IdsDistinct slicedStart runningState :=
  reaches_of_runAll (Option.some_get running_ran).symm

private theorem stopped_ran : (runningState.step (.call 1 {})).isSome = true := by
  decide +kernel

/-- The cancel has answered. -/
def stoppedState : State BuiltinTask := Option.get _ stopped_ran

theorem stoppedState_cancels : Cancels runningState 1 {} 1 stoppedState :=
  ⟨(Option.some_get stopped_ran).symm, by decide +kernel⟩

private theorem yielded_ran :
    (runAll State.step IdsDistinct stoppedState [.worker 0 {}]).isSome = true := by
  decide +kernel

/-- The slice has ended without a look at the request. -/
def yieldedState : State BuiltinTask := Option.get _ yielded_ran

theorem yieldedState_reached : Reaches State.step IdsDistinct stoppedState yieldedState :=
  reaches_of_runAll (Option.some_get yielded_ran).symm

/-- Every append throws. -/
def brokenJournal : Environment where
  appendError _ := some (text "failed to append WAL record: No space left on device")

/-- The result of the slice is `Yielded`, but the cancelled job fails: its ending
could not be journaled. -/
theorem yielded_stopped_job_fails :
    Starts slicedStart ∧ Reaches State.step IdsDistinct slicedStart runningState ∧
      Cancels runningState 1 {} 1 stoppedState ∧
      Reaches State.step IdsDistinct stoppedState yieldedState ∧
      yieldedState.workers[0]? =
        some (.sliced ⟨⟨1, 0, 3, 0⟩, 1⟩ 0 ⟨.yielded, 1, []⟩) ∧
      (yieldedState.step (.worker 0 brokenJournal)).map (·.stateOf 1) = some (some .failed) :=
  ⟨slicedStart_starts, runningState_reached, stoppedState_cancels, yieldedState_reached,
    by decide +kernel, by decide +kernel⟩

theorem yieldedState_stopping :
    Stopping runningState 1 yieldedState ∧
      ∀ after, yieldedState.step (.worker 0 {}) = some after →
        after.stateOf 1 = some .cancelled := by
  obtain ⟨stopping, _, recorded⟩ := ((cancellation_final slicedStart runningState
    slicedStart_starts runningState_reached).2.2 1 {} 1 stoppedState stoppedState_cancels).2
      yieldedState yieldedState_reached
  refine ⟨stopping, ?_⟩
  intro after stepped
  have intact : yieldedState.registry.failing {} 1 = false := by decide +kernel
  have ended := recorded 0 ⟨⟨1, 0, 3, 0⟩, 1⟩ 0 ⟨.yielded, 1, []⟩ {} after (by decide +kernel)
    rfl stepped
  rwa [intact] at ended

end Kronos.Engine
