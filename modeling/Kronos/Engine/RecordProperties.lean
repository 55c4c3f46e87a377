import Kronos.Engine.Record

/-!
# What a section can do to a record

Every critical section changes its record in one of a few ways. They are listed
once, and what holds of records is derived from the list.
-/

set_option autoImplicit false

namespace Kronos.Engine

variable {Task : Type}

/-- What every record satisfies outside a critical section. -/
structure RecordOk (record : JobRecord Task) : Prop where
  published : record.resultPublished = isTerminal record.snapshot.state
  promise : record.promise = if record.resultPublished then [record.snapshot.result] else []
  begun : record.snapshot.state ≠ .new
  entry : record.entry.id = record.snapshot.id
  unstopped : record.snapshot.state = .ready → record.stopRequested = false

/-- What a section does to a live record before it finishes the job, with the
work units it adds. -/
inductive Prepared : WorkUnits → JobRecord Task → JobRecord Task → Prop
  | same {record : JobRecord Task} (live : isTerminal record.snapshot.state = false) :
      Prepared 0 record record
  | stopped {record : JobRecord Task} (live : isTerminal record.snapshot.state = false) :
      Prepared 0 record record.requestStop
  | consumed {record : JobRecord Task} (units : WorkUnits)
      (running : record.snapshot.state = .running) :
      Prepared units record (record.consume units)

/-- The parts of a record that are fixed when it is made. -/
structure SameIdentity (before after : JobRecord Task) : Prop where
  id : after.snapshot.id = before.snapshot.id
  name : after.snapshot.name = before.snapshot.name
  priority : after.snapshot.priority = before.snapshot.priority
  estimate : after.snapshot.estimatedWorkUnits = before.snapshot.estimatedWorkUnits
  sequence : after.snapshot.submissionSequence = before.snapshot.submissionSequence
  entry : after.entry = before.entry

theorem SameIdentity.refl (record : JobRecord Task) : SameIdentity record record :=
  ⟨rfl, rfl, rfl, rfl, rfl, rfl⟩

theorem SameIdentity.trans {first second third : JobRecord Task}
    (left : SameIdentity first second) (right : SameIdentity second third) :
    SameIdentity first third :=
  ⟨right.id.trans left.id, right.name.trans left.name, right.priority.trans left.priority,
    right.estimate.trans left.estimate, right.sequence.trans left.sequence,
    right.entry.trans left.entry⟩

namespace Prepared

variable {units : WorkUnits} {record ready : JobRecord Task}

theorem sameIdentity (prepared : Prepared units record ready) : SameIdentity record ready := by
  cases prepared <;> exact ⟨rfl, rfl, rfl, rfl, rfl, rfl⟩

theorem live (prepared : Prepared units record ready) :
    isTerminal record.snapshot.state = false := by
  cases prepared with
  | same live => exact live
  | stopped live => exact live
  | consumed units running => rw [running]; rfl

theorem promise (prepared : Prepared units record ready) : ready.promise = record.promise := by
  cases prepared <;> rfl

theorem task (prepared : Prepared units record ready) : ready.task = record.task := by
  cases prepared <;> rfl

theorem unpublished (prepared : Prepared units record ready) (ok : RecordOk record) :
    ready.resultPublished = false := by
  have same := ok.published.trans prepared.live
  cases prepared <;> exact same

theorem consumed_eq (prepared : Prepared units record ready) :
    ready.snapshot.workUnitsConsumed = record.snapshot.workUnitsConsumed + units := by
  cases prepared with
  | same live => simp
  | stopped live => simp [JobRecord.requestStop]
  | consumed units running => rfl

theorem recordOk_publish (prepared : Prepared units record ready) (ok : RecordOk record)
    {state : JobState} (message : Bytes) (now : TimePoint) (terminal : isTerminal state = true) :
    RecordOk (ready.publish state message now) := by
  have unpublished : record.resultPublished = false := ok.published.trans prepared.live
  have silent := ok.promise
  simp only [unpublished, Bool.false_eq_true, if_false] at silent
  constructor
  · exact terminal.symm
  · simp [JobRecord.publish, prepared.promise, silent, JobSnapshot.result]
  · rintro same
    change state = .new at same
    rw [same] at terminal
    cases terminal
  · have entry := ok.entry
    have same := prepared.sameIdentity
    simpa [JobRecord.publish, same.entry, same.id] using entry
  · intro same
    change state = .ready at same
    rw [same] at terminal
    cases terminal

end Prepared

/-- The message of a job whose transition could not be journaled. -/
def walFailure (what : Bytes) : Bytes := text "write-ahead log failure: " ++ what

/-- The job failed because a transition of it could not be journaled. -/
def FailedUnjournaled (record : JobRecord Task) : Prop :=
  record.snapshot.state = .failed ∧ ∃ what, record.snapshot.message = walFailure what

/-- What a section can do to its record and the journal, with the work units it adds. -/
inductive Change (env : Environment) : WorkUnits → Locked Task → Locked Task → Prop
  | keep (locked : Locked Task) : Change env 0 locked locked
  | requestStop {record : JobRecord Task} {journal : Journal}
      (running : record.snapshot.state = .running) :
      Change env 0 ⟨record, journal⟩ ⟨record.requestStop, journal⟩
  | start {record : JobRecord Task} {journal : Journal} (now : TimePoint)
      (ready : record.snapshot.state = .ready) :
      Change env 0 ⟨record, journal⟩
        ⟨record.start now, journal.add (.transition (record.transition .running []))⟩
  | yield {record : JobRecord Task} {journal : Journal} (units : WorkUnits) (message : Bytes)
      (running : record.snapshot.state = .running) (unstopped : record.stopRequested = false) :
      Change env units ⟨record, journal⟩
        ⟨(record.consume units).backToReady message,
          journal.add (.transition ((record.consume units).transition .ready message))⟩
  | finish {record ready : JobRecord Task} {journal : Journal} {units : WorkUnits}
      {state : JobState} (message : Bytes) (now : TimePoint)
      (prepared : Prepared units record ready) (terminal : isTerminal state = true)
      (fromReady : record.snapshot.state = .ready → state = .cancelled) :
      Change env units ⟨record, journal⟩
        ⟨ready.publish state message now,
          journal.add (.transition (ready.transition state message))⟩
  | fail {record ready : JobRecord Task} {log : List JournalRecord} {units : WorkUnits}
      {what : Bytes} (now : TimePoint) (prepared : Prepared units record ready)
      (failing : env.appendError record.snapshot.id = some what) :
      Change env units ⟨record, some log⟩
        ⟨ready.publish .failed (walFailure what) now, some log⟩

/-! ## The sections make such changes -/

section Sections

variable {env : Environment} {locked : Locked Task}

theorem persistTransitionLocked_cases (unpublished : locked.record.resultPublished = false)
    (state : JobState) (message : Bytes) :
    persistTransitionLocked env locked state message =
        (true, ⟨locked.record,
          locked.journal.add (.transition (locked.record.transition state message))⟩) ∨
      ∃ log what, locked.journal = some log ∧
        env.appendError locked.record.snapshot.id = some what ∧
        persistTransitionLocked env locked state message =
          (false, ⟨locked.record.publish .failed (walFailure what)
            (env.now locked.record.snapshot.id), some log⟩) := by
  obtain ⟨record, journal⟩ := locked
  cases journal with
  | none => exact .inl rfl
  | some log =>
      cases failing : env.appendError record.snapshot.id with
      | none =>
          left
          simp [persistTransitionLocked, failing]
      | some what =>
          right
          refine ⟨log, what, rfl, rfl, ?_⟩
          simp only at unpublished
          simp [persistTransitionLocked, failing, failWithoutJournalLocked, unpublished, walFailure]

/-- Finishing a prepared record publishes its result, journaled or failed. -/
theorem change_finishLocked {record ready : JobRecord Task} {journal : Journal}
    {units : WorkUnits} {state : JobState} (ok : RecordOk record)
    (prepared : Prepared units record ready) (message : Bytes)
    (terminal : isTerminal state = true)
    (fromReady : record.snapshot.state = .ready → state = .cancelled) :
    Change env units ⟨record, journal⟩ (finishLocked env ⟨ready, journal⟩ state message) := by
  have unpublished := prepared.unpublished ok
  rcases @persistTransitionLocked_cases _ env ⟨ready, journal⟩ unpublished state message
    with persisted | ⟨log, what, hasLog, failing, failed⟩
  · simp only [finishLocked, unpublished, persisted, Bool.false_eq_true, if_false]
    exact .finish message _ prepared terminal fromReady
  · simp only at hasLog
    subst hasLog
    simp only [finishLocked, unpublished, failed, Bool.false_eq_true, if_false]
    exact .fail _ prepared (prepared.sameIdentity.id ▸ failing)

theorem change_dispatchLocked (ok : RecordOk locked.record) :
    Change env 0 locked (dispatchLocked env locked).2 := by
  obtain ⟨record, journal⟩ := locked
  unfold dispatchLocked
  split
  · exact .keep _
  · next ready =>
      have ready : record.snapshot.state = .ready := by simpa using ready
      have live : isTerminal record.snapshot.state = false := by rw [ready]; rfl
      have unpublished : record.resultPublished = false := ok.published.trans live
      rcases @persistTransitionLocked_cases _ env ⟨record, journal⟩ unpublished .running []
        with persisted | ⟨log, what, hasLog, failing, failed⟩
      · rw [persisted]
        exact .start _ ready
      · simp only at hasLog
        subst hasLog
        rw [failed]
        exact .fail _ (.same live) failing

theorem change_recordSliceLocked (result : SliceResult) (ok : RecordOk locked.record)
    (running : locked.record.snapshot.state = .running) :
    Change env result.workUnitsConsumed locked (recordSliceLocked env result locked).2 := by
  obtain ⟨record, journal⟩ := locked
  simp only at running ok
  have prepared : Prepared result.workUnitsConsumed record
      (record.consume result.workUnitsConsumed) := .consumed _ running
  have fromReady : ∀ {state : JobState}, record.snapshot.state = .ready → state = .cancelled := by
    intro state ready
    rw [running] at ready
    cases ready
  unfold recordSliceLocked
  cases result.status with
  | yielded =>
      simp only
      split
      · exact change_finishLocked ok prepared _ rfl fromReady
      · next unstopped =>
          rcases @persistTransitionLocked_cases _ env
            ⟨record.consume result.workUnitsConsumed, journal⟩ (prepared.unpublished ok) .ready
            result.message with persisted | ⟨log, what, hasLog, failing, failed⟩
          · rw [persisted]
            exact .yield _ _ running (Bool.eq_false_iff.mpr unstopped)
          · simp only at hasLog
            subst hasLog
            rw [failed]
            exact .fail _ prepared failing
  | completed => exact change_finishLocked ok prepared _ rfl fromReady
  | failed => exact change_finishLocked ok prepared _ rfl fromReady
  | cancelled => exact change_finishLocked ok prepared _ rfl fromReady

theorem change_cancelLocked (ok : RecordOk locked.record) :
    Change env 0 locked (cancelLocked env locked).2 := by
  obtain ⟨record, journal⟩ := locked
  unfold cancelLocked
  split
  · exact .keep _
  · next live =>
      simp only [Bool.not_eq_true] at live
      simp only
      split
      · exact change_finishLocked ok (.stopped live) _ rfl fun _ => rfl
      · next notReady =>
          refine .requestStop ?_
          simp only [JobRecord.requestStop, not_or] at notReady
          cases state : record.snapshot.state <;> simp_all

theorem change_shutdownLocked (ok : RecordOk locked.record) :
    Change env 0 locked (shutdownLocked env locked) := by
  obtain ⟨record, journal⟩ := locked
  unfold shutdownLocked
  split
  · exact .keep _
  · next live =>
      simp only [Bool.not_eq_true] at live
      exact change_finishLocked ok (.stopped live) _ rfl fun _ => rfl

/-- The section a submission runs when its push was refused. -/
theorem change_finishLocked_raced (ok : RecordOk locked.record) (message : Bytes) :
    Change env 0 locked (finishLocked env locked .cancelled message) := by
  by_cases terminal : isTerminal locked.record.snapshot.state = true
  · have published : locked.record.resultPublished = true := ok.published.trans terminal
    simp only [finishLocked, published, if_true]
    exact .keep _
  · exact change_finishLocked ok (.same (by simpa using terminal)) message rfl fun _ => rfl

/-! The states the sections leave behind -/

theorem isTerminal_finishLocked {record : JobRecord Task} (journal : Journal)
    {state : JobState} (message : Bytes)
    (published : record.resultPublished = isTerminal record.snapshot.state)
    (terminal : isTerminal state = true) :
    isTerminal (finishLocked env ⟨record, journal⟩ state message).record.snapshot.state =
      true := by
  cases done : record.resultPublished with
  | true =>
      simp only [finishLocked, done, if_true]
      exact published.symm.trans done
  | false =>
      rcases @persistTransitionLocked_cases _ env ⟨record, journal⟩ done state message
        with persisted | ⟨log, what, hasLog, failing, failed⟩
      · simpa [finishLocked, done, persisted, JobRecord.publish] using terminal
      · simp [finishLocked, done, failed, JobRecord.publish]

theorem isTerminal_shutdownLocked (ok : RecordOk locked.record) :
    isTerminal (shutdownLocked env locked).record.snapshot.state = true := by
  unfold shutdownLocked
  split
  · assumption
  · exact isTerminal_finishLocked locked.journal _ ok.published rfl

/-- A slice is run exactly when a ready job was made running. -/
theorem dispatchLocked_answer (ok : RecordOk locked.record) :
    ((dispatchLocked env locked).1 = true ∧ locked.record.snapshot.state = .ready ∧
        (dispatchLocked env locked).2.record.snapshot.state = .running) ∨
      ((dispatchLocked env locked).1 = false ∧ locked.record.snapshot.state = .ready ∧
        isTerminal (dispatchLocked env locked).2.record.snapshot.state = true) ∨
      ((dispatchLocked env locked).1 = false ∧ locked.record.snapshot.state ≠ .ready ∧
        (dispatchLocked env locked).2 = locked) := by
  by_cases ready : locked.record.snapshot.state = .ready
  · have unpublished : locked.record.resultPublished = false := by
      rw [ok.published, ready]
      rfl
    rcases @persistTransitionLocked_cases _ env locked unpublished .running []
      with persisted | ⟨log, what, hasLog, failing, failed⟩
    · exact .inl (by simp [dispatchLocked, ready, persisted, JobRecord.start])
    · exact .inr (.inl (by simp [dispatchLocked, ready, failed, JobRecord.publish]))
  · exact .inr (.inr (by simp [dispatchLocked, ready]))

/-- A slice's job is ready again exactly when it is to be requeued, and finished otherwise. -/
theorem recordSliceLocked_answer (result : SliceResult) (ok : RecordOk locked.record)
    (running : locked.record.snapshot.state = .running) :
    ((recordSliceLocked env result locked).1 = true ∧
        (recordSliceLocked env result locked).2.record.snapshot.state = .ready) ∨
      ((recordSliceLocked env result locked).1 = false ∧
        isTerminal (recordSliceLocked env result locked).2.record.snapshot.state = true) := by
  have published : (locked.record.consume result.workUnitsConsumed).resultPublished =
      isTerminal (locked.record.consume result.workUnitsConsumed).snapshot.state := ok.published
  have unpublished : (locked.record.consume result.workUnitsConsumed).resultPublished = false :=
    published.trans (by simp [JobRecord.consume, running])
  unfold recordSliceLocked
  cases result.status with
  | yielded =>
      simp only
      split
      · exact .inr ⟨rfl, isTerminal_finishLocked locked.journal _ published rfl⟩
      · rcases @persistTransitionLocked_cases _ env
          ⟨locked.record.consume result.workUnitsConsumed, locked.journal⟩ unpublished .ready
          result.message with persisted | ⟨log, what, hasLog, failing, failed⟩
        · exact .inl (by simp [persisted, JobRecord.backToReady])
        · exact .inr (by simp [failed, JobRecord.publish])
  | completed => exact .inr ⟨rfl, isTerminal_finishLocked locked.journal _ published rfl⟩
  | failed => exact .inr ⟨rfl, isTerminal_finishLocked locked.journal _ published rfl⟩
  | cancelled => exact .inr ⟨rfl, isTerminal_finishLocked locked.journal _ published rfl⟩

/-- A cancelled job is finished if it was ready, and keeps running if it ran. -/
theorem cancelLocked_state (ok : RecordOk locked.record) :
    (cancelLocked env locked).2.record.snapshot.state = locked.record.snapshot.state ∨
      (locked.record.snapshot.state = .ready ∧
        isTerminal (cancelLocked env locked).2.record.snapshot.state = true) := by
  unfold cancelLocked
  split
  · exact .inl rfl
  · simp only
    split
    · next waiting =>
        refine .inr ⟨?_, isTerminal_finishLocked locked.journal _ ok.published rfl⟩
        exact waiting.resolve_right ok.begun
    · exact .inl rfl

end Sections

/-! ## What such changes keep -/

namespace Change

variable {env : Environment} {units : WorkUnits} {before after : Locked Task}

theorem recordOk (change : Change env units before after) (ok : RecordOk before.record) :
    RecordOk after.record := by
  cases change with
  | keep => exact ok
  | requestStop running =>
      refine ⟨ok.published, ok.promise, ok.begun, ok.entry, ?_⟩
      intro ready
      simp [JobRecord.requestStop, running] at ready
  | start now ready =>
      have unpublished := ok.published
      have promise := ok.promise
      simp only [ready, isTerminal_ready] at unpublished
      simp only [unpublished, Bool.false_eq_true, if_false] at promise
      exact ⟨unpublished, by simp [JobRecord.start, unpublished, promise], by simp [JobRecord.start],
        ok.entry, by simp [JobRecord.start]⟩
  | yield units message running unstopped =>
      have unpublished := ok.published
      have promise := ok.promise
      simp only [running, isTerminal_running] at unpublished
      simp only [unpublished, Bool.false_eq_true, if_false] at promise
      exact ⟨unpublished,
        by simp [JobRecord.backToReady, JobRecord.consume, unpublished, promise],
        by simp [JobRecord.backToReady], ok.entry, fun _ => unstopped⟩
  | finish message now prepared terminal fromReady =>
      exact prepared.recordOk_publish ok message now terminal
  | fail now prepared failing => exact prepared.recordOk_publish ok _ now rfl

theorem sameIdentity (change : Change env units before after) :
    SameIdentity before.record after.record := by
  cases change with
  | keep => exact .refl _
  | requestStop running => exact ⟨rfl, rfl, rfl, rfl, rfl, rfl⟩
  | start now ready => exact ⟨rfl, rfl, rfl, rfl, rfl, rfl⟩
  | yield units message running unstopped => exact ⟨rfl, rfl, rfl, rfl, rfl, rfl⟩
  | finish message now prepared terminal fromReady =>
      exact prepared.sameIdentity.trans ⟨rfl, rfl, rfl, rfl, rfl, rfl⟩
  | fail now prepared failing =>
      exact prepared.sameIdentity.trans ⟨rfl, rfl, rfl, rfl, rfl, rfl⟩

theorem task (change : Change env units before after) : after.record.task = before.record.task := by
  cases change with
  | finish message now prepared terminal fromReady => exact prepared.task
  | fail now prepared failing => exact prepared.task
  | _ => rfl

theorem consumed (change : Change env units before after) :
    after.record.snapshot.workUnitsConsumed =
      before.record.snapshot.workUnitsConsumed + units := by
  cases change with
  | keep => simp
  | requestStop running => simp [JobRecord.requestStop]
  | start now ready => simp [JobRecord.start]
  | yield units message running unstopped => rfl
  | finish message now prepared terminal fromReady => exact prepared.consumed_eq
  | fail now prepared failing => exact prepared.consumed_eq

/-- A terminal record is never touched again. -/
theorem eq_of_terminal (change : Change env units before after)
    (terminal : isTerminal before.record.snapshot.state = true) : after = before := by
  cases change with
  | keep => rfl
  | requestStop running => simp [running] at terminal
  | start now ready => simp [ready] at terminal
  | yield units message running unstopped => simp [running] at terminal
  | finish message now prepared _ fromReady => simp [prepared.live] at terminal
  | fail now prepared failing => simp [prepared.live] at terminal

/-- A section appends at most one transition, and only for its own job. -/
theorem journal (change : Change env units before after) :
    after.journal = before.journal ∨ ∃ transition : JobTransitionRecord,
      transition.id = before.record.snapshot.id ∧
        after.journal = before.journal.add (.transition transition) := by
  cases change with
  | keep => exact .inl rfl
  | requestStop running => exact .inl rfl
  | start now ready => exact .inr ⟨_, rfl, rfl⟩
  | yield units message running unstopped => exact .inr ⟨_, rfl, rfl⟩
  | finish message now prepared terminal fromReady =>
      exact .inr ⟨_, prepared.sameIdentity.id, rfl⟩
  | fail now prepared failing => exact .inl rfl

end Change

/-- The moves of a job's state. -/
inductive StateMove : JobState → JobState → Prop
  | stay (state : JobState) : StateMove state state
  | dispatch : StateMove .ready .running
  | requeue : StateMove .running .ready
  | finish {state : JobState} (terminal : isTerminal state = true) : StateMove .running state
  | cancel : StateMove .ready .cancelled

/-- A job moves as its life cycle allows, or fails because it could not be journaled. -/
theorem Change.stateMove {env : Environment} {units : WorkUnits} {before after : Locked Task}
    (change : Change env units before after) (ok : RecordOk before.record) :
    StateMove before.record.snapshot.state after.record.snapshot.state ∨
      (before.record.snapshot.state = .ready ∧ after.record.snapshot.state = .failed ∧
        ∃ what, env.appendError before.record.snapshot.id = some what ∧
          after.record.snapshot.message = walFailure what) := by
  cases change with
  | keep => exact .inl (.stay _)
  | requestStop running => exact .inl (.stay _)
  | start now ready =>
      left
      rw [ready]
      exact .dispatch
  | yield units message running unstopped =>
      left
      rw [running]
      exact .requeue
  | @finish record ready journal units state message now prepared terminal fromReady =>
      left
      change StateMove record.snapshot.state state
      cases current : record.snapshot.state with
      | ready =>
          rw [fromReady current]
          exact .cancel
      | running => exact .finish terminal
      | new => exact absurd current ok.begun
      | completed => simpa [current] using prepared.live
      | failed => simpa [current] using prepared.live
      | cancelled => simpa [current] using prepared.live
  | @fail record ready log units what now prepared failing =>
      cases current : record.snapshot.state with
      | ready => exact .inr ⟨rfl, rfl, what, failing, rfl⟩
      | running =>
          exact .inl (.finish rfl)
      | new => exact absurd current ok.begun
      | completed => simpa [current] using prepared.live
      | failed => simpa [current] using prepared.live
      | cancelled => simpa [current] using prepared.live

end Kronos.Engine
