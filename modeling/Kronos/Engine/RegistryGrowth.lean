import Kronos.Engine.RegistryProperties
import Kronos.Engine.Transition

/-!
# The registry only grows

Whatever the engine does, and whether ids are distinct or not, nothing is taken
out of the journal, and records stay where they are and keep their entries.
-/

set_option autoImplicit false

namespace Kronos.Engine

variable {Task : Type}

def Journal.Extends (before after : Journal) : Prop := ∃ added, after = before.map (· ++ added)

namespace Journal.Extends

variable {first second third : Journal}

theorem refl (journal : Journal) : Extends journal journal :=
  ⟨[], by simp⟩

theorem add (journal : Journal) (record : JournalRecord) : Extends journal (journal.add record) :=
  ⟨[record], rfl⟩

theorem trans (left : Extends first second) (right : Extends second third) :
    Extends first third := by
  obtain ⟨some, rfl⟩ := left
  obtain ⟨more, rfl⟩ := right
  exact ⟨some ++ more, by simp [Option.map_map, Function.comp_def]⟩

theorem ne_none (extends' : Extends first second) (journaled : first ≠ none) : second ≠ none := by
  obtain ⟨added, rfl⟩ := extends'
  simpa using journaled

end Journal.Extends

/-- Something was appended. -/
def Journal.Longer (before after : Journal) : Prop :=
  ∃ record added, after = before.map (· ++ record :: added)

namespace Journal.Longer

variable {first second third : Journal}

theorem of_extends (extends' : Extends first second) (other : second ≠ first) :
    Longer first second := by
  obtain ⟨added, rfl⟩ := extends'
  cases added with
  | nil => exact absurd (by simp) other
  | cons record rest => exact ⟨record, rest, rfl⟩

theorem before_extends (left : Extends first second) (right : Longer second third) :
    Longer first third := by
  obtain ⟨some, rfl⟩ := left
  obtain ⟨record, more, rfl⟩ := right
  cases some with
  | nil => exact ⟨record, more, by simp⟩
  | cons head rest =>
      exact ⟨head, rest ++ record :: more, by simp [Option.map_map, Function.comp_def]⟩

theorem extends_after (left : Longer first second) (right : Extends second third) :
    Longer first third := by
  obtain ⟨record, some, rfl⟩ := left
  obtain ⟨more, rfl⟩ := right
  exact ⟨record, some ++ more, by simp [Option.map_map, Function.comp_def]⟩

theorem ne (longer : Longer first second) (journaled : first ≠ none) : second ≠ first := by
  obtain ⟨record, added, rfl⟩ := longer
  cases first with
  | none => exact absurd rfl journaled
  | some log => simp

end Journal.Longer

/-- What every section does: the journal is extended, by no submission, and the
entry is kept. -/
structure Locked.Extends (before after : Locked Task) : Prop where
  journal : before.journal.Extends after.journal
  submissions : after.journal.map submissions = before.journal.map submissions
  entry : after.record.entry = before.record.entry

/-- What a section does that requests no stop. -/
structure Locked.Moves (before after : Locked Task) : Prop extends Locked.Extends before after where
  stop : after.record.stopRequested = before.record.stopRequested

theorem Locked.Extends.refl (locked : Locked Task) : locked.Extends locked := ⟨.refl _, rfl, rfl⟩

theorem Locked.Moves.refl (locked : Locked Task) : locked.Moves locked := ⟨.refl _, rfl⟩

/-- Only the entry, the stop request and the journal matter. -/
theorem Locked.Moves.of_same {first before after last : Locked Task} (moves : before.Moves after)
    (begins : before.journal = first.journal ∧ before.record.entry = first.record.entry ∧
      before.record.stopRequested = first.record.stopRequested)
    (ends : last.journal = after.journal ∧ last.record.entry = after.record.entry ∧
      last.record.stopRequested = after.record.stopRequested) : first.Moves last := by
  obtain ⟨journal, entry, stop⟩ := begins
  obtain ⟨lastJournal, lastEntry, lastStop⟩ := ends
  refine ⟨⟨?_, ?_, ?_⟩, ?_⟩
  · rw [← journal, lastJournal]
    exact moves.journal
  · rw [← journal, lastJournal]
    exact moves.submissions
  · rw [← entry, lastEntry]
    exact moves.entry
  · rw [← stop, lastStop]
    exact moves.stop

section Sections

variable {env : Environment}

theorem moves_persistTransitionLocked (locked : Locked Task) (state : JobState)
    (message : Bytes) : locked.Moves (persistTransitionLocked env locked state message).2 := by
  unfold persistTransitionLocked
  split
  · exact .refl _
  · next log journaled =>
      split
      · refine ⟨⟨.add _ _, ?_, rfl⟩, rfl⟩
        simp [journaled, Journal.add, submissions, JournalRecord.submission?]
      · refine (Locked.Moves.refl locked).of_same ⟨rfl, rfl, rfl⟩ ⟨rfl, ?_, ?_⟩ <;>
          unfold failWithoutJournalLocked <;> split <;> rfl

theorem moves_finishLocked (locked : Locked Task) (state : JobState) (message : Bytes) :
    locked.Moves (finishLocked env locked state message) := by
  have persisted := @moves_persistTransitionLocked _ env locked state message
  unfold finishLocked
  split
  · exact .refl _
  · split
    · next failed same =>
        rw [same] at persisted
        exact persisted
    · next done same =>
        rw [same] at persisted
        exact persisted.of_same ⟨rfl, rfl, rfl⟩ ⟨rfl, rfl, rfl⟩

theorem moves_dispatchLocked (locked : Locked Task) :
    locked.Moves (dispatchLocked env locked).2 := by
  have persisted := @moves_persistTransitionLocked _ env locked .running []
  unfold dispatchLocked
  split
  · exact .refl _
  · split
    · next failed same =>
        rw [same] at persisted
        exact persisted
    · next done same =>
        rw [same] at persisted
        exact persisted.of_same ⟨rfl, rfl, rfl⟩ ⟨rfl, rfl, rfl⟩

theorem moves_recordSliceLocked (result : SliceResult) (locked : Locked Task) :
    locked.Moves (recordSliceLocked env result locked).2 := by
  have finished : ∀ state message, locked.Moves (finishLocked env
      ⟨locked.record.consume result.workUnitsConsumed, locked.journal⟩ state message) :=
    fun state message =>
      (moves_finishLocked ⟨locked.record.consume result.workUnitsConsumed, locked.journal⟩ state
        message).of_same ⟨rfl, rfl, rfl⟩ ⟨rfl, rfl, rfl⟩
  have persisted := @moves_persistTransitionLocked _ env
    ⟨locked.record.consume result.workUnitsConsumed, locked.journal⟩ .ready result.message
  unfold recordSliceLocked
  cases result.status with
  | yielded =>
      simp only
      split
      · exact finished _ _
      · split
        · next failed same =>
            rw [same] at persisted
            exact persisted.of_same ⟨rfl, rfl, rfl⟩ ⟨rfl, rfl, rfl⟩
        · next done same =>
            rw [same] at persisted
            exact persisted.of_same ⟨rfl, rfl, rfl⟩ ⟨rfl, rfl, rfl⟩
  | completed => exact finished _ _
  | failed => exact finished _ _
  | cancelled => exact finished _ _

theorem extends_stopped (locked : Locked Task) (state : JobState) (message : Bytes) :
    locked.Extends (finishLocked env ⟨locked.record.requestStop, locked.journal⟩ state message) :=
  have same := moves_finishLocked ⟨locked.record.requestStop, locked.journal⟩ state message
  ⟨same.journal, same.submissions, same.entry⟩

theorem extends_cancelLocked (locked : Locked Task) :
    locked.Extends (cancelLocked env locked).2 := by
  unfold cancelLocked
  split
  · exact .refl _
  · simp only
    split
    · exact extends_stopped _ _ _
    · exact ⟨.refl _, rfl, rfl⟩

theorem extends_shutdownLocked (locked : Locked Task) :
    locked.Extends (shutdownLocked env locked) := by
  unfold shutdownLocked
  split
  · exact .refl _
  · exact extends_stopped _ _ _

end Sections

namespace Registry

/-- The journal is extended, and every record keeps its place and its entry. -/
structure Extends (before after : Registry Task) : Prop where
  journal : before.journal.Extends after.journal
  heap : ∀ (ref : RecordRef) (record : JobRecord Task), before.heap[ref]? = some record →
    ∃ later, after.heap[ref]? = some later ∧ later.entry = record.entry

namespace Extends

variable {first second third : Registry Task}

theorem refl (registry : Registry Task) : registry.Extends registry :=
  ⟨.refl _, fun _ record read => ⟨record, read, rfl⟩⟩

theorem trans (left : first.Extends second) (right : second.Extends third) :
    first.Extends third := by
  refine ⟨left.journal.trans right.journal, ?_⟩
  intro ref record read
  obtain ⟨middle, readMiddle, sameMiddle⟩ := left.heap ref record read
  obtain ⟨later, readLater, sameLater⟩ := right.heap ref middle readMiddle
  exact ⟨later, readLater, sameLater.trans sameMiddle⟩

theorem set {registry : Registry Task} {ref : RecordRef} {record after : JobRecord Task}
    {journal : Journal} (read : registry.heap[ref]? = some record)
    (extended : registry.journal.Extends journal) (same : after.entry = record.entry) :
    registry.Extends { registry with heap := registry.heap.set ref after, journal } := by
  refine ⟨extended, ?_⟩
  intro other old readOld
  have bound : ref < registry.heap.length := (List.getElem?_eq_some_iff.mp read).1
  by_cases here : ref = other
  · subst here
    rw [read] at readOld
    cases readOld
    exact ⟨after, List.getElem?_set_self bound, same⟩
  · exact ⟨old, (List.getElem?_set_ne here).trans readOld, rfl⟩

theorem store {registry : Registry Task} {ref : RecordRef} {locked left : Locked Task}
    (read : registry.locked ref = some locked) (extended : locked.Extends left) :
    registry.Extends (registry.store ref left) := by
  obtain ⟨readRecord, same⟩ := locked_eq_some read
  refine .set readRecord ?_ extended.entry
  rw [← same]
  exact extended.journal

theorem register (registry : Registry Task) (record : JobRecord Task) (id : JobId)
    (ref : RecordRef) : registry.Extends ((registry.make record).emplace id ref) := by
  refine ⟨?_, ?_⟩
  · rw [journal_emplace]
    exact .refl _
  · intro other old read
    have bound := (List.getElem?_eq_some_iff.mp read).1
    rw [heap_emplace]
    exact ⟨old, (List.getElem?_append_left bound).trans read, rfl⟩

theorem write {registry : Registry Task} {log : List JournalRecord} (record : JournalRecord)
    (journaled : registry.journal = some log) :
    registry.Extends { registry with journal := some (log ++ [record]) } := by
  refine ⟨?_, fun _ old read => ⟨old, read, rfl⟩⟩
  rw [journaled]
  exact .add _ _

end Extends

end Registry

theorem extends_cancelEntryLocked (env : Environment) (registry : Registry Task)
    (entry : SchedulerEntry) : registry.Extends (cancelEntryLocked env registry entry) := by
  unfold cancelEntryLocked
  split
  · exact .refl _
  · split
    · exact .refl _
    · next locked read => exact .store read (extends_shutdownLocked locked)

theorem extends_cancelPendingLocked (env : Environment) (registry : Registry Task)
    (pending : List SchedulerEntry) :
    registry.Extends (cancelPendingLocked env registry pending) := by
  induction pending generalizing registry with
  | nil => exact .refl _
  | cons entry rest ih => exact (extends_cancelEntryLocked env registry entry).trans (ih _)

theorem extends_worker [ITask Task] {env : Environment} {shared next : Shared Task}
    {worker moved : Worker} (move : WorkerTransition env shared worker next moved) :
    shared.registry.Extends next.registry := by
  cases move with
  | dispatch read => exact .store read (moves_dispatchLocked _).toExtends
  | slice read observed ran => exact .set read (.refl _) rfl
  | record read => exact .store read (moves_recordSliceLocked _ _).toExtends
  | _ => exact .refl _

theorem extends_call {env : Environment} {done : Bool} {request : Request Task}
    {shared next : Shared Task} {stage moved : Stage}
    (move : CallTransition env done request shared stage next moved) :
    shared.registry.Extends next.registry := by
  cases move with
  | journalSubmission is journaled durable typed appended => exact .write _ journaled
  | journalRestore is journaled appended => exact .write _ journaled
  | registerSubmission is room => exact .register _ _ _ _
  | registerRestore is fresh => exact .register _ _ _ _
  | raced read => exact .store read (moves_finishLocked _ _ _).toExtends
  | cancel read => exact .store read (extends_cancelLocked _)
  | cancelPending => exact extends_cancelPendingLocked _ _ _
  | _ => exact .refl _

theorem extends_step [ITask Task] {engine next : State Task} {action : Action Task}
    (stepped : engine.step action = some next) :
    engine.shared.registry.Extends next.shared.registry := by
  cases transition_of_step stepped with
  | invoke request => exact .refl _
  | worker found move => exact extends_worker move
  | call found move => exact extends_call move

end Kronos.Engine
