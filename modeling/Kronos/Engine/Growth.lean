import Kronos.Engine.JournalAgreement
import Kronos.JournalGrowth

/-!
# Steps of the engine grow the journal

As long as a call that journals a job does so for a new job, or for one that is
not finished, a step of the engine appends only what a log may grow by.
-/

set_option autoImplicit false

namespace Kronos.Engine

open Threads

variable {Task : Type}

/-- The registry's journal has grown from this log, by transitions only. -/
def GrownFrom (log : List JournalRecord) (registry : Registry Task) : Prop :=
  ∃ added, registry.journal = some (log ++ added) ∧ Grows log added ∧ submissions added = []

theorem GrownFrom.refl {log : List JournalRecord} {registry : Registry Task}
    (journaled : registry.journal = some log) : GrownFrom log registry :=
  ⟨[], by rw [journaled, List.append_nil], trivial, rfl⟩

/-- A section journals a transition of a job that is not finished. -/
theorem Change.grows {env : Environment} {units : WorkUnits} {before after : Locked Task}
    {log : List JournalRecord} (change : Change env units before after)
    (journaled : before.journal = some log) (agrees : Agrees log before.record) :
    ∃ added, after.journal = some (log ++ added) ∧ Grows log added ∧ submissions added = [] := by
  have quiet : after.journal = before.journal →
      ∃ added, after.journal = some (log ++ added) ∧ Grows log added ∧ submissions added = [] :=
    fun same => ⟨[], by rw [same, journaled, List.append_nil], trivial, rfl⟩
  cases terminal : isTerminal before.record.snapshot.state with
  | true => exact quiet (by rw [change.eq_of_terminal terminal])
  | false =>
      rcases change.journal with same | ⟨transition, sameId, added⟩
      · exact quiet same
      · obtain ⟨progress, known, state, _⟩ := agrees.told_of_live terminal
        refine ⟨[.transition transition], by rw [added, journaled]; rfl, grows_singleton.mpr ?_, rfl⟩
        exact .transition (by rw [sameId]; exact known) (by rw [state]; exact terminal)

theorem AllAgree.grows_section {env : Environment} {units : WorkUnits} {id : JobId}
    {registry next : Registry Task} {log : List JournalRecord} (all : AllAgree registry log)
    (ok : RegistryOk registry) (ran : Section env units id registry next) : GrownFrom log next := by
  obtain ⟨nextOk, record, after, known, change, recordOf⟩ := ran.recordOf ok
  exact change.grows all.journal (all.agrees id record known)

theorem AllAgree.grows_cancelPendingLocked {env : Environment} {registry : Registry Task}
    {log : List JournalRecord} (all : AllAgree registry log) (ok : RegistryOk registry)
    (pending : List SchedulerEntry) : GrownFrom log (Engine.cancelPendingLocked env registry pending) := by
  have holds := (@cancelPendingLocked_induction _ env registry ok pending
    (fun next => ∃ added, AllAgree next (log ++ added) ∧ Grows log added ∧ submissions added = [])
    ⟨[], by rw [List.append_nil]; exact all, trivial, rfl⟩ ?_).2
  · obtain ⟨added, allAfter, grows, transitions⟩ := holds
    exact ⟨added, allAfter.journal, grows, transitions⟩
  · rintro before after id beforeOk ⟨added, allBefore, grows, transitions⟩ ran _
    obtain ⟨more, journaled, further, alsoTransitions⟩ := allBefore.grows_section beforeOk ran
    obtain ⟨extended, allAfter, _⟩ := allBefore.section beforeOk ran
    rw [allAfter.journal, Option.some.injEq] at journaled
    subst journaled
    refine ⟨added ++ more, by rwa [← List.append_assoc], grows_append.mpr ⟨grows, further⟩, ?_⟩
    rw [submissions_append, transitions, alsoTransitions]
    rfl

/-- What the record of a call that is about to journal needs. -/
def Call.JournalsLive (log : List JournalRecord) (call : Call Task) : Prop :=
  match call.stage, call.request with
  | .journalSubmission draft, .submit _ options =>
      draft.id ∉ submittedIds log ∧ draft.id ≠ 0 ∧ options.estimatedWorkUnits ≠ 0
  | .journalRestore _, .restore _ submission =>
      ∃ progress, progressOf log submission.id = some progress ∧
        isTerminal progress.state = false
  | _, _ => True

/-- The call journals a submission. -/
inductive Submits : Request Task → Stage → Stage → List JournalRecord → Prop
  | mk {task : Option Task} {options : SubmissionOptions} {draft : Draft} {spec : DurableTaskSpec}
      (durable : options.durableSpec = some spec) :
      Submits (.submit task options) (.journalSubmission draft) (.registerSubmission draft)
        [.submission (submissionRecord options spec draft)]

section Steps

variable {engine : State Task} {log : List JournalRecord} {env : Environment} {shared : Shared Task}

theorem JournalSound.grows_worker [ITask Task] {worker moved : Worker}
    (journal : JournalSound engine log) (member : worker ∈ engine.workers)
    (move : WorkerTransition env engine.shared worker shared moved) :
    GrownFrom log shared.registry := by
  have refers := journal.sound.workers worker member
  cases move with
  | @dispatch dispatch ref locked read =>
      have ok := journal.sound.registry.recordOk _
        (List.mem_of_getElem? (Registry.locked_eq_some read).1)
      exact journal.all.grows_section journal.sound.registry
        (.mk refers read (change_dispatchLocked ok))
  | @record dispatch ref result locked read =>
      have lockedRead := (Registry.locked_eq_some read).1
      have ok := journal.sound.registry.recordOk _ (List.mem_of_getElem? lockedRead)
      have running := journal.sound.running_at member
        (show 0 < Worker.executes dispatch.entry.id _ by simp [Worker.executes]) refers lockedRead
      exact journal.all.grows_section journal.sound.registry
        (.mk refers read (change_recordSliceLocked result ok running))
  | _ => exact .refl journal.all.journal

theorem JournalSound.grows_call {done : Bool} {request : Request Task} {stage moved : Stage}
    (journal : JournalSound engine log) (member : ⟨request, stage⟩ ∈ engine.calls)
    (journals : Call.JournalsLive log ⟨request, stage⟩)
    (move : CallTransition env done request engine.shared stage shared moved) :
    ∃ added, shared.registry.journal = some (log ++ added) ∧ Grows log added ∧
      (submissions added = [] ∨ Submits request stage moved added) := by
  have refers := journal.sound.calls _ member
  have ok : ∀ {ref : RecordRef} {locked : Locked Task}, engine.registry.locked ref = some locked →
      RecordOk locked.record := fun read =>
    journal.sound.registry.recordOk _ (List.mem_of_getElem? (Registry.locked_eq_some read).1)
  have quiet : GrownFrom log shared.registry →
      ∃ added, shared.registry.journal = some (log ++ added) ∧ Grows log added ∧
        (submissions added = [] ∨ Submits request stage moved added) :=
    fun ⟨added, journaled, grows, transitions⟩ => ⟨added, journaled, grows, .inl transitions⟩
  cases move with
  | @journalSubmission draft task options spec written is journaled durable typed appended =>
      subst is
      have same : written = log :=
        Option.some.inj (journaled.symm.trans journal.all.journal)
      subst same
      refine ⟨[_], rfl, grows_singleton.mpr (.submission journals.1 ?_), .inr (.mk durable)⟩
      exact ⟨journals.2.1, journals.2.2, typed⟩
  | @journalRestore submittedAt task submission written is journaled appended =>
      subst is
      have same : written = log :=
        Option.some.inj (journaled.symm.trans journal.all.journal)
      subst same
      obtain ⟨progress, known, live⟩ := journals
      exact ⟨[_], rfl, grows_singleton.mpr (.transition known live), .inl rfl⟩
  | registerSubmission is room =>
      exact quiet (.refl ((Registry.journal_emplace _ _ _).trans journal.all.journal))
  | registerRestore is fresh =>
      exact quiet (.refl ((Registry.journal_emplace _ _ _).trans journal.all.journal))
  | raced read =>
      exact quiet (journal.all.grows_section journal.sound.registry
        (.mk refers read (change_finishLocked_raced (ok read) _)))
  | cancel read =>
      obtain ⟨id, registered⟩ := refers
      exact quiet (journal.all.grows_section journal.sound.registry
        (.mk registered read (change_cancelLocked (ok read))))
  | cancelPending =>
      exact quiet (journal.all.grows_cancelPendingLocked journal.sound.registry _)
  | _ => exact quiet (.refl journal.all.journal)

end Steps

end Kronos.Engine
