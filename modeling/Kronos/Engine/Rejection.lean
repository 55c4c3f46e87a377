import Kronos.Common.Traces
import Kronos.Engine.Cancellation
import Kronos.Engine.Handles
import Kronos.Engine.RegistryGrowth

/-!
# Calls that throw

A call that throws should leave the registry, the queue and the journal alone.
Both `submit` and `restore` append to the journal before they register the job,
so a registration that is refused leaves a record behind.
-/

set_option autoImplicit false

namespace Kronos.Engine

variable {Task : Type}

/-! ## What a call has done when it throws -/

/-- The step is one of the call. -/
def OfCall (index : Nat) (taken : Taken (State Task) (Action Task)) : Prop :=
  ∃ env, taken.action = .call index env

/-- The step leaves the jobs, their journal, the pending entries and the configuration
of the scheduler as they were. -/
def Keeps (taken : Taken (State Task) (Action Task)) : Prop :=
  taken.after.registry = taken.before.registry ∧ taken.after.shared.queue = taken.before.shared.queue

/-- The call is at the section that registers its job. -/
def Stage.registers : Stage → Bool
  | .registerSubmission _ => true
  | .registerRestore _ => true
  | _ => false

/-- There is room for a job, and the id of a restored one is free. -/
def Registry.Accepts (registry : Registry Task) : Request Task → Prop
  | .restore _ submission =>
      registry.records.length < Registry.limit ∧ registry.find submission.id = none
  | _ => registry.records.length < Registry.limit

/-- A registration by the call is accepted. -/
def RegistersAccepted (index : Nat) (taken : Taken (State Task) (Action Task)) : Prop :=
  ∀ call ∈ taken.before.calls[index]?, call.stage.registers = true →
    taken.before.registry.Accepts call.request

/-- What the steps of a call come to, stage by stage: whether they kept what they
should, whether its registrations were accepted, and whether the journal has grown. -/
def Stage.Reports (kept accepted grown : Prop) : Stage → Prop
  | .entered => kept ∧ accepted
  | .drawId => kept ∧ accepted
  | .drawSequence _ => kept ∧ accepted
  | .journalSubmission _ => kept ∧ accepted
  | .journalRestore _ => kept ∧ accepted
  | .swapScheduler => kept ∧ accepted
  | .registerSubmission _ => ¬ kept ∧ accepted ∧ grown
  | .registerRestore _ => ¬ kept ∧ accepted ∧ grown
  | .threw _ => (kept ∧ accepted) ∨ (¬ kept ∧ ¬ accepted ∧ grown)
  | _ => True

theorem Stage.Reports.mono {kept accepted grown grown' : Prop} {stage : Stage}
    (reports : stage.Reports kept accepted grown) (further : grown → grown') :
    stage.Reports kept accepted grown' := by
  cases stage with
  | registerSubmission draft => exact ⟨reports.1, reports.2.1, further reports.2.2⟩
  | registerRestore submittedAt => exact ⟨reports.1, reports.2.1, further reports.2.2⟩
  | threw what => exact reports.imp_right fun refused => ⟨refused.1, refused.2.1, further refused.2.2⟩
  | _ => exact reports

theorem not_accepts_of_threw {env : Environment} {done : Bool} {shared next : Shared Task}
    {request : Request Task} {stage : Stage} {what : Bytes} (registers : stage.registers = true)
    (threw : callStep env shared done request stage = some (next, .threw what)) :
    ¬ shared.registry.Accepts request := by
  cases stage with
  | registerSubmission draft =>
      cases request with
      | submit task options =>
          cases task with
          | none => cases threw
          | some task =>
              simp only [callStep, registerSubmission, Option.some.injEq] at threw
              split at threw
              · next full => exact Nat.not_lt.mpr full
              · cases threw
      | _ => cases threw
  | registerRestore submittedAt =>
      cases request with
      | restore task submission =>
          cases task with
          | none => cases threw
          | some task =>
              simp only [callStep, registerRestore, Option.some.injEq] at threw
              split at threw
              · next full => exact fun accepts => Nat.not_lt.mpr full accepts.1
              · split at threw
                · next taken =>
                    rintro ⟨_, free⟩
                    rw [free] at taken
                    cases taken
                · cases threw
      | _ => cases threw
  | _ => cases registers

theorem Stage.Reports.step {env : Environment} {done : Bool} {shared next : Shared Task}
    {request : Request Task} {stage moved : Stage} {kept accepted grown : Prop}
    (reports : stage.Reports kept accepted grown) (journaled : shared.registry.journal ≠ none)
    (stepped : callStep env shared done request stage = some (next, moved))
    (appended : next.registry.journal ≠ shared.registry.journal → grown) :
    moved.Reports (kept ∧ next.registry = shared.registry ∧ next.queue = shared.queue)
      (accepted ∧ (stage.registers = true → shared.registry.Accepts request)) grown := by
  have same : ∀ {old : Stage}, old.registers = false → kept ∧ accepted →
      (kept ∧ shared.registry = shared.registry ∧ shared.queue = shared.queue) ∧
        (accepted ∧ (old.registers = true → shared.registry.Accepts request)) := by
    rintro old early ⟨first, second⟩
    refine ⟨⟨first, rfl, rfl⟩, second, ?_⟩
    rw [early]
    intro registers
    cases registers
  cases callTransition_of_step stepped with
  | reject what early =>
      by_cases registers : stage.registers = true
      · have refused := not_accepts_of_threw registers stepped
        right
        cases stage with
        | registerSubmission draft =>
            exact ⟨fun both => reports.1 both.1, fun both => refused (both.2 rfl), reports.2.2⟩
        | registerRestore submittedAt =>
            exact ⟨fun both => reports.1 both.1, fun both => refused (both.2 rfl), reports.2.2⟩
        | _ => cases registers
      · left
        refine same (Bool.eq_false_iff.mpr registers) ?_
        cases stage with
        | registerSubmission draft => exact absurd rfl registers
        | registerRestore submittedAt => exact absurd rfl registers
        | entered => exact reports
        | journalSubmission draft => exact reports
        | journalRestore submittedAt => exact reports
        | swapScheduler => exact reports
        | _ => cases early
  | beginSubmit is accepting => exact same rfl reports
  | drawId => exact same rfl reports
  | drawSequence => exact same rfl reports
  | beginRestore is accepting valid => exact same rfl reports
  | beginSetScheduler is => exact same rfl reports
  | unjournaledSubmission unjournaled => exact absurd unjournaled journaled
  | unjournaledRestore unjournaled => exact absurd unjournaled journaled
  | @journalSubmission draft task options spec log is written durable typed accepted =>
      have other : some (log ++ [JournalRecord.submission (submissionRecord options spec draft)]) ≠
          shared.registry.journal := by
        simp [written]
      exact ⟨fun both => other (congrArg Registry.journal both.2.1), (same rfl reports).2,
        appended other⟩
  | @journalRestore submittedAt task submission log is written accepted =>
      have other : some (log ++ [JournalRecord.transition
          ⟨submission.id, .ready, 0, recoveredMessage⟩]) ≠ shared.registry.journal := by
        simp [written]
      exact ⟨fun both => other (congrArg Registry.journal both.2.1), (same rfl reports).2,
        appended other⟩
  | _ => trivial

theorem Stage.Reports.congr {kept accepted grown kept' accepted' : Prop} {stage : Stage}
    (reports : stage.Reports kept accepted grown) (sameKept : kept ↔ kept')
    (sameAccepted : accepted ↔ accepted') : stage.Reports kept' accepted' grown := by
  rw [← propext sameKept, ← propext sameAccepted]
  exact reports

/-! ## Runs -/

/-- The call is made. -/
def State.invoke (engine : State Task) (request : Request Task) : State Task :=
  { engine with calls := engine.calls ++ [{ request }] }

/-- One more step of the call, and a property of all its steps. -/
theorem forall_own_append {index : Nat} {property : Taken (State Task) (Action Task) → Prop}
    {trace : List (Taken (State Task) (Action Task))} {last : Taken (State Task) (Action Task)} :
    (∀ taken ∈ trace ++ [last], OfCall index taken → property taken) ↔
      (∀ taken ∈ trace, OfCall index taken → property taken) ∧
        (OfCall index last → property last) := by
  rw [List.forall_mem_append]
  simp

theorem call_of_other [ITask Task] {engine next : State Task} {action : Action Task} {index : Nat}
    {call : Call Task} (called : engine.calls[index]? = some call)
    (stepped : engine.step action = some next) (other : ∀ env, action ≠ .call index env) :
    next.calls[index]? = some call := by
  have bound := (List.getElem?_eq_some_iff.mp called).1
  cases transition_of_step stepped with
  | invoke request => exact (List.getElem?_append_left bound).trans called
  | worker found move => exact called
  | @call moving env _ _ _ found move =>
      have different : moving ≠ index := fun same => other env (by rw [same])
      exact (List.getElem?_set_ne different).trans called

section Runs

variable [ITask Task] {engine later : State Task} {request : Request Task}
  {trace : List (Taken (State Task) (Action Task))}

/-- How far the call has come, with what its steps among those of the trace come to. -/
theorem reports_of_traces (journaled : engine.registry.journal ≠ none)
    (traced : Traces State.step (engine.invoke request) trace later) :
    engine.registry.journal.Extends later.registry.journal ∧
      ∃ stage, later.calls[engine.calls.length]? = some ⟨request, stage⟩ ∧
        stage.Reports (∀ taken ∈ trace, OfCall engine.calls.length taken → Keeps taken)
          (∀ taken ∈ trace, OfCall engine.calls.length taken →
            RegistersAccepted engine.calls.length taken)
          (engine.registry.journal.Longer later.registry.journal) := by
  refine traced.invariant (fun trace state => engine.registry.journal.Extends state.registry.journal ∧
      ∃ stage, state.calls[engine.calls.length]? = some ⟨request, stage⟩ ∧
        stage.Reports (∀ taken ∈ trace, OfCall engine.calls.length taken → Keeps taken)
          (∀ taken ∈ trace, OfCall engine.calls.length taken →
            RegistersAccepted engine.calls.length taken)
          (engine.registry.journal.Longer state.registry.journal)) ?_ ?_
  · refine ⟨.refl _, .entered, by simp [State.invoke], ?_, ?_⟩
    · exact fun _ member => absurd member List.not_mem_nil
    · exact fun _ member => absurd member List.not_mem_nil
  · rintro trace state action next ⟨extends', stage, called, reports⟩ stepped
    have grows := (extends_step stepped).journal
    refine ⟨extends'.trans grows, ?_⟩
    have further : engine.registry.journal.Longer state.registry.journal →
        engine.registry.journal.Longer next.registry.journal := fun longer =>
      longer.extends_after grows
    by_cases own : ∃ env, action = .call engine.calls.length env
    · obtain ⟨env, rfl⟩ := own
      obtain ⟨shared, moved, ran, rfl⟩ := callStep_of_step called stepped
      have bound := (List.getElem?_eq_some_iff.mp called).1
      refine ⟨moved, List.getElem?_set_self bound, ?_⟩
      have reported := (reports.mono further).step (extends'.ne_none journaled) ran fun other =>
        .before_extends extends' (.of_extends grows other)
      refine reported.congr ?_ ?_
      · rw [forall_own_append]
        exact and_congr_right fun _ => ⟨fun keeps _ => keeps, fun keeps => keeps ⟨env, rfl⟩⟩
      · rw [forall_own_append]
        refine and_congr_right fun _ => ⟨?_, ?_⟩
        · intro accepts _ call is registers
          rw [called] at is
          cases is
          exact accepts registers
        · intro accepts registers
          exact accepts ⟨env, rfl⟩ _ called registers
    · have other : ∀ env, action ≠ .call engine.calls.length env := fun env is => own ⟨env, is⟩
      refine ⟨stage, call_of_other called stepped other, (reports.mono further).congr ?_ ?_⟩
      · rw [forall_own_append]
        exact ⟨fun kept => ⟨kept, fun is => absurd is own⟩, And.left⟩
      · rw [forall_own_append]
        exact ⟨fun accepted => ⟨accepted, fun is => absurd is own⟩, And.left⟩

/-- A run of steps that all keep the registry and the queue keeps them. -/
theorem kept_of_traces {start : State Task} (traced : Traces State.step start trace later)
    (kept : ∀ taken ∈ trace, Keeps taken) :
    later.registry = start.registry ∧ later.shared.queue = start.shared.queue := by
  induction traced with
  | refl => exact ⟨rfl, rfl⟩
  | tail action _ stepped ih =>
      obtain ⟨old, last⟩ := List.forall_mem_append.mp kept
      obtain ⟨registry, queue⟩ := ih old
      obtain ⟨lastRegistry, lastQueue⟩ := List.forall_mem_singleton.mp last
      exact ⟨lastRegistry.trans registry, lastQueue.trans queue⟩

end Runs

/-- The steps of a call that throws keep the registry, the journal and the queue
exactly when the call never came to register a job that was not accepted: with no
room in the registry, or under a restored id that was taken. With no other steps
between its own, everything is then as it was before the call, and only then. -/
theorem threw_kept_iff_accepted [ITask Task] (engine later : State Task) (request : Request Task)
    (trace : List (Taken (State Task) (Action Task))) (what : Bytes)
    (journaled : engine.registry.journal ≠ none)
    (traced : Traces State.step (engine.invoke request) trace later)
    (threw : later.calls[engine.calls.length]? = some ⟨request, .threw what⟩) :
    ((∀ taken ∈ trace, OfCall engine.calls.length taken → Keeps taken) ↔
      ∀ taken ∈ trace, OfCall engine.calls.length taken →
        RegistersAccepted engine.calls.length taken) ∧
    ((∀ taken ∈ trace, OfCall engine.calls.length taken) →
      (later.registry = engine.registry ∧ later.shared.queue = engine.shared.queue ↔
        ∀ taken ∈ trace, RegistersAccepted engine.calls.length taken)) := by
  obtain ⟨extends', stage, called, reports⟩ := reports_of_traces journaled traced
  rw [threw] at called
  cases called
  refine ⟨?_, ?_⟩
  · rcases reports with ⟨kept, accepted⟩ | ⟨changed, refused, _⟩
    · exact ⟨fun _ => accepted, fun _ => kept⟩
    · exact ⟨fun kept => absurd kept changed, fun accepted => absurd accepted refused⟩
  · intro undisturbed
    rcases reports with ⟨kept, accepted⟩ | ⟨changed, refused, grown⟩
    · have same := kept_of_traces traced fun taken member =>
        kept taken member (undisturbed taken member)
      exact ⟨fun _ taken member => accepted taken member (undisturbed taken member), fun _ => same⟩
    · refine ⟨fun same => ?_, fun accepted => absurd (fun taken member _ => accepted taken member)
        refused⟩
      exact absurd (congrArg Registry.journal same.1) (grown.ne journaled)

/-! ## A restore of a job that is there already -/

/-- The sample job has run to its end, in three slices. -/
def endedActions : List (Action BuiltinTask) :=
  .invoke (.submit (some sampleTask) sampleOptions) :: List.replicate 6 (.call 0 {}) ++
    List.replicate 17 (.worker 0 {})

private theorem ended_ran :
    (runAll State.step AnyStep slicedStart endedActions).isSome = true := by
  decide +kernel

def endedState : State BuiltinTask := Option.get _ ended_ran

theorem endedState_reached : Reaches State.step AnyStep slicedStart endedState :=
  reaches_of_runAll (Option.some_get ended_ran).symm

theorem endedState_journaled : endedState.registry.journal ≠ none := by decide +kernel

def endedRestore : Request BuiltinTask := .restore (some sampleTask) restoredSubmission

private theorem refusedRestore_ran :
    (traceAll State.step (endedState.invoke endedRestore)
      (List.replicate 3 (.call 1 {}))).isSome = true := by
  decide +kernel

/-- The steps of the restore, and the state it leaves. -/
def refusedRun : List (Taken (State BuiltinTask) (Action BuiltinTask)) × State BuiltinTask :=
  Option.get _ refusedRestore_ran

theorem refusedRun_traced :
    Traces State.step (endedState.invoke endedRestore) refusedRun.1 refusedRun.2 :=
  traces_of_traceAll (Option.some_get refusedRestore_ran).symm

/-- A recovery of the journal says that the job is complete. A restore under its
id throws, and from there on a recovery says that the job is to be run again. -/
theorem refused_restore_changes_recovery :
    Starts slicedStart ∧ Reaches State.step AnyStep slicedStart endedState ∧
      Traces State.step (endedState.invoke endedRestore) refusedRun.1 refusedRun.2 ∧
      refusedRun.2.calls[1]? =
        some ⟨endedRestore, .threw (text "recovered job ID already exists")⟩ ∧
      endedState.registry.journal.map (fun log => (log.length, ((replay log).find 1).map (·.state))) =
        some (7, some .completed) ∧
      refusedRun.2.registry.journal.map
          (fun log => (log.length, ((replay log).find 1).map (·.state))) =
        some (8, some .ready) :=
  ⟨slicedStart_starts, endedState_reached, refusedRun_traced, by decide +kernel, by decide +kernel,
    by decide +kernel⟩

def endedSubmit : Request BuiltinTask := .submit (some sampleTask) sampleOptions

private theorem unwritten_ran :
    (traceAll State.step (endedState.invoke endedSubmit)
      (List.replicate 4 (.call 1 brokenJournal))).isSome = true := by
  decide +kernel

/-- The steps of a submission whose append throws. -/
def unwrittenRun : List (Taken (State BuiltinTask) (Action BuiltinTask)) × State BuiltinTask :=
  Option.get _ unwritten_ran

theorem unwrittenRun_kept :
    (∀ taken ∈ unwrittenRun.1, OfCall 1 taken → Keeps taken) ∧
      ∀ taken ∈ unwrittenRun.1, RegistersAccepted 1 taken := by
  have ran : traceAll State.step (endedState.invoke endedSubmit)
      (List.replicate 4 (.call 1 brokenJournal)) = some (unwrittenRun.1, unwrittenRun.2) :=
    (Option.some_get unwritten_ran).symm
  have own : ∀ taken ∈ unwrittenRun.1, OfCall 1 taken := by
    intro taken member
    have is : taken.action ∈ unwrittenRun.1.map (·.action) := List.mem_map_of_mem member
    rw [actions_of_traceAll ran] at is
    exact ⟨brokenJournal, List.eq_of_mem_replicate is⟩
  obtain ⟨kept, undisturbed⟩ := threw_kept_iff_accepted endedState unwrittenRun.2 endedSubmit
    unwrittenRun.1 (text "failed to append WAL record: No space left on device") endedState_journaled (traces_of_traceAll ran)
    (by decide +kernel)
  have accepted := (undisturbed own).mp (by decide +kernel)
  exact ⟨kept.mpr fun taken member _ => accepted taken member, accepted⟩

end Kronos.Engine
