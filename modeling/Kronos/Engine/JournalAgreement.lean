import Kronos.Engine.Handles
import Kronos.Engine.Publication

/-!
# Registry and journal

The write-ahead rule: replaying the appended records gives what the registry
shows of every job, except for a job that failed because its transition could
not be appended. The rule rests on ids: a call that has journaled a job and not
registered it yet must be the only one to speak for that id.
-/

set_option autoImplicit false

namespace Kronos.Engine

open Threads

variable {Task : Type}

/-- What the replayed jobs say of a job is what its record shows. While a slice runs the
record still shows the message from before. -/
def Replays (jobs : Recovered) (record : JobRecord Task) : Prop :=
  ∃ job, jobs.find record.snapshot.id = some job ∧ job.state = record.snapshot.state ∧
    job.workUnitsConsumed = record.snapshot.workUnitsConsumed ∧
    (record.snapshot.state ≠ .running → job.message = record.snapshot.message)

/-- The same of the records of the job in a log. -/
def Told (log : List JournalRecord) (record : JobRecord Task) : Prop :=
  ∃ progress, progressOf log record.snapshot.id = some progress ∧
    progress.state = record.snapshot.state ∧
    progress.workUnitsConsumed = record.snapshot.workUnitsConsumed ∧
    (record.snapshot.state ≠ .running → progress.message = record.snapshot.message)

theorem Told.replays {log : List JournalRecord} {record : JobRecord Task} (told : Told log record)
    (replayable : Replayable log) : Replays (replay log) record := by
  obtain ⟨progress, known, state, consumed, message⟩ := told
  obtain ⟨job, found, rfl⟩ := find_replay replayable known
  exact ⟨job, found, state, consumed, message⟩

def Agrees (log : List JournalRecord) (record : JobRecord Task) : Prop :=
  Told log record ∨ FailedUnjournaled record

theorem Agrees.told_of_live {log : List JournalRecord} {record : JobRecord Task}
    (agrees : Agrees log record) (live : isTerminal record.snapshot.state = false) :
    Told log record := by
  rcases agrees with told | ⟨failed, _⟩
  · exact told
  · simp [failed] at live

theorem Agrees.congr {log other : List JournalRecord} {record : JobRecord Task}
    (agrees : Agrees log record)
    (same : progressOf other record.snapshot.id = progressOf log record.snapshot.id) :
    Agrees other record :=
  agrees.imp_left fun ⟨progress, known, rest⟩ => ⟨progress, same.trans known, rest⟩

/-- The records of one job in a log. -/
def recordsOf (log : List JournalRecord) (id : JobId) : List JournalRecord :=
  log.filter fun record => record.id = id

theorem recordsOf_append_other {log : List JournalRecord} {record : JournalRecord} {id : JobId}
    (other : record.id ≠ id) : recordsOf (log ++ [record]) id = recordsOf log id := by
  simp [recordsOf, other]

/-! ## Sections -/

/-- A section that changes a record journals the change first. -/
theorem Change.agrees {env : Environment} {units : WorkUnits} {before after : Locked Task}
    {log : List JournalRecord} (change : Change env units before after)
    (journaled : before.journal = some log) (agrees : Agrees log before.record) :
    ∃ extended, after.journal = some extended ∧ Agrees extended after.record ∧
      (Replayable log → Replayable extended) ∧
      (∀ other, other ≠ before.record.snapshot.id →
        progressOf extended other = progressOf log other ∧
          recordsOf extended other = recordsOf log other) ∧
      (isTerminal before.record.snapshot.state = true → extended = log) := by
  -- an appended transition of the job itself decides its progress
  have appended : ∀ transition : JobTransitionRecord,
      transition.id = before.record.snapshot.id → Told log before.record →
      progressOf (log ++ [.transition transition]) before.record.snapshot.id =
          some transition.progress ∧
        (Replayable log → Replayable (log ++ [.transition transition])) ∧
        ∀ other, other ≠ before.record.snapshot.id →
          progressOf (log ++ [.transition transition]) other = progressOf log other ∧
            recordsOf (log ++ [.transition transition]) other = recordsOf log other := by
    rintro transition same ⟨progress, known, _⟩
    rw [← same] at known ⊢
    refine ⟨progressOf_append_transition known, fun replayable => ?_, fun other different => ?_⟩
    · exact replayable_append_transition.mpr
        ⟨replayable, progressOf_isSome_iff.mp (Option.isSome_of_eq_some known)⟩
    · have apart : (JournalRecord.transition transition).id ≠ other := different.symm
      exact ⟨progressOf_append_other apart, recordsOf_append_other apart⟩
  cases change with
  | keep => exact ⟨log, journaled, agrees, id, fun _ _ => ⟨rfl, rfl⟩, fun _ => rfl⟩
  | requestStop running =>
      exact ⟨log, journaled, agrees, id, fun _ _ => ⟨rfl, rfl⟩, fun _ => rfl⟩
  | @start record journal now ready =>
      have live : isTerminal record.snapshot.state = false := by rw [ready]; rfl
      obtain ⟨own, replays, others⟩ := appended (record.transition .running []) rfl
        (agrees.told_of_live live)
      simp only at journaled
      refine ⟨_, by rw [journaled]; rfl, .inl ⟨_, own, rfl, rfl, ?_⟩, replays, others, ?_⟩
      · intro waiting
        exact absurd rfl waiting
      · intro terminal
        simp [ready] at terminal
  | @yield record journal units message running unstopped =>
      have live : isTerminal record.snapshot.state = false := by rw [running]; rfl
      obtain ⟨own, replays, others⟩ := appended ((record.consume units).transition .ready message) rfl
        (agrees.told_of_live live)
      simp only at journaled
      refine ⟨_, by rw [journaled]; rfl, .inl ⟨_, own, rfl, rfl, fun _ => rfl⟩, replays, others, ?_⟩
      intro terminal
      simp [running] at terminal
  | @finish record ready journal units state message now prepared terminal fromReady =>
      have sameId := prepared.sameIdentity.id
      obtain ⟨own, replays, others⟩ := appended (ready.transition state message) sameId
        (agrees.told_of_live prepared.live)
      simp only at journaled
      refine ⟨_, by rw [journaled]; rfl,
        .inl ⟨(ready.transition state message).progress, ?_, rfl, rfl, fun _ => rfl⟩, replays, others, ?_⟩
      · change progressOf _ ready.snapshot.id = _
        rw [sameId]
        exact own
      · intro already
        simp [prepared.live] at already
  | @fail record ready log' units what now prepared failing =>
      refine ⟨log, journaled, .inr ⟨rfl, what, rfl⟩, id, fun _ _ => ⟨rfl, rfl⟩, fun _ => rfl⟩

/-- The journal is this log, and every registered job agrees with it. -/
structure AllAgree (registry : Registry Task) (log : List JournalRecord) : Prop where
  journal : registry.journal = some log
  agrees : ∀ id record, registry.recordOf id = some record → Agrees log record

/-- What a step may do to the log: it says nothing new of finished jobs and of
unregistered ones, but for the one that a call is about to register. -/
structure Extends (registry : Registry Task) (spoken : Option JobId)
    (log extended : List JournalRecord) : Prop where
  replayable : Replayable log → Replayable extended
  unregistered : ∀ id, registry.find id = none → spoken ≠ some id →
    progressOf extended id = progressOf log id
  finished : ∀ id record, registry.recordOf id = some record →
    isTerminal record.snapshot.state = true → recordsOf extended id = recordsOf log id

theorem Extends.refl (registry : Registry Task) (spoken : Option JobId)
    (log : List JournalRecord) : Extends registry spoken log log :=
  ⟨id, fun _ _ _ => rfl, fun _ _ _ _ => rfl⟩

theorem Extends.speaking {registry : Registry Task} {log extended : List JournalRecord}
    (extends' : Extends registry none log extended) (spoken : Option JobId) :
    Extends registry spoken log extended :=
  ⟨extends'.replayable, fun id free _ => extends'.unregistered id free nofun, extends'.finished⟩

theorem AllAgree.section {env : Environment} {units : WorkUnits} {id : JobId}
    {registry next : Registry Task} {log : List JournalRecord} (all : AllAgree registry log)
    (ok : RegistryOk registry) (ran : Section env units id registry next) :
    ∃ extended, AllAgree next extended ∧ Extends registry none log extended := by
  obtain ⟨nextOk, record, after, known, change, recordOf⟩ := ran.recordOf ok
  have sameId := (ok.recordOf_ok known).2
  obtain ⟨extended, journaled, agrees, replays, others, final⟩ :=
    change.agrees all.journal (all.agrees id record known)
  simp only [sameId] at journaled agrees others
  refine ⟨extended, ⟨journaled, ?_⟩, replays, ?_, ?_⟩
  · intro other otherRecord otherKnown
    rw [recordOf] at otherKnown
    split at otherKnown
    · cases otherKnown
      exact agrees
    · next different =>
        have otherId := (ok.recordOf_ok otherKnown).2
        refine (all.agrees other otherRecord otherKnown).congr ?_
        rw [otherId]
        exact (others other different).1
  · intro other missing _
    refine (others other ?_).1
    rintro rfl
    simp [Registry.recordOf, missing] at known
  · intro other otherRecord otherKnown terminal
    by_cases same : other = id
    · subst same
      rw [known] at otherKnown
      cases otherKnown
      rw [final terminal]
    · exact (others other same).2

/-- The loop of a cancelling shutdown keeps the agreement. -/
theorem AllAgree.cancelPendingLocked {env : Environment} {registry : Registry Task}
    {log : List JournalRecord} (all : AllAgree registry log) (ok : RegistryOk registry)
    (pending : List SchedulerEntry) :
    ∃ extended, AllAgree (cancelPendingLocked env registry pending) extended ∧
      Extends registry none log extended := by
  have holds := (@cancelPendingLocked_induction _ env registry ok pending
    (fun next => (∀ id, next.find id = registry.find id) ∧
      (∀ id record, registry.recordOf id = some record →
        isTerminal record.snapshot.state = true → next.recordOf id = some record) ∧
      ∃ extended, AllAgree next extended ∧ Extends registry none log extended)
    ⟨fun _ => rfl, fun _ _ known _ => known, log, all, .refl registry none log⟩ ?_).2
  · exact holds.2.2
  · rintro before after id beforeOk ⟨find, final, extended, allBefore, extends'⟩ ran finished
    obtain ⟨longer, allAfter, further⟩ := allBefore.section beforeOk ran
    obtain ⟨_, record, changed, known, change, recordOf⟩ := ran.recordOf beforeOk
    refine ⟨fun other => (ran.find other).trans (find other), ?_, longer, allAfter,
      further.replayable ∘ extends'.replayable, ?_, ?_⟩
    · intro other otherRecord otherKnown terminal
      have kept := final other otherRecord otherKnown terminal
      rw [recordOf]
      split
      · next same =>
          rw [← same, kept] at known
          cases known
          exact congrArg (fun locked => some locked.record) (change.eq_of_terminal terminal)
      · exact kept
    · intro other missing unspoken
      rw [further.unregistered other ((find other).trans missing) unspoken,
        extends'.unregistered other missing unspoken]
    · intro other otherRecord otherKnown terminal
      rw [further.finished other otherRecord (final other otherRecord otherKnown terminal) terminal,
        extends'.finished other otherRecord otherKnown terminal]

/-! ## Calls that speak for an id -/

/-- The id a call is about to journal. -/
def Call.journals? (call : Call Task) : Option JobId :=
  match call.stage with
  | .journalSubmission draft => some draft.id
  | .journalRestore _ => call.request.recovered?.map (·.id)
  | _ => none

/-- The id a call has journaled and not registered yet, with what it journaled. -/
def Call.prepared? (call : Call Task) : Option (JobId × Progress) :=
  match call.stage with
  | .registerSubmission draft => some (draft.id, .submitted)
  | .registerRestore _ =>
      call.request.recovered?.map fun submission => (submission.id, ⟨.ready, 0, recoveredMessage⟩)
  | _ => none

def Call.prepares (id : JobId) (call : Call Task) : Nat :=
  if call.prepared?.map Prod.fst = some id then 1 else 0

/-- A call journals only an id that is not registered and that no other call has
journaled and not registered yet; a submission, one that the journal does not hold yet,
and a restore, a job of the journal. -/
def JournalsFreeIds (engine : State Task) : Action Task → Prop
  | .call index _ =>
      ∀ call ∈ engine.calls[index]?, ∀ id ∈ call.journals?,
        engine.registry.find id = none ∧
        (∀ other ∈ engine.calls, other.prepares id = 0) ∧
        (call.request.recovered?.isSome = true ↔
          id ∈ submittedIds (engine.registry.journal.getD []))
  | _ => True

instance (engine : State Task) : DecidablePred (JournalsFreeIds engine)
  | .invoke _ => isTrue trivial
  | .worker _ _ => isTrue trivial
  | .call index _ => inferInstanceAs (Decidable (∀ call ∈ engine.calls[index]?, _))

structure JournalSound (engine : State Task) (log : List JournalRecord) : Prop where
  sound : Sound engine
  replayable : Replayable log
  all : AllAgree engine.registry log
  prepared : ∀ call ∈ engine.calls, ∀ id progress, call.prepared? = some (id, progress) →
    progressOf log id = some progress
  once : ∀ id, total (Call.prepares id) engine.calls ≤ 1 ∧
    (engine.registry.find id ≠ none → total (Call.prepares id) engine.calls = 0)

/-! ## Steps -/

section Steps

variable {engine : State Task} {log : List JournalRecord}

theorem JournalSound.free_of_prepared (journal : JournalSound engine log) {call : Call Task}
    (member : call ∈ engine.calls) {id : JobId} {progress : Progress}
    (prepared : call.prepared? = some (id, progress)) : engine.registry.find id = none := by
  by_contra taken
  have unprepared := (journal.once id).2 taken
  have weighs := total_eq_zero_iff.mp unprepared call member
  simp [Call.prepares, prepared] at weighs

theorem JournalSound.of_extends {next : State Task} {extended : List JournalRecord}
    (journal : JournalSound engine log) (sound : Sound next)
    (all : AllAgree next.registry extended) (extends' : Extends engine.registry none log extended)
    (find : ∀ id, next.registry.find id = engine.registry.find id)
    (calls : ∀ call ∈ next.calls, call.prepared? ≠ none → call ∈ engine.calls)
    (fewer : ∀ id, total (Call.prepares id) next.calls ≤ total (Call.prepares id) engine.calls) :
    JournalSound next extended := by
  refine ⟨sound, extends'.replayable journal.replayable, all, ?_, ?_⟩
  · intro call member id progress prepared
    have old := calls call member (by simp [prepared])
    rw [extends'.unregistered id (journal.free_of_prepared old prepared) nofun]
    exact journal.prepared call old id progress prepared
  · intro id
    have before := journal.once id
    have bound := fewer id
    refine ⟨bound.trans before.1, fun taken => ?_⟩
    rw [find] at taken
    have unprepared := before.2 taken
    omega

theorem JournalSound.of_unprepared {shared : Shared Task} {extended : List JournalRecord}
    {index : Nat} {call : Call Task} {stage : Stage} (journal : JournalSound engine log)
    (found : engine.calls[index]? = some call)
    (none : Call.prepared? { call with stage } = none)
    (sound : Sound { engine with shared, calls := engine.calls.set index { call with stage } })
    (all : AllAgree shared.registry extended)
    (extends' : Extends engine.registry Option.none log extended)
    (find : ∀ id, shared.registry.find id = engine.registry.find id) :
    JournalSound { engine with shared, calls := engine.calls.set index { call with stage } }
      extended := by
  refine journal.of_extends sound all extends' find ?_ ?_
  · intro other member prepared
    rcases List.mem_or_eq_of_mem_set member with old | rfl
    · exact old
    · exact absurd none prepared
  · intro id
    have counted := total_set (Call.prepares id) found { call with stage }
    have zero : Call.prepares id { call with stage } = 0 := by simp [Call.prepares, none]
    change total _ (engine.calls.set index { call with stage }) ≤ _
    omega

theorem JournalSound.worker [ITask Task] {env : Environment} {shared : Shared Task}
    {index : Nat} {worker moved : Worker} (journal : JournalSound engine log)
    (found : engine.workers[index]? = some worker)
    (move : WorkerTransition env engine.shared worker shared moved) :
    ∃ extended, JournalSound { engine with shared, workers := engine.workers.set index moved }
        extended ∧ Extends engine.registry none log extended := by
  have sound := journal.sound.workerStep found move
  have refers := journal.sound.workers worker (List.mem_of_getElem? found)
  have done : ∀ {extended}, AllAgree shared.registry extended →
      Extends engine.registry none log extended →
      (∀ id, shared.registry.find id = engine.registry.find id) →
      JournalSound { engine with shared, workers := engine.workers.set index moved } extended :=
    fun all extends' find => journal.of_extends sound all extends' find
      (fun _ member _ => member) fun _ => le_rfl
  have ran : ∀ {units id}, Section env units id engine.registry shared.registry →
      ∃ extended, JournalSound { engine with shared, workers := engine.workers.set index moved }
        extended ∧ Extends engine.registry none log extended := by
    intro units id ran
    obtain ⟨extended, all, extends'⟩ := journal.all.section journal.sound.registry ran
    exact ⟨extended, done all extends' ran.find, extends'⟩
  cases move with
  | @dispatch dispatch ref locked read =>
      have ok := journal.sound.registry.recordOk _
        (List.mem_of_getElem? (Registry.locked_eq_some read).1)
      exact ran (.mk refers read (change_dispatchLocked ok))
  | @record dispatch ref result locked read =>
      have lockedRead := (Registry.locked_eq_some read).1
      have ok := journal.sound.registry.recordOk _ (List.mem_of_getElem? lockedRead)
      have running := journal.sound.running_at (List.mem_of_getElem? found)
        (show 0 < Worker.executes dispatch.entry.id _ by simp [Worker.executes]) refers lockedRead
      exact ran (.mk refers read (change_recordSliceLocked result ok running))
  | @slice dispatch ref record outcome task read observed result =>
      obtain ⟨nextOk, known, recordOf⟩ := journal.sound.registry.slice refers read task
      refine ⟨log, done ⟨journal.all.journal, ?_⟩ (.refl _ _ _) fun _ => rfl, .refl _ _ _⟩
      intro id after afterKnown
      have replaced := (recordOf id).symm.trans afterKnown
      split at replaced
      · cases replaced
        exact journal.all.agrees _ record known
      · exact journal.all.agrees id after replaced
  | _ => exact ⟨log, done journal.all (.refl _ _ _) fun _ => rfl, .refl _ _ _⟩

/-- A call journals a free id: no registered job and no other call is concerned. -/
theorem JournalSound.of_journaled {shared : Shared Task} {record : JournalRecord} {index : Nat}
    {call : Call Task} {stage : Stage} {progress : Progress} (journal : JournalSound engine log)
    (found : engine.calls[index]? = some call)
    (sound : Sound { engine with shared, calls := engine.calls.set index { call with stage } })
    (registry : shared.registry = { engine.registry with journal := some (log ++ [record]) })
    (free : engine.registry.find record.id = none)
    (alone : ∀ other ∈ engine.calls, other.prepares record.id = 0)
    (none : call.prepared? = none)
    (prepared : Call.prepared? { call with stage } = some (record.id, progress))
    (said : progressOf (log ++ [record]) record.id = some progress)
    (replayable : Replayable (log ++ [record])) :
    JournalSound { engine with shared, calls := engine.calls.set index { call with stage } }
      (log ++ [record]) := by
  have find : ∀ id, shared.registry.find id = engine.registry.find id := by
    intro id
    rw [registry]
    rfl
  have recordOf : ∀ id, shared.registry.recordOf id = engine.registry.recordOf id := by
    intro id
    rw [registry]
    rfl
  have apart : ∀ id, engine.registry.find id ≠ Option.none → record.id ≠ id := by
    rintro id taken rfl
    exact taken free
  refine ⟨sound, replayable, ⟨by rw [State.registry, registry], ?_⟩, ?_, ?_⟩
  · intro id job known
    change shared.registry.recordOf id = some job at known
    rw [recordOf] at known
    have sameId := (journal.sound.registry.recordOf_ok known).2
    refine (journal.all.agrees id job known).congr ?_
    rw [sameId]
    refine progressOf_append_other (apart id ?_)
    intro missing
    simp [Registry.recordOf, missing] at known
  · intro other member id otherProgress otherPrepared
    rcases List.mem_or_eq_of_mem_set member with old | rfl
    · have different : record.id ≠ id := by
        rintro rfl
        have weighs := alone other old
        simp [Call.prepares, otherPrepared] at weighs
      rw [progressOf_append_other different]
      exact journal.prepared other old id otherProgress otherPrepared
    · rw [prepared] at otherPrepared
      cases otherPrepared
      exact said
  · intro id
    have counted := total_set (Call.prepares id) found { call with stage }
    have before := journal.once id
    have nothing : call.prepares id = 0 := by simp [Call.prepares, none]
    change total (Call.prepares id) (engine.calls.set index { call with stage }) ≤ 1 ∧
      (shared.registry.find id ≠ Option.none →
        total (Call.prepares id) (engine.calls.set index { call with stage }) = 0)
    rw [find]
    by_cases same : record.id = id
    · subst same
      have zero : total (Call.prepares record.id) engine.calls = 0 := total_eq_zero_iff.mpr alone
      have one : Call.prepares record.id { call with stage } = 1 := by
        simp [Call.prepares, prepared]
      exact ⟨by omega, fun taken => absurd free taken⟩
    · have other : Call.prepares id { call with stage } = 0 := by
        simp [Call.prepares, prepared, same]
      refine ⟨by omega, fun taken => ?_⟩
      have zero := before.2 taken
      omega

theorem JournalSound.of_registered {shared : Shared Task} {index : Nat} {call : Call Task}
    {stage : Stage} {id : JobId} {progress : Progress} {record : JobRecord Task}
    (journal : JournalSound engine log) (found : engine.calls[index]? = some call)
    (sound : Sound { engine with shared, calls := engine.calls.set index { call with stage } })
    (registry : shared.registry =
      (engine.registry.make record).emplace id engine.registry.heap.length)
    (prepared : call.prepared? = some (id, progress))
    (none : Call.prepared? { call with stage } = none) (recordOk : RecordOk record)
    (sameId : record.snapshot.id = id) (ready : record.snapshot.state = progress.state)
    (consumed : record.snapshot.workUnitsConsumed = progress.workUnitsConsumed)
    (message : record.snapshot.message = progress.message) :
    JournalSound { engine with shared, calls := engine.calls.set index { call with stage } } log ∧
      Extends engine.registry Option.none log log := by
  have member := List.mem_of_getElem? found
  have free := journal.free_of_prepared member prepared
  obtain ⟨_, recordOf⟩ := journal.sound.registry.register free recordOk sameId
  refine ⟨⟨sound, journal.replayable, ⟨?_, ?_⟩, ?_, ?_⟩, .refl _ _ _⟩
  · rw [State.registry, registry, Registry.journal_emplace]
    exact journal.all.journal
  · intro other job known
    change shared.registry.recordOf other = some job at known
    rw [registry, recordOf] at known
    split at known
    · cases known
      refine .inl ⟨progress, ?_, ready.symm, consumed.symm, fun _ => message.symm⟩
      rw [sameId]
      exact journal.prepared call member id progress prepared
    · exact journal.all.agrees other job known
  · intro other otherMember otherId otherProgress otherPrepared
    rcases List.mem_or_eq_of_mem_set otherMember with old | rfl
    · exact journal.prepared other old otherId otherProgress otherPrepared
    · rw [none] at otherPrepared
      cases otherPrepared
  · intro other
    have counted := total_set (Call.prepares other) found { call with stage }
    have zero : Call.prepares other { call with stage } = 0 := by simp [Call.prepares, none]
    have before := journal.once other
    change total (Call.prepares other) (engine.calls.set index { call with stage }) ≤ 1 ∧
      (shared.registry.find other ≠ Option.none →
        total (Call.prepares other) (engine.calls.set index { call with stage }) = 0)
    refine ⟨by omega, fun taken => ?_⟩
    rw [registry, Registry.find_register _ _ free] at taken
    split at taken
    · next same =>
        have one : call.prepares other = 1 := by simp [Call.prepares, prepared, same]
        omega
    · have nothing := before.2 taken
      omega

theorem JournalSound.call {env : Environment} {done : Bool} {shared : Shared Task} {index : Nat}
    {request : Request Task} {stage moved : Stage} (journal : JournalSound engine log)
    (found : engine.calls[index]? = some ⟨request, stage⟩)
    (journals : JournalsFreeIds engine (.call index env))
    (move : CallTransition env done request engine.shared stage shared moved) :
    ∃ extended, JournalSound
        { engine with shared, calls := engine.calls.set index ⟨request, moved⟩ } extended ∧
      Extends engine.registry (Call.journals? ⟨request, stage⟩) log extended := by
  have member := List.mem_of_getElem? found
  have hasLog := journal.all.journal
  have fresh : stage.registersFree engine.registry = true := by
    cases stage with
    | registerSubmission draft =>
        have free := journal.free_of_prepared member
          (show Call.prepared? _ = some (draft.id, .submitted) from rfl)
        simp [Stage.registersFree, free]
    | _ => rfl
  have sound := journal.sound.callStep found fresh move
  have refers := journal.sound.calls _ member
  have quiet : Call.prepared? (⟨request, moved⟩ : Call Task) = none →
      shared.registry = engine.registry →
      ∃ extended, JournalSound
          { engine with shared, calls := engine.calls.set index ⟨request, moved⟩ } extended ∧
        Extends engine.registry (Call.journals? ⟨request, stage⟩) log extended := by
    intro none same
    refine ⟨log, journal.of_unprepared found none sound ?_ (.refl _ _ _) ?_, .refl _ _ _⟩
    · rw [same]
      exact journal.all
    · intro id
      rw [same]
  have ran : ∀ {id}, Call.prepared? (⟨request, moved⟩ : Call Task) = none →
      Section env 0 id engine.registry shared.registry →
      ∃ extended, JournalSound
          { engine with shared, calls := engine.calls.set index ⟨request, moved⟩ } extended ∧
        Extends engine.registry (Call.journals? ⟨request, stage⟩) log extended := by
    intro id none ran
    obtain ⟨extended, all, extends'⟩ := journal.all.section journal.sound.registry ran
    exact ⟨extended, journal.of_unprepared found none sound all extends' ran.find,
      extends'.speaking _⟩
  have journaledFree : ∀ {id}, Call.journals? (⟨request, stage⟩ : Call Task) = some id →
      engine.registry.find id = none ∧ (∀ other ∈ engine.calls, other.prepares id = 0) ∧
        (request.recovered?.isSome = true ↔ id ∈ submittedIds log) := by
    intro id isJournaled
    have conditions := journals ⟨request, stage⟩ found id isJournaled
    rw [hasLog] at conditions
    exact conditions
  have kept : ∀ {record : JournalRecord}, engine.registry.find record.id = none →
      Call.journals? (⟨request, stage⟩ : Call Task) = some record.id →
      Replayable (log ++ [record]) →
      Extends engine.registry (Call.journals? ⟨request, stage⟩) log (log ++ [record]) := by
    intro record free spoken replayable
    refine ⟨fun _ => replayable, fun id _ unspoken => progressOf_append_other ?_,
      fun id job known _ => recordsOf_append_other ?_⟩
    · rintro rfl
      exact unspoken spoken
    · rintro rfl
      simp [Registry.recordOf, free] at known
  cases move with
  | unjournaledSubmission unjournaled =>
      rw [show engine.shared.registry.journal = some log from hasLog] at unjournaled
      cases unjournaled
  | unjournaledRestore unjournaled =>
      rw [show engine.shared.registry.journal = some log from hasLog] at unjournaled
      cases unjournaled
  | @journalSubmission draft task options spec log' is journaled durable typed appended =>
      rw [show engine.shared.registry.journal = some log from hasLog] at journaled
      cases journaled
      obtain ⟨free, alone, known⟩ := journaledFree rfl
      have fresh : draft.id ∉ submittedIds log := by
        intro taken
        have recovered := known.mpr taken
        rw [is] at recovered
        cases recovered
      have replayable :
          Replayable (log ++ [.submission (submissionRecord options spec draft)]) :=
        replayable_append_submission.mpr ⟨journal.replayable, fresh⟩
      exact ⟨_, journal.of_journaled found sound rfl free alone rfl rfl
        (progressOf_append_submission fresh) replayable, kept free rfl replayable⟩
  | @journalRestore submittedAt task submission log' is journaled appended =>
      rw [show engine.shared.registry.journal = some log from hasLog] at journaled
      cases journaled
      have spoken : Call.journals? (⟨request, .journalRestore submittedAt⟩ : Call Task) =
          some submission.id := by
        rw [is]
        rfl
      obtain ⟨free, alone, submitted⟩ := journaledFree spoken
      have old := submitted.mp (by rw [is]; rfl)
      obtain ⟨before, known⟩ := Option.isSome_iff_exists.mp (progressOf_isSome_iff.mpr old)
      have replayable : Replayable
          (log ++ [.transition ⟨submission.id, .ready, 0, recoveredMessage⟩]) :=
        replayable_append_transition.mpr ⟨journal.replayable, old⟩
      exact ⟨_, journal.of_journaled found sound rfl free alone rfl (by rw [is]; rfl)
        (progressOf_append_transition known) replayable, kept free spoken replayable⟩
  | @registerSubmission draft task options is room =>
      obtain ⟨registered, extends'⟩ := journal.of_registered found sound rfl rfl rfl
        ⟨rfl, rfl, by simp [submittedRecord], rfl, fun _ => rfl⟩ rfl rfl rfl rfl
      exact ⟨log, registered, extends'.speaking _⟩
  | @registerRestore submittedAt task submission is free =>
      obtain ⟨registered, extends'⟩ := journal.of_registered found sound rfl
        (show Call.prepared? _ = some (submission.id, ⟨.ready, 0, recoveredMessage⟩) by
          rw [is]; rfl) rfl
        ⟨rfl, rfl, by simp [restoredRecord], rfl, fun _ => rfl⟩ rfl rfl rfl rfl
      exact ⟨log, registered, extends'.speaking _⟩
  | @raced entry ref locked read =>
      have ok := journal.sound.registry.recordOk _
        (List.mem_of_getElem? (Registry.locked_eq_some read).1)
      exact ran rfl (.mk refers read (change_finishLocked_raced ok _))
  | @cancel ref locked read =>
      obtain ⟨id, registered⟩ := refers
      have ok := journal.sound.registry.recordOk _
        (List.mem_of_getElem? (Registry.locked_eq_some read).1)
      exact ran rfl (.mk registered read (change_cancelLocked ok))
  | @cancelPending pending =>
      obtain ⟨extended, all, extends'⟩ :=
        @AllAgree.cancelPendingLocked _ env _ _ journal.all journal.sound.registry pending
      exact ⟨extended, journal.of_unprepared found rfl sound all extends'
        (find_cancelPendingLocked journal.sound.registry env pending), extends'.speaking _⟩
  | _ => exact quiet rfl rfl

/-- The id of the job that is journaled by the step of a call that will register it. -/
def Action.journals? (engine : State Task) : Action Task → Option JobId
  | .call index _ => engine.calls[index]?.bind Call.journals?
  | _ => none

theorem JournalSound.step [ITask Task] {next : State Task} {action : Action Task}
    (journal : JournalSound engine log) (journals : JournalsFreeIds engine action)
    (stepped : engine.step action = some next) :
    ∃ extended, JournalSound next extended ∧
      Extends engine.registry (action.journals? engine) log extended := by
  cases transition_of_step stepped with
  | invoke request =>
      have sound := @Sound.step _ _ _ _ (.invoke request) journal.sound trivial stepped
      have unprepared : ∀ id, Call.prepares id (⟨request, .entered⟩ : Call Task) = 0 :=
        fun _ => rfl
      refine ⟨log, journal.of_extends sound journal.all (.refl _ _ _) (fun _ => rfl) ?_ ?_,
        .refl _ _ _⟩
      · intro call member prepared
        rcases List.mem_append.mp member with old | added
        · exact old
        · rw [List.mem_singleton.mp added] at prepared
          exact absurd rfl prepared
      · intro id
        simp [unprepared]
  | worker found move =>
      obtain ⟨extended, kept, extends'⟩ := journal.worker found move
      exact ⟨extended, kept, extends'.speaking _⟩
  | call found move =>
      rw [Action.journals?, found]
      exact journal.call found journals move

end Steps

theorem Starts.journalSound {engine : State Task} (started : Starts engine)
    {log : List JournalRecord} (journaled : engine.registry.journal = some log)
    (replayable : Replayable log) : JournalSound engine log := by
  have sound := started.sound
  obtain ⟨config, queue, requested, detected, journal, made, rfl⟩ := started
  refine ⟨sound, replayable, ⟨journaled, ?_⟩, ?_, ?_⟩
  · intro id record known
    cases known
  · intro call member
    cases member
  · intro id
    exact ⟨Nat.zero_le _, fun _ => rfl⟩

/-- A finished record and the records of its job in the journal stay as they are. -/
theorem JournalSound.final [ITask Task] {engine later : State Task}
    {log : List JournalRecord} (journal : JournalSound engine log)
    (reached : Reaches State.step JournalsFreeIds engine later) :
    ∃ extended, JournalSound later extended ∧
      ∀ id record, engine.registry.recordOf id = some record →
        isTerminal record.snapshot.state = true →
        later.registry.recordOf id = some record ∧ recordsOf extended id = recordsOf log id := by
  refine reached.invariant (fun state => ∃ extended, JournalSound state extended ∧
    ∀ id record, engine.registry.recordOf id = some record →
      isTerminal record.snapshot.state = true →
      state.registry.recordOf id = some record ∧ recordsOf extended id = recordsOf log id) ?_ ?_
  · exact ⟨log, journal, fun _ _ known _ => ⟨known, rfl⟩⟩
  · rintro state action next ⟨extended, journalState, final⟩ journals stepped
    obtain ⟨longer, journalNext, kept⟩ := journalState.step journals stepped
    refine ⟨longer, journalNext, fun id record known terminal => ?_⟩
    obtain ⟨still, same⟩ := final id record known terminal
    exact ⟨recordOf_step_of_terminal journalState.sound stepped still terminal,
      (kept.finished id record still terminal).trans same⟩

/-- In every reachable state, the journal is replayed to the end, and it gives what the
registry shows of each job, unless the job failed because it could not be journaled. Once
a job is finished, so or otherwise, no record of it is appended any more. -/
theorem registry_agrees_with_journal [ITask Task] (start engine : State Task)
    (started : Starts start) (first : List JournalRecord) (recovered : Recovered)
    (journaled : start.registry.journal = some first) (replayed : replayLog first = .ok recovered)
    (reached : Reaches State.step JournalsFreeIds start engine) :
    ∃ log jobs, engine.registry.journal = some log ∧ replayLog log = .ok jobs ∧
      (∀ id record, engine.registry.recordOf id = some record →
        Replays jobs record ∨ FailedUnjournaled record) ∧
      ∀ later, Reaches State.step JournalsFreeIds engine later →
        ∃ extended, later.registry.journal = some extended ∧
          ∀ id record, engine.registry.recordOf id = some record →
            isTerminal record.snapshot.state = true →
            recordsOf extended id = recordsOf log id := by
  have replayable := (replayLog_eq_ok_iff.mp replayed).1
  obtain ⟨log, journal, _⟩ := (started.journalSound journaled replayable).final reached
  refine ⟨log, replay log, journal.all.journal,
    replayLog_eq_ok_iff.mpr ⟨journal.replayable, rfl⟩, ?_, ?_⟩
  · intro id record known
    exact (journal.all.agrees id record known).imp_left fun told => told.replays journal.replayable
  intro later reachedLater
  obtain ⟨extended, journalLater, final⟩ := journal.final reachedLater
  exact ⟨extended, journalLater.all.journal, fun id record known terminal =>
    (final id record known terminal).2⟩

/-! ## A submission of a job that a restore has journaled -/

/-- A restore is called only for a job of the journal that is not registered. -/
def RestoresJournaled (engine : State Task) : Action Task → Prop
  | .invoke (.restore _ submission) =>
      engine.registry.find submission.id = none ∧
        .submission submission ∈ engine.registry.journal.getD []
  | _ => True

instance (engine : State Task) : DecidablePred (RestoresJournaled engine)
  | .invoke (.restore _ submission) =>
      inferInstanceAs (Decidable (engine.registry.find submission.id = none ∧
        .submission submission ∈ engine.registry.journal.getD []))
  | .invoke (.submit _ _) => isTrue trivial
  | .invoke (.reserveRecoveredIdentity _) => isTrue trivial
  | .invoke (.cancel _) => isTrue trivial
  | .invoke (.setScheduler _) => isTrue trivial
  | .invoke (.shutdown _) => isTrue trivial
  | .worker _ _ => isTrue trivial
  | .call _ _ => isTrue trivial

/-- One worker on a journal that holds one submission. -/
def journaledStart : State BuiltinTask :=
  State.make ⟨.fifo [], {}, false⟩ 1 0 (some [.submission restoredSubmission])

theorem journaledStart_starts : Starts journaledStart := ⟨{}, _, 1, 0, _, rfl, rfl⟩

/-- A restore has journaled its job when a submission draws and journals the
same id; then the restore registers the job. -/
def overwrittenActions : List (Action BuiltinTask) :=
  .invoke (.restore (some sampleTask) restoredSubmission) :: List.replicate 2 (.call 0 {}) ++
    .invoke (.submit (some sampleTask) sampleOptions) :: List.replicate 4 (.call 1 {}) ++
    [.call 0 {}]

private theorem overwritten_ran :
    (runAll State.step RestoresJournaled journaledStart overwrittenActions).isSome = true := by
  decide +kernel

def overwrittenState : State BuiltinTask := Option.get _ overwritten_ran

/-- The registry shows the job of the restore, which has not failed, and the journal holds
its submission twice, so that it is refused. -/
theorem overwritten_job_disagrees :
    Reaches State.step RestoresJournaled journaledStart overwrittenState ∧
      ∃ log record, overwrittenState.registry.journal = some log ∧
        overwrittenState.registry.recordOf 1 = some record ∧
        record.snapshot.state = .ready ∧ record.snapshot.message = recoveredMessage ∧
        ¬ FailedUnjournaled record ∧ replayLog log = .error "duplicate job submission" := by
  obtain ⟨log, journaled⟩ : ∃ log, overwrittenState.registry.journal = some log :=
    Option.isSome_iff_exists.mp (by decide +kernel)
  obtain ⟨record, known⟩ : ∃ record, overwrittenState.registry.recordOf 1 = some record :=
    Option.isSome_iff_exists.mp (by decide +kernel)
  have shown : (overwrittenState.registry.recordOf 1).map (fun record =>
      (record.snapshot.state, record.snapshot.message)) = some (.ready, recoveredMessage) := by
    decide +kernel
  have replayed : overwrittenState.registry.journal.map replayLog =
      some (.error "duplicate job submission") := by
    decide +kernel
  rw [known, Option.map_some, Option.some.injEq, Prod.mk.injEq] at shown
  rw [journaled, Option.map_some, Option.some.injEq] at replayed
  obtain ⟨ready, message⟩ := shown
  refine ⟨reaches_of_runAll (Option.some_get overwritten_ran).symm, log, record, journaled, known,
    ready, message, ?_, replayed⟩
  rintro ⟨failed, _⟩
  simp [ready] at failed

/-- The same calls one after the other. -/
def journaledActions : List (Action BuiltinTask) :=
  .invoke (.restore (some sampleTask) restoredSubmission) :: List.replicate 8 (.call 0 {}) ++
    .invoke (.submit (some sampleTask) sampleOptions) :: List.replicate 6 (.call 1 {}) ++
    List.replicate 5 (.worker 0 {})

private theorem journaled_ran :
    (runAll State.step JournalsFreeIds journaledStart journaledActions).isSome = true := by
  decide +kernel

theorem journaledActions_agree :
    ∃ engine log jobs, Reaches State.step JournalsFreeIds journaledStart engine ∧
      engine.registry.journal = some log ∧ replayLog log = .ok jobs ∧
      ∀ id record, engine.registry.recordOf id = some record →
        Replays jobs record ∨ FailedUnjournaled record := by
  have reached := reaches_of_runAll (Option.some_get journaled_ran).symm
  obtain ⟨log, jobs, journaled, replayed, agree, _⟩ := registry_agrees_with_journal journaledStart
    _ journaledStart_starts [.submission restoredSubmission] _ rfl rfl reached
  exact ⟨_, log, jobs, reached, journaled, replayed, agree⟩

end Kronos.Engine
