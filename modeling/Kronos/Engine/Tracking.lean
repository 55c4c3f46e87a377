import Kronos.Engine.Determinism
import Kronos.Engine.Journaled
import Kronos.Engine.Rejection

/-!
# The jobs of a log in the engine

While no append fails, an engine loses no job of its log: a job that is not finished
is registered, or about to be registered by the call that has journaled it, or still
waits to be restored. What the registry shows of a job is what was logged of it.
-/

set_option autoImplicit false

namespace Kronos.Engine

open Threads

variable {Task : Type}

/-! ## Jobs that do not fail -/

/-- The slices of all tasks return, and no result is a failure. -/
def NeverFails (Task : Type) [ITask Task] : Prop :=
  ∀ (task : Task) (context : TaskContext),
    (ITask.runSlice task context).1.result.status ≠ .failed

def Worker.Unfailed : Worker → Prop
  | .sliced _ _ result => result.status ≠ .failed
  | _ => True

/-- No job has failed, and no worker is about to record a failure. -/
structure Unfailed (engine : State Task) : Prop where
  records : ∀ record ∈ engine.registry.heap, record.snapshot.state ≠ .failed
  workers : ∀ worker ∈ engine.workers, worker.Unfailed

section Sections

variable {env : Environment} {locked : Locked Task}

/-- A section that leaves the state alone or sets it to one that is no failure. -/
def Locked.Unfailing (locked left : Locked Task) : Prop :=
  locked.record.snapshot.state ≠ .failed → left.record.snapshot.state ≠ .failed

theorem unfailing_finishLocked (appends : ∀ id, env.appendError id = none) {state : JobState}
    (fine : state ≠ .failed) (message : Bytes) :
    locked.Unfailing (finishLocked env locked state message) := by
  intro before
  cases published : locked.record.resultPublished with
  | true => simpa [finishLocked, published] using before
  | false =>
      obtain ⟨now, is⟩ := @finishLocked_appends _ _ locked appends published state message
      rw [is]
      exact fine

theorem unfailing_dispatchLocked (appends : ∀ id, env.appendError id = none) :
    locked.Unfailing (dispatchLocked env locked).2 := by
  intro before
  rcases @dispatchLocked_appends _ _ locked appends with same | ⟨now, started⟩
  · rw [same]
    exact before
  · rw [started]
    simp [JobRecord.start]

theorem unfailing_recordSliceLocked (appends : ∀ id, env.appendError id = none)
    {result : SliceResult} (fine : result.status ≠ .failed) :
    locked.Unfailing (recordSliceLocked env result locked).2 := by
  intro before
  have consumed : (locked.record.consume result.workUnitsConsumed).snapshot.state ≠ .failed := before
  unfold recordSliceLocked
  split
  · simp only
    split
    · exact unfailing_finishLocked appends (by simp) _ consumed
    · obtain ⟨journal, persisted⟩ := @persistTransitionLocked_appends _ env
        { locked with record := locked.record.consume result.workUnitsConsumed } appends .ready
        result.message
      rw [persisted]
      simp [JobRecord.backToReady]
  · exact unfailing_finishLocked appends (by simp) _ consumed
  · next failed => exact absurd failed fine
  · exact unfailing_finishLocked appends (by simp) _ consumed

theorem unfailing_cancelLocked (appends : ∀ id, env.appendError id = none) :
    locked.Unfailing (cancelLocked env locked).2 := by
  intro before
  unfold cancelLocked
  split
  · exact before
  · simp only
    split
    · exact unfailing_finishLocked appends (by simp) _ before
    · exact before

theorem unfailing_shutdownLocked (appends : ∀ id, env.appendError id = none) :
    locked.Unfailing (shutdownLocked env locked) := by
  intro before
  unfold shutdownLocked
  split
  · exact before
  · exact unfailing_finishLocked appends (by simp) _ before

theorem unfailed_store {registry : Registry Task} {ref : RecordRef} {left : Locked Task}
    (all : ∀ record ∈ registry.heap, record.snapshot.state ≠ .failed)
    (read : registry.locked ref = some locked) (section' : locked.Unfailing left) :
    ∀ record ∈ (registry.store ref left).heap, record.snapshot.state ≠ .failed := by
  obtain ⟨readRecord, _⟩ := Registry.locked_eq_some read
  exact forall_mem_set all (section' (all _ (List.mem_of_getElem? readRecord)))

theorem unfailed_cancelPendingLocked (appends : ∀ id, env.appendError id = none)
    {registry : Registry Task} (pending : List SchedulerEntry)
    (all : ∀ record ∈ registry.heap, record.snapshot.state ≠ .failed) :
    ∀ record ∈ (cancelPendingLocked env registry pending).heap, record.snapshot.state ≠ .failed := by
  induction pending generalizing registry with
  | nil => exact all
  | cons entry rest ih =>
      refine @ih (cancelEntryLocked env registry entry) ?_
      unfold cancelEntryLocked
      split
      · exact all
      · split
        · exact all
        · next read => exact unfailed_store all read (unfailing_shutdownLocked appends)

end Sections

section Steps

variable {engine next : State Task}

/-- A call makes at most one record: the one of its job. -/
theorem made_of_call {env : Environment} {done : Bool} {request : Request Task}
    {shared : Shared Task} {stage moved : Stage}
    (move : CallTransition env done request engine.shared stage shared moved) :
    shared.registry.heap.length = engine.registry.heap.length ∨
      ∃ record, shared.registry.heap = engine.registry.heap ++ [record] ∧
        record.snapshot.state = .ready ∧
        ((∃ task options draft, request = .submit (some task) options ∧
            stage = .registerSubmission draft ∧ record = submittedRecord task options draft) ∨
          ∃ task submission submittedAt, request = .restore (some task) submission ∧
            record = restoredRecord task submission submittedAt) := by
  cases move with
  | registerSubmission is room =>
      exact .inr ⟨_, Registry.heap_emplace _ _ _, rfl, .inl ⟨_, _, _, is, rfl, rfl⟩⟩
  | registerRestore is fresh =>
      exact .inr ⟨_, Registry.heap_emplace _ _ _, rfl, .inr ⟨_, _, _, is, rfl⟩⟩
  | raced read => exact .inl (by simp [State.registry])
  | cancel read => exact .inl (by simp [State.registry])
  | cancelPending => exact .inl (by simp [State.registry])
  | _ => exact .inl rfl

theorem heapLength_worker [ITask Task] {env : Environment} {worker moved : Worker}
    {shared : Shared Task} (move : WorkerTransition env engine.shared worker shared moved) :
    shared.registry.heap.length = engine.registry.heap.length := by
  cases move with
  | dispatch read => simp [State.registry]
  | slice read observed ran => simp [State.registry]
  | record read => simp [State.registry]
  | _ => rfl

theorem Unfailed.worker [ITask Task] {env : Environment} {worker moved : Worker}
    {shared : Shared Task} {index : Nat} (unfailed : Unfailed engine) (never : NeverFails Task)
    (appends : ∀ id, env.appendError id = none) (member : worker ∈ engine.workers)
    (move : WorkerTransition env engine.shared worker shared moved) :
    Unfailed { engine with shared, workers := engine.workers.set index moved } := by
  cases move with
  | dispatch read =>
      refine ⟨unfailed_store unfailed.records read (unfailing_dispatchLocked appends),
        forall_mem_set unfailed.workers ?_⟩
      split <;> trivial
  | @slice dispatch ref record outcome task read observed ran =>
      refine ⟨forall_mem_set unfailed.records ?_, forall_mem_set unfailed.workers ?_⟩
      · exact unfailed.records record (List.mem_of_getElem? read)
      · have fine := never record.task ⟨env.cancellation, dispatch.budget⟩
        rw [ran] at fine
        exact fine
  | record read =>
      have fine := unfailed.workers _ member
      refine ⟨unfailed_store unfailed.records read (unfailing_recordSliceLocked appends fine),
        forall_mem_set unfailed.workers ?_⟩
      split <;> trivial
  | _ => exact ⟨unfailed.records, forall_mem_set unfailed.workers trivial⟩

theorem Unfailed.call {env : Environment} {done : Bool} {request : Request Task}
    {shared : Shared Task} {stage moved : Stage} (unfailed : Unfailed engine)
    (appends : ∀ id, env.appendError id = none)
    (move : CallTransition env done request engine.shared stage shared moved) :
    ∀ record ∈ shared.registry.heap, record.snapshot.state ≠ .failed := by
  cases move with
  | registerSubmission is room =>
      rw [Registry.heap_emplace]
      exact forall_mem_concat unfailed.records (by simp [submittedRecord])
  | registerRestore is fresh =>
      rw [Registry.heap_emplace]
      exact forall_mem_concat unfailed.records (by simp [restoredRecord])
  | raced read =>
      exact unfailed_store unfailed.records read (unfailing_finishLocked appends (by simp) _)
  | cancel read => exact unfailed_store unfailed.records read (unfailing_cancelLocked appends)
  | cancelPending => exact unfailed_cancelPendingLocked appends _ unfailed.records
  | _ => exact unfailed.records

theorem Unfailed.step [ITask Task] {action : Action Task} (unfailed : Unfailed engine)
    (never : NeverFails Task) (appends : action.Appends) (stepped : engine.step action = some next) :
    Unfailed next := by
  cases transition_of_step stepped with
  | invoke request => exact ⟨unfailed.records, unfailed.workers⟩
  | worker found move => exact unfailed.worker never appends (List.mem_of_getElem? found) move
  | call found move => exact ⟨unfailed.call appends move, unfailed.workers⟩

/-! ## Records that show what was logged -/

/-- A submission of the log has the fields that are fixed in the record. -/
def FromLog (log : List JournalRecord) (record : JobRecord Task) : Prop :=
  ∃ submission ∈ submissions log, submission.id = record.snapshot.id ∧
    submission.name = record.snapshot.name ∧ submission.priority = record.snapshot.priority ∧
    submission.estimatedWorkUnits = record.snapshot.estimatedWorkUnits ∧
    submission.submissionSequence = record.snapshot.submissionSequence

/-- All records come from the log, and so does what is restored. -/
structure Logged (engine : State Task) (log : List JournalRecord) : Prop where
  records : ∀ record ∈ engine.registry.heap, FromLog log record
  restores : ∀ call ∈ engine.calls, ∀ task submission,
    call.request = .restore task submission → submission ∈ submissions log

variable {log added : List JournalRecord} {unreserved : List JobId} {before : Nat}

theorem FromLog.evolve {record evolved : JobRecord Task} (from' : FromLog log record)
    (same : SameIdentity record evolved) : FromLog (log ++ added) evolved := by
  obtain ⟨submission, member, id, name, priority, estimate, sequence⟩ := from'
  refine ⟨submission, ?_, id.trans same.id.symm, name.trans same.name.symm,
    priority.trans same.priority.symm, estimate.trans same.estimate.symm,
    sequence.trans same.sequence.symm⟩
  rw [submissions_append]
  exact List.mem_append_left _ member

theorem Logged.step [ITask Task] {action : Action Task} (logged : Logged engine log)
    (journaled : Journaled unreserved before engine log)
    (invoked : ∀ task submission, action = .invoke (.restore task submission) →
      submission ∈ submissions log)
    (stepped : engine.step action = some next) : Logged next (log ++ added) := by
  have grown : ∀ submission ∈ submissions log, submission ∈ submissions (log ++ added) := by
    intro submission member
    rw [submissions_append]
    exact List.mem_append_left _ member
  obtain ⟨units, evolves⟩ := heapEvolves_step journaled.journal.sound stepped
  -- a record that was there has evolved
  have old : ∀ {ref : RecordRef} {record : JobRecord Task}, ref < engine.registry.heap.length →
      next.registry.heap[ref]? = some record → FromLog (log ++ added) record := by
    intro ref record bound read
    obtain ⟨evolved, readEvolved, evolution⟩ := evolves ref _ (List.getElem?_eq_getElem bound)
    rw [read] at readEvolved
    cases readEvolved
    exact (logged.records _ (List.getElem_mem bound)).evolve evolution.sameIdentity
  have kept : next.registry.heap.length = engine.registry.heap.length →
      ∀ record ∈ next.registry.heap, FromLog (log ++ added) record := by
    intro same record member
    obtain ⟨ref, read⟩ := List.mem_iff_getElem?.mp member
    exact old (same ▸ (List.getElem?_eq_some_iff.mp read).1) read
  cases transition_of_step stepped with
  | invoke request =>
      refine ⟨kept rfl, forall_mem_concat ?_ ?_⟩
      · intro call member task submission is
        exact grown _ (logged.restores call member task submission is)
      · intro task submission is
        exact grown _ (invoked task submission (congrArg Action.invoke is))
  | worker found move =>
      refine ⟨kept (heapLength_worker move), fun call member task submission is => ?_⟩
      exact grown _ (logged.restores call member task submission is)
  | @call index env call stage shared found move =>
      have member := List.mem_of_getElem? found
      have all : ∀ other ∈ engine.calls, ∀ task submission,
          other.request = .restore task submission → submission ∈ submissions (log ++ added) :=
        fun other inside task submission is =>
          grown _ (logged.restores other inside task submission is)
      refine ⟨?_, forall_mem_set all (all call member)⟩
      rcases made_of_call move with same | ⟨record, heap, -, made⟩
      · exact kept same
      · have new : FromLog (log ++ added) record := by
          rcases made with ⟨task, options, draft, is, at', rfl⟩ | ⟨task, submission, submittedAt, is, rfl⟩
          · have recorded := journaled.recorded call member (some task) options is
            rw [at'] at recorded
            obtain ⟨spec, -, submitted⟩ := recorded
            exact ⟨_, grown _ submitted, rfl, rfl, rfl, rfl, rfl⟩
          · exact ⟨submission, grown _ (logged.restores call member _ _ is), rfl, rfl, rfl, rfl, rfl⟩
        intro other inside
        change other ∈ shared.registry.heap at inside
        obtain ⟨ref, read⟩ := List.mem_iff_getElem?.mp inside
        rw [heap] at read
        rcases getElem?_concat_cases read with ⟨-, rfl⟩ | before
        · exact new
        · refine old (List.getElem?_eq_some_iff.mp before).1 ?_
          change shared.registry.heap[ref]? = _
          rw [heap]
          exact read

end Steps

/-! ## Room in the registry -/

/-- Every id is registered once. -/
def Registry.Keyed (registry : Registry Task) : Prop := (registry.records.map Prod.fst).Nodup

theorem Registry.Keyed.emplace {registry : Registry Task} (keyed : registry.Keyed) (id : JobId)
    (ref : RecordRef) : (registry.emplace id ref).Keyed := by
  cases found : registry.find id with
  | some taken => simpa [Registry.Keyed, Registry.emplace, found] using keyed
  | none =>
      have fresh : id ∉ registry.records.map Prod.fst := by
        intro member
        obtain ⟨⟨key, other⟩, inside, rfl⟩ := List.mem_map.mp member
        have apart := List.lookup_eq_none_iff.mp found _ inside
        simp at apart
      simp only [Registry.Keyed, Registry.emplace, found, List.map_append, List.map_cons,
        List.map_nil]
      exact List.nodup_append.mpr ⟨keyed, List.nodup_singleton _, by
        intro key member other isId same
        rw [List.mem_singleton.mp isId] at same
        exact fresh (same ▸ member)⟩

theorem find_of_key {registry : Registry Task} {id : JobId}
    (member : id ∈ registry.records.map Prod.fst) : registry.find id ≠ none := by
  intro missing
  obtain ⟨⟨key, ref⟩, inside, rfl⟩ := List.mem_map.mp member
  have apart := List.lookup_eq_none_iff.mp missing _ inside
  simp at apart

theorem length_le_of_nodup {keys : List JobId} {bound : Nat} (distinct : keys.Nodup)
    (bounded : ∀ key ∈ keys, key ≠ 0 ∧ key.toNat ≤ bound) : keys.length ≤ bound := by
  have numbers : (keys.map UInt64.toNat).Nodup :=
    distinct.map fun _ _ same => UInt64.toNat_inj.mp same
  have inside : (keys.map UInt64.toNat).toFinset ⊆ Finset.Icc 1 bound := by
    intro number member
    obtain ⟨key, isKey, rfl⟩ := List.mem_map.mp (List.mem_toFinset.mp member)
    obtain ⟨nonzero, small⟩ := bounded key isKey
    have apart : key.toNat ≠ 0 := fun zero => nonzero (UInt64.toNat_inj.mp zero)
    exact Finset.mem_Icc.mpr ⟨by omega, small⟩
  have card := Finset.card_le_card inside
  rwa [List.toFinset_card_of_nodup numbers, List.length_map, Nat.card_Icc,
    Nat.add_sub_cancel] at card

theorem records_cancelPendingLocked (env : Environment) (registry : Registry Task)
    (pending : List SchedulerEntry) :
    (cancelPendingLocked env registry pending).records = registry.records := by
  induction pending generalizing registry with
  | nil => rfl
  | cons entry rest ih =>
      refine (@ih (cancelEntryLocked env registry entry)).trans ?_
      unfold cancelEntryLocked
      split
      · rfl
      · split <;> rfl

theorem keyed_step [ITask Task] {engine next : State Task} {action : Action Task}
    (keyed : engine.registry.Keyed) (stepped : engine.step action = some next) :
    next.registry.Keyed := by
  cases transition_of_step stepped with
  | invoke request => exact keyed
  | worker found move => cases move <;> exact keyed
  | @call _ _ call stage shared found move =>
      obtain ⟨request, before⟩ := call
      cases move with
      | registerSubmission is room =>
          exact Registry.Keyed.emplace (show (Registry.make _ _).Keyed from keyed) _ _
      | registerRestore is fresh =>
          exact Registry.Keyed.emplace (show (Registry.make _ _).Keyed from keyed) _ _
      | @cancelPending pending =>
          rw [Registry.Keyed, State.registry, records_cancelPendingLocked]
          exact keyed
      | _ => exact keyed

/-! ## Jobs that are not lost -/

section Following

variable {engine next : State Task} {log extended : List JournalRecord} {pending : List JobId}

/-- Somebody still knows of the job: the registry, a call that has journaled it, or
the startup that has yet to restore it. -/
def Known (engine : State Task) (pending : List JobId) (id : JobId) : Prop :=
  engine.registry.find id ≠ none ∨ (∃ call ∈ engine.calls, call.prepares id ≠ 0) ∨ id ∈ pending

/-- No job of the log is forgotten before it is finished. -/
def Tracked (engine : State Task) (log : List JournalRecord) (pending : List JobId) : Prop :=
  ∀ id progress, progressOf log id = some progress → isTerminal progress.state = false →
    Known engine pending id

/-- A call that has journaled a job registers it with its next step. -/
theorem registered_of_prepared {env : Environment} {done : Bool} {request : Request Task}
    {shared : Shared Task} {stage moved : Stage} (journal : JournalSound engine log)
    (member : ⟨request, stage⟩ ∈ engine.calls)
    (room : engine.registry.records.length < Registry.limit)
    (called : callStep env engine.shared done request stage = some (shared, moved)) {id : JobId}
    (prepares : Call.prepares id (⟨request, stage⟩ : Call Task) ≠ 0) :
    shared.registry.find id ≠ none := by
  obtain ⟨⟨same, progress⟩, prepared, rfl⟩ : ∃ told,
      Call.prepared? (⟨request, stage⟩ : Call Task) = some told ∧ told.1 = id := by
    by_contra other
    exact prepares (if_neg fun is => other (Option.map_eq_some_iff.mp is))
  have free := journal.free_of_prepared member prepared
  have found : ∀ {key : JobId} (record : JobRecord Task) (ref : RecordRef), key = same →
      ((engine.registry.make record).emplace key ref).find same ≠ none := by
    rintro key record ref rfl
    rw [Registry.find_register record ref free, if_pos rfl]
    exact Option.some_ne_none ref
  cases callTransition_of_step called with
  | reject what early =>
      exfalso
      cases stage with
      | registerSubmission draft =>
          refine not_accepts_of_threw rfl called ?_
          cases request with
          | restore task submission => cases called
          | _ => exact room
      | registerRestore submittedAt =>
          refine not_accepts_of_threw rfl called ?_
          cases request with
          | restore task submission =>
              cases prepared
              exact ⟨room, free⟩
          | _ => exact room
      | _ => cases prepared
  | registerSubmission is =>
      cases prepared
      exact found _ _ rfl
  | registerRestore is fresh =>
      cases is
      cases prepared
      exact found _ _ rfl
  | _ => cases prepared

/-- A call that speaks for an id has journaled it with its next step, or the journal
stays as it is. -/
theorem prepares_of_journals {env : Environment} {done : Bool} {request : Request Task}
    {shared : Shared Task} {stage moved : Stage}
    (journaled : engine.registry.journal = some log)
    (move : CallTransition env done request engine.shared stage shared moved) {id : JobId}
    (journals : Call.journals? (⟨request, stage⟩ : Call Task) = some id) :
    Call.prepares id (⟨request, moved⟩ : Call Task) ≠ 0 ∨
      shared.registry.journal = engine.registry.journal := by
  cases move with
  | journalSubmission is journaled durable typed appended =>
      cases journals
      left
      simp [Call.prepares, Call.prepared?]
  | journalRestore is journaled appended =>
      left
      simp only [Call.journals?] at journals
      obtain ⟨submission, is, rfl⟩ := Option.map_eq_some_iff.mp journals
      simp [Call.prepares, Call.prepared?, is]
  | reject what early => exact .inr rfl
  | unjournaledSubmission unjournaled =>
      rw [show engine.shared.registry.journal = some log from journaled] at unjournaled
      cases unjournaled
  | unjournaledRestore unjournaled =>
      rw [show engine.shared.registry.journal = some log from journaled] at unjournaled
      cases unjournaled
  | _ => cases journals

theorem Known.step [ITask Task] {action : Action Task} {id : JobId}
    (known : Known engine pending id) (journal : JournalSound engine log)
    (room : engine.registry.records.length < Registry.limit)
    (stepped : engine.step action = some next) : Known next pending id := by
  rcases known with found | ⟨call, member, prepares⟩ | waiting
  · left
    obtain ⟨ref, is⟩ := Option.ne_none_iff_exists'.mp found
    rw [find_step journal.sound stepped is]
    exact Option.some_ne_none ref
  · cases transition_of_step stepped with
    | invoke request => exact .inr (.inl ⟨call, List.mem_append_left _ member, prepares⟩)
    | worker found move => exact .inr (.inl ⟨call, member, prepares⟩)
    | @call index env moving stage shared read move =>
        obtain ⟨position, is⟩ := List.mem_iff_getElem?.mp member
        by_cases same : position = index
        · -- the call itself takes the step
          subst same
          rw [is] at read
          cases read
          obtain ⟨request, before⟩ := call
          obtain ⟨_, _, called, left⟩ := callStep_of_step is stepped
          left
          rw [left]
          exact registered_of_prepared journal member room called prepares
        · have kept : (engine.calls.set index { moving with stage })[position]? = some call := by
            rw [List.getElem?_set_ne (Ne.symm same)]
            exact is
          exact .inr (.inl ⟨call, List.mem_of_getElem? kept, prepares⟩)
  · exact .inr (.inr waiting)

theorem Tracked.step [ITask Task] {action : Action Task} (tracked : Tracked engine log pending)
    (journal : JournalSound engine log) (journals : JournalsFreeIds engine action)
    (room : engine.registry.records.length < Registry.limit)
    (stepped : engine.step action = some next)
    (written : next.registry.journal = some extended) : Tracked next extended pending := by
  obtain ⟨grown, after, extends'⟩ := journal.step journals stepped
  rw [after.all.journal, Option.some.injEq] at written
  subst written
  intro id progress told live
  have old : progressOf grown id = progressOf log id → Known next pending id := by
    intro same
    rw [same] at told
    exact (tracked id progress told live).step journal room stepped
  cases found : engine.registry.find id with
  | some ref =>
      left
      rw [find_step journal.sound stepped found]
      exact Option.some_ne_none ref
  | none =>
      by_cases spoken : action.journals? engine = some id
      · cases transition_of_step stepped with
        | invoke request => cases spoken
        | worker _ move => cases spoken
        | @call index env call stage shared read move =>
            rw [Action.journals?, read] at spoken
            rcases prepares_of_journals journal.all.journal move spoken with prepares | same
            · have bound := (List.getElem?_eq_some_iff.mp read).1
              exact .inr (.inl ⟨_, List.mem_of_getElem? (List.getElem?_set_self bound), prepares⟩)
            · refine old ?_
              have written := after.all.journal
              change shared.registry.journal = _ at written
              rw [same, journal.all.journal, Option.some.injEq] at written
              rw [written]
      · exact old (extends'.unregistered id found spoken)

/-- What holds of an engine that has lost no job of its log. -/
structure Follows (engine : State Task) (log : List JournalRecord) (pending : List JobId) :
    Prop where
  unfailed : Unfailed engine
  logged : Logged engine log
  keyed : engine.registry.Keyed
  closing : Closing engine
  tracked : Tracked engine log pending

variable {added : List JournalRecord} {unreserved : List JobId} {before : Nat}

/-- There are no more registered jobs than ids that were drawn. -/
theorem Follows.room (follows : Follows engine log pending)
    (numbered : Numbered unreserved before engine (submittedIds log))
    (nonzero : ∀ id ∈ submittedIds log, id ≠ 0) (small : before + engine.drawn < Registry.limit) :
    engine.registry.records.length < Registry.limit := by
  refine lt_of_le_of_lt ?_ small
  rw [← @List.length_map _ _ engine.registry.records Prod.fst]
  apply length_le_of_nodup follows.keyed
  intro key member
  have submitted := numbered.registered key (find_of_key member)
  exact ⟨nonzero key submitted, numbered.bounded key submitted⟩

theorem Follows.step [ITask Task] {action : Action Task} (follows : Follows engine log pending)
    (never : NeverFails Task) (appends : action.Appends)
    (journaled : Journaled unreserved before engine log) (journals : JournalsFreeIds engine action)
    (invoked : ∀ task submission, action = .invoke (.restore task submission) →
      submission ∈ submissions log)
    (room : engine.registry.records.length < Registry.limit)
    (stepped : engine.step action = some next)
    (written : next.registry.journal = some (log ++ added)) :
    Follows next (log ++ added) pending where
  unfailed := follows.unfailed.step never appends stepped
  logged := follows.logged.step journaled invoked stepped
  keyed := keyed_step follows.keyed stepped
  closing := follows.closing.step stepped
  tracked := follows.tracked.step journaled.journal journals room stepped written

/-- What the log tells of a registered job is what its record shows. -/
theorem Follows.replays (follows : Follows engine log pending) (journal : JournalSound engine log)
    {id : JobId} {record : JobRecord Task} (known : engine.registry.recordOf id = some record) :
    Told log record ∧ FromLog log record ∧ record.snapshot.id = id := by
  obtain ⟨ref, _, read⟩ := Option.bind_eq_some_iff.mp known
  have member := List.mem_of_getElem? read
  refine ⟨?_, follows.logged.records record member, (journal.sound.registry.recordOf_ok known).2⟩
  rcases journal.all.agrees id record known with replays | ⟨failed, _⟩
  · exact replays
  · exact absurd failed (follows.unfailed.records record member)

end Following

end Kronos.Engine
