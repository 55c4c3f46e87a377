import Kronos.Daemon.Lifetime
import Kronos.Engine.Journaled

/-!
# The startup of the daemon

The constructor waits for each of its calls, so at most one call of the startup
is running and no client has called yet. That is why a restore finds its job as
the report told it, and why no id of the history can be drawn again.
-/

set_option autoImplicit false

namespace Kronos.Daemon

open Engine Wal Threads

/-- The call that a loop body makes. -/
def Startup.Makes : Startup → Request BuiltinTask → Prop
  | .reserve submission, request => request = .reserveRecoveredIdentity submission
  | .restore job, request => ∃ task, request = .restore (some task) job.submission

def Startup.reserves? : Startup → Option JobId
  | .reserve submission => some submission.id
  | .restore _ => none

def Startup.restores? : Startup → Option JobId
  | .reserve _ => none
  | .restore job => some job.submission.id

namespace Lifetime

/-- What is left of the startup. -/
def remaining (life : Lifetime) : List Startup := life.running.toList ++ life.todo

/-- The ids that are still to be reserved. -/
def unreserved (life : Lifetime) : List JobId := life.remaining.filterMap Startup.reserves?

/-- The calls of the startup are made one after the other. -/
def InTurn (life : Lifetime) : Prop :=
  match life.running with
  | none =>
      ∀ call ∈ life.engine.calls, call.request.recovered?.isSome = true → call.stage.ended = true
  | some item =>
      ∃ earlier last, life.engine.calls = earlier ++ [last] ∧ item.Makes last.request ∧
        ∀ call ∈ earlier, call.stage.ended = true

end Lifetime

/-- What holds of a lifetime between its steps. -/
structure Alive (before : Nat) (life : Lifetime) (log : List JournalRecord) : Prop where
  journaled : Journaled life.unreserved before life.engine log
  turns : life.InTurn
  alone : life.remaining ≠ [] →
    ∀ call ∈ life.engine.calls, call.request.recovered?.isSome = true
  distinct : (life.remaining.filterMap Startup.restores?).Nodup
  reserves : ∀ submission, .reserve submission ∈ life.todo → submission.id ∈ submittedIds log
  waiting : ∀ job, .restore job ∈ life.todo → Unrestored life.engine log job.submission.id
  current : ∀ job, life.running = some (.restore job) →
    ∀ call, life.engine.calls.getLast? = some call → call.stage.made? = none →
      Unrestored life.engine log job.submission.id

theorem ended_stuck {Task : Type} {env : Environment} {done : Bool} {request : Request Task}
    {shared next : Shared Task} {stage moved : Stage} (ended : stage.ended = true) :
    ¬ CallTransition env done request shared stage next moved := by
  intro move
  cases move with
  | reject what early =>
      cases stage with
      | returnedHandle id ref => cases early
      | returnedBool answer => cases early
      | returned => cases early
      | threw what => cases early
      | _ => cases ended
  | _ => cases ended

theorem prepares_of_ended {Task : Type} {call : Call Task} (ended : call.stage.ended = true)
    (id : JobId) : call.prepares id = 0 := by
  obtain ⟨request, stage⟩ := call
  cases stage with
  | returnedHandle other ref => rfl
  | returnedBool answer => rfl
  | returned => rfl
  | threw what => rfl
  | _ => cases ended

section Steps

variable {before : Nat} {log : List JournalRecord}

theorem unrestored_of_extends {engine next : State BuiltinTask} {extended : List JournalRecord}
    {spoken : Option JobId} {id : JobId} (unrestored : Unrestored engine log id)
    (extends' : Extends engine.registry spoken log extended) (unspoken : spoken ≠ some id)
    (find : next.registry.find id = engine.registry.find id) : Unrestored next extended id := by
  obtain ⟨free, progress, known, live⟩ := unrestored
  exact ⟨find.trans free, progress, (extends'.unregistered id free unspoken).trans known, live⟩

/-- A transition is appended for a job that the engine does not know. -/
theorem journaled_append {unreserved : List JobId} {engine : State BuiltinTask}
    {record : JobTransitionRecord} (journaled : Journaled unreserved before engine log)
    (unrestored : Unrestored engine log record.id)
    (unprepared : ∀ call ∈ engine.calls, call.prepares record.id = 0) :
    Journaled unreserved before (appendTransition engine record) (log ++ [.transition record]) ∧
      Grown engine (appendTransition engine record) (some record.id) before log
        [.transition record] := by
  obtain ⟨free, progress, known, live⟩ := unrestored
  have journal := journaled.journal
  have written : (appendTransition engine record).registry.journal =
      some (log ++ [.transition record]) := by
    change engine.registry.journal.add _ = _
    rw [journal.all.journal]
    rfl
  have ids : submittedIds (log ++ [.transition record]) = submittedIds log := by simp
  have others : ∀ id, id ≠ record.id →
      progressOf (log ++ [.transition record]) id = progressOf log id :=
    fun id different => progressOf_append_other (Ne.symm different)
  have sound : Sound (appendTransition engine record) :=
    journal.sound.of_same rfl rfl journal.sound.workers journal.sound.calls (fun _ => rfl)
      fun _ => rfl
  have replayable : Replayable (log ++ [.transition record]) :=
    (Appendable.transition known live).replayable journal.replayable
  refine ⟨⟨⟨sound, replayable, ⟨written, ?_⟩, ?_, journal.once⟩, journaled.staged, ?_, ?_⟩,
    ⟨written, grows_singleton.mpr (.transition known live), ⟨fun _ => replayable, ?_, ?_⟩,
      Nat.le_refl _, ?_, ?_⟩⟩
  · intro id job registered
    change engine.registry.recordOf id = some job at registered
    have sameId := (journal.sound.registry.recordOf_ok registered).2
    refine (journal.all.agrees id job registered).congr (others _ ?_)
    rintro same
    rw [← sameId, same] at registered
    simp [Registry.recordOf, free] at registered
  · intro call member id told prepared
    rw [others id]
    · exact journal.prepared call member id told prepared
    · rintro rfl
      have weighs := unprepared call member
      simp [Call.prepares, prepared] at weighs
  · rw [ids]
    have numbered := journaled.numbered
    exact ⟨numbered.positive, numbered.counter, numbered.bounded, numbered.reserved,
      numbered.registered, numbered.placed, numbered.once, numbered.requests⟩
  · intro call member
    refine (journaled.recorded call member).mono (.refl {} _) fun submission inside => ?_
    simpa using inside
  · intro id _ unspoken
    exact others id fun same => unspoken (by rw [same])
  · intro id job registered _
    refine recordsOf_append_other fun same => ?_
    rw [← show record.id = id from same] at registered
    simp [Registry.recordOf, free] at registered
  · rw [ids]
    exact journaled.numbered.bounded
  · intro id
    rw [ids]
    exact Nat.le_refl _

variable {life next : Lifetime}

theorem Alive.worker {index : Nat} {env : Environment} (alive : Alive before life log)
    (stepped : life.step (.worker index env) = some next) :
    ∃ added, Alive before next (log ++ added) ∧
      Grown life.engine next.engine none before log added := by
  obtain ⟨engine, ran, rfl⟩ := Option.map_eq_some_iff.mp stepped
  obtain ⟨added, journaled, grown⟩ := alive.journaled.worker ran
  have find : ∀ id, engine.registry.find id = life.engine.registry.find id := by
    cases transition_of_step ran with
    | worker found move => cases move <;> exact fun _ => rfl
  have calls : engine.calls = life.engine.calls := by
    cases transition_of_step ran with
    | worker found move => rfl
  have kept : ∀ {id}, Unrestored life.engine log id → Unrestored engine (log ++ added) id :=
    fun unrestored => unrestored_of_extends unrestored grown.extended nofun (find _)
  refine ⟨added, ⟨journaled, ?_, ?_, alive.distinct, ?_, ?_, ?_⟩, grown⟩
  · have turns := alive.turns
    simp only [Lifetime.InTurn, calls] at turns ⊢
    exact turns
  · simp only [calls]
    exact alive.alone
  · intro submission member
    rw [submittedIds_append]
    exact List.mem_append_left _ (alive.reserves submission member)
  · exact fun job member => kept (alive.waiting job member)
  · simp only [calls]
    exact fun job running call last made => kept (alive.current job running call last made)

theorem Command.numbers {command : Command} {request : Request BuiltinTask} {ids : List JobId}
    (requested : command.request? = some request) :
    request.Numbers [] ids ∧ request.recovered? = none := by
  cases command with
  | submit type arguments priority =>
      simp only [Command.request?] at requested
      split at requested
      · next created made =>
          cases requested
          exact ⟨⟨rfl, nofun, TaskFactory.durable_createForSubmission made⟩, rfl⟩
      · cases requested
  | _ =>
      cases requested
      exact ⟨trivial, rfl⟩

theorem Alive.invoke {command : Command} (alive : Alive before life log)
    (stepped : life.step (.invoke command) = some next) :
    ∃ added, Alive before next (log ++ added) ∧
      Grown life.engine next.engine none before log added := by
  simp only [Lifetime.step] at stepped
  split at stepped
  · next ready =>
      split at stepped
      · cases stepped
      · next request requested =>
          obtain ⟨engine, ran, rfl⟩ := Option.map_eq_some_iff.mp stepped
          obtain ⟨numbers, unrecovered⟩ := Command.numbers requested
          obtain ⟨idle, finished⟩ : life.running = none ∧ life.todo = [] := by
            simpa [Lifetime.ready] using ready
          have remaining : life.remaining = [] := by simp [Lifetime.remaining, idle, finished]
          have none : life.unreserved = [] := by simp [Lifetime.unreserved, remaining]
          have admitted : Admitted life.unreserved life.engine log (.invoke request) := by
            rw [none]
            exact numbers
          obtain ⟨journaled, grown⟩ := alive.journaled.invoke admitted ran
          refine ⟨[], ?_, grown⟩
          rw [List.append_nil]
          refine ⟨journaled, ?_, fun left => absurd remaining left, alive.distinct, ?_, ?_, ?_⟩
          · have turns := alive.turns
            cases ran
            simp only [Lifetime.InTurn, idle] at turns ⊢
            refine forall_mem_concat turns fun recovered => ?_
            rw [unrecovered] at recovered
            cases recovered
          · exact alive.reserves
          · simp [finished]
          · simp [idle]
  · cases stepped

/-! ## Calls -/

/-- The call that takes a step is the one the constructor waits for, if it waits. -/
theorem Alive.moving {index : Nat} {call : Call BuiltinTask} {env : Environment} {done : Bool}
    {shared : Shared BuiltinTask} {moved : Stage} {item : Startup} (alive : Alive before life log)
    (waits : life.running = some item) (found : life.engine.calls[index]? = some call)
    (move : CallTransition env done call.request life.engine.shared call.stage shared moved) :
    ∃ earlier, life.engine.calls = earlier ++ [call] ∧ index = earlier.length ∧
      item.Makes call.request ∧ ∀ other ∈ earlier, other.stage.ended = true := by
  have turns := alive.turns
  simp only [Lifetime.InTurn, waits] at turns
  obtain ⟨earlier, last, calls, makes, ended⟩ := turns
  rw [calls] at found
  by_cases older : index < earlier.length
  · rw [List.getElem?_append_left older] at found
    exact absurd move (ended_stuck (ended call (List.mem_of_getElem? found)))
  · have bound := (List.getElem?_eq_some_iff.mp found).1
    rw [List.length_append, List.length_singleton] at bound
    have position : index = earlier.length := by omega
    subst position
    rw [List.getElem?_concat_length, Option.some.injEq] at found
    subst found
    exact ⟨earlier, calls, rfl, makes, ended⟩

/-- A call that takes a step while the constructor does not wait is a client's. -/
theorem Alive.client {call : Call BuiltinTask} {env : Environment} {done : Bool}
    {shared : Shared BuiltinTask} {moved : Stage} (alive : Alive before life log)
    (idle : life.running = none) (member : call ∈ life.engine.calls)
    (move : CallTransition env done call.request life.engine.shared call.stage shared moved) :
    call.request.recovered? = none ∧ life.todo = [] := by
  have turns := alive.turns
  simp only [Lifetime.InTurn, idle] at turns
  have unrecovered : call.request.recovered?.isSome ≠ true :=
    fun recovered => ended_stuck (turns call member recovered) move
  refine ⟨by simpa using unrecovered, ?_⟩
  by_contra left
  refine unrecovered (alive.alone ?_ call member)
  simp [Lifetime.remaining, left]

theorem Alive.admitted {index : Nat} {env : Environment} (alive : Alive before life log)
    {engine : State BuiltinTask} (stepped : life.engine.step (.call index env) = some engine) :
    Admitted life.unreserved life.engine log (.call index env) := by
  intro task submission submittedAt found
  cases transition_of_step stepped with
  | @call _ _ call stage shared foundCall move =>
      rw [found] at foundCall
      cases foundCall
      cases waits : life.running with
      | none =>
          have client := alive.client waits (List.mem_of_getElem? found) move
          cases client.1
      | some item =>
          obtain ⟨earlier, calls, _, makes, ended⟩ := alive.moving waits found move
          cases item with
          | reserve other => cases makes
          | restore job =>
              obtain ⟨made, same⟩ := makes
              cases same
              refine ⟨alive.current job waits ⟨.restore (some made) job.submission,
                .journalRestore submittedAt⟩ (by rw [calls, List.getLast?_concat]) rfl, ?_⟩
              rw [calls]
              exact forall_mem_concat (fun other member => prepares_of_ended (ended other member) _)
                rfl

/-- A restore that has not made its record moves on without touching the registry, or
it journals its job. -/
theorem restore_unmade {env : Environment} {done : Bool} {shared next : Shared BuiltinTask}
    {task : Option BuiltinTask} {submission : JobSubmissionRecord} {stage moved : Stage}
    (of : stage.Of (.restore task submission))
    (move : CallTransition env done (.restore task submission) shared stage next moved)
    (unmade : moved.made? = none) :
    (next.registry = shared.registry ∧ stage.made? = none) ∨
      ∃ submittedAt, stage = .journalRestore submittedAt ∧ moved = .registerRestore submittedAt ∧
        next.registry.records = shared.registry.records := by
  cases move with
  | reject what early => exact .inl ⟨rfl, early.made?_eq⟩
  | beginRestore is accepting valid => exact .inl ⟨rfl, rfl⟩
  | unjournaledRestore unjournaled => exact .inl ⟨rfl, rfl⟩
  | journalRestore is journaled appended => exact .inr ⟨_, rfl, rfl, rfl⟩
  | registerRestore is fresh => cases unmade
  | advanceJobIdAgain recovered advanced =>
      cases unmade
      obtain ⟨_, is⟩ := of
      cases is
  | advanceJobId recovered advanced =>
      cases unmade
      obtain ⟨_, is⟩ := of
      cases is
  | advanceSequenceAgain recovered advanced =>
      cases unmade
      obtain ⟨_, is⟩ := of
      cases is
  | advanceSequenceRestored recovered advanced => cases unmade
  | advanceSequenceReserved recovered advanced =>
      obtain ⟨_, is⟩ := of
      cases is
  | push accepted => cases unmade
  | refuse refused => cases unmade
  | raced read => cases unmade
  | drawId =>
      obtain ⟨_, _, is⟩ := of
      cases is
  | drawSequence =>
      obtain ⟨_, _, is⟩ := of
      cases is
  | unjournaledSubmission unjournaled =>
      obtain ⟨_, _, is⟩ := of
      cases is
  | cancel read =>
      obtain ⟨_, is⟩ := of
      cases is
  | stopAccepting =>
      obtain ⟨_, is⟩ := of
      cases is
  | cancelPending => cases of
  | join finished =>
      obtain ⟨_, is⟩ := of
      cases is
  | beginSubmit is _ => cases is
  | journalSubmission is _ _ _ _ => cases is
  | registerSubmission is _ => cases is
  | beginReserve is _ => cases is
  | cancelMissing is _ => cases is
  | cancelFound is _ => cases is
  | beginSetScheduler is => cases is
  | swapScheduler is _ => cases is
  | shutdownAgain is _ _ => cases is
  | beginShutdown is _ _ => cases is
  | closeDrain is => cases is
  | closeCancel is => cases is

/-- A call of the startup that has not made its record leaves its job unrestored. -/
theorem unrestored_move {env : Environment} {done : Bool} {engine : State BuiltinTask}
    {shared : Shared BuiltinTask} {index : Nat} {task : BuiltinTask}
    {submission : JobSubmissionRecord} {stage moved : Stage} {added : List JournalRecord}
    (journaled : engine.registry.journal = some log)
    (of : stage.Of (.restore (some task) submission))
    (found : engine.calls[index]? = some ⟨.restore (some task) submission, stage⟩)
    (move : CallTransition env done (.restore (some task) submission) engine.shared stage shared
      moved)
    (after : JournalSound { engine with
      shared
      calls := engine.calls.set index ⟨.restore (some task) submission, moved⟩ } (log ++ added))
    (unmade : moved.made? = none)
    (unrestored : stage.made? = none → Unrestored engine log submission.id) :
    Unrestored { engine with
      shared
      calls := engine.calls.set index ⟨.restore (some task) submission, moved⟩ } (log ++ added)
      submission.id := by
  rcases restore_unmade of move unmade with ⟨same, none⟩ | ⟨submittedAt, rfl, rfl, same⟩
  · rw [← State.registry] at same
    have written := after.all.journal
    change shared.registry.journal = _ at written
    rw [same, journaled, Option.some.injEq] at written
    rw [← written]
    obtain ⟨free, progress⟩ := unrestored none
    refine ⟨?_, progress⟩
    change shared.registry.find _ = _
    rw [same]
    exact free
  · have bound := (List.getElem?_eq_some_iff.mp found).1
    refine ⟨?_, ⟨.ready, 0, recoveredMessage⟩,
      after.prepared ⟨.restore (some task) submission, .registerRestore submittedAt⟩ ?_ _ _ rfl,
      rfl⟩
    · change shared.registry.records.lookup _ = _
      rw [same]
      exact (unrestored rfl).1
    · exact List.mem_of_getElem? (List.getElem?_set_self bound)

theorem journals?_of_startup {item : Startup} {request : Request BuiltinTask} {stage : Stage}
    (makes : item.Makes request) (of : stage.Of request) {id : JobId}
    (journals : Call.journals? (⟨request, stage⟩ : Call BuiltinTask) = some id) :
    item.restores? = some id := by
  cases stage with
  | journalSubmission draft =>
      obtain ⟨task, options, rfl⟩ := of
      cases item with
      | reserve submission => cases makes
      | restore job =>
          obtain ⟨other, same⟩ := makes
          cases same
  | journalRestore submittedAt =>
      obtain ⟨task, submission, rfl⟩ := of
      cases item with
      | reserve other => cases makes
      | restore job =>
          obtain ⟨other, same⟩ := makes
          cases same
          exact journals
  | _ => cases journals

theorem prepared?_of_startup {item : Startup} {request : Request BuiltinTask} {stage : Stage}
    (makes : item.Makes request) (of : stage.Of request) {id : JobId} {progress : Progress}
    (prepared : Call.prepared? (⟨request, stage⟩ : Call BuiltinTask) = some (id, progress)) :
    item.restores? = some id := by
  cases stage with
  | registerSubmission draft =>
      obtain ⟨task, options, rfl⟩ := of
      cases item with
      | reserve submission => cases makes
      | restore job =>
          obtain ⟨other, same⟩ := makes
          cases same
  | registerRestore submittedAt =>
      obtain ⟨task, submission, rfl⟩ := of
      cases item with
      | reserve other => cases makes
      | restore job =>
          obtain ⟨other, same⟩ := makes
          cases same
          cases prepared
          rfl
  | _ => cases prepared

theorem Alive.others (alive : Alive before life log) {item : Startup}
    (waits : life.running = some item) {job : RecoveredJob} (later : .restore job ∈ life.todo) :
    item.restores? ≠ some job.submission.id := by
  intro same
  have distinct := alive.distinct
  simp only [Lifetime.remaining, waits, Option.toList_some, List.singleton_append,
    List.filterMap_cons, same, List.nodup_cons] at distinct
  exact distinct.1 (List.mem_filterMap.mpr ⟨_, later, rfl⟩)

theorem Alive.call {index : Nat} {env : Environment} (alive : Alive before life log)
    (appends : ∀ id, env.appendError id = none)
    (small : before + next.engine.drawn < Registry.limit)
    (stepped : life.step (.call index env) = some next) :
    ∃ spoken added, Alive before next (log ++ added) ∧
      Grown life.engine next.engine spoken before log added := by
  obtain ⟨engine, ran, rfl⟩ := Option.map_eq_some_iff.mp stepped
  obtain ⟨added, journaled, grown⟩ :=
    alive.journaled.call (alive.admitted ran) appends small ran
  have staged := alive.journaled.staged
  cases transition_of_step ran with
  | @call _ _ call stage shared found move =>
      have member := List.mem_of_getElem? found
      refine ⟨_, added, ⟨journaled, ?_, ?_, alive.distinct, ?_, ?_, ?_⟩, grown⟩
      · cases waits : life.running with
        | none =>
            have client := (alive.client waits member move).1
            have turns := alive.turns
            simp only [Lifetime.InTurn, waits] at turns ⊢
            refine forall_mem_set turns fun recovered => ?_
            rw [client] at recovered
            cases recovered
        | some item =>
            obtain ⟨earlier, calls, position, makes, ended⟩ := alive.moving waits found move
            simp only [Lifetime.InTurn, calls, position]
            exact ⟨earlier, { call with stage }, by simp, makes, ended⟩
      · intro left
        have all := alive.alone left
        exact forall_mem_set all (all call member)
      · intro submission later
        rw [submittedIds_append]
        exact List.mem_append_left _ (alive.reserves submission later)
      · intro job later
        cases waits : life.running with
        | none =>
            have done := (alive.client waits member move).2
            change _ ∈ life.todo at later
            rw [done] at later
            cases later
        | some item =>
            obtain ⟨earlier, calls, position, makes, ended⟩ := alive.moving waits found move
            have other := alive.others waits later
            have of := staged call member
            refine unrestored_of_extends (alive.waiting job later) grown.extended ?_ ?_
            · rw [Action.journals?, found]
              intro speaks
              exact other (journals?_of_startup makes of speaks)
            · have free := (alive.waiting job later).1
              rw [free]
              by_contra taken
              rcases registered_call alive.journaled.journal.sound.registry move taken with
                old | ⟨progress, prepared⟩
              · exact old free
              · exact other (prepared?_of_startup makes of prepared)
      · intro job waits last isLast unmade
        obtain ⟨earlier, calls, position, makes, ended⟩ := alive.moving waits found move
        obtain ⟨task, is⟩ := makes
        obtain ⟨request, before'⟩ := call
        cases is
        have moved : last = ⟨.restore (some task) job.submission, stage⟩ := by
          simp only [calls, position] at isLast
          simpa using isLast.symm
        rw [moved] at unmade
        refine unrestored_move alive.journaled.journal.all.journal (staged _ member) found move
          journaled.journal unmade fun none => ?_
        exact alive.current job waits _ (by rw [calls, List.getLast?_concat]) none

/-! ## The constructor -/

theorem Alive.idle_ended (alive : Alive before life log) (idle : life.running = none)
    (left : life.todo ≠ []) : ∀ call ∈ life.engine.calls, call.stage.ended = true := by
  have turns := alive.turns
  simp only [Lifetime.InTurn, idle] at turns
  intro call member
  refine turns call member (alive.alone ?_ call member)
  simp [Lifetime.remaining, left]

theorem Alive.enter {item : Startup} {rest : List Startup} {request : Request BuiltinTask}
    {engine : State BuiltinTask} (alive : Alive before life log) (idle : life.running = none)
    (first : life.todo = item :: rest) (makes : item.Makes request)
    (ran : life.engine.step (.invoke request) = some engine) :
    Alive before ⟨engine, some item, rest⟩ log ∧ Grown life.engine engine none before log [] := by
  have remaining : Lifetime.remaining ⟨engine, some item, rest⟩ = life.remaining := by
    simp [Lifetime.remaining, idle, first]
  have recovered : request.recovered?.isSome = true := by
    cases item with
    | reserve submission =>
        cases makes
        rfl
    | restore job =>
        obtain ⟨task, rfl⟩ := makes
        rfl
  have numbers : request.Numbers life.unreserved (submittedIds log) := by
    cases item with
    | reserve submission =>
        cases makes
        exact alive.reserves submission (by rw [first]; exact List.mem_cons_self)
    | restore job =>
        obtain ⟨task, rfl⟩ := makes
        obtain ⟨_, progress, known, _⟩ :=
          alive.waiting job (by rw [first]; exact List.mem_cons_self)
        exact progressOf_isSome_iff.mp (Option.isSome_of_eq_some known)
  obtain ⟨journaled, grown⟩ := alive.journaled.invoke numbers ran
  have ended := alive.idle_ended idle (by rw [first]; exact List.cons_ne_nil _ _)
  have left : life.remaining ≠ [] := by simp [Lifetime.remaining, first]
  cases ran
  refine ⟨⟨?_, ?_, ?_, ?_, ?_, ?_, ?_⟩, grown⟩
  · rw [Lifetime.unreserved, remaining]
    exact journaled
  · exact ⟨life.engine.calls, ⟨request, .entered⟩, rfl, makes, ended⟩
  · intro _
    exact forall_mem_concat (alive.alone left) recovered
  · rw [remaining]
    exact alive.distinct
  · intro submission later
    exact alive.reserves submission (by rw [first]; exact List.mem_cons_of_mem _ later)
  · intro job later
    exact alive.waiting job (by rw [first]; exact List.mem_cons_of_mem _ later)
  · intro job waits call last unmade
    cases waits
    exact alive.waiting job (by rw [first]; exact List.mem_cons_self)

theorem Alive.giveUp {rest : Lifetime} {env : Environment} {job : RecoveredJob} {what : Bytes}
    (alive : Alive before life log) (engine : rest.engine = life.engine)
    (todo : ∀ item ∈ rest.todo, item ∈ life.todo)
    (split : life.remaining = .restore job :: rest.todo)
    (unrestored : Unrestored life.engine log job.submission.id)
    (ended : ∀ call ∈ life.engine.calls, call.stage.ended = true)
    (failed : rest.giveUp env job what = some next) :
    ∃ spoken added, Alive before next (log ++ added) ∧
      Grown life.engine next.engine spoken before log added := by
  simp only [Lifetime.giveUp] at failed
  split at failed
  · cases failed
  · cases failed
    obtain ⟨journaled, grown⟩ := @journaled_append _ _ _ _ (failedRecovery job what)
      alive.journaled unrestored fun call member => prepares_of_ended (ended call member) _
    rw [engine]
    have distinct := alive.distinct
    rw [split, List.filterMap_cons_some (show Startup.restores? _ = some _ from rfl),
      List.nodup_cons] at distinct
    refine ⟨_, _, ⟨?_, ?_, ?_, ?_, ?_, ?_, ?_⟩, grown⟩
    · have same : Lifetime.unreserved
          ⟨appendTransition life.engine (failedRecovery job what), none, rest.todo⟩ =
          life.unreserved := by
        rw [Lifetime.unreserved, Lifetime.unreserved, split]
        rfl
      rw [same]
      exact journaled
    · exact fun call member _ => ended call member
    · intro _
      exact alive.alone (by rw [split]; exact List.cons_ne_nil _ _)
    · exact distinct.2
    · intro submission later
      rw [submittedIds_append]
      exact List.mem_append_left _ (alive.reserves submission (todo _ later))
    · intro other later
      refine unrestored_of_extends (alive.waiting other (todo _ later)) grown.extended ?_ rfl
      intro same
      refine distinct.1 (List.mem_filterMap.mpr ⟨_, later, ?_⟩)
      exact same.symm
    · exact nofun

/-- The constructor leaves the loop body: it gives the job up or goes on. -/
theorem Lifetime.leave_cases {env : Environment} {observer : Option Bytes} {item : Startup}
    {stage : Stage} (left : life.leave env observer item stage = some next) :
    stage.ended = true ∧
      ((∃ job what, item = .restore job ∧ life.giveUp env job what = some next ∧
          (stage = .threw what ∨ observer = some what)) ∨
        ((∀ what, stage ≠ .threw what) ∧ next = { life with running := none })) := by
  have goesOn : (∀ what, stage ≠ .threw what) →
      (if stage.ended then some { life with running := none } else none) = some next →
      stage.ended = true ∧ (∀ what, stage ≠ .threw what) ∧
        next = { life with running := none } := by
    intro fine ended
    split at ended
    · next done => exact ⟨done, fine, (Option.some.inj ended).symm⟩
    · cases ended
  cases stage with
  | threw what =>
      cases item with
      | reserve submission => cases left
      | restore job => exact ⟨rfl, .inl ⟨job, what, rfl, left, .inl rfl⟩⟩
  | returnedHandle id ref =>
      cases item with
      | reserve submission =>
          exact (goesOn (fun what is => by cases is) left).imp_right .inr
      | restore job =>
          cases observer with
          | some what => exact ⟨rfl, .inl ⟨job, what, rfl, left, .inr rfl⟩⟩
          | none => exact ⟨rfl, .inr ⟨fun what is => (by cases is), (Option.some.inj left).symm⟩⟩
  | _ =>
      cases item <;> exact (goesOn (fun what is => by cases is) left).imp_right .inr

theorem Alive.waiting_ended {item : Startup} (alive : Alive before life log)
    (waits : life.running = some item) {call : Call BuiltinTask}
    (last : life.engine.calls.getLast? = some call) (ended : call.stage.ended = true) :
    ∀ other ∈ life.engine.calls, other.stage.ended = true := by
  have turns := alive.turns
  simp only [Lifetime.InTurn, waits] at turns
  obtain ⟨earlier, same, calls, _, endedEarlier⟩ := turns
  rw [calls, List.getLast?_concat, Option.some.injEq] at last
  subst last
  rw [calls]
  exact forall_mem_concat endedEarlier ended

theorem Alive.leave {item : Startup} (alive : Alive before life log)
    (waits : life.running = some item) {call : Call BuiltinTask}
    (last : life.engine.calls.getLast? = some call) (ended : call.stage.ended = true)
    (fine : ∀ what, call.stage ≠ .threw what) :
    Alive before { life with running := none } log := by
  have turns := alive.turns
  simp only [Lifetime.InTurn, waits] at turns
  obtain ⟨earlier, same, calls, makes, _⟩ := turns
  obtain rfl : same = call := by
    rw [calls, List.getLast?_concat] at last
    exact Option.some.inj last
  have member : same ∈ life.engine.calls := by
    rw [calls]
    exact List.mem_append_right _ (List.mem_singleton.mpr rfl)
  have remaining : life.remaining = item :: life.todo := by
    simp [Lifetime.remaining, waits]
  have distinct := alive.distinct
  rw [remaining] at distinct
  refine ⟨?_, ?_, ?_, ?_, alive.reserves, alive.waiting, nofun⟩
  · refine ⟨alive.journaled.journal, alive.journaled.staged, ?_, alive.journaled.recorded⟩
    have numbered := alive.journaled.numbered
    rw [Lifetime.unreserved, remaining] at numbered
    cases item with
    | reserve submission =>
        obtain ⟨request, stage⟩ := same
        cases makes
        have of := alive.journaled.staged _ member
        have returned : stage = .returned := by
          cases stage with
          | returned => rfl
          | threw what => exact absurd rfl (fine what)
          | returnedHandle id ref => cases of
          | returnedBool answer =>
              obtain ⟨id, is⟩ := of
              cases is
          | _ => cases ended
        subst returned
        exact numbered.drop ((numbered.placed _ member).2 submission rfl)
    | restore job => exact numbered
  · exact fun other inside _ => alive.waiting_ended waits last ended other inside
  · intro left
    exact alive.alone (by rw [remaining]; exact List.cons_ne_nil _ _)
  · cases item with
    | reserve submission => exact distinct
    | restore job => exact (List.nodup_cons.mp distinct).2

theorem Alive.startup {env : Environment} (alive : Alive before life log)
    (stepped : life.startup env none = some next) :
    ∃ spoken added, Alive before next (log ++ added) ∧
      Grown life.engine next.engine spoken before log added := by
  unfold Lifetime.startup at stepped
  split at stepped
  · next item waits =>
      split at stepped
      · cases stepped
      · next call last =>
          obtain ⟨ended, ⟨job, what, rfl, failed, threw | observer⟩ | ⟨fine, rfl⟩⟩ :=
            Lifetime.leave_cases stepped
          · refine alive.giveUp rfl (fun _ member => member) ?_ ?_ ?_ failed
            · simp [Lifetime.remaining, waits]
            · exact alive.current job waits call last (by rw [threw]; rfl)
            · exact alive.waiting_ended waits last ended
          · cases observer
          · refine ⟨none, [], ?_, .refl alive.journaled.journal.all.journal
              alive.journaled.numbered.bounded⟩
            rw [List.append_nil]
            exact alive.leave waits last ended fine
  · next idle =>
      split at stepped
      · cases stepped
      · next submission rest first =>
          obtain ⟨engine, ran, rfl⟩ := Option.map_eq_some_iff.mp stepped
          obtain ⟨entered, grown⟩ := alive.enter idle first rfl ran
          exact ⟨none, [], by rwa [List.append_nil], grown⟩
      · next job rest first =>
          split at stepped
          · next what failed =>
              refine alive.giveUp (show Lifetime.engine { life with todo := rest } = _ from rfl)
                ?_ ?_ ?_ ?_ stepped
              · intro item member
                rw [first]
                exact List.mem_cons_of_mem _ member
              · simp [Lifetime.remaining, idle, first]
              · exact alive.waiting job (by rw [first]; exact List.mem_cons_self)
              · exact alive.idle_ended idle (by rw [first]; exact List.cons_ne_nil _ _)
          · next task made =>
              obtain ⟨engine, ran, rfl⟩ := Option.map_eq_some_iff.mp stepped
              obtain ⟨entered, grown⟩ := alive.enter idle first ⟨task, rfl⟩ ran
              exact ⟨none, [], by rwa [List.append_nil], grown⟩

/-- Every step of a lifetime grows the journal and keeps what holds between steps. -/
theorem Alive.step {event : Event} (alive : Alive before life log)
    (appends : ∀ id, event.env.appendError id = none) (observed : event.observer = none)
    (small : before + next.engine.drawn < Registry.limit) (stepped : life.step event = some next) :
    ∃ spoken added, Alive before next (log ++ added) ∧
      Grown life.engine next.engine spoken before log added := by
  cases event with
  | startup env observer =>
      obtain rfl : observer = none := observed
      exact alive.startup stepped
  | invoke command => exact ⟨none, alive.invoke stepped⟩
  | worker index env => exact ⟨none, alive.worker stepped⟩
  | call index env => exact alive.call appends small stepped

end Steps

end Kronos.Daemon
