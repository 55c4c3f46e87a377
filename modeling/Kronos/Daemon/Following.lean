import Kronos.Daemon.Recovery
import Kronos.Engine.Tracking

/-!
# A daemon that loses no job

In every lifetime on the log: a job that the log has accepted and that is not
finished is registered, or is just being registered, or is still to be restored.
-/

set_option autoImplicit false

namespace Kronos.Daemon

open Engine Wal Threads

/-! ## Built-in jobs -/

theorem status_runSlice_prime (task : PrimeCountTask) (context : TaskContext) :
    (task.runSlice context).1.status ≠ .failed := by
  unfold PrimeCountTask.runSlice
  split
  · simp [SliceResult.cancelled]
  · split
    · simp [SliceResult.completed]
    · simp only
      split
      · simp [SliceResult.cancelled]
      · split <;> simp [SliceResult.completed, SliceResult.yielded]

theorem status_runSlice_step (task : StepTask) (context : TaskContext) :
    (task.runSlice context).1.status ≠ .failed := by
  unfold StepTask.runSlice
  split
  · simp [SliceResult.cancelled]
  · split
    · simp [SliceResult.completed]
    · simp only
      split
      · simp [SliceResult.cancelled]
      · split <;> simp [SliceResult.completed, SliceResult.yielded]

theorem neverFails_builtin : NeverFails BuiltinTask := by
  intro task context
  cases task with
  | prime task => exact status_runSlice_prime task context
  | step task => exact status_runSlice_step task context

/-! ## A lifetime that loses no job -/

/-- The jobs that are still to be restored. -/
def Lifetime.unrestored (life : Lifetime) : List JobId :=
  life.remaining.filterMap Startup.restores?

structure Following (life : Lifetime) (log : List JournalRecord) : Prop where
  follows : Follows life.engine log life.unrestored
  restores : ∀ job, .restore job ∈ life.todo → job.submission ∈ submissions log
  /-- A restore that has made its record has registered it. -/
  made : ∀ job, life.running = some (.restore job) →
    ∀ call, life.engine.calls.getLast? = some call → call.stage.made? ≠ none →
      life.engine.registry.find job.submission.id ≠ none

section Steps

variable {before : Nat} {life next : Lifetime} {log added : List JournalRecord}

theorem mem_submissions_append {submission : JobSubmissionRecord}
    (member : submission ∈ submissions log) : submission ∈ submissions (log ++ added) := by
  rw [submissions_append]
  exact List.mem_append_left _ member

/-- The engine takes a step of its own. -/
theorem Following.engine {action : Action BuiltinTask} {engine : State BuiltinTask}
    (following : Following life log) (alive : Alive before life log)
    (nonzero : ∀ id ∈ submittedIds log, id ≠ 0)
    (small : before + life.engine.drawn < Registry.limit)
    (ran : life.engine.step action = some engine) (appends : action.Appends)
    (journals : JournalsFreeIds life.engine action)
    (invoked : ∀ task submission, action = .invoke (.restore task submission) →
      submission ∈ submissions log)
    (written : engine.registry.journal = some (log ++ added)) :
    Follows engine (log ++ added) life.unrestored := by
  have room := following.follows.room alive.journaled.numbered nonzero small
  exact following.follows.step neverFails_builtin appends alive.journaled journals invoked room ran
    written

theorem find_kept {action : Action BuiltinTask} {engine : State BuiltinTask}
    (alive : Alive before life log) (ran : life.engine.step action = some engine) {id : JobId}
    (found : life.engine.registry.find id ≠ none) : engine.registry.find id ≠ none := by
  obtain ⟨ref, is⟩ := Option.ne_none_iff_exists'.mp found
  rw [find_step alive.journaled.journal.sound ran is]
  exact Option.some_ne_none ref

/-- A restore has registered its job when it has made the record. -/
theorem registered_of_made {env : Environment} {done : Bool} {shared next : Shared BuiltinTask}
    {task : Option BuiltinTask} {submission : JobSubmissionRecord} {stage moved : Stage}
    (of : stage.Of (.restore task submission)) (free : stage.made? = none)
    (move : CallTransition env done (.restore task submission) shared stage next moved)
    (made : moved.made? ≠ none) : next.registry.find submission.id ≠ none := by
  cases move with
  | registerRestore is fresh =>
      cases is
      refine ne_of_eq_of_ne (Registry.find_register _ _ fresh _) ?_
      rw [if_pos rfl]
      exact Option.some_ne_none _
  | registerSubmission is =>
      obtain ⟨_, _, other⟩ := of
      cases other
  | reject what early => exact absurd rfl made
  | advanceJobIdAgain recovered advanced => exact absurd free made
  | advanceJobId recovered advanced => exact absurd free made
  | advanceSequenceAgain recovered advanced => exact absurd free made
  | advanceSequenceRestored recovered advanced => cases free
  | push accepted => cases free
  | refuse refused => cases free
  | raced read => cases free
  | _ => exact absurd rfl made

theorem Following.worker {index : Nat} {env : Environment} (following : Following life log)
    (alive : Alive before life log) (nonzero : ∀ id ∈ submittedIds log, id ≠ 0)
    (appends : ∀ id, env.appendError id = none)
    (small : before + life.engine.drawn < Registry.limit)
    (stepped : life.step (.worker index env) = some next)
    (written : next.engine.registry.journal = some (log ++ added)) :
    Following next (log ++ added) := by
  obtain ⟨engine, ran, rfl⟩ := Option.map_eq_some_iff.mp stepped
  have calls : engine.calls = life.engine.calls := by
    cases transition_of_step ran with
    | worker found move => rfl
  refine ⟨?_, fun job later => mem_submissions_append (following.restores job later), ?_⟩
  · refine following.engine alive nonzero small ran appends trivial ?_ written
    intro task submission is
    cases is
  · intro job waits call last made
    rw [calls] at last
    exact find_kept alive ran (following.made job waits call last made)

theorem Following.call {index : Nat} {env : Environment} (following : Following life log)
    (alive : Alive before life log) (nonzero : ∀ id ∈ submittedIds log, id ≠ 0)
    (appends : ∀ id, env.appendError id = none)
    (small : before + life.engine.drawn < Registry.limit)
    (stepped : life.step (.call index env) = some next)
    (written : next.engine.registry.journal = some (log ++ added)) :
    Following next (log ++ added) := by
  obtain ⟨engine, ran, rfl⟩ := Option.map_eq_some_iff.mp stepped
  refine ⟨?_, fun job later => mem_submissions_append (following.restores job later), ?_⟩
  · refine following.engine alive nonzero small ran appends ?_ ?_ written
    · exact alive.journaled.journalsFreeIds (alive.admitted ran)
    · intro task submission is
      cases is
  · intro job waits last isLast made
    cases transition_of_step ran with
    | @call _ _ call stage shared found move =>
        obtain ⟨earlier, calls, position, ⟨task, is⟩, _⟩ := alive.moving waits found move
        obtain ⟨request, before'⟩ := call
        cases is
        have moved : last = ⟨.restore (some task) job.submission, stage⟩ := by
          simp only [calls, position] at isLast
          simpa using isLast.symm
        rw [moved] at made
        by_cases free : before'.made? = none
        · have of := alive.journaled.staged _ (List.mem_of_getElem? found)
          exact registered_of_made of free move made
        · have isLast : life.engine.calls.getLast? =
              some ⟨.restore (some task) job.submission, before'⟩ := by
            rw [calls, List.getLast?_concat]
          exact find_kept alive ran (following.made job waits _ isLast free)

theorem Following.invoke {command : Command} (following : Following life log)
    (alive : Alive before life log) (nonzero : ∀ id ∈ submittedIds log, id ≠ 0)
    (small : before + life.engine.drawn < Registry.limit)
    (stepped : life.step (.invoke command) = some next)
    (written : next.engine.registry.journal = some (log ++ added)) :
    Following next (log ++ added) := by
  simp only [Lifetime.step] at stepped
  split at stepped
  · next ready =>
      split at stepped
      · cases stepped
      · next request requested =>
          obtain ⟨engine, ran, rfl⟩ := Option.map_eq_some_iff.mp stepped
          obtain ⟨idle, finished⟩ : life.running = none ∧ life.todo = [] := by
            simpa [Lifetime.ready] using ready
          refine ⟨?_, ?_, ?_⟩
          · refine following.engine alive nonzero small ran (fun _ => rfl) trivial ?_ written
            intro task submission is
            cases is
            cases (@Command.numbers _ _ [] requested).2
          · simp [finished]
          · intro job waits
            simp [idle] at waits
  · cases stepped

/-! ## The constructor -/

theorem Following.enter {item : Startup} {rest : List Startup} {request : Request BuiltinTask}
    {engine : State BuiltinTask} (following : Following life log) (alive : Alive before life log)
    (nonzero : ∀ id ∈ submittedIds log, id ≠ 0)
    (small : before + life.engine.drawn < Registry.limit) (idle : life.running = none)
    (first : life.todo = item :: rest) (makes : item.Makes request)
    (ran : life.engine.step (.invoke request) = some engine)
    (written : engine.registry.journal = some (log ++ added)) :
    Following ⟨engine, some item, rest⟩ (log ++ added) := by
  have same : Lifetime.unrestored ⟨engine, some item, rest⟩ = life.unrestored := by
    simp [Lifetime.unrestored, Lifetime.remaining, idle, first]
  refine ⟨?_, ?_, ?_⟩
  · rw [same]
    refine following.engine alive nonzero small ran (fun _ => rfl) trivial ?_ written
    intro task submission is
    cases is
    cases item with
    | reserve other => cases makes
    | restore job =>
        obtain ⟨made, is⟩ := makes
        cases is
        exact following.restores job (by rw [first]; exact List.mem_cons_self)
  · intro job later
    refine mem_submissions_append (following.restores job ?_)
    rw [first]
    exact List.mem_cons_of_mem _ later
  · intro job waits call last made
    cases ran
    rw [List.getLast?_concat] at last
    cases last
    exact absurd rfl made

theorem closing_append {engine : State BuiltinTask} {record : JobTransitionRecord}
    (closing : Closing engine) : Closing (appendTransition engine record) :=
  ⟨closing.staged, closing.mutex, closing.closed, closing.joined, closing.drained,
    closing.returned⟩

theorem Following.giveUp {rest : Lifetime} {env : Environment} {job : RecoveredJob} {what : Bytes}
    (following : Following life log) (alive : Alive before life log)
    (engine : rest.engine = life.engine) (todo : ∀ item ∈ rest.todo, item ∈ life.todo)
    (split : life.remaining = .restore job :: rest.todo)
    (unrestored : Unrestored life.engine log job.submission.id)
    (failed : rest.giveUp env job what = some next)
    (written : next.engine.registry.journal = some (log ++ added)) :
    Following next (log ++ added) := by
  simp only [Lifetime.giveUp] at failed
  split at failed
  · cases failed
  · cases failed
    rw [engine] at written ⊢
    have journaled := alive.journaled.journal.all.journal
    have appended : added = [.transition (failedRecovery job what)] := by
      change life.engine.registry.journal.add _ = _ at written
      rw [journaled] at written
      exact (List.append_cancel_left (Option.some.inj written)).symm
    subst appended
    obtain ⟨_, progress, known, _⟩ := unrestored
    have own : progressOf (log ++ [.transition (failedRecovery job what)]) job.submission.id =
        some (failedRecovery job what).progress := progressOf_append_transition known
    have follows := following.follows
    refine ⟨⟨⟨follows.unfailed.records, follows.unfailed.workers⟩, ⟨?_, ?_⟩, follows.keyed,
      closing_append follows.closing, ?_⟩, ?_, ?_⟩
    · intro record member
      exact (follows.logged.records record member).evolve (.refl record)
    · intro call member task submission is
      exact mem_submissions_append (follows.logged.restores call member task submission is)
    · intro id told is live
      by_cases same : id = job.submission.id
      · subst same
        rw [own] at is
        cases is
        cases live
      · rw [progressOf_append_other (Ne.symm same)] at is
        rcases follows.tracked id told is live with found | prepared | waiting
        · exact .inl found
        · exact .inr (.inl prepared)
        · rw [Lifetime.unrestored, split, List.filterMap_cons_some
            (show Startup.restores? _ = some _ from rfl), List.mem_cons] at waiting
          exact .inr (.inr (waiting.resolve_left same))
    · intro other later
      exact mem_submissions_append (following.restores other (todo _ later))
    · intro other waits
      cases waits

/-- A restore that returns has made its record. -/
theorem made_of_fine {job : RecoveredJob} {call : Call BuiltinTask} (alive : Alive before life log)
    (waits : life.running = some (.restore job)) (last : life.engine.calls.getLast? = some call)
    (ended : call.stage.ended = true) (fine : ∀ what, call.stage ≠ .threw what) :
    call.stage.made? ≠ none := by
  have turns := alive.turns
  simp only [Lifetime.InTurn, waits] at turns
  obtain ⟨earlier, same, calls, ⟨task, makes⟩, _⟩ := turns
  rw [calls, List.getLast?_concat, Option.some.injEq] at last
  subst last
  obtain ⟨request, stage⟩ := same
  cases makes
  have of := alive.journaled.staged _ (calls ▸ List.mem_append_right _ (List.mem_singleton.mpr rfl))
  cases stage with
  | returnedHandle id ref => exact Option.some_ne_none ref
  | threw what => exact absurd rfl (fine what)
  | returnedBool answer =>
      obtain ⟨_, other⟩ := of
      cases other
  | returned => cases of
  | _ => cases ended

theorem Following.leave {item : Startup} {call : Call BuiltinTask} (following : Following life log)
    (alive : Alive before life log) (waits : life.running = some item)
    (last : life.engine.calls.getLast? = some call) (ended : call.stage.ended = true)
    (fine : ∀ what, call.stage ≠ .threw what) :
    Following { life with running := none } log := by
  have follows := following.follows
  refine ⟨⟨follows.unfailed, follows.logged, follows.keyed, follows.closing, ?_⟩,
    following.restores, ?_⟩
  · intro id told is live
    rcases follows.tracked id told is live with found | prepared | waiting
    · exact .inl found
    · exact .inr (.inl prepared)
    · cases item with
      | reserve submission =>
          right
          right
          simpa [Lifetime.unrestored, Lifetime.remaining, waits, Startup.restores?] using waiting
      | restore job =>
          have split : id = job.submission.id ∨
              id ∈ Lifetime.unrestored { life with running := none } := by
            simpa [Lifetime.unrestored, Lifetime.remaining, waits, Startup.restores?] using waiting
          rcases split with rfl | later
          · left
            exact following.made job waits call last (made_of_fine alive waits last ended fine)
          · exact .inr (.inr later)
  · intro job other
    cases other

theorem Following.startup {env : Environment} (following : Following life log)
    (alive : Alive before life log) (nonzero : ∀ id ∈ submittedIds log, id ≠ 0)
    (small : before + life.engine.drawn < Registry.limit)
    (stepped : life.startup env none = some next)
    (written : next.engine.registry.journal = some (log ++ added)) :
    Following next (log ++ added) := by
  unfold Lifetime.startup at stepped
  split at stepped
  · next item waits =>
      split at stepped
      · cases stepped
      · next call last =>
          obtain ⟨ended, ⟨job, what, rfl, failed, threw | observer⟩ | ⟨fine, rfl⟩⟩ :=
            Lifetime.leave_cases stepped
          · refine following.giveUp alive rfl (fun _ member => member) ?_ ?_ failed written
            · simp [Lifetime.remaining, waits]
            · exact alive.current job waits call last (by rw [threw]; rfl)
          · cases observer
          · have nothing : added = [] := by
              change life.engine.registry.journal = _ at written
              rw [alive.journaled.journal.all.journal, Option.some.injEq] at written
              exact List.self_eq_append_right.mp written
            rw [nothing, List.append_nil]
            exact following.leave alive waits last ended fine
  · next idle =>
      split at stepped
      · cases stepped
      · next submission rest first =>
          obtain ⟨engine, ran, rfl⟩ := Option.map_eq_some_iff.mp stepped
          exact following.enter alive nonzero small idle first rfl ran written
      · next job rest first =>
          split at stepped
          · next what failed =>
              refine following.giveUp alive
                (show Lifetime.engine { life with todo := rest } = _ from rfl) ?_ ?_ ?_ stepped
                written
              · intro item member
                rw [first]
                exact List.mem_cons_of_mem _ member
              · simp [Lifetime.remaining, idle, first]
              · exact alive.waiting job (by rw [first]; exact List.mem_cons_self)
          · next task made =>
              obtain ⟨engine, ran, rfl⟩ := Option.map_eq_some_iff.mp stepped
              exact following.enter alive nonzero small idle first ⟨task, rfl⟩ ran written

theorem Following.step {event : Event} (following : Following life log)
    (alive : Alive before life log) (nonzero : ∀ id ∈ submittedIds log, id ≠ 0)
    (appends : ∀ id, event.env.appendError id = none) (observed : event.observer = none)
    (small : before + life.engine.drawn < Registry.limit) (stepped : life.step event = some next)
    (written : next.engine.registry.journal = some (log ++ added)) :
    Following next (log ++ added) := by
  cases event with
  | startup env observer =>
      obtain rfl : observer = none := observed
      exact following.startup alive nonzero small stepped written
  | invoke command => exact following.invoke alive nonzero small stepped written
  | worker index env => exact following.worker alive nonzero appends small stepped written
  | call index env => exact following.call alive nonzero appends small stepped written

end Steps

/-! ## Lifetimes on one log -/

theorem Grows.nonzero {log : List JournalRecord} (grown : Grows [] log) :
    ∀ id ∈ submittedIds log, id ≠ 0 := by
  intro id member
  obtain ⟨submission, inside, rfl⟩ := List.mem_map.mp member
  obtain ⟨record, inLog, is⟩ := List.mem_filterMap.mp inside
  have accepted := (grown.valid trivial (by simp)).2 record (by simpa using inLog)
  cases record with
  | transition other => cases is
  | submission other =>
      cases is
      exact accepted.1

/-- The startup restores every job that is not finished. -/
theorem following_start {config : SchedulerConfig} {queue : TaskQueue}
    {requested detected : Nat} {log : List JournalRecord}
    {report : RecoveryReport} (made : TaskQueue.make config = .ok queue) (grown : Grows [] log)
    (tells : Tells report log) :
    Following { engine := .make queue requested detected (some log), todo := startupOf report }
      log := by
  have replayable := Grows.replayable grown
  have starts : Starts (State.make queue requested detected (some log) : State BuiltinTask) :=
    ⟨config, queue, requested, detected, some log, made, rfl⟩
  refine ⟨⟨⟨?_, ?_⟩, ⟨?_, ?_⟩, List.nodup_nil, starts.closing, ?_⟩, ?_, ?_⟩
  · intro record member
    cases member
  · intro worker member
    rw [List.eq_of_mem_replicate member]
    trivial
  · intro record member
    cases member
  · intro call member
    cases member
  · intro id progress told live
    obtain ⟨submission, inside, rfl⟩ :=
      List.mem_map.mp (progressOf_isSome_iff.mp (Option.isSome_of_eq_some told))
    obtain ⟨job, isJob, rfl, _⟩ := replay_of_submission replayable inside
    rw [replay_progress replayable isJob, Option.some.injEq] at told
    subst told
    refine .inr (.inr ?_)
    rw [Lifetime.unrestored, Lifetime.remaining, Option.toList_none, List.nil_append,
      restores_startupOf]
    refine List.mem_map.mpr ⟨job, List.mem_filter.mpr ⟨(tells.jobs job).mpr isJob, ?_⟩, rfl⟩
    rw [show isTerminal job.state = false from live]
    rfl
  · intro job later
    obtain ⟨inside, _⟩ := restore_mem_startupOf.mp later
    rw [← replay_submissions]
    exact List.mem_map.mpr ⟨job, (tells.jobs job).mp inside, rfl⟩
  · intro job waits
    cases waits

/-- The living daemon has lost no job of the log. -/
def World.Follows (world : World) : Prop :=
  ∀ life, world.life = some life → Following life (records world.log)

theorem World.Follows.step {world next : World} {happening : Happening} (follows : world.Follows)
    (sane : Sane world) (undisturbed : Undisturbed world happening)
    (few : next.drawn < Registry.limit) (stepped : world.step happening = some next) :
    next.Follows := by
  obtain ⟨appends, observed⟩ := undisturbed
  intro living alive
  cases happening with
  | start config requested detected repair =>
      obtain rfl : repair = {} := appends
      obtain ⟨report, recovered, tells⟩ := sane.recover
      rw [Wal.recover] at recovered
      simp only [World.step, recovered] at stepped
      split at stepped
      · next queue dead made =>
          cases stepped
          cases alive
          exact following_start made sane.grown tells
      · cases stepped
  | run event times =>
      simp only [World.step] at stepped
      split at stepped
      · cases stepped
      · next life before =>
          split at stepped
          · cases stepped
          · next later ran =>
              cases stepped
              cases alive
              have lives := sane.living life before
              rw [World.drawn, @total_engines _ living rfl] at few
              obtain ⟨spoken, added, after, grown⟩ := lives.step appends observed few ran
              have stamps := records_appended lives.journaled.journal.all.journal grown.journaled
                times
              rw [records_append, stamps]
              have drawn := grown.drawn
              change total State.drawn world.past + living.engine.drawn < Registry.limit at few
              exact (follows life before).step lives (Grows.nonzero sane.grown) appends observed
                (by omega) ran grown.journaled
  | history repair =>
      simp only [World.step] at stepped
      split at stepped
      · cases stepped
      · split at stepped
        · cases stepped
          exact follows living alive
        · cases stepped
  | stop =>
      simp only [World.step] at stepped
      split at stepped
      · cases stepped
      · cases stepped
        cases alive
  | crash event times complete torn =>
      simp only [World.step] at stepped
      split at stepped
      · cases stepped
      · split at stepped
        · cases stepped
        · cases stepped
          cases alive

theorem World.follows_of_reaches {world : World} (reached : Reaches World.step Undisturbed {} world)
    (few : world.drawn < Registry.limit) : world.Follows := by
  have holds := reached.invariant
    (fun world => Reaches World.step Undisturbed {} world ∧
      (∀ life, world.life = some life → life.Proper) ∧
      (world.drawn < Registry.limit → world.Follows))
    ⟨.refl, fun life is => (by cases is), fun _ life is => (by cases is)⟩ ?_
  · exact holds.2.2 few
  · rintro state happening next ⟨ran, proper, follows⟩ undisturbed stepped
    obtain ⟨kept, more⟩ := drawn_step proper undisturbed.1 stepped
    refine ⟨.tail happening ran undisturbed stepped, kept, fun few => ?_⟩
    have fewer := Nat.lt_of_le_of_lt more few
    exact (follows fewer).step (Sane.of_reaches ran fewer) undisturbed few stepped

end Kronos.Daemon
